/-
  Io/PartialWrites.lean --- the three loops that write a buffer out.

  Embedded source: `write_all` of ftl/io/pipe.hpp, the stdin loop of `ftl_run_command`
  and the content loop of `ftl_temp_file_create` (ftl/ftl.h).

  The copies differ in the memory they read, in where the length comes from and in the
  test before the loop; `WriteLoop` holds these.  The pointer, the count and the counter
  are the offset, the `size_t` difference and the `size_t` sum of the source.

      write_loops_deliver      each copy delivers its buffer as far as `written` says
      WriteLoop.handed_over    a copy is a `Handover` of its buffer
      stdinLoop_feeds, writeAll_feeds   they are the loops of the two runners
-/
import Ftl.Foundation.Handover
import Ftl.Process.PathScan
import Ftl.Process.RunCommand

set_option autoImplicit false

namespace Ftl.Io

open Foundation (AskLoop Handover Grant)
open Process (Bytes CString nul untilNul Errno Reply)

/-! ## Memory -/

/-- The number of values of a `size_t`. -/
def sizeRange : Nat := 18446744073709551616

/-- The `size_t` sum of two `size_t`. -/
def sizeAdd (a b : Nat) : Nat := (a + b) % sizeRange

/-- The `size_t` difference of two `size_t`. -/
def sizeSub (a b : Nat) : Nat := (a + sizeRange - b) % sizeRange

theorem sizeAdd_of_lt {a b : Nat} (h : a + b < sizeRange) : sizeAdd a b = a + b :=
  Nat.mod_eq_of_lt h

theorem sizeSub_of_le {a b : Nat} (hle : b ≤ a) (ha : a < sizeRange) :
    sizeSub a b = a - b := by
  unfold sizeSub
  rw [show a + sizeRange - b = a - b + sizeRange by omega, Nat.add_mod_right]
  exact Nat.mod_eq_of_lt (by omega)

/-- A pointer to bytes and their number. -/
structure Buffer where
  bytes : Bytes
  fits : bytes.length < sizeRange

/-- A C string in memory. -/
structure Text extends CString where
  fits : bytes.length < sizeRange

namespace Text

/-- The bytes from the pointer on, with the terminator. -/
def memory (s : Text) : Bytes := s.bytes ++ [nul]

/-- `strlen(s)`. -/
def strlen (s : Text) : Nat := (untilNul s.memory).length

/-- `*s`. -/
def deref (s : Text) : UInt8 := s.memory.headD nul

theorem strlen_eq (s : Text) : s.strlen = s.bytes.length := by
  have hall : ∀ b ∈ s.bytes, decide (b ≠ nul) = true := by
    intro b hb
    refine decide_eq_true ?_
    intro hnul
    rw [hnul] at hb
    exact s.nul_not_mem hb
  have hstops : [nul].takeWhile (fun b => decide (b ≠ nul)) = [] := by
    rw [List.takeWhile_cons_of_neg (by simp)]
  rw [strlen, untilNul, memory, List.takeWhile_append_of_pos hall, hstops, List.append_nil]

theorem deref_eq_nul_iff (s : Text) : s.deref = nul ↔ s.bytes = [] := by
  unfold deref memory
  cases hbytes : s.bytes with
  | nil => simp
  | cons b bs =>
      have hne : b ≠ nul := by
        intro hnul
        refine s.nul_not_mem ?_
        rw [hbytes, hnul]
        exact .head bs
      simp [hne]

end Text

/-! ## The loops -/

/-- What `write` returns: a count, or -1 with an errno. -/
inductive WriteResult where
  | wrote (n : Nat)
  | failed (e : Errno)
  deriving DecidableEq, Repr

/-- Where a copy of the loop is. -/
inductive LoopState where
  /-- in `write(fd, data + written, total - written)` -/
  | writing (written : Nat)
  /-- past the loop, as `written < total` no longer holds -/
  | finished (written : Nat)
  /-- past the loop, by the `return` or `break` after an error -/
  | brokeOff (written : Nat)
  deriving DecidableEq, Repr

/-- The counter. -/
def LoopState.written : LoopState → Nat
  | .writing written | .finished written | .brokeOff written => written

/-- The loop, and what the descriptor has received. -/
structure Progress where
  state : LoopState
  delivered : Bytes

/-- One copy of the loop. -/
structure WriteLoop where
  /-- the bytes from the pointer on -/
  memory : Bytes
  /-- the bound of `written` -/
  total : Nat
  /-- whether the test before the loop lets it begin -/
  entered : Bool

/-- `write_all(fd, data, size)`. -/
def writeAll (data : Buffer) : WriteLoop where
  memory := data.bytes
  total := data.bytes.length
  entered := true

/-- The stdin loop of `ftl_run_command`; NULL is `none`. -/
def stdinLoop : Option Text → WriteLoop
  | none => { memory := [], total := 0, entered := false }
  | some stdinData =>
      { memory := stdinData.memory, total := stdinData.strlen
        entered := decide (stdinData.deref ≠ nul) }

/-- The content loop of `ftl_temp_file_create`. -/
def contentLoop (content : Text) : WriteLoop where
  memory := content.memory
  total := content.strlen
  entered := true

namespace WriteLoop

/-- `while (written < total)`. -/
def head (L : WriteLoop) (written : Nat) : LoopState :=
  if written < L.total then .writing written else .finished written

/-- The third argument of `write`. -/
def count (L : WriteLoop) (written : Nat) : Nat := sizeSub L.total written

/-- The loop body after `write`. -/
def afterWrite (L : WriteLoop) (written : Nat) : WriteResult → LoopState
  | .wrote n => L.head (sizeAdd written n)
  | .failed .eintr => L.head written
  | .failed _ => .brokeOff written

/-- What the kernel takes from `data + written`. -/
def taken (L : WriteLoop) (written : Nat) : WriteResult → Bytes
  | .wrote n => (L.memory.drop written).take n
  | .failed _ => []

/-- Before the first `write`. -/
def start (L : WriteLoop) : Progress where
  state := if L.entered then L.head 0 else .finished 0
  delivered := []

/-- Past the loop. -/
def isOver (p : Progress) : Bool :=
  match p.state with
  | .writing _ => false
  | _ => true

/-- One turn. -/
def next (L : WriteLoop) (p : Progress) (r : WriteResult) : Progress :=
  match p.state with
  | .writing written =>
      { state := L.afterWrite written r, delivered := p.delivered ++ L.taken written r }
  | _ => p

/-- `write` returns -1, or a count from 1 up to the number that was requested. -/
def Allows (L : WriteLoop) (p : Progress) : WriteResult → Prop
  | .wrote n => 1 ≤ n ∧ n ≤ L.count p.state.written
  | .failed _ => True

/-- The turns of the loop. -/
def loop (L : WriteLoop) : AskLoop Progress WriteResult := ⟨isOver, L.next⟩

/-- The loop after `k` calls of `write`. -/
def after (L : WriteLoop) (results : Nat → WriteResult) (k : Nat) : Progress :=
  L.loop.after L.start results k

/-- A schedule of results that the loop can meet. -/
def Admits (L : WriteLoop) (results : Nat → WriteResult) : Prop :=
  L.loop.Admits L.Allows L.start results

/-- What a copy owes the buffer `data`, for every schedule that it admits: each `write` takes at
least one byte and at most what was requested, or fails. -/
structure Delivers (L : WriteLoop) (data : Bytes) : Prop where
  /-- each request is for what is left of the buffer, and something is -/
  inside : ∀ results k written, L.Admits results →
    (L.after results k).state = .writing written →
      written < data.length ∧ written + L.count written = data.length
  /-- the first `written` bytes are delivered, in order -/
  exact : ∀ results k, L.Admits results →
    (L.after results k).state.written ≤ data.length ∧
      (L.after results k).delivered = data.take (L.after results k).state.written
  /-- the loop ends unless it is interrupted again and again -/
  ends : ∀ results, L.Admits results →
    (∃ n, ∀ k, n ≤ k → results k ≠ .failed .eintr) → ∃ k, isOver (L.after results k) = true
  /-- without an error the whole buffer is delivered -/
  whole : ∀ results k, L.Admits results → isOver (L.after results k) = true →
    (∀ j, j < k → ∀ e, results j = .failed e → e = .eintr) →
      (L.after results k).delivered = data

/-! ## The handover -/

/-- The loop reads the bytes of `data`. -/
structure Reads (L : WriteLoop) (data : Bytes) : Prop where
  total : L.total = data.length
  memory : ∃ behind, L.memory = data ++ behind
  fits : data.length < sizeRange
  entered : L.entered = false → data = []

end WriteLoop

theorem reads_writeAll (data : Buffer) : (writeAll data).Reads data.bytes where
  total := rfl
  memory := ⟨[], (List.append_nil _).symm⟩
  fits := data.fits
  entered := by simp [writeAll]

/-- The bytes of a `const char*` that may be NULL. -/
def textBytes : Option Text → Bytes
  | none => []
  | some s => s.bytes

theorem reads_stdinLoop (stdinData : Option Text) :
    (stdinLoop stdinData).Reads (textBytes stdinData) := by
  cases stdinData with
  | none => exact ⟨rfl, ⟨[], rfl⟩, by decide, fun _ => rfl⟩
  | some s =>
      refine ⟨s.strlen_eq, ⟨[nul], rfl⟩, s.fits, ?_⟩
      intro hskipped
      have hnul : s.deref = nul := by simpa [stdinLoop] using hskipped
      exact s.deref_eq_nul_iff.mp hnul

theorem reads_contentLoop (content : Text) : (contentLoop content).Reads content.bytes where
  total := content.strlen_eq
  memory := ⟨[nul], rfl⟩
  fits := content.fits
  entered := by simp [contentLoop]

namespace WriteLoop

/-- A result as an answer to a request for what is left. -/
def grant : WriteResult → Grant
  | .wrote n => .taken n
  | .failed .eintr => .again
  | .failed _ => .refused

/-- Only an interrupted call is made again. -/
theorem eq_of_grant_again {r : WriteResult} (h : grant r = .again) : r = .failed .eintr := by
  cases r with
  | wrote n => cases h
  | failed e =>
      cases e with
      | eintr => rfl
      | epipe => cases h
      | other code => cases h

theorem failed_of_grant_refused {r : WriteResult} (h : grant r = .refused) :
    ∃ e, r = .failed e ∧ e ≠ .eintr := by
  cases r with
  | wrote n => cases h
  | failed e =>
      refine ⟨e, rfl, ?_⟩
      rintro rfl
      cases h

/-- The loop and the handover of `data` are at the same place. -/
inductive Stands (data : Bytes) : Progress → Handover UInt8 → Prop
  | writing {written : Nat} : written < data.length →
      Stands data ⟨.writing written, data.take written⟩
        ⟨data.take written, data.drop written, false⟩
  | finished : Stands data ⟨.finished data.length, data⟩ ⟨data, [], false⟩
  | brokeOff {written : Nat} : written < data.length →
      Stands data ⟨.brokeOff written, data.take written⟩
        ⟨data.take written, data.drop written, true⟩

variable {L : WriteLoop} {data : Bytes} {p : Progress} {h : Handover UInt8}

theorem over_of_stands (hstands : Stands data p h) : isOver p = h.isOver := by
  cases hstands with
  | writing hlt =>
      have hrest : data.drop _ ≠ [] := mt List.drop_eq_nil_iff.mp (Nat.not_le.mpr hlt)
      simp [isOver, Handover.isOver, hrest]
  | finished => rfl
  | brokeOff => simp [isOver, Handover.isOver]

theorem delivered_of_stands (hstands : Stands data p h) :
    p.state.written ≤ data.length ∧ p.delivered = data.take p.state.written ∧
      p.delivered = h.sent := by
  cases hstands with
  | writing hlt => exact ⟨Nat.le_of_lt hlt, rfl, rfl⟩
  | finished => exact ⟨Nat.le_refl _, (List.take_length).symm, rfl⟩
  | brokeOff hlt => exact ⟨Nat.le_of_lt hlt, rfl, rfl⟩

theorem lt_of_writing (hstands : Stands data p h) {written : Nat}
    (hstate : p.state = .writing written) : written < data.length := by
  cases hstands with
  | writing hlt =>
      cases hstate
      exact hlt
  | finished => cases hstate
  | brokeOff => cases hstate

/-- The loop test, with the handover where the loop is. -/
theorem stands_head (hL : L.Reads data) {written : Nat} (hle : written ≤ data.length) :
    Stands data ⟨L.head written, data.take written⟩
      ⟨data.take written, data.drop written, false⟩ := by
  unfold head
  rw [hL.total]
  split
  · rename_i hlt
    exact .writing hlt
  · rename_i hge
    have hend : written = data.length := by omega
    rw [hend, List.take_length, List.drop_length]
    exact .finished

theorem stands_start (hL : L.Reads data) : Stands data L.start (.begin data) := by
  unfold start
  cases hentered : L.entered with
  | true => exact stands_head hL (Nat.zero_le _)
  | false =>
      rw [hL.entered hentered]
      exact .finished

theorem count_eq (hL : L.Reads data) {written : Nat} (hle : written ≤ data.length) :
    L.count written = data.length - written := by
  have hfits := hL.fits
  unfold count
  rw [hL.total, sizeSub_of_le hle hfits]

/-- What the kernel takes is the beginning of what is left. -/
theorem taken_wrote (hL : L.Reads data) {written n : Nat} (hlt : written < data.length)
    (hn : n ≤ data.length - written) :
    L.taken written (.wrote n) = (data.drop written).take n := by
  obtain ⟨behind, hmemory⟩ := hL.memory
  simp only [taken, hmemory]
  rw [List.drop_append_of_le_length (Nat.le_of_lt hlt), List.take_append_of_le_length]
  rw [List.length_drop]
  exact hn

/-- What the loop admits, a request for what is left admits. -/
theorem allows_of_stands (hL : L.Reads data) (hstands : Stands data p h)
    (hgoes : isOver p = false) {r : WriteResult} (hr : L.Allows p r) : h.Allows (grant r) := by
  cases r with
  | wrote n =>
      cases hstands with
      | writing hlt =>
          obtain ⟨hpos, hle⟩ := hr
          refine ⟨hpos, ?_⟩
          rw [List.length_drop, ← count_eq hL (Nat.le_of_lt hlt)]
          exact hle
      | finished => cases hgoes
      | brokeOff => cases hgoes
  | failed e => cases e <;> trivial

/-- One turn of the loop is one answer to the handover. -/
theorem stands_next (hL : L.Reads data) (hstands : Stands data p h)
    (hgoes : isOver p = false) {r : WriteResult} (hr : L.Allows p r) :
    Stands data (L.next p r) (h.next (grant r)) := by
  cases hstands with
  | @writing written hlt =>
      cases r with
      | wrote n =>
          obtain ⟨-, hle⟩ := hr
          have hcount := count_eq hL (Nat.le_of_lt hlt)
          simp only [LoopState.written] at hle
          have hn : n ≤ data.length - written := by omega
          have hfits := hL.fits
          have hadd : sizeAdd written n = written + n := sizeAdd_of_lt (by omega)
          have hsplit : data.take written ++ (data.drop written).take n
              = data.take (written + n) := (List.take_add).symm
          have hrest : (data.drop written).drop n = data.drop (written + n) := List.drop_drop
          have hnext := stands_head hL (Nat.add_le_of_le_sub' (Nat.le_of_lt hlt) hn)
          simp only [next, afterWrite, Handover.next, grant, taken_wrote hL hlt hn]
          rw [hadd, hsplit, hrest]
          exact hnext
      | failed e =>
          simp only [next, taken, List.append_nil]
          cases e with
          | eintr => exact stands_head hL (Nat.le_of_lt hlt)
          | epipe => exact .brokeOff hlt
          | other code => exact .brokeOff hlt
  | finished => cases hgoes
  | brokeOff => cases hgoes

/-- A copy of the loop is a handover of its buffer, answer by answer. -/
theorem handed_over (hL : L.Reads data) {results : Nat → WriteResult}
    (hadmits : L.Admits results) (k : Nat) :
    Stands data (L.after results k)
      ((Handover.loop UInt8).after (.begin data) (fun i => grant (results i)) k) :=
  AskLoop.simulates (B := Handover.loop UInt8) (Stands data) grant hadmits (stands_start hL)
    (fun _ _ hstands => over_of_stands hstands)
    (fun _ _ _ hstands hgoes hr => stands_next hL hstands hgoes hr) k

theorem admits_handover (hL : L.Reads data) {results : Nat → WriteResult}
    (hadmits : L.Admits results) :
    (Handover.loop UInt8).Admits Handover.Allows (.begin data)
      (fun i => grant (results i)) := by
  intro k hgoes
  have hstands := handed_over hL hadmits k
  have hgoes' : isOver (L.after results k) = false := by
    rw [over_of_stands hstands]
    exact hgoes
  exact allows_of_stands hL hstands hgoes' (hadmits k hgoes')

theorem delivers_of_reads (hL : L.Reads data) : L.Delivers data where
  inside := by
    intro results k written hadmits hstate
    have hlt := lt_of_writing (handed_over hL hadmits k) hstate
    refine ⟨hlt, ?_⟩
    rw [count_eq hL (Nat.le_of_lt hlt)]
    omega
  exact := by
    intro results k hadmits
    obtain ⟨hle, hdelivered, -⟩ := delivered_of_stands (handed_over hL hadmits k)
    exact ⟨hle, hdelivered⟩
  ends := by
    rintro results hadmits ⟨n, hn⟩
    have hagain : ∀ k, n ≤ k → grant (results k) ≠ .again := by
      intro k hk hgrant
      exact hn k hk (eq_of_grant_again hgrant)
    obtain ⟨k, hover⟩ := Handover.ends (admits_handover hL hadmits) ⟨n, hagain⟩
    refine ⟨k, ?_⟩
    rw [over_of_stands (handed_over hL hadmits k)]
    exact hover
  whole := by
    intro results k hadmits hover herrors
    have hstands := handed_over hL hadmits k
    have hnone : ∀ j, j < k → grant (results j) ≠ .refused := by
      intro j hj hgrant
      obtain ⟨e, hr, he⟩ := failed_of_grant_refused hgrant
      exact he (herrors j hj e hr)
    rw [over_of_stands hstands] at hover
    obtain ⟨-, -, hsent⟩ := delivered_of_stands hstands
    rw [hsent]
    exact Handover.sent_of_over (admits_handover hL hadmits) hover hnone

end WriteLoop

/-- Each of the three loops requests what is left of its buffer, has delivered the first
`written` bytes of it at any time, ends if it is interrupted finitely often, and has then
delivered all of it unless a write failed. -/
theorem write_loops_deliver :
    (∀ data : Buffer, (writeAll data).Delivers data.bytes) ∧
      (∀ stdinData : Option Text, (stdinLoop stdinData).Delivers (textBytes stdinData)) ∧
      ∀ content : Text, (contentLoop content).Delivers content.bytes := by
  refine ⟨?_, ?_, ?_⟩
  · intro data
    exact WriteLoop.delivers_of_reads (reads_writeAll data)
  · intro stdinData
    exact WriteLoop.delivers_of_reads (reads_stdinLoop stdinData)
  · intro content
    exact WriteLoop.delivers_of_reads (reads_contentLoop content)

/-- `"ab"`. -/
def twoLetters : Buffer := ⟨[97, 98], by decide⟩

/-- One byte at a time, and an interruption between the first and the second. -/
def haltingWrites (k : Nat) : WriteResult := if k = 1 then .failed .eintr else .wrote 1

theorem over_haltingWrites :
    WriteLoop.isOver ((writeAll twoLetters).after haltingWrites 3) = true := rfl

theorem admits_haltingWrites : (writeAll twoLetters).Admits haltingWrites := by
  intro k hgoes
  rcases k with _ | _ | _ | k
  · exact ⟨by decide, by decide⟩
  · exact trivial
  · exact ⟨by decide, by decide⟩
  · have hover := @AskLoop.after_of_over _ _ (writeAll twoLetters).loop (writeAll twoLetters).start
      haltingWrites 3 over_haltingWrites (k + 3) (Nat.le_add_left 3 k)
    rw [hover] at hgoes
    cases hgoes.symm.trans over_haltingWrites

/-- `write_all` meets this schedule, and delivers both letters. -/
theorem write_loops_deliver_halting :
    (writeAll twoLetters).Admits haltingWrites ∧
      ((writeAll twoLetters).after haltingWrites 3).delivered = [97, 98] := by
  have hdelivers := write_loops_deliver.1 twoLetters
  refine ⟨admits_haltingWrites, hdelivers.whole _ 3 admits_haltingWrites over_haltingWrites ?_⟩
  intro j _ e hfailed
  unfold haltingWrites at hfailed
  split at hfailed
  · cases hfailed
    rfl
  · cases hfailed

/-! ## In the runners -/

/-- A result as the machines of the runners have it. -/
def WriteResult.reply : WriteResult → Reply
  | .wrote n => .wrote n
  | .failed e => .failed e

/-- The state of `ftl_run_command` when its stdin loop is in this one. -/
def LoopState.cParent : LoopState → Process.CParent
  | .writing written => .feeding written
  | .finished _ | .brokeOff _ => .closing

/-- The state of `Subprocess::run` when `write_all` is in this one. -/
def LoopState.parent : LoopState → Process.Parent
  | .writing written => .feeding written
  | .finished _ | .brokeOff _ => .closing

namespace WriteLoop

variable {L : WriteLoop} {data : Bytes} {written : Nat}

/-- The bytes that `write` is asked to take. -/
def requested (L : WriteLoop) (written : Nat) : Bytes :=
  (L.memory.drop written).take (L.count written)

theorem requested_eq (hL : L.Reads data) (hlt : written < data.length) :
    L.requested written = data.drop written := by
  have hcount := count_eq hL (Nat.le_of_lt hlt)
  have hall : (data.drop written).take (data.length - written) = data.drop written :=
    List.take_of_length_le (Nat.le_of_eq List.length_drop)
  unfold requested
  rw [hcount, ← hall]
  exact taken_wrote hL hlt (Nat.le_refl _)

/-- After a count that was allowed, the loop test is that of the data. -/
theorem afterWrite_wrote (hL : L.Reads data) (hlt : written < data.length) {n : Nat}
    (hn : n ≤ L.count written) :
    L.afterWrite written (.wrote n) =
      if written + n < data.length then .writing (written + n) else .finished (written + n) := by
  have hcount := count_eq hL (Nat.le_of_lt hlt)
  have hfits := hL.fits
  simp only [afterWrite, head]
  rw [sizeAdd_of_lt (by omega), hL.total]

/-- After an interruption, the same bytes are requested again. -/
theorem afterWrite_eintr (hL : L.Reads data) (hlt : written < data.length) :
    L.afterWrite written (.failed .eintr) = .writing written := by
  simp only [afterWrite, head]
  rw [hL.total, if_pos hlt]

end WriteLoop

/-- The stdin loop is the `feeding` of the model of `ftl_run_command`. -/
theorem stdinLoop_feeds {cmd : Process.CCommand} {stdinData : Option Text}
    (hsame : cmd.payload = textBytes stdinData) {written : Nat} {r : WriteResult}
    (hlt : written < cmd.payload.length)
    (hr : ∀ n, r = .wrote n → n ≤ (stdinLoop stdinData).count written) :
    cmd.Moves (.feeding written) (.write ((stdinLoop stdinData).requested written)) r.reply
      ((stdinLoop stdinData).afterWrite written r).cParent := by
  have hL := reads_stdinLoop stdinData
  rw [← hsame] at hL
  refine ⟨?_, ?_⟩
  · rw [WriteLoop.requested_eq hL hlt]
    rfl
  · cases r with
    | wrote n =>
        rw [WriteLoop.afterWrite_wrote hL hlt (hr n rfl)]
        simp only [WriteResult.reply, Process.CCommand.advance, Process.CCommand.writeLoop]
        split <;> rfl
    | failed e =>
        cases e with
        | eintr =>
            rw [WriteLoop.afterWrite_eintr hL hlt]
            rfl
        | epipe => rfl
        | other code => rfl

/-- `write_all` is the `feeding` of the model of `Subprocess::run`. -/
theorem writeAll_feeds {sp : Process.Subprocess} {data : Buffer}
    (hsame : sp.stdinData = data.bytes) {written : Nat} {r : WriteResult}
    (hlt : written < sp.stdinData.length)
    (hr : ∀ n, r = .wrote n → n ≤ (writeAll data).count written) :
    sp.pending (.feeding written) = some (.write ((writeAll data).requested written)) ∧
      sp.advance (.feeding written) r.reply =
        some ((writeAll data).afterWrite written r).parent := by
  have hL := reads_writeAll data
  rw [← hsame] at hL
  refine ⟨?_, ?_⟩
  · rw [WriteLoop.requested_eq hL hlt]
    rfl
  · cases r with
    | wrote n =>
        rw [WriteLoop.afterWrite_wrote hL hlt (hr n rfl)]
        simp only [WriteResult.reply, Process.Subprocess.advance, Process.Subprocess.writeAll]
        split <;> rfl
    | failed e =>
        cases e with
        | eintr =>
            rw [WriteLoop.afterWrite_eintr hL hlt]
            rfl
        | epipe => rfl
        | other code => rfl

end Ftl.Io
