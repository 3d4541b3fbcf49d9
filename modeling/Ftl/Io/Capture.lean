/-
  Io/Capture.lean --- `FdCapture::content` of ftl/io/capture.hpp, called at any time.

  During a capture the target descriptor and `file_` share one open file.  A write to
  the target moves the kernel offset; the `FILE` does not notice.

      content_atEnd          a call returns all of the file and can be repeated
      content_stale          after a write in between it returns the old length
      content_faithful_iff   a history of writes and calls is captured and reported
                             faithfully exactly if no write lies between two calls
-/
import Mathlib.Data.List.Induction
import Ftl.Io.Stdio

set_option autoImplicit false

namespace Ftl.Io

open Process (Bytes)

namespace Opened

/-- `content()` on a capture without a stream to flush; `none` is an exception. -/
def content (block : Nat) (s : Opened) : Option Bytes × Opened :=
  let size := s.ftell
  if size < 0 then (none, s)
  else if 0 < size then
    let got := s.rewind.fread block size.toNat
    if got.1.length = size.toNat then (some got.1, got.2) else (none, got.2)
  else (some [], s.rewind)

end Opened

/-! ## Histories -/

/-- What happens during a capture.  The flush of `stream_` at the beginning of a call is
a write of its own. -/
inductive CaptureOp where
  | write (bs : Bytes)
  | content
  deriving DecidableEq, Repr

/-- The bytes that have been written. -/
def written : List CaptureOp → Bytes
  | [] => []
  | .write bs :: ops => bs ++ written ops
  | .content :: ops => written ops

/-- One operation. -/
def CaptureOp.apply (block : Nat) (s : Opened) : CaptureOp → Opened
  | .write bs => s.write bs
  | .content => (s.content block).2

/-- The state of a capture after `ops`. -/
def after (block : Nat) (ops : List CaptureOp) : Opened :=
  ops.foldl (CaptureOp.apply block) .tmpfile

/-- Every call returns what has been written until then, and the file always holds
that, in the order in which it was written. -/
structure Faithful (block : Nat) (ops : List CaptureOp) : Prop where
  returned : ∀ front back, ops = front ++ .content :: back →
    ((after block front).content block).1 = some (written front)
  kept : ∀ front back, ops = front ++ back → (after block front).file.data = written front

/-- No byte is written between two calls.  The `FILE` of a capture remembers the offset at which
a call has left it, and the next call asks `ftell`, which answers from that memory. -/
def Undisturbed (ops : List CaptureOp) : Prop :=
  ∀ bs, bs ≠ [] → ¬ [CaptureOp.content, .write bs, .content].Sublist ops

theorem written_append (ops ops' : List CaptureOp) :
    written (ops ++ ops') = written ops ++ written ops' := by
  induction ops with
  | nil => rfl
  | cons op ops ih =>
      cases op with
      | write bs => simp [written, ih]
      | content => exact ih

theorem after_concat (block : Nat) (ops : List CaptureOp) (op : CaptureOp) :
    after block (ops ++ [op]) = op.apply block (after block ops) := by
  simp [after]

/-- A sublist that ends at the last element, or before it. -/
theorem sublist_concat_iff {α : Type} {l m : List α} {a b : α} :
    (l ++ [a]).Sublist (m ++ [b]) ↔ (l ++ [a]).Sublist m ∨ a = b ∧ l.Sublist m := by
  rw [← List.reverse_sublist, ← @List.reverse_sublist _ _ m, ← @List.reverse_sublist _ l m]
  simp only [List.reverse_append, List.reverse_singleton, List.singleton_append]
  rw [List.sublist_cons_iff]
  constructor
  · rintro (h | ⟨r, hr, h⟩)
    · exact .inl h
    · cases hr
      exact .inr ⟨rfl, h⟩
  · rintro (h | ⟨rfl, h⟩)
    · exact .inl h
    · exact .inr ⟨_, rfl, h⟩

/-! ## The three kinds of states -/

section States

variable {block : Nat} {data : Bytes} {s : Opened}

/-- Before the first call. -/
structure Fresh (data : Bytes) (s : Opened) : Prop where
  file : s.file = ⟨data, data.length⟩
  stream : s.stream = Opened.tmpfile.stream

/-- After a write that followed a call: the cache still says `old`. -/
structure Stale (old : Nat) (data : Bytes) (s : Opened) : Prop where
  file : s.file = ⟨data, data.length⟩
  cached : s.stream.cached = some old
  used : s.stream.pos = s.stream.buffer.length
  older : old < data.length

theorem write_eq_of_file (h : s.file = ⟨data, data.length⟩) (bs : Bytes) :
    (s.write bs).file = ⟨data ++ bs, (data ++ bs).length⟩ := by
  rw [Opened.write, h, OpenFile.write_at_end rfl, List.length_append]

theorem write_fresh (h : Fresh data s) (bs : Bytes) : Fresh (data ++ bs) (s.write bs) :=
  ⟨write_eq_of_file h.file bs, h.stream⟩

theorem write_stale {old : Nat} (h : Stale old data s) (bs : Bytes) :
    Stale old (data ++ bs) (s.write bs) := by
  have holder := h.older
  refine ⟨write_eq_of_file h.file bs, h.cached, h.used, ?_⟩
  rw [List.length_append]
  omega

theorem write_atEnd (h : Opened.AtEnd data s) {bs : Bytes} (hne : bs ≠ []) :
    Stale data.length (data ++ bs) (s.write bs) := by
  refine ⟨write_eq_of_file h.file_eq bs, ?_, h.used, ?_⟩
  · rw [← h.whole]
    exact h.cached
  · have hpos := List.length_pos_iff.mpr hne
    rw [List.length_append]
    omega

theorem write_nil_atEnd (h : Opened.AtEnd data s) : s.write [] = s := by
  obtain ⟨file, stream⟩ := s
  have hfile : file = ⟨data, data.length⟩ := h.file_eq
  rw [hfile, Opened.write, OpenFile.write_at_end rfl, List.append_nil]
  rfl

/-- If `ftell` knows the size, a call returns what is read after the rewind. -/
theorem content_of_ftell (hsize : s.ftell = data.length)
    (hread : (s.rewind.fread block data.length).1 = data ∧
      Opened.AtEnd data (s.rewind.fread block data.length).2) :
    (s.content block).1 = some data ∧ Opened.AtEnd data (s.content block).2 := by
  obtain ⟨hbytes, hend⟩ := hread
  unfold Opened.content
  rw [hsize]
  simp only [Int.toNat_natCast]
  rw [if_neg (by omega)]
  split
  · rw [if_pos (by rw [hbytes])]
    exact ⟨congrArg some hbytes, hend⟩
  · rename_i hnone
    have hnil : data = [] := List.eq_nil_of_length_eq_zero (by omega)
    subst hnil
    rw [List.length_nil, Opened.fread_of_buffered (Nat.zero_le _)] at hend
    exact ⟨rfl, hend⟩

/-- After a seek to the start everything is read again. -/
theorem fread_seekStart (hblock : 0 < block) (h : s.file.data = data) :
    (s.seekStart.fread block data.length).1 = data ∧
      Opened.AtEnd data (s.seekStart.fread block data.length).2 :=
  Opened.fread_rest hblock s.seekStart (Opened.inStep_seekStart h)

theorem content_fresh (hblock : 0 < block) (h : Fresh data s) :
    (s.content block).1 = some data ∧ Opened.AtEnd data (s.content block).2 := by
  obtain ⟨file, stream⟩ := s
  obtain ⟨hfile, hstream⟩ := h
  cases hfile
  cases hstream
  exact content_of_ftell (by simp [Opened.ftell, Opened.unread])
    (fread_seekStart hblock rfl)

theorem content_atEnd (hblock : 0 < block) (h : Opened.AtEnd data s) :
    (s.content block).1 = some data ∧ Opened.AtEnd data (s.content block).2 := by
  have hcached : s.stream.cached = some data.length := by
    rw [h.cached, h.whole]
  have hsize : s.ftell = data.length := by
    unfold Opened.ftell
    rw [hcached, h.unread]
    simp
  apply content_of_ftell hsize
  unfold Opened.rewind
  rw [hcached]
  simp only
  split
  · -- the buffer still has the whole file
    rename_i hwithin
    have hbuffer : s.stream.buffer = data := by
      have hsuffix := h.buffer
      rw [h.whole, List.take_length] at hsuffix
      exact hsuffix.eq_of_length_le hwithin.1
    have hunread : s.stream.buffer.drop (s.stream.buffer.length - data.length) = data := by
      rw [hbuffer, Nat.sub_self, List.drop_zero]
    rw [Opened.fread_of_buffered (Nat.le_of_eq (congrArg List.length hunread.symm))]
    refine ⟨?_, ⟨⟨h.holds, Nat.le_refl _, h.cached.trans ?_, ?_, ?_, rfl⟩, rfl⟩⟩
    · simp only [Opened.unread, hunread, List.take_length]
    · rw [h.whole]
      rfl
    · simp only [Opened.take, hbuffer, Nat.sub_self, Nat.zero_add]
    · simp only [Opened.take, OpenFile.seek, hbuffer, List.take_length]
      exact List.suffix_refl _
  · exact fread_seekStart hblock h.holds

/-- A call after a stale cache returns as many bytes as the cache says. -/
theorem content_stale {old : Nat} (h : Stale old data s) {out : Bytes}
    (hout : (s.content block).1 = some out) : out.length = old := by
  have hunread : s.unread = [] := by
    unfold Opened.unread
    rw [h.used, List.drop_length]
  have hsize : s.ftell = old := by
    unfold Opened.ftell
    rw [h.cached, hunread]
    simp
  unfold Opened.content at hout
  rw [hsize] at hout
  simp only [Int.toNat_natCast] at hout
  rw [if_neg (by omega)] at hout
  split at hout
  · split at hout
    · rename_i hlength
      cases hout
      exact hlength
    · cases hout
  · cases hout
    rw [List.length_nil]
    omega

end States

/-! ## Which histories are faithful -/

section Histories

variable {block : Nat} {ops ops' : List CaptureOp}

theorem Undisturbed.of_sublist (h : Undisturbed ops) (hsub : ops'.Sublist ops) :
    Undisturbed ops' :=
  fun bs hne hbetween => h bs hne (hbetween.trans hsub)

/-- The calls that come last are undisturbed if no write follows an earlier call. -/
theorem not_sublist_of_undisturbed (h : Undisturbed (ops ++ [.content])) {bs : Bytes}
    (hne : bs ≠ []) : ¬ [CaptureOp.content, .write bs].Sublist ops :=
  fun hsub => h bs hne (hsub.append (List.Sublist.refl _))

/-- The state after an undisturbed history. -/
inductive Reached (block : Nat) (ops : List CaptureOp) : Prop where
  | fresh (never : CaptureOp.content ∉ ops) (state : Fresh (written ops) (after block ops))
  | current (quiet : ∀ bs, bs ≠ [] → ¬ [CaptureOp.content, .write bs].Sublist ops)
      (called : CaptureOp.content ∈ ops) (state : Opened.AtEnd (written ops) (after block ops))
  | stale (bs : Bytes) (some : bs ≠ []) (late : [CaptureOp.content, .write bs].Sublist ops)
      (old : Nat) (state : Stale old (written ops) (after block ops))

/-- A call returns everything, unless a write has followed an earlier one. -/
theorem Reached.content (hblock : 0 < block) (h : Reached block ops)
    (hquiet : ∀ bs, bs ≠ [] → ¬ [CaptureOp.content, .write bs].Sublist ops) :
    ((after block ops).content block).1 = some (written ops) ∧
      Opened.AtEnd (written ops) ((after block ops).content block).2 := by
  cases h with
  | fresh _ state => exact content_fresh hblock state
  | current _ _ state => exact content_atEnd hblock state
  | stale bs some late _ _ => exact (hquiet bs some late).elim

theorem reached_content (hblock : 0 < block) (h : Reached block ops)
    (hundisturbed : Undisturbed (ops ++ [.content])) : Reached block (ops ++ [.content]) := by
  have hquiet := fun bs => @not_sublist_of_undisturbed ops hundisturbed bs
  have hstate := (h.content hblock hquiet).2
  refine .current ?_ (List.mem_append_right _ (List.mem_singleton_self _)) ?_
  · intro bs hne hsub
    rcases (@sublist_concat_iff _ [_] ops _ _).mp hsub with hbefore | ⟨hlast, -⟩
    · exact hquiet bs hne hbefore
    · cases hlast
  · rw [after_concat, written_append]
    simpa [CaptureOp.apply, written] using hstate

theorem reached_write (h : Reached block ops) (bs : Bytes) :
    Reached block (ops ++ [.write bs]) := by
  have hwritten : written (ops ++ [.write bs]) = written ops ++ bs := by
    rw [written_append]
    exact congrArg _ (List.append_nil bs)
  have hafter : after block (ops ++ [.write bs]) = (after block ops).write bs :=
    after_concat block ops (.write bs)
  cases h with
  | fresh never state =>
      refine .fresh ?_ ?_
      · intro hmem
        rcases List.mem_append.mp hmem with hbefore | hlast
        · exact never hbefore
        · cases List.mem_singleton.mp hlast
      · rw [hwritten, hafter]
        exact write_fresh state bs
  | current quiet called state =>
      by_cases hnil : bs = []
      · subst hnil
        refine .current ?_ (List.mem_append_left _ called) ?_
        · intro bs hne hsub
          rcases (@sublist_concat_iff _ [_] ops _ _).mp hsub with hbefore | ⟨hlast, -⟩
          · exact quiet bs hne hbefore
          · cases hlast
            exact hne rfl
        · rw [hwritten, hafter, write_nil_atEnd state, List.append_nil]
          exact state
      · refine .stale bs hnil ?_ (written ops).length ?_
        · exact (List.singleton_sublist.mpr called).append (List.Sublist.refl _)
        · rw [hwritten, hafter]
          exact write_atEnd state hnil
  | stale bs' some late old state =>
      refine .stale bs' some (late.trans (List.sublist_append_left _ _)) old ?_
      rw [hwritten, hafter]
      exact write_stale state bs

theorem reached_of_undisturbed (hblock : 0 < block) (ops : List CaptureOp)
    (h : Undisturbed ops) : Reached block ops := by
  induction ops using List.reverseRecOn with
  | nil => exact .fresh List.not_mem_nil ⟨rfl, rfl⟩
  | append_singleton ops op ih =>
      have hbefore := ih (h.of_sublist (List.sublist_append_left _ _))
      cases op with
      | write bs => exact reached_write hbefore bs
      | content => exact reached_content hblock hbefore h

theorem Reached.data (h : Reached block ops) : (after block ops).file.data = written ops := by
  cases h with
  | fresh _ state => exact congrArg OpenFile.data state.file
  | current _ _ state => exact state.holds
  | stale _ _ _ _ state => exact congrArg OpenFile.data state.file

theorem faithful_of_undisturbed (hblock : 0 < block) (h : Undisturbed ops) :
    Faithful block ops := by
  constructor
  · intro front back hops
    rw [List.append_cons] at hops
    have hsub : (front ++ [CaptureOp.content]).Sublist ops :=
      hops ▸ List.sublist_append_left _ _
    have hcall := h.of_sublist hsub
    have hreached := reached_of_undisturbed hblock front
      (hcall.of_sublist (List.sublist_append_left _ _))
    exact (hreached.content hblock fun bs => @not_sublist_of_undisturbed front hcall bs).1
  · intro front back hops
    have hsub : front.Sublist ops := hops ▸ List.sublist_append_left _ _
    exact (reached_of_undisturbed hblock front (h.of_sublist hsub)).data

theorem Faithful.of_append (h : Faithful block (ops ++ ops')) : Faithful block ops := by
  constructor
  · intro front back hops
    refine h.returned front (back ++ ops') ?_
    rw [hops, List.append_assoc, List.cons_append]
  · intro front back hops
    refine h.kept front (back ++ ops') ?_
    rw [hops, List.append_assoc]

/-- The first call after a write after a call returns too little. -/
theorem undisturbed_of_faithful (hblock : 0 < block) (ops : List CaptureOp)
    (h : Faithful block ops) : Undisturbed ops := by
  induction ops using List.reverseRecOn with
  | nil => exact fun bs _ hsub => (by cases hsub)
  | append_singleton ops op ih =>
      have hbefore := ih h.of_append
      intro bs hne hsub
      rcases (@sublist_concat_iff _ [_, _] ops _ _).mp hsub with hearlier | ⟨hlast, hlate⟩
      · exact hbefore bs hne hearlier
      · subst hlast
        have hreturned := h.returned ops [] rfl
        cases reached_of_undisturbed hblock ops hbefore with
        | fresh never _ => exact never (hlate.subset (List.mem_cons_self))
        | current quiet _ _ => exact quiet bs hne hlate
        | stale _ _ _ old state =>
            have hlength := content_stale state hreturned
            have holder := state.older
            omega

/-- For every history of writes and calls, and every size of the read buffer: every
call returns what has been written until then, and the file keeps it in order, if and only
if no byte is written between two calls. -/
theorem content_faithful_iff (hblock : 0 < block) (ops : List CaptureOp) :
    Faithful block ops ↔ Undisturbed ops :=
  ⟨undisturbed_of_faithful hblock ops, faithful_of_undisturbed hblock⟩

/-- Two calls behind all prints.  Nothing is written after a call, so no cached offset is stale. -/
theorem content_faithful_at_end :
    Faithful 4096 [.write [97], .write [98], .content, .content] := by
  apply (content_faithful_iff (by decide) _).mpr
  intro bs hne hsub
  revert hsub
  simp [List.sublist_cons_iff]

/-- A first call, a print, and a call that does not see it.  When the first call has
found a byte, the second one also moves the offset back, and the next print is written over
the one that was missed. -/
theorem content_misses_write :
    ((after 4096 [.content, .write [97]]).content 4096).1 = some [] ∧
      (after 4096 [.write [97], .content, .write [98], .content, .write [99]]).file.data =
        [97, 99] ∧
      ¬ Faithful 4096 [.content, .write [97], .content] := by
  have hmissed : ((after 4096 [.content, .write [97]]).content 4096).1 = some [] := rfl
  refine ⟨hmissed, ?_, fun hfaithful => ?_⟩
  · simp [after, CaptureOp.apply, Opened.content, Opened.ftell, Opened.rewind,
      Opened.seekStart, Opened.fread, Opened.underflow, Opened.useUp, Opened.refill,
      Opened.take, Opened.unread, Opened.tmpfile, Opened.write, OpenFile.write,
      OpenFile.ahead, OpenFile.read, OpenFile.seek]
  · have hreturned := hfaithful.returned [.content, .write [97]] [] rfl
    rw [hmissed] at hreturned
    cases hreturned

end Histories

end Ftl.Io
