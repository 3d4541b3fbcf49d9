/-
  Process/Responsive.lean --- how much work the two runners make of a run.

  Every call of the parent moves a byte, ends a stream, is one of a few that a run makes
  once, or was in vain: interrupted, or a poll that found nothing.  So a run is over after as
  many calls as there are bytes, streams and disturbances.

      calls_of_frugal     the calls of a runner whose moves are paid for
      frugal              so are the moves of both machines
      calls_bounded       the calls of a whole run
-/
import Ftl.Foundation.Budget
import Ftl.Process.CTiming
import Ftl.Process.Timing

set_option autoImplicit false

namespace Ftl.Process

open Function (update)
open Foundation (Runs Guarded Covers total)

/-! ## Calls -/

/-- A call of the parent. -/
def Label.call : Label → Nat
  | .parent _ _ => 1
  | _ => 0

/-- The calls of the parent among the labels. -/
def calls (ls : List Label) : Nat := total Label.call ls

/-- A call that brought nothing: it was interrupted, or it is a poll after which there is
nothing to read. -/
def Label.vain : Label → Nat
  | .parent _ (.failed .eintr) => 1
  | .parent (.poll _ _) .lapsed => 1
  | .parent (.poll fds _) (.ready revents) => if fds.any revents then 0 else 1
  | _ => 0

/-- The calls in vain. -/
def vainCalls (ls : List Label) : Nat := total Label.vain ls

/-- The number of bytes that a read returned. -/
def Reply.received : Reply → Nat
  | .bytes bs => bs.length
  | _ => 0

section Bytes

variable {σ : Type}

/-- How much the family has written. -/
def World.written (w : World σ) : Nat := (w.wrote .out).length + (w.wrote .err).length

/-- How much of it is still in the pipes. -/
def World.queued (w : World σ) : Nat := (w.pipe .out).length + (w.pipe .err).length

theorem queued_answers {S : Setting} {w w' : World σ} {c : Call} {r : Reply}
    (hans : Answers S w c r w') : w'.written = w.written ∧ w'.queued + r.received = w.queued := by
  cases hans with
  | @bytes s size bs rest hne hlen hpipe =>
      refine ⟨rfl, ?_⟩
      cases s with
      | out =>
          have hlength := congrArg List.length hpipe
          rw [List.length_append] at hlength
          simp only [World.queued, World.drain, Function.update_self, Reply.received,
            Function.update_of_ne (show Stream.err ≠ .out by decide)]
          omega
      | err =>
          have hlength := congrArg List.length hpipe
          rw [List.length_append] at hlength
          simp only [World.queued, World.drain, Function.update_self, Reply.received,
            Function.update_of_ne (show Stream.out ≠ .err by decide)]
          omega
  | _ => exact ⟨rfl, rfl⟩

theorem queued_acts {S : Setting} {w w' : World σ} {a : Action} (hacts : Acts S w a w') :
    w'.written + w.queued = w.written + w'.queued := by
  cases hacts with
  | @write fd s bs =>
      cases s with
      | out =>
          simp only [World.queued, World.written, World.emit, Function.update_self,
            Function.update_of_ne (show Stream.err ≠ .out by decide), List.length_append]
          omega
      | err =>
          simp only [World.queued, World.written, World.emit, Function.update_self,
            Function.update_of_ne (show Stream.out ≠ .err by decide), List.length_append]
          omega
  | _ => rfl

/-- How much has been read from the pipes. -/
def World.taken (w : World σ) : Int := w.written - w.queued

theorem taken_acts {S : Setting} {w w' : World σ} {a : Action} (hacts : Acts S w a w') :
    w'.taken = w.taken := by
  have hmoved := queued_acts hacts
  unfold World.taken
  omega

end Bytes

/-! ## Calls of any runner -/

section Any

variable {X : Type} {S : Setting} {B : Behaviour} {Par : X → Call → Reply → X → Prop}
  {Inv : X → Prop} {potential : X → Nat}

/-- Every move is paid for by what it receives, by what it loses of the potential, or it was
in vain. -/
def Frugal (Par : X → Call → Reply → X → Prop) (Inv : X → Prop) (potential : X → Nat)
    (perByte perVain : Nat) : Prop :=
  ∀ x c r x', Inv x → Par x c r x' → (∀ n, r = .wrote n → 0 < n) →
    Inv x' ∧ 1 + potential x' ≤
      potential x + perByte * r.received + perVain * (Label.parent c r).vain

theorem Frugal.keeps {perByte perVain : Nat} (hfrugal : Frugal Par Inv potential perByte perVain)
    {x x' : X} {c : Call} {r : Reply} (hinv : Inv x) (hmove : Par x c r x')
    (hwrote : ∀ n, r = .wrote n → 0 < n) : Inv x' :=
  (hfrugal x c r x' hinv hmove hwrote).1

/-- The kernel does not answer a write by writing nothing. -/
theorem wrote_pos {w w' : World B.State} {c : Call} {r : Reply} (hans : Answers S w c r w') :
    ∀ n, r = .wrote n → 0 < n := by
  rintro n rfl
  cases hans with
  | wrote _ hpos _ _ => exact hpos

theorem calls_of_frugal {perByte perVain : Nat} (hfrugal : Frugal Par Inv potential perByte perVain)
    {x y : X} {w : World B.State} {ls : List Label} (clock : Nat) (hinit : Inv x)
    (hrun : Runs (Step S B Par) (x, World.initial B.start clock) ls (y, w)) :
    calls ls + potential y + perByte * w.queued ≤
      potential x + perByte * w.written + perVain * vainCalls ls := by
  have hcovers : Covers (Step S B Par) (fun z => Inv z.1) Label.call (fun l => perVain * l.vain)
      (fun z => potential z.1 - perByte * z.2.taken) := by
    rintro ⟨p, u⟩ l ⟨q, u'⟩ hinv hstep
    cases hstep with
    | @parent _ _ _ _ c r hmove hans =>
        obtain ⟨hinv', hpaid⟩ := hfrugal p c r q hinv hmove (wrote_pos hans)
        obtain ⟨hwritten, hqueued⟩ := queued_answers hans
        have htaken : u'.taken = u.taken + r.received := by
          unfold World.taken
          omega
        refine ⟨hinv', ?_⟩
        dsimp only [Label.call]
        rw [htaken, Int.mul_add]
        omega
    | @child _ _ w' _ q hact hacts =>
        have htaken : (w'.become q).taken = u.taken := (taken_acts hacts : w'.taken = u.taken)
        refine ⟨hinv, ?_⟩
        dsimp only [Label.call, Label.vain]
        rw [htaken]
        omega
    | @die _ _ kept hkilled hstatus =>
        have htaken : (u.terminate 9 kept).taken = u.taken := rfl
        refine ⟨hinv, ?_⟩
        dsimp only [Label.call, Label.vain]
        rw [htaken]
        omega
    | tick nanos =>
        have htaken : (u.tick nanos).taken = u.taken := rfl
        refine ⟨hinv, ?_⟩
        dsimp only [Label.call, Label.vain]
        rw [htaken]
        omega
  have hpaid := hrun.covered hcovers hinit
  rw [Foundation.total_mul] at hpaid
  have hbegins : (World.initial B.start clock).taken = 0 := rfl
  have hbytes : (perByte : Int) * w.taken = perByte * w.written - perByte * w.queued :=
    Int.mul_sub _ _ _
  dsimp only at hpaid
  rw [hbegins, hbytes] at hpaid
  unfold calls vainCalls
  push_cast at hpaid
  omega

end Any

/-! ## The calls of `run()` -/

namespace Subprocess

/-- The number of sources that are open. -/
def openCount (c : Collect) : Nat :=
  (if c.isOpen .out then 1 else 0) + (if c.isOpen .err then 1 else 0)

/-- The number of output pipes. -/
def streams (sp : Subprocess) : Nat := if sp.splitOutput then 2 else 1

/-- How many calls a state is good for, besides those that data and disturbances cause. -/
def potential (sp : Subprocess) : Parent → Nat
  | .feeding written => sp.stdinData.length - written + (6 + 3 * sp.streams)
  | .closing => 6 + 3 * sp.streams
  | .arming => 5 + 3 * sp.streams
  | .checking c => 4 + 3 * openCount c
  | .polling c _ => 3 + 3 * openCount c
  | .draining c _ _ => 2 + 3 * openCount c
  | .killing _ => 2
  | .waiting _ => 1
  | .returned _ _ => 0
  | .threw _ => 0

/-- There is something to write in `write_all`, and the sources that are yet to be read are open
ones. -/
def InOrder (sp : Subprocess) : Parent → Prop
  | .feeding written => written < sp.stdinData.length
  | .draining c s todo => (s :: todo).Nodup ∧ ∀ t ∈ s :: todo, c.isOpen t = true
  | _ => True

theorem inOrder_writeAll (sp : Subprocess) (written : Nat) : sp.InOrder (sp.writeAll written) := by
  unfold writeAll
  split
  · rename_i hmore
    exact hmore
  · trivial

theorem potential_writeAll (sp : Subprocess) {before written : Nat} (hmore : before < written)
    (hwithin : before < sp.stdinData.length) :
    1 + sp.potential (sp.writeAll written) ≤ sp.potential (.feeding before) := by
  unfold writeAll
  split
  · dsimp only [potential]
    omega
  · dsimp only [potential]
    omega

theorem inOrder_whileOpen (sp : Subprocess) (c : Collect) : sp.InOrder (whileOpen c) := by
  unfold whileOpen
  split
  · trivial
  · trivial

theorem potential_whileOpen (sp : Subprocess) (c : Collect) :
    sp.potential (whileOpen c) ≤ 4 + 3 * openCount c := by
  unfold whileOpen
  split
  · exact Nat.le_refl _
  · dsimp only [potential]
    omega

theorem inOrder_drainNext (sp : Subprocess) {c : Collect} {todo : List Stream}
    (hnodup : todo.Nodup) (hopen : ∀ t ∈ todo, c.isOpen t = true) :
    sp.InOrder (drainNext c todo) := by
  cases todo with
  | nil => exact sp.inOrder_whileOpen c
  | cons s todo => exact ⟨hnodup, hopen⟩

theorem potential_drainNext (sp : Subprocess) (c : Collect) (todo : List Stream) :
    sp.potential (drainNext c todo) ≤ 4 + 3 * openCount c := by
  cases todo with
  | nil => exact sp.potential_whileOpen c
  | cons s todo =>
      dsimp only [drainNext, potential]
      omega

theorem openCount_close {c : Collect} {s : Stream} (hopen : c.isOpen s = true) :
    openCount { c with isOpen := update c.isOpen s false } + 1 = openCount c := by
  cases s with
  | out => simp [openCount, hopen, Nat.add_comm]
  | err => simp [openCount, hopen]

theorem openCount_start (sp : Subprocess) (now : Nat) :
    openCount (sp.collectStart now) = sp.streams := by
  cases hsplit : sp.splitOutput <;> simp [openCount, collectStart, watched, streams, hsplit]

theorem inOrder_ready (sp : Subprocess) (c : Collect) (revents : Stream → Bool) :
    sp.InOrder (drainNext c ((watchedNow c).filter revents)) := by
  refine sp.inOrder_drainNext ?_ ?_
  · have hboth : [Stream.out, Stream.err].Nodup := by decide
    exact (List.filter_sublist.trans List.filter_sublist).nodup hboth
  · intro t ht
    exact (List.mem_filter.mp (List.mem_filter.mp ht).1).2

theorem potential_ready (sp : Subprocess) (c : Collect) (ms : Int) (revents : Stream → Bool) :
    1 + sp.potential (drainNext c ((watchedNow c).filter revents)) ≤
      3 + 3 * openCount c +
        2 * (Label.parent (.poll (watchedNow c) ms) (.ready revents)).vain := by
  cases hfound : (watchedNow c).filter revents with
  | nil =>
      have hnothing : (watchedNow c).any revents = false := by
        rw [List.any_eq_false]
        exact fun s hs => by simpa using (List.filter_eq_nil_iff.mp hfound) s hs
      have hback := sp.potential_whileOpen c
      simp only [drainNext, Label.vain, hnothing]
      simp only [Bool.false_eq_true, if_false]
      omega
  | cons s todo =>
      dsimp only [drainNext, potential]
      omega

theorem drained_frugal (sp : Subprocess) {c : Collect} {s : Stream} {todo : List Stream}
    {r : Reply} {p' : Parent} (horder : sp.InOrder (.draining c s todo))
    (hdrained : drainOnce c s todo r = some p') :
    sp.InOrder p' ∧ 1 + sp.potential p' ≤
      2 + 3 * openCount c + 3 * r.received + 2 * (Label.parent (.read s 4096) r).vain := by
  obtain ⟨hnodup, hopen⟩ := horder
  have hclosed : sp.InOrder (drainNext { c with isOpen := update c.isOpen s false } todo) ∧
      1 + sp.potential (drainNext { c with isOpen := update c.isOpen s false } todo) ≤
        2 + 3 * openCount c := by
    constructor
    · refine sp.inOrder_drainNext (List.nodup_cons.mp hnodup).2 fun t ht => ?_
      have hother : t ≠ s := by
        rintro rfl
        exact (List.nodup_cons.mp hnodup).1 ht
      simpa [hother] using hopen t (List.mem_cons_of_mem s ht)
    · have hless := openCount_close (hopen s List.mem_cons_self)
      have hnext := sp.potential_drainNext { c with isOpen := update c.isOpen s false } todo
      omega
  unfold drainOnce at hdrained
  split at hdrained
  · rename_i b bs
    cases hdrained
    constructor
    · exact sp.inOrder_drainNext (List.nodup_cons.mp hnodup).2 fun t ht =>
        hopen t (List.mem_cons_of_mem s ht)
    · have hnext := sp.potential_drainNext { c with result := c.result.append s (b :: bs) } todo
      have hcount : openCount { c with result := c.result.append s (b :: bs) } = openCount c := rfl
      simp only [Reply.received, List.length_cons]
      omega
  · cases hdrained
    exact ⟨hclosed.1, by omega⟩
  · cases hdrained
    refine ⟨⟨hnodup, hopen⟩, ?_⟩
    simp only [potential, Label.vain]
    omega
  · cases hdrained
    exact ⟨hclosed.1, by omega⟩
  · cases hdrained

theorem potential_start (sp : Subprocess) :
    sp.potential (sp.writeAll 0) ≤ sp.stdinData.length + (6 + 3 * sp.streams) := by
  rcases sp.writeAll_cases 0 with h | h
  · rw [h]
    exact Nat.le_refl _
  · rw [h]
    exact Nat.le_add_left _ _

/-- `run()` makes no call for nothing. -/
theorem frugal (sp : Subprocess) : Frugal sp.Moves sp.InOrder sp.potential 3 2 := by
  intro p c r p' horder hmove hwrote
  cases branch_of_moves hmove with
  | wrote written n =>
      have hpos := hwrote n rfl
      have hpaid := sp.potential_writeAll (show written < written + n by omega) horder
      exact ⟨sp.inOrder_writeAll _, by omega⟩
  | writeInterrupted written =>
      refine ⟨horder, ?_⟩
      simp only [Label.vain]
      omega
  | writeFailed written e he =>
      have hwithin : written < sp.stdinData.length := horder
      refine ⟨trivial, ?_⟩
      simp only [potential]
      omega
  | closed =>
      refine ⟨trivial, ?_⟩
      simp only [potential]
      omega
  | armed now =>
      refine ⟨sp.inOrder_whileOpen _, ?_⟩
      have hnext := sp.potential_whileOpen (sp.collectStart now)
      rw [sp.openCount_start] at hnext
      show 1 + sp.potential (whileOpen (sp.collectStart now)) ≤ 5 + 3 * sp.streams + 3 * 0 + 2 * 0
      omega
  | checked col now =>
      unfold checkDeadline
      split
      · refine ⟨trivial, ?_⟩
        simp only [potential]
        omega
      · refine ⟨trivial, ?_⟩
        simp only [potential]
        omega
  | pollInterrupted col ms =>
      refine ⟨sp.inOrder_whileOpen col, ?_⟩
      have hnext := sp.potential_whileOpen col
      show 1 + sp.potential (whileOpen col) ≤ 3 + 3 * openCount col + 3 * 0 + 2 * 1
      omega
  | pollFailed col ms e he =>
      refine ⟨trivial, ?_⟩
      simp only [potential]
      omega
  | lapsed col ms =>
      refine ⟨trivial, ?_⟩
      simp only [potential]
      omega
  | ready col ms revents =>
      refine ⟨sp.inOrder_ready col revents, ?_⟩
      have hpaid := sp.potential_ready col (wrap32 ms) revents
      show 1 + sp.potential (drainNext col ((watchedNow col).filter revents)) ≤
        3 + 3 * openCount col + 3 * 0 + 2 * _
      omega
  | drained col s todo r p' hdrained => exact sp.drained_frugal horder hdrained
  | killed col => exact ⟨trivial, by simp only [potential]; omega⟩
  | reaped col st => exact ⟨trivial, by simp only [potential]; omega⟩
  | waitFailed col e => exact ⟨trivial, by simp only [potential]; omega⟩

end Subprocess

/-! ## The calls of `ftl_run_command` -/

namespace CCommand

/-- How many calls follow a poll that brought something, and one that did not. -/
def afterReply : Reply → Nat
  | .failed .eintr | .lapsed => 6
  | _ => 4

/-- How many calls a state is good for, besides those that data and disturbances cause. -/
def potential (cmd : CCommand) : CParent → Nat
  | .feeding written => cmd.payload.length - written + 8
  | .closing => 8
  | .starting => 7
  | .allocating _ => 6
  | .polling _ _ => 5
  | .clocking _ ready => afterReply ready
  | .reading _ => 3
  | .growing _ _ _ => 6
  | .killing _ => 3
  | .closingOutput _ => 2
  | .waiting _ => 1
  | .returned _ _ => 0

/-- There is something to write in the write loop. -/
def InOrder (cmd : CCommand) : CParent → Prop
  | .feeding written => written < cmd.payload.length
  | _ => True

theorem inOrder_writeLoop (cmd : CCommand) (written : Nat) :
    cmd.InOrder (cmd.writeLoop written) := by
  unfold writeLoop
  split
  · rename_i hmore
    exact hmore
  · trivial

theorem potential_writeLoop (cmd : CCommand) {before written : Nat} (hmore : before < written)
    (hwithin : before < cmd.payload.length) :
    1 + cmd.potential (cmd.writeLoop written) ≤ cmd.potential (.feeding before) := by
  unfold writeLoop
  split
  · dsimp only [potential]
    omega
  · dsimp only [potential]
    omega

theorem inOrder_loopHead (cmd : CCommand) (c : CCollect) : cmd.InOrder (cmd.loopHead c) := by
  unfold loopHead
  split
  · trivial
  · trivial

theorem potential_loopHead (cmd : CCommand) (c : CCollect) :
    cmd.potential (cmd.loopHead c) ≤ 5 := by
  unfold loopHead
  split
  · exact Nat.le_add_right 3 2
  · exact Nat.le_refl 5

theorem inOrder_keepChunk (cmd : CCommand) (c : CCollect) (chunk : Bytes) :
    cmd.InOrder (cmd.keepChunk c chunk) := by
  unfold keepChunk
  split
  · exact cmd.inOrder_loopHead c
  · split
    · trivial
    · exact cmd.inOrder_loopHead _

theorem potential_keepChunk (cmd : CCommand) (c : CCollect) (chunk : Bytes) :
    cmd.potential (cmd.keepChunk c chunk) ≤ 6 := by
  unfold keepChunk
  split
  · exact Nat.le_succ_of_le (cmd.potential_loopHead c)
  · split
    · exact Nat.le_refl 6
    · exact Nat.le_succ_of_le (cmd.potential_loopHead _)

theorem inOrder_afterPoll {cmd : CCommand} {c : CCollect} {ready : Reply} {p' : CParent}
    (hafter : cmd.afterPoll c ready = some p') : cmd.InOrder p' := by
  unfold afterPoll at hafter
  split at hafter
  · cases hafter
    exact cmd.inOrder_loopHead c
  · cases hafter
    trivial
  · cases hafter
    split
    · trivial
    · exact cmd.inOrder_loopHead c
  · cases hafter
    trivial
  · cases hafter

theorem potential_afterPoll {cmd : CCommand} {c : CCollect} {ready : Reply} {p' : CParent}
    (hafter : cmd.afterPoll c ready = some p') : 1 + cmd.potential p' ≤ afterReply ready := by
  have hhead := cmd.potential_loopHead c
  unfold afterPoll at hafter
  split at hafter
  · cases hafter
    simp only [afterReply]
    omega
  · rename_i e he
    cases hafter
    cases e with
    | eintr => exact (he rfl).elim
    | epipe => simp only [afterReply, potential]; omega
    | other code => simp only [afterReply, potential]; omega
  · cases hafter
    split
    · simp only [afterReply, potential]
      omega
    · simp only [afterReply]
      omega
  · cases hafter
    simp only [afterReply, potential]
    omega
  · cases hafter

theorem potential_start (cmd : CCommand) :
    cmd.potential (cmd.writeLoop 0) ≤ cmd.payload.length + 8 := by
  unfold writeLoop
  split
  · exact Nat.le_refl _
  · exact Nat.le_add_left _ _

/-- `ftl_run_command` makes no call for nothing. -/
theorem frugal (cmd : CCommand) : Frugal cmd.Moves cmd.InOrder cmd.potential 4 3 := by
  intro p c r p' horder hmove hwrote
  cases branch_of_moves hmove with
  | wrote written n =>
      have hpos := hwrote n rfl
      have hpaid := cmd.potential_writeLoop (show written < written + n by omega) horder
      exact ⟨cmd.inOrder_writeLoop _, by omega⟩
  | writeInterrupted written =>
      refine ⟨horder, ?_⟩
      simp only [Label.vain]
      omega
  | writeFailed written e he =>
      have hwithin : written < cmd.payload.length := horder
      refine ⟨trivial, ?_⟩
      simp only [potential]
      omega
  | closed => exact ⟨trivial, by simp only [potential]; omega⟩
  | started t => exact ⟨trivial, by simp only [potential]; omega⟩
  | allocated start ok =>
      refine ⟨cmd.inOrder_loopHead _, ?_⟩
      have hnext := cmd.potential_loopHead
        { start := start, elapsedMs := 0, capacity := 4096, length := 0,
          buffer := if ok then some [] else none }
      show 1 + _ ≤ 6 + 4 * 0 + 3 * 0
      omega
  | pollFailed col ms e =>
      refine ⟨trivial, ?_⟩
      cases e with
      | eintr => show 1 + 6 ≤ 5 + 4 * 0 + 3 * 1; omega
      | epipe => show 1 + 4 ≤ 5 + 4 * 0 + 3 * 0; omega
      | other code => show 1 + 4 ≤ 5 + 4 * 0 + 3 * 0; omega
  | lapsed col ms => exact ⟨trivial, show 1 + 6 ≤ 5 + 4 * 0 + 3 * 1 by omega⟩
  | ready col ms revents =>
      refine ⟨trivial, ?_⟩
      show 1 + 4 ≤ 5 + 4 * 0 + 3 * _
      omega
  | clocked col answer t p' hafter =>
      exact ⟨inOrder_afterPoll hafter, potential_afterPoll hafter⟩
  | got col b bs =>
      refine ⟨cmd.inOrder_keepChunk _ _, ?_⟩
      have hnext := cmd.potential_keepChunk col (b :: bs)
      show 1 + cmd.potential (cmd.keepChunk col (b :: bs)) ≤ 3 + 4 * (bs.length + 1) + 3 * 0
      omega
  | ended col => exact ⟨trivial, by simp only [potential]; omega⟩
  | readInterrupted col =>
      refine ⟨cmd.inOrder_loopHead col, ?_⟩
      have hnext := cmd.potential_loopHead col
      show 1 + cmd.potential (cmd.loopHead col) ≤ 3 + 4 * 0 + 3 * 1
      omega
  | readFailed col e he => exact ⟨trivial, by simp only [potential]; omega⟩
  | grown col chunk next =>
      refine ⟨cmd.inOrder_loopHead _, ?_⟩
      have hnext := cmd.potential_loopHead (store { col with capacity := next } chunk)
      show 1 + _ ≤ 6 + 4 * 0 + 3 * 0
      omega
  | notGrown col chunk next =>
      refine ⟨cmd.inOrder_loopHead _, ?_⟩
      have hnext := cmd.potential_loopHead { col with buffer := none }
      show 1 + _ ≤ 6 + 4 * 0 + 3 * 0
      omega
  | killed col => exact ⟨trivial, by simp only [potential]; omega⟩
  | outputClosed col => exact ⟨trivial, by simp only [potential]; omega⟩
  | reaped col st => exact ⟨trivial, by simp only [potential]; omega⟩
  | waitFailed col e => exact ⟨trivial, by simp only [potential]; omega⟩

end CCommand

/-! ## The calls of a whole run -/

/-- In every run, both runners make at most a few calls for each byte of the payload, for each
byte that the child writes and for each call in vain, and fewer than a dozen others. -/
theorem calls_bounded (capacity : Nat) (faults : Bool) (B : Behaviour) (clock : Nat)
    (ls : List Label) (w : World B.State) :
    (∀ (sp : Subprocess) (p : Parent),
      Runs (sp.Sys capacity faults B) (sp.initial B clock) ls (p, w) →
        calls ls ≤ sp.stdinData.length + 3 * w.written + 2 * vainCalls ls +
          (6 + 3 * sp.streams)) ∧
    ∀ (cmd : CCommand) (p : CParent),
      Runs (cmd.Sys capacity faults B) (cmd.initial B clock) ls (p, w) →
        calls ls ≤ cmd.payload.length + 4 * w.written + 3 * vainCalls ls + 8 := by
  constructor
  · intro sp p hrun
    have hpaid := calls_of_frugal sp.frugal clock (sp.inOrder_writeAll 0) hrun
    have hstart := sp.potential_start
    omega
  · intro cmd p hrun
    have hpaid := calls_of_frugal cmd.frugal clock (cmd.inOrder_writeLoop 0) hrun
    have hstart := cmd.potential_start
    omega

theorem calls_bounded_split_run :
    ∃ ls p w, Runs (splitRun.Sys 4 false (.script twoWrites))
        (splitRun.initial (.script twoWrites) 0) ls (p, w) ∧
      calls ls ≤ 0 + 3 * w.written + 2 * vainCalls ls + 12 := by
  obtain ⟨ls, ⟨p, w⟩, hrun, -⟩ := splitRun.play 4 twoWrites twoWritesSchedule (fun _ => true)
    (fun _ => true) (by decide)
  exact ⟨ls, p, w, hrun.unguard,
    (calls_bounded 4 false (.script twoWrites) 0 ls w).1 splitRun p hrun.unguard⟩

end Ftl.Process
