/-
  Process/DeadlineResponse.lean --- what the two runners still do once the deadline has passed.

  However much the child writes, and however long it goes on, both loops look at the clock
  before every poll.  So after the deadline they are on their way to waitpid, and it takes
  them a number of calls that does not depend on the child.

      deadline_response      `run()`, but for interrupted reads, which it repeats
      c_deadline_response    `ftl_run_command`, which looks at the clock after those too
-/
import Ftl.Process.Responsive

set_option autoImplicit false

namespace Ftl.Process

open Foundation (Runs Guarded Covers total)

/-! ## The clock -/

section Clock

variable {X : Type} {S : Setting} {B : Behaviour} {Par : X → Call → Reply → X → Prop}

theorem clock_answers {w w' : World B.State} {c : Call} {r : Reply} (hans : Answers S w c r w') :
    w'.clock = w.clock := by
  cases hans with
  | _ => rfl

theorem clock_step {x y : X × World B.State} {l : Label} (hstep : Step S B Par x l y) :
    x.2.clock ≤ y.2.clock := by
  cases hstep with
  | parent _ hans => exact Nat.le_of_eq (clock_answers hans).symm
  | child _ hacts =>
      cases hacts with
      | _ => exact Nat.le_refl _
  | die => exact Nat.le_refl _
  | tick nanos => exact Nat.le_add_right _ _

/-- The clock has not run over: its nanoseconds are counted in 64 bits with a sign. -/
def Counted (x : X × World B.State) : Prop := x.2.clock < 9223372036854775808

theorem counted_back {x y : X × World B.State} {l : Label} (hstep : Step S B Par x l y)
    (hafter : Counted y) : Counted x :=
  Nat.lt_of_le_of_lt (clock_step hstep) hafter

end Clock

/-! ## `run()` after the deadline -/

/-- A read that was interrupted. -/
def Label.readInterrupted : Label → Nat
  | .parent (.read _ _) (.failed .eintr) => 1
  | _ => 0

/-- The interrupted reads among the labels. -/
def interruptedReads (ls : List Label) : Nat := total Label.readInterrupted ls

namespace Subprocess

/-- How many calls are left to waitpid, once the deadline has passed. -/
def haste : Parent → Nat
  | .polling _ _ => 5
  | .draining _ _ todo => 3 + todo.length
  | .checking _ => 2
  | .killing _ => 1
  | _ => 0

/-- `collect` is running or has ended, and its deadline is `d`. -/
structure Bound (d : Int) (p : Parent) : Prop where
  armed : p.armed = true
  deadline : ∀ c, p.locals = some c → c.deadline = d

theorem bound_of_moves {sp : Subprocess} {d : Int} {p p' : Parent} {c : Call} {r : Reply}
    (h : Bound d p) (hmove : sp.Moves p c r p') : Bound d p' := by
  have hbound : ∀ c c', p.locals = some c → p'.locals = some c' → c'.deadline = c.deadline →
      Bound d p' := fun c c' hc hc' hsame =>
    ⟨armed_of_locals hc', deadline_of_locals hc' (hsame.trans (h.deadline c hc))⟩
  cases timing_of_moves (e := ⟨c, r, 0, zero_counted⟩) hmove with
  | feeds hp =>
      rw [h.armed] at hp
      cases hp
  | arms start hp =>
      rw [h.armed] at hp
      cases hp
  | checks c now hp _ _ hp' =>
      obtain ⟨c', hc', hdeadline⟩ := checkDeadline_locals c now
      exact hbound c c' (by rw [hp]; rfl) (by rw [hp']; exact hc') hdeadline
  | lapses c ms hp _ _ hp' =>
      exact hbound c { c with result := { c.result with timedOut := true } } (by rw [hp]; rfl)
        (by rw [hp']; rfl) rfl
  | goesOn c c' hc hc' _ _ hdeadline _ _ => exact hbound c c' hc hc' hdeadline
  | ends c _ hnone _ _ harmed _ _ =>
      refine ⟨harmed, fun c' hc' => ?_⟩
      rw [hnone] at hc'
      cases hc'

theorem haste_whileOpen (c : Collect) : haste (whileOpen c) ≤ 2 := by
  unfold whileOpen
  split
  · exact Nat.le_refl 2
  · exact Nat.zero_le 2

theorem haste_drainNext (c : Collect) (todo : List Stream) :
    haste (drainNext c todo) ≤ 2 + todo.length := by
  cases todo with
  | nil => exact haste_whileOpen c
  | cons s todo =>
      simp only [drainNext, haste, List.length_cons]
      omega

theorem haste_drained {c : Collect} {s : Stream} {todo : List Stream} {r : Reply} {p' : Parent}
    (hdrained : drainOnce c s todo r = some p') :
    1 + haste p' ≤ 3 + todo.length + (Label.parent (.read s 4096) r).readInterrupted := by
  unfold drainOnce at hdrained
  split at hdrained
  · rename_i b bs
    cases hdrained
    have hnext := haste_drainNext { c with result := c.result.append s (b :: bs) } todo
    omega
  · cases hdrained
    have hnext := haste_drainNext { c with isOpen := Function.update c.isOpen s false } todo
    omega
  · cases hdrained
    simp only [haste, Label.readInterrupted]
    omega
  · cases hdrained
    have hnext := haste_drainNext { c with isOpen := Function.update c.isOpen s false } todo
    omega
  · cases hdrained

/-- A clock reading past the deadline ends the loop. -/
theorem checkDeadline_late {c : Collect} {now : Nat} (hpos : 0 ≤ c.deadline)
    (hdue : c.deadline ≤ now) (hcounted : now < 9223372036854775808) :
    haste (checkDeadline c now) = 1 := by
  have hexact : wrap64 (c.deadline - now) = c.deadline - now := wrap64_eq (by omega) (by omega)
  have hlate : remainingMsOf c.deadline now ≤ 0 := by
    rw [remainingMsOf, hexact, tdiv_nonpos_iff]
    omega
  rw [checkDeadline, if_pos hlate]
  rfl

theorem length_watched (c : Collect) (revents : Stream → Bool) :
    ((watchedNow c).filter revents).length ≤ 2 := by
  have hpolled : (watchedNow c).length ≤ 2 := List.length_filter_le _ [Stream.out, .err]
  have hfound := List.length_filter_le revents (watchedNow c)
  omega

/-- After the deadline, every call of `run()` but an interrupted read brings it nearer to
waitpid. -/
theorem haste_of_moves {sp : Subprocess} {S : Setting} {B : Behaviour} {d : Int} {p p' : Parent}
    {w w' : World B.State} {c : Call} {r : Reply} (hbound : Bound d p) (hinside : haste p ≠ 0)
    (hmove : sp.Moves p c r p') (hans : Answers S w c r w') (hpos : 0 ≤ d) (hdue : d ≤ w.clock)
    (hcounted : w.clock < 9223372036854775808) :
    1 + haste p' ≤ haste p + (Label.parent c r).readInterrupted := by
  cases branch_of_moves hmove with
  | checked col now =>
      cases hans
      have hdeadline := hbound.deadline col rfl
      rw [checkDeadline_late (by omega) (by omega) hcounted]
      exact Nat.le_refl 2
  | pollInterrupted col ms =>
      have hnext := haste_whileOpen col
      show 1 + haste (whileOpen col) ≤ 5 + 0
      omega
  | pollFailed col ms e he => exact Nat.le_add_left 1 4
  | lapsed col ms => exact Nat.le_add_left 2 3
  | ready col ms revents =>
      have hnext := haste_drainNext col ((watchedNow col).filter revents)
      have hlength := length_watched col revents
      show 1 + haste (drainNext col ((watchedNow col).filter revents)) ≤ 5 + 0
      omega
  | drained col s todo r p' hdrained => exact haste_drained hdrained
  | killed col => exact Nat.le_refl 1
  | _ => exact (hinside rfl).elim

/-- `collect` has not come to waitpid. -/
def Collecting (p : Parent) : Prop := p.armed = true → haste p ≠ 0

theorem collecting_back {sp : Subprocess} {p p' : Parent} {c : Call} {r : Reply}
    (hmove : sp.Moves p c r p') (hafter : Collecting p') : Collecting p := by
  intro harmed hended
  cases branch_of_moves hmove with
  | reaped col st => exact hafter rfl rfl
  | waitFailed col e => exact hafter rfl rfl
  | drained col s todo r p' hdrained =>
      simp only [haste] at hended
      omega
  | wrote written n => cases harmed
  | writeInterrupted written => cases harmed
  | writeFailed written e _ => cases harmed
  | closed => cases harmed
  | armed now => cases harmed
  | _ => cases hended

theorem length_todo {sp : Subprocess} {c : Collect} {s : Stream} {todo : List Stream}
    (horder : sp.InOrder (.draining c s todo)) : todo.length ≤ 1 := by
  obtain ⟨hnodup, -⟩ := horder
  match todo, hnodup with
  | [], _ => exact Nat.zero_le 1
  | [t], _ => exact Nat.le_refl 1
  | t :: u :: rest, hnodup => cases s <;> cases t <;> cases u <;> simp at hnodup

theorem haste_le {sp : Subprocess} {p : Parent} (horder : sp.InOrder p) : haste p ≤ 5 := by
  cases p with
  | polling c ms => exact Nat.le_refl 5
  | draining c s todo =>
      have hlength := length_todo horder
      simp only [haste]
      omega
  | checking c => exact Nat.le_add_right 2 3
  | killing c => exact Nat.le_add_right 1 4
  | _ => exact Nat.zero_le 5

section Response

variable {capacity : Nat} {faults : Bool} {B : Behaviour} {clock : Nat}

theorem inOrder_run {sp : Subprocess} {ls : List Label} {p : Parent} {w : World B.State}
    (hrun : Runs (sp.Sys capacity faults B) (sp.initial B clock) ls (p, w)) : sp.InOrder p := by
  refine @Runs.invariant _ _ _ (fun x => sp.InOrder x.1) _ _ _ hrun (sp.inOrder_writeAll 0) ?_
  rintro ⟨q, u⟩ ⟨q', u'⟩ l horder hstep
  cases hstep with
  | parent hmove hans => exact sp.frugal.keeps horder hmove (wrote_pos hans)
  | child => exact horder
  | die => exact horder
  | tick => exact horder

/-- The deadline has passed, and `collect` is on its way to waitpid. -/
structure Hurries (d : Int) (x : Parent × World B.State) : Prop where
  bound : Bound d x.1
  due : d ≤ x.2.clock
  inside : haste x.1 ≠ 0
  counted : Counted x

/-- Every step that does not come to waitpid is paid for by the haste. -/
theorem haste_covers (sp : Subprocess) {d : Int} (hpos : 0 ≤ d) :
    Covers (Guarded (sp.Sys capacity faults B) fun _ y => Counted y ∧ Collecting y.1) (Hurries d)
      Label.call Label.readInterrupted (fun x => (haste x.1 : Int)) := by
  rintro ⟨p, w⟩ l ⟨p', w'⟩ h ⟨hstep, hcounted, hcollecting⟩
  have hdue : d ≤ w.clock := h.due
  have hlater : (w.clock : Int) ≤ w'.clock := Int.ofNat_le.mpr (clock_step hstep)
  cases hstep with
  | @parent _ _ _ _ c r hmove hans =>
      have hbound' := bound_of_moves h.bound hmove
      have hpaid : 1 + haste p' ≤ haste p + _ :=
        haste_of_moves h.bound h.inside hmove hans hpos hdue h.counted
      refine ⟨⟨hbound', Int.le_trans hdue hlater, hcollecting hbound'.armed, hcounted⟩, ?_⟩
      show ((1 : Nat) : Int) + haste p' ≤ haste p + _
      omega
  | child hact hacts =>
      refine ⟨⟨h.bound, Int.le_trans hdue hlater, h.inside, hcounted⟩, ?_⟩
      simp [Label.call, Label.readInterrupted]
  | die hkilled hstatus =>
      refine ⟨⟨h.bound, hdue, h.inside, hcounted⟩, ?_⟩
      simp [Label.call, Label.readInterrupted]
  | tick nanos =>
      refine ⟨⟨h.bound, Int.le_trans hdue hlater, h.inside, hcounted⟩, ?_⟩
      simp [Label.call, Label.readInterrupted]

/-- Once the deadline has passed, and the call that is pending then has returned, `collect` comes
to waitpid after at most four more calls that are not interrupted reads, whatever the child does.
A deadline that has wrapped to a negative one is not meant. -/
theorem deadline_response (sp : Subprocess) {ls₀ ls : List Label} {p p' : Parent}
    {w w' : World B.State} {c : Collect}
    (hrun₀ : Runs (sp.Sys capacity faults B) (sp.initial B clock) ls₀ (p, w))
    (hlocals : p.locals = some c) (hpos : 0 ≤ c.deadline) (hdue : c.deadline ≤ w.clock)
    (hrun : Runs (sp.Sys capacity faults B) (p, w) ls (p', w'))
    (hcounted : w'.clock < 9223372036854775808) (hcollecting : haste p' ≠ 0) :
    calls ls ≤ 4 + interruptedReads ls := by
  have hback : ∀ a l b, sp.Sys capacity faults B a l b → Counted b ∧ Collecting b.1 →
      Counted a ∧ Collecting a.1 := by
    rintro ⟨q, u⟩ l ⟨q', u'⟩ hstep ⟨hafter, hin⟩
    refine ⟨counted_back hstep hafter, ?_⟩
    cases hstep with
    | parent hmove _ => exact collecting_back hmove hin
    | child => exact hin
    | die => exact hin
    | tick => exact hin
  obtain ⟨⟨hcounted₀, hinside⟩, hguarded⟩ :=
    hrun.guard_back hback ⟨hcounted, fun _ => hcollecting⟩
  have harmed := armed_of_locals hlocals
  have hstart : Hurries c.deadline (p, w) :=
    ⟨⟨harmed, deadline_of_locals hlocals rfl⟩, hdue, hinside harmed, hcounted₀⟩
  have hpaid := hguarded.covered (haste_covers sp hpos) hstart
  have hfirst := haste_le (inOrder_run hrun₀)
  dsimp only at hpaid
  unfold calls interruptedReads
  omega

end Response

/-- The world five seconds after a fork, with a child that does nothing. -/
def fiveSecondsOn : World (List Action) := ((World.initial [] 0).hangUp).tick 5000000000

/-- `run()` is in its first poll when the five seconds are over. -/
theorem polls_five_seconds :
    Runs (bareRun.Sys 4 false (.script [])) (bareRun.initial (.script []) 0)
      [.parent .closeStdin .done, .parent .clock (.time 0), .parent .clock (.time 0),
        .tick 5000000000]
      (.polling (bareRun.collectStart 0) 5000, fiveSecondsOn) := by
  have hclosed : bareRun.Moves .closing .closeStdin .done .arming := ⟨rfl, rfl⟩
  have harmed : bareRun.Moves .arming .clock (.time 0) (.checking (bareRun.collectStart 0)) :=
    ⟨rfl, rfl⟩
  have hchecked : bareRun.Moves (.checking (bareRun.collectStart 0)) .clock (.time 0)
      (.polling (bareRun.collectStart 0) 5000) := ⟨rfl, rfl⟩
  exact .tail (.tail (.tail (.single (.parent hclosed .closedStdin)) (.parent harmed .clock))
    (.parent hchecked .clock)) (.tick 5000000000)

theorem deadline_response_lapsed :
    calls [.parent (.poll [.out] 5000) .lapsed] ≤
      4 + interruptedReads [.parent (.poll [.out] 5000) .lapsed] := by
  have hlapsed : bareRun.Moves (.polling (bareRun.collectStart 0) 5000) (.poll [.out] 5000)
      .lapsed (.killing { bareRun.collectStart 0 with result := { timedOut := true } }) :=
    ⟨rfl, rfl⟩
  exact deadline_response bareRun polls_five_seconds rfl (by decide) (by decide)
    (.single (.parent hlapsed (.lapsed (by decide)))) (by decide) (by decide)

end Subprocess

/-! ## `ftl_run_command` after the deadline -/

namespace CCommand

/-- How many calls are left to waitpid, once the timeout has passed; a chunk that is read before
the loop has seen so costs another poll. -/
def haste (cmd : CCommand) : CParent → Nat
  | .polling _ _ => 6
  | .clocking _ _ => 5
  | .reading c => if cmd.timeout ≤ c.elapsedMs then 4 else 8
  | .growing c _ _ => if cmd.timeout ≤ c.elapsedMs then 3 else 7
  | .killing _ => 2
  | .closingOutput _ => 1
  | _ => 0

/-- The time since `start` counts as elapsed when it is whole milliseconds. -/
theorem le_elapsed {start now : Nat} {ms : Int} (h : start + ms * 1000000 ≤ now) :
    ms ≤ elapsedMsOf (.ofNanos start) (.ofNanos now) := by
  have hnsec : elapsedMsOf (.ofNanos start) (.ofNanos now) =
      ((now / 1000000000 : Nat) - (start / 1000000000 : Nat) : Int) * 1000 +
        ((now % 1000000000 : Nat) - (start % 1000000000 : Nat) : Int).tdiv 1000000 := rfl
  rw [hnsec]
  by_cases hborrow : start % 1000000000 ≤ now % 1000000000
  · rw [Int.tdiv_eq_ediv_of_nonneg (by omega)]
    omega
  · have hflip : ((now % 1000000000 : Nat) - (start % 1000000000 : Nat) : Int).tdiv 1000000 =
        -(((start % 1000000000 : Nat) - (now % 1000000000 : Nat) : Int) / 1000000) := by
      rw [← Int.tdiv_eq_ediv_of_nonneg (by omega), ← Int.neg_tdiv, Int.neg_sub]
    rw [hflip]
    omega

theorem haste_loopHead (cmd : CCommand) (c : CCollect) :
    cmd.haste (cmd.loopHead c) = if cmd.timeout ≤ c.elapsedMs then 2 else 6 := by
  unfold loopHead
  by_cases hlate : cmd.timeout ≤ c.elapsedMs
  · rw [if_pos (by omega), if_pos hlate]
    rfl
  · rw [if_neg (by omega), if_neg hlate]
    rfl

theorem haste_keepChunk (cmd : CCommand) (c : CCollect) (chunk : Bytes) :
    cmd.haste (cmd.keepChunk c chunk) ≤ if cmd.timeout ≤ c.elapsedMs then 3 else 7 := by
  have hloops : ∀ c', c'.elapsedMs = c.elapsedMs →
      cmd.haste (cmd.loopHead c') ≤ if cmd.timeout ≤ c.elapsedMs then 3 else 7 := by
    intro c' hsame
    rw [cmd.haste_loopHead, hsame]
    split
    · exact Nat.le_add_right 2 1
    · exact Nat.le_add_right 6 1
  unfold keepChunk
  split
  · exact hloops c rfl
  · split
    · exact Nat.le_refl _
    · exact hloops (store c chunk) rfl

theorem haste_grown (cmd : CCommand) (c : CCollect) (chunk : Bytes) (next : Nat) :
    1 + (if cmd.timeout ≤ c.elapsedMs then 2 else 6) ≤ cmd.haste (.growing c chunk next) := by
  simp only [haste]
  split
  · exact Nat.le_refl 3
  · exact Nat.le_refl 7

/-- A clock reading past the timeout ends the loop, but for a read that poll has announced. -/
theorem haste_afterPoll {cmd : CCommand} {c : CCollect} {ready : Reply} {p' : CParent}
    (hlate : cmd.timeout ≤ c.elapsedMs) (hafter : cmd.afterPoll c ready = some p') :
    1 + cmd.haste p' ≤ 5 := by
  have hhead := cmd.haste_loopHead c
  rw [if_pos hlate] at hhead
  unfold afterPoll at hafter
  split at hafter
  · cases hafter
    omega
  · cases hafter
    exact Nat.le_add_left 2 3
  · cases hafter
    rw [if_pos hlate]
    exact Nat.le_add_left 3 2
  · cases hafter
    simp only [haste, if_pos hlate]
    omega
  · cases hafter

/-- The loop is running or has been left, and it began at `start`. -/
structure Bound (start : Nat) (p : CParent) : Prop where
  begun : p.stage ≠ .before
  opened : p.stage ≠ .opening
  start : ∀ c, p.locals = some c → c.start = .ofNanos start

theorem bound_of_locals {start : Nat} {p : CParent} {c : CCollect} (hlocals : p.locals = some c)
    (hstart : c.start = .ofNanos start) : Bound start p := by
  cases p with
  | feeding _ => cases hlocals
  | closing => cases hlocals
  | starting => cases hlocals
  | allocating _ => cases hlocals
  | returned _ _ => cases hlocals
  | _ =>
      cases hlocals
      refine ⟨nofun, nofun, fun c' hc' => ?_⟩
      cases hc'
      exact hstart

theorem bound_of_loopsOn {cmd : CCommand} {start : Nat} {p : CParent} {c : CCollect}
    (hloops : LoopsOn cmd c p) (hstart : c.start = .ofNanos start) : Bound start p := by
  obtain ⟨c', hc', hsame, -⟩ := hloops.locals
  exact bound_of_locals hc' (hsame.trans hstart)

theorem bound_of_moves {cmd : CCommand} {start : Nat} {p p' : CParent} {c : Call} {r : Reply}
    (h : Bound start p) (hmove : cmd.Moves p c r p') : Bound start p' := by
  cases ctiming_of_moves (e := ⟨c, r, 0, zero_counted⟩) hmove with
  | feeds hp => exact (h.begun hp).elim
  | starts t hp => exact (h.begun hp).elim
  | opens c hp => exact (h.opened (by rw [hp]; rfl)).elim
  | polls c ms ready hp hp' =>
      rw [hp']
      exact bound_of_locals rfl (h.start c (by rw [hp]; rfl))
  | clocks c c' ready t hp _ _ hc' hnext =>
      have hstart : c'.start = .ofNanos start := by
        rw [hc']
        exact h.start c (by rw [hp]; rfl)
      split at hnext
      · rw [hnext]
        exact bound_of_locals rfl hstart
      · exact bound_of_loopsOn hnext hstart
  | goesOn c hc _ _ _ _ _ hloops => exact bound_of_loopsOn hloops (h.start c hc)
  | closes c hp _ _ _ hp' =>
      rw [hp']
      exact bound_of_locals rfl (h.start c (by rw [hp]; rfl))
  | kills c hp _ _ hp' =>
      rw [hp']
      exact bound_of_locals rfl (h.start c (by rw [hp]; rfl))
  | waits c hp _ _ _ hp' =>
      rw [hp']
      exact bound_of_locals rfl (h.start c (by rw [hp]; rfl))
  | returns c res reaped hp _ _ _ hp' _ =>
      rw [hp']
      exact ⟨nofun, nofun, nofun⟩

/-- After the timeout, every call of `ftl_run_command` brings it nearer to waitpid. -/
theorem haste_of_moves {cmd : CCommand} {S : Setting} {B : Behaviour} {start : Nat}
    {p p' : CParent} {w w' : World B.State} {c : Call} {r : Reply} (hbound : Bound start p)
    (hinside : cmd.haste p ≠ 0) (hmove : cmd.Moves p c r p') (hans : Answers S w c r w')
    (hdue : start + cmd.timeout * 1000000 ≤ w.clock) : 1 + cmd.haste p' ≤ cmd.haste p := by
  cases branch_of_moves hmove with
  | pollFailed col ms e => exact Nat.le_refl 6
  | lapsed col ms => exact Nat.le_refl 6
  | ready col ms revents => exact Nat.le_refl 6
  | clocked col answer t p' hafter =>
      cases hans
      have helapsed := le_elapsed hdue
      rw [← hbound.start col rfl] at helapsed
      exact haste_afterPoll helapsed hafter
  | got col b bs =>
      have hnext := cmd.haste_keepChunk col (b :: bs)
      show 1 + cmd.haste (cmd.keepChunk col (b :: bs)) ≤
        if cmd.timeout ≤ col.elapsedMs then 4 else 8
      by_cases hlate : cmd.timeout ≤ col.elapsedMs
      · rw [if_pos hlate] at hnext ⊢
        omega
      · rw [if_neg hlate] at hnext ⊢
        omega
  | ended col =>
      simp only [haste]
      split <;> omega
  | readInterrupted col =>
      rw [haste_loopHead]
      simp only [haste]
      split <;> omega
  | readFailed col e he =>
      simp only [haste]
      split <;> omega
  | grown col chunk next =>
      have hgrown := cmd.haste_grown col chunk next
      rw [haste_loopHead]
      exact hgrown
  | notGrown col chunk next =>
      have hgrown := cmd.haste_grown col chunk next
      rw [haste_loopHead]
      exact hgrown
  | killed col => exact Nat.le_refl 2
  | outputClosed col => exact Nat.le_refl 1
  | _ => exact (hinside rfl).elim

/-- The loop has not come to waitpid. -/
def Collecting (cmd : CCommand) (p : CParent) : Prop :=
  p.stage ≠ .before → p.stage ≠ .opening → cmd.haste p ≠ 0

theorem collecting_back {cmd : CCommand} {p p' : CParent} {c : Call} {r : Reply}
    (hmove : cmd.Moves p c r p') (hafter : cmd.Collecting p') : cmd.Collecting p := by
  intro hbegun hopened hended
  have hloops : ∀ c : CCollect, cmd.haste (.reading c) ≠ 0 := by
    intro c
    simp only [haste]
    split <;> omega
  have hgrows : ∀ c chunk next, cmd.haste (.growing c chunk next) ≠ 0 := by
    intro c chunk next
    simp only [haste]
    split <;> omega
  cases branch_of_moves hmove with
  | wrote written n => exact hbegun rfl
  | writeInterrupted written => exact hbegun rfl
  | writeFailed written e _ => exact hbegun rfl
  | closed => exact hbegun rfl
  | started t => exact hbegun rfl
  | allocated start ok => exact hopened rfl
  | got col b bs => exact hloops col hended
  | ended col => exact hloops col hended
  | readInterrupted col => exact hloops col hended
  | readFailed col e _ => exact hloops col hended
  | grown col chunk next => exact hgrows col chunk next hended
  | notGrown col chunk next => exact hgrows col chunk next hended
  | reaped col st => exact hafter nofun nofun rfl
  | waitFailed col e => exact hafter nofun nofun rfl
  | _ => cases hended

theorem haste_le (cmd : CCommand) (p : CParent) : cmd.haste p ≤ 8 := by
  unfold haste
  split
  · omega
  · omega
  · split <;> omega
  · split <;> omega
  · omega
  · omega
  · omega

section Response

variable {capacity : Nat} {faults : Bool} {B : Behaviour} {clock : Nat}

/-- The timeout has passed, and the loop is on its way to waitpid. -/
structure Hurries (cmd : CCommand) (start : Nat) (x : CParent × World B.State) : Prop where
  bound : Bound start x.1
  due : start + cmd.timeout * 1000000 ≤ x.2.clock
  inside : cmd.haste x.1 ≠ 0

/-- Every step that does not come to waitpid is paid for by the haste. -/
theorem haste_covers (cmd : CCommand) (start : Nat) :
    Covers (Guarded (cmd.Sys capacity faults B) fun _ y => cmd.Collecting y.1)
      (cmd.Hurries start) Label.call (fun _ => 0) (fun x => (cmd.haste x.1 : Int)) := by
  rintro ⟨p, w⟩ l ⟨p', w'⟩ h ⟨hstep, hcollecting⟩
  have hdue : start + cmd.timeout * 1000000 ≤ w.clock := h.due
  have hlater : (w.clock : Int) ≤ w'.clock := Int.ofNat_le.mpr (clock_step hstep)
  cases hstep with
  | parent hmove hans =>
      have hbound' := bound_of_moves h.bound hmove
      have hpaid : 1 + cmd.haste p' ≤ cmd.haste p :=
        haste_of_moves h.bound h.inside hmove hans hdue
      refine ⟨⟨hbound', Int.le_trans hdue hlater, hcollecting hbound'.begun hbound'.opened⟩, ?_⟩
      show ((1 : Nat) : Int) + cmd.haste p' ≤ cmd.haste p + (0 : Nat)
      omega
  | child hact hacts =>
      refine ⟨⟨h.bound, Int.le_trans hdue hlater, h.inside⟩, ?_⟩
      simp [Label.call]
  | die hkilled hstatus =>
      refine ⟨⟨h.bound, hdue, h.inside⟩, ?_⟩
      simp [Label.call]
  | tick nanos =>
      refine ⟨⟨h.bound, Int.le_trans hdue hlater, h.inside⟩, ?_⟩
      simp [Label.call]

/-- Once the timeout has passed, and the call that is pending then has returned,
`ftl_run_command` comes to waitpid after at most seven more calls, whatever the child does and
however often it is interrupted. -/
theorem c_deadline_response (cmd : CCommand) {start : Nat} {ls : List Label} {p p' : CParent}
    {w w' : World B.State} {c : CCollect} (hlocals : p.locals = some c)
    (hstart : c.start = .ofNanos start) (hdue : start + cmd.timeout * 1000000 ≤ w.clock)
    (hrun : Runs (cmd.Sys capacity faults B) (p, w) ls (p', w')) (hcollecting : cmd.haste p' ≠ 0) :
    calls ls ≤ 7 := by
  have hback : ∀ a l b, cmd.Sys capacity faults B a l b → cmd.Collecting b.1 →
      cmd.Collecting a.1 := by
    rintro ⟨q, u⟩ l ⟨q', u'⟩ hstep hin
    cases hstep with
    | parent hmove _ => exact collecting_back hmove hin
    | child => exact hin
    | die => exact hin
    | tick => exact hin
  obtain ⟨hinside, hguarded⟩ := hrun.guard_back hback (fun _ _ => hcollecting)
  have hbound := bound_of_locals hlocals hstart
  have hbegins : cmd.Hurries start (p, w) := ⟨hbound, hdue, hinside hbound.begun hbound.opened⟩
  have hpaid := hguarded.covered (cmd.haste_covers start) hbegins
  have hfree : total (fun _ : Label => 0) ls = 0 := by simp [total]
  have hfirst := cmd.haste_le p
  dsimp only at hpaid
  rw [hfree] at hpaid
  unfold calls
  omega

end Response

theorem c_deadline_response_lapsed : calls [.parent (.poll [.out] 5000) .lapsed] ≤ 7 := by
  have hlapsed : bareCommand.Moves (.polling ⟨.ofNanos 0, 0, 4096, 0, some []⟩ 5000)
      (.poll [.out] 5000) .lapsed (.clocking ⟨.ofNanos 0, 0, 4096, 0, some []⟩ .lapsed) :=
    ⟨rfl, rfl⟩
  have hrun : Runs (bareCommand.Sys 4 false (.script []))
      (.polling ⟨.ofNanos 0, 0, 4096, 0, some []⟩ 5000, Subprocess.fiveSecondsOn)
      [.parent (.poll [.out] 5000) .lapsed]
      (.clocking ⟨.ofNanos 0, 0, 4096, 0, some []⟩ .lapsed, Subprocess.fiveSecondsOn) :=
    .single (.parent hlapsed (.lapsed (by decide)))
  exact c_deadline_response bareCommand rfl rfl (by decide) hrun (by decide)

end CCommand

end Ftl.Process
