/-
  Process/Timing.lean --- `Subprocess::collect` as far as the clock matters.

  A move of `run()` fixes the deadline, checks it, takes a poll that returned 0 for it, or has
  nothing to do with it.

      timing_of_moves    which of them a move is
      remaining_eq       the time that is left, for a timeout that is not too long
      armed_step         the first clock reading fixes the deadline for the whole run
-/
import Ftl.Process.Clocked
import Ftl.Process.TimedOut

set_option autoImplicit false

namespace Ftl.Process

open Foundation (Runs)

/-! ## What a move has to do with the clock -/

/-- The flag of the result, wherever there is one. -/
def Parent.flag : Parent → Bool
  | .checking c | .polling c _ | .draining c _ _ | .killing c | .waiting c => c.result.timedOut
  | .returned r _ => r.timedOut
  | _ => false

/-- `collect` has fixed its deadline. -/
def Parent.armed : Parent → Bool
  | .feeding _ | .closing | .arming => false
  | _ => true

/-- The states in which `collect` neither polls nor kills. -/
def Parent.calm : Parent → Bool
  | .polling _ _ | .killing _ => false
  | _ => true

/-- What a move is, as far as the clock matters. -/
inductive Timing (sp : Subprocess) (p : Parent) (e : Event) (p' : Parent) : Prop
  | feeds : p.armed = false → p'.armed = false → e.call ≠ .clock → e.reply ≠ .lapsed →
      Timing sp p e p'
  | arms (start : Nat) : p.armed = false → e.call = .clock → e.reply = .time start →
      p' = Subprocess.whileOpen (sp.collectStart start) → Timing sp p e p'
  | checks (c : Collect) (now : Nat) : p = .checking c → e.call = .clock →
      e.reply = .time now → p' = Subprocess.checkDeadline c now → Timing sp p e p'
  | lapses (c : Collect) (ms : Int) : p = .polling c ms →
      e.call = .poll (Subprocess.watchedNow c) (wrap32 ms) → e.reply = .lapsed →
      p' = .killing { c with result := { c.result with timedOut := true } } → Timing sp p e p'
  | goesOn (c c' : Collect) : p.locals = some c → p'.locals = some c' → e.call ≠ .clock →
      e.reply ≠ .lapsed → c'.deadline = c.deadline → p'.flag = p.flag → p'.calm = true →
      Timing sp p e p'
  | ends (c : Collect) : p.locals = some c → p'.locals = none → e.call ≠ .clock →
      e.reply ≠ .lapsed → p'.armed = true → (p'.flag = true → p.flag = true) →
      p'.calm = true → Timing sp p e p'

namespace Subprocess

/-- Where `collect` goes with the locals `c`. -/
structure CarriesOn (c : Collect) (p : Parent) : Prop where
  locals : ∃ c', p.locals = some c' ∧ c'.deadline = c.deadline
  flag : p.flag = c.result.timedOut
  calm : p.calm = true

theorem carriesOn_whileOpen (c : Collect) : CarriesOn c (whileOpen c) := by
  unfold whileOpen
  split
  · exact ⟨⟨c, rfl, rfl⟩, rfl, rfl⟩
  · exact ⟨⟨c, rfl, rfl⟩, rfl, rfl⟩

theorem carriesOn_drainNext (c : Collect) (todo : List Stream) :
    CarriesOn c (drainNext c todo) := by
  cases todo with
  | nil => exact carriesOn_whileOpen c
  | cons s todo => exact ⟨⟨c, rfl, rfl⟩, rfl, rfl⟩

theorem carriesOn_drainOnce {c : Collect} {s : Stream} {todo : List Stream} {r : Reply}
    {p' : Parent} (h : drainOnce c s todo r = some p') : CarriesOn c p' ∧ r ≠ .lapsed := by
  unfold drainOnce at h
  split at h
  · rename_i b bs
    cases h
    have hnext := carriesOn_drainNext { c with result := c.result.append s (b :: bs) } todo
    exact ⟨⟨hnext.locals, hnext.flag.trans (RunResult.timedOut_append _ _ _), hnext.calm⟩, by simp⟩
  · cases h
    have hnext := carriesOn_drainNext { c with isOpen := Function.update c.isOpen s false } todo
    exact ⟨⟨hnext.locals, hnext.flag, hnext.calm⟩, by simp⟩
  · cases h
    exact ⟨⟨⟨c, rfl, rfl⟩, rfl, rfl⟩, by simp⟩
  · cases h
    have hnext := carriesOn_drainNext { c with isOpen := Function.update c.isOpen s false } todo
    exact ⟨⟨hnext.locals, hnext.flag, hnext.calm⟩, by simp⟩
  · cases h

theorem timing_of_carriesOn {sp : Subprocess} {p p' : Parent} {e : Event} {c : Collect}
    (hp : p.locals = some c) (hflag : p.flag = c.result.timedOut) (h : CarriesOn c p')
    (hcall : e.call ≠ .clock) (hreply : e.reply ≠ .lapsed) : Timing sp p e p' := by
  obtain ⟨⟨c', hc', hdeadline⟩, hflag', hcalm⟩ := h
  exact .goesOn c c' hp hc' hcall hreply hdeadline (hflag'.trans hflag.symm) hcalm

theorem armed_writeAll (sp : Subprocess) (written : Nat) : (sp.writeAll written).armed = false := by
  rcases sp.writeAll_cases written with h | h
  · rw [h]
    rfl
  · rw [h]
    rfl

theorem timing_of_moves {sp : Subprocess} {p p' : Parent} {e : Event}
    (hmove : sp.Moves p e.call e.reply p') : Timing sp p e p' := by
  obtain ⟨call, reply, time⟩ := e
  dsimp only at hmove
  cases branch_of_moves hmove with
  | wrote written n => exact .feeds rfl (sp.armed_writeAll _) (by simp) (by simp)
  | writeInterrupted written => exact .feeds rfl rfl (by simp) (by simp)
  | writeFailed written e _ => exact .feeds rfl rfl (by simp) (by simp)
  | closed => exact .feeds rfl rfl (by simp) (by simp)
  | armed now => exact .arms now rfl rfl rfl rfl
  | checked c now => exact .checks c now rfl rfl rfl rfl
  | pollInterrupted c ms =>
      exact timing_of_carriesOn rfl rfl (carriesOn_whileOpen c) (by simp) (by simp)
  | pollFailed c ms e _ =>
      refine .ends c rfl rfl (by simp) (by simp) rfl (fun hflag => ?_) rfl
      exact absurd hflag Bool.false_ne_true
  | lapsed c ms => exact .lapses c ms rfl rfl rfl rfl
  | ready c ms revents =>
      exact timing_of_carriesOn rfl rfl (carriesOn_drainNext c _) (by simp) (by simp)
  | drained c s todo r p' hdrained =>
      obtain ⟨hnext, hreply⟩ := carriesOn_drainOnce hdrained
      exact timing_of_carriesOn rfl rfl hnext (by simp) hreply
  | killed c => exact timing_of_carriesOn rfl rfl ⟨⟨c, rfl, rfl⟩, rfl, rfl⟩ (by simp) (by simp)
  | reaped c st => exact .ends c rfl rfl (by simp) (by simp) rfl id rfl
  | waitFailed c e => exact .ends c rfl rfl (by simp) (by simp) rfl id rfl

theorem moves_unique (sp : Subprocess) (p : Parent) (c : Call) (r : Reply) (p' p'' : Parent)
    (h : sp.Moves p c r p') (h' : sp.Moves p c r p'') : p' = p'' :=
  Option.some.inj (h.2.symm.trans h'.2)

end Subprocess

/-! ## The arithmetic -/

theorem wrap64_eq {x : Int} (hlow : -9223372036854775808 ≤ x) (hhigh : x < 9223372036854775808) :
    wrap64 x = x := by
  unfold wrap64
  exact Int.bmod_eq_of_le (by omega) (by omega)

theorem wrap32_eq_iff {x : Int} (hpos : 0 ≤ x) : wrap32 x = x ↔ x < 2147483648 := by
  unfold wrap32
  constructor
  · intro hsame
    have hlt := @Int.bmod_lt x 4294967296 (by decide)
    rw [hsame] at hlt
    omega
  · intro hlt
    exact Int.bmod_eq_of_le (by omega) (by omega)

/-- The deadline that is meant, for a timeout in ms. -/
def dueAt (timeoutMs : Int) (start : Nat) : Int := start + timeoutMs * 1000000

/-- What is left of the time does not depend on whether the deadline itself wraps. -/
theorem remainingMsOf_deadlineOf (timeoutMs : Int) (start now : Nat) :
    remainingMsOf (deadlineOf start timeoutMs) now =
      (wrap64 (dueAt timeoutMs start - now)).tdiv 1000000 := by
  unfold remainingMsOf deadlineOf dueAt wrap64
  rw [Int.bmod_sub_bmod, Int.sub_eq_add_neg, Int.add_right_comm, Int.add_bmod_bmod,
    Int.add_right_comm, ← Int.sub_eq_add_neg]

theorem tdiv_of_nonneg {x : Int} (h : 0 ≤ x) : x.tdiv 1000000 = x / 1000000 :=
  Int.tdiv_eq_ediv_of_nonneg h

/-- The time that is left, of a timeout that fits into an `int`. -/
theorem remaining_eq {timeoutMs : Int} {start now : Nat} (hpos : 0 < timeoutMs)
    (hmax : timeoutMs ≤ 2147483647) (hlater : start ≤ now)
    (hfits : now < 9223372036854775808) :
    remainingMsOf (deadlineOf start timeoutMs) now =
      (dueAt timeoutMs start - now).tdiv 1000000 := by
  have hexact : wrap64 (dueAt timeoutMs start - now) = dueAt timeoutMs start - now := by
    unfold dueAt
    exact wrap64_eq (by omega) (by omega)
  rw [remainingMsOf_deadlineOf, hexact]

theorem tdiv_pos_iff {x : Int} : 0 < x.tdiv 1000000 ↔ 1000000 ≤ x := by
  by_cases hx : 0 ≤ x
  · rw [tdiv_of_nonneg hx]
    omega
  · have hneg : x.tdiv 1000000 ≤ 0 := by
      have hflip : x.tdiv 1000000 = -((-x).tdiv 1000000) := by
        rw [Int.neg_tdiv, Int.neg_neg]
      rw [hflip, tdiv_of_nonneg (by omega)]
      omega
    omega

theorem tdiv_nonpos_iff {x : Int} : x.tdiv 1000000 ≤ 0 ↔ x < 1000000 := by
  rw [← Int.not_lt, tdiv_pos_iff, Int.not_le]

/-! ## The history of the readings -/

/-- What the readings and the locals of `collect` have to do with each other. -/
structure Armed (sp : Subprocess) (es : List Event) (x : Parent × Nat) : Prop where
  before : x.1.armed = false → readings es = [] ∧ ∀ e ∈ es, e.reply ≠ .lapsed
  after : x.1.armed = true → ∃ start, (readings es).head? = some start ∧ start ≤ x.2 ∧
    ∀ c, x.1.locals = some c → c.deadline = deadlineOf start sp.timeoutMs

theorem armed_of_locals {p : Parent} {c : Collect} (h : p.locals = some c) : p.armed = true := by
  cases p with
  | feeding _ => cases h
  | closing => cases h
  | arming => cases h
  | _ => rfl

section Histories

variable {sp : Subprocess} {es : List Event} {e : Event} {x y : Parent × Nat}

theorem armed_start (sp : Subprocess) (t : Nat) : Armed sp [] (sp.start, t) := by
  refine ⟨fun _ => ⟨rfl, by simp⟩, fun harmed => ?_⟩
  rw [show sp.start.armed = false from sp.armed_writeAll 0] at harmed
  cases harmed

/-- The readings go on while `collect` keeps its deadline. -/
theorem Armed.carries (h : Armed sp es x) {c : Collect} (hc : x.1.locals = some c)
    (hlater : x.2 ≤ y.2) (harmed : y.1.armed = true)
    (hkeeps : ∀ c', y.1.locals = some c' → c'.deadline = c.deadline) :
    Armed sp (es ++ [e]) y := by
  obtain ⟨start, hstart, hle, hdeadline⟩ := h.after (armed_of_locals hc)
  refine ⟨fun hnot => ?_, fun _ => ⟨start, head?_readings_concat hstart, by omega, ?_⟩⟩
  · rw [harmed] at hnot
    cases hnot
  · intro c' hc'
    rw [hkeeps c' hc', hdeadline c hc]

theorem checkDeadline_locals (c : Collect) (now : Nat) :
    ∃ c', (Subprocess.checkDeadline c now).locals = some c' ∧ c'.deadline = c.deadline := by
  unfold Subprocess.checkDeadline
  split
  · exact ⟨_, rfl, rfl⟩
  · exact ⟨_, rfl, rfl⟩

/-- The locals of a state are those that it has been seen to have. -/
theorem deadline_of_locals {p : Parent} {c : Collect} {deadline : Int} (hc : p.locals = some c)
    (hdeadline : c.deadline = deadline) : ∀ c', p.locals = some c' → c'.deadline = deadline := by
  intro c' hc'
  rw [hc] at hc'
  cases hc'
  exact hdeadline

/-- Before `collect` nothing is read from the clock, and no poll lapses. -/
theorem armed_feeds (h : Armed sp es x) (hx : x.1.armed = false) (hy : y.1.armed = false)
    (hcall : e.call ≠ .clock) (hreply : e.reply ≠ .lapsed) : Armed sp (es ++ [e]) y := by
  obtain ⟨hnone, hlapsed⟩ := h.before hx
  refine ⟨fun _ => ⟨by rw [readings_other hcall, hnone], ?_⟩, fun harmed => ?_⟩
  · intro e' he'
    rcases List.mem_append.mp he' with hold | hnew
    · exact hlapsed e' hold
    · rw [List.mem_singleton.mp hnew]
      exact hreply
  · rw [hy] at harmed
    cases harmed

theorem armed_arms (h : Armed sp es x) (hstep : Clocked sp.Moves x e y) {start : Nat}
    (hx : x.1.armed = false) (hcall : e.call = .clock) (hreply : e.reply = .time start)
    (hy : y.1 = Subprocess.whileOpen (sp.collectStart start)) : Armed sp (es ++ [e]) y := by
  have hnone := (h.before hx).1
  have hnow := hstep.reads start hreply
  obtain ⟨⟨c, hc, hdeadline⟩, -, -⟩ := Subprocess.carriesOn_whileOpen (sp.collectStart start)
  rw [← hy] at hc
  refine ⟨fun hnot => ?_, fun _ => ⟨start, ?_, ?_, deadline_of_locals hc hdeadline⟩⟩
  · rw [armed_of_locals hc] at hnot
    cases hnot
  · rw [readings_clock hcall, hnone, hnow]
    rfl
  · exact Nat.le_of_eq (hnow.trans hstep.time_eq.symm)

theorem armed_step (h : Armed sp es x) (hstep : Clocked sp.Moves x e y) :
    Armed sp (es ++ [e]) y := by
  have hlater := hstep.time_le
  cases Subprocess.timing_of_moves hstep.moves with
  | feeds hx hy hcall hreply => exact armed_feeds h hx hy hcall hreply
  | arms start hx hcall hreply hy => exact armed_arms h hstep hx hcall hreply hy
  | checks c now hx hcall hreply hy =>
      obtain ⟨c', hc', hdeadline⟩ := checkDeadline_locals c now
      rw [← hy] at hc'
      exact h.carries (by rw [hx]; rfl) hlater (armed_of_locals hc')
        (deadline_of_locals hc' hdeadline)
  | lapses c ms hx _ _ hy =>
      apply h.carries (by rw [hx]; rfl) hlater (by rw [hy]; rfl)
      intro c' hc'
      rw [hy] at hc'
      cases hc'
      rfl
  | goesOn c c' hc hc' _ _ hdeadline _ _ =>
      exact h.carries hc hlater (armed_of_locals hc') (deadline_of_locals hc' hdeadline)
  | ends c hc hnone _ _ harmed _ _ =>
      apply h.carries hc hlater harmed
      intro c' hc'
      rw [hnone] at hc'
      cases hc'

end Histories

end Ftl.Process
