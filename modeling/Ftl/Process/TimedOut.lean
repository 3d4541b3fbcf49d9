/-
  Process/TimedOut.lean --- what `timed_out` and `status` of a returned `RunResult`
  say about the child.

  The flag comes from the clock and the pipes, the status from waitpid; between the
  two the child can end by itself.  `deaths` reads off a run how the child ended.

      returned_run                 flag and status of a returned run, in the world
      timed_out_means_killed_iff   the flag means a child killed at the deadline
                                   exactly when the kill takes effect
-/
import Ftl.Process.Collection
import Ftl.Process.ExitStatus

set_option autoImplicit false

namespace Ftl.Process

open Function (update)
open Foundation (Runs Guarded)

/-! ## How the child ended -/

/-- The end of the child. -/
inductive Death where
  /-- of the SIGKILL that the runner sent -/
  | byRunner
  /-- by an exit, or a signal that is not the runner's -/
  | byItself (status : Int)
  deriving DecidableEq, Repr

/-- The wait status that it leaves. -/
def Death.status : Death → Int
  | .byRunner => sigkillStatus
  | .byItself status => status

/-- The end that a step is. -/
def Label.death : Label → Option Death
  | .die _ => some .byRunner
  | .child (.exit status _) => some (.byItself status)
  | _ => none

/-- The ends of the child in a run. -/
def deaths (ls : List Label) : List Death := ls.filterMap Label.death

theorem deaths_concat (ls : List Label) (l : Label) :
    deaths (ls ++ [l]) = deaths ls ++ l.death.toList := by
  unfold deaths
  rw [List.filterMap_append]
  cases h : l.death with
  | none => simp [h]
  | some d => simp [h]

section Worlds

variable {X : Type} {S : Setting} {B : Behaviour} {Par : X → Call → Reply → X → Prop}

theorem death_step {x y : X × World B.State} {l : Label} (h : Step S B Par x l y) :
    match l.death with
    | none => y.2.status = x.2.status
    | some d => x.2.status = none ∧ y.2.status = some d.status ∧ x.1 = y.1 ∧
        y.2.killed = x.2.killed ∧ (d = .byRunner → x.2.killed = true) := by
  cases h with
  | parent _ hans =>
      cases hans with
      | _ => rfl
  | child _ hacts =>
      cases hacts with
      | exit hnone => exact ⟨hnone, rfl, rfl, rfl, by simp⟩
      | _ => rfl
  | die hkilled hnone => exact ⟨hnone, rfl, rfl, rfl, fun _ => hkilled⟩
  | tick nanos => rfl

theorem killed_step {x y : X × World B.State} {l : Label} (h : Step S B Par x l y)
    (hkilled : x.2.killed = true) : y.2.killed = true := by
  cases h with
  | parent _ hans =>
      cases hans with
      | killed => rfl
      | _ => exact hkilled
  | child _ hacts =>
      cases hacts with
      | _ => exact hkilled
  | die => exact hkilled
  | tick => exact hkilled

/-- The child ends at most once, and its wait status says how. -/
theorem deaths_run {x0 : X} {start : B.State} {clock : Nat} {ls : List Label}
    {x : X × World B.State}
    (hrun : Runs (Step S B Par) (x0, World.initial start clock) ls x) :
    (deaths ls = [] ∧ x.2.status = none) ∨
      ∃ d, deaths ls = [d] ∧ x.2.status = some d.status ∧
        (d = .byRunner → x.2.killed = true) := by
  induction hrun with
  | refl => exact .inl ⟨rfl, rfl⟩
  | @tail x y ls l _ hstep ih =>
      have hdeath := death_step hstep
      rw [deaths_concat]
      cases hl : l.death with
      | none =>
          rw [hl] at hdeath
          rw [hdeath]
          rcases ih with hnone | ⟨d, hd, hstatus, hkilled⟩
          · exact .inl (by simpa using hnone)
          · exact .inr ⟨d, by simpa using hd, hstatus, fun h => killed_step hstep (hkilled h)⟩
      | some d =>
          rw [hl] at hdeath
          obtain ⟨hnone, hsome, -, hkilled, hrunner⟩ := hdeath
          rcases ih with ⟨hnil, -⟩ | ⟨d', -, hstatus, -⟩
          · refine .inr ⟨d, by simp [hnil], hsome, fun h => ?_⟩
            rw [hkilled]
            exact hrunner h
          · rw [hnone] at hstatus
            cases hstatus

end Worlds

/-! ## What `collect` has in its result -/

/-- The locals of `collect` where it has any. -/
def Parent.locals : Parent → Option Collect
  | .checking c | .polling c _ | .draining c _ _ | .killing c | .waiting c => some c
  | _ => none

/-- `Q` holds of the result so far. -/
def Parent.Gathers (Q : RunResult → Prop) (p : Parent) : Prop :=
  ∀ c, p.locals = some c → Q c.result

namespace Subprocess

variable {Q : RunResult → Prop}

theorem gathers_of_locals {p : Parent} {c : Collect} (hp : p.locals = some c)
    (h : Q c.result) : p.Gathers Q := by
  intro c' hc
  rw [hp] at hc
  cases hc
  exact h

theorem gathers_of_none {p : Parent} (hp : p.locals = none) : p.Gathers Q := by
  intro c hc
  rw [hp] at hc
  cases hc

theorem gathers_writeAll (sp : Subprocess) (written : Nat) : (sp.writeAll written).Gathers Q := by
  apply gathers_of_none
  rcases sp.writeAll_cases written with h | h
  · rw [h]
    rfl
  · rw [h]
    rfl

theorem gathers_whileOpen {c : Collect} (h : Q c.result) : (whileOpen c).Gathers Q := by
  apply gathers_of_locals _ h
  unfold whileOpen
  split
  · rfl
  · rfl

theorem gathers_drainNext {c : Collect} (todo : List Stream) (h : Q c.result) :
    (drainNext c todo).Gathers Q := by
  cases todo with
  | nil => exact gathers_whileOpen h
  | cons s todo => exact gathers_of_locals rfl h

theorem gathers_drainOnce {c : Collect} {s : Stream} {todo : List Stream} {r : Reply}
    {p' : Parent} (happend : ∀ res s bs, Q res → Q (res.append s bs)) (h : Q c.result)
    (hr : drainOnce c s todo r = some p') : p'.Gathers Q := by
  unfold drainOnce at hr
  split at hr
  · cases hr
    exact gathers_drainNext todo (happend _ _ _ h)
  · cases hr
    exact gathers_drainNext todo h
  · cases hr
    exact gathers_of_locals rfl h
  · cases hr
    exact gathers_drainNext todo h
  · cases hr

/-- What holds of the empty result and is kept by appending and by raising the flag
holds throughout `collect`. -/
theorem gathers_advance {sp : Subprocess} {p p' : Parent} {c : Call} {r : Reply}
    (hempty : Q {}) (happend : ∀ res s bs, Q res → Q (res.append s bs))
    (hflag : ∀ res, Q res → Q { res with timedOut := true })
    (h : p.Gathers Q) (hmove : sp.Moves p c r p') : p'.Gathers Q := by
  cases branch_of_moves hmove with
  | wrote written n => exact gathers_writeAll sp _
  | writeInterrupted written => exact gathers_of_none rfl
  | writeFailed written e _ => exact gathers_of_none rfl
  | closed => exact gathers_of_none rfl
  | armed now => exact gathers_whileOpen hempty
  | checked col now =>
      unfold checkDeadline
      split
      · exact gathers_of_locals rfl (hflag _ (h col rfl))
      · exact gathers_of_locals rfl (h col rfl)
  | pollInterrupted col ms => exact gathers_whileOpen (h col rfl)
  | pollFailed col ms e _ => exact gathers_of_none rfl
  | lapsed col ms => exact gathers_of_locals rfl (hflag _ (h col rfl))
  | ready col ms revents => exact gathers_drainNext _ (h col rfl)
  | drained col s todo r p' hdrained => exact gathers_drainOnce happend (h col rfl) hdrained
  | killed col => exact gathers_of_locals rfl (h col rfl)
  | reaped col st => exact gathers_of_none rfl
  | waitFailed col e => exact gathers_of_none rfl

theorem returned_of_moves {sp : Subprocess} {p : Parent} {c : Call} {r : Reply}
    {res : RunResult} {reaped : Bool} (hmove : sp.Moves p c r (.returned res reaped)) :
    ∃ col, p = .waiting col ∧ c = .waitpid ∧
      ((∃ st, r = .status st ∧ res = { col.result with status := st } ∧ reaped = true) ∨
        ∃ e, r = .failed e ∧ res = col.result ∧ reaped = false) := by
  cases course_of_moves hmove with
  | goesOn hover _ _ => cases hover
  | throws _ _ _ _ _ _ hp => cases hp
  | returns col st hp hc hr hp' =>
      cases hp'
      exact ⟨col, hp, hc, .inl ⟨st, hr, rfl, rfl⟩⟩
  | waitFails col e hp hc hr hp' =>
      cases hp'
      exact ⟨col, hp, hc, .inr ⟨e, hr, rfl, rfl⟩⟩

end Subprocess

/-! ## What `run()` returns -/

section Systems

variable {capacity : Nat} {faults : Bool} {B : Behaviour} {clock : Nat} {sp : Subprocess}

/-- No status is there before waitpid, and the one that is returned is the child's. -/
def Reported (x : Parent × World B.State) : Prop :=
  x.1.Gathers (fun res => res.status = -1) ∧
    ∀ r reaped, x.1 = .returned r reaped →
      if reaped then x.2.status = some r.status else r.status = -1

theorem reported_initial (sp : Subprocess) : Reported (sp.initial B clock) := by
  refine ⟨Subprocess.gathers_writeAll sp 0, fun r reaped hr => ?_⟩
  unfold Subprocess.initial Subprocess.start at hr
  rcases sp.writeAll_cases 0 with h | h
  · rw [h] at hr
    cases hr
  · rw [h] at hr
    cases hr

theorem reported_step {x y : Parent × World B.State} {l : Label} (h : Reported x)
    (hstep : sp.Sys capacity faults B x l y) : Reported y := by
  obtain ⟨hgathers, hreturned⟩ := h
  -- once it is returned, the status of the child does not change
  have hkept : y.1 = x.1 → ∀ r reaped, y.1 = .returned r reaped →
      if reaped then y.2.status = some r.status else r.status = -1 := by
    intro hsame r reaped hy
    rw [hsame] at hy
    have hx := hreturned r reaped hy
    cases reaped with
    | false => exact hx
    | true =>
        have hdeath := death_step hstep
        cases hl : l.death with
        | none =>
            rw [hl] at hdeath
            exact hdeath.trans hx
        | some d =>
            rw [hl] at hdeath
            rw [if_pos rfl, hdeath.1] at hx
            cases hx
  cases hstep with
  | @parent p p' w w' c r hmove hans =>
      refine ⟨Subprocess.gathers_advance rfl ?_ (fun _ hres => hres) hgathers hmove, ?_⟩
      · intro res s bs hres
        cases s with
        | _ => exact hres
      · rintro res reaped rfl
        obtain ⟨col, rfl, rfl, hend⟩ := Subprocess.returned_of_moves hmove
        rcases hend with ⟨st, rfl, rfl, rfl⟩ | ⟨e, rfl, rfl, rfl⟩
        · cases hans with
          | status hstatus => exact hstatus
        · exact hgathers col rfl
  | child _ _ => exact ⟨hgathers, hkept rfl⟩
  | die _ _ => exact ⟨hgathers, hkept rfl⟩
  | tick _ => exact ⟨hgathers, hkept rfl⟩

/-- The flag of a returned result says whether SIGKILL was sent; its status is the
child's if waitpid got it, and -1 otherwise. -/
theorem returned_run {ls : List Label} {r : RunResult} {reaped : Bool} {w : World B.State}
    (hrun : Runs (sp.Sys capacity faults B) (sp.initial B clock) ls (.returned r reaped, w)) :
    r.timedOut = w.killed ∧
      if reaped then w.status = some r.status else r.status = -1 := by
  obtain ⟨v, hv, htracks⟩ := Subprocess.abstract_run hrun
  have hagrees : KillAgrees (v, w) := hv.invariant rfl killAgrees_step
  have hreported : Reported (.returned r reaped, w) :=
    hrun.invariant (reported_initial sp) reported_step
  exact ⟨htracks.2.1.symm.trans hagrees, hreported.2 r reaped rfl⟩

/-! ## The flag -/

/-- `timed_out` says that the child was killed by the SIGKILL of the deadline. -/
def TimedOutMeansKilled (ls : List Label) (r : RunResult) : Prop :=
  r.timedOut = true ↔ deaths ls = [.byRunner] ∧ r.status = sigkillStatus

/-- What a kill needs in order to take effect: it finds the child running, the child does
not end by itself before the signal arrives, and no signal interrupts the waitpid.  `collect`
sets `timed_out` before it calls `kill` and never looks at what has come of it. -/
def KillTakesEffect (l : Label) (y : Parent × World B.State) : Prop :=
  match l with
  | .parent .kill _ => y.2.status = none
  | .child (.exit _ _) => y.2.killed = false
  | .parent .waitpid (.failed _) => y.2.killed = false
  | _ => True

/-- A kill that has not taken effect. -/
def Spoiled (ls : List Label) (x : Parent × World B.State) : Prop :=
  x.2.killed = true ∧ ((∃ st, deaths ls = [.byItself st]) ∨ ∃ r, x.1 = .returned r false)

theorem running_before_kill {ls : List Label} {p p' : Parent} {w : World B.State} {r : Reply}
    (hrun : Runs (sp.Sys capacity faults B) (sp.initial B clock) ls (p, w))
    (hmove : sp.Moves p .kill r p') : w.killed = false := by
  obtain ⟨v, hv, htracks⟩ := Subprocess.abstract_run hrun
  have hagrees : KillAgrees (v, w) := hv.invariant rfl killAgrees_step
  obtain ⟨hpending, -⟩ := hmove
  cases p with
  | killing c =>
      obtain ⟨rfl, -⟩ := htracks
      exact hagrees.symm
  | _ => cases hpending

theorem spoiled_step {ls : List Label} {x y : Parent × World B.State} {l : Label}
    (hrun : Runs (sp.Sys capacity faults B) (sp.initial B clock) ls x) (h : Spoiled ls x)
    (hstep : sp.Sys capacity faults B x l y) : Spoiled (ls ++ [l]) y := by
  obtain ⟨hkilled, hwhy⟩ := h
  refine ⟨killed_step hstep hkilled, ?_⟩
  rcases hwhy with ⟨st, hdeaths⟩ | ⟨r, hr⟩
  · refine .inl ⟨st, ?_⟩
    have hdeath := death_step hstep
    rw [deaths_concat, hdeaths]
    cases hl : l.death with
    | none => rfl
    | some d =>
        rw [hl] at hdeath
        rcases deaths_run hrun with ⟨hnil, -⟩ | ⟨d', -, hstatus, -⟩
        · rw [hdeaths] at hnil
          cases hnil
        · rw [hdeath.1] at hstatus
          cases hstatus
  · refine .inr ⟨r, ?_⟩
    cases hstep with
    | parent hmove _ =>
        cases hr
        cases hmove.1
    | child _ _ => exact hr
    | die _ _ => exact hr
    | tick _ => exact hr

/-- A kill that does not find the child running comes after its own end. -/
theorem spoiled_of_kill {ls : List Label} {p p' : Parent} {w : World B.State} {r : Reply}
    (hrun : Runs (sp.Sys capacity faults B) (sp.initial B clock) ls (p, w))
    (hmove : sp.Moves p .kill r p') (hstatus : w.status ≠ none) :
    Spoiled (ls ++ [.parent .kill r]) (p', w.sendKill) := by
  refine ⟨rfl, .inl ?_⟩
  have hrunning := running_before_kill hrun hmove
  rcases deaths_run hrun with ⟨-, hnone⟩ | ⟨d, hd, -, hkilled⟩
  · exact (hstatus hnone).elim
  · cases d with
    | byRunner =>
        rw [hkilled rfl] at hrunning
        cases hrunning
    | byItself st =>
        rw [deaths_concat, hd]
        exact ⟨st, rfl⟩

/-- A waitpid that is interrupted after a kill leaves the child unreaped. -/
theorem spoiled_of_waitpid {ls : List Label} {p p' : Parent} {w : World B.State} {e : Errno}
    (hmove : sp.Moves p .waitpid (.failed e) p') (hkilled : w.killed = true) :
    Spoiled ls (p', w) := by
  refine ⟨hkilled, .inr ?_⟩
  cases Subprocess.branch_of_moves hmove with
  | waitFailed col e => exact ⟨col.result, rfl⟩

/-- An end of the child between a kill and its effect is the child's own. -/
theorem spoiled_of_exit {ls : List Label} {y : Parent × World B.State} {st : Int}
    {kept : ChildFd → Bool}
    (hrun : Runs (sp.Sys capacity faults B) (sp.initial B clock)
      (ls ++ [.child (.exit st kept)]) y) (hkilled : y.2.killed = true) :
    Spoiled (ls ++ [.child (.exit st kept)]) y := by
  refine ⟨hkilled, .inl ⟨st, ?_⟩⟩
  rcases deaths_run hrun with ⟨hnil, -⟩ | ⟨d, hd, -, -⟩
  · simp [deaths_concat, Label.death] at hnil
  · rw [deaths_concat] at hd ⊢
    rcases List.append_eq_singleton_iff.mp hd with ⟨hnil, -⟩ | ⟨-, hnone⟩
    · rw [hnil]
      rfl
    · cases hnone

/-- A step that denies a kill its effect spoils the run. -/
theorem spoiled_of_step {ls : List Label} {x y : Parent × World B.State} {l : Label}
    (hrun : Runs (sp.Sys capacity faults B) (sp.initial B clock) ls x)
    (hstep : sp.Sys capacity faults B x l y) (hnot : ¬ KillTakesEffect l y) :
    Spoiled (ls ++ [l]) y := by
  have hafter := Runs.tail hrun hstep
  cases hstep with
  | @parent _ _ _ _ c r hmove hans =>
      cases hans with
      | killed => exact spoiled_of_kill hrun hmove hnot
      | @interrupted c hc =>
          cases c with
          | waitpid => exact spoiled_of_waitpid hmove (eq_true_of_ne_false hnot)
          | kill => cases hc
          | _ => exact (hnot trivial).elim
      | @fault c e _ hfallible _ =>
          cases c with
          | write _ | poll _ _ | read _ _ => exact (hnot trivial).elim
          | _ => cases hfallible
      | _ => exact (hnot trivial).elim
  | child _ hacts =>
      cases hacts with
      | exit _ => exact spoiled_of_exit hafter (eq_true_of_ne_false hnot)
      | _ => exact (hnot trivial).elim
  | die _ _ => exact (hnot trivial).elim
  | tick _ => exact (hnot trivial).elim

/-- A run either gives every kill its effect or is spoiled. -/
theorem guarded_or_spoiled {ls : List Label} {x : Parent × World B.State}
    (hrun : Runs (sp.Sys capacity faults B) (sp.initial B clock) ls x) :
    Runs (Guarded (sp.Sys capacity faults B) KillTakesEffect) (sp.initial B clock) ls x ∨
      Spoiled ls x := by
  induction hrun with
  | refl => exact .inl (.refl _)
  | @tail x y ls l hbefore hstep ih =>
      rcases ih with hguarded | hspoiled
      · by_cases heffect : KillTakesEffect l y
        · exact .inl (.tail hguarded ⟨hstep, heffect⟩)
        · exact .inr (spoiled_of_step hbefore hstep heffect)
      · exact .inr (spoiled_step hbefore hspoiled hstep)

theorem not_spoiled_of_step {ls : List Label} {x y : Parent × World B.State} {l : Label}
    (hnot : ¬ Spoiled ls x) (hkilled : y.2.killed = x.2.killed) (hl : l.death = none)
    (hreturned : ∀ r, y.1 = .returned r false → ∃ r, x.1 = .returned r false) :
    ¬ Spoiled (ls ++ [l]) y := by
  rintro ⟨hk, hwhy⟩
  rw [hkilled] at hk
  apply hnot
  refine ⟨hk, ?_⟩
  rcases hwhy with ⟨st, hdeaths⟩ | ⟨r, hr⟩
  · rw [deaths_concat, hl, Option.toList_none, List.append_nil] at hdeaths
    exact .inl ⟨st, hdeaths⟩
  · exact .inr (hreturned r hr)

/-- `run()` returns without the child only from a waitpid that fails. -/
theorem not_unreaped_of_moves {p p' : Parent} {c : Call} {r : Reply} (hmove : sp.Moves p c r p')
    (hwait : c = .waitpid → ∀ e, r ≠ .failed e) (res : RunResult) :
    p' ≠ .returned res false := by
  rintro rfl
  obtain ⟨_, -, hc, hend⟩ := Subprocess.returned_of_moves hmove
  rcases hend with ⟨_, _, _, hreaped⟩ | ⟨e, hr, _⟩
  · cases hreaped
  · exact hwait hc e hr

/-- A kill that finds the child running is what the child dies of. -/
theorem not_spoiled_of_kill {ls : List Label} {y : Parent × World B.State}
    (hrun : Runs (sp.Sys capacity faults B) (sp.initial B clock) ls y)
    (hstatus : y.2.status = none) (hreaped : ∀ res, y.1 ≠ .returned res false) :
    ¬ Spoiled ls y := by
  rintro ⟨-, ⟨st, hdeaths⟩ | ⟨res, hres⟩⟩
  · rcases deaths_run hrun with ⟨hnil, -⟩ | ⟨d, -, hsome, -⟩
    · rw [hnil] at hdeaths
      cases hdeaths
    · rw [hstatus] at hsome
      cases hsome
  · exact hreaped res hres

/-- What the parent does spoils nothing, if every kill takes its effect. -/
theorem not_spoiled_parent {ls : List Label} {p p' : Parent} {w w' : World B.State} {c : Call}
    {r : Reply} (hrun : Runs (sp.Sys capacity faults B) (sp.initial B clock) ls (p, w))
    (hnot : ¬ Spoiled ls (p, w)) (hmove : sp.Moves p c r p')
    (hans : Answers (sp.setting capacity faults) w c r w')
    (heffect : KillTakesEffect (.parent c r) (p', w')) :
    ¬ Spoiled (ls ++ [.parent c r]) (p', w') := by
  have hafter := Runs.tail hrun (.parent hmove hans)
  have hreaped := not_unreaped_of_moves hmove
  cases hans with
  | killed => exact not_spoiled_of_kill hafter heffect (hreaped (by simp))
  | @interrupted c hc =>
      by_cases hwait : c = .waitpid
      · subst hwait
        rintro ⟨hkilled, -⟩
        exact Bool.false_ne_true (heffect.symm.trans hkilled)
      · exact not_spoiled_of_step hnot rfl rfl fun res hres =>
          (hreaped (fun h => (hwait h).elim) res hres).elim
  | @fault c _ _ hfallible _ =>
      refine not_spoiled_of_step hnot rfl rfl fun res hres => (hreaped ?_ res hres).elim
      rintro rfl
      cases hfallible
  | _ =>
      exact not_spoiled_of_step hnot rfl rfl fun res hres => (hreaped (by simp) res hres).elim

/-- A step that gives every kill its effect spoils nothing. -/
theorem not_spoiled_step {ls : List Label} {x y : Parent × World B.State} {l : Label}
    (hrun : Runs (sp.Sys capacity faults B) (sp.initial B clock) ls x) (hnot : ¬ Spoiled ls x)
    (hstep : sp.Sys capacity faults B x l y) (heffect : KillTakesEffect l y) :
    ¬ Spoiled (ls ++ [l]) y := by
  cases hstep with
  | parent hmove hans => exact not_spoiled_parent hrun hnot hmove hans heffect
  | child _ hacts =>
      cases hacts with
      | exit =>
          rintro ⟨hkilled, -⟩
          exact Bool.false_ne_true (heffect.symm.trans hkilled)
      | _ => exact not_spoiled_of_step hnot rfl rfl fun r hr => ⟨r, hr⟩
  | die hkilled _ =>
      rintro ⟨-, ⟨st, hdeaths⟩ | hreturned⟩
      · rw [deaths_concat] at hdeaths
        rcases List.append_eq_singleton_iff.mp hdeaths with ⟨-, hlast⟩ | ⟨-, hlast⟩
        · cases hlast
        · cases hlast
      · exact hnot ⟨hkilled, .inr hreturned⟩
  | tick _ => exact not_spoiled_of_step hnot rfl rfl fun r hr => ⟨r, hr⟩

theorem not_spoiled_of_guarded {ls : List Label} {x : Parent × World B.State}
    (hrun : Runs (Guarded (sp.Sys capacity faults B) KillTakesEffect) (sp.initial B clock)
      ls x) : ¬ Spoiled ls x := by
  induction hrun with
  | refl =>
      rintro ⟨hkilled, -⟩
      cases hkilled
  | @tail x y ls l hbefore hguarded ih =>
      exact not_spoiled_step hbefore.unguard ih hguarded.1 hguarded.2

/-- `timed_out` means that the runner killed the child exactly in the runs in which the
kill takes effect. -/
theorem timed_out_means_killed_iff {ls : List Label} {r : RunResult} {reaped : Bool}
    {w : World B.State}
    (hrun : Runs (sp.Sys capacity faults B) (sp.initial B clock) ls (.returned r reaped, w)) :
    TimedOutMeansKilled ls r ↔
      Runs (Guarded (sp.Sys capacity faults B) KillTakesEffect) (sp.initial B clock) ls
        (.returned r reaped, w) := by
  obtain ⟨hflag, hstatus⟩ := returned_run hrun
  have hdeaths := deaths_run hrun
  constructor
  · intro hmeans
    rcases guarded_or_spoiled hrun with hguarded | ⟨hkilled, hwhy⟩
    · exact hguarded
    · obtain ⟨hrunner, hsigkill⟩ := hmeans.mp (hflag.trans hkilled)
      rcases hwhy with ⟨st, hown⟩ | ⟨r', hr⟩
      · rw [hrunner] at hown
        cases hown
      · cases hr
        rw [show r.status = -1 from hstatus] at hsigkill
        cases hsigkill
  · intro hguarded
    have hnot := not_spoiled_of_guarded hguarded
    refine ⟨fun hto => ?_, fun ⟨hrunner, _⟩ => ?_⟩
    · have hkilled : w.killed = true := hflag.symm.trans hto
      cases reaped with
      | false => exact (hnot ⟨hkilled, .inr ⟨r, rfl⟩⟩).elim
      | true =>
          rcases hdeaths with ⟨-, hnone⟩ | ⟨d, hd, hsome, -⟩
          · rw [show w.status = none from hnone] at hstatus
            cases hstatus
          · cases d with
            | byItself st => exact (hnot ⟨hkilled, .inl ⟨st, hd⟩⟩).elim
            | byRunner => exact ⟨hd, Option.some.inj (hstatus.symm.trans hsome)⟩
    · rcases hdeaths with ⟨hnil, -⟩ | ⟨d, hd, -, hkilled⟩
      · rw [hrunner] at hnil
        cases hnil
      · rw [hrunner] at hd
        cases hd
        exact hflag.trans (hkilled rfl)

/-- A child that hangs is killed at the deadline. -/
theorem timed_out_after_kill :
    ∃ ls r w, Runs (bareRun.Sys 1 false (.script [])) (bareRun.initial (.script []) 0) ls
        (.returned r true, w) ∧ r.timedOut = true ∧ TimedOutMeansKilled ls r := by
  have hrun : ∃ ls r w, Runs (Guarded (bareRun.Sys 1 false (.script [])) KillTakesEffect)
      (bareRun.initial (.script []) 0) ls (.returned r true, w) ∧ r.timedOut = true :=
    ⟨_, _, _,
      .head ⟨.parent ⟨rfl, rfl⟩ .closedStdin, trivial⟩ <|
      .head ⟨.parent ⟨rfl, rfl⟩ .clock, trivial⟩ <|
      .head ⟨.tick 5000000000, trivial⟩ <|
      .head ⟨.parent ⟨rfl, rfl⟩ .clock, trivial⟩ <|
      .head ⟨.parent ⟨rfl, rfl⟩ .killed, rfl⟩ <|
      .head ⟨@Step.die _ _ _ _ _ _ (fun _ => false) rfl rfl, trivial⟩ <|
      .single ⟨.parent ⟨rfl, rfl⟩ (.status rfl), trivial⟩, rfl⟩
  obtain ⟨ls, r, w, hrun, hto⟩ := hrun
  exact ⟨ls, r, w, hrun.unguard, hto, (timed_out_means_killed_iff hrun.unguard).mpr hrun⟩

/-- A child that exits while a descendant keeps its stdout. -/
def exitedChild : List Action := [.exit 0 fun fd => decide (fd = .stdout)]

/-- A child that keeps its stdout exits with 0, and the SIGKILL of the deadline finds a process
that has ended. -/
theorem timed_out_after_exit :
    ∃ ls r w, Runs (bareRun.Sys 1 false (.script exitedChild))
        (bareRun.initial (.script exitedChild) 0) ls (.returned r true, w) ∧
      r.timedOut = true ∧ r.exited = true ∧ r.exitCode = 0 ∧ ¬ TimedOutMeansKilled ls r := by
  obtain ⟨ls, ⟨p, w⟩, hrun, hend⟩ := bareRun.play 1 exitedChild
    [.parent .done, .parent (.time 0), .child, .tick 5000000000, .parent (.time 5000000000),
      .parent .done, .parent (.status 0)]
    (fun _ => true)
    (fun y => match y.1 with
      | .returned r true => r.timedOut && decide (r.status = 0)
      | _ => false)
    (by decide)
  split at hend
  · rename_i r hp
    simp only at hp
    subst hp
    rw [Bool.and_eq_true, decide_eq_true_eq] at hend
    obtain ⟨hto, hstatus⟩ := hend
    refine ⟨ls, r, w, hrun.unguard, hto, ?_, ?_, fun hmeans => ?_⟩
    · rw [RunResult.exited, hstatus]
      rfl
    · rw [RunResult.exitCode, RunResult.exited, hstatus]
      rfl
    · obtain ⟨-, hsigkill⟩ := hmeans.mp hto
      rw [hstatus] at hsigkill
      cases hsigkill
  · cases hend

end Systems

end Ftl.Process
