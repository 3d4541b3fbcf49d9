/-
  Process/SigPipe.lean --- writing to a pipe that nobody reads any more.

  `Step` lets such a write fail with EPIPE, which is what a process sees that ignores
  SIGPIPE.  With the default disposition the signal terminates the process.
  `Subprocess::Subprocess` ignores the signal; `ftl_run_command` leaves it alone.

      Subprocess.survives   `run()` goes on after a broken pipe
      survives_iff          `ftl_run_command` is safe exactly while its writes find a
                            reader; against every child, exactly without a payload
-/
import Ftl.Process.Collection

set_option autoImplicit false

namespace Ftl.Process

open Foundation (Runs Guarded)

/-! ## The signal -/

/-- What the process does with SIGPIPE. -/
inductive SigpipeAction where
  | terminate
  | ignore
  deriving DecidableEq, Repr

/-- The calling process. -/
inductive Caller (X : Type) where
  | alive (x : X)
  /-- killed by SIGPIPE -/
  | terminated

/-- The step is a write to a pipe without a reader. -/
def Label.BreaksPipe {σ : Type} (l : Label) (w : World σ) : Prop :=
  match l with
  | .parent (.write _) _ => w.holds .stdin = false
  | _ => False

/-- One step of a process whose action for SIGPIPE is `action`. -/
inductive SigStep {X : Type} (S : Setting) (B : Behaviour) (action : SigpipeAction)
    (Par : X → Call → Reply → X → Prop) :
    Caller X × World B.State → Label → Caller X × World B.State → Prop
  | moves {x x' : X} {w w' : World B.State} {l : Label} :
      Step S B Par (x, w) l (x', w') → (action = .terminate → ¬ l.BreaksPipe w) →
      SigStep S B action Par (.alive x, w) l (.alive x', w')
  | sigpipe {x x' : X} {w : World B.State} {data : Bytes} :
      action = .terminate → Par x (.write data) (.failed .epipe) x' →
      w.holds .stdin = false →
      SigStep S B action Par (.alive x, w) (.parent (.write data) (.failed .epipe))
        (.terminated, w)

section Steps

variable {X : Type} {S : Setting} {B : Behaviour} {action : SigpipeAction}
  {Par : X → Call → Reply → X → Prop} {x0 : X} {w0 : World B.State} {ls : List Label}

/-- As long as the caller is alive it makes the steps of `Step`. -/
theorem alive_run {y : Caller X × World B.State}
    (hrun : Runs (SigStep S B action Par) (.alive x0, w0) ls y) {x : X}
    (halive : y.1 = .alive x) : Runs (Step S B Par) (x0, w0) ls (x, y.2) := by
  induction hrun generalizing x with
  | refl =>
      cases halive
      exact .refl _
  | tail _ hstep ih =>
      cases hstep with
      | moves hmove _ =>
          cases halive
          exact .tail (ih rfl) hmove
      | sigpipe => cases halive

theorem alive_of_ignore {y : Caller X × World B.State}
    (hrun : Runs (SigStep S B .ignore Par) (.alive x0, w0) ls y) : ∃ x, y.1 = .alive x := by
  cases hrun with
  | refl => exact ⟨x0, rfl⟩
  | tail _ hstep =>
      cases hstep with
      | moves _ _ => exact ⟨_, rfl⟩
      | sigpipe hterminate _ _ => cases hterminate

theorem ignore_of_step {y : X × World B.State} (hrun : Runs (Step S B Par) (x0, w0) ls y) :
    Runs (SigStep S B .ignore Par) (.alive x0, w0) ls (.alive y.1, y.2) := by
  induction hrun with
  | refl => exact .refl _
  | tail _ hstep ih => exact .tail ih (.moves hstep fun h => by cases h)

/-- A write leaves the readers of its pipe as they are. -/
theorem breaksPipe_iff_of_step {x x' : X} {w w' : World B.State} {l : Label}
    (hstep : Step S B Par (x, w) l (x', w')) : l.BreaksPipe w' ↔ l.BreaksPipe w := by
  cases hstep with
  | @parent _ _ _ _ c r _ hans =>
      cases c with
      | write data =>
          have hholds : w'.holds = w.holds := by
            cases hans with
            | _ => rfl
          unfold Label.BreaksPipe
          rw [hholds]
      | _ => exact Iff.rfl
  | child _ _ => exact Iff.rfl
  | die _ _ => exact Iff.rfl
  | tick _ => exact Iff.rfl

/-- Every write finds a reader.  Otherwise SIGPIPE is sent, and its default disposition ends the
calling process. -/
def FindsReader (l : Label) (y : Caller X × World B.State) : Prop :=
  ¬ l.BreaksPipe y.2

/-- With the default action a caller is alive exactly while its writes find a reader. -/
theorem alive_iff_findsReader {y : Caller X × World B.State}
    (hrun : Runs (SigStep S B .terminate Par) (.alive x0, w0) ls y) :
    y.1 ≠ .terminated ↔
      Runs (Guarded (SigStep S B .terminate Par) FindsReader) (.alive x0, w0) ls y := by
  constructor
  · intro halive
    induction hrun with
    | refl => exact .refl _
    | tail _ hstep ih =>
        cases hstep with
        | moves hmove hreader =>
            have hfinds := mt (breaksPipe_iff_of_step hmove).mp (hreader rfl)
            exact .tail (ih (by simp)) ⟨.moves hmove hreader, hfinds⟩
        | sigpipe => exact (halive rfl).elim
  · intro hguarded
    cases hguarded with
    | refl => simp
    | tail _ hstep =>
        obtain ⟨hstep, hfinds⟩ := hstep
        cases hstep with
        | moves _ _ => simp
        | sigpipe _ _ hclosed => exact (hfinds hclosed).elim

end Steps

/-! ## The two runners -/

section Systems

variable (capacity : Nat) (faults : Bool) (B : Behaviour) (clock : Nat)

/-- `run()` in a process where the constructor has set SIGPIPE to SIG_IGN. -/
abbrev Subprocess.SigSys (sp : Subprocess) :
    Caller Parent × World B.State → Label → Caller Parent × World B.State → Prop :=
  SigStep (sp.setting capacity faults) B .ignore sp.Moves

/-- `ftl_run_command` in a process that has left SIGPIPE alone. -/
abbrev CCommand.SigSys (cmd : CCommand) :
    Caller CParent × World B.State → Label → Caller CParent × World B.State → Prop :=
  SigStep (CCommand.setting capacity faults) B .terminate cmd.Moves

/-- `run()` right after the fork. -/
def Subprocess.sigInitial (sp : Subprocess) : Caller Parent × World B.State :=
  (.alive (sp.initial B clock).1, (sp.initial B clock).2)

/-- `ftl_run_command` right after the fork. -/
def CCommand.sigInitial (cmd : CCommand) : Caller CParent × World B.State :=
  (.alive (cmd.initial B clock).1, (cmd.initial B clock).2)

variable {capacity faults B clock}

/-- A broken pipe does not end the caller of `run()`: its runs are those of `Sys`. -/
theorem Subprocess.survives (sp : Subprocess) {ls : List Label}
    {y : Caller Parent × World B.State} :
    Runs (sp.SigSys capacity faults B) (sp.sigInitial B clock) ls y ↔
      ∃ p, y.1 = .alive p ∧ Runs (sp.Sys capacity faults B) (sp.initial B clock) ls (p, y.2) := by
  constructor
  · intro hrun
    obtain ⟨p, hp⟩ := alive_of_ignore hrun
    exact ⟨p, hp, alive_run hrun hp⟩
  · rintro ⟨p, hp, hrun⟩
    obtain ⟨q, w⟩ := y
    cases hp
    exact ignore_of_step hrun

end Systems

theorem CCommand.phase_ne_feeding {cmd : CCommand} (hempty : cmd.payload = [])
    {capacity clock : Nat} {faults : Bool} {B : Behaviour} {ls : List Label}
    {x : CParent × World B.State}
    (hrun : Runs (cmd.Sys capacity faults B) (cmd.initial B clock) ls x) :
    x.1.phase ≠ .feeding := by
  have hstart : cmd.start = .closing := by
    unfold start writeLoop
    rw [hempty, if_neg (by simp)]
  induction hrun with
  | refl =>
      unfold initial
      rw [hstart]
      simp [CParent.phase]
  | tail _ hstep ih =>
      cases hstep with
      | @parent p p' _ _ _ _ hmove _ =>
          intro hfeeding
          have hnext := phase_advance hmove
          rw [show p'.phase = .feeding from hfeeding] at hnext
          cases hp : p.phase with
          | feeding => exact ih hp
          | _ =>
              rw [hp] at hnext
              simp [CPhase.next] at hnext
      | child _ _ => exact ih
      | die _ _ => exact ih
      | tick _ => exact ih

/-- A child that closes its stdin at once. -/
def deafChild : Behaviour := .script [.close .stdin]

theorem CCommand.terminated_of_payload {cmd : CCommand} (hpayload : cmd.payload ≠ [])
    (capacity clock : Nat) (faults : Bool) :
    ∃ ls w, Runs (cmd.SigSys capacity faults deafChild) (cmd.sigInitial deafChild clock) ls
      (.terminated, w) := by
  have hstart : cmd.start = .feeding 0 := by
    unfold start writeLoop
    rw [if_pos (List.length_pos_iff.mpr hpayload)]
  have hclose : cmd.SigSys capacity faults deafChild (cmd.sigInitial deafChild clock)
      (.child (.close .stdin))
      (.alive (.feeding 0), ((World.initial deafChild.start clock).release .stdin).become []) := by
    unfold sigInitial initial
    rw [hstart]
    exact .moves (.child rfl .close) fun _ => id
  refine ⟨_, _, .head hclose (.single (.sigpipe rfl ⟨rfl, rfl⟩ ?_))⟩
  rfl

/-! ## Survival -/

/-- `ftl_run_command` survives every child exactly if it has no payload.  In one run it
survives exactly while its writes find a reader, and then does what `Sys` says until it
returns. -/
theorem survives_iff (cmd : CCommand) :
    ((∀ (capacity : Nat) (faults : Bool) (B : Behaviour) (clock : Nat) (ls : List Label)
        (y : Caller CParent × World B.State),
        Runs (cmd.SigSys capacity faults B) (cmd.sigInitial B clock) ls y →
          y.1 ≠ .terminated) ↔ cmd.payload = []) ∧
    ∀ (capacity : Nat) (faults : Bool) (B : Behaviour) (clock : Nat) (ls : List Label)
      (y : Caller CParent × World B.State),
      Runs (cmd.SigSys capacity faults B) (cmd.sigInitial B clock) ls y →
        (y.1 ≠ .terminated ↔
          Runs (Guarded (cmd.SigSys capacity faults B) FindsReader) (cmd.sigInitial B clock)
            ls y) ∧
        ∀ p, y.1 = .alive p →
          Runs (cmd.Sys capacity faults B) (cmd.initial B clock) ls (p, y.2) ∧
            (cmd.pending p = none → ∃ r reaped, p = .returned r reaped) := by
  refine ⟨⟨fun hall => ?_, fun hempty => ?_⟩, ?_⟩
  · by_contra hpayload
    obtain ⟨ls, w, hrun⟩ := CCommand.terminated_of_payload hpayload 0 0 false
    exact hall 0 false deafChild 0 ls _ hrun rfl
  · intro capacity faults B clock ls y hrun
    cases hrun with
    | refl => simp [CCommand.sigInitial]
    | tail hbefore hstep =>
        cases hstep with
        | moves _ _ => simp
        | @sigpipe p _ w _ _ hmove _ =>
            have hphase := CCommand.phase_ne_feeding hempty (alive_run hbefore rfl)
            have hpending := hmove.1
            cases p with
            | feeding written => exact (hphase rfl).elim
            | _ => cases hpending
  · intro capacity faults B clock ls y hrun
    refine ⟨alive_iff_findsReader hrun, fun p hp => ⟨alive_run hrun hp, fun hnone => ?_⟩⟩
    cases p with
    | returned r reaped => exact ⟨r, reaped, rfl⟩
    | _ => cases hnone

/-- A command with the payload "x". -/
def oneByte : CCommand := { stdinData := some [120], timeoutMs := 0 }

/-- A child that reads the byte lets its caller live. -/
theorem survives_reader :
    ∃ ls y, Runs (oneByte.SigSys 1 false (.script [.read [120]]))
        (oneByte.sigInitial (.script [.read [120]]) 0) ls y ∧ y.1 = .alive .closing ∧
      Runs (Guarded (oneByte.SigSys 1 false (.script [.read [120]])) FindsReader)
        (oneByte.sigInitial (.script [.read [120]]) 0) ls y := by
  have hwrite : oneByte.SigSys 1 false (.script [.read [120]])
      (oneByte.sigInitial (.script [.read [120]]) 0) (.parent (.write [120]) (.wrote 1))
      (.alive .closing, (World.initial [.read [120]] 0).feed [120]) :=
    .moves (.parent ⟨rfl, rfl⟩ (.wrote rfl (by decide) (by decide) (by decide)))
      fun _ hbreaks => by cases hbreaks
  have hrun := Runs.single hwrite
  obtain ⟨hsurvives, -⟩ := (survives_iff _).2 _ _ _ _ _ _ hrun
  exact ⟨_, _, hrun, rfl, hsurvives.mp (by simp)⟩

/-- A child that closes its stdin before the byte is written takes its caller along. -/
theorem terminated_by_deafChild :
    ∃ ls w, Runs (oneByte.SigSys 1 false deafChild) (oneByte.sigInitial deafChild 0) ls
      (.terminated, w) := by
  exact CCommand.terminated_of_payload (by decide) 1 0 false

end Ftl.Process
