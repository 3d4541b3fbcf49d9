/-
  Process/CLifetime.lean --- a whole call of `ftl_run_command`, with its descriptors,
  its child and the caller's `*result`.

  Embedded source: the argument test, the two pipes, the fork and the cleanup ladders
  of ftl/ftl.h.  What Process/Lifetime.lean leaves to destructors is written out by
  hand here: every exit closes what is still open.

      CRunState.inv_run      every opened descriptor is closed once or still to close
      descriptors_balanced   both runners close what they opened, once, on every exit
-/
import Ftl.Process.Lifetime
import Ftl.Process.RunCommand

set_option autoImplicit false

namespace Ftl.Process

open Foundation (FdTable Ledger Runs)
open Foundation.Ledger (Balanced)

/-! ## `ftl_run_command` -/

/-- The arguments of `ftl_run_command`, and whether `program` and `result` are there. -/
structure CArguments where
  hasProgram : Bool
  hasResult : Bool
  cmd : CCommand

/-- Where `ftl_run_command` is, with the pipes it has created so far. -/
inductive CRunControl where
  | pipingIn
  | pipingOut (inPipe : Nat × Nat)
  | forking (inPipe outPipe : Nat × Nat)
  /-- in the parent after the fork -/
  | inParent (inPipe outPipe : Nat × Nat) (p : CParent)
  /-- returned -1 with this errno -/
  | failed (e : Errno)

/-- The call is over. -/
def CRunControl.ended : CRunControl → Bool
  | .failed _ | .inParent _ _ (.returned _ _) => true
  | _ => false

/-- A state of `ftl_run_command`; `result` is what the caller's `*result` holds. -/
structure CRunState (α : Type) where
  control : CRunControl
  fds : Ledger (Object α)
  forked : Bool
  reaped : Bool
  result : CRunResult

/-- `EINVAL`. -/
def einval : Errno := .other 22

namespace CRunState

variable {α : Type}

/-- A call by a caller with the table `t`, and the test of its arguments. -/
def initial (args : CArguments) (t : FdTable α) (result : CRunResult) : CRunState α where
  control := if args.hasProgram && args.hasResult then .pipingIn else .failed einval
  fds := .begin (t.map .caller)
  forked := false
  reaped := false
  result := result

/-- Return -1 after closing `fds`. -/
def fail (s : CRunState α) (fds : List Nat) (e : Errno) : CRunState α :=
  { s with control := .failed e, fds := s.fds.closeAll fds }

/-- What the step from `p` closes. -/
def closedBy (inPipe outPipe : Nat × Nat) : CParent → List Nat
  | .closing => [inPipe.2]
  | .closingOutput _ => [outPipe.1]
  | _ => []

/-- What getting to `p` stores in `*result`: status and flag before `waitpid`, all of
it at the end. -/
def stored (cmd : CCommand) (old : CRunResult) : CParent → CRunResult
  | .waiting c => { cmd.result c (-1) with output := old.output }
  | .returned r _ => r
  | _ => old

end CRunState

/-- `waitpid` has got the child. -/
def CParent.hasReaped : CParent → Bool
  | .returned _ reaped => reaped
  | _ => false

/-- One call of `ftl_run_command`. -/
def CArguments.callStep {α : Type} (args : CArguments) (s : CRunState α) :
    CallEvent → Option (CRunState α)
  | .pipe none =>
      match s.control with
      | .pipingIn =>
          let created := pipeOn s.fds (.own .inRead) (.own .inWrite)
          some { s with control := .pipingOut created.1, fds := created.2 }
      | .pipingOut inPipe =>
          let created := pipeOn s.fds (.own .outRead) (.own .outWrite)
          some { s with control := .forking inPipe created.1, fds := created.2 }
      | _ => none
  | .pipe (some e) =>
      match s.control with
      | .pipingIn => some (s.fail [] e)
      | .pipingOut inPipe => some (s.fail [inPipe.1, inPipe.2] e)
      | _ => none
  | .fork none =>
      match s.control with
      | .forking inPipe outPipe =>
          some { s with
            control := .inParent inPipe outPipe args.cmd.start
            fds := s.fds.closeAll [inPipe.1, outPipe.2]
            forked := true }
      | _ => none
  | .fork (some e) =>
      match s.control with
      | .forking inPipe outPipe =>
          some (s.fail [inPipe.1, inPipe.2, outPipe.1, outPipe.2] e)
      | _ => none
  | .call c r =>
      match s.control with
      | .inParent inPipe outPipe p =>
          if args.cmd.pending p = some c then
            (args.cmd.advance p r).map fun p' =>
              { s with
                control := .inParent inPipe outPipe p'
                fds := s.fds.closeAll (CRunState.closedBy inPipe outPipe p)
                reaped := p'.hasReaped
                result := CRunState.stored args.cmd s.result p' }
          else none
      | _ => none

/-- `CArguments.callStep` as a relation. -/
def CArguments.CallSteps {α : Type} (args : CArguments) (s : CRunState α) (e : CallEvent)
    (s' : CRunState α) : Prop := args.callStep s e = some s'

/-! ## What `ftl_run_command` has open -/

/-- The descriptors that are still to be closed. -/
def CRunControl.owned : CRunControl → List Nat
  | .pipingIn | .failed _ => []
  | .pipingOut inPipe => [inPipe.1, inPipe.2]
  | .forking inPipe outPipe => [inPipe.1, inPipe.2, outPipe.1, outPipe.2]
  | .inParent inPipe outPipe (.feeding _) | .inParent inPipe outPipe .closing =>
      [inPipe.2, outPipe.1]
  | .inParent _ _ (.waiting _) | .inParent _ _ (.returned _ _) => []
  | .inParent _ outPipe _ => [outPipe.1]

/-- The child has not been forked. -/
def CRunControl.beforeFork : CRunControl → Bool
  | .inParent _ _ _ => false
  | _ => true

/-- What a step of `ftl_run_command` can be. -/
inductive CArguments.CallCase {α : Type} (args : CArguments) (s : CRunState α) :
    CallEvent → CRunState α → Prop
  | createdIn : s.control = .pipingIn →
      CallCase args s (.pipe none)
        { s with
          control := .pipingOut (pipeOn s.fds (.own .inRead) (.own .inWrite)).1
          fds := (pipeOn s.fds (.own .inRead) (.own .inWrite)).2 }
  | createdOut {inPipe : Nat × Nat} : s.control = .pipingOut inPipe →
      CallCase args s (.pipe none)
        { s with
          control := .forking inPipe (pipeOn s.fds (.own .outRead) (.own .outWrite)).1
          fds := (pipeOn s.fds (.own .outRead) (.own .outWrite)).2 }
  | failed {ev : CallEvent} (e : Errno) : s.control.beforeFork = true →
      ev = .pipe (some e) ∨ ev = .fork (some e) →
      CallCase args s ev (s.fail s.control.owned e)
  | forked {inPipe outPipe : Nat × Nat} : s.control = .forking inPipe outPipe →
      CallCase args s (.fork none)
        { s with
          control := .inParent inPipe outPipe args.cmd.start
          fds := s.fds.closeAll [inPipe.1, outPipe.2]
          forked := true }
  | called {inPipe outPipe : Nat × Nat} {p p' : CParent} {c : Call} {r : Reply} :
      s.control = .inParent inPipe outPipe p → args.cmd.Moves p c r p' →
      CallCase args s (.call c r)
        { s with
          control := .inParent inPipe outPipe p'
          fds := s.fds.closeAll (CRunState.closedBy inPipe outPipe p)
          reaped := p'.hasReaped
          result := CRunState.stored args.cmd s.result p' }

theorem CArguments.callCase_failed {α : Type} (args : CArguments) {s : CRunState α}
    {control : CRunControl} {ev : CallEvent} (e : Errno) (hcontrol : s.control = control)
    (hbefore : control.beforeFork = true) (hev : ev = .pipe (some e) ∨ ev = .fork (some e)) :
    args.CallCase s ev (s.fail control.owned e) := by
  subst hcontrol
  exact .failed e hbefore hev

theorem CArguments.callSteps_cases {α : Type} {args : CArguments} {s s' : CRunState α}
    {e : CallEvent} (h : args.CallSteps s e s') : args.CallCase s e s' := by
  unfold CallSteps at h
  cases e with
  | pipe failure =>
      cases failure with
      | none =>
          simp only [callStep] at h
          split at h
          · rename_i hcontrol
            cases h
            exact .createdIn hcontrol
          · rename_i inPipe hcontrol
            cases h
            exact .createdOut hcontrol
          · cases h
      | some e =>
          simp only [callStep] at h
          split at h
          · rename_i hcontrol
            cases h
            exact args.callCase_failed e hcontrol rfl (.inl rfl)
          · rename_i inPipe hcontrol
            cases h
            exact args.callCase_failed e hcontrol rfl (.inl rfl)
          · cases h
  | fork failure =>
      cases failure with
      | none =>
          simp only [callStep] at h
          split at h
          · rename_i inPipe outPipe hcontrol
            cases h
            exact .forked hcontrol
          · cases h
      | some e =>
          simp only [callStep] at h
          split at h
          · rename_i inPipe outPipe hcontrol
            cases h
            exact args.callCase_failed e hcontrol rfl (.inr rfl)
          · cases h
  | call c r =>
      simp only [callStep] at h
      split at h
      · rename_i inPipe outPipe p hcontrol
        split at h
        · rename_i hpending
          obtain ⟨p', hadvance, rfl⟩ := Option.map_eq_some_iff.mp h
          exact .called hcontrol ⟨hpending, hadvance⟩
        · cases h
      · cases h

namespace CRunState

variable {α : Type}

/-- What holds in every state of a call that began on the table `t` with `old` in
`*result`. -/
structure Inv (t : FdTable α) (old : CRunResult) (s : CRunState α) : Prop where
  balanced : Balanced (t.map .caller) s.fds s.control.owned
  unclosed : s.control.beforeFork = true → s.control.ended = false → s.fds.closed = []
  childless : s.control.beforeFork = true → s.forked = false ∧ s.result = old

variable {t : FdTable α} {old : CRunResult} {s : CRunState α}

theorem inv_initial (args : CArguments) (t : FdTable α) (old : CRunResult) :
    Inv t old (initial args t old) := by
  refine ⟨?_, fun _ _ => rfl, fun _ => ⟨rfl, rfl⟩⟩
  unfold initial
  split
  · exact Ledger.balanced_begin _
  · exact Ledger.balanced_begin _

/-- The call has failed, after closing all that it had opened. -/
theorem inv_fail (e : Errno) (h : Inv t old s) (hbefore : s.control.beforeFork = true) :
    Inv t old (s.fail s.control.owned e) := by
  have hall := h.balanced
  rw [← List.append_nil s.control.owned] at hall
  refine ⟨hall.closeAll, ?_, fun _ => h.childless hbefore⟩
  intro _ hrunning
  cases hrunning

end CRunState

namespace CCommand

/-- What is still to be closed depends on the part of the call. -/
theorem owned_inParent (inPipe outPipe : Nat × Nat) (p : CParent) :
    (CRunControl.inParent inPipe outPipe p).owned =
      match p.phase with
      | .feeding | .closing => [inPipe.2, outPipe.1]
      | .collecting | .closingOutput => [outPipe.1]
      | .waiting | .returned => [] := by
  cases p with
  | _ => rfl

theorem closedBy_eq (inPipe outPipe : Nat × Nat) (p : CParent) :
    CRunState.closedBy inPipe outPipe p =
      match p.phase with
      | .closing => [inPipe.2]
      | .closingOutput => [outPipe.1]
      | _ => [] := by
  cases p with
  | _ => rfl

/-- A step closes what is owned before it and not after it. -/
theorem owned_advance (inPipe outPipe : Nat × Nat) {cmd : CCommand} {p p' : CParent} {c : Call}
    {r : Reply} (hmove : cmd.Moves p c r p') :
    (CRunControl.inParent inPipe outPipe p).owned =
      CRunState.closedBy inPipe outPipe p ++ (CRunControl.inParent inPipe outPipe p').owned := by
  have hnext := phase_advance hmove
  rw [owned_inParent, owned_inParent, closedBy_eq]
  cases hp : p.phase with
  | feeding =>
      rw [hp] at hnext
      rcases List.mem_pair.mp hnext with h | h
      · rw [h]
        rfl
      · rw [h]
        rfl
  | collecting =>
      rw [hp] at hnext
      rcases List.mem_pair.mp hnext with h | h
      · rw [h]
        rfl
      · rw [h]
        rfl
  | closing =>
      rw [hp] at hnext
      rw [List.mem_singleton.mp hnext]
      rfl
  | closingOutput =>
      rw [hp] at hnext
      rw [List.mem_singleton.mp hnext]
      rfl
  | waiting =>
      rw [hp] at hnext
      rw [List.mem_singleton.mp hnext]
      rfl
  | returned =>
      rw [hp] at hnext
      cases hnext

end CCommand

namespace CRunState

variable {α : Type} {t : FdTable α} {old : CRunResult} {s : CRunState α}

/-- A pipe is created: its ends are still to be closed. -/
theorem inv_created (h : Inv t old s) {control : CRunControl} (readEnd writeEnd : Object α)
    (hbefore : s.control.beforeFork = true) (hrunning : s.control.ended = false)
    (howned : ((pipeOn s.fds readEnd writeEnd).1.1 :: (pipeOn s.fds readEnd writeEnd).1.2 ::
      s.control.owned).Perm control.owned) :
    Inv t old { s with control := control, fds := (pipeOn s.fds readEnd writeEnd).2 } where
  balanced :=
    (balanced_pipeOn h.balanced (h.unclosed hbefore hrunning) readEnd writeEnd).perm howned
  unclosed := fun _ _ => h.unclosed hbefore hrunning
  childless := fun _ => h.childless hbefore

theorem inv_forked (h : Inv t old s) (cmd : CCommand) {inPipe outPipe : Nat × Nat}
    (hcontrol : s.control = .forking inPipe outPipe) :
    Inv t old { s with
      control := .inParent inPipe outPipe cmd.start
      fds := s.fds.closeAll [inPipe.1, outPipe.2]
      forked := true } := by
  have hbalanced := h.balanced
  rw [hcontrol] at hbalanced
  have hstart : (CRunControl.inParent inPipe outPipe cmd.start).owned =
      [inPipe.2, outPipe.1] := by
    rw [CCommand.owned_inParent]
    rcases List.mem_pair.mp (cmd.phase_writeLoop 0) with hphase | hphase
    · rw [CCommand.start, hphase]
    · rw [CCommand.start, hphase]
  refine ⟨?_, by simp [CRunControl.beforeFork], by simp [CRunControl.beforeFork]⟩
  rw [hstart]
  -- the child's ends come first
  refine (hbalanced.perm ?_).closeAll
  have hback := @List.perm_append_comm _ [inPipe.2, outPipe.1] [outPipe.2]
  exact hback.cons inPipe.1

theorem inv_step {args : CArguments} {e : CallEvent} {s' : CRunState α} (h : Inv t old s)
    (hstep : args.CallSteps s e s') : Inv t old s' := by
  cases CArguments.callSteps_cases hstep with
  | createdIn hcontrol =>
      apply inv_created h _ _ (by rw [hcontrol]; rfl) (by rw [hcontrol]; rfl)
      rw [hcontrol]
      exact List.Perm.refl _
  | @createdOut inPipe hcontrol =>
      apply inv_created h _ _ (by rw [hcontrol]; rfl) (by rw [hcontrol]; rfl)
      rw [hcontrol]
      exact @List.perm_append_comm _ [_, _] [inPipe.1, inPipe.2]
  | failed e hbefore _ => exact inv_fail e h hbefore
  | forked hcontrol => exact inv_forked h args.cmd hcontrol
  | @called inPipe outPipe p p' c r hcontrol hmove =>
      have hbalanced := h.balanced
      rw [hcontrol, CCommand.owned_advance inPipe outPipe hmove] at hbalanced
      exact ⟨hbalanced.closeAll, by simp [CRunControl.beforeFork],
        by simp [CRunControl.beforeFork]⟩

theorem inv_run {args : CArguments} {es : List CallEvent} {s' : CRunState α}
    (hrun : Runs args.CallSteps (initial args t old) es s') : Inv t old s' :=
  hrun.invariant (inv_initial args t old) fun h hstep => inv_step h hstep

theorem Inv.settled (h : Inv t old s) (hended : s.control.ended = true) :
    Ledger.Settled (t.map .caller) s.fds := by
  have hnone : s.control.owned = [] := by
    cases hcontrol : s.control with
    | failed e => rfl
    | inParent inPipe outPipe p =>
        rw [hcontrol] at hended
        cases p with
        | returned r reaped => rfl
        | _ => cases hended
    | _ =>
        rw [hcontrol] at hended
        cases hended
  have hbalanced := h.balanced
  rw [hnone] at hbalanced
  exact hbalanced.settled

end CRunState

/-! ## Both runners -/

/-- Whatever the calls return, a runner that is over has closed what it opened, each
descriptor once, and nothing else; and a C call that returned -1 has neither forked nor
touched `*result`. -/
theorem descriptors_balanced {α : Type} (t : FdTable α) :
    (∀ (sp : Subprocess) (es : List CallEvent) (s : RunState α),
      Runs sp.CallSteps (.initial t) es s → s.control.ended = true →
        Ledger.Settled (t.map .caller) s.fds) ∧
    (∀ (args : CArguments) (old : CRunResult) (es : List CallEvent) (s : CRunState α),
      Runs args.CallSteps (.initial args t old) es s → s.control.ended = true →
        Ledger.Settled (t.map .caller) s.fds ∧
          ∀ e, s.control = .failed e → s.forked = false ∧ s.result = old) := by
  refine ⟨?_, ?_⟩
  · intro sp es s hrun hended
    exact (RunState.inv_run hrun).settled hended
  · intro args old es s hrun hended
    have hinv := CRunState.inv_run hrun
    refine ⟨hinv.settled hended, fun e hfailed => hinv.childless ?_⟩
    rw [hfailed]
    rfl

/-- A split run whose third pipe fails, and a C call whose fork fails. -/
theorem descriptors_balanced_failing :
    (∃ s : RunState Unit,
      Runs ((Subprocess.ofProgram [116]).setSplitOutput true).CallSteps
        (.initial (.ofList [(), (), ()])) [.pipe none, .pipe none, .pipe (some (.other 24))] s ∧
      Ledger.Settled ((FdTable.ofList [(), (), ()]).map .caller) s.fds ∧
      s.fds.closed = [6, 5, 4, 3]) ∧
    ∃ s : CRunState Unit,
      Runs (CArguments.mk true true ⟨none, 0⟩).CallSteps
        (.initial ⟨true, true, ⟨none, 0⟩⟩ (.ofList [(), (), ()]) ⟨7, false, none⟩)
        [.pipe none, .pipe none, .fork (some (.other 11))] s ∧
      Ledger.Settled ((FdTable.ofList [(), (), ()]).map .caller) s.fds ∧
      s.forked = false ∧ s.result = ⟨7, false, none⟩ := by
  have hbalanced := descriptors_balanced (FdTable.ofList [(), (), ()])
  have hsplit : Runs ((Subprocess.ofProgram [116]).setSplitOutput true).CallSteps
      (RunState.initial (.ofList [(), (), ()]))
      [.pipe none, .pipe none, .pipe (some (.other 24))] _ := Runs.of_foldlM _ rfl
  have hc : Runs (CArguments.mk true true ⟨none, 0⟩).CallSteps
      (CRunState.initial ⟨true, true, ⟨none, 0⟩⟩ (.ofList [(), (), ()]) ⟨7, false, none⟩)
      [.pipe none, .pipe none, .fork (some (.other 11))] _ := Runs.of_foldlM _ rfl
  refine ⟨⟨_, hsplit, hbalanced.1 _ _ _ hsplit rfl, by decide⟩, ?_⟩
  obtain ⟨hsettled, hfailed⟩ := hbalanced.2 _ _ _ _ hc rfl
  exact ⟨_, hc, hsettled, hfailed _ rfl⟩

end Ftl.Process
