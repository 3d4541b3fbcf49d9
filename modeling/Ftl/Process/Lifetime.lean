/-
  Process/Lifetime.lean --- a whole call of `Subprocess::run`, with its descriptors
  and its child.

  Embedded source: `run()` and `collect` of ftl/process/subprocess.hpp as owners of
  `UniqueFd` objects.  `Parent` begins at the fork; here the calls before it are
  added, and what every step does to the descriptors of the caller.

      RunState.inv_run         every opened descriptor is closed once or owned
      no_child_abandoned_iff   an exception leaves a child behind exactly when a poll
                               has failed
-/
import Ftl.Core.Fd
import Ftl.Foundation.Runs
import Ftl.Process.ChildExec

set_option autoImplicit false

namespace Ftl.Process

open Ftl.Core (UniqueFd)
open Ftl.Core.UniqueFd (ofFd owners destroyAll)
open Foundation (FdTable Ledger Runs)
open Foundation.Ledger (Balanced)

/-! ## Events -/

/-- A call of the parent and its outcome. -/
inductive CallEvent where
  /-- `pipe()`, which may fail -/
  | pipe (failure : Option Errno)
  /-- `fork()`, which may fail -/
  | fork (failure : Option Errno)
  /-- a call after the fork -/
  | call (c : Call) (r : Reply)

/-- A poll that fails for a reason other than a signal. -/
def CallEvent.pollFails : CallEvent → Prop
  | .call (.poll _ _) (.failed e) => e ≠ .eintr
  | _ => False

section Pipes

variable {β : Type}

/-- `pipe()` on a ledger. -/
def pipeOn (d : Ledger β) (readEnd writeEnd : β) : (Nat × Nat) × Ledger β :=
  ((d.table.lowestFree, (d.opens readEnd).table.lowestFree),
    (d.opens readEnd).opens writeEnd)

/-- On the table of the ledger it is `createPipe`, so the calls of a run get the numbers that the
child's layout is about. -/
theorem pipeOn_eq_createPipe (d : Ledger β) (readEnd writeEnd : β) :
    (pipeOn d readEnd writeEnd).1 = (createPipe d.table readEnd writeEnd).1 ∧
      (pipeOn d readEnd writeEnd).2.table = (createPipe d.table readEnd writeEnd).2 :=
  ⟨rfl, rfl⟩

theorem balanced_pipeOn {t : FdTable β} {d : Ledger β} {held : List Nat}
    (h : Balanced t d held) (hclosed : d.closed = []) (readEnd writeEnd : β) :
    Balanced t (pipeOn d readEnd writeEnd).2
      ((pipeOn d readEnd writeEnd).1.1 :: (pipeOn d readEnd writeEnd).1.2 :: held) := by
  refine ((h.opens hclosed readEnd).opens hclosed writeEnd).perm ?_
  rw [List.append_assoc]
  exact List.perm_append_comm

end Pipes

/-! ## `Subprocess::run` -/

/-- The `UniqueFd` objects of `run()` and of `collect`. -/
structure RunLocals where
  inRead : UniqueFd := .empty
  inWrite : UniqueFd := .empty
  outRead : UniqueFd := .empty
  outWrite : UniqueFd := .empty
  errRead : UniqueFd := .empty
  errWrite : UniqueFd := .empty
  /-- of `collect` -/
  ownedOut : UniqueFd := .empty
  /-- of `collect` -/
  ownedErr : UniqueFd := .empty

namespace RunLocals

/-- The objects in the order of their destructors: those of `collect`, then those of
`run()`, the last one first. -/
def all (l : RunLocals) : List UniqueFd :=
  [l.ownedErr, l.ownedOut, l.errWrite, l.errRead, l.outWrite, l.outRead, l.inWrite, l.inRead]

end RunLocals

/-- Where `run()` is. -/
inductive RunControl where
  | pipingIn
  | pipingOut
  | pipingErr
  | forking
  /-- in the parent after the fork -/
  | inParent (p : Parent)
  /-- left by the exception of a failed `pipe()` or `fork()` -/
  | threwBefore (e : Errno)

/-- The child has not been forked. -/
def RunControl.beforeFork : RunControl → Bool
  | .pipingIn | .pipingOut | .pipingErr | .forking => true
  | _ => false

/-- A state of `run()`: its objects, the descriptors of the caller, and whether it has
forked and reaped a child. -/
structure RunState (α : Type) where
  control : RunControl
  locals : RunLocals
  fds : Ledger (Object α)
  forked : Bool
  reaped : Bool

namespace RunState

variable {α : Type}

/-- A call of `run()` by a caller with the table `t`. -/
def initial (t : FdTable α) : RunState α where
  control := .pipingIn
  locals := {}
  fds := .begin (t.map .caller)
  forked := false
  reaped := false

/-- The destructors of all objects. -/
def unwind (s : RunState α) : RunState α :=
  { s with fds := destroyAll s.locals.all s.fds, locals := {} }

/-- `in_pipe = Pipe::create()`. -/
def createIn (s : RunState α) : RunState α :=
  let created := pipeOn s.fds (.own .inRead) (.own .inWrite)
  { s with
    control := .pipingOut
    locals := { s.locals with inRead := ofFd created.1.1, inWrite := ofFd created.1.2 }
    fds := created.2 }

/-- `out_pipe = Pipe::create()`. -/
def createOut (s : RunState α) (split : Bool) : RunState α :=
  let created := pipeOn s.fds (.own .outRead) (.own .outWrite)
  { s with
    control := if split then .pipingErr else .forking
    locals := { s.locals with outRead := ofFd created.1.1, outWrite := ofFd created.1.2 }
    fds := created.2 }

/-- `err_pipe = Pipe::create()`, moved into `err_read` and `err_write`. -/
def createErr (s : RunState α) : RunState α :=
  let created := pipeOn s.fds (.own .errRead) (.own .errWrite)
  let moved := s.locals.errRead.moveAssign (ofFd created.1.1) created.2
  let moved' := s.locals.errWrite.moveAssign (ofFd created.1.2) moved.2
  { s with
    control := .forking
    locals := { s.locals with errRead := moved.1.1, errWrite := moved'.1.1 }
    fds := moved'.2 }

/-- The three `reset()` calls of the parent right after the fork. -/
def closeChildEnds (s : RunState α) : RunState α :=
  let inRead := s.locals.inRead.reset s.fds
  let outWrite := s.locals.outWrite.reset inRead.2
  let errWrite := s.locals.errWrite.reset outWrite.2
  { s with
    locals := { s.locals with
      inRead := inRead.1, outWrite := outWrite.1, errWrite := errWrite.1 }
    fds := errWrite.2 }

/-- `in_pipe.write_fd.reset()`. -/
def closeStdin (s : RunState α) : RunState α :=
  let inWrite := s.locals.inWrite.reset s.fds
  { s with locals := { s.locals with inWrite := inWrite.1 }, fds := inWrite.2 }

/-- The read ends are released into the arguments of `collect` and owned there. -/
def enterCollect (s : RunState α) : RunState α :=
  let outRead := s.locals.outRead.release
  let errRead := s.locals.errRead.release
  { s with
    locals := { s.locals with
      outRead := outRead.2, errRead := errRead.2
      ownedOut := ⟨outRead.1⟩, ownedErr := ⟨errRead.1⟩ } }

/-- What the step from `p` does to the descriptors. -/
def leave (s : RunState α) : Parent → RunState α
  | .closing => s.closeStdin
  | .arming => s.enterCollect
  | _ => s

/-- What it means to get to `p`: at the end of the call the destructors run. -/
def arrive (s : RunState α) (p : Parent) : RunState α :=
  match p with
  | .returned _ reaped =>
      { s.unwind with control := .inParent p, reaped := s.reaped || reaped }
  | .threw _ => { s.unwind with control := .inParent p }
  | _ => { s with control := .inParent p }

end RunState

/-- One call of `run()`. -/
def Subprocess.callStep {α : Type} (sp : Subprocess) (s : RunState α) :
    CallEvent → Option (RunState α)
  | .pipe none =>
      match s.control with
      | .pipingIn => some s.createIn
      | .pipingOut => some (s.createOut sp.splitOutput)
      | .pipingErr => some s.createErr
      | _ => none
  | .pipe (some e) =>
      match s.control with
      | .pipingIn | .pipingOut | .pipingErr => some { s.unwind with control := .threwBefore e }
      | _ => none
  | .fork none =>
      match s.control with
      | .forking =>
          some { s.closeChildEnds with control := .inParent sp.start, forked := true }
      | _ => none
  | .fork (some e) =>
      match s.control with
      | .forking => some { s.unwind with control := .threwBefore e }
      | _ => none
  | .call c r =>
      match s.control with
      | .inParent p =>
          if sp.pending p = some c then (sp.advance p r).map (s.leave p).arrive else none
      | _ => none

/-- `Subprocess.callStep` as a relation. -/
def Subprocess.CallSteps {α : Type} (sp : Subprocess) (s : RunState α) (e : CallEvent)
    (s' : RunState α) : Prop := sp.callStep s e = some s'

/-- What a step of `run()` can be. -/
inductive Subprocess.CallCase {α : Type} (sp : Subprocess) (s : RunState α) :
    CallEvent → RunState α → Prop
  | createdIn : s.control = .pipingIn → CallCase sp s (.pipe none) s.createIn
  | createdOut : s.control = .pipingOut →
      CallCase sp s (.pipe none) (s.createOut sp.splitOutput)
  | createdErr : s.control = .pipingErr → CallCase sp s (.pipe none) s.createErr
  | pipeFailed (e : Errno) : s.control.beforeFork = true →
      CallCase sp s (.pipe (some e)) { s.unwind with control := .threwBefore e }
  | forked : s.control = .forking →
      CallCase sp s (.fork none)
        { s.closeChildEnds with control := .inParent sp.start, forked := true }
  | forkFailed (e : Errno) : s.control.beforeFork = true →
      CallCase sp s (.fork (some e)) { s.unwind with control := .threwBefore e }
  | called {p p' : Parent} {c : Call} {r : Reply} : s.control = .inParent p →
      sp.pending p = some c → sp.advance p r = some p' →
      CallCase sp s (.call c r) ((s.leave p).arrive p')

theorem Subprocess.callSteps_cases {α : Type} {sp : Subprocess} {s s' : RunState α}
    {e : CallEvent} (h : sp.CallSteps s e s') : sp.CallCase s e s' := by
  unfold CallSteps at h
  cases e with
  | pipe failure =>
      cases failure with
      | none =>
          simp only [callStep] at h
          split at h
          · rename_i hcontrol
            cases h
            exact .createdIn hcontrol
          · rename_i hcontrol
            cases h
            exact .createdOut hcontrol
          · rename_i hcontrol
            cases h
            exact .createdErr hcontrol
          · cases h
      | some e =>
          have hbefore : s.control.beforeFork = true ∧
              s' = { s.unwind with control := .threwBefore e } := by
            simp only [callStep] at h
            split at h
            · rename_i hcontrol
              cases h
              exact ⟨by rw [hcontrol]; rfl, rfl⟩
            · rename_i hcontrol
              cases h
              exact ⟨by rw [hcontrol]; rfl, rfl⟩
            · rename_i hcontrol
              cases h
              exact ⟨by rw [hcontrol]; rfl, rfl⟩
            · cases h
          obtain ⟨hbefore, rfl⟩ := hbefore
          exact .pipeFailed e hbefore
  | fork failure =>
      cases failure with
      | none =>
          simp only [callStep] at h
          split at h
          · rename_i hcontrol
            cases h
            exact .forked hcontrol
          · cases h
      | some e =>
          simp only [callStep] at h
          split at h
          · rename_i hcontrol
            cases h
            exact .forkFailed e (by rw [hcontrol]; rfl)
          · cases h
  | call c r =>
      simp only [callStep] at h
      split at h
      · rename_i p hcontrol
        split at h
        · rename_i hpending
          obtain ⟨p', hadvance, rfl⟩ := Option.map_eq_some_iff.mp h
          exact .called hcontrol hpending hadvance
        · cases h
      · cases h

/-- The call is over. -/
def RunControl.ended : RunControl → Bool
  | .threwBefore _ | .inParent (.returned _ _) | .inParent (.threw _) => true
  | _ => false

/-- The call was left by an exception. -/
def RunControl.threw : RunControl → Bool
  | .threwBefore _ | .inParent (.threw _) => true
  | _ => false

/-! ## What `run()` owns -/

/-- Which objects can own something where: the ones that a field list leaves out own
nothing. -/
def RunControl.Shape (l : RunLocals) : RunControl → Prop
  | .pipingIn | .threwBefore _ => l = {}
  | .pipingOut => l = { inRead := l.inRead, inWrite := l.inWrite }
  | .pipingErr =>
      l = { inRead := l.inRead, inWrite := l.inWrite
            outRead := l.outRead, outWrite := l.outWrite }
  | .forking | .inParent (.feeding _) | .inParent .closing | .inParent .arming =>
      l.ownedOut = .empty ∧ l.ownedErr = .empty
  | .inParent (.returned _ _) | .inParent (.threw _) => l = {}
  | .inParent _ => True

namespace RunState

variable {α : Type}

/-- What holds of the descriptors in every state of a call that began on the table `t`: its locals
own, once each, what is open beside `t`, so the destructors can leave nothing behind. -/
structure Inv (t : FdTable α) (s : RunState α) : Prop where
  balanced : Balanced (t.map .caller) s.fds (owners s.locals.all)
  shape : s.control.Shape s.locals
  unclosed : s.control.beforeFork = true → s.fds.closed = []

variable {t : FdTable α} {s : RunState α}

theorem inv_initial (t : FdTable α) : Inv t (initial t) where
  balanced := Ledger.balanced_begin _
  shape := rfl
  unclosed := fun _ => rfl

theorem balanced_unwind (h : Inv t s) : Balanced (t.map .caller) s.unwind.fds [] := by
  have hall := h.balanced
  rw [← List.append_nil (owners s.locals.all)] at hall
  exact Core.UniqueFd.balanced_destroyAll hall

theorem inv_createIn (h : Inv t s) (hcontrol : s.control = .pipingIn) : Inv t s.createIn := by
  obtain ⟨control, l, fds, forked, reaped⟩ := s
  cases hcontrol
  have hclosed : fds.closed = [] := h.unclosed rfl
  have hempty : l = {} := h.shape
  subst hempty
  refine ⟨?_, rfl, fun _ => hclosed⟩
  exact (balanced_pipeOn h.balanced hclosed (.own .inRead) (.own .inWrite)).perm
    (List.Perm.swap _ _ _)

theorem inv_createOut (split : Bool) (h : Inv t s) (hcontrol : s.control = .pipingOut) :
    Inv t (s.createOut split) := by
  obtain ⟨control, l, fds, forked, reaped⟩ := s
  cases hcontrol
  have hclosed : fds.closed = [] := h.unclosed rfl
  have hshape : l = { inRead := l.inRead, inWrite := l.inWrite } := h.shape
  rw [hshape] at h ⊢
  refine ⟨?_, ?_, fun _ => hclosed⟩
  · exact (balanced_pipeOn h.balanced hclosed (.own .outRead) (.own .outWrite)).perm
      (List.Perm.swap _ _ _)
  · cases split with
    | false => exact ⟨rfl, rfl⟩
    | true => rfl

theorem inv_createErr (h : Inv t s) (hcontrol : s.control = .pipingErr) :
    Inv t s.createErr := by
  obtain ⟨control, l, fds, forked, reaped⟩ := s
  cases hcontrol
  have hclosed : fds.closed = [] := h.unclosed rfl
  have hshape : l = { inRead := l.inRead, inWrite := l.inWrite
                      outRead := l.outRead, outWrite := l.outWrite } := h.shape
  rw [hshape] at h ⊢
  refine ⟨?_, ⟨rfl, rfl⟩, fun _ => hclosed⟩
  exact (balanced_pipeOn h.balanced hclosed (.own .errRead) (.own .errWrite)).perm
    (List.Perm.swap _ _ _)

/-- Whatever is owned at the next call, or nothing at the end. -/
theorem inv_arrive {p : Parent} (hbalanced : Balanced (t.map .caller) s.fds (owners s.locals.all))
    (hshape : (RunControl.inParent p).ended = false → (RunControl.inParent p).Shape s.locals) :
    Inv t (s.arrive p) := by
  have hunwind : Balanced (t.map .caller) s.unwind.fds [] := by
    rw [← List.append_nil (owners s.locals.all)] at hbalanced
    exact Core.UniqueFd.balanced_destroyAll hbalanced
  cases p with
  | returned r reaped => exact ⟨hunwind, rfl, by simp [arrive, RunControl.beforeFork]⟩
  | threw e => exact ⟨hunwind, rfl, by simp [arrive, RunControl.beforeFork]⟩
  | _ => exact ⟨hbalanced, hshape rfl, by simp [arrive, RunControl.beforeFork]⟩

theorem balanced_closeChildEnds (h : Inv t s) :
    Balanced (t.map .caller) s.closeChildEnds.fds (owners s.closeChildEnds.locals.all) := by
  obtain ⟨control, l, fds, forked, reaped⟩ := s
  have hin := Core.UniqueFd.balanced_reset
    [l.ownedErr, l.ownedOut, l.errWrite, l.errRead, l.outWrite, l.outRead, l.inWrite]
    l.inRead [] h.balanced
  have hout := Core.UniqueFd.balanced_reset
    [l.ownedErr, l.ownedOut, l.errWrite, l.errRead]
    l.outWrite [l.outRead, l.inWrite, .empty] hin
  exact Core.UniqueFd.balanced_reset
    [l.ownedErr, l.ownedOut]
    l.errWrite [l.errRead, .empty, l.outRead, l.inWrite, .empty] hout

theorem balanced_closeStdin (h : Inv t s) :
    Balanced (t.map .caller) s.closeStdin.fds (owners s.closeStdin.locals.all) := by
  obtain ⟨control, l, fds, forked, reaped⟩ := s
  exact Core.UniqueFd.balanced_reset
    [l.ownedErr, l.ownedOut, l.errWrite, l.errRead, l.outWrite, l.outRead]
    l.inWrite [l.inRead] h.balanced

theorem balanced_enterCollect (h : Inv t s)
    (hshape : s.locals.ownedOut = .empty ∧ s.locals.ownedErr = .empty) :
    Balanced (t.map .caller) s.enterCollect.fds (owners s.enterCollect.locals.all) := by
  obtain ⟨control, l, fds, forked, reaped⟩ := s
  have hbalanced := h.balanced
  rw [RunLocals.all, hshape.1, hshape.2] at hbalanced
  refine hbalanced.perm (List.Perm.filterMap _ ?_)
  have hout : (⟨l.outRead.fd⟩ : UniqueFd) = l.outRead := rfl
  have herr : (⟨l.errRead.fd⟩ : UniqueFd) = l.errRead := rfl
  rw [List.perm_iff_count]
  intro u
  simp only [RunLocals.all, hout, herr, enterCollect, Core.UniqueFd.release, List.count_cons]
  omega

end RunState

namespace Subprocess

/-- A poll that fails throws, and nothing else does. -/
theorem threw_iff_pollFails {sp : Subprocess} {p p' : Parent} {c : Call} {r : Reply}
    (hmove : sp.Moves p c r p') :
    (∃ e, p' = .threw e) ↔ (CallEvent.call c r).pollFails := by
  have hquiet : (∀ fds ms e, c = .poll fds ms → r = .failed e → e = .eintr) →
      ¬ (CallEvent.call c r).pollFails := by
    intro hpoll hfails
    cases c with
    | poll fds ms =>
        cases r with
        | failed e => exact hfails (hpoll fds ms e rfl rfl)
        | _ => exact hfails
    | _ => exact hfails
  cases course_of_moves hmove with
  | goesOn hover _ hpoll =>
      refine ⟨?_, fun hfails => (hquiet hpoll hfails).elim⟩
      rintro ⟨e, rfl⟩
      cases hover
  | throws fds ms e hc hr hne hp =>
      subst hc hr
      exact ⟨fun _ => hne, fun _ => ⟨e, hp⟩⟩
  | returns col st _ hc _ hp => simp [hc, hp, CallEvent.pollFails]
  | waitFails col e _ hc _ hp => simp [hc, hp, CallEvent.pollFails]

end Subprocess

theorem RunControl.Shape.of_ended {control : RunControl} {l : RunLocals}
    (h : control.Shape l) (hended : control.ended = true) : l = {} := by
  cases control with
  | threwBefore e => exact h
  | inParent p =>
      cases p with
      | returned r reaped => exact h
      | threw e => exact h
      | _ => cases hended
  | _ => cases hended

namespace RunState

variable {α : Type} {t : FdTable α} {s : RunState α}

theorem inv_arrive_looping {p : Parent} (hp : p.looping = true)
    (hbalanced : Balanced (t.map .caller) s.fds (owners s.locals.all)) :
    Inv t (s.arrive p) := by
  refine inv_arrive hbalanced fun _ => ?_
  cases p with
  | checking _ | polling _ _ | draining _ _ _ | killing _ | waiting _ => trivial
  | _ => cases hp

theorem inv_called {sp : Subprocess} {p p' : Parent} {c : Call} {r : Reply} (h : Inv t s)
    (hcontrol : s.control = .inParent p) (hmove : sp.Moves p c r p') :
    Inv t ((s.leave p).arrive p') := by
  have hshape := h.shape
  rw [hcontrol] at hshape
  have hloop : p.looping = true → Inv t (s.arrive p') := by
    intro hp
    cases Subprocess.course_of_moves hmove with
    | goesOn _ hlooping _ => exact inv_arrive_looping (hlooping hp) h.balanced
    | throws _ _ _ _ _ _ hp' =>
        subst hp'
        exact inv_arrive h.balanced fun hrunning => by cases hrunning
    | returns _ _ _ _ _ hp' | waitFails _ _ _ _ _ hp' =>
        subst hp'
        exact inv_arrive h.balanced fun hrunning => by cases hrunning
  cases Subprocess.branch_of_moves hmove with
  | wrote written n =>
      rcases sp.writeAll_cases (written + n) with hnext | hnext
      · rw [hnext]
        exact inv_arrive h.balanced fun _ => hshape
      · rw [hnext]
        exact inv_arrive h.balanced fun _ => hshape
  | writeInterrupted written => exact inv_arrive h.balanced fun _ => hshape
  | writeFailed written e _ => exact inv_arrive h.balanced fun _ => hshape
  | closed => exact inv_arrive (balanced_closeStdin h) fun _ => hshape
  | armed now =>
      exact inv_arrive_looping (Subprocess.looping_whileOpen _) (balanced_enterCollect h hshape)
  | _ => exact hloop rfl

theorem inv_step {sp : Subprocess} {e : CallEvent} {s' : RunState α} (h : Inv t s)
    (hstep : sp.CallSteps s e s') : Inv t s' := by
  have hunwind : ∀ e, Inv t { s.unwind with control := .threwBefore e } := fun e =>
    ⟨balanced_unwind h, rfl, by simp [RunControl.beforeFork]⟩
  cases Subprocess.callSteps_cases hstep with
  | createdIn hcontrol => exact inv_createIn h hcontrol
  | createdOut hcontrol => exact inv_createOut _ h hcontrol
  | createdErr hcontrol => exact inv_createErr h hcontrol
  | pipeFailed e _ => exact hunwind e
  | forkFailed e _ => exact hunwind e
  | called hcontrol hpending hadvance => exact inv_called h hcontrol ⟨hpending, hadvance⟩
  | forked hcontrol =>
      have hshape := h.shape
      rw [hcontrol] at hshape
      refine ⟨balanced_closeChildEnds h, ?_, by simp [RunControl.beforeFork]⟩
      unfold Subprocess.start
      rcases sp.writeAll_cases 0 with hstart | hstart
      · rw [hstart]
        exact hshape
      · rw [hstart]
        exact hshape

theorem inv_run {sp : Subprocess} {es : List CallEvent} {s' : RunState α}
    (hrun : Runs sp.CallSteps (initial t) es s') : Inv t s' :=
  hrun.invariant (inv_initial t) fun h hstep => inv_step h hstep

theorem Inv.settled (h : Inv t s) (hended : s.control.ended = true) :
    Ledger.Settled (t.map .caller) s.fds := by
  have hbalanced := h.balanced
  rw [h.shape.of_ended hended] at hbalanced
  exact Balanced.settled hbalanced

/-! ## The child of `run()` -/

/-- What holds of the child: it is there once the fork has succeeded, and it has been
reaped only if the call returned. -/
structure ChildInv (s : RunState α) : Prop where
  forked : s.forked = true ↔ ∃ p, s.control = .inParent p
  reaped : s.reaped = true → ∃ r reaped, s.control = .inParent (.returned r reaped)

theorem control_arrive (s : RunState α) (p : Parent) : (s.arrive p).control = .inParent p := by
  cases p with
  | _ => rfl

theorem forked_arrive (s : RunState α) (p : Parent) : (s.arrive p).forked = s.forked := by
  cases p with
  | _ => rfl

theorem childInv_initial (t : FdTable α) : ChildInv (initial t) where
  forked := by simp [initial]
  reaped := by simp [initial]

theorem ChildInv.childless (h : ChildInv s) (hnone : ∀ p, s.control ≠ .inParent p) :
    s.forked = false ∧ s.reaped = false := by
  refine ⟨?_, ?_⟩
  · refine Bool.eq_false_iff.mpr fun hforked => ?_
    obtain ⟨p, hp⟩ := h.forked.mp hforked
    exact hnone p hp
  · refine Bool.eq_false_iff.mpr fun hreaped => ?_
    obtain ⟨r, reaped, hr⟩ := h.reaped hreaped
    exact hnone _ hr

/-- While there is none, it stays so until the fork succeeds. -/
theorem childInv_of_childless {s' : RunState α} (h : ChildInv s)
    (hnone : ∀ p, s.control ≠ .inParent p) (hnone' : ∀ p, s'.control ≠ .inParent p)
    (hforked : s'.forked = s.forked) (hreaped : s'.reaped = s.reaped) : ChildInv s' := by
  obtain ⟨hf, hr⟩ := h.childless hnone
  refine ⟨?_, ?_⟩
  · rw [hforked, hf]
    refine ⟨fun hfalse => ?_, fun ⟨p, hp⟩ => (hnone' p hp).elim⟩
    cases hfalse
  · rw [hreaped, hr]
    intro hfalse
    cases hfalse

theorem not_inParent_of_beforeFork {control : RunControl} (h : control.beforeFork = true)
    (p : Parent) : control ≠ .inParent p := by
  rintro rfl
  cases h

theorem childInv_step {sp : Subprocess} {e : CallEvent} {s' : RunState α} (h : ChildInv s)
    (hstep : sp.CallSteps s e s') : ChildInv s' := by
  cases Subprocess.callSteps_cases hstep with
  | createdIn hcontrol =>
      exact childInv_of_childless h (by simp [hcontrol]) (by simp [createIn]) rfl rfl
  | createdOut hcontrol =>
      refine childInv_of_childless h (by simp [hcontrol]) (fun p => ?_) rfl rfl
      unfold createOut
      cases sp.splitOutput with
      | false => simp
      | true => simp
  | createdErr hcontrol =>
      exact childInv_of_childless h (by simp [hcontrol]) (by simp [createErr]) rfl rfl
  | pipeFailed e hbefore =>
      exact childInv_of_childless h (not_inParent_of_beforeFork hbefore) (by simp) rfl rfl
  | forkFailed e hbefore =>
      exact childInv_of_childless h (not_inParent_of_beforeFork hbefore) (by simp) rfl rfl
  | forked hcontrol =>
      obtain ⟨-, hr⟩ := h.childless (by simp [hcontrol])
      exact ⟨by simp, fun hreaped => by simp [closeChildEnds, hr] at hreaped⟩
  | @called p p' c r hcontrol hpending hadvance =>
      have hforked : s.forked = true := h.forked.mpr ⟨p, hcontrol⟩
      have hr : s.reaped = false := by
        refine Bool.eq_false_iff.mpr fun hreaped => ?_
        obtain ⟨result, reaped, hreturned⟩ := h.reaped hreaped
        rw [hcontrol] at hreturned
        cases hreturned
        cases hpending
      have hleave : (s.leave p).forked = s.forked ∧ (s.leave p).reaped = s.reaped := by
        cases p with
        | _ => exact ⟨rfl, rfl⟩
      refine ⟨?_, ?_⟩
      · rw [forked_arrive, hleave.1, hforked, control_arrive]
        exact ⟨fun _ => ⟨p', rfl⟩, fun _ => rfl⟩
      · cases p' with
        | returned result reaped => exact fun _ => ⟨result, reaped, rfl⟩
        | _ =>
            intro hreaped
            rw [show (arrive _ _).reaped = (s.leave p).reaped from rfl, hleave.2, hr] at hreaped
            cases hreaped

/-- The exception of a failing poll is the only one that comes after the fork. -/
theorem threw_run {sp : Subprocess} {es : List CallEvent} {s' : RunState α}
    (hrun : Runs sp.CallSteps (initial t) es s') :
    (∃ e, s'.control = .inParent (.threw e)) ↔ ∃ e ∈ es, e.pollFails := by
  induction hrun with
  | refl => simp [initial]
  | @tail s s' es e _ hstep ih =>
      -- no call is made after the exception
      have hbefore : ¬ ∃ e ∈ es, e.pollFails := by
        rw [← ih]
        rintro ⟨e, hthrew⟩
        cases Subprocess.callSteps_cases hstep with
        | called hcontrol hpending _ =>
            rw [hthrew] at hcontrol
            cases hcontrol
            cases hpending
        | pipeFailed _ hbefore | forkFailed _ hbefore =>
            exact not_inParent_of_beforeFork hbefore _ hthrew
        | createdIn hcontrol | createdOut hcontrol | createdErr hcontrol | forked hcontrol =>
            rw [hthrew] at hcontrol
            cases hcontrol
      have hlast : (∃ e, s'.control = .inParent (.threw e)) ↔ e.pollFails := by
        cases Subprocess.callSteps_cases hstep with
        | @called p p' c r hcontrol hpending hadvance =>
            rw [control_arrive, ← Subprocess.threw_iff_pollFails ⟨hpending, hadvance⟩]
            simp
        | createdIn _ => simp [createIn, CallEvent.pollFails]
        | createdOut _ =>
            unfold createOut
            cases sp.splitOutput with
            | false => simp [CallEvent.pollFails]
            | true => simp [CallEvent.pollFails]
        | createdErr _ => simp [createErr, CallEvent.pollFails]
        | pipeFailed _ _ => simp [CallEvent.pollFails]
        | forkFailed _ _ => simp [CallEvent.pollFails]
        | forked _ =>
            rcases sp.writeAll_cases 0 with h | h
            · simp [Subprocess.start, h, CallEvent.pollFails]
            · simp [Subprocess.start, h, CallEvent.pollFails]
      rw [hlast]
      constructor
      · exact fun hfails => ⟨e, by simp, hfails⟩
      · rintro ⟨e', hmem, hfails⟩
        rcases List.mem_append.mp hmem with hmem | hmem
        · exact (hbefore ⟨e', hmem, hfails⟩).elim
        · rwa [← List.mem_singleton.mp hmem]

end RunState

/-- When `run()` leaves by an exception, the child that it forked has been reaped
exactly when no poll failed.  `pipe` and `fork` throw before there is a child; of the calls
after the fork only `poll` throws, and nobody catches that before `waitpid`. -/
theorem no_child_abandoned_iff {α : Type} (sp : Subprocess) (t : FdTable α)
    {es : List CallEvent} {s : RunState α} (hrun : Runs sp.CallSteps (.initial t) es s)
    (hthrew : s.control.threw = true) :
    (s.forked = true → s.reaped = true) ↔ ∀ e ∈ es, ¬ e.pollFails := by
  have hchild : s.ChildInv := hrun.invariant (RunState.childInv_initial t) fun h hstep =>
    RunState.childInv_step h hstep
  have hfails := RunState.threw_run hrun
  constructor
  · intro hreaped e hmem hfail
    obtain ⟨e', hcontrol⟩ := hfails.mpr ⟨e, hmem, hfail⟩
    obtain ⟨r, reaped, hreturned⟩ := hchild.reaped (hreaped (hchild.forked.mpr ⟨_, hcontrol⟩))
    rw [hcontrol] at hreturned
    cases hreturned
  · intro hnone hforked
    obtain ⟨p, hcontrol⟩ := hchild.forked.mp hforked
    rw [hcontrol] at hthrew
    cases p with
    | threw e =>
        obtain ⟨e', hmem, hfail⟩ := hfails.mp ⟨e, hcontrol⟩
        exact (hnone e' hmem hfail).elim
    | _ => cases hthrew

/-- Both pipes are there when fork fails with EAGAIN: there is no child to wait for. -/
theorem no_child_abandoned_forkFailed :
    ∃ s : RunState Unit,
      Runs (Subprocess.ofProgram [116]).CallSteps (.initial (.ofList [(), (), ()]))
        [.pipe none, .pipe none, .fork (some (.other 11))] s ∧
      s.control.threw = true ∧ (s.forked = true → s.reaped = true) := by
  have hrun : Runs (Subprocess.ofProgram [116]).CallSteps
      (RunState.initial (.ofList [(), (), ()]))
      [.pipe none, .pipe none, .fork (some (.other 11))] _ := Runs.of_foldlM _ rfl
  refine ⟨_, hrun, rfl, (no_child_abandoned_iff _ _ hrun rfl).mpr ?_⟩
  simp [CallEvent.pollFails]

/-- Here poll fails with ENOMEM: the exception leaves `collect` past its `waitpid`. -/
theorem child_abandoned_pollFailed :
    ∃ s : RunState Unit,
      Runs (Subprocess.ofProgram [116]).CallSteps (.initial (.ofList [(), (), ()]))
        [.pipe none, .pipe none, .fork none, .call .closeStdin .done, .call .clock (.time 0),
          .call .clock (.time 0), .call (.poll [.out] 5000) (.failed (.other 12))] s ∧
      s.control.threw = true ∧ s.forked = true ∧ s.reaped = false := by
  exact ⟨_, Runs.of_foldlM _ rfl, rfl, rfl, rfl⟩

end Ftl.Process
