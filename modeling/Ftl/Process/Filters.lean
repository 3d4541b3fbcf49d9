/-
  Process/Filters.lean --- what the runners return for a child that is a filter.

  A `Filter` is a program that reads its stdin byte by byte through a buffer, writes bytes to
  its outputs and exits.  What it computes from an input is a matter of the program alone.
  How the kernel and the scheduler cut up the data, how large the pipes are, what else the
  parent does meanwhile and which of the two runners it is makes no difference, as long as its
  calls fail by signals only (`faults` is false): a read that fails loses the rest of the output,
  and an allocation that fails all of it.

      yields_unique       a filter yields one status and one output
      computing_step      the child is where the filter gets to on the payload
      runs_compute        a run that does not time out returns what the filter yields
      collected_begins    and any run has collected a prefix of it
-/
import Ftl.Process.Echo
import Ftl.Process.TimedOut

set_option autoImplicit false

namespace Ftl.Process

open Function (update update_self update_of_ne)
open Foundation (Runs)
open Relation (ReflTransGen)

/-! ## Filters -/

/-- What a program does next: it reads a byte or finds the end of its input, writes a byte,
closes a descriptor, or ends with a wait status. -/
inductive Instr (Q : Type) where
  | read (next : Option UInt8 → Q)
  | write (fd : ChildFd) (b : UInt8) (next : Q)
  | close (fd : ChildFd) (next : Q)
  | exit (status : Int)

/-- A program of this kind. -/
structure Filter where
  State : Type
  start : State
  instr : State → Instr State

namespace Filter

/-- How far the program has come: where it is, what is left of its input, and what it has
written. -/
structure Stage (F : Filter) where
  state : F.State
  input : Bytes
  wrote : Stream → Bytes

variable {F : Filter}

/-- The next stage, if the program has not exited. -/
def Stage.next (split : Bool) (c : F.Stage) : Option F.Stage :=
  match F.instr c.state, c.input with
  | .read next, [] => some { c with state := next none }
  | .read next, b :: rest => some { c with state := next (some b), input := rest }
  | .write fd b q, _ =>
      (Setting.route ⟨0, split, false⟩ fd).map fun s =>
        { c with state := q, wrote := update c.wrote s (c.wrote s ++ [b]) }
  | .close _ q, _ => some { c with state := q }
  | .exit _, _ => none

/-- The program gets from the payload to the stage `c`. -/
def Reaches (F : Filter) (split : Bool) (payload : Bytes) (c : F.Stage) : Prop :=
  ReflTransGen (fun a b => a.next split = some b) ⟨F.start, payload, fun _ => []⟩ c

/-- The program ends with the wait status `st` on the payload, and has written `wrote`. -/
def Yields (F : Filter) (split : Bool) (payload : Bytes) (st : Int) (wrote : Stream → Bytes) :
    Prop :=
  ∃ c, F.Reaches split payload c ∧ F.instr c.state = .exit st ∧ c.wrote = wrote

theorem next_of_exit {split : Bool} {c : F.Stage} {st : Int} (h : F.instr c.state = .exit st) :
    c.next split = none := by
  unfold Stage.next
  rw [h]

section Next

variable {split : Bool} {q q' : F.State} {input : Bytes} {wrote : Stream → Bytes}

theorem next_take {next : Option UInt8 → F.State} {b : UInt8} (h : F.instr q = .read next) :
    Stage.next split (⟨q, b :: input, wrote⟩ : F.Stage) = some ⟨next (some b), input, wrote⟩ := by
  simp only [Stage.next, h]

theorem next_end {next : Option UInt8 → F.State} (h : F.instr q = .read next) :
    Stage.next split (⟨q, [], wrote⟩ : F.Stage) = some ⟨next none, [], wrote⟩ := by
  simp only [Stage.next, h]

theorem next_write {fd : ChildFd} {b : UInt8} {s : Stream} (h : F.instr q = .write fd b q')
    (hroute : Setting.route ⟨0, split, false⟩ fd = some s) :
    Stage.next split (⟨q, input, wrote⟩ : F.Stage) =
      some ⟨q', input, update wrote s (wrote s ++ [b])⟩ := by
  simp only [Stage.next, h, hroute, Option.map_some]

theorem next_close {fd : ChildFd} (h : F.instr q = .close fd q') :
    Stage.next split (⟨q, input, wrote⟩ : F.Stage) = some ⟨q', input, wrote⟩ := by
  simp only [Stage.next, h]

end Next

theorem next_unique {split : Bool} :
    Relator.RightUnique fun a b : F.Stage => a.next split = some b :=
  fun _ _ _ hb hb' => Option.some.inj (hb.symm.trans hb')

theorem eq_of_exit {split : Bool} {c c' : F.Stage} {st : Int} (hexit : F.instr c.state = .exit st)
    (hrun : ReflTransGen (fun a b : F.Stage => a.next split = some b) c c') : c' = c := by
  rcases hrun.cases_head with hsame | ⟨mid, hstep, -⟩
  · exact hsame.symm
  · rw [next_of_exit hexit] at hstep
    cases hstep

theorem yields_unique {split : Bool} {payload : Bytes} {st st' : Int}
    {wrote wrote' : Stream → Bytes} (h : F.Yields split payload st wrote)
    (h' : F.Yields split payload st' wrote') : st = st' ∧ wrote = wrote' := by
  obtain ⟨c, hc, hexit, rfl⟩ := h
  obtain ⟨c', hc', hexit', rfl⟩ := h'
  have hsame : c = c' := by
    rcases ReflTransGen.total_of_right_unique next_unique hc hc' with hahead | hahead
    · exact (eq_of_exit hexit hahead).symm
    · exact eq_of_exit hexit' hahead
  subst hsame
  rw [hexit] at hexit'
  cases hexit'
  exact ⟨rfl, rfl⟩

theorem wrote_of_next {split : Bool} {c c' : F.Stage} (h : c.next split = some c') (s : Stream) :
    c.wrote s <+: c'.wrote s := by
  unfold Stage.next at h
  split at h
  · cases h
    exact List.prefix_rfl
  · cases h
    exact List.prefix_rfl
  · obtain ⟨t, -, rfl⟩ := Option.map_eq_some_iff.mp h
    change c.wrote s <+: update c.wrote t _ s
    by_cases hst : s = t
    · subst hst
      rw [update_self]
      exact List.prefix_append ..
    · simp [update_of_ne hst]
  · cases h
    exact List.prefix_rfl
  · cases h

theorem wrote_of_run {split : Bool} {c c' : F.Stage} (s : Stream)
    (hrun : ReflTransGen (fun a b : F.Stage => a.next split = some b) c c') :
    c.wrote s <+: c'.wrote s := by
  induction hrun with
  | refl => exact List.prefix_rfl
  | tail _ hstep ih => exact ih.trans (wrote_of_next hstep s)

/-- On its way a filter has written a part of what it yields. -/
theorem wrote_of_reaches {split : Bool} {payload : Bytes} {st : Int} {c : F.Stage}
    {wrote : Stream → Bytes} (hc : F.Reaches split payload c)
    (h : F.Yields split payload st wrote) (s : Stream) : c.wrote s <+: wrote s := by
  obtain ⟨last, hlast, hexit, rfl⟩ := h
  rcases ReflTransGen.total_of_right_unique next_unique hc hlast with hahead | hahead
  · exact wrote_of_run s hahead
  · simp [eq_of_exit hexit hahead]

end Filter

/-! ## A filter as a child -/

/-- The process: running, with bytes that have been read and not been looked at, or gone. -/
inductive FilterState (Q : Type) where
  | running (q : Q) (carried : Bytes)
  | gone

/-- Its moves.  It fills its buffer with as much as one read returns. -/
inductive FilterMove (F : Filter) : FilterState F.State → Action → FilterState F.State → Prop
  | fill {q : F.State} {next : Option UInt8 → F.State} {bs : Bytes} :
      F.instr q = .read next → bs ≠ [] →
      FilterMove F (.running q []) (.read bs) (.running q bs)
  | take {q : F.State} {next : Option UInt8 → F.State} {b : UInt8} {rest : Bytes} :
      F.instr q = .read next →
      FilterMove F (.running q (b :: rest)) .idle (.running (next (some b)) rest)
  | atEnd {q : F.State} {next : Option UInt8 → F.State} :
      F.instr q = .read next →
      FilterMove F (.running q []) (.read []) (.running (next none) [])
  | write {q q' : F.State} {fd : ChildFd} {b : UInt8} {carried : Bytes} :
      F.instr q = .write fd b q' →
      FilterMove F (.running q carried) (.write fd [b]) (.running q' carried)
  | close {q q' : F.State} {fd : ChildFd} {carried : Bytes} :
      F.instr q = .close fd q' →
      FilterMove F (.running q carried) (.close fd) (.running q' carried)
  | exit {q : F.State} {st : Int} {carried : Bytes} :
      F.instr q = .exit st →
      FilterMove F (.running q carried) (.exit st fun _ => false) .gone

/-- The child that runs `F`. -/
abbrev Filter.child (F : Filter) : Behaviour where
  State := FilterState F.State
  start := .running F.start []
  act := FilterMove F

/-! ## Where the child is -/

section Computing

variable {F : Filter} {S : Setting} {payload : Bytes}

/-- The process has come to a stage of the program, with the same output; what it can still get
is in its buffer, in the stdin pipe, or unsent.  Unless it is killed, its status is that of the
program. -/
def AtStage (F : Filter) (S : Setting) (payload : Bytes) (v : Runner)
    (w : World (FilterState F.State)) : Prop :=
  match w.child with
  | .running q carried =>
      (w.killed = false → w.status = none) ∧
        ∃ rest, F.Reaches S.split payload ⟨q, carried ++ rest, w.wrote⟩ ∧
          (w.holds .stdin = true → rest = w.stdinPipe ++ v.unsent)
  | .gone =>
      ∃ st, (w.killed = false → w.status = some st) ∧ F.Yields S.split payload st w.wrote

/-- What a runner and a filter have to do with each other: the runner has lost nothing, and the
filter is at a stage that its program reaches on what it has been fed. -/
structure Computing (F : Filter) (S : Setting) (payload : Bytes)
    (x : Runner × World (FilterState F.State)) : Prop where
  feeder : x.1.feeding = x.2.feederOpen
  sent : x.1.feeding = false → x.1.unsent = []
  kept : x.1.lost = false
  stage : AtStage F S payload x.1 x.2

theorem computing_initial (F : Filter) (S : Setting) (payload : Bytes)
    (listening : Stream → Bool) (clock : Nat) :
    Computing F S payload (Runner.fresh payload listening, World.initial F.child.start clock) where
  feeder := rfl
  sent := by simp [Runner.fresh]
  kept := rfl
  stage := ⟨fun _ => rfl, payload, .refl, fun _ => rfl⟩

/-- The moves of the process are those of the program. -/
theorem computing_child {v : Runner} {w w' : World (FilterState F.State)} {a : Action}
    {q : FilterState F.State} (h : Computing F S payload (v, w)) (hmove : FilterMove F w.child a q)
    (hacts : Acts S w a w') : Computing F S payload (v, w'.become q) := by
  obtain ⟨stdinPipe, feederOpen, pipe, wrote, collecting, holds, child, status, killed, clock⟩ := w
  cases hmove with
  | @fill q next bs hinstr hne =>
      obtain ⟨hstatus, rest, hreaches, hrest⟩ := h.stage
      cases hacts with
      | @read _ left hholds _ hpipe =>
          refine { h with stage := ⟨hstatus, left ++ v.unsent, ?_, fun _ => rfl⟩ }
          have hinput : [] ++ rest = bs ++ (left ++ v.unsent) := by
            rw [List.nil_append, hrest hholds, ← List.append_assoc]
            exact congrArg (· ++ v.unsent) hpipe
          rw [hinput] at hreaches
          exact hreaches
      | readEnd => exact (hne rfl).elim
  | @take q next b left hinstr =>
      obtain ⟨hstatus, rest, hreaches, hrest⟩ := h.stage
      cases hacts
      exact { h with
        stage := ⟨hstatus, rest, hreaches.tail (Filter.next_take hinstr), hrest⟩ }
  | @atEnd q next hinstr =>
      obtain ⟨hstatus, rest, hreaches, hrest⟩ := h.stage
      cases hacts with
      | read _ hne => exact (hne rfl).elim
      | readEnd hholds hempty hclosed =>
          -- the payload has been sent, and all of it has been read
          have hnothing : rest = [] := by
            rw [hrest hholds, h.sent (h.feeder.trans hclosed), List.append_nil]
            exact hempty
          subst hnothing
          exact { h with
            stage := ⟨hstatus, [], hreaches.tail (Filter.next_end hinstr), hrest⟩ }
  | @write q q' fd b carried hinstr =>
      obtain ⟨hstatus, rest, hreaches, hrest⟩ := h.stage
      cases hacts with
      | @write _ s _ _ hroute =>
          exact { h with
            stage := ⟨hstatus, rest, hreaches.tail (Filter.next_write hinstr hroute), hrest⟩ }
  | @close q q' fd carried hinstr =>
      obtain ⟨hstatus, rest, hreaches, hrest⟩ := h.stage
      cases hacts
      refine { h with
        stage := ⟨hstatus, rest, hreaches.tail (Filter.next_close hinstr), fun hholds =>
          hrest ?_⟩ }
      by_cases hstdin : fd = .stdin
      · simp [World.become, World.release, hstdin] at hholds
      · simpa [World.become, World.release, Ne.symm hstdin] using hholds
  | @exit q st carried hinstr =>
      obtain ⟨hstatus, rest, hreaches, hrest⟩ := h.stage
      cases hacts
      exact { h with stage := ⟨st, fun _ => rfl, _, hreaches, hinstr, rfl⟩ }

/-- What happens elsewhere leaves the child where it is, as long as what is unsent still follows
what is in the stdin pipe. -/
theorem AtStage.of_same {v v' : Runner} {w w' : World (FilterState F.State)}
    (h : AtStage F S payload v w) (hchild : w'.child = w.child) (hwrote : w'.wrote = w.wrote)
    (hkilled : w'.killed = false → w.killed = false ∧ w'.status = w.status)
    (hholds : w'.holds .stdin = true →
      w.holds .stdin = true ∧ w'.stdinPipe ++ v'.unsent = w.stdinPipe ++ v.unsent) :
    AtStage F S payload v' w' := by
  unfold AtStage at h ⊢
  rw [hchild, hwrote]
  cases hat : w.child with
  | running q carried =>
      rw [hat] at h
      obtain ⟨hnone, rest, hreaches, hrest⟩ := h
      refine ⟨fun hnot => (hkilled hnot).2.trans (hnone (hkilled hnot).1), rest, hreaches, ?_⟩
      intro hin
      obtain ⟨hheld, hsame⟩ := hholds hin
      exact (hrest hheld).trans hsame.symm
  | gone =>
      rw [hat] at h
      obtain ⟨st, hst, hyields⟩ := h
      exact ⟨st, fun hnot => (hkilled hnot).2.trans (hst (hkilled hnot).1), hyields⟩

theorem computing_parent (hfaults : S.faults = false) {v v' : Runner}
    {w w' : World (FilterState F.State)} {c : Call} {r : Reply} (h : Computing F S payload (v, w))
    (hrunner : v.Step c r v') (hans : Answers S w c r w') : Computing F S payload (v', w') := by
  have hsame : ∀ {v' : Runner} {w' : World (FilterState F.State)}, v'.unsent = v.unsent →
      w'.child = w.child → w'.wrote = w.wrote →
      (w'.killed = false → w.killed = false ∧ w'.status = w.status) → w'.holds = w.holds →
      w'.stdinPipe = w.stdinPipe → AtStage F S payload v' w' := by
    intro v' w' hunsent hchild hwrote hkilled hholds hpipe
    refine h.stage.of_same hchild hwrote hkilled fun hin => ?_
    rw [hholds] at hin
    exact ⟨hin, by rw [hpipe, hunsent]⟩
  cases hans with
  | @wrote _ n hholds hpos hle hfits =>
      cases hrunner
      refine ⟨h.feeder, fun hdone => ?_, h.kept, ?_⟩
      · have hnothing : v.unsent = [] := h.sent hdone
        rw [hnothing] at hle
        exact absurd (Nat.lt_of_lt_of_le hpos hle) (Nat.lt_irrefl 0)
      · refine h.stage.of_same rfl rfl (fun hnot => ⟨hnot, rfl⟩) fun hin => ⟨hin, ?_⟩
        simp only [World.feed]
        rw [List.append_assoc, List.take_append_drop]
  | brokenPipe hclosed =>
      cases hrunner
      refine ⟨h.feeder, fun _ => rfl, h.kept, ?_⟩
      refine h.stage.of_same rfl rfl (fun hnot => ⟨hnot, rfl⟩) fun hin => ?_
      rw [hclosed] at hin
      cases hin
  | interrupted =>
      rw [Runner.eq_of_interrupted hrunner]
      exact h
  | fault hfault =>
      rw [hfaults] at hfault
      cases hfault
  | closedStdin =>
      cases hrunner with
      | hangUp hnothing =>
          exact ⟨rfl, fun _ => hnothing, h.kept,
            hsame rfl rfl rfl (fun hnot => ⟨hnot, rfl⟩) rfl rfl⟩
  | clock =>
      cases hrunner
      exact h
  | lapsed =>
      cases hrunner
      exact h
  | ready =>
      cases hrunner
      exact h
  | bytes hne _ _ =>
      rw [Runner.eq_of_bytes hne hrunner]
      exact ⟨h.feeder, h.sent, h.kept, hsame rfl rfl rfl (fun hnot => ⟨hnot, rfl⟩) rfl rfl⟩
  | endOfFile =>
      rw [Runner.eq_of_endOfFile hrunner]
      exact ⟨h.feeder, h.sent, h.kept, h.stage⟩
  | killed =>
      cases hrunner
      exact ⟨h.feeder, h.sent, h.kept, hsame rfl rfl rfl (fun hnot => by cases hnot) rfl rfl⟩
  | status hstatus =>
      cases hrunner
      exact h
  | @memory size ok hok =>
      cases hrunner with
      | memory => exact h
      | outOfMemory =>
          rw [hfaults] at hok
          cases hok rfl
  | closedOutput =>
      cases hrunner
      exact ⟨h.feeder, h.sent, h.kept, hsame rfl rfl rfl (fun hnot => ⟨hnot, rfl⟩) rfl rfl⟩

theorem computing_step (hfaults : S.faults = false)
    {x y : Runner × World F.child.State} {l : Label} (h : Computing F S payload x)
    (hstep : Step S F.child Runner.Step x l y) : Computing F S payload y := by
  cases hstep with
  | parent hrunner hans => exact computing_parent hfaults h hrunner hans
  | child hmove hacts => exact computing_child h hmove hacts
  | die hkilled hstatus =>
      refine { h with stage := h.stage.of_same rfl rfl (fun hnot => ?_) fun hin => ?_ }
      · exact absurd (hkilled.symm.trans hnot) (by decide)
      · simp only [World.terminate, Bool.and_eq_true] at hin
        exact ⟨hin.1, rfl⟩
  | tick nanos =>
      exact { h with stage := h.stage.of_same rfl rfl (fun hnot => ⟨hnot, rfl⟩) fun hin =>
        ⟨hin, rfl⟩ }

/-- A child that has ended without being killed has come to the end of its program. -/
theorem Computing.yields {v : Runner} {w : World (FilterState F.State)} {st : Int}
    (h : Computing F S payload (v, w)) (hkilled : w.killed = false) (hstatus : w.status = some st) :
    F.Yields S.split payload st w.wrote := by
  have hstage : AtStage F S payload v w := h.stage
  unfold AtStage at hstage
  split at hstage
  · have hnone := hstage.1 hkilled
    rw [hstatus] at hnone
    cases hnone
  · obtain ⟨st', hst', hyields⟩ := hstage
    rw [hstatus] at hst'
    cases hst' hkilled
    exact hyields

/-- What a child has written is the output of a stage that its program comes to. -/
theorem Computing.reaches {v : Runner} {w : World (FilterState F.State)}
    (h : Computing F S payload (v, w)) :
    ∃ c, F.Reaches S.split payload c ∧ c.wrote = w.wrote := by
  have hstage : AtStage F S payload v w := h.stage
  unfold AtStage at hstage
  split at hstage
  · obtain ⟨-, rest, hreaches, -⟩ := hstage
    exact ⟨_, hreaches, rfl⟩
  · obtain ⟨-, -, c, hreaches, -, hwrote⟩ := hstage
    exact ⟨c, hreaches, hwrote⟩

end Computing

/-! ## What the runners return -/

section Results

variable {capacity clock : Nat} {B : Behaviour} {F : Filter}

/-- The status of a child that has ended stays what it is. -/
theorem status_kept {X : Type} {S : Setting} {Par : X → Call → Reply → X → Prop}
    {x y : X × World B.State} {l : Label} {st : Int} (hstep : Step S B Par x l y)
    (hstatus : x.2.status = some st) : y.2.status = some st := by
  have hdeath := death_step hstep
  cases hl : l.death with
  | none =>
      rw [hl] at hdeath
      exact hdeath.trans hstatus
  | some d =>
      rw [hl] at hdeath
      rw [hdeath.1] at hstatus
      cases hstatus

/-- What `ftl_run_command` puts into `*result` is the status of its child. -/
theorem CCommand.status_returned {cmd : CCommand} {faults : Bool} {ls : List Label}
    {x : CParent × World B.State}
    (hrun : Runs (cmd.Sys capacity faults B) (cmd.initial B clock) ls x) :
    ∀ r, x.1 = .returned r true → x.2.status = some r.status := by
  induction hrun with
  | refl =>
      intro r hr
      have hphase := cmd.phase_writeLoop 0
      rw [show cmd.writeLoop 0 = .returned r true from hr] at hphase
      simp [CParent.phase, CPhase.next] at hphase
  | tail _ hstep ih =>
      intro r hr
      have hstays := fun hsame => status_kept hstep (ih r hsame)
      cases hstep with
      | @parent p p' w w' c reply hmove hans =>
          subst hr
          have hbranch := branch_of_moves hmove
          have hphase := phase_advance hmove
          cases p with
          | waiting col =>
              cases hbranch with
              | reaped _ st =>
                  cases hans with
                  | status hstatus => exact hstatus
          | _ =>
              revert hphase
              simp [CParent.phase, CPhase.next]
      | child hmove hacts => exact hstays hr
      | die hkilled hnone => exact hstays hr
      | tick nanos => exact hstays hr

/-- A run of a runner against a filter, in a world that does not fault. -/
theorem computing_runs {S : Setting} (hfaults : S.faults = false) {payload : Bytes}
    {listening : Stream → Bool} {ls : List Label} {v : Runner} {w : World F.child.State}
    (hdry : EndedDry S (Runner.fresh payload listening, World.initial F.child.start clock))
    (hruns : Runs (Step S F.child Runner.Step)
      (Runner.fresh payload listening, World.initial F.child.start clock) ls (v, w)) :
    Computing F S payload (v, w) ∧ Conserves (v, w) ∧ EndedDry S (v, w) ∧ KillAgrees (v, w) := by
  refine ⟨hruns.invariant (computing_initial F S payload listening clock)
      (computing_step hfaults), hruns.invariant (fun _ => rfl) conserves_step,
    hruns.invariant hdry ?_, hruns.invariant rfl killAgrees_step⟩
  intro x y l hx hstep
  obtain ⟨hread, hpoll⟩ := not_fails_of_step hfaults hstep
  exact endedDry_step hread hpoll hx hstep

/-- Where the runner stops without a kill, it has collected all that was written. -/
theorem sink_eq_wrote {S : Setting} {v : Runner} {w : World B.State}
    (hconserves : Conserves (v, w)) (hdry : EndedDry S (v, w)) (hstop : v.MayStop)
    (hnot : v.sentKill = false) : v.sink = w.wrote := by
  rcases hstop with hkill | hdeaf
  · rw [hnot] at hkill
    cases hkill
  · funext s
    have hbytes := hconserves s
    rw [(hdry s (hdeaf s)).1, List.append_nil] at hbytes
    exact hbytes

/-- What a runner has collected, when it stops without a kill and the child is gone, is what
the program yields on the payload, and the program yields nothing else. -/
theorem Computing.yields_iff {S : Setting} {payload : Bytes} {v : Runner}
    {w : World F.child.State} {st : Int} (h : Computing F S payload (v, w))
    (hconserves : Conserves (v, w)) (hdry : EndedDry S (v, w)) (hagrees : KillAgrees (v, w))
    (hstop : v.MayStop) (hnot : v.sentKill = false) (hstatus : w.status = some st) (st' : Int)
    (wrote : Stream → Bytes) :
    F.Yields S.split payload st' wrote ↔ st' = st ∧ wrote = v.sink := by
  have hyields := h.yields (hagrees.symm.trans hnot) hstatus
  rw [← sink_eq_wrote hconserves hdry hstop hnot] at hyields
  constructor
  · intro hother
    exact Filter.yields_unique hother hyields
  · rintro ⟨rfl, rfl⟩
    exact hyields

/-- What `run()` returns from a child that it reaps without a kill. -/
theorem Subprocess.returned_yields {sp : Subprocess} {ls : List Label} {r : RunResult}
    {w : World F.child.State}
    (hrun : Runs (sp.Sys capacity false F.child) (sp.initial F.child clock) ls
      (.returned r true, w)) (hto : r.timedOut = false) (st : Int) (wrote : Stream → Bytes) :
    F.Yields sp.splitOutput sp.stdinData st wrote ↔ st = r.status ∧ wrote = r.sink := by
  obtain ⟨v, hruns, hsink, hkill, -, hstop⟩ := Subprocess.abstract_run hrun
  obtain ⟨hcomputing, hconserves, hdry, hagrees⟩ := computing_runs rfl sp.endedDry_initial hruns
  have hstatus : w.status = some r.status := (returned_run hrun).2
  rw [← hsink]
  exact hcomputing.yields_iff hconserves hdry hagrees hstop (hkill.trans hto) hstatus st wrote

/-- What `ftl_run_command` returns from a child that it reaps without a kill. -/
theorem CCommand.returned_yields {cmd : CCommand} {ls : List Label} {r : CRunResult}
    {w : World F.child.State}
    (hrun : Runs (cmd.Sys capacity false F.child) (cmd.initial F.child clock) ls
      (.returned r true, w)) (hto : r.timedOut = false) :
    ∃ sink, r.output = some (sink .out) ∧
      ∀ st wrote, F.Yields false cmd.payload st wrote ↔ st = r.status ∧ wrote = sink := by
  obtain ⟨v, hruns, hstop, hkill, houtput⟩ := CCommand.abstract_run hrun
  obtain ⟨hcomputing, hconserves, hdry, hagrees⟩ := computing_runs rfl cmd.endedDry_initial hruns
  have hnot : v.sentKill = false := by
    rw [← Bool.not_eq_true]
    intro hsent
    rw [hkill hsent] at hto
    cases hto
  refine ⟨v.sink, houtput hcomputing.kept, ?_⟩
  exact hcomputing.yields_iff hconserves hdry hagrees hstop hnot
    (CCommand.status_returned hrun r rfl)

/-- What a runner has collected at any point, of a run that times out or not, is a prefix of
what the program yields. -/
theorem Computing.sink_begins {S : Setting} {payload : Bytes} {v : Runner}
    {w : World F.child.State} {st : Int} {wrote : Stream → Bytes}
    (h : Computing F S payload (v, w)) (hconserves : Conserves (v, w))
    (hyields : F.Yields S.split payload st wrote) (s : Stream) : v.sink s <+: wrote s := by
  obtain ⟨c, hreaches, hwrote⟩ := h.reaches
  have hbytes : v.sink s <+: w.wrote s := ⟨w.pipe s, hconserves s⟩
  rw [← hwrote] at hbytes
  exact hbytes.trans (Filter.wrote_of_reaches hreaches hyields s)

/-- A program that relays one byte. -/
def relay : Filter where
  State := Option (Option UInt8)
  start := none
  instr
    | none => .read some
    | some (some b) => .write .stdout b (some none)
    | some none => .exit 0

/-- One byte is relayed by `run()`. -/
def relayedByte : Subprocess := (Subprocess.ofProgram []).setStdinData [97]

theorem relayed_run : ∃ ls w, Runs (relayedByte.Sys 1 false relay.child)
    (relayedByte.initial relay.child 0) ls (.returned ⟨0, false, [97], []⟩ true, w) :=
  ⟨_, _,
    .head (.parent ⟨rfl, rfl⟩ (.wrote rfl (by decide) (Nat.le_refl 1) (by decide))) <|
    .head (.parent ⟨rfl, rfl⟩ .closedStdin) <|
    .head (.parent ⟨rfl, rfl⟩ .clock) <|
    .head (.child (@FilterMove.fill relay none some [97] rfl (by decide))
      (@Acts.read _ _ _ _ [] rfl (by decide) rfl)) <|
    .head (.child (@FilterMove.take relay none some 97 [] rfl) .idle) <|
    .head (.child (@FilterMove.write relay (some (some 97)) _ _ _ [] rfl)
      (@Acts.write _ _ _ _ .out _ rfl rfl rfl (by decide) (by decide))) <|
    .head (.child (.exit rfl) (.exit rfl)) <|
    .head (.parent ⟨rfl, rfl⟩ .clock) <|
    .head (.parent ⟨rfl, rfl⟩ (@Answers.ready _ _ _ _ _ fun _ => true)) <|
    .head (.parent ⟨rfl, rfl⟩ (@Answers.bytes _ _ _ _ _ [97] [] (by decide) (by decide) rfl)) <|
    .head (.parent ⟨rfl, rfl⟩ .clock) <|
    .head (.parent ⟨rfl, rfl⟩ (@Answers.ready _ _ _ _ _ fun _ => true)) <|
    .head (.parent ⟨rfl, rfl⟩ (.endOfFile rfl (by rintro ⟨fd, hholds, -⟩; cases hholds))) <|
    .single (.parent ⟨rfl, rfl⟩ (.status rfl))⟩

end Results

end Ftl.Process
