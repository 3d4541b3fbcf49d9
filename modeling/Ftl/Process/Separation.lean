/-
  Process/Separation.lean --- several runs at once, in a process that goes on working.

  Embedded source: the calls of `Process/Concurrent`, interleaved with the other threads of the
  caller, which open and close descriptors of their own.  A number that one thread closes can be
  given to another one at once, so a run that closed a number twice, or after it has handed it
  over, would close somebody else's descriptor.

      runs_separate   whatever the order of the calls, the caller has open what its own calls
                      have left open, and a run has open what it is still to close
-/
import Ftl.Process.Concurrent

set_option autoImplicit false

namespace Ftl.Process

open Function (update update_self update_of_ne)
open Foundation (FdTable Runs)

variable {ι α : Type}

/-! ## Steps -/

/-- The process, and what the caller has open by its own account. -/
structure Shared (ι α : Type) where
  threads : Threads ι α
  own : Nat → Option α

/-- A call of a run, or of another thread. -/
inductive SharedCall (ι α : Type) where
  | run (l : RunCall ι)
  /-- `open`, `dup` and the like -/
  | opens (a : α)
  | close (fd : Nat)

/-- The caller has `t` open, and no run has begun. -/
def Shared.initial (t : FdTable α) : Shared ι α where
  threads := .initial t
  own := t.slot

/-- The process with another table. -/
def Threads.onTable (s : Threads ι α) (table : FdTable (SharedObject ι α)) : Threads ι α :=
  { s with table := table }

/-- One call.  The other threads close only what they have opened. -/
inductive SharedStep [DecidableEq ι] (sp : ι → Subprocess) (s : Shared ι α) :
    SharedCall ι α → Shared ι α → Prop
  | run {l : RunCall ι} {threads : Threads ι α} :
      Steps sp s.threads l threads → SharedStep sp s (.run l) { s with threads := threads }
  | opens (a : α) :
      SharedStep sp s (.opens a)
        { threads := s.threads.onTable (s.threads.table.alloc (.other a))
          own := update s.own s.threads.table.lowestFree (some a) }
  | close {fd : Nat} {a : α} :
      s.own fd = some a →
      SharedStep sp s (.close fd)
        { threads := s.threads.onTable (s.threads.table.close fd), own := update s.own fd none }

/-! ## Nobody touches what is another's -/

/-- Each run has open what it says, and the caller too.  A `close` then takes away what its caller
has opened, also where the number has been another's before. -/
structure Separate (s : Shared ι α) : Prop where
  accounted : Accounted s.threads
  own : ∀ n a, s.threads.table.slot n = some (.other a) ↔ s.own n = some a

theorem separate_initial (t : FdTable α) : Separate (Shared.initial t : Shared ι α) where
  accounted := accounted_initial t
  own := by
    intro n a
    change (t.slot n).map SharedObject.other = some (.other a) ↔ t.slot n = some a
    cases t.slot n <;> simp

/-- The ends that the runs have open are the same in a table that differs in no end. -/
theorem Accounted.onTable {s : Threads ι α} (h : Accounted s)
    {table : FdTable (SharedObject ι α)}
    (hpipes : ∀ n i e, table.slot n = some (.pipe i e) ↔ s.table.slot n = some (.pipe i e)) :
    Accounted (s.onTable table) where
  held := fun i n e => (hpipes n i e).trans (h.held i n e)
  distinct := h.distinct
  inherited := h.inherited
  execed := h.execed

section Steps

variable {s : Shared ι α}

/-- A call of a run leaves the descriptors of the caller alone. -/
theorem others_of_step [DecidableEq ι] {sp : ι → Subprocess} {s s' : Threads ι α}
    {l : RunCall ι} (h : Accounted s)
    (hstep : Steps sp s l s') (n : Nat) (a : α) :
    s'.table.slot n = some (.other a) ↔ s.table.slot n = some (.other a) := by
  cases stepCase_of_step hstep with
  | @pipe i readEnd writeEnd next _ _ =>
      have hpipe := pipeCreated_createPipe s.table (.pipe i readEnd) (.pipe i writeEnd)
      change (createPipe s.table _ _).2.slot n = _ ↔ _
      rw [hpipe.slot]
      split
      · rename_i hread
        rw [hread, hpipe.freshRead]
        simp
      · split
        · rename_i hwrite
          rw [hwrite, hpipe.freshWrite]
          simp
        · exact Iff.rfl
  | @close i fd e todo hpc =>
      have hopen : s.table.slot fd = some (.pipe i e) := by
        rw [h.held i fd e, hpc]
        exact List.mem_cons_self
      change (s.table.close fd).slot n = _ ↔ _
      rw [FdTable.slot_close]
      split
      · rename_i hsame
        rw [hsame, hopen]
        simp
      · exact Iff.rfl
  | _ => exact Iff.rfl

theorem separate_opens (h : Separate s) (a : α) :
    Separate (⟨s.threads.onTable (s.threads.table.alloc (.other a)),
      update s.own s.threads.table.lowestFree (some a)⟩ : Shared ι α) := by
  have hnew := FdTable.slot_lowestFree s.threads.table
  refine ⟨h.accounted.onTable fun n i e => ?_, fun n b => ?_⟩
  · rw [FdTable.slot_alloc]
    split
    · rename_i hsame
      rw [hsame, hnew]
      simp
    · exact Iff.rfl
  · change (s.threads.table.alloc (.other a)).slot n = _ ↔ update s.own _ _ n = _
    rw [FdTable.slot_alloc, Function.update_apply]
    split
    · simp
    · exact h.own n b

theorem separate_close (h : Separate s) {fd : Nat} {a : α} (hown : s.own fd = some a) :
    Separate (⟨s.threads.onTable (s.threads.table.close fd), update s.own fd none⟩ :
      Shared ι α) := by
  have hopen := (h.own fd a).mpr hown
  refine ⟨h.accounted.onTable fun n i e => ?_, fun n b => ?_⟩
  · rw [FdTable.slot_close]
    split
    · rename_i hsame
      rw [hsame, hopen]
      simp
    · exact Iff.rfl
  · change (s.threads.table.close fd).slot n = _ ↔ update s.own _ _ n = _
    rw [FdTable.slot_close, Function.update_apply]
    split
    · simp
    · exact h.own n b

theorem separate_step [DecidableEq ι] {sp : ι → Subprocess} {c : SharedCall ι α}
    {s' : Shared ι α} (h : Separate s) (hstep : SharedStep sp s c s') : Separate s' := by
  cases hstep with
  | run hrun =>
      exact ⟨accounted_step h.accounted hrun, fun n a =>
        (others_of_step h.accounted hrun n a).trans (h.own n a)⟩
  | opens a => exact separate_opens h a
  | close hown => exact separate_close h hown

end Steps

/-- Any number of runs, in any order with what other threads of the caller open and close: the
caller has open just what its own calls have left open, each run just the ends that it is still to
close, and once the runs are over nothing else is open. -/
theorem runs_separate [DecidableEq ι] (sp : ι → Subprocess) (t : FdTable α)
    {cs : List (SharedCall ι α)} {s : Shared ι α}
    (hrun : Runs (SharedStep sp) (Shared.initial t) cs s) :
    (∀ n a, s.threads.table.slot n = some (.other a) ↔ s.own n = some a) ∧
    (∀ i n e, s.threads.table.slot n = some (.pipe i e) ↔ (n, e) ∈ (s.threads.pc i).held) ∧
    ((∀ i, (s.threads.pc i).held = []) →
      ∀ n, s.threads.table.slot n = (s.own n).map .other) := by
  have h : Separate s := hrun.invariant (separate_initial t) separate_step
  refine ⟨h.own, h.accounted.held, fun hover n => ?_⟩
  cases hslot : s.threads.table.slot n with
  | none =>
      cases hown : s.own n with
      | none => rfl
      | some a =>
          rw [(h.own n a).mpr hown] at hslot
          cases hslot
  | some object =>
      cases object with
      | other a =>
          rw [(h.own n a).mp hslot]
          rfl
      | pipe i e =>
          have hmem := (h.accounted.held i n e).mp hslot
          rw [hover i] at hmem
          cases hmem

/-- The caller closes 0 before the first run makes a pipe and opens a file after it; the run is
left because its second `pipe()` fails.  Its write end on 3 goes first, and another thread gets
the number before the read end on 0 has gone, too. -/
theorem runs_separate_unwound : ∃ s : Shared Bool Unit,
    Runs (SharedStep plainRuns) (Shared.initial (.ofList [(), (), ()]))
      [.close 0, .run (.pipe false), .opens (), .run (.unwind false), .run (.close false),
        .opens (), .run (.close false)] s ∧
      s.threads.table.slot 0 = none ∧ s.threads.table.slot 3 = some (.other ()) := by
  have hrun : Runs (SharedStep plainRuns) (Shared.initial (.ofList [(), (), ()]))
      [.close 0, .run (.pipe false), .opens (), .run (.unwind false), .run (.close false),
        .opens (), .run (.close false)] _ :=
    .head (.close rfl) <| .head (.run rfl) <| .head (.opens ()) <| .head (.run rfl) <|
      .head (.run rfl) <| .head (.opens ()) <| .single (.run rfl)
  have hover := (runs_separate plainRuns _ hrun).2.2 (by decide)
  exact ⟨_, hrun, hover 0, hover 3⟩

end Ftl.Process
