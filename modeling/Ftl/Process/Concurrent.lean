/-
  Process/Concurrent.lean --- several runs at once in one process.

  The threads of a process share its descriptor table, fork copies the whole table,
  and exec keeps what is not close-on-exec.  `pipe()` sets no such flag, so an end
  that another run has open at the moment of a fork goes into the child, whose
  calls close the ends of its own run only.

  A run is an index `i : ι`; runs that a thread makes one after the other are runs
  that happen not to overlap.  `Threads.step` executes one call.

      exec_holds_own_ends  an exec'd child holds nothing but its own 0, 1 and 2 exactly
                           when no other run's end was in the way at its fork
      foreign_end_leaks    two runs that overlap
-/
import Ftl.Foundation.Runs
import Ftl.Process.ChildExec

set_option autoImplicit false

namespace Ftl.Process

open Function (update)
open Foundation (FdTable Runs Guarded)

/-! ## State -/

/-- What a descriptor is open on, in a process with many runs. -/
inductive SharedObject (ι α : Type) where
  | other (a : α)
  | pipe (run : ι) (e : PipeEnd)
  deriving DecidableEq

/-- Where a run is in `run()`. -/
inductive RunPc where
  | start
  | gotIn (inPipe : Nat × Nat)
  | gotOut (inPipe outPipe : Nat × Nat)
  | gotErr (inPipe outPipe errPipe : Nat × Nat)
  /-- the fork is done, or a call failed before it; these ends are still to be closed, in
  this order -/
  | closing (todo : List (Nat × PipeEnd))

/-- The numbers and ends of a run that has not forked, in order of creation. -/
def RunFds.pairs (fds : RunFds) : List (Nat × PipeEnd) :=
  [(fds.inRead, .inRead), (fds.inWrite, .inWrite), (fds.outRead, .outRead),
    (fds.outWrite, .outWrite)] ++
    match fds.err with
    | some (errRead, errWrite) => [(errRead, .errRead), (errWrite, .errWrite)]
    | none => []

/-- The closes of the parent after the fork: the child's ends, the stdin write end
after the payload, the read ends when `collect` returns. -/
def RunFds.parentCloses (fds : RunFds) : List (Nat × PipeEnd) :=
  match fds.err with
  | some (errRead, errWrite) =>
      [(fds.inRead, .inRead), (fds.outWrite, .outWrite), (errWrite, .errWrite),
        (fds.inWrite, .inWrite), (errRead, .errRead), (fds.outRead, .outRead)]
  | none =>
      [(fds.inRead, .inRead), (fds.outWrite, .outWrite), (fds.inWrite, .inWrite),
        (fds.outRead, .outRead)]

/-- The ends a run has open. -/
def RunPc.held : RunPc → List (Nat × PipeEnd)
  | .start => []
  | .gotIn inPipe => [(inPipe.1, .inRead), (inPipe.2, .inWrite)]
  | .gotOut inPipe outPipe => RunFds.pairs ⟨inPipe.1, inPipe.2, outPipe.1, outPipe.2, none⟩
  | .gotErr inPipe outPipe errPipe =>
      RunFds.pairs ⟨inPipe.1, inPipe.2, outPipe.1, outPipe.2, some errPipe⟩
  | .closing todo => todo

/-- The numbers a run forks with. -/
def RunPc.forks (split : Bool) : RunPc → Option RunFds
  | .gotOut inPipe outPipe =>
      if split then none else some ⟨inPipe.1, inPipe.2, outPipe.1, outPipe.2, none⟩
  | .gotErr inPipe outPipe errPipe =>
      some ⟨inPipe.1, inPipe.2, outPipe.1, outPipe.2, some errPipe⟩
  | _ => none

/-- A call of the child. -/
inductive ChildCall where
  | dup2 (oldfd newfd : Nat)
  | closeUnused (fd : Nat)

/-- The table after a call of the child. -/
def ChildCall.apply {β : Type} (limit : Option Nat) (t : FdTable β) : ChildCall → FdTable β
  | .dup2 oldfd newfd => t.dup2 limit oldfd newfd
  | .closeUnused fd => Process.closeUnused t fd

/-- The calls of `child_exec`, in order. -/
def RunFds.childCalls (fds : RunFds) : List ChildCall :=
  [.dup2 fds.inRead 0, .dup2 fds.outWrite 1, .dup2 fds.stderrSource 2] ++
    fds.toList.map .closeUnused

/-- A forked child: the table it inherited and the number of calls it has made. -/
structure Child (ι α : Type) where
  fds : RunFds
  inherited : FdTable (SharedObject ι α)
  made : Nat
  execed : Bool

/-- The table of a child after the calls it has made. -/
def Child.table {ι α : Type} (sp : Subprocess) (c : Child ι α) : FdTable (SharedObject ι α) :=
  (c.fds.childCalls.take c.made).foldl (ChildCall.apply sp.childLimit) c.inherited

theorem foldl_childCalls {β : Type} (sp : Subprocess) (fds : RunFds) (t : FdTable β) :
    fds.childCalls.foldl (ChildCall.apply sp.childLimit) t = sp.childExec fds t := by
  simp only [RunFds.childCalls, List.foldl_append, List.foldl_map]
  rfl

/-- The process and the children it has forked. -/
structure Threads (ι α : Type) where
  table : FdTable (SharedObject ι α)
  pc : ι → RunPc
  child : ι → Option (Child ι α)

/-- No run has begun, and the caller has `t` open. -/
def Threads.initial {ι α : Type} (t : FdTable α) : Threads ι α where
  table := t.map .other
  pc := fun _ => .start
  child := fun _ => none

/-! ## Steps -/

/-- Whose call it is. -/
inductive RunCall (ι : Type) where
  /-- the next `pipe()` of the run -/
  | pipe (i : ι)
  | fork (i : ι)
  /-- the next close of the parent side -/
  | close (i : ι)
  /-- a `pipe()` or the fork fails, and `run()` is left by an exception: what was created last is
  closed first -/
  | unwind (i : ι)
  /-- the next call of the child before its exec -/
  | childCall (i : ι)
  | exec (i : ι)

/-- The run that makes the call. -/
def RunCall.run {ι : Type} : RunCall ι → ι
  | .pipe i | .fork i | .close i | .unwind i | .childCall i | .exec i => i

section Steps

variable {ι α : Type} [DecidableEq ι] (sp : ι → Subprocess)

/-- The run `i` creates a pipe and goes on at `next`. -/
def Threads.create (s : Threads ι α) (i : ι) (readEnd writeEnd : PipeEnd)
    (next : Nat × Nat → RunPc) : Threads ι α :=
  let created := createPipe s.table (.pipe i readEnd) (.pipe i writeEnd)
  { s with table := created.2, pc := update s.pc i (next created.1) }

/-- One call. -/
def Threads.step (s : Threads ι α) : RunCall ι → Option (Threads ι α)
  | .pipe i =>
      match s.pc i with
      | .start => some (s.create i .inRead .inWrite .gotIn)
      | .gotIn inPipe => some (s.create i .outRead .outWrite (.gotOut inPipe))
      | .gotOut inPipe outPipe =>
          if (sp i).splitOutput then
            some (s.create i .errRead .errWrite (.gotErr inPipe outPipe))
          else none
      | _ => none
  | .fork i =>
      ((s.pc i).forks (sp i).splitOutput).map fun fds =>
        { s with
          pc := update s.pc i (.closing fds.parentCloses)
          child := update s.child i
            (some { fds := fds, inherited := s.table, made := 0, execed := false }) }
  | .close i =>
      match s.pc i with
      | .closing ((fd, _) :: todo) =>
          some { s with table := s.table.close fd, pc := update s.pc i (.closing todo) }
      | _ => none
  | .unwind i =>
      match s.pc i with
      | .closing _ => none
      | pc => some { s with pc := update s.pc i (.closing pc.held.reverse) }
  | .childCall i =>
      match s.child i with
      | some c =>
          if c.made < c.fds.childCalls.length then
            some { s with child := update s.child i (some { c with made := c.made + 1 }) }
          else none
      | none => none
  | .exec i =>
      match s.child i with
      | some c =>
          if c.made = c.fds.childCalls.length then
            some { s with child := update s.child i (some { c with execed := true }) }
          else none
      | none => none

/-- `Threads.step` as a relation. -/
def Steps (s : Threads ι α) (l : RunCall ι) (s' : Threads ι α) : Prop := s.step sp l = some s'

/-- What a step can be, with what it checks. -/
inductive StepCase (s : Threads ι α) : RunCall ι → Threads ι α → Prop
  | pipe {i : ι} {readEnd writeEnd : PipeEnd} {next : Nat × Nat → RunPc} :
      (∀ created, (next created).held =
        (s.pc i).held ++ [(created.1, readEnd), (created.2, writeEnd)]) →
      (∀ created, ((next created).held.map Prod.snd).Nodup) →
      StepCase s (.pipe i) (s.create i readEnd writeEnd next)
  | fork {i : ι} {fds : RunFds} :
      (s.pc i).forks (sp i).splitOutput = some fds →
      StepCase s (.fork i) { s with
        pc := update s.pc i (.closing fds.parentCloses)
        child := update s.child i
          (some { fds := fds, inherited := s.table, made := 0, execed := false }) }
  | close {i : ι} {fd : Nat} {e : PipeEnd} {todo : List (Nat × PipeEnd)} :
      s.pc i = .closing ((fd, e) :: todo) →
      StepCase s (.close i)
        { s with table := s.table.close fd, pc := update s.pc i (.closing todo) }
  | unwind {i : ι} :
      StepCase s (.unwind i) { s with pc := update s.pc i (.closing (s.pc i).held.reverse) }
  | childCall {i : ι} {c : Child ι α} :
      s.child i = some c → c.made < c.fds.childCalls.length →
      StepCase s (.childCall i)
        { s with child := update s.child i (some { c with made := c.made + 1 }) }
  | exec {i : ι} {c : Child ι α} :
      s.child i = some c → c.made = c.fds.childCalls.length →
      StepCase s (.exec i)
        { s with child := update s.child i (some { c with execed := true }) }

theorem nodup_pairs (fds : RunFds) : (fds.pairs.map Prod.snd).Nodup := by
  obtain ⟨inRead, inWrite, outRead, outWrite, err⟩ := fds
  cases err <;> simp [RunFds.pairs]

variable {sp}

theorem stepCase_of_step {s s' : Threads ι α} {l : RunCall ι} (hstep : Steps sp s l s') :
    StepCase sp s l s' := by
  cases l with
  | pipe i =>
      simp only [Steps, Threads.step] at hstep
      split at hstep
      · rename_i hpc
        cases hstep
        refine .pipe (fun created => ?_) (fun created => ?_)
        · rw [hpc]
          rfl
        · simp [RunPc.held]
      · rename_i inPipe hpc
        cases hstep
        refine .pipe (fun created => ?_) (fun created => nodup_pairs _)
        rw [hpc]
        rfl
      · rename_i inPipe outPipe hpc
        split at hstep
        · cases hstep
          refine .pipe (fun created => ?_) (fun created => nodup_pairs _)
          rw [hpc]
          rfl
        · cases hstep
      · cases hstep
  | fork i =>
      simp only [Steps, Threads.step, Option.map_eq_some_iff] at hstep
      obtain ⟨fds, hfds, rfl⟩ := hstep
      exact .fork hfds
  | close i =>
      simp only [Steps, Threads.step] at hstep
      split at hstep
      · rename_i hpc
        cases hstep
        exact .close hpc
      · cases hstep
  | unwind i =>
      simp only [Steps, Threads.step] at hstep
      split at hstep
      · cases hstep
      · cases hstep
        exact .unwind
  | childCall i =>
      simp only [Steps, Threads.step] at hstep
      split at hstep
      · rename_i c hc
        split at hstep
        · rename_i hmore
          cases hstep
          exact .childCall hc hmore
        · cases hstep
      · cases hstep
  | exec i =>
      simp only [Steps, Threads.step] at hstep
      split at hstep
      · rename_i c hc
        split at hstep
        · rename_i hall
          cases hstep
          exact .exec hc hall
        · cases hstep
      · cases hstep

end Steps

/-! ## Who holds which end -/

section Ends

variable {ι α : Type}

/-- The child holds no pipe end but those its own run put on 0, 1 and 2, and not the
write end of its own stdin. -/
def OwnOnly (i : ι) (t : FdTable (SharedObject ι α)) : Prop :=
  ∀ n j e, t.slot n = some (.pipe j e) → j = i ∧ n ≤ 2 ∧ e ≠ .inWrite

/-- A number that the `dup2` calls of the child do not replace: above 2, or beyond
its descriptor limit. -/
def Subprocess.Keeps (sp : Subprocess) (n : Nat) : Prop :=
  2 < n ∨ ∃ l ∈ sp.childLimit, l ≤ n

/-- No number that the child keeps is another run's pipe end, or its own stdin write
end on a standard descriptor.  The child keeps what `dup2` does not replace: it closes the
numbers of its own run only, and those only above 2. -/
def CleanFork (sp : Subprocess) (i : ι) (t : FdTable (SharedObject ι α)) : Prop :=
  ∀ n j e, sp.Keeps n → t.slot n = some (.pipe j e) → j = i ∧ (n ≤ 2 → e ≠ .inWrite)

/-- The numbers of a run are open on its ends in `t`, and no other number is. -/
def HoldsExactly (i : ι) (t : FdTable (SharedObject ι α)) (held : List (Nat × PipeEnd)) :
    Prop :=
  ∀ n e, t.slot n = some (.pipe i e) ↔ (n, e) ∈ held

theorem mem_pairs_fst {fds : RunFds} {n : Nat} :
    n ∈ fds.toList ↔ ∃ e, (n, e) ∈ fds.pairs := by
  obtain ⟨inRead, inWrite, outRead, outWrite, err⟩ := fds
  cases err with
  | none => simp [RunFds.toList, RunFds.pairs, exists_or]
  | some e => simp [RunFds.toList, RunFds.pairs, exists_or]

theorem mem_pairs_stderrSource (fds : RunFds) :
    ∃ e, (fds.stderrSource, e) ∈ fds.pairs ∧ e ≠ .inRead ∧ e ≠ .inWrite := by
  obtain ⟨inRead, inWrite, outRead, outWrite, err⟩ := fds
  cases err with
  | none => exact ⟨.outWrite, by simp [RunFds.stderrSource, RunFds.pairs], by simp, by simp⟩
  | some e => exact ⟨.errWrite, by simp [RunFds.stderrSource, RunFds.pairs], by simp, by simp⟩

/-- The number is open on an end of the run other than its stdin write end. -/
def OwnSource (i : ι) (t : FdTable (SharedObject ι α)) (fd : Nat) : Prop :=
  ∃ e, e ≠ PipeEnd.inWrite ∧ t.slot fd = some (.pipe i e)

/-- A `dup2` from such a number changes at most its target, which is beyond the limit
or becomes such a number. -/
theorem OwnSource.dup2 {i : ι} {t : FdTable (SharedObject ι α)} {oldfd : Nat}
    (hsource : OwnSource i t oldfd) (limit : Option Nat) (newfd : Nat) :
    (∀ m, m ≠ newfd → (t.dup2 limit oldfd newfd).slot m = t.slot m) ∧
      ((∃ l ∈ limit, l ≤ newfd) → t.dup2 limit oldfd newfd = t) ∧
      ((¬ ∃ l ∈ limit, l ≤ newfd) → OwnSource i (t.dup2 limit oldfd newfd) newfd) := by
  obtain ⟨e, he, hslot⟩ := hsource
  by_cases hbeyond : ∃ l ∈ limit, l ≤ newfd
  · have hsame : t.dup2 limit oldfd newfd = t := by
      obtain ⟨l, hl, hle⟩ := hbeyond
      cases hl
      simp [FdTable.dup2, hslot, hle]
    refine ⟨fun m _ => ?_, fun _ => hsame, fun hwithin => (hwithin hbeyond).elim⟩
    rw [hsame]
  · have hlimit : ∀ l ∈ limit, newfd < l := by
      intro l hl
      by_contra hle
      exact hbeyond ⟨l, hl, by omega⟩
    refine ⟨fun m hm => ?_, fun h => (hbeyond h).elim, fun _ => ⟨e, he, ?_⟩⟩
    · rw [FdTable.slot_dup2 hslot hlimit, if_neg hm]
    · rw [FdTable.slot_dup2 hslot hlimit, if_pos rfl]

theorem OwnSource.of_dup2 {i : ι} {t : FdTable (SharedObject ι α)} {oldfd fd : Nat}
    (hsource : OwnSource i t oldfd) (h : OwnSource i t fd) (limit : Option Nat)
    (newfd : Nat) : OwnSource i (t.dup2 limit oldfd newfd) fd := by
  obtain ⟨hrest, hbeyond, hwithin⟩ := hsource.dup2 limit newfd
  by_cases hlimit : ∃ l ∈ limit, l ≤ newfd
  · rw [hbeyond hlimit]
    exact h
  · by_cases hfd : fd = newfd
    · rw [hfd]
      exact hwithin hlimit
    · obtain ⟨e, he, hslot⟩ := h
      exact ⟨e, he, by rw [hrest fd hfd, hslot]⟩

theorem childLimit_pos {sp : Subprocess} : ¬ ∃ l ∈ sp.childLimit, l ≤ 0 := by
  rintro ⟨l, hl, hle⟩
  unfold Subprocess.childLimit at hl
  split at hl
  · cases hl
    omega
  · cases hl

/-- After the `dup2` calls, a number that the child keeps is what it was, and the
others are ends of the run, none of them its stdin write end. -/
theorem dupStandard_own {i : ι} {sp : Subprocess} {fds : RunFds}
    {t : FdTable (SharedObject ι α)} (hin : OwnSource i t fds.inRead)
    (hout : OwnSource i t fds.outWrite) (herr : OwnSource i t fds.stderrSource) (n : Nat) :
    (sp.Keeps n → (dupStandard sp.childLimit fds t).slot n = t.slot n) ∧
      (¬ sp.Keeps n → OwnSource i (dupStandard sp.childLimit fds t) n) := by
  obtain ⟨hrest0, -, hwithin0⟩ := hin.dup2 sp.childLimit 0
  have hout0 := hin.of_dup2 hout sp.childLimit 0
  have herr0 := hin.of_dup2 herr sp.childLimit 0
  obtain ⟨hrest1, hbeyond1, hwithin1⟩ := hout0.dup2 sp.childLimit 1
  have herr1 := hout0.of_dup2 herr0 sp.childLimit 1
  obtain ⟨hrest2, hbeyond2, hwithin2⟩ := herr1.dup2 sp.childLimit 2
  rw [dupStandard]
  by_cases hn0 : n = 0
  · subst hn0
    refine ⟨?_, fun _ => ?_⟩
    · rintro (hhigh | hbeyond)
      · omega
      · exact (childLimit_pos hbeyond).elim
    · obtain ⟨e, he, hslot⟩ := hwithin0 childLimit_pos
      exact ⟨e, he, by rw [hrest2 0 (by omega), hrest1 0 (by omega), hslot]⟩
  by_cases hn1 : n = 1
  · subst hn1
    refine ⟨?_, fun hkeeps => ?_⟩
    · rintro (hhigh | hbeyond)
      · omega
      · rw [hrest2 1 (by omega), hbeyond1 hbeyond, hrest0 1 (by omega)]
    · obtain ⟨e, he, hslot⟩ := hwithin1 fun hbeyond => hkeeps (Or.inr hbeyond)
      exact ⟨e, he, by rw [hrest2 1 (by omega), hslot]⟩
  by_cases hn2 : n = 2
  · subst hn2
    refine ⟨?_, fun hkeeps => hwithin2 fun hbeyond => hkeeps (Or.inr hbeyond)⟩
    rintro (hhigh | hbeyond)
    · omega
    · rw [hbeyond2 hbeyond, hrest1 2 (by omega), hrest0 2 (by omega)]
  · refine ⟨fun _ => ?_, fun hkeeps => (hkeeps (Or.inl (by omega))).elim⟩
    rw [hrest2 n hn2, hrest1 n hn1, hrest0 n hn0]

/-- What a child holds at its exec is its own exactly when its fork was clean. -/
theorem ownOnly_childExec_iff {i : ι} {sp : Subprocess} {fds : RunFds}
    {t : FdTable (SharedObject ι α)} (hheld : HoldsExactly i t fds.pairs) :
    OwnOnly i (sp.childExec fds t) ↔ CleanFork sp i t := by
  have hin : OwnSource i t fds.inRead :=
    ⟨.inRead, by simp, (hheld _ _).mpr (by simp [RunFds.pairs])⟩
  have hout : OwnSource i t fds.outWrite :=
    ⟨.outWrite, by simp, (hheld _ _).mpr (by simp [RunFds.pairs])⟩
  have herr : OwnSource i t fds.stderrSource := by
    obtain ⟨e, hmem, -, hne⟩ := mem_pairs_stderrSource fds
    exact ⟨e, hne, (hheld _ _).mpr hmem⟩
  have hdup := @dupStandard_own _ _ _ sp _ _ hin hout herr
  have hslot : ∀ n, (sp.childExec fds t).slot n =
      if n ∈ fds.toList ∧ 2 < n then none else (dupStandard sp.childLimit fds t).slot n :=
    fun n => slot_foldl_closeUnused fds.toList _ n
  constructor
  · intro hown n j e hkeeps hn
    have hsame := (hdup n).1 hkeeps
    by_cases hclosed : n ∈ fds.toList ∧ 2 < n
    · -- one of the run's own numbers
      obtain ⟨e', hmem⟩ := mem_pairs_fst.mp hclosed.1
      rw [(hheld n e').mpr hmem] at hn
      cases hn
      exact ⟨rfl, fun hle => by omega⟩
    · have hchild : (sp.childExec fds t).slot n = some (.pipe j e) := by
        rw [hslot, if_neg hclosed, hsame, hn]
      obtain ⟨hj, -, he⟩ := hown n j e hchild
      exact ⟨hj, fun _ => he⟩
  · intro hclean n j e hn
    rw [hslot] at hn
    split at hn
    · cases hn
    · rename_i hopen
      by_cases hkeeps : sp.Keeps n
      · rw [(hdup n).1 hkeeps] at hn
        obtain ⟨hj, he⟩ := hclean n j e hkeeps hn
        subst hj
        have hmem := mem_pairs_fst.mpr ⟨e, (hheld n e).mp hn⟩
        have hle : n ≤ 2 := by
          by_contra hhigh
          exact hopen ⟨hmem, by omega⟩
        exact ⟨rfl, hle, he hle⟩
      · obtain ⟨e', he', hslot'⟩ := (hdup n).2 hkeeps
        rw [hslot'] at hn
        cases hn
        exact ⟨rfl, Nat.le_of_not_lt fun hhigh => hkeeps (Or.inl hhigh), he'⟩

end Ends

/-! ## The invariant -/

section Invariant

variable {ι α : Type}

/-- Every run has open in the process what it says it has; and every child inherited
exactly the ends its run forked with, and has made all its calls at its exec. -/
structure Accounted (s : Threads ι α) : Prop where
  held : ∀ i, HoldsExactly i s.table (s.pc i).held
  distinct : ∀ i, ((s.pc i).held.map Prod.snd).Nodup
  inherited : ∀ i c, s.child i = some c → HoldsExactly i c.inherited c.fds.pairs
  execed : ∀ i c, s.child i = some c → c.execed = true →
    c.made = c.fds.childCalls.length

/-- The table of a child that has made all its calls. -/
theorem Accounted.ownOnly_iff {sp : ι → Subprocess} {s : Threads ι α} (h : Accounted s)
    {i : ι} {c : Child ι α}
    (hc : s.child i = some c) (hexec : c.execed = true) :
    OwnOnly i (c.table (sp i)) ↔ CleanFork (sp i) i c.inherited := by
  rw [Child.table, h.execed i c hc hexec, List.take_length, foldl_childCalls]
  exact ownOnly_childExec_iff (h.inherited i c hc)

theorem accounted_initial (t : FdTable α) : Accounted (Threads.initial t : Threads ι α) where
  held := by
    intro i n e
    simp only [Threads.initial, FdTable.slot_map, RunPc.held, List.not_mem_nil, iff_false]
    cases t.slot n <;> simp
  distinct := fun i => List.nodup_nil
  inherited := fun i c h => by simp [Threads.initial] at h
  execed := fun i c h => by simp [Threads.initial] at h

theorem mem_parentCloses {fds : RunFds} {x : Nat × PipeEnd} :
    x ∈ fds.parentCloses ↔ x ∈ fds.pairs := by
  obtain ⟨inRead, inWrite, outRead, outWrite, err⟩ := fds
  cases err with
  | none => simp [RunFds.parentCloses, RunFds.pairs]; tauto
  | some e => simp [RunFds.parentCloses, RunFds.pairs]; tauto

theorem nodup_parentCloses (fds : RunFds) : (fds.parentCloses.map Prod.snd).Nodup := by
  obtain ⟨inRead, inWrite, outRead, outWrite, err⟩ := fds
  cases err <;> simp [RunFds.parentCloses]

variable [DecidableEq ι]

theorem accounted_create {s : Threads ι α} (h : Accounted s) {i : ι}
    {readEnd writeEnd : PipeEnd} {next : Nat × Nat → RunPc}
    (hheld : ∀ created, (next created).held =
      (s.pc i).held ++ [(created.1, readEnd), (created.2, writeEnd)])
    (hdistinct : ∀ created, ((next created).held.map Prod.snd).Nodup) :
    Accounted (s.create i readEnd writeEnd next) := by
  have hpipe := pipeCreated_createPipe s.table (.pipe i readEnd) (.pipe i writeEnd)
  refine ⟨?_, ?_, h.inherited, h.execed⟩
  · intro j n e
    simp only [Threads.create]
    generalize createPipe s.table (.pipe i readEnd) (.pipe i writeEnd) = created at hpipe ⊢
    have hold := h.held j n e
    rw [hpipe.slot]
    -- the two new numbers were free, so no run had an end on them before
    by_cases hj : j = i
    · subst hj
      rw [Function.update_self, hheld, List.mem_append, ← hold]
      have hlt := hpipe.ascending
      by_cases hr : n = created.1.1
      · subst hr
        rw [if_pos rfl, hpipe.freshRead]
        simp [Nat.ne_of_lt hlt, eq_comm]
      · by_cases hw : n = created.1.2
        · subst hw
          rw [if_neg hr, if_pos rfl, hpipe.freshWrite]
          simp [Nat.ne_of_lt hlt, eq_comm]
        · rw [if_neg hr, if_neg hw]
          simp [hr, hw]
    · rw [Function.update_of_ne hj, ← hold]
      by_cases hr : n = created.1.1
      · subst hr
        rw [if_pos rfl, hpipe.freshRead]
        simp [Ne.symm hj]
      · by_cases hw : n = created.1.2
        · subst hw
          rw [if_neg hr, if_pos rfl, hpipe.freshWrite]
          simp [Ne.symm hj]
        · rw [if_neg hr, if_neg hw]
  · intro j
    simp only [Threads.create]
    by_cases hj : j = i
    · subst hj
      rw [Function.update_self]
      exact hdistinct _
    · rw [Function.update_of_ne hj]
      exact h.distinct j

theorem accounted_close {s : Threads ι α} (h : Accounted s) {i : ι} {fd : Nat} {e : PipeEnd}
    {todo : List (Nat × PipeEnd)} (hpc : s.pc i = .closing ((fd, e) :: todo)) :
    Accounted { s with table := s.table.close fd, pc := update s.pc i (.closing todo) } := by
  have hheld := h.held i
  have hdistinct := h.distinct i
  rw [hpc] at hheld hdistinct
  simp only [RunPc.held, List.map_cons, List.nodup_cons] at hheld hdistinct
  have hopen : s.table.slot fd = some (.pipe i e) := (hheld fd e).mpr (by simp)
  refine ⟨?_, ?_, h.inherited, h.execed⟩
  · intro j n e'
    rw [FdTable.slot_close]
    by_cases hj : j = i
    · subst hj
      simp only [Function.update_self, RunPc.held]
      by_cases hn : n = fd
      · subst hn
        rw [if_pos rfl]
        refine ⟨fun hnone => by simp at hnone, fun hmem => ?_⟩
        have hsame := (hheld n e').mpr (List.mem_cons_of_mem _ hmem)
        rw [hopen] at hsame
        cases hsame
        exact (hdistinct.1 (List.mem_map.mpr ⟨(n, e), hmem, rfl⟩)).elim
      · rw [if_neg hn, hheld n e', List.mem_cons]
        simp [hn]
    · simp only [Function.update_of_ne hj]
      by_cases hn : n = fd
      · subst hn
        rw [if_pos rfl, ← h.held j n e', hopen]
        simp [Ne.symm hj]
      · rw [if_neg hn]
        exact h.held j n e'
  · intro j
    by_cases hj : j = i
    · subst hj
      simp only [Function.update_self]
      exact hdistinct.2
    · simp only [Function.update_of_ne hj]
      exact h.distinct j

/-- Moving a run to a control state that holds the same ends. -/
theorem accounted_move {s : Threads ι α} (h : Accounted s) {i : ι} {pc : RunPc}
    {child : ι → Option (Child ι α)}
    (hsame : ∀ x, x ∈ pc.held ↔ x ∈ (s.pc i).held) (hdistinct : (pc.held.map Prod.snd).Nodup)
    (hinherited : ∀ j c, child j = some c → HoldsExactly j c.inherited c.fds.pairs)
    (hexeced : ∀ j c, child j = some c → c.execed = true →
      c.made = c.fds.childCalls.length) :
    Accounted { s with pc := update s.pc i pc, child := child } := by
  refine ⟨?_, ?_, hinherited, hexeced⟩
  · intro j n e
    by_cases hj : j = i
    · subst hj
      simp only [Function.update_self]
      rw [hsame]
      exact h.held j n e
    · simp only [Function.update_of_ne hj]
      exact h.held j n e
  · intro j
    by_cases hj : j = i
    · subst hj
      simpa only [Function.update_self] using hdistinct
    · simpa only [Function.update_of_ne hj] using h.distinct j

theorem child_update {s : Threads ι α} {P : ι → Child ι α → Prop} {i : ι} {c : Child ι α}
    (h : ∀ j c', s.child j = some c' → P j c') (hc : P i c) :
    ∀ j c', update s.child i (some c) j = some c' → P j c' := by
  intro j c' hc'
  by_cases hj : j = i
  · subst hj
    rw [Function.update_self] at hc'
    cases hc'
    exact hc
  · rw [Function.update_of_ne hj] at hc'
    exact h j c' hc'

theorem forks_pairs {pc : RunPc} {split : Bool} {fds : RunFds}
    (h : pc.forks split = some fds) : pc.held = fds.pairs := by
  cases pc with
  | gotOut inPipe outPipe =>
      cases split with
      | true => simp [RunPc.forks] at h
      | false => cases h; rfl
  | gotErr inPipe outPipe errPipe => cases h; rfl
  | _ => simp [RunPc.forks] at h

theorem accounted_step {sp : ι → Subprocess} {s s' : Threads ι α} {l : RunCall ι}
    (h : Accounted s) (hstep : Steps sp s l s') : Accounted s' := by
  cases stepCase_of_step hstep with
  | pipe hheld hdistinct => exact accounted_create h hheld hdistinct
  | @fork i fds hfds =>
      have hheld := forks_pairs hfds
      refine accounted_move h (fun x => ?_) (nodup_parentCloses _)
        (child_update h.inherited ?_) (child_update h.execed ?_)
      · rw [hheld]
        exact mem_parentCloses
      · have hown := h.held i
        rwa [hheld] at hown
      · intro hexec
        cases hexec
  | close hpc => exact accounted_close h hpc
  | unwind =>
      refine accounted_move h (fun x => List.mem_reverse) ?_ h.inherited h.execed
      rw [RunPc.held, List.map_reverse]
      exact (List.reverse_perm _).nodup_iff.mpr (h.distinct _)
  | @childCall i c hc hmore =>
      refine ⟨h.held, h.distinct, child_update h.inherited (h.inherited i c hc),
        child_update h.execed fun hexec => ?_⟩
      have hall := h.execed i c hc hexec
      omega
  | @exec i c hc hall =>
      exact ⟨h.held, h.distinct, child_update h.inherited (h.inherited i c hc),
        child_update h.execed fun _ => hall⟩

theorem accounted_run {sp : ι → Subprocess} {t : FdTable α} {ls : List (RunCall ι)}
    {s : Threads ι α} (hrun : Runs (Steps sp) (Threads.initial t) ls s) : Accounted s :=
  hrun.invariant (accounted_initial t) accounted_step

end Invariant

/-! ## What an exec'd child holds -/

section Execed

variable {ι α : Type} [DecidableEq ι] {sp : ι → Subprocess}

/-- Every child inherited a table without an end of another run in the way. -/
def CleanForks (sp : ι → Subprocess) (s : Threads ι α) : Prop :=
  ∀ i c, s.child i = some c → CleanFork (sp i) i c.inherited

/-- If this step is a fork, it is a clean one.  A fork leaves the table as it was, so
the table after it is the one that the child inherits. -/
def ForksClean (sp : ι → Subprocess) (l : RunCall ι) (s' : Threads ι α) : Prop :=
  ∀ i, l = .fork i → CleanFork (sp i) i s'.table

/-- A step changes nobody's table after the fork but by the child's own calls. -/
theorem child_of_step {s s' : Threads ι α} {l : RunCall ι} (hstep : Steps sp s l s') {j : ι}
    {c' : Child ι α} (hc' : s'.child j = some c') :
    (∃ c, s.child j = some c ∧ c'.inherited = c.inherited) ∨
      (l = .fork j ∧ c'.inherited = s'.table) := by
  have hold : ∀ k c, s.child k = some c →
      ∃ c₀, s.child k = some c₀ ∧ c.inherited = c₀.inherited := fun k c hc => ⟨c, hc, rfl⟩
  cases stepCase_of_step hstep with
  | @fork i fds _ =>
      have hforked : ∀ k c, s.child k = some c →
          (∃ c₀, s.child k = some c₀ ∧ c.inherited = c₀.inherited) ∨
            (RunCall.fork i = .fork k ∧ c.inherited = s.table) :=
        fun k c hc => Or.inl (hold k c hc)
      exact child_update hforked (Or.inr ⟨rfl, rfl⟩) j c' hc'
  | childCall hc _ =>
      refine Or.inl (child_update hold ?_ j c' hc')
      exact ⟨_, hc, rfl⟩
  | exec hc _ =>
      refine Or.inl (child_update hold ?_ j c' hc')
      exact ⟨_, hc, rfl⟩
  | _ => exact Or.inl (hold j c' hc')

theorem pc_of_step {s s' : Threads ι α} {l : RunCall ι} (hstep : Steps sp s l s') {j : ι}
    (hj : l.run ≠ j) : s'.pc j = s.pc j := by
  cases stepCase_of_step hstep with
  | childCall _ _ => rfl
  | exec _ _ => rfl
  | _ => exact Function.update_of_ne (Ne.symm hj) _ _

theorem cleanForks_step {s s' : Threads ι α} {l : RunCall ι} (h : CleanForks sp s)
    (hstep : Guarded (Steps sp) (ForksClean sp) s l s') : CleanForks sp s' := by
  intro j c' hc'
  rcases child_of_step hstep.1 hc' with ⟨c, hc, hsame⟩ | ⟨hfork, hsame⟩
  · rw [hsame]
    exact h j c hc
  · rw [hsame]
    exact hstep.2 j hfork

/-- In a run all of whose forks are clean, an exec'd child holds no pipe end but its
own 0, 1 and 2, and nobody but its own run holds the write end of its stdin.  In any
run, an exec'd child is like this exactly when its fork was clean. -/
theorem exec_holds_own_ends (sp : ι → Subprocess) (t : FdTable α) :
    (∀ ls s, Runs (Guarded (Steps sp) (ForksClean sp)) (Threads.initial t) ls s →
      (∀ i c, s.child i = some c → c.execed = true → OwnOnly i (c.table (sp i))) ∧
      ∀ i, (∀ n, (n, PipeEnd.inWrite) ∉ (s.pc i).held) →
        (∀ n, s.table.slot n ≠ some (.pipe i .inWrite)) ∧
        ∀ j c, s.child j = some c → c.execed = true →
          ∀ n, (c.table (sp j)).slot n ≠ some (.pipe i .inWrite)) ∧
    (∀ ls s, Runs (Steps sp) (Threads.initial t) ls s →
      ∀ i c, s.child i = some c → c.execed = true →
        (OwnOnly i (c.table (sp i)) ↔ CleanFork (sp i) i c.inherited)) := by
  constructor
  · intro ls s hrun
    have haccounted := accounted_run hrun.unguard
    have hclean : CleanForks sp s :=
      hrun.invariant (fun i c hc => by simp [Threads.initial] at hc) cleanForks_step
    have hown : ∀ i c, s.child i = some c → c.execed = true → OwnOnly i (c.table (sp i)) :=
      fun i c hc hexec => (haccounted.ownOnly_iff hc hexec).mpr (hclean i c hc)
    refine ⟨hown, fun i hclosed => ⟨fun n hn => ?_, fun j c hc hexec n hn => ?_⟩⟩
    · exact hclosed n ((haccounted.held i n .inWrite).mp hn)
    · exact (hown j c hc hexec n i .inWrite hn).2.2 rfl
  · intro ls s hrun i c hc hexec
    exact (accounted_run hrun).ownOnly_iff hc hexec

/-- A fork is clean while no other run has an end open, in a run without a descriptor
limit of its own. -/
theorem cleanFork_of_alone {s : Threads ι α} (h : Accounted s) {i : ι}
    (hlimit : (sp i).rlimitNofile ≤ 0) (halone : ∀ j, j ≠ i → (s.pc j).held = []) :
    CleanFork (sp i) i s.table := by
  intro n j e hkeeps hn
  have hj : j = i := by
    by_contra hne
    have hmem := (h.held j n e).mp hn
    rw [halone j hne] at hmem
    cases hmem
  refine ⟨hj, fun hle => ?_⟩
  rcases hkeeps with hhigh | ⟨l, hl, -⟩
  · omega
  · unfold Subprocess.childLimit at hl
    rw [if_neg (by omega)] at hl
    cases hl

/-- No run but `i` has begun, and its fork, if there was one, was clean. -/
structure Lonely (sp : ι → Subprocess) (i : ι) (s : Threads ι α) : Prop where
  accounted : Accounted s
  alone : ∀ j, j ≠ i → s.pc j = .start
  clean : CleanForks sp s

theorem lonely_step {i : ι} (hlimit : (sp i).rlimitNofile ≤ 0) {s s' : Threads ι α}
    {l : RunCall ι} (hl : l.run = i) (h : Lonely sp i s) (hstep : Steps sp s l s') :
    Lonely sp i s' ∧ ForksClean sp l s' := by
  have haccounted := accounted_step h.accounted hstep
  have halone : ∀ j, j ≠ i → s'.pc j = .start := by
    intro j hj
    rw [pc_of_step hstep (by rw [hl]; exact Ne.symm hj)]
    exact h.alone j hj
  have hforks : ForksClean sp l s' := by
    intro j hfork
    have hj : j = i := by
      rw [← hl, hfork]
      rfl
    rw [hj]
    refine cleanFork_of_alone haccounted hlimit fun k hk => ?_
    rw [halone k hk]
    rfl
  exact ⟨⟨haccounted, halone, cleanForks_step h.clean ⟨hstep, hforks⟩⟩, hforks⟩

theorem guarded_alone {i : ι} (hlimit : (sp i).rlimitNofile ≤ 0) {t : FdTable α}
    {ls : List (RunCall ι)} {s : Threads ι α}
    (hrun : Runs (Steps sp) (Threads.initial t) ls s) (halone : ∀ l ∈ ls, l.run = i) :
    Runs (Guarded (Steps sp) (ForksClean sp)) (Threads.initial t) ls s := by
  have hinit : Lonely sp i (Threads.initial t : Threads ι α) :=
    ⟨accounted_initial t, fun _ _ => rfl, fun j c hc => by simp [Threads.initial] at hc⟩
  exact (hrun.guard_of (fun l => l.run = i) hinit halone fun hl h hstep =>
    lonely_step hlimit hl h hstep).1

/-- Two runs with the defaults. -/
def plainRuns : Bool → Subprocess := fun _ => .ofProgram []

/-- A process with its three standard descriptors, before any run. -/
def beforeRuns : Threads Bool Unit := .initial (.ofList [(), (), ()])

/-- The calls of a run up to its fork. -/
def toFork (i : Bool) : List (RunCall Bool) := [.pipe i, .pipe i, .fork i]

/-- The calls of its child up to the exec. -/
def toExec (i : Bool) : List (RunCall Bool) := List.replicate 7 (.childCall i) ++ [.exec i]

/-- A list of calls that can be played up to a child of `i` is a run. -/
theorem play_child {ls : List (RunCall Bool)} {i : Bool} {P : Child Bool Unit → Bool}
    (h : ((ls.foldlM (Threads.step plainRuns) beforeRuns).bind
      fun s => s.child i).any P = true) :
    ∃ s c, Runs (Steps plainRuns) beforeRuns ls s ∧ s.child i = some c ∧ P c = true := by
  obtain ⟨c, hc, hP⟩ := (Option.any_eq_true _ _).mp h
  obtain ⟨s, hs, hchild⟩ := Option.bind_eq_some_iff.mp hc
  exact ⟨s, c, Runs.of_foldlM _ hs, hchild, hP⟩

/-- The second run makes no call before the child of the first one has called exec. -/
theorem exec_holds_own_ends_alone :
    ∃ ls s c, Runs (Guarded (Steps plainRuns) (ForksClean plainRuns)) beforeRuns ls s ∧
      s.child false = some c ∧ c.execed = true ∧ OwnOnly false (c.table (plainRuns false)) := by
  obtain ⟨s, c, hrun, hchild, hexec⟩ := @play_child (toFork false ++ toExec false) false
    Child.execed (by decide)
  have hlimit : (plainRuns false).rlimitNofile ≤ 0 := by decide
  have hguarded := guarded_alone hlimit hrun (by decide)
  exact ⟨_, s, c, hguarded, hchild, hexec,
    ((exec_holds_own_ends plainRuns (.ofList [(), (), ()])).1 _ s hguarded).1 false c hchild
      hexec⟩

/-- The first run has made its pipes when the second one forks: the second child
execs with the write end of the first one's stdin on descriptor 4. -/
theorem foreign_end_leaks :
    ∃ ls s c, Runs (Steps plainRuns) beforeRuns ls s ∧ s.child true = some c ∧
      c.execed = true ∧ (c.table (plainRuns true)).slot 4 = some (.pipe false .inWrite) ∧
      ¬ OwnOnly true (c.table (plainRuns true)) := by
  obtain ⟨s, c, hrun, hchild, hend⟩ :=
    @play_child ([.pipe false, .pipe false] ++ toFork true ++ toExec true) true
      (fun c => c.execed &&
        decide ((c.table (plainRuns true)).slot 4 = some (.pipe false .inWrite)))
      (by decide)
  rw [Bool.and_eq_true, decide_eq_true_eq] at hend
  refine ⟨_, s, c, hrun, hchild, hend.1, hend.2, fun hown => ?_⟩
  have hsame := (hown 4 false .inWrite hend.2).1
  cases hsame

end Execed

end Ftl.Process
