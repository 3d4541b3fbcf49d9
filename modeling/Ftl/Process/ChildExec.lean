/-
  Process/ChildExec.lean --- the descriptors of the child, from pipe() to exec.

  Embedded source: the pipe creation of `Subprocess::run` and the dup2/close
  sequence of `Subprocess::child_exec` (ftl/process/subprocess.hpp), and the same
  two pieces of `ftl_run_command` (ftl/ftl.h).

  The pipe ends may land on 0, 1 or 2 themselves.  The C++ runner closes only the
  numbers above 2 once it has duplicated them; the C runner closes all of them.

      child_layout        the layout of the C++ child, for every table of the caller
      c_child_layout_iff  the layout of the C child is right exactly when the
                          caller has 0, 1 and 2 open
-/
import Ftl.Foundation.FdTable
import Ftl.Process.RunCommand
import Ftl.Process.Subprocess

set_option autoImplicit false

namespace Ftl.Process

open Foundation (FdTable)

/-! ## Pipe ends -/

/-- The pipe ends of one run. -/
inductive PipeEnd where
  | inRead
  | inWrite
  | outRead
  | outWrite
  | errRead
  | errWrite
  deriving DecidableEq, Repr

/-- What a descriptor may be open on: something of the caller's, or a pipe end of
this run. -/
inductive Object (α : Type) where
  | caller (a : α)
  | own (e : PipeEnd)
  deriving DecidableEq, Repr

/-- The numbers of the pipe ends.  `err` is there only with `split_output_`. -/
structure RunFds where
  inRead : Nat
  inWrite : Nat
  outRead : Nat
  outWrite : Nat
  err : Option (Nat × Nat)

namespace RunFds

/-- The numbers, in the order in which `child_exec` closes them. -/
def toList (fds : RunFds) : List Nat :=
  [fds.inRead, fds.inWrite, fds.outRead, fds.outWrite] ++
    match fds.err with
    | some (errRead, errWrite) => [errRead, errWrite]
    | none => []

/-- The number that becomes descriptor 2. -/
def stderrSource (fds : RunFds) : Nat :=
  match fds.err with
  | some (_, errWrite) => errWrite
  | none => fds.outWrite

end RunFds

section Tables

variable {β : Type}

/-- `Pipe::create()`: the two lowest free numbers, the read end first. -/
def createPipe (t : FdTable β) (readEnd writeEnd : β) : (Nat × Nat) × FdTable β :=
  ((t.lowestFree, (t.alloc readEnd).lowestFree), (t.alloc readEnd).alloc writeEnd)

/-- The pipes of `run()`, on a table where an end `e` is the object `ends e`. -/
def openPipes (split : Bool) (ends : PipeEnd → β) (t : FdTable β) : RunFds × FdTable β :=
  let inPipe := createPipe t (ends .inRead) (ends .inWrite)
  let outPipe := createPipe inPipe.2 (ends .outRead) (ends .outWrite)
  if split then
    let errPipe := createPipe outPipe.2 (ends .errRead) (ends .errWrite)
    (⟨inPipe.1.1, inPipe.1.2, outPipe.1.1, outPipe.1.2, some errPipe.1⟩, errPipe.2)
  else (⟨inPipe.1.1, inPipe.1.2, outPipe.1.1, outPipe.1.2, none⟩, outPipe.2)

/-! ## The child's sequence of calls -/

/-- `close_unused` of `child_exec`: only above `STDERR_FILENO`. -/
def closeUnused (t : FdTable β) (fd : Nat) : FdTable β :=
  if 2 < fd then t.close fd else t

/-- The three `dup2` calls that both runners make. -/
def dupStandard (limit : Option Nat) (fds : RunFds) (t : FdTable β) : FdTable β :=
  ((t.dup2 limit fds.inRead 0).dup2 limit fds.outWrite 1).dup2 limit fds.stderrSource 2

/-- The descriptor limit in the child: `setrlimit` is called for a positive
`rlimit_nofile_`. -/
def Subprocess.childLimit (sp : Subprocess) : Option Nat :=
  if 0 < sp.rlimitNofile then some sp.rlimitNofile.toNat else none

/-- The calls of `child_exec` up to the exec. -/
def Subprocess.childExec (sp : Subprocess) (fds : RunFds) (t : FdTable β) : FdTable β :=
  fds.toList.foldl closeUnused (dupStandard sp.childLimit fds t)

/-- The calls of the child branch of `ftl_run_command` up to the exec. -/
def CCommand.childExec (fds : RunFds) (t : FdTable β) : FdTable β :=
  fds.toList.foldl FdTable.close (dupStandard none fds t)

/-! ## What the calls do -/

/-- The numbers are in the order of allocation. -/
structure RunFds.Ascending (fds : RunFds) : Prop where
  inPipe : fds.inRead < fds.inWrite
  between : fds.inWrite < fds.outRead
  outPipe : fds.outRead < fds.outWrite
  errPipe : ∀ e ∈ fds.err, fds.outWrite < e.1 ∧ e.1 < e.2

/-- The end that a number of the run is open on. -/
def RunFds.endAt (fds : RunFds) (n : Nat) : Option PipeEnd :=
  if n = fds.inRead then some .inRead
  else if n = fds.inWrite then some .inWrite
  else if n = fds.outRead then some .outRead
  else if n = fds.outWrite then some .outWrite
  else
    match fds.err with
    | some (errRead, errWrite) =>
        if n = errRead then some .errRead
        else if n = errWrite then some .errWrite
        else none
    | none => none

theorem RunFds.endAt_eq_none_iff (fds : RunFds) (n : Nat) :
    fds.endAt n = none ↔ n ∉ fds.toList := by
  unfold endAt toList
  cases fds.err with
  | none => grind
  | some e => grind

/-- The table of `t` with the ends of `fds` opened in it. -/
structure Opened (ends : PipeEnd → β) (t : FdTable β) (fds : RunFds) (t' : FdTable β) :
    Prop where
  ascending : fds.Ascending
  lowest : fds.inRead = t.lowestFree
  fresh : ∀ n ∈ fds.toList, t.slot n = none
  slot : ∀ n, t'.slot n =
    match fds.endAt n with
    | some e => some (ends e)
    | none => t.slot n

/-- What one `pipe()` does to the table. -/
structure PipeCreated (t : FdTable β) (readEnd writeEnd : β)
    (fds : Nat × Nat) (t' : FdTable β) : Prop where
  lowest : fds.1 = t.lowestFree
  ascending : fds.1 < fds.2
  next : fds.2 < t'.lowestFree
  freshRead : t.slot fds.1 = none
  freshWrite : t.slot fds.2 = none
  slot : ∀ n, t'.slot n =
    if n = fds.1 then some readEnd else if n = fds.2 then some writeEnd else t.slot n

theorem pipeCreated_createPipe (t : FdTable β) (readEnd writeEnd : β) :
    PipeCreated t readEnd writeEnd (createPipe t readEnd writeEnd).1
      (createPipe t readEnd writeEnd).2 where
  lowest := rfl
  ascending := t.lowestFree_lt_alloc readEnd
  next := (t.alloc readEnd).lowestFree_lt_alloc writeEnd
  freshRead := t.slot_lowestFree
  freshWrite := FdTable.slot_eq_none_of_alloc (t.alloc readEnd).slot_lowestFree
  slot := by
    intro n
    have hlt := t.lowestFree_lt_alloc readEnd
    rw [createPipe, FdTable.slot_alloc, FdTable.slot_alloc]
    by_cases hread : n = t.lowestFree
    · rw [if_neg (by omega), if_pos hread, if_pos hread]
    · rw [if_neg hread, if_neg hread]

theorem PipeCreated.fresh {t t' : FdTable β} {readEnd writeEnd : β} {fds : Nat × Nat}
    (h : PipeCreated t readEnd writeEnd fds t') {n : Nat} (hfree : t'.slot n = none) :
    t.slot n = none := by
  rw [h.slot] at hfree
  split at hfree
  · cases hfree
  · split at hfree
    · cases hfree
    · exact hfree

theorem opened_openPipes (split : Bool) (ends : PipeEnd → β) (t : FdTable β) :
    Opened ends t (openPipes split ends t).1 (openPipes split ends t).2 ∧
      (openPipes split ends t).1.err.isSome = split := by
  simp only [openPipes]
  have hin := pipeCreated_createPipe t (ends .inRead) (ends .inWrite)
  generalize createPipe t (ends .inRead) (ends .inWrite) = inPipe at hin ⊢
  have hout := pipeCreated_createPipe inPipe.2 (ends .outRead) (ends .outWrite)
  generalize createPipe inPipe.2 (ends .outRead) (ends .outWrite) = outPipe at hout ⊢
  have herr := pipeCreated_createPipe outPipe.2 (ends .errRead) (ends .errWrite)
  generalize createPipe outPipe.2 (ends .errRead) (ends .errWrite) = errPipe at herr ⊢
  have hbetween : inPipe.1.2 < outPipe.1.1 := hout.lowest ▸ hin.next
  have hafter : outPipe.1.2 < errPipe.1.1 := herr.lowest ▸ hout.next
  have h1 := hin.ascending
  have h2 := hout.ascending
  have h3 := herr.ascending
  cases split with
  | true =>
      refine ⟨⟨⟨h1, hbetween, h2, ?_⟩, hin.lowest, ?_, ?_⟩, rfl⟩
      · rintro e he
        cases he
        exact ⟨hafter, h3⟩
      · simp only [if_true, RunFds.toList, List.cons_append, List.nil_append, List.mem_cons,
          List.not_mem_nil, or_false, forall_eq_or_imp, forall_eq]
        exact ⟨hin.freshRead, hin.freshWrite, hin.fresh hout.freshRead,
          hin.fresh hout.freshWrite, hin.fresh (hout.fresh herr.freshRead),
          hin.fresh (hout.fresh herr.freshWrite)⟩
      · intro n
        simp only [if_true, RunFds.endAt, herr.slot, hout.slot, hin.slot]
        grind
  | false =>
      refine ⟨⟨⟨h1, hbetween, h2, by simp⟩, hin.lowest, ?_, ?_⟩, rfl⟩
      · simp only [Bool.false_eq_true, if_false, RunFds.toList, List.append_nil, List.mem_cons,
          List.not_mem_nil, or_false, forall_eq_or_imp, forall_eq]
        exact ⟨hin.freshRead, hin.freshWrite, hin.fresh hout.freshRead,
          hin.fresh hout.freshWrite⟩
      · intro n
        simp only [Bool.false_eq_true, if_false, RunFds.endAt, hout.slot, hin.slot]
        grind

/-- The end that becomes descriptor 2. -/
def stderrEnd (split : Bool) : PipeEnd := if split then .errWrite else .outWrite

/-- The sources of the `dup2` calls are the ends they should be. -/
theorem RunFds.Ascending.endAt_sources {fds : RunFds} (h : fds.Ascending) :
    fds.endAt fds.inRead = some .inRead ∧ fds.endAt fds.outWrite = some .outWrite ∧
      fds.endAt fds.stderrSource = some (stderrEnd fds.err.isSome) := by
  obtain ⟨inRead, inWrite, outRead, outWrite, err⟩ := fds
  obtain ⟨h1, h2, h3, h4⟩ := h
  cases err with
  | none =>
      simp only [endAt, stderrSource, stderrEnd, Option.isSome_none]
      grind
  | some e =>
      simp only [endAt, stderrSource, stderrEnd, Option.isSome_some]
      grind

/-- The sources of the second and third `dup2` are at least the fourth number. -/
theorem RunFds.Ascending.sources_high {fds : RunFds} (h : fds.Ascending) :
    3 ≤ fds.outWrite ∧ 3 ≤ fds.stderrSource := by
  obtain ⟨inRead, inWrite, outRead, outWrite, err⟩ := fds
  obtain ⟨h1, h2, h3, h4⟩ := h
  cases err with
  | none =>
      simp only [stderrSource] at *
      omega
  | some e =>
      have h5 := h4 e rfl
      simp only [stderrSource] at *
      omega

/-- After the `dup2` calls 0, 1 and 2 are as they should be, and nothing above 2 has
changed. -/
theorem slot_dupStandard {limit : Option Nat} {ends : PipeEnd → β} {t t' : FdTable β}
    {fds : RunFds} (hopened : Opened ends t fds t') (hlimit : ∀ l ∈ limit, 3 ≤ l) (n : Nat) :
    (dupStandard limit fds t').slot n =
      if n = 0 then some (ends .inRead)
      else if n = 1 then some (ends .outWrite)
      else if n = 2 then some (ends (stderrEnd fds.err.isSome))
      else t'.slot n := by
  have hlt : ∀ m < 3, ∀ l ∈ limit, m < l := fun m hm l hl =>
    Nat.lt_of_lt_of_le hm (hlimit l hl)
  obtain ⟨hendIn, hendOut, hendErr⟩ := hopened.ascending.endAt_sources
  obtain ⟨hhighOut, hhighErr⟩ := hopened.ascending.sources_high
  have hin : t'.slot fds.inRead = some (ends .inRead) := by
    rw [hopened.slot, hendIn]
  have hout : t'.slot fds.outWrite = some (ends .outWrite) := by
    rw [hopened.slot, hendOut]
  have herr : t'.slot fds.stderrSource = some (ends (stderrEnd fds.err.isSome)) := by
    rw [hopened.slot, hendErr]
  -- the sources of the second and third call are not 0 or 1
  have hs0 := FdTable.slot_dup2 hin (hlt 0 (by omega))
  have hout' : (t'.dup2 limit fds.inRead 0).slot fds.outWrite = some (ends .outWrite) := by
    rw [hs0, if_neg (by omega), hout]
  have hs1 := FdTable.slot_dup2 hout' (hlt 1 (by omega))
  have herr' : ((t'.dup2 limit fds.inRead 0).dup2 limit fds.outWrite 1).slot
      fds.stderrSource = some (ends (stderrEnd fds.err.isSome)) := by
    rw [hs1, if_neg (by omega), hs0, if_neg (by omega), herr]
  have hs2 := FdTable.slot_dup2 herr' (hlt 2 (by omega))
  rw [dupStandard, hs2, hs1, hs0]
  grind

theorem slot_closeUnused (t : FdTable β) (fd n : Nat) :
    (closeUnused t fd).slot n = if n = fd ∧ 2 < n then none else t.slot n := by
  unfold closeUnused
  split
  · rw [FdTable.slot_close]
    grind
  · grind

theorem slot_foldl_closeUnused (l : List Nat) (t : FdTable β) (n : Nat) :
    (l.foldl closeUnused t).slot n = if n ∈ l ∧ 2 < n then none else t.slot n := by
  induction l generalizing t with
  | nil => simp
  | cons fd l ih =>
      rw [List.foldl_cons, ih, slot_closeUnused]
      grind

theorem slot_foldl_close (l : List Nat) (t : FdTable β) (n : Nat) :
    (l.foldl FdTable.close t).slot n = if n ∈ l then none else t.slot n := by
  induction l generalizing t with
  | nil => simp
  | cons fd l ih =>
      rw [List.foldl_cons, ih, FdTable.slot_close]
      grind

/-- What `child_exec` leaves: the three standard descriptors, and above 2 what was
open before the pipes were. -/
theorem Subprocess.slot_childExec {sp : Subprocess} {ends : PipeEnd → β} {t t' : FdTable β}
    {fds : RunFds} (hopened : Opened ends t fds t')
    (hlimit : sp.rlimitNofile ≤ 0 ∨ 3 ≤ sp.rlimitNofile) (n : Nat) :
    (sp.childExec fds t').slot n =
      if n = 0 then some (ends .inRead)
      else if n = 1 then some (ends .outWrite)
      else if n = 2 then some (ends (stderrEnd fds.err.isSome))
      else if n ∈ fds.toList then none
      else t.slot n := by
  have hthree : ∀ l ∈ sp.childLimit, 3 ≤ l := by
    intro l hl
    unfold childLimit at hl
    split at hl
    · cases hl
      omega
    · cases hl
  rw [childExec, slot_foldl_closeUnused, slot_dupStandard hopened hthree]
  by_cases hn : n ∈ fds.toList
  · by_cases hhigh : 2 < n
    · rw [if_pos ⟨hn, hhigh⟩, if_neg (by omega), if_neg (by omega), if_neg (by omega),
        if_pos hn]
    · rw [if_neg (fun h => hhigh h.2)]
      by_cases h0 : n = 0
      · rw [if_pos h0, if_pos h0]
      · by_cases h1 : n = 1
        · rw [if_neg h0, if_pos h1, if_neg h0, if_pos h1]
        · have h2 : n = 2 := by omega
          rw [if_neg h0, if_neg h1, if_pos h2, if_neg h0, if_neg h1, if_pos h2]
  · have hkept : t'.slot n = t.slot n := by
      rw [hopened.slot, (fds.endAt_eq_none_iff n).mpr hn]
    rw [if_neg (fun h => hn h.1), if_neg hn, hkept]

theorem CCommand.slot_childExec {ends : PipeEnd → β} {t t' : FdTable β} {fds : RunFds}
    (hopened : Opened ends t fds t') (n : Nat) :
    (CCommand.childExec fds t').slot n =
      if n ∈ fds.toList then none
      else if n = 0 then some (ends .inRead)
      else if n = 1 then some (ends .outWrite)
      else if n = 2 then some (ends (stderrEnd fds.err.isSome))
      else t.slot n := by
  rw [childExec, slot_foldl_close, slot_dupStandard hopened (by simp)]
  by_cases hn : n ∈ fds.toList
  · rw [if_pos hn, if_pos hn]
  · have hkept : t'.slot n = t.slot n := by
      rw [hopened.slot, (fds.endAt_eq_none_iff n).mpr hn]
    rw [if_neg hn, if_neg hn, hkept]

end Tables

/-! ## The two layouts -/

section Layouts

variable {α : Type}

/-- The table of the C++ child at its exec, for a caller with the table `t`. -/
def Subprocess.childTable (sp : Subprocess) (t : FdTable α) : FdTable (Object α) :=
  let opened := openPipes sp.splitOutput Object.own (t.map Object.caller)
  sp.childExec opened.1 opened.2

/-- The table of the C child at its exec. -/
def CCommand.childTable (t : FdTable α) : FdTable (Object α) :=
  let opened := openPipes false Object.own (t.map Object.caller)
  CCommand.childExec opened.1 opened.2

theorem slot_caller_ne_own (t : FdTable α) (n : Nat) (e : PipeEnd) :
    (t.map Object.caller).slot n ≠ some (.own e) := by
  rw [FdTable.slot_map]
  cases t.slot n <;> simp

/-- For every table of the caller: 0, 1 and 2 are the ends they should be, no other
descriptor is a pipe end of this run, and what the caller had open above 2 is
still there.  `setrlimit` comes first, and under a limit of 1 or 2 descriptors `dup2` onto 1 or
2 fails. -/
theorem child_layout (sp : Subprocess) (t : FdTable α)
    (hlimit : sp.rlimitNofile ≤ 0 ∨ 3 ≤ sp.rlimitNofile) :
    (sp.childTable t).slot 0 = some (.own .inRead) ∧
    (sp.childTable t).slot 1 = some (.own .outWrite) ∧
    (sp.childTable t).slot 2 =
      some (.own (if sp.splitOutput then .errWrite else .outWrite)) ∧
    (∀ n e, 2 < n → (sp.childTable t).slot n ≠ some (.own e)) ∧
    (∀ n a, 2 < n → t.slot n = some a → (sp.childTable t).slot n = some (.caller a)) := by
  obtain ⟨hopened, hsplit⟩ :=
    opened_openPipes sp.splitOutput Object.own (t.map Object.caller)
  have hslot : ∀ n, (sp.childTable t).slot n = _ :=
    Subprocess.slot_childExec hopened hlimit
  refine ⟨?_, ?_, ?_, ?_, ?_⟩
  · rw [hslot, if_pos rfl]
  · rw [hslot, if_neg (by omega), if_pos rfl]
  · rw [hslot, if_neg (by omega), if_neg (by omega), if_pos rfl, hsplit]
    rfl
  · intro n e hn
    rw [hslot, if_neg (by omega), if_neg (by omega), if_neg (by omega)]
    split
    · simp
    · exact slot_caller_ne_own t n e
  · intro n a hn ha
    have hcaller : (t.map Object.caller).slot n = some (.caller a) := by
      rw [FdTable.slot_map, ha, Option.map_some]
    rw [hslot, if_neg (by omega), if_neg (by omega), if_neg (by omega), if_neg, hcaller]
    intro hmem
    rw [hopened.fresh n hmem] at hcaller
    cases hcaller

/-- A caller with all three standard descriptors closed and descriptor 3 open. -/
def daemonTable : FdTable Unit := (((FdTable.ofList [(), (), (), ()]).close 0).close 1).close 2

theorem child_layout_daemon :
    ((Subprocess.ofProgram []).childTable daemonTable).slot 0 = some (.own .inRead) ∧
      ((Subprocess.ofProgram []).childTable daemonTable).slot 3 = some (.caller ()) := by
  have h := child_layout (.ofProgram []) daemonTable (Or.inl (by decide))
  exact ⟨h.1, h.2.2.2.2 3 () (by decide) (by decide)⟩

/-- The layout the C runner is after: the ends of its two pipes on 0, 1 and 2 and
nowhere else. -/
def CCommand.Layout (child : FdTable (Object α)) : Prop :=
  child.slot 0 = some (.own .inRead) ∧ child.slot 1 = some (.own .outWrite) ∧
    child.slot 2 = some (.own .outWrite) ∧ ∀ n e, 2 < n → child.slot n ≠ some (.own e)

/-- The layout of the C child is right exactly when the caller has its three standard
descriptors open: otherwise a pipe end lands on one of them and is closed after it
has been duplicated. -/
theorem c_child_layout_iff (t : FdTable α) :
    CCommand.Layout (CCommand.childTable t) ↔
      t.isOpen 0 = true ∧ t.isOpen 1 = true ∧ t.isOpen 2 = true := by
  obtain ⟨hopened, hsplit⟩ := opened_openPipes false Object.own (t.map Object.caller)
  have hslot : ∀ n, (CCommand.childTable t).slot n = _ := CCommand.slot_childExec hopened
  have hopen : ∀ n, t.isOpen n = ((t.map Object.caller).slot n).isSome := by
    intro n
    rw [FdTable.isOpen, FdTable.slot_map, Option.isSome_map]
  generalize (openPipes false Object.own (t.map Object.caller)).1 = fds at *
  have hlowest := hopened.lowest
  have hmem : fds.inRead ∈ fds.toList := by simp [RunFds.toList]
  constructor
  · rintro ⟨h0, h1, h2, -⟩
    -- a number that has been closed is open on nothing, so `inRead` is above 2
    have hkept : ∀ n e, (CCommand.childTable t).slot n = some (.own e) → n ≠ fds.inRead := by
      rintro n e hn rfl
      rw [hslot, if_pos hmem] at hn
      cases hn
    have hne0 := hkept 0 _ h0
    have hne1 := hkept 1 _ h1
    have hne2 := hkept 2 _ h2
    rw [hopen, hopen, hopen]
    exact ⟨FdTable.isSome_of_lt_lowestFree (by omega),
      FdTable.isSome_of_lt_lowestFree (by omega),
      FdTable.isSome_of_lt_lowestFree (by omega)⟩
  · rintro ⟨h0, h1, h2⟩
    rw [hopen] at h0 h1 h2
    have hlow : ∀ n, n ∈ fds.toList → 2 < n := by
      intro n hn
      have hfresh := hopened.fresh n hn
      by_contra hle
      have hcases : n = 0 ∨ n = 1 ∨ n = 2 := by omega
      rcases hcases with rfl | rfl | rfl
      · rw [hfresh] at h0
        cases h0
      · rw [hfresh] at h1
        cases h1
      · rw [hfresh] at h2
        cases h2
    have hclosed : ∀ n, n ≤ 2 → n ∉ fds.toList := fun n hn hmem' => by
      have := hlow n hmem'
      omega
    refine ⟨?_, ?_, ?_, ?_⟩
    · rw [hslot, if_neg (hclosed 0 (by omega)), if_pos rfl]
    · rw [hslot, if_neg (hclosed 1 (by omega)), if_neg (by omega), if_pos rfl]
    · rw [hslot, if_neg (hclosed 2 (by omega)), if_neg (by omega), if_neg (by omega),
        if_pos rfl, hsplit]
      rfl
    · intro n e hn
      rw [hslot]
      split
      · simp
      · rw [if_neg (by omega), if_neg (by omega), if_neg (by omega)]
        exact slot_caller_ne_own t n e

/-- With descriptor 0 closed in the caller, the child of the C runner has no stdin. -/
theorem c_child_layout_closed_stdin :
    (CCommand.childTable ((FdTable.ofList [(), (), ()]).close 0)).slot 0 = none ∧
      ¬ CCommand.Layout (CCommand.childTable ((FdTable.ofList [(), (), ()]).close 0)) := by
  have hclosed : (CCommand.childTable ((FdTable.ofList [(), (), ()]).close 0)).slot 0 =
      none := by
    decide
  refine ⟨hclosed, ?_⟩
  rintro ⟨hstdin, -⟩
  rw [hclosed] at hstdin
  cases hstdin

end Layouts

end Ftl.Process
