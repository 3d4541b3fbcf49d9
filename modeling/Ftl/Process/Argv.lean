/-
  Process/Argv.lean --- the argument vector that the new program is given.

  Embedded source: the building of `argv` in the child branch of `ftl_run_command`
  (ftl/ftl.h), and in `Subprocess::child_exec` (ftl/process/subprocess.hpp).

  The C child counts the caller's pointers up to the NULL, allocates one cell more and copies
  them.  The C++ child pushes a pointer for each `std::string`, whose text ends at its first
  NUL.  The new program reads the vector up to the NULL.

      handed_of_null   what the C child builds from an array with a NULL
      argv_iff         it stays within the caller's array and its own block exactly when there
                       is a NULL; the C++ child hands its strings on exactly when none has a
                       NUL inside
-/
import Ftl.Foundation.Heap
import Ftl.Process.ChildFailure

set_option autoImplicit false

namespace Ftl.Process

open Foundation (Heap Finish)

/-! ## The code -/

/-- Cells with pointers to strings; NULL is `none`. -/
abbrev Pointers : Type := List (Option CString)

/-- `while (args[argc - 1]) ++argc;`.  There is no answer if it reads behind the array. -/
def countArgs (args : Pointers) (argc : Nat) : Option Nat :=
  match hcell : args[argc - 1]? with
  | none => none
  | some none => some argc
  | some (some _) => countArgs args (argc + 1)
termination_by args.length + 1 - argc
decreasing_by
  have hin := (List.getElem?_eq_some_iff.mp hcell).1
  omega

/-- `for (i = 1; i < argc; ++i) argv[i] = args[i - 1];` from `i` on. -/
def copyArgs (args : Pointers) (argv argc i : Nat) (h : Heap (Option CString)) :
    Option (Heap (Option CString)) :=
  if i < argc then do
    let arg ← args[i - 1]?
    let h ← h.store argv i [arg]
    copyArgs args argv argc (i + 1) h
  else some h
termination_by argc - i

/-- How the C child comes out of the building of `argv`. -/
inductive Built where
  /-- `_exit(127)` -/
  | exited
  /-- on to `execvp(program, argv)` -/
  | vector (argv : Nat) (heap : Heap (Option CString))

/-- The building of `argv` in the child of `ftl_run_command`. -/
def cBuildArgv (h : Heap (Option CString)) (program : CString) (args : Option Pointers)
    (granted : Bool) : Option Built := do
  let argc ← args.elim (some 1) fun args => countArgs args 1
  match h.calloc none (argc + 1) granted with
  | (none, _) => some .exited
  | (some argv, h) =>
      let h ← h.store argv 0 [some program]
      let h ← copyArgs (args.getD []) argv argc 1 h
      let h ← h.store argv argc [none]
      some (.vector argv h)

/-- The strings before the NULL. -/
def beforeNull : Pointers → List CString
  | some s :: rest => s :: beforeNull rest
  | _ => []

/-- The strings that the caller names. -/
def namedArgs (args : Option Pointers) : List CString := args.elim [] beforeNull

/-- What a new program reads from cells: there is no answer if they have no NULL. -/
def readArgv : List (Option (Option CString)) → Option (List CString)
  | some none :: _ => some []
  | some (some s) :: rest => (readArgv rest).map (s :: ·)
  | _ => none

/-! ## The C child -/

/-- The cells of the array up to its NULL. -/
structure Names (args : Pointers) (names : List CString) : Prop where
  name : ∀ i (hi : i < names.length), args[i]? = some (some names[i])
  null : args[names.length]? = some none

theorem names_of_null {args : Pointers} (h : none ∈ args) : Names args (beforeNull args) := by
  induction args with
  | nil => cases h
  | cons arg args ih =>
      cases arg with
      | none => exact ⟨fun i hi => absurd hi (Nat.not_lt_zero i), rfl⟩
      | some s =>
          have hrest := ih (by simpa using h)
          refine ⟨fun i hi => ?_, hrest.null⟩
          cases i with
          | zero => rfl
          | succ i => exact hrest.name i (Nat.lt_of_succ_lt_succ hi)

theorem countArgs_of_names {args : Pointers} {names : List CString} (hargs : Names args names)
    (argc : Nat) (hpos : 0 < argc) (hle : argc ≤ names.length + 1) :
    countArgs args argc = some (names.length + 1) := by
  -- the cell that is read holds a string, or is the one with the NULL
  have hread : ∀ {argc}, 0 < argc → argc ≤ names.length + 1 →
      (∃ s, argc ≤ names.length ∧ args[argc - 1]? = some (some s)) ∨
        argc = names.length + 1 ∧ args[argc - 1]? = some none := by
    intro argc hpos hle
    rcases Nat.lt_or_ge (argc - 1) names.length with hin | hlast
    · exact .inl ⟨names[argc - 1], by omega, hargs.name (argc - 1) hin⟩
    · have hsame : argc = names.length + 1 := by omega
      exact .inr ⟨hsame, by rw [hsame]; exact hargs.null⟩
  fun_induction countArgs args argc with
  | case1 argc hcell =>
      rcases hread hpos hle with ⟨s, -, hs⟩ | ⟨-, hnull⟩
      · rw [hcell] at hs
        cases hs
      · rw [hcell] at hnull
        cases hnull
  | case2 argc hcell =>
      rcases hread hpos hle with ⟨s, -, hs⟩ | ⟨hsame, -⟩
      · rw [hcell] at hs
        cases hs
      · rw [hsame]
  | case3 argc name hcell ih =>
      rcases hread hpos hle with ⟨s, hin, -⟩ | ⟨-, hnull⟩
      · exact ih (Nat.succ_pos argc) (Nat.succ_le_succ hin)
      · rw [hcell] at hnull
        cases hnull

theorem countArgs_of_not_mem {args : Pointers} (h : none ∉ args) (argc : Nat) :
    countArgs args argc = none := by
  fun_induction countArgs args argc with
  | case1 argc hcell => rfl
  | case2 argc hcell => exact (h (List.mem_of_getElem? hcell)).elim
  | case3 argc name hcell ih => exact ih

/-- What has been copied, if the block has room for it. -/
theorem copyArgs_spec {args : Pointers} {names : List CString}
    (hargs : ∀ i (hi : i < names.length), args[i]? = some (some names[i])) {argv size : Nat}
    {program : CString} (hsize : names.length + 1 ≤ size) (i : Nat) (h : Heap (Option CString))
    (hpos : 0 < i) (hle : i ≤ names.length + 1)
    (hholds : h.Holds argv size (((program :: names).take i).map some)) :
    ∃ h', copyArgs args argv (names.length + 1) i h = some h' ∧
      h'.Holds argv size ((program :: names).map some) ∧
      ∀ p, p ≠ argv → h'.block p = h.block p := by
  induction hk : names.length + 1 - i generalizing i h with
  | zero =>
      have hall : i = names.length + 1 := by omega
      rw [hall, List.take_of_length_le (by simp)] at hholds
      unfold copyArgs
      rw [if_neg (by omega)]
      exact ⟨h, rfl, hholds, fun _ _ => rfl⟩
  | succ k ih =>
      have hin : i - 1 < names.length := by omega
      have hlength : (((program :: names).take i).map some).length = i := by
        rw [List.length_map, List.length_take, List.length_cons]
        omega
      have hroom : (((program :: names).take i).map some).length + [some names[i - 1]].length ≤
          size := by
        rw [hlength, List.length_singleton]
        omega
      obtain ⟨h₁, hstore, hholds₁, -⟩ := hholds.store hroom
      rw [hlength] at hstore
      have hnext : ((program :: names).take i).map some ++ [some names[i - 1]] =
          ((program :: names).take (i + 1)).map some := by
        have hnamed : (program :: names)[i]? = some names[i - 1] := by
          rw [List.getElem?_cons, if_neg (by omega), List.getElem?_eq_getElem hin]
        rw [List.take_add_one, hnamed, List.map_append]
        rfl
      rw [hnext] at hholds₁
      obtain ⟨h₂, hcopy, hholds₂, hframe⟩ := ih (i + 1) h₁ (by omega) (by omega) hholds₁ (by omega)
      refine ⟨h₂, ?_, hholds₂, fun p hp => ?_⟩
      · unfold copyArgs
        rw [if_pos (by omega), hargs (i - 1) hin]
        simp only [Option.bind_eq_bind, Option.bind_some, hstore, hcopy]
      · rw [hframe p hp, Heap.block_store hstore hp]

theorem readArgv_vector (names : List CString) :
    readArgv ((names.map some ++ [none]).map some) = some names := by
  induction names with
  | nil => rfl
  | cons s names ih =>
      simp only [List.map_cons, List.cons_append, readArgv, ih, Option.map_some]

/-- What the C child has built for the arguments `names`. -/
structure Handed (h : Heap (Option CString)) (program : CString) (names : List CString)
    (granted : Bool) (built : Built) : Prop where
  /-- without memory it exits -/
  refused : granted = false → built = .exited
  /-- otherwise its block is full, and other blocks are as they were -/
  vector : granted = true → ∃ argv h', built = .vector argv h' ∧
    (∃ cells, h'.block argv = some cells ∧ cells.length = names.length + 2 ∧
      readArgv cells = some (program :: names)) ∧
    ∀ p, p ≠ argv → h'.block p = h.block p

/-- What is counted and copied: all of the strings, or none where there is no array. -/
theorem names_of_args {args : Option Pointers} (hnull : ∀ cells, args = some cells → none ∈ cells) :
    (args.elim (some 1) fun args => countArgs args 1) = some ((namedArgs args).length + 1) ∧
      ∀ i (hi : i < (namedArgs args).length),
        (args.getD [])[i]? = some (some (namedArgs args)[i]) := by
  cases args with
  | none => exact ⟨rfl, fun i hi => absurd hi (Nat.not_lt_zero i)⟩
  | some cells =>
      have hnames := names_of_null (hnull cells rfl)
      exact ⟨countArgs_of_names hnames 1 (Nat.le_refl 1) (by omega), hnames.name⟩

/-- The program, the strings and the NULL, stored behind each other in a new block. -/
theorem stored_vector (h : Heap (Option CString)) (program : CString) {args : Pointers}
    {names : List CString}
    (hargs : ∀ i (hi : i < names.length), args[i]? = some (some names[i])) :
    ∃ h₁ h₂ h₃, (h.calloc none (names.length + 2) true).2.store h.next 0 [some program] = some h₁ ∧
      copyArgs args h.next (names.length + 1) 1 h₁ = some h₂ ∧
      h₂.store h.next (names.length + 1) [none] = some h₃ ∧
      h₃.block h.next = some (((program :: names).map some ++ [none]).map some) ∧
      ∀ p, p ≠ h.next → h₃.block p = h.block p := by
  have hempty : ([] : Pointers).length + [some program].length ≤ names.length + 2 := by simp
  have hroom : ((program :: names).map some).length + ([none] : Pointers).length ≤
      names.length + 2 := by simp
  obtain ⟨h₁, hfirst, hholds₁, -⟩ := (Heap.holds_calloc h none (names.length + 2)).store hempty
  obtain ⟨h₂, hcopy, hholds₂, hframe⟩ :=
    copyArgs_spec hargs (Nat.le_add_right _ 1) 1 h₁ (Nat.le_refl 1) (by omega) hholds₁
  obtain ⟨h₃, hlast, hholds₃, -⟩ := hholds₂.store hroom
  have hcells : ((program :: names).map some ++ ([none] : Pointers)).length =
      names.length + 1 + 1 := by
    simp
  rw [← hcells] at hholds₃
  rw [List.length_map, List.length_cons] at hlast
  refine ⟨h₁, h₂, h₃, hfirst, hcopy, hlast, hholds₃.full, fun p hp => ?_⟩
  rw [Heap.block_store hlast hp, hframe p hp, Heap.block_store hfirst hp]
  exact Function.update_of_ne hp _ _

theorem handed_of_null (h : Heap (Option CString)) (program : CString) {args : Option Pointers}
    (granted : Bool) (hnull : ∀ cells, args = some cells → none ∈ cells) :
    ∃ built, cBuildArgv h program args granted = some built ∧
      Handed h program (namedArgs args) granted built := by
  obtain ⟨hcount, hargs⟩ := names_of_args hnull
  generalize namedArgs args = names at hcount hargs ⊢
  cases granted with
  | false =>
      refine ⟨.exited, ?_, fun _ => rfl, nofun⟩
      simp [cBuildArgv, hcount, Heap.calloc]
  | true =>
      obtain ⟨h₁, h₂, h₃, hfirst, hcopy, hlast, hblock, hframe⟩ := stored_vector h program hargs
      refine ⟨.vector h.next h₃, ?_, nofun, fun _ => ⟨_, _, rfl, ⟨_, hblock, ?_, ?_⟩, hframe⟩⟩
      · unfold cBuildArgv
        rw [hcount]
        simp only [Option.bind_eq_bind, Option.bind_some]
        change ((h.calloc none (names.length + 2) true).2.store h.next 0 [some program]).bind _ = _
        rw [hfirst, Option.bind_some, hcopy, Option.bind_some, hlast, Option.bind_some]
      · simp
      · exact readArgv_vector (program :: names)

/-- Without a NULL the child reads behind the array. -/
theorem null_of_built {h : Heap (Option CString)} {program : CString} {args : Option Pointers}
    {granted : Bool} {built : Built} (hbuilt : cBuildArgv h program args granted = some built)
    (cells : Pointers) (hcells : args = some cells) : none ∈ cells := by
  by_contra hnone
  subst hcells
  rw [cBuildArgv, Option.elim_some, countArgs_of_not_mem hnone] at hbuilt
  cases hbuilt

/-! ## The C++ child -/

/-- A `std::string` is handed on as it is exactly when it has no NUL inside. -/
theorem bytes_cStr_iff {s : Bytes} : (cStr s).bytes = s ↔ nul ∉ s :=
  ⟨fun h => h ▸ (cStr s).nul_not_mem, fun h => untilNul_of_not_mem h⟩

theorem map_cStr_iff (strings : List Bytes) :
    (strings.map cStr).map CString.bytes = strings ↔ ∀ s ∈ strings, nul ∉ s := by
  induction strings with
  | nil => simp
  | cons s strings ih =>
      rw [List.map_cons, List.map_cons, List.cons.injEq, ih, bytes_cStr_iff, List.forall_mem_cons]

/-! ## Both -/

/-- The C child stays within the caller's array and its own block exactly when the array has a
NULL, or there is none.  What it builds then is what is before the NULL, in a block of just that
size.  The C++ child, whose allocations are to succeed, hands on its strings as they are exactly
when none of them has a NUL inside. -/
theorem argv_iff (h : Heap (Option CString)) (program : CString) (args : Option Pointers)
    (granted : Bool) (sp : Subprocess) (fails : Nat → Bool) (n : Nat)
    (hquiet : ∀ i, n ≤ i → i < n + (sp.args.length + 2) → fails i = false) :
    ((∃ built, cBuildArgv h program args granted = some built) ↔
      ∀ cells, args = some cells → none ∈ cells) ∧
    (∀ built, cBuildArgv h program args granted = some built →
      Handed h program (namedArgs args) granted built) ∧
    ∃ argv names, sp.buildArgv fails n = .returned argv (n + (sp.args.length + 2)) ∧
      readArgv (argv.map some) = some names ∧
      (names.map CString.bytes = sp.program :: sp.args ↔
        ∀ s ∈ sp.program :: sp.args, nul ∉ s) := by
  refine ⟨⟨?_, fun hnull => ?_⟩, fun built hbuilt => ?_, _, (sp.program :: sp.args).map cStr,
    sp.costs_buildArgv.quiet fails n hquiet, ?_, map_cStr_iff _⟩
  · rintro ⟨built, hbuilt⟩
    exact null_of_built hbuilt
  · obtain ⟨built, hbuilt, -⟩ := handed_of_null h program granted hnull
    exact ⟨built, hbuilt⟩
  · obtain ⟨built', hbuilt', hhanded⟩ := handed_of_null h program granted (null_of_built hbuilt)
    rw [hbuilt] at hbuilt'
    cases hbuilt'
    exact hhanded
  · rw [← readArgv_vector, List.map_map]
    rfl

/-- `"a"`. -/
def letterA : CString := ⟨[97], by decide⟩

/-- One argument before the NULL, and one behind it that no one gets; without a NULL the child
leaves the array. -/
theorem argv_iff_letter :
    (∃ built, cBuildArgv Heap.empty letterA (some [some letterA, none, some letterA]) true =
      some built ∧ Handed Heap.empty letterA [letterA] true built) ∧
    ¬ ∃ built, cBuildArgv Heap.empty letterA (some [some letterA]) true = some built := by
  constructor
  · obtain ⟨hwithin, hhanded, -⟩ := argv_iff Heap.empty letterA
      (some [some letterA, none, some letterA]) true (.ofProgram []) (fun _ => false) 0
      (fun _ _ _ => rfl)
    obtain ⟨built, hbuilt⟩ := hwithin.mpr fun _ hcells => by cases hcells; decide
    exact ⟨built, hbuilt, hhanded built hbuilt⟩
  · rw [(argv_iff Heap.empty letterA (some [some letterA]) true (.ofProgram []) (fun _ => false) 0
      (fun _ _ _ => rfl)).1]
    intro hnull
    exact absurd (hnull _ rfl) (by decide)

end Ftl.Process
