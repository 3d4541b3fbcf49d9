/-
  Io/TempDir.lean --- `ftl::TempDir` of ftl/io/temp.hpp.

  The constructor takes the directory that `mkdtemp` has made for it, and throws if there is
  none.  The destructor hands `remove_entry` to `nftw`.  `nftw` itself is given by the order in
  which it visits the entries under the directory (`Visits`); it stops at the first result
  that is not 0, and `remove_entry` returns -1 for an entry that cannot be removed.

      temp_dir_removes_all_iff   all that can be removed is removed exactly when nothing of
                                 that sort is visited after an entry that cannot
      temp_dir_leaves_file       two files, of which the first cannot be removed
      exists_visits              there is such an order for every tree
-/
import Mathlib.Data.List.Infix
import Ftl.Foundation.Walk
import Ftl.Io.TempFile

set_option autoImplicit false

namespace Ftl.Io

open Foundation (walk walk_invariant forall_dropWhile_iff)
open Process (Bytes Errno slash nul cStr untilNul_of_not_mem)

/-! ## File systems -/

/-- The names from the root directory on. -/
abbrev Path : Type := List Bytes

/-- What an entry is. -/
inductive Kind where
  | file
  | directory
  | link (target : Bytes)
  deriving DecidableEq, Repr

/-- The entries of a file system; each is in a directory. -/
structure FileSystem where
  entries : List (Path × Kind)
  nodup : (entries.map Prod.fst).Nodup
  parents : ∀ e ∈ entries, e.1 ≠ [] → (e.1.dropLast, Kind.directory) ∈ entries

namespace FileSystem

def paths (fs : FileSystem) : List Path := fs.entries.map Prod.fst

/-- An entry in the directory `p`. -/
def hasChildren (fs : FileSystem) (p : Path) : Bool :=
  fs.paths.any fun q => decide (q ≠ [] ∧ q.dropLast = p)

/-- Without `p`, which has nothing in it. -/
def erase (fs : FileSystem) (p : Path) (hleaf : fs.hasChildren p = false) : FileSystem where
  entries := fs.entries.filter fun e => decide (e.1 ≠ p)
  nodup := fs.nodup.sublist ((List.filter_sublist).map Prod.fst)
  parents := by
    intro e he hne
    obtain ⟨he, -⟩ := List.mem_filter.mp he
    refine List.mem_filter.mpr ⟨fs.parents e he hne, ?_⟩
    refine decide_eq_true ?_
    intro hparent
    have hnone := List.any_eq_false.mp hleaf e.1 (List.mem_map_of_mem he)
    exact hnone (decide_eq_true ⟨hne, hparent⟩)

/-- `remove(path)`: an entry goes unless it is a directory with something in it, or
`refuses` its removal. -/
def remove (refuses : Path → Bool) (fs : FileSystem) (p : Path) : Option FileSystem :=
  if p ∈ fs.paths ∧ refuses p = false then
    if hleaf : fs.hasChildren p = false then some (fs.erase p hleaf) else none
  else none

end FileSystem

/-! ## TempDir -/

/-- `ftl::TempDir`. -/
structure TempDir where
  path : Bytes

namespace TempDir

/-- `"mkdtemp failed for "`. -/
def mkdtempFailed : Bytes :=
  [109, 107, 100, 116, 101, 109, 112, 32, 102, 97, 105, 108, 101, 100, 32, 102, 111, 114, 32]

/-- `TempDir(prefix)`, where `mkdtemp` answers a template that ends in six X with `answer`;
the error is the text of the exception. -/
def create (namePrefix : Bytes) (answer : Except Errno Suffix) : Except Bytes TempDir :=
  match mkstemp (cStr (tmpSlash ++ namePrefix ++ underscore :: sixX)).bytes answer with
  | .ok path => .ok ⟨path⟩
  | .error _ => .error (mkdtempFailed ++ namePrefix)

/-- A prefix of any length is followed by six characters in the path, and by nothing in the
text of the exception. -/
theorem create_eq {namePrefix : Bytes} (hnul : nul ∉ namePrefix)
    (answer : Except Errno Suffix) :
    create namePrefix answer =
      match answer with
      | .ok suffix => .ok ⟨tmpSlash ++ namePrefix ++ underscore :: suffix.chars⟩
      | .error _ => .error (mkdtempFailed ++ namePrefix) := by
  have hwhole : (cStr (tmpSlash ++ namePrefix ++ underscore :: sixX)).bytes =
      (tmpSlash ++ namePrefix ++ [underscore]) ++ sixX := by
    have hsame : tmpSlash ++ namePrefix ++ underscore :: sixX =
        (tmpSlash ++ namePrefix ++ [underscore]) ++ sixX := by simp
    rw [hsame]
    refine untilNul_of_not_mem ?_
    have hfixed : nul ∉ tmpSlash ∧ nul ≠ underscore ∧ nul ∉ sixX := by decide
    simp [hnul, hfixed]
  have hends : sixX <:+ (tmpSlash ++ namePrefix ++ [underscore]) ++ sixX :=
    List.suffix_append _ _
  unfold create mkstemp
  rw [hwhole, if_pos hends]
  cases answer with
  | error e => rfl
  | ok suffix =>
      rw [List.length_append, List.take_left' (by simp [sixX])]
      simp [Except.map]

/-- The directory. -/
def root (t : TempDir) : Path :=
  (t.path.splitOn slash).filter fun name => decide (name ≠ [])

/-- `remove_entry`. -/
def removeEntry (refuses : Path → Bool) (fs : FileSystem) (p : Path) : Int × FileSystem :=
  match fs.remove refuses p with
  | some fs' => (0, fs')
  | none => (-1, fs)

/-- `nftw` with a callback, for the entries in the order of the visits. -/
def nftw (callback : FileSystem → Path → Int × FileSystem) (order : List Path)
    (fs : FileSystem) : FileSystem :=
  walk (fun fs p => (decide ((callback fs p).1 = 0), (callback fs p).2)) fs order

/-- `remove_tree(path)`. -/
def removeTree (refuses : Path → Bool) (order : List Path) (fs : FileSystem) : FileSystem :=
  nftw (removeEntry refuses) order fs

/-- `~TempDir()`, with the visits that `nftw` makes to the directory. -/
def destroy (_t : TempDir) (refuses : Path → Bool) (order : List Path) (fs : FileSystem) :
    FileSystem :=
  removeTree refuses order fs

end TempDir

/-- What is assumed of `nftw` with `FTW_DEPTH | FTW_PHYS`: it visits the entries under `root`
once, and a directory after what is in it. -/
structure Visits (fs : FileSystem) (root : Path) (order : List Path) : Prop where
  once : order.Nodup
  every : ∀ p, p ∈ order ↔ p ∈ fs.paths ∧ root <+: p
  depth : order.Pairwise fun p q => q ≠ [] → q.dropLast ≠ p

/-- `p` cannot be removed, or is a directory above an entry that cannot. -/
def Unremovable (fs : FileSystem) (root : Path) (refuses : Path → Bool) (p : Path) : Prop :=
  ∃ q ∈ fs.paths, root <+: q ∧ refuses q = true ∧ p <+: q

/-- All that could be removed under `root` is gone; if everything could, nothing else is. -/
structure RemovesAll (fs : FileSystem) (root : Path) (refuses : Path → Bool)
    (fs' : FileSystem) : Prop where
  remains : ∀ p ∈ fs'.paths, root <+: p → Unremovable fs root refuses p
  complete : (∀ p ∈ fs.paths, root <+: p → refuses p = false) →
    (∀ p ∈ fs'.paths, ¬ root <+: p) ∧
      ∀ e, ¬ root <+: e.1 → (e ∈ fs'.entries ↔ e ∈ fs.entries)

/-! ## What is left -/

section Left

variable {fs : FileSystem} {root : Path} {refuses : Path → Bool} {order : List Path}

/-- The entries that are left when those of `done` are gone. -/
def Gone (fs : FileSystem) (done : List Path) (fs' : FileSystem) : Prop :=
  fs'.entries = fs.entries.filter fun e => decide (e.1 ∉ done)

theorem mem_paths_of_gone {done : List Path} {fs' : FileSystem} (h : Gone fs done fs')
    {p : Path} : p ∈ fs'.paths ↔ p ∈ fs.paths ∧ p ∉ done := by
  unfold FileSystem.paths
  rw [h]
  constructor
  · intro hp
    obtain ⟨e, he, rfl⟩ := List.mem_map.mp hp
    obtain ⟨he, hdone⟩ := List.mem_filter.mp he
    exact ⟨List.mem_map_of_mem he, of_decide_eq_true hdone⟩
  · rintro ⟨hp, hdone⟩
    obtain ⟨e, he, rfl⟩ := List.mem_map.mp hp
    exact List.mem_map_of_mem (List.mem_filter.mpr ⟨he, decide_eq_true hdone⟩)

/-- When all that was visited before is gone, a directory is empty. -/
theorem hasChildren_eq_false (hvisits : Visits fs root order) {done rest : List Path}
    {p : Path} (hsplit : order = done ++ p :: rest) {fs' : FileSystem}
    (hgone : Gone fs done fs') : fs'.hasChildren p = false := by
  refine List.any_eq_false.mpr ?_
  intro q hq hchild
  obtain ⟨hne, hparent⟩ := of_decide_eq_true hchild
  obtain ⟨hq, hleft⟩ := (mem_paths_of_gone hgone).mp hq
  have hp : p ∈ order := by simp [hsplit]
  have hunder : root <+: q := by
    have habove : p <+: q := by
      rw [← hparent]
      exact List.dropLast_prefix q
    exact ((hvisits.every p).mp hp).2.trans habove
  have hvisited : q ∈ order := (hvisits.every q).mpr ⟨hq, hunder⟩
  have hdepth := hvisits.depth
  rw [hsplit] at hvisited hdepth
  rcases List.mem_append.mp hvisited with hdone | hrest
  · exact hleft hdone
  · rcases List.mem_cons.mp hrest with rfl | hrest
    · -- no path is its own parent
      have hlength := congrArg List.length hparent
      rw [List.length_dropLast] at hlength
      have hpos := List.length_pos_iff.mpr hne
      omega
    · have hbehind := (List.pairwise_append.mp hdepth).2.1
      exact (List.pairwise_cons.mp hbehind).1 q hrest hne hparent

/-- The destructor removes the entries up to the first that cannot be removed. -/
theorem gone_removeTree (hvisits : Visits fs root order) :
    Gone fs (order.takeWhile fun p => !refuses p) (TempDir.removeTree refuses order fs) := by
  have hinit : Gone fs [] fs := by
    unfold Gone
    rw [List.filter_eq_self.mpr (by simp)]
  change Gone fs ([] ++ _) (walk _ fs order)
  refine walk_invariant refuses (Gone fs) hinit ?_ ?_
  · intro done p rest fs' hsplit hp hgone
    rw [List.nil_append] at hsplit
    have hmem : p ∈ fs'.paths := by
      have hpo : p ∈ order := by simp [hsplit]
      have honce := hvisits.once
      rw [hsplit] at honce
      refine (mem_paths_of_gone hgone).mpr ⟨((hvisits.every p).mp hpo).1, ?_⟩
      intro hdone
      exact (List.nodup_append.mp honce).2.2 p hdone p (.head rest) rfl
    have hleaf := hasChildren_eq_false hvisits hsplit hgone
    have hremove : fs'.remove refuses p = some (fs'.erase p hleaf) := by
      unfold FileSystem.remove
      rw [if_pos ⟨hmem, hp⟩, dif_pos hleaf]
    refine ⟨by simp [TempDir.removeEntry, hremove], ?_⟩
    simp only [TempDir.removeEntry, hremove]
    unfold Gone FileSystem.erase
    simp only
    rw [hgone, List.filter_filter]
    refine List.filter_congr ?_
    intro e _
    simp [not_or, and_comm]
  · intro done p fs' hp hgone
    have hremove : fs'.remove refuses p = none := by
      unfold FileSystem.remove
      rw [if_neg]
      simp [hp]
    exact ⟨by simp [TempDir.removeEntry, hremove], by
      simpa [TempDir.removeEntry, hremove] using hgone⟩

/-- Under the directory, what is left is what is visited from the first failure on. -/
theorem mem_removeTree_iff (hvisits : Visits fs root order) {p : Path} :
    p ∈ (TempDir.removeTree refuses order fs).paths ∧ root <+: p ↔
      p ∈ order.dropWhile fun p => !refuses p := by
  have hsplit : (order.takeWhile fun p => !refuses p) ++ (order.dropWhile fun p => !refuses p)
      = order := List.takeWhile_append_dropWhile
  have honce := hvisits.once
  rw [← hsplit] at honce
  rw [mem_paths_of_gone (gone_removeTree hvisits)]
  constructor
  · rintro ⟨⟨hp, hnot⟩, hunder⟩
    have hpo := (hvisits.every p).mpr ⟨hp, hunder⟩
    rw [← hsplit] at hpo
    rcases List.mem_append.mp hpo with hp | hp
    · exact (hnot hp).elim
    · exact hp
  · intro hp
    have hpo := (List.dropWhile_sublist _).subset hp
    obtain ⟨hmem, hunder⟩ := (hvisits.every p).mp hpo
    exact ⟨⟨hmem, fun htaken => (List.nodup_append.mp honce).2.2 p htaken p hp rfl⟩, hunder⟩

theorem mem_entries_removeTree_iff (hvisits : Visits fs root order) {e : Path × Kind}
    (houtside : ¬ root <+: e.1) :
    e ∈ (TempDir.removeTree refuses order fs).entries ↔ e ∈ fs.entries := by
  rw [gone_removeTree hvisits, List.mem_filter]
  constructor
  · rintro ⟨he, -⟩
    exact he
  · intro he
    refine ⟨he, decide_eq_true ?_⟩
    intro htaken
    have hpo := (List.takeWhile_sublist _).subset htaken
    exact houtside ((hvisits.every e.1).mp hpo).2

theorem dropWhile_eq_nil (hvisits : Visits fs root order)
    (hall : ∀ p ∈ fs.paths, root <+: p → refuses p = false) :
    order.dropWhile (fun p => !refuses p) = [] := by
  refine List.dropWhile_eq_nil_iff.mpr ?_
  intro p hp
  obtain ⟨hmem, hunder⟩ := (hvisits.every p).mp hp
  simp [hall p hmem hunder]

end Left

/-- Longer paths first: an order in which every tree can be visited. -/
theorem exists_visits (fs : FileSystem) (root : Path) : ∃ order, Visits fs root order := by
  let longer : Path → Path → Bool := fun p q => decide (q.length ≤ p.length)
  refine ⟨(fs.paths.filter fun p => decide (root <+: p)).mergeSort longer, ?_, ?_, ?_⟩
  · exact (List.mergeSort_perm _ _).nodup_iff.mpr (fs.nodup.filter _)
  · intro p
    rw [(List.mergeSort_perm _ _).mem_iff, List.mem_filter, decide_eq_true_iff]
  · have htrans : ∀ p q r, longer p q = true → longer q r = true → longer p r = true := by
      intro p q r hpq hqr
      exact decide_eq_true (Nat.le_trans (of_decide_eq_true hqr) (of_decide_eq_true hpq))
    have htotal : ∀ p q, (longer p q || longer q p) = true := by
      intro p q
      simpa [longer] using Nat.le_total q.length p.length
    have hsorted := List.pairwise_mergeSort htrans htotal
      (fs.paths.filter fun p => decide (root <+: p))
    refine hsorted.imp ?_
    intro p q hle hne hparent
    have hlonger := of_decide_eq_true hle
    have hlength := congrArg List.length hparent
    have hpos := List.length_pos_iff.mpr hne
    rw [List.length_dropLast] at hlength
    omega

/-- The destructor leaves only what cannot be removed, and the directories above it,
exactly when each entry that is visited after one that cannot be removed is such an entry
itself: the callback returns what `remove` does, and -1 stops `nftw`. -/
theorem temp_dir_removes_all_iff (t : TempDir) (fs : FileSystem) (refuses : Path → Bool)
    (order : List Path) (hvisits : Visits fs t.root order) :
    RemovesAll fs t.root refuses (t.destroy refuses order fs) ↔
      order.Pairwise fun p q => refuses p = true → Unremovable fs t.root refuses q := by
  have hself : ∀ p ∈ order, refuses p = true → Unremovable fs t.root refuses p := by
    intro p hp hrefuses
    obtain ⟨hmem, hunder⟩ := (hvisits.every p).mp hp
    exact ⟨p, hmem, hunder, hrefuses, List.prefix_rfl⟩
  rw [← forall_dropWhile_iff hself]
  constructor
  · rintro ⟨hremains, -⟩ p hp
    obtain ⟨hmem, hunder⟩ := (mem_removeTree_iff hvisits).mpr hp
    exact hremains p hmem hunder
  · intro hall
    refine ⟨?_, ?_⟩
    · intro p hp hunder
      exact hall p ((mem_removeTree_iff hvisits).mp ⟨hp, hunder⟩)
    · intro hnone
      refine ⟨?_, fun e houtside => mem_entries_removeTree_iff hvisits houtside⟩
      intro p hp hunder
      have hleft := (mem_removeTree_iff hvisits).mp ⟨hp, hunder⟩
      rw [dropWhile_eq_nil hvisits hnone] at hleft
      cases hleft

/-- `"abcdef"`, in place of the six X. -/
def abcdef : Suffix := ⟨[97, 98, 99, 100, 101, 102], rfl⟩

/-- `"t_abcdef"`. -/
def nameT : Bytes := [116, 95, 97, 98, 99, 100, 101, 102]

/-- `TempDir("t")`, as the directory `/tmp/t_abcdef`. -/
def tmpT : TempDir := ⟨tmpSlash ++ nameT⟩

theorem create_tmpT : TempDir.create [116] (.ok abcdef) = .ok tmpT :=
  TempDir.create_eq (by decide) (.ok abcdef)

/-- The directory, with the files `a` and `b`. -/
def twoFiles : FileSystem where
  entries := [([], .directory), ([[116, 109, 112]], .directory),
    ([[116, 109, 112], nameT], .directory), ([[116, 109, 112], nameT, [97]], .file),
    ([[116, 109, 112], nameT, [98]], .file)]
  nodup := by decide
  parents := by decide

/-- `a`, `b` and the directory. -/
def twoFilesOrder : List Path :=
  [[[116, 109, 112], nameT, [97]], [[116, 109, 112], nameT, [98]], [[116, 109, 112], nameT]]

/-- Every entry can be removed but the file `name`. -/
def refusesFile (name : Bytes) (p : Path) : Bool := p == [[116, 109, 112], nameT, name]

theorem twoFiles_visits : Visits twoFiles tmpT.root twoFilesOrder where
  once := by decide
  every := by
    intro p
    have hperm : twoFilesOrder.Perm
        (twoFiles.paths.filter fun p => decide (tmpT.root <+: p)) := by decide
    rw [hperm.mem_iff, List.mem_filter, decide_eq_true_iff]
  depth := by decide

/-- If `b` cannot be removed, `a` goes, and only what is above `b` stays. -/
theorem temp_dir_removes_all_twoFiles :
    TempDir.create [116] (.ok abcdef) = .ok tmpT ∧
      RemovesAll twoFiles tmpT.root (refusesFile [98])
        (tmpT.destroy (refusesFile [98]) twoFilesOrder twoFiles) ∧
      [[116, 109, 112], nameT, [97]] ∉
        (tmpT.destroy (refusesFile [98]) twoFilesOrder twoFiles).paths := by
  have hremoves := (temp_dir_removes_all_iff tmpT twoFiles (refusesFile [98]) twoFilesOrder
    twoFiles_visits).mpr
  have hfile : [[116, 109, 112], nameT, [98]] ∈ twoFiles.paths := by decide
  have habove : [[116, 109, 112], nameT] <+: ([[116, 109, 112], nameT, [98]] : Path) := by decide
  refine ⟨create_tmpT, hremoves ?_, by decide⟩
  refine .cons (fun q _ hrefuses => ?_) (.cons (fun q hq _ => ?_) (.cons nofun .nil))
  · cases hrefuses
  · rw [List.mem_singleton.mp hq]
    exact ⟨_, hfile, by decide, rfl, habove⟩

/-- If `a` cannot be removed and is visited first, `b` stays. -/
theorem temp_dir_leaves_file :
    TempDir.create [116] (.ok abcdef) = .ok tmpT ∧ Visits twoFiles tmpT.root twoFilesOrder ∧
      ¬ RemovesAll twoFiles tmpT.root (refusesFile [97])
        (tmpT.destroy (refusesFile [97]) twoFilesOrder twoFiles) := by
  refine ⟨create_tmpT, twoFiles_visits, ?_⟩
  rintro ⟨hremains, -⟩
  obtain ⟨q, hq, -, hrefuses, habove⟩ :=
    hremains [[116, 109, 112], nameT, [98]] (by decide) (by decide)
  have hall : ∀ q ∈ twoFiles.paths, refusesFile [97] q = true →
      ¬ ([[116, 109, 112], nameT, [98]] : Path) <+: q := by decide
  exact hall q hq hrefuses habove

end Ftl.Io
