/-
  Io/TempScopes.lean --- `ftl::TempFile` of ftl/io/temp.hpp.

  A client is any program whose temp files are local objects: it makes them, does what it
  likes with the files that it has one for, and leaves its scopes normally, by a `return` or
  by an exception, its own or that of a constructor.

  Files are told apart by the paths that the system calls get, which are texts up to the first
  NUL.  There are no links in this file system, and no file has two paths: `ofstream` and `chmod`
  would follow a symbolic link, and `remove` would not.

      temp_files_restore_iff   afterwards there is nothing at the paths of its temp files, so
                               the files are as before exactly when nothing was there
-/
import Mathlib.Logic.Function.Basic
import Ftl.Foundation.Scopes
import Ftl.Process.ExecSearch

set_option autoImplicit false

namespace Ftl.Io

open Function (update update_self update_of_ne)
open Foundation (Ending Scoped ScopeLang Stmt)
open Process (Bytes CString cStr)

/-! ## The class -/

/-- What can be at a path. -/
inductive Node where
  | file (mode : Nat) (content : Bytes)
  | directory (isEmpty : Bool)
  deriving DecidableEq, Repr

/-- A file system without links, by path. -/
abbrev Tree : Type := CString → Option Node

/-- `ftl::TempFile`. -/
structure TempFile where
  path : Bytes

/-- What the constructor meets: whether the file can be opened for writing, the mode that a new
one gets, and how much of the content is written. -/
structure OpenAnswer where
  opened : Bool
  newMode : Nat
  kept : Nat

/-- `"cannot create temp file "`. -/
def cannotCreate : Bytes :=
  [99, 97, 110, 110, 111, 116, 32, 99, 114, 101, 97, 116, 101, 32, 116, 101, 109, 112, 32, 102,
    105, 108, 101, 32]

/-- `chmod(path, mode)`, if there is something. -/
def chmod (files : Tree) (path : CString) (mode : Nat) : Tree :=
  match files path with
  | some (.file _ content) => update files path (some (.file mode content))
  | _ => files

/-- `remove(path)`: a directory with something in it stays, and so does what `refuses` to go. -/
def removePath (refuses : CString → Bool) (files : Tree) (path : CString) : Tree :=
  if refuses path = true ∨ files path = some (.directory false) then files
  else update files path none

namespace TempFile

/-- `TempFile(path, content)`; the error is the text of the exception. -/
def create (path content : Bytes) (answer : OpenAnswer) (files : Tree) :
    Except Bytes (TempFile × Tree) :=
  if answer.opened then
    match files (cStr path) with
    | some (.file mode _) =>
        .ok (⟨path⟩, update files (cStr path) (some (.file mode (content.take answer.kept))))
    | none =>
        .ok (⟨path⟩,
          update files (cStr path) (some (.file answer.newMode (content.take answer.kept))))
    | some (.directory _) => .error (cannotCreate ++ path)
  else .error (cannotCreate ++ path)

/-- `path_.c_str()`. -/
def name (t : TempFile) : CString := cStr t.path

/-- `~TempFile()`. -/
def destroy (refuses : CString → Bool) (t : TempFile) (files : Tree) : Tree :=
  removePath refuses (chmod files t.name 0o644) t.name

end TempFile

/-! ## Clients -/

/-- The files, and the paths for which a temp file has been made. -/
structure Workspace where
  files : Tree
  made : List CString

/-- What a client does. -/
inductive FileOp where
  /-- `TempFile t(path, content);` -/
  | make (path content : Bytes) (answer : OpenAnswer)
  /-- whatever it does to the file at a path -/
  | poke (path : CString) (node : Option Node)

/-- The effect of an operation.  A client pokes at a path that it has a temp file for, and does
not leave a directory there that has something in it. -/
inductive FileOp.Performs : FileOp → Scoped TempFile Workspace → Ending →
    Scoped TempFile Workspace → Prop
  | made {path content : Bytes} {answer : OpenAnswer} {s : Scoped TempFile Workspace}
      {t : TempFile} {files : Tree} :
      TempFile.create path content answer s.rest.files = .ok (t, files) →
      Performs (.make path content answer) s .normal
        ⟨t :: s.objects, ⟨files, cStr path :: s.rest.made⟩⟩
  | notMade {path content : Bytes} {answer : OpenAnswer} {s : Scoped TempFile Workspace}
      {e : Bytes} :
      TempFile.create path content answer s.rest.files = .error e →
      Performs (.make path content answer) s .threw s
  | poked {path : CString} {node : Option Node} {s : Scoped TempFile Workspace} {t : TempFile} :
      t ∈ s.objects → t.name = path → node ≠ some (.directory false) →
      Performs (.poke path node) s .normal
        ⟨s.objects, { s.rest with files := update s.rest.files path node }⟩

/-- The programs with temp files. -/
abbrev tempLang (refuses : CString → Bool) : ScopeLang TempFile Workspace FileOp where
  prim := FileOp.Performs
  destroy t w := (false, { w with files := t.destroy refuses w.files })

/-- A program starts with no temp file. -/
def untouched (files : Tree) : Scoped TempFile Workspace := ⟨[], ⟨files, []⟩⟩

/-! ## What is left -/

/-- Where a program has got to, from the files `before`.  A path of a temp file has a file only as
long as an object is there whose destructor removes it. -/
structure Tidy (before : Tree) (s : Scoped TempFile Workspace) : Prop where
  /-- other paths are as they were -/
  outside : ∀ path, path ∉ s.rest.made → s.rest.files path = before path
  /-- what is at a path of a temp file will be removed -/
  owned : ∀ path ∈ s.rest.made, s.rest.files path = none ∨ ∃ t ∈ s.objects, t.name = path
  made : ∀ t ∈ s.objects, t.name ∈ s.rest.made
  /-- and it can be -/
  removable : ∀ path ∈ s.rest.made, s.rest.files path ≠ some (.directory false)

theorem tidy_untouched (before : Tree) : Tidy before (untouched before) where
  outside := fun _ _ => rfl
  owned := by simp [untouched]
  made := by simp [untouched]
  removable := by simp [untouched]

theorem create_eq_ok {path content : Bytes} {answer : OpenAnswer} {files files' : Tree}
    {t : TempFile} (h : TempFile.create path content answer files = .ok (t, files')) :
    t.path = path ∧ ∃ mode bytes, files' = update files t.name (some (.file mode bytes)) := by
  unfold TempFile.create at h
  split at h
  · split at h
    · cases h
      exact ⟨rfl, _, _, rfl⟩
    · cases h
      exact ⟨rfl, _, _, rfl⟩
    · cases h
  · cases h

theorem tidy_performs {before : Tree} {op : FileOp} {s s' : Scoped TempFile Workspace}
    {out : Ending} (h : Tidy before s) (hop : op.Performs s out s') : Tidy before s' := by
  cases hop with
  | @made path content answer _ t files hcreate =>
      obtain ⟨rfl, mode, bytes, rfl⟩ := create_eq_ok hcreate
      refine ⟨fun q hq => ?_, fun q hq => ?_, fun u hu => ?_, fun q hq => ?_⟩
      · rw [List.mem_cons, not_or] at hq
        exact (update_of_ne hq.1 _ _).trans (h.outside q hq.2)
      · by_cases hsame : q = t.name
        · exact .inr ⟨t, List.mem_cons_self, hsame.symm⟩
        · have hold := (List.mem_cons.mp hq).resolve_left hsame
          rcases h.owned q hold with hnone | ⟨u, hu, hpath⟩
          · exact .inl ((update_of_ne hsame _ _).trans hnone)
          · exact .inr ⟨u, List.mem_cons_of_mem t hu, hpath⟩
      · rcases List.mem_cons.mp hu with rfl | hu
        · exact List.mem_cons_self
        · exact List.mem_cons_of_mem _ (h.made u hu)
      · change update s.rest.files t.name (some (.file mode bytes)) q ≠ _
        by_cases hsame : q = t.name
        · rw [hsame, update_self]
          nofun
        · rw [update_of_ne hsame]
          exact h.removable q ((List.mem_cons.mp hq).resolve_left hsame)
  | notMade => exact h
  | @poked path node _ t ht hpath hnode =>
      have hmade : path ∈ s.rest.made := hpath ▸ h.made t ht
      refine ⟨fun q hq => ?_, fun q hq => ?_, h.made, fun q hq => ?_⟩
      · have hother : q ≠ path := fun hsame => hq (hsame ▸ hmade)
        exact (update_of_ne hother _ _).trans (h.outside q hq)
      · by_cases hsame : q = path
        · exact .inr ⟨t, ht, hpath.trans hsame.symm⟩
        · rcases h.owned q hq with hnone | howner
          · exact .inl ((update_of_ne hsame _ _).trans hnone)
          · exact .inr howner
      · change update s.rest.files path node q ≠ _
        by_cases hsame : q = path
        · rw [hsame, update_self]
          exact hnode
        · rw [update_of_ne hsame]
          exact h.removable q hq

/-- `chmod` leaves other paths alone, and a directory what it is. -/
theorem chmod_spec (files : Tree) (path : CString) (mode : Nat) :
    (∀ q, q ≠ path → chmod files path mode q = files q) ∧
      (chmod files path mode path = some (.directory false) →
        files path = some (.directory false)) := by
  unfold chmod
  cases hnode : files path with
  | none => exact ⟨fun _ _ => rfl, fun hdirectory => hnode ▸ hdirectory⟩
  | some node =>
      cases node with
      | file old content =>
          refine ⟨fun q hq => update_of_ne hq _ _, fun hdirectory => ?_⟩
          simp only [update_self] at hdirectory
          cases hdirectory
      | directory isEmpty => exact ⟨fun _ _ => rfl, fun hdirectory => hnode ▸ hdirectory⟩

theorem destroy_eq {refuses : CString → Bool} {t : TempFile} {files : Tree}
    (hfree : refuses t.name = false) (hnode : files t.name ≠ some (.directory false)) :
    t.destroy refuses files t.name = none ∧
      ∀ q, q ≠ t.name → t.destroy refuses files q = files q := by
  obtain ⟨hother, hdirectory⟩ := chmod_spec files t.name 0o644
  unfold TempFile.destroy removePath
  rw [if_neg]
  · exact ⟨update_self .., fun q hq => (update_of_ne hq _ _).trans (hother q hq)⟩
  · rintro (hrefuses | hfull)
    · rw [hfree] at hrefuses
      cases hrefuses
    · exact hnode (hdirectory hfull)

theorem tidy_destroy {refuses : CString → Bool} (hfree : ∀ path, refuses path = false)
    {before : Tree} {t : TempFile} {objects : List TempFile} {w : Workspace}
    (h : Tidy before ⟨t :: objects, w⟩) :
    Tidy before ⟨objects, { w with files := t.destroy refuses w.files }⟩ := by
  have hmade : t.name ∈ w.made := h.made t List.mem_cons_self
  obtain ⟨hgone, hother⟩ := destroy_eq (hfree t.name) (h.removable t.name hmade)
  refine ⟨fun q hq => ?_, fun q hq => ?_, fun u hu => h.made u (.tail t hu), fun q hq => ?_⟩
  · have hne : q ≠ t.name := fun hsame => hq (hsame ▸ hmade)
    exact (hother q hne).trans (h.outside q hq)
  · by_cases hsame : q = t.name
    · exact .inl (hsame ▸ hgone)
    · rcases h.owned q hq with hnone | ⟨u, hu, hpath⟩
      · exact .inl ((hother q hsame).trans hnone)
      · rcases List.mem_cons.mp hu with rfl | hu
        · exact (hsame hpath.symm).elim
        · exact .inr ⟨u, hu, hpath⟩
  · change t.destroy refuses w.files q ≠ _
    by_cases hsame : q = t.name
    · rw [hsame, hgone]
      nofun
    · rw [hother q hsame]
      exact h.removable q hq

/-- When a program has left its outermost scope, whichever way, there is nothing at the paths of
its temp files, and other paths are as they were.  So the files are as before exactly when there
was nothing at the paths of its temp files before. -/
theorem temp_files_restore_iff {refuses : CString → Bool} (hfree : ∀ path, refuses path = false)
    (before : Tree) {st : Stmt FileOp} {out : Ending} {s : Scoped TempFile Workspace}
    (hexec : (tempLang refuses).Exec (.block st) (untouched before) out s) :
    (∀ path, s.rest.files path = if path ∈ s.rest.made then none else before path) ∧
      (s.rest.files = before ↔ ∀ path ∈ s.rest.made, before path = none) := by
  have hprim : ∀ op s out s', True → Tidy before s → (tempLang refuses).prim op s out s' →
      Tidy before s' := fun _ _ _ _ _ => tidy_performs
  have htidy : Tidy before s :=
    hexec.invariant hprim (fun _ _ _ => tidy_destroy hfree) (st.all_of_forall fun _ => trivial)
      (tidy_untouched before)
  have hlives : out ≠ .terminated := by
    refine hexec.lives (fun _ _ => rfl) fun op s out s' hop => ?_
    cases hop with
    | _ => nofun
  have hnone : s.objects = [] := hexec.closed rfl hlives
  have hfiles : ∀ path, s.rest.files path = if path ∈ s.rest.made then none else before path := by
    intro path
    split
    · rename_i hmade
      rcases htidy.owned path hmade with hgone | ⟨t, ht, -⟩
      · exact hgone
      · rw [hnone] at ht
        cases ht
    · rename_i hother
      exact htidy.outside path hother
  refine ⟨hfiles, fun hsame path hmade => ?_, fun hnothing => funext fun path => ?_⟩
  · have hpath := hfiles path
    rw [if_pos hmade, hsame] at hpath
    exact hpath
  · rw [hfiles path]
    split
    · rename_i hmade
      exact (hnothing path hmade).symm
    · rfl

/-- A scratch file that is made over a file of the user. -/
def overwriting : Stmt FileOp := .prim (.make [97] [1, 2] ⟨true, 0o644, 2⟩)

/-- The name was that of a file of the user, and the destructor has removed it. -/
theorem temp_files_restore_overwriting :
    ∃ s, (tempLang fun _ => false).Exec (.block overwriting)
      (untouched fun _ => some (.file 0o600 [7])) .normal s ∧
      s.rest.files ≠ fun _ => some (.file 0o600 [7]) := by
  have hbody : (tempLang fun _ => false).Exec overwriting
      (untouched fun _ => some (.file 0o600 [7])) .normal _ := .prim (.made rfl)
  refine ⟨_, hbody.block, fun hsame => ?_⟩
  have hnothing := (temp_files_restore_iff (fun _ => rfl) _ hbody.block).2.mp hsame (cStr [97])
    List.mem_cons_self
  cases hnothing

end Ftl.Io
