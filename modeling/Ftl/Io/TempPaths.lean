/-
  Io/TempPaths.lean --- what callers do with the paths of `ftl_temp_file_create`.

  Embedded source: `ftl_temp_file_destroy` of ftl/ftl.h, beside `ftl_temp_file_create`.  A caller
  makes temp files, writes into them and destroys them, in any order.  A `destroy` of a pointer
  that is not there any more is `none`.

      temp_paths_accounted   at any time, the files that are not as before are those whose
                             paths the caller has, and those whose path `strdup` has lost
-/
import Ftl.Foundation.Runs
import Ftl.Io.TempFile

set_option autoImplicit false

namespace Ftl.Io

open Function (update update_self update_of_ne)
open Foundation (Runs)
open Process (Bytes)

/-! ## The code -/

/-- The files, and the paths that have been returned and not freed, by pointer. -/
structure TempPaths where
  files : Files
  paths : Nat → Option Bytes
  /-- no pointer from here on has been returned -/
  next : Nat

/-- What a caller does. -/
inductive TempOp where
  /-- `ftl_temp_file_create(prefix, content)`, with `turns` calls of `write` -/
  | create (namePrefix content : Option Text) (o : Outcomes) (turns : Nat)
  /-- it writes into the file at a path that it has -/
  | store (pointer : Nat) (content : Bytes)
  /-- `ftl_temp_file_destroy(path)` -/
  | destroy (pointer : Option Nat)

namespace TempPaths

/-- No temp file has been made. -/
def fresh (before : Files) : TempPaths where
  files := before
  paths := fun _ => none
  next := 0

/-- `ftl_temp_file_destroy(path)`: `unlink` and `free`, unless it is NULL. -/
def tempFileDestroy (c : TempPaths) : Option Nat → Option TempPaths
  | none => some c
  | some p =>
      (c.paths p).map fun path =>
        { c with files := update c.files path none, paths := update c.paths p none }

/-- What is left by a call of `ftl_temp_file_create`. -/
def keep (c : TempPaths) (created : Created) : TempPaths :=
  match created.returned with
  | .ok path =>
      { files := created.files, paths := update c.paths c.next (some path), next := c.next + 1 }
  | .error _ => { c with files := created.files }

/-- The effect of an operation. -/
def perform (c : TempPaths) : TempOp → Option TempPaths
  | .create namePrefix content o turns =>
      (tempFileCreate namePrefix content o turns c.files).map c.keep
  | .store p content =>
      (c.paths p).map fun path => { c with files := update c.files path (some content) }
  | .destroy p => c.tempFileDestroy p

end TempPaths

/-- The outcomes of the operation can be met. -/
def TempOp.Possible (files : Files) : TempOp → Prop
  | .create (some p) (some s) o _ => o.Possible p s files
  | _ => True

/-- One operation. -/
def TempStep (c : TempPaths) (op : TempOp) (c' : TempPaths) : Prop :=
  op.Possible c.files ∧ c.perform op = some c'

/-- The operation makes a file at the path, and then `strdup` fails: NULL is returned, and the file
is not unlinked. -/
def TempOp.Loses (path : Bytes) : TempOp → Prop
  | .create (some p) (some _) o _ =>
      mkstemp (patternOf p) o.name = .ok path ∧ o.strdup = false
  | _ => False

/-! ## The files of a caller -/

/-- The path of a file that was made has been lost. -/
def Lost (ops : List TempOp) (path : Bytes) : Prop := ∃ op ∈ ops, op.Loses path

theorem lost_concat {ops : List TempOp} {op : TempOp} {path : Bytes} :
    Lost (ops ++ [op]) path ↔ Lost ops path ∨ op.Loses path := by
  simp [Lost, or_and_right, exists_or]

/-- Each file that is not as before belongs to one pointer, or its path has been lost. -/
structure Accounted (before : Files) (lost : Bytes → Prop) (c : TempPaths) : Prop where
  tight : ∀ p, c.next ≤ p → c.paths p = none
  distinct : ∀ p q path, c.paths p = some path → c.paths q = some path → p = q
  /-- a path that a caller has is that of a new file, and is not lost -/
  live : ∀ p path, c.paths p = some path →
    before path = none ∧ c.files path ≠ none ∧ ¬ lost path
  orphan : ∀ path, lost path → before path = none ∧ c.files path ≠ none
  rest : ∀ path, (∀ p, c.paths p ≠ some path) → ¬ lost path → c.files path = before path

variable {before : Files} {lost lost' : Bytes → Prop} {c c' : TempPaths}

theorem accounted_fresh (before : Files) : Accounted before (fun _ => False) (.fresh before) where
  tight := fun _ _ => rfl
  distinct := nofun
  live := nofun
  orphan := nofun
  rest := fun _ _ _ => rfl

theorem Accounted.congr (h : Accounted before lost c) (hlost : ∀ path, lost' path ↔ lost path) :
    Accounted before lost' c := by
  have hsame : lost' = lost := funext fun path => propext (hlost path)
  rw [hsame]
  exact h

/-- Where there was no file, there is none that is accounted for. -/
theorem Accounted.of_none (h : Accounted before lost c) {path : Bytes}
    (hnone : c.files path = none) : before path = none ∧ (∀ p, c.paths p ≠ some path) ∧
      ¬ lost path := by
  have hlive : ∀ p, c.paths p ≠ some path := fun p hp => (h.live p path hp).2.1 hnone
  have hlost : ¬ lost path := fun hl => (h.orphan path hl).2 hnone
  exact ⟨(h.rest path hlive hlost).symm.trans hnone, hlive, hlost⟩

theorem written_ne_none {files : Files} {path content : Bytes} :
    update files path (some content) path ≠ none := by
  rw [update_self]
  nofun

theorem files_update_ne_none {files : Files} {path q : Bytes} {content : Bytes}
    (hq : files q ≠ none) : update files path (some content) q ≠ none := by
  by_cases hsame : q = path
  · exact hsame ▸ written_ne_none
  · rwa [update_of_ne hsame]

section Operations

variable (h : Accounted before lost c) {path content : Bytes}
include h

theorem Accounted.made (hnone : c.files path = none) :
    Accounted before lost
      { files := update c.files path (some content)
        paths := update c.paths c.next (some path), next := c.next + 1 } := by
  obtain ⟨hbefore, hnobody, hnotLost⟩ := h.of_none hnone
  -- a pointer of the path is the new one
  have hpointer : ∀ p q, update c.paths c.next (some path) p = some q →
      (p = c.next ∧ q = path) ∨ (p ≠ c.next ∧ q ≠ path ∧ c.paths p = some q) := by
    intro p q hp
    by_cases hnew : p = c.next
    · rw [hnew, update_self] at hp
      exact .inl ⟨hnew, (Option.some.inj hp).symm⟩
    · rw [update_of_ne hnew] at hp
      exact .inr ⟨hnew, fun hsame => hnobody p (hsame ▸ hp), hp⟩
  refine ⟨fun p hp => ?_, fun p q r hp hq => ?_, fun p q hp => ?_, fun q hq => ?_,
    fun q hq hnl => ?_⟩
  · exact (update_of_ne (Nat.ne_of_gt hp) _ _).trans (h.tight p (Nat.le_of_succ_le hp))
  · rcases hpointer p r hp with ⟨hp, hr⟩ | ⟨-, hr, hp⟩
    · rcases hpointer q r hq with ⟨hq, -⟩ | ⟨-, hr', -⟩
      · rw [hp, hq]
      · exact (hr' hr).elim
    · rcases hpointer q r hq with ⟨-, hr'⟩ | ⟨-, -, hq⟩
      · exact (hr hr').elim
      · exact h.distinct p q r hp hq
  · rcases hpointer p q hp with ⟨-, rfl⟩ | ⟨-, -, hp⟩
    · exact ⟨hbefore, written_ne_none, hnotLost⟩
    · obtain ⟨hfree, hfile, hnl⟩ := h.live p q hp
      exact ⟨hfree, files_update_ne_none hfile, hnl⟩
  · exact ⟨(h.orphan q hq).1, files_update_ne_none (h.orphan q hq).2⟩
  · have hne : q ≠ path := fun hsame =>
      hq c.next ((update_self c.next (some path) c.paths).trans (congrArg some hsame.symm))
    refine (update_of_ne hne _ _).trans (h.rest q (fun p hp => hq p ?_) hnl)
    have hold : p ≠ c.next := by
      rintro rfl
      rw [h.tight _ (Nat.le_refl _)] at hp
      cases hp
    exact (update_of_ne hold _ _).trans hp

theorem Accounted.orphaned (hnone : c.files path = none) :
    Accounted before (fun q => lost q ∨ q = path)
      { c with files := update c.files path (some content) } := by
  obtain ⟨hbefore, hnobody, -⟩ := h.of_none hnone
  refine ⟨h.tight, h.distinct, fun p q hp => ?_, fun q hq => ?_, fun q hq hnl => ?_⟩
  · obtain ⟨hfree, hfile, hnl⟩ := h.live p q hp
    refine ⟨hfree, files_update_ne_none hfile, ?_⟩
    exact fun hlost => hlost.elim hnl fun hsame => hnobody p (hsame ▸ hp)
  · rcases hq with hq | rfl
    · exact ⟨(h.orphan q hq).1, files_update_ne_none (h.orphan q hq).2⟩
    · exact ⟨hbefore, written_ne_none⟩
  · rw [not_or] at hnl
    exact (update_of_ne hnl.2 _ _).trans (h.rest q hq hnl.1)

theorem Accounted.stored {p : Nat} (hp : c.paths p = some path) :
    Accounted before lost { c with files := update c.files path (some content) } := by
  refine ⟨h.tight, h.distinct, fun q r hq => ?_, fun q hq => ?_, fun q hq hnl => ?_⟩
  · obtain ⟨hfree, hfile, hnl⟩ := h.live q r hq
    exact ⟨hfree, files_update_ne_none hfile, hnl⟩
  · exact ⟨(h.orphan q hq).1, files_update_ne_none (h.orphan q hq).2⟩
  · have hne : q ≠ path := fun hsame => hq p (hsame ▸ hp)
    exact (update_of_ne hne _ _).trans (h.rest q hq hnl)

theorem Accounted.destroyed {p : Nat} (hp : c.paths p = some path) :
    Accounted before lost
      { c with files := update c.files path none, paths := update c.paths p none } := by
  obtain ⟨hbefore, -, hnotLost⟩ := h.live p path hp
  have hpointer : ∀ q r, update c.paths p none q = some r →
      q ≠ p ∧ r ≠ path ∧ c.paths q = some r := by
    intro q r hq
    have hne : q ≠ p := by
      rintro rfl
      rw [update_self] at hq
      cases hq
    rw [update_of_ne hne] at hq
    exact ⟨hne, fun hsame => hne (h.distinct q p path (hsame ▸ hq) hp), hq⟩
  refine ⟨fun q hq => ?_, fun q r s hq hr => ?_, fun q r hq => ?_, fun q hq => ?_,
    fun q hq hnl => ?_⟩
  · change update c.paths p none q = none
    by_cases hsame : q = p
    · rw [hsame, update_self]
    · rw [update_of_ne hsame]
      exact h.tight q hq
  · exact h.distinct q r s (hpointer q s hq).2.2 (hpointer r s hr).2.2
  · obtain ⟨-, hr, hq⟩ := hpointer q r hq
    obtain ⟨hfree, hfile, hnl⟩ := h.live q r hq
    exact ⟨hfree, fun hnone => hfile ((update_of_ne hr _ _).symm.trans hnone), hnl⟩
  · have hne : q ≠ path := fun hsame => hnotLost (hsame ▸ hq)
    obtain ⟨hfree, hfile⟩ := h.orphan q hq
    exact ⟨hfree, fun hnone => hfile ((update_of_ne hne _ _).symm.trans hnone)⟩
  · change update c.files path none q = before q
    by_cases hsame : q = path
    · rw [hsame, update_self, hbefore]
    · rw [update_of_ne hsame]
      refine h.rest q (fun r hr => hq r ?_) hnl
      have hne : r ≠ p := by
        rintro rfl
        exact hsame (Option.some.inj (hr.symm.trans hp))
      exact (update_of_ne hne _ _).trans hr

/-! ## Runs -/

theorem Accounted.step {op : TempOp} (hstep : TempStep c op c') :
    Accounted before (fun q => lost q ∨ op.Loses q) c' := by
  obtain ⟨hpossible, hperform⟩ := hstep
  have hquiet : (∀ q, ¬ op.Loses q) → ∀ q, (lost q ∨ op.Loses q) ↔ lost q := fun hnone q =>
    or_iff_left (hnone q)
  cases op with
  | store p content =>
      obtain ⟨path, hp, rfl⟩ := Option.map_eq_some_iff.mp hperform
      exact (h.stored hp).congr (hquiet fun _ => id)
  | destroy p =>
      cases p with
      | none =>
          cases hperform
          exact h.congr (hquiet fun _ => id)
      | some p =>
          obtain ⟨path, hp, rfl⟩ := Option.map_eq_some_iff.mp hperform
          exact (h.destroyed hp).congr (hquiet fun _ => id)
  | create namePrefix content o turns =>
      obtain ⟨created, hcreate, rfl⟩ := Option.map_eq_some_iff.mp hperform
      by_cases hmade : ∃ p s path, namePrefix = some p ∧ content = some s ∧
          mkstemp (patternOf p) o.name = .ok path
      · obtain ⟨p, s, path, rfl, rfl, hname⟩ := hmade
        obtain ⟨-, hreturned, hfiles⟩ := tempFileCreate_of_ok hname hcreate
        have hnone := hpossible.fresh path hname
        unfold TempPaths.keep
        rw [hreturned, hfiles]
        cases hdup : o.strdup with
        | true =>
            refine (h.made hnone).congr (hquiet fun q hloses => ?_)
            exact Bool.noConfusion (hloses.2.symm.trans hdup)
        | false =>
            refine (h.orphaned hnone).congr fun q => or_congr_right ⟨fun hloses => ?_, ?_⟩
            · exact Except.ok.inj (hloses.1.symm.trans hname)
            · rintro rfl
              exact ⟨hname, hdup⟩
      · have hnot : ∀ p s path, namePrefix = some p → content = some s →
            mkstemp (patternOf p) o.name ≠ .ok path := fun p s path hp hs hname =>
          hmade ⟨p, s, path, hp, hs, hname⟩
        obtain ⟨e, rfl⟩ := tempFileCreate_of_none hnot hcreate
        refine h.congr (hquiet fun q hloses => ?_)
        cases namePrefix with
        | none => exact hloses
        | some p =>
            cases content with
            | none => exact hloses
            | some s => exact hnot p s q rfl rfl hloses.1

end Operations

theorem accounted_runs {ops : List TempOp} (hrun : Runs TempStep (.fresh before) ops c) :
    Accounted before (Lost ops) c := by
  induction hrun with
  | refl => exact (accounted_fresh before).congr fun path => by simp [Lost]
  | tail _ hstep ih => exact (ih.step hstep).congr fun path => lost_concat

/-- At any time: no path belongs to two pointers, and the files that are not as before are those
whose paths the caller has, and those whose path has been lost because `strdup` failed.  The
`unlink` of a file that was made is not refused. -/
theorem temp_paths_accounted (before : Files) {ops : List TempOp} {c : TempPaths}
    (hrun : Runs TempStep (.fresh before) ops c) :
    (∀ p q path, c.paths p = some path → c.paths q = some path → p = q) ∧
    ∀ path, c.files path ≠ before path ↔
      (∃ p, c.paths p = some path) ∨ ∃ op ∈ ops, op.Loses path := by
  have h := accounted_runs hrun
  refine ⟨h.distinct, fun path => ⟨fun hchanged => ?_, ?_⟩⟩
  · by_contra hnone
    rw [not_or, not_exists] at hnone
    exact hchanged (h.rest path hnone.1 hnone.2)
  · rintro (⟨p, hp⟩ | hlost)
    · obtain ⟨hbefore, hfile, -⟩ := h.live p path hp
      rwa [hbefore]
    · obtain ⟨hbefore, hfile⟩ := h.orphan path hlost
      rwa [hbefore]

/-- `strdup` fails behind a `mkstemp` that has made the file: nobody knows the path, and the
file stays. -/
theorem temp_paths_accounted_lost :
    ∃ c, Runs TempStep (.fresh fun _ => none)
        [.create (some letter) (some letter) { onDisk (.wrote 1) with strdup := false } 1] c ∧
      c.files letterFile ≠ none := by
  have hletter : (onDisk (.wrote 1)).Possible letter letter (fun _ => none) :=
    onDisk_possible ⟨Nat.le_refl 1, by decide⟩ rfl
  have hrun : Runs TempStep (.fresh fun _ => none)
      [.create (some letter) (some letter) { onDisk (.wrote 1) with strdup := false } 1] _ :=
    .single ⟨⟨hletter.fresh, hletter.writes⟩, rfl⟩
  refine ⟨_, hrun, ((temp_paths_accounted _ hrun).2 letterFile).mpr (.inr ?_)⟩
  exact ⟨_, List.mem_singleton_self _, rfl, rfl⟩

end Ftl.Io
