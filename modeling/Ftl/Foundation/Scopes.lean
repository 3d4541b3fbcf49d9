/-
  Foundation/Scopes.lean --- programs whose local objects have destructors.

  The objects of the open scopes are in a list, the youngest first.  Whichever way a scope is
  left, its objects are destroyed from the youngest on; an exception that leaves a destructor
  ends the process at once.  The objects and the primitive statements are parameters.

      Exec.invariant   what the primitives and the destructors keep, every program keeps
      Exec.lives       where no destructor throws, the process goes on
      Exec.closed      a program that has left its outermost scope has no objects
-/
import Mathlib.Logic.Basic

set_option autoImplicit false

namespace Ftl.Foundation

/-- The living objects, the youngest first, and the rest of the state. -/
structure Scoped (O R : Type) where
  objects : List O
  rest : R

/-- How a statement ends. -/
inductive Ending where
  | normal
  | threw
  | returned
  /-- the process is over -/
  | terminated
  deriving DecidableEq, Repr

/-- What the objects are, and what can be done to them. -/
structure ScopeLang (O R P : Type) where
  /-- the primitive statements, and how they end -/
  prim : P → Scoped O R → Ending → Scoped O R → Prop
  /-- the destructor: whether an exception leaves it, and what it does -/
  destroy : O → R → Bool × R

/-- Statements. -/
inductive Stmt (P : Type) where
  | skip
  | prim (p : P)
  | throw
  | ret
  | seq (s t : Stmt P)
  | block (s : Stmt P)
  /-- `try` a block, and another one if it throws -/
  | attempt (s handler : Stmt P)
  /-- one of two blocks -/
  | either (s t : Stmt P)
  /-- a block, over and over -/
  | loop (s : Stmt P)

/-- Every primitive of the statement has the property `Q`. -/
def Stmt.All {P : Type} (Q : P → Prop) : Stmt P → Prop
  | .skip | .throw | .ret => True
  | .prim p => Q p
  | .seq s t | .attempt s t | .either s t => s.All Q ∧ t.All Q
  | .block s | .loop s => s.All Q

theorem Stmt.all_of_forall {P : Type} {Q : P → Prop} (h : ∀ p, Q p) (st : Stmt P) :
    st.All Q := by
  induction st with
  | skip | throw | ret => trivial
  | prim p => exact h p
  | seq _ _ ih ih' | attempt _ _ ih ih' | either _ _ ih ih' => exact ⟨ih, ih'⟩
  | block _ ih | loop _ ih => exact ih

namespace ScopeLang

variable {O R P : Type} (L : ScopeLang O R P)

/-- Destroy objects until `height` are left.  The first component says that the process is
over. -/
def unwind (height : Nat) : List O → R → Bool × Scoped O R
  | [], rest => (false, ⟨[], rest⟩)
  | o :: objects, rest =>
      if objects.length < height then (false, ⟨o :: objects, rest⟩)
      else if (L.destroy o rest).1 then (true, ⟨objects, (L.destroy o rest).2⟩)
      else unwind height objects (L.destroy o rest).2

/-- The end of a scope that was entered with `height` objects. -/
def leave (height : Nat) (out : Ending) (s : Scoped O R) : Ending × Scoped O R :=
  if out = .terminated then (.terminated, s)
  else
    (if (L.unwind height s.objects s.rest).1 then .terminated else out,
      (L.unwind height s.objects s.rest).2)

/-- `Exec st s out s'`: the statement can take the state `s` to `s'`, and end like `out`. -/
inductive Exec : Stmt P → Scoped O R → Ending → Scoped O R → Prop
  | skip {s : Scoped O R} : Exec .skip s .normal s
  | prim {p : P} {s s' : Scoped O R} {out : Ending} :
      L.prim p s out s' → Exec (.prim p) s out s'
  | throw {s : Scoped O R} : Exec .throw s .threw s
  | ret {s : Scoped O R} : Exec .ret s .returned s
  | seq {st tt : Stmt P} {s t u : Scoped O R} {out : Ending} :
      Exec st s .normal t → Exec tt t out u → Exec (.seq st tt) s out u
  | seqLeft {st tt : Stmt P} {s t : Scoped O R} {out : Ending} :
      Exec st s out t → out ≠ .normal → Exec (.seq st tt) s out t
  | block {st : Stmt P} {s t : Scoped O R} {out : Ending} :
      Exec st s out t →
      Exec (.block st) s (L.leave s.objects.length out t).1 (L.leave s.objects.length out t).2
  | attempt {st handler : Stmt P} {s t : Scoped O R} {out : Ending} :
      Exec (.block st) s out t → out ≠ .threw → Exec (.attempt st handler) s out t
  | caught {st handler : Stmt P} {s t u : Scoped O R} {out : Ending} :
      Exec (.block st) s .threw t → Exec (.block handler) t out u →
      Exec (.attempt st handler) s out u
  | left {st tt : Stmt P} {s t : Scoped O R} {out : Ending} :
      Exec (.block st) s out t → Exec (.either st tt) s out t
  | right {st tt : Stmt P} {s t : Scoped O R} {out : Ending} :
      Exec (.block tt) s out t → Exec (.either st tt) s out t
  | done {st : Stmt P} {s : Scoped O R} : Exec (.loop st) s .normal s
  | again {st : Stmt P} {s t u : Scoped O R} {out : Ending} :
      Exec (.block st) s .normal t → Exec (.loop st) t out u → Exec (.loop st) s out u
  | loopLeft {st : Stmt P} {s t : Scoped O R} {out : Ending} :
      Exec (.block st) s out t → out ≠ .normal → Exec (.loop st) s out t

variable {L} {I : Scoped O R → Prop}

/-- What the destructors keep is kept when a scope is left. -/
theorem unwind_keeps
    (hdestroy : ∀ o objects rest, I ⟨o :: objects, rest⟩ → I ⟨objects, (L.destroy o rest).2⟩)
    (height : Nat) {objects : List O} {rest : R} (h : I ⟨objects, rest⟩) :
    I (L.unwind height objects rest).2 := by
  induction objects generalizing rest with
  | nil => exact h
  | cons o objects ih =>
      unfold unwind
      split
      · exact h
      · split
        · exact hdestroy o objects rest h
        · exact ih (hdestroy o objects rest h)

theorem leave_keeps
    (hdestroy : ∀ o objects rest, I ⟨o :: objects, rest⟩ → I ⟨objects, (L.destroy o rest).2⟩)
    (height : Nat) (out : Ending) {s : Scoped O R} (h : I s) : I (L.leave height out s).2 := by
  unfold leave
  split
  · exact h
  · exact unwind_keeps hdestroy height h

/-- What the primitives of a program and the destructors keep, the program keeps. -/
theorem Exec.invariant {Q : P → Prop}
    (hprim : ∀ p s out s', Q p → I s → L.prim p s out s' → I s')
    (hdestroy : ∀ o objects rest, I ⟨o :: objects, rest⟩ → I ⟨objects, (L.destroy o rest).2⟩)
    {st : Stmt P} {s s' : Scoped O R} {out : Ending} (hexec : L.Exec st s out s')
    (hall : st.All Q) (hinit : I s) : I s' := by
  induction hexec with
  | skip | throw | ret | done => exact hinit
  | prim hstep => exact hprim _ _ _ _ hall hinit hstep
  | seq _ _ ih ih' => exact ih' hall.2 (ih hall.1 hinit)
  | seqLeft _ _ ih => exact ih hall.1 hinit
  | block _ ih => exact leave_keeps hdestroy _ _ (ih hall hinit)
  | attempt _ _ ih => exact ih hall.1 hinit
  | caught _ _ ih ih' => exact ih' hall.2 (ih hall.1 hinit)
  | left _ ih => exact ih hall.1 hinit
  | right _ ih => exact ih hall.2 hinit
  | again _ _ ih ih' => exact ih' hall (ih hall hinit)
  | loopLeft _ _ ih => exact ih hall hinit

/-- Where no exception leaves a destructor, nothing ends the process but a primitive. -/
theorem Exec.lives (hdestroy : ∀ o rest, (L.destroy o rest).1 = false)
    (hprim : ∀ p s out s', L.prim p s out s' → out ≠ .terminated) {st : Stmt P}
    {s s' : Scoped O R} {out : Ending} (hexec : L.Exec st s out s') : out ≠ .terminated := by
  have hunwind : ∀ height objects rest, (L.unwind height objects rest).1 = false := by
    intro height objects
    induction objects with
    | nil => exact fun _ => rfl
    | cons o objects ih =>
        intro rest
        unfold unwind
        split
        · rfl
        · rw [if_neg (by simp [hdestroy])]
          exact ih _
  induction hexec with
  | skip | throw | ret | done => nofun
  | prim hstep => exact hprim _ _ _ _ hstep
  | block _ ih =>
      unfold leave
      rw [if_neg ih, hunwind]
      exact ih
  | seq _ _ _ ih | caught _ _ _ ih | again _ _ _ ih => exact ih
  | seqLeft _ _ ih | attempt _ _ ih | loopLeft _ _ ih => exact ih
  | left _ ih | right _ ih => exact ih

/-- All objects are destroyed, unless the process ends before. -/
theorem unwind_empties {objects : List O} {rest : R}
    (hgoes : (L.unwind 0 objects rest).1 = false) : (L.unwind 0 objects rest).2.objects = [] := by
  induction objects generalizing rest with
  | nil => rfl
  | cons o objects ih =>
      unfold unwind at hgoes ⊢
      rw [if_neg (Nat.not_lt_zero _)] at hgoes ⊢
      split
      · rename_i hdies
        rw [if_pos hdies] at hgoes
        cases hgoes
      · rename_i hlives
        rw [if_neg hlives] at hgoes
        exact ih hgoes

/-- A program that has left its outermost scope has no objects. -/
theorem Exec.closed {st : Stmt P} {s s' : Scoped O R} {out : Ending}
    (hexec : L.Exec (.block st) s out s') (hempty : s.objects = []) (hout : out ≠ .terminated) :
    s'.objects = [] := by
  cases hexec with
  | @block _ _ t inner hinner =>
      rw [hempty, List.length_nil] at hout ⊢
      unfold leave at hout ⊢
      split
      · rename_i hover
        rw [if_pos hover] at hout
        exact (hout rfl).elim
      · rename_i hgoes
        rw [if_neg hgoes] at hout
        refine unwind_empties ?_
        cases hdies : (L.unwind 0 t.objects t.rest).1 with
        | false => rfl
        | true =>
            rw [hdies] at hout
            exact (hout rfl).elim

end ScopeLang

end Ftl.Foundation
