/-
  Foundation/Budget.lean --- what the steps of a run cost together.

  A step has a cost, and its label may earn a credit.  If a potential of the states pays for
  what no credit covers, the credits and the potential at the start pay for the whole run.

      Runs.covered      the cost of a run
      Runs.guard_back   what holds at the end, and before every step if after it, holds
                        throughout the run
-/
import Mathlib.Algebra.BigOperators.Ring.List
import Mathlib.Algebra.Ring.Nat
import Ftl.Foundation.Runs

set_option autoImplicit false

namespace Ftl.Foundation

variable {S L : Type}

/-- What the labels cost together. -/
def total (cost : L → Nat) (ls : List L) : Nat := (ls.map cost).sum

@[simp] theorem total_nil (cost : L → Nat) : total cost [] = 0 := rfl

@[simp] theorem total_concat (cost : L → Nat) (ls : List L) (l : L) :
    total cost (ls ++ [l]) = total cost ls + cost l := by
  simp [total]

theorem total_mul (cost : L → Nat) (k : Nat) (ls : List L) :
    total (fun l => k * cost l) ls = k * total cost ls :=
  List.sum_map_mul_left ls cost k

section Covered

variable {Step : S → L → S → Prop} {Inv : S → Prop} {cost credit : L → Nat} {Φ : S → Int}

/-- Every step is paid for by its credit and by what the potential loses. -/
def Covers (Step : S → L → S → Prop) (Inv : S → Prop) (cost credit : L → Nat) (Φ : S → Int) :
    Prop :=
  ∀ a l b, Inv a → Step a l b → Inv b ∧ (cost l : Int) + Φ b ≤ Φ a + credit l

theorem Runs.covered (hcovers : Covers Step Inv cost credit Φ) {s t : S} {ls : List L}
    (hrun : Runs Step s ls t) (hinit : Inv s) :
    (total cost ls : Int) + Φ t ≤ Φ s + total credit ls := by
  suffices hboth : Inv t ∧ (total cost ls : Int) + Φ t ≤ Φ s + total credit ls from hboth.2
  induction hrun with
  | refl => exact ⟨hinit, by simp⟩
  | @tail mid u ms l _ hlast ih =>
      obtain ⟨hinv, hpaid⟩ := ih
      obtain ⟨hinv', hcost⟩ := hcovers mid l u hinv hlast
      refine ⟨hinv', ?_⟩
      rw [total_concat, total_concat, Int.natCast_add, Int.natCast_add]
      omega

end Covered

/-- What holds at the end, and before a step whenever after it, holds throughout. -/
theorem Runs.guard_back {Step : S → L → S → Prop} {P : S → Prop}
    (hback : ∀ a l b, Step a l b → P b → P a) {s t : S} {ls : List L} (hrun : Runs Step s ls t)
    (hlast : P t) : P s ∧ Runs (Guarded Step fun _ b => P b) s ls t := by
  induction hrun with
  | refl => exact ⟨hlast, .refl _⟩
  | @tail mid u ms l _ hstep ih =>
      obtain ⟨hfirst, hruns⟩ := ih (hback mid l u hstep hlast)
      exact ⟨hfirst, .tail hruns ⟨hstep, hlast⟩⟩

end Ftl.Foundation
