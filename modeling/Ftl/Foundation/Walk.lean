/-
  Foundation/Walk.lean --- a walk along a list that its visitor can stop.

      walk_invariant            what the visits preserve, up to the first element that
                                stops the walk
      forall_dropWhile_iff      what holds of all elements from the first stop on, as a
                                condition on pairs of elements
-/
import Mathlib.Data.List.Basic

set_option autoImplicit false

namespace Ftl.Foundation

variable {S α : Type}

/-- Visit the elements in order, as long as the visitor says so. -/
def walk (visit : S → α → Bool × S) : S → List α → S
  | s, [] => s
  | s, a :: l =>
      if (visit s a).1 then walk visit (visit s a).2 l else (visit s a).2

/-- A visitor that is stopped by certain elements, and keeps an invariant of the elements
it has dealt with, has dealt with those before the first stop. -/
theorem walk_invariant {visit : S → α → Bool × S} (stops : α → Bool)
    (Inv : List α → S → Prop) {done l : List α} {s : S} (hinit : Inv done s)
    (hgo : ∀ done' a rest s, done ++ l = done' ++ a :: rest → stops a = false →
      Inv done' s → (visit s a).1 = true ∧ Inv (done' ++ [a]) (visit s a).2)
    (hstop : ∀ done' a s, stops a = true → Inv done' s →
      (visit s a).1 = false ∧ Inv done' (visit s a).2) :
    Inv (done ++ l.takeWhile fun a => !stops a) (walk visit s l) := by
  induction l generalizing done s with
  | nil =>
      rw [List.takeWhile_nil, List.append_nil]
      exact hinit
  | cons a l ih =>
      unfold walk
      cases ha : stops a with
      | true =>
          obtain ⟨hends, hinv⟩ := hstop done a s ha hinit
          rw [if_neg (by simp [hends]), List.takeWhile_cons_of_neg (by simp [ha]),
            List.append_nil]
          exact hinv
      | false =>
          obtain ⟨hgoes, hinv⟩ := hgo done a l s rfl ha hinit
          have hsplit : done ++ a :: l = done ++ [a] ++ l := by simp
          rw [if_pos hgoes, List.takeWhile_cons_of_pos (by simp [ha]), List.append_cons]
          refine ih hinv ?_
          intro done' b rest s' hrest
          exact hgo done' b rest s' (hsplit.trans hrest)

/-- `E` holds of everything from the first stop on exactly when it holds of every element
behind one that stops the walk. -/
theorem forall_dropWhile_iff {stops : α → Bool} {E : α → Prop} {l : List α}
    (hself : ∀ a ∈ l, stops a = true → E a) :
    (∀ a ∈ l.dropWhile fun a => !stops a, E a) ↔
      l.Pairwise fun a b => stops a = true → E b := by
  induction l with
  | nil => simp
  | cons a l ih =>
      have hrest : ∀ b ∈ l, stops b = true → E b := fun b hb => hself b (.tail a hb)
      rw [List.pairwise_cons, ← ih hrest]
      cases ha : stops a with
      | true =>
          rw [List.dropWhile_cons_of_neg (by simp [ha])]
          constructor
          · intro hall
            refine ⟨fun b hb _ => hall b (.tail a hb), fun b hb => hall b (.tail a ?_)⟩
            exact (List.dropWhile_sublist _).subset hb
          · rintro ⟨hbehind, -⟩ b hb
            rcases List.mem_cons.mp hb with rfl | hb
            · exact hself b (.head l) ha
            · exact hbehind b hb rfl
      | false =>
          rw [List.dropWhile_cons_of_pos (by simp [ha])]
          simp

end Ftl.Foundation
