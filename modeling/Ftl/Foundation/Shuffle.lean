/-
  Foundation/Shuffle.lean --- what two ordered streams can become in one place.

  A shuffle has every element of both streams exactly once, and each stream in its own
  order.  Shuffles can be put one after the other (`Shuffle.append`).
-/
import Mathlib.Data.List.Basic

set_option autoImplicit false

namespace Ftl.Foundation

variable {α : Type}

/-- The third list is a shuffle of the first two. -/
inductive Shuffle : List α → List α → List α → Prop where
  | nil : Shuffle [] [] []
  | left {a : α} {xs ys zs : List α} (rest : Shuffle xs ys zs) : Shuffle (a :: xs) ys (a :: zs)
  | right {a : α} {xs ys zs : List α} (rest : Shuffle xs ys zs) : Shuffle xs (a :: ys) (a :: zs)

namespace Shuffle

variable {xs ys zs xs' ys' zs' : List α}

theorem of_left (xs : List α) : Shuffle xs [] xs := by
  induction xs with
  | nil => exact .nil
  | cons a xs ih => exact .left ih

theorem of_right (ys : List α) : Shuffle [] ys ys := by
  induction ys with
  | nil => exact .nil
  | cons a ys ih => exact .right ih

theorem append (h : Shuffle xs ys zs) (h' : Shuffle xs' ys' zs') :
    Shuffle (xs ++ xs') (ys ++ ys') (zs ++ zs') := by
  induction h with
  | nil => exact h'
  | left _ ih => exact .left ih
  | right _ ih => exact .right ih

end Shuffle

end Ftl.Foundation
