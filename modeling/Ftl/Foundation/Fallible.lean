/-
  Foundation/Fallible.lean --- computations that can throw at certain points, and can end
  the process.

  The points that a computation comes by are numbered; a schedule says at which of them it
  throws.  Nothing catches.  `Costs x k e` says that `x` comes by `k` points and then ends
  like `e`, unless it throws at one of them:

      Costs.pure, Costs.bind, Costs.final_bind, Costs.foldlM   how costs compose
      Costs.threw_iff   it throws exactly when one of its points does
-/
import Mathlib.Data.List.Basic

set_option autoImplicit false

namespace Ftl.Foundation

variable {ω α β : Type}

/-- How a computation ends, and the number of the next point. -/
inductive Finish (ω α : Type) where
  | returned (a : α) (next : Nat)
  | threw (next : Nat)
  /-- the process is over -/
  | ended (w : ω) (next : Nat)

/-- A computation under a schedule, from the point with the given number on. -/
def Fallible (ω α : Type) : Type := (Nat → Bool) → Nat → Finish ω α

namespace Fallible

/-- Go on with `f` where `x` returns. -/
def bind (x : Fallible ω α) (f : α → Fallible ω β) : Fallible ω β := fun fails n =>
  match x fails n with
  | .returned a m => f a fails m
  | .threw m => .threw m
  | .ended w m => .ended w m

instance : Monad (Fallible ω) where
  pure a := fun _ n => .returned a n
  bind := bind

/-- A point. -/
def point : Fallible ω Unit := fun fails n =>
  if fails n then .threw n else .returned () (n + 1)

/-- `throw`. -/
def throw : Fallible ω α := fun _ n => .threw n

/-- End the process. -/
def stop (w : ω) : Fallible ω α := fun _ n => .ended w n

end Fallible

/-- How a computation that does not throw ends. -/
inductive Quiet (ω α : Type) where
  | value (a : α)
  | final (w : ω)

/-- The same, with the number of the next point. -/
def Quiet.finish (n : Nat) : Quiet ω α → Finish ω α
  | .value a => .returned a n
  | .final w => .ended w n

/-- `x` comes by `k` points and ends like `e`, unless it throws at one of them. -/
structure Costs (x : Fallible ω α) (k : Nat) (e : Quiet ω α) : Prop where
  quiet : ∀ fails n, (∀ i, n ≤ i → i < n + k → fails i = false) → x fails n = e.finish (n + k)
  throws : ∀ fails n i, n ≤ i → i < n + k → fails i = true → ∃ m, x fails n = .threw m

namespace Costs

theorem pure (a : α) : Costs (Pure.pure a : Fallible ω α) 0 (.value a) where
  quiet := fun _ _ _ => rfl
  throws := by
    intro fails n i hle hlt
    omega

theorem stop (w : ω) : Costs (Fallible.stop w : Fallible ω α) 0 (.final w) where
  quiet := fun _ _ _ => rfl
  throws := by
    intro fails n i hle hlt
    omega

theorem point : Costs (Fallible.point : Fallible ω Unit) 1 (.value ()) where
  quiet := by
    intro fails n hquiet
    have hn := hquiet n (Nat.le_refl n) (Nat.lt_succ_self n)
    simp [Fallible.point, hn, Quiet.finish]
  throws := by
    intro fails n i hle hlt hfails
    have hi : i = n := by omega
    rw [hi] at hfails
    exact ⟨n, by simp [Fallible.point, hfails]⟩

variable {x : Fallible ω α} {k : Nat} {a : α} {w : ω}

theorem bind {f : α → Fallible ω β} {l : Nat} {e : Quiet ω β} (hx : Costs x k (.value a))
    (hf : Costs (f a) l e) : Costs (x >>= f) (k + l) e where
  quiet := by
    intro fails n hquiet
    have hfirst := hx.quiet fails n fun i hle hlt => hquiet i hle (by omega)
    have hsecond := hf.quiet fails (n + k) fun i hle hlt => hquiet i (by omega) (by omega)
    change Fallible.bind x f fails n = _
    unfold Fallible.bind
    rw [hfirst, ← Nat.add_assoc]
    exact hsecond
  throws := by
    intro fails n i hle hlt hfails
    change ∃ m, Fallible.bind x f fails n = _
    unfold Fallible.bind
    by_cases hbefore : ∃ j, n ≤ j ∧ j < n + k ∧ fails j = true
    · obtain ⟨j, hj, hj', hjfails⟩ := hbefore
      obtain ⟨m, hm⟩ := hx.throws fails n j hj hj' hjfails
      exact ⟨m, by rw [hm]⟩
    · have hnone : ∀ j, n ≤ j → j < n + k → fails j = false := by
        intro j hj hj'
        cases hjfails : fails j with
        | true => exact (hbefore ⟨j, hj, hj', hjfails⟩).elim
        | false => rfl
      have hk : n + k ≤ i := by
        by_contra hik
        rw [hnone i hle (by omega)] at hfails
        cases hfails
      obtain ⟨m, hm⟩ := hf.throws fails (n + k) i hk (by omega) hfails
      refine ⟨m, ?_⟩
      rw [hx.quiet fails n hnone]
      exact hm

/-- What comes behind a computation that ends the process is not reached. -/
theorem final_bind (hx : Costs x k (.final w)) (f : α → Fallible ω β) :
    Costs (x >>= f) k (.final w) where
  quiet := by
    intro fails n hquiet
    change Fallible.bind x f fails n = _
    unfold Fallible.bind
    rw [hx.quiet fails n hquiet]
    rfl
  throws := by
    intro fails n i hle hlt hfails
    obtain ⟨m, hm⟩ := hx.throws fails n i hle hlt hfails
    change ∃ m, Fallible.bind x f fails n = _
    unfold Fallible.bind
    exact ⟨m, by rw [hm]⟩

/-- The points of a loop over a list. -/
def foldCost (g : β → α → β) (cost : β → α → Nat) : β → List α → Nat
  | _, [] => 0
  | b, a :: l => cost b a + foldCost g cost (g b a) l

theorem foldCost_const (g : β → α → β) (c : Nat) (b : β) (l : List α) :
    foldCost g (fun _ _ => c) b l = c * l.length := by
  induction l generalizing b with
  | nil => rfl
  | cons a l ih =>
      rw [foldCost, ih, List.length_cons, Nat.mul_succ, Nat.add_comm]

/-- A loop over a list, none of whose turns ends the process. -/
theorem foldlM {f : β → α → Fallible ω β} {g : β → α → β} {cost : β → α → Nat}
    (hf : ∀ b a, Costs (f b a) (cost b a) (.value (g b a))) (b : β) (l : List α) :
    Costs (l.foldlM f b) (foldCost g cost b l) (.value (l.foldl g b)) := by
  induction l generalizing b with
  | nil => exact pure b
  | cons a l ih => exact (hf b a).bind (ih (g b a))

/-- A computation throws exactly when one of its points does. -/
theorem threw_iff {e : Quiet ω α} (h : Costs x k e) (fails : Nat → Bool) (n : Nat) :
    (∃ m, x fails n = .threw m) ↔ ∃ i, n ≤ i ∧ i < n + k ∧ fails i = true := by
  constructor
  · rintro ⟨m, hm⟩
    by_contra hnone
    have hquiet := h.quiet fails n fun i hle hlt => by
      cases hi : fails i with
      | true => exact (hnone ⟨i, hle, hlt, hi⟩).elim
      | false => rfl
    rw [hm] at hquiet
    cases e with
    | value a => cases hquiet
    | final w => cases hquiet
  · rintro ⟨i, hle, hlt, hi⟩
    exact h.throws fails n i hle hlt hi

/-- A computation that does not throw ends as it does where no point throws. -/
theorem eq_finish {e : Quiet ω α} (h : Costs x k e) {fails : Nat → Bool} {n : Nat}
    (hnot : ∀ m, x fails n ≠ .threw m) : x fails n = e.finish (n + k) := by
  refine h.quiet fails n fun i hle hlt => ?_
  cases hi : fails i with
  | false => rfl
  | true =>
      obtain ⟨m, hm⟩ := h.throws fails n i hle hlt hi
      exact (hnot m hm).elim

end Costs

end Ftl.Foundation
