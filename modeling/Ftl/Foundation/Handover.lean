/-
  Foundation/Handover.lean --- a loop that asks until it is over, and the loop that
  hands a list over piece by piece.

  An `AskLoop` asks in every state that is not over and goes on from the answer.  It is
  fed an endless stream of answers; those after its end are not looked at.

      AskLoop.invariant   what every admitted answer preserves holds after each of them
      AskLoop.simulates   two loops that answer alike stay related
      AskLoop.ends        a loop whose answers make progress, but for finitely many, ends

  A `Handover` asks for all that is left of a list and is granted the beginning of it,
  nothing for now, or nothing any more.
-/
import Mathlib.Data.List.Basic

set_option autoImplicit false

namespace Ftl.Foundation

/-- A loop: the states in which it is over, and the state after an answer. -/
structure AskLoop (S L : Type) where
  isOver : S → Bool
  next : S → L → S

namespace AskLoop

variable {S T L M : Type}

/-- The state after `k` answers of the stream. -/
def after (A : AskLoop S L) (s : S) (stream : Nat → L) : Nat → S
  | 0 => s
  | k + 1 =>
      if A.isOver (A.after s stream k) then A.after s stream k
      else A.next (A.after s stream k) (stream k)

/-- Every answer that is asked for is one that the state allows. -/
def Admits (A : AskLoop S L) (allowed : S → L → Prop) (s : S) (stream : Nat → L) : Prop :=
  ∀ k, A.isOver (A.after s stream k) = false → allowed (A.after s stream k) (stream k)

variable {A : AskLoop S L} {allowed : S → L → Prop} {s : S} {stream : Nat → L} {k : Nat}

theorem after_succ_of_over (h : A.isOver (A.after s stream k) = true) :
    A.after s stream (k + 1) = A.after s stream k := by
  rw [after, if_pos h]

theorem after_succ (h : A.isOver (A.after s stream k) = false) :
    A.after s stream (k + 1) = A.next (A.after s stream k) (stream k) := by
  rw [after, if_neg (by simp [h])]

theorem after_of_over (h : A.isOver (A.after s stream k) = true) {m : Nat} (hm : k ≤ m) :
    A.after s stream m = A.after s stream k := by
  induction hm with
  | refl => rfl
  | step _ ih => rw [after_succ_of_over (ih ▸ h), ih]

/-- What allowed answers preserve, of the state and the number of answers before it,
holds after any number of them. -/
theorem invariant_count (Inv : Nat → S → Prop) (hadmits : A.Admits allowed s stream)
    (hinit : Inv 0 s) (hover : ∀ k a, A.isOver a = true → Inv k a → Inv (k + 1) a)
    (hstep : ∀ k a, A.isOver a = false → allowed a (stream k) → Inv k a →
      Inv (k + 1) (A.next a (stream k))) (k : Nat) :
    Inv k (A.after s stream k) := by
  induction k with
  | zero => exact hinit
  | succ k ih =>
      cases h : A.isOver (A.after s stream k) with
      | true =>
          rw [after_succ_of_over h]
          exact hover k _ h ih
      | false =>
          rw [after_succ h]
          exact hstep k _ h (hadmits k h) ih

theorem invariant (Inv : S → Prop) (hadmits : A.Admits allowed s stream) (hinit : Inv s)
    (hstep : ∀ a l, A.isOver a = false → allowed a l → Inv a → Inv (A.next a l)) (k : Nat) :
    Inv (A.after s stream k) :=
  invariant_count (fun _ => Inv) hadmits hinit (fun _ _ _ h => h)
    (fun k a hover hallowed h => hstep a (stream k) hover hallowed h) k

/-- Loops whose related states are over together, and which answers keep related, are
related after any number of answers. -/
theorem simulates {B : AskLoop T M} (R : S → T → Prop) (f : L → M) {t : T}
    (hadmits : A.Admits allowed s stream) (hinit : R s t)
    (hover : ∀ a b, R a b → A.isOver a = B.isOver b)
    (hstep : ∀ a b l, R a b → A.isOver a = false → allowed a l →
      R (A.next a l) (B.next b (f l))) (k : Nat) :
    R (A.after s stream k) (B.after t (fun i => f (stream i)) k) := by
  induction k with
  | zero => exact hinit
  | succ k ih =>
      have hsame := hover _ _ ih
      cases h : A.isOver (A.after s stream k) with
      | true =>
          rw [after_succ_of_over h, after_succ_of_over (hsame ▸ h)]
          exact ih
      | false =>
          rw [after_succ h, after_succ (hsame ▸ h)]
          exact hstep _ _ _ ih h (hadmits k h)

/-! ## Termination -/

/-- If from some answer on each answer ends the loop or makes `measure` smaller, the loop
ends. -/
theorem ends (measure : S → Nat) (progress : L → Prop)
    (hadmits : A.Admits allowed s stream) (hfinite : ∃ n, ∀ k, n ≤ k → progress (stream k))
    (hstep : ∀ a l, A.isOver a = false → allowed a l → progress l →
      A.isOver (A.next a l) = true ∨ measure (A.next a l) < measure a) :
    ∃ k, A.isOver (A.after s stream k) = true := by
  obtain ⟨n, hn⟩ := hfinite
  -- by induction on what is left to be done after `k` answers
  have hbound : ∀ m k, n ≤ k → measure (A.after s stream k) ≤ m →
      ∃ k, A.isOver (A.after s stream k) = true := by
    intro m
    induction m with
    | zero =>
        intro k hk hm
        cases h : A.isOver (A.after s stream k) with
        | true => exact ⟨k, h⟩
        | false =>
            rcases hstep _ _ h (hadmits k h) (hn k hk) with hover | hless
            · exact ⟨k + 1, by rw [after_succ h]; exact hover⟩
            · omega
    | succ m ih =>
        intro k hk hm
        cases h : A.isOver (A.after s stream k) with
        | true => exact ⟨k, h⟩
        | false =>
            rcases hstep _ _ h (hadmits k h) (hn k hk) with hover | hless
            · exact ⟨k + 1, by rw [after_succ h]; exact hover⟩
            · refine ih (k + 1) (Nat.le_succ_of_le hk) ?_
              rw [after_succ h]
              omega
  exact hbound _ n (Nat.le_refl n) (Nat.le_refl _)

end AskLoop

/-! ## Handing a list over -/

/-- The answer to a request for all that is left. -/
inductive Grant where
  /-- the first `n` items are taken -/
  | taken (n : Nat)
  /-- nothing is taken; the request can be repeated -/
  | again
  /-- nothing is taken, now or later -/
  | refused
  deriving DecidableEq, Repr

/-- A list of which `sent` has been taken and `rest` has not. -/
structure Handover (α : Type) where
  sent : List α
  rest : List α
  refused : Bool

namespace Handover

variable {α : Type}

/-- All of `items` is left. -/
def begin (items : List α) : Handover α := ⟨[], items, false⟩

/-- It is over when nothing is left, or when nothing will be taken any more. -/
def isOver (h : Handover α) : Bool := h.rest.isEmpty || h.refused

/-- What becomes of the list. -/
def next (h : Handover α) : Grant → Handover α
  | .taken n => { h with sent := h.sent ++ h.rest.take n, rest := h.rest.drop n }
  | .again => h
  | .refused => { h with refused := true }

/-- At least one item is taken, and no more than there are. -/
def Allows (h : Handover α) : Grant → Prop
  | .taken n => 1 ≤ n ∧ n ≤ h.rest.length
  | _ => True

/-- The loop that asks for what is left. -/
def loop (α : Type) : AskLoop (Handover α) Grant := ⟨isOver, next⟩

variable {items : List α} {stream : Nat → Grant}

/-- Nothing is lost and nothing is taken twice. -/
theorem conserves (hadmits : (loop α).Admits Allows (begin items) stream) (k : Nat) :
    ((loop α).after (begin items) stream k).sent ++
      ((loop α).after (begin items) stream k).rest = items := by
  refine AskLoop.invariant (fun h => h.sent ++ h.rest = items) hadmits rfl ?_ k
  intro h grant _ _ hitems
  cases grant with
  | taken n =>
      simp only [loop, next]
      rw [List.append_assoc, List.take_append_drop]
      exact hitems
  | again => exact hitems
  | refused => exact hitems

/-- It ends if only finitely many requests have to be repeated. -/
theorem ends (hadmits : (loop α).Admits Allows (begin items) stream)
    (hfinite : ∃ n, ∀ k, n ≤ k → stream k ≠ .again) :
    ∃ k, (loop α).isOver ((loop α).after (begin items) stream k) = true := by
  refine AskLoop.ends (fun h => h.rest.length) (· ≠ .again) hadmits hfinite ?_
  intro h grant hover hallows hgrant
  cases grant with
  | taken n =>
      obtain ⟨hpos, hle⟩ := hallows
      refine .inr ?_
      simp only [loop, next, List.length_drop]
      omega
  | again => exact (hgrant rfl).elim
  | refused => exact .inl (by simp [loop, isOver, next])

/-- As long as nothing is refused, the end leaves nothing over. -/
theorem sent_of_over (hadmits : (loop α).Admits Allows (begin items) stream) {k : Nat}
    (hover : (loop α).isOver ((loop α).after (begin items) stream k) = true)
    (hnone : ∀ j, j < k → stream j ≠ .refused) :
    ((loop α).after (begin items) stream k).sent = items := by
  have hgoes : (∀ j, j < k → stream j ≠ .refused) →
      ((loop α).after (begin items) stream k).refused = false := by
    refine AskLoop.invariant_count
      (fun k h => (∀ j, j < k → stream j ≠ .refused) → h.refused = false) hadmits
      (fun _ => rfl) ?_ ?_ k
    · intro k h _ ih hnone
      exact ih fun j hj => hnone j (Nat.lt_succ_of_lt hj)
    · intro k h _ _ ih hnone
      have hbefore := ih fun j hj => hnone j (Nat.lt_succ_of_lt hj)
      have hlast := hnone k (Nat.lt_succ_self k)
      cases hgrant : stream k with
      | taken n => exact hbefore
      | again => exact hbefore
      | refused => exact (hlast hgrant).elim
  have hrest : ((loop α).after (begin items) stream k).rest = [] := by
    have hover' := hover
    simp only [loop, isOver, Bool.or_eq_true, List.isEmpty_iff] at hover'
    rcases hover' with hrest | hrefused
    · exact hrest
    · have hfalse := hgoes hnone
      simp only [loop] at hfalse
      rw [hfalse] at hrefused
      cases hrefused
  have hitems := conserves hadmits k
  rw [hrest, List.append_nil] at hitems
  exact hitems

end Handover

end Ftl.Foundation
