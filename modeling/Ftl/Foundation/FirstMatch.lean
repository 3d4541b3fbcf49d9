/-
  Foundation/FirstMatch.lean --- what a search along a list depends on.

  `l.findSome? f` asks the elements of `l` in order and stops at the first answer.
  Repetitions are never asked a second time with success, and everything else matters:

      findSome?_congr_iff   two lists give the same answer to every question exactly
                            when their first occurrences are the same

  Where the answers may change while the search is under way, the `i`-th question has an
  answer of its own.

      stopsAtFirst_asked    what is asked, as a list of questions, ends at the first success
-/
import Mathlib.Logic.Nontrivial.Defs

set_option autoImplicit false

namespace Ftl.Foundation

variable {α β : Type} [DecidableEq α]

/-- The question `f`, which `a` does not answer any more. -/
def unanswered (a : α) (f : α → Option β) (x : α) : Option β :=
  if x = a then none else f x

/-- Leaving out an element is asking a question that it does not answer. -/
theorem findSome?_filter_ne (a : α) (f : α → Option β) (l : List α) :
    (l.filter fun x => !x == a).findSome? f = l.findSome? (unanswered a f) := by
  induction l with
  | nil => rfl
  | cons x l ih =>
      rw [List.findSome?_cons, List.filter_cons]
      by_cases hx : x = a
      · rw [unanswered, if_pos hx, if_neg (by simp [hx])]
        exact ih
      · rw [unanswered, if_neg hx, if_pos (by simpa using hx), List.findSome?_cons, ih]

theorem findSome?_cons_unanswered (a : α) (f : α → Option β) (l : List α) :
    (a :: l).findSome? (unanswered a f) = l.findSome? (unanswered a f) := by
  rw [List.findSome?_cons, unanswered, if_pos rfl]

theorem findSome?_eraseDups (f : α → Option β) (l : List α) :
    l.eraseDups.findSome? f = l.findSome? f := by
  match l with
  | [] => rfl
  | a :: l =>
      have hshorter : (l.filter fun x => !x == a).length < l.length + 1 :=
        Nat.lt_succ_of_le (List.length_filter_le _ l)
      rw [List.eraseDups_cons, List.findSome?_cons, List.findSome?_cons]
      cases ha : f a with
      | some b => rfl
      | none =>
          rw [findSome?_eraseDups f _, findSome?_filter_ne]
          have hsame : unanswered a f = f := by
            funext x
            unfold unanswered
            split
            · rename_i hx
              rw [hx, ha]
            · rfl
          rw [hsame]
termination_by l.length

/-- Lists that give the same answers begin with the same element. -/
theorem head_eq_of_findSome? [Nontrivial β] {a b : α} {l m : List α}
    (h : ∀ f : α → Option β, (a :: l).findSome? f = (b :: m).findSome? f) : a = b := by
  obtain ⟨y, z, hne⟩ := exists_pair_ne β
  -- `a` answers `y`, everything else `z`
  have hask := h fun x => if x = a then some y else some z
  refine Decidable.byContradiction fun hab => ?_
  rw [List.findSome?_cons, List.findSome?_cons, if_pos rfl, if_neg fun hb => hab hb.symm] at hask
  exact hne (Option.some.inj hask)

/-- Two lists give the same answer to every question exactly when their first
occurrences are the same. -/
theorem findSome?_congr_iff [Nontrivial β] (l m : List α) :
    (∀ f : α → Option β, l.findSome? f = m.findSome? f) ↔ l.eraseDups = m.eraseDups := by
  constructor
  · intro h
    obtain ⟨y, z, hne⟩ := exists_pair_ne β
    match l, m with
    | [], [] => rfl
    | [], b :: m => cases h fun _ => some y
    | a :: l, [] => cases h fun _ => some y
    | a :: l, b :: m =>
        obtain rfl := head_eq_of_findSome? h
        have hshorter : (l.filter fun x => !x == a).length < l.length + 1 :=
          Nat.lt_succ_of_le (List.length_filter_le _ l)
        have hrest : ∀ f : α → Option β, (l.filter fun x => !x == a).findSome? f =
            (m.filter fun x => !x == a).findSome? f := by
          intro f
          rw [findSome?_filter_ne, findSome?_filter_ne, ← findSome?_cons_unanswered,
            h, findSome?_cons_unanswered]
        rw [List.eraseDups_cons, List.eraseDups_cons, (findSome?_congr_iff _ _).mp hrest]
  · intro h f
    rw [← findSome?_eraseDups, h, findSome?_eraseDups]
termination_by l.length

/-! ## Answers that change -/

section Asked

variable {γ : Type}

/-- What is asked along a list when `i` questions were asked before: question number `i`
is answered by `ok i`, and the first success ends the search. -/
def asked (ok : Nat → γ → Bool) (i : Nat) : List γ → List γ
  | [] => []
  | a :: l => if ok i a then [a] else a :: asked ok (i + 1) l

/-- `made` are the questions of `all`, in order, up to the first that succeeds. -/
structure StopsAtFirst (ok : Nat → γ → Bool) (all made : List γ) : Prop where
  inOrder : made <+: all
  /-- nothing is asked after a success -/
  failed : ∀ i a, i + 1 < made.length → made[i]? = some a → ok i a = false
  /-- nothing is left out without one -/
  complete : made = all ∨ ∃ front a, made = front ++ [a] ∧ ok front.length a = true

theorem asked_isPrefix (ok : Nat → γ → Bool) (i : Nat) (l : List γ) : asked ok i l <+: l := by
  induction l generalizing i with
  | nil => exact List.nil_prefix
  | cons a l ih =>
      rw [asked]
      split
      · exact ⟨l, rfl⟩
      · exact List.cons_prefix_cons.mpr ⟨rfl, ih (i + 1)⟩

theorem asked_failed (ok : Nat → γ → Bool) (i : Nat) {l : List γ} {j : Nat} {a : γ}
    (hj : j + 1 < (asked ok i l).length) (ha : (asked ok i l)[j]? = some a) :
    ok (i + j) a = false := by
  induction l generalizing i j with
  | nil => simp [asked] at hj
  | cons b l ih =>
      rw [asked] at hj ha
      split at hj
      · simp at hj
      · rename_i hfalse
        rw [if_neg hfalse] at ha
        cases j with
        | zero =>
            cases ha
            simpa using hfalse
        | succ j =>
            have hrest := ih (i + 1) (Nat.lt_of_succ_lt_succ hj) ha
            rwa [Nat.add_right_comm] at hrest

theorem asked_complete (ok : Nat → γ → Bool) (i : Nat) (l : List γ) :
    asked ok i l = l ∨
      ∃ front a, asked ok i l = front ++ [a] ∧ ok (i + front.length) a = true := by
  induction l generalizing i with
  | nil => exact .inl rfl
  | cons b l ih =>
      rw [asked]
      split
      · rename_i htrue
        exact .inr ⟨[], b, rfl, htrue⟩
      · rcases ih (i + 1) with hall | ⟨front, a, hlast, htrue⟩
        · exact .inl (by rw [hall])
        · refine .inr ⟨b :: front, a, by rw [hlast, List.cons_append], ?_⟩
          rwa [List.length_cons, ← Nat.add_assoc, Nat.add_right_comm]

theorem stopsAtFirst_asked (ok : Nat → γ → Bool) (l : List γ) :
    StopsAtFirst ok l (asked ok 0 l) where
  inOrder := asked_isPrefix ok 0 l
  failed i a hi ha := by simpa using asked_failed ok 0 hi ha
  complete := by simpa using asked_complete ok 0 l

/-- With answers that stay the same, the last question asked has the answer of the search. -/
theorem getLast?_asked (f : γ → Option β) (i : Nat) (l : List γ) :
    ((asked (fun _ a => (f a).isSome) i l).getLast?).bind f = l.findSome? f := by
  induction l generalizing i with
  | nil => rfl
  | cons a l ih =>
      rw [asked, List.findSome?_cons]
      cases ha : f a with
      | some b => simpa using ha
      | none =>
          rw [← ih (i + 1), Option.isSome_none, if_neg Bool.false_ne_true]
          cases hrest : asked (fun _ a => (f a).isSome) (i + 1) l with
          | nil => simpa using ha
          | cons c rest => rfl

end Asked

end Ftl.Foundation
