/-
  Foundation/Custody.lean --- items that are taken into custody, given back and
  destroyed.

  A log records what happens to each item.  In an orderly log only an item that nobody
  holds is adopted, and only one that is held is released or destroyed.

      Orderly.adopts,
      Orderly.letsGo         what may be added to an orderly log
      Orderly.count_closed   an item is closed once if that was the last thing to happen
                             to it, and otherwise never
-/
import Mathlib.Data.List.Basic

set_option autoImplicit false

namespace Ftl.Foundation

/-- What can happen to the item `k`. -/
inductive Event (K : Type) where
  | adopted (k : K)
  | released (k : K)
  | closed (k : K)
  deriving DecidableEq, Repr

namespace Event

variable {K : Type}

/-- The item. -/
def about : Event K → K
  | adopted k | released k | closed k => k

variable [DecidableEq K]

/-- The last thing that happened to `k`. -/
def last (log : List (Event K)) (k : K) : Option (Event K) :=
  log.reverse.find? fun e => decide (e.about = k)

@[simp] theorem last_nil (k : K) : last [] k = none := rfl

theorem last_concat (log : List (Event K)) (e : Event K) (k : K) :
    last (log ++ [e]) k = if e.about = k then some e else last log k := by
  unfold last
  rw [List.reverse_append, List.reverse_singleton, List.singleton_append, List.find?_cons]
  split
  · rename_i hsame
    rw [if_pos (of_decide_eq_true hsame)]
  · rename_i hother
    rw [if_neg (of_decide_eq_false hother)]

theorem last_concat_about (log : List (Event K)) (e : Event K) :
    last (log ++ [e]) e.about = some e := by
  rw [last_concat, if_pos rfl]

theorem last_concat_of_ne {log : List (Event K)} {e : Event K} {k : K} (h : e.about ≠ k) :
    last (log ++ [e]) k = last log k := by
  rw [last_concat, if_neg h]

theorem about_of_last {log : List (Event K)} {k : K} {e : Event K} (h : last log k = some e) :
    e.about = k := by
  have hfound := List.find?_some (p := fun e : Event K => decide (e.about = k)) h
  exact of_decide_eq_true hfound

theorem mem_of_last {log : List (Event K)} {k : K} {e : Event K} (h : last log k = some e) :
    e ∈ log :=
  List.mem_reverse.mp (List.mem_of_find?_eq_some h)

/-- Something happened to an item that is mentioned. -/
theorem last_isSome {log : List (Event K)} {e : Event K} (he : e ∈ log) :
    ∃ e', last log e.about = some e' := by
  cases hlast : last log e.about with
  | some e' => exact ⟨e', rfl⟩
  | none =>
      have hnone := List.find?_eq_none.mp hlast e (List.mem_reverse.mpr he)
      exact (hnone (decide_eq_true rfl)).elim

/-- What may happen next to an item, by what happened last. -/
def Follows : Option (Event K) → Event K → Prop
  | none, adopted _ => True
  | some (released _), adopted _ => True
  | some (adopted _), released _ => True
  | some (adopted _), closed _ => True
  | _, _ => False

/-- A log in which each item is taken, given back and destroyed in turn. -/
inductive Orderly : List (Event K) → Prop
  | nil : Orderly []
  | concat {log : List (Event K)} {e : Event K} :
      Orderly log → Follows (last log e.about) e → Orderly (log ++ [e])

section Extend

variable {log : List (Event K)} {k : K}

/-- An item that is not held and has not been destroyed can be taken. -/
theorem Orderly.adopts (h : Orderly log) (hfree : last log k ≠ some (adopted k))
    (hthere : last log k ≠ some (closed k)) : Orderly (log ++ [adopted k]) := by
  refine .concat h ?_
  cases hlast : last log k with
  | none => simp [about, hlast, Follows]
  | some e =>
      have habout := about_of_last hlast
      cases e with
      | adopted k' =>
          cases habout
          exact (hfree hlast).elim
      | released k' => simp [about, hlast, Follows]
      | closed k' =>
          cases habout
          exact (hthere hlast).elim

/-- An item that is held can be given back or destroyed. -/
theorem Orderly.letsGo {e : Event K} (h : Orderly log) (hheld : last log k = some (adopted k))
    (habout : e.about = k) (hnot : e ≠ adopted k) : Orderly (log ++ [e]) := by
  refine .concat h ?_
  rw [habout, hheld]
  cases e with
  | adopted k' =>
      cases habout
      exact (hnot rfl).elim
  | released k' => trivial
  | closed k' => trivial

end Extend

/-- An item has been destroyed once if nothing has happened to it since, and otherwise it
has not been destroyed. -/
theorem Orderly.count_closed {log : List (Event K)} (h : Orderly log) (k : K) :
    log.count (closed k) = if last log k = some (closed k) then 1 else 0 := by
  induction h with
  | nil => rfl
  | @concat log e _ hfollows ih =>
      rw [List.count_append, List.count_singleton, last_concat]
      by_cases habout : e.about = k
      · rw [if_pos habout]
        rw [habout] at hfollows
        -- nothing follows a destruction
        have hbefore : last log k ≠ some (closed k) := by
          intro hclosed
          rw [hclosed] at hfollows
          exact hfollows
        rw [if_neg hbefore] at ih
        rw [ih]
        by_cases hlast : e = closed k
        · rw [hlast]
          simp
        · rw [if_neg (by simpa using hlast), if_neg (by simpa using hlast)]
      · rw [if_neg habout]
        have hother : e ≠ closed k := by
          intro hsame
          rw [hsame] at habout
          exact habout rfl
        rw [if_neg (by simpa using hother), ih, Nat.add_zero]

end Event

end Ftl.Foundation
