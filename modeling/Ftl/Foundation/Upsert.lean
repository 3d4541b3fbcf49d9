/-
  Foundation/Upsert.lean --- a list of entries searched by key.

  `upsert` overwrites the first entry that matches, or appends.  Where an entry
  may carry a key (`key : α → Option K`; `none` is an entry without one),
  `upsertAll` writes a list of pairs into such a list:

      find?_upsertAll      what is found under a key afterwards
      map_key_upsertAll    the keys stay where they are; new ones are appended
      getElem?_upsertAll   only the first entry of a written key changes

  Nothing here knows what an entry is.
-/
import Mathlib.Data.List.Nodup

set_option autoImplicit false

namespace Ftl.Foundation

variable {α K V : Type}

/-- Replace the first element that satisfies `p` by `a`, or append `a`. -/
def upsert (p : α → Bool) (a : α) : List α → List α
  | [] => [a]
  | b :: l => if p b then a :: l else b :: upsert p a l

section Upsert

variable {p : α → Bool} {a : α}

theorem find?_upsert_self (ha : p a = true) (l : List α) :
    (upsert p a l).find? p = some a := by
  induction l with
  | nil => simp [upsert, ha]
  | cons b l ih =>
      unfold upsert
      split
      · simp [ha]
      · rename_i hb
        simpa [hb] using ih

theorem find?_upsert_of_disjoint {q : α → Bool} (ha : q a = false)
    (hdisjoint : ∀ b, p b = true → q b = false) (l : List α) :
    (upsert p a l).find? q = l.find? q := by
  induction l with
  | nil => simp [upsert, ha]
  | cons b l ih =>
      unfold upsert
      split
      · rename_i hb
        simp [ha, hdisjoint b hb]
      · rw [List.find?_cons, List.find?_cons, ih]

theorem getElem?_upsert {i : Nat} {l : List α} (hi : i < l.length)
    (hne : l.findIdx? p ≠ some i) : (upsert p a l)[i]? = l[i]? := by
  induction l generalizing i with
  | nil => simp at hi
  | cons b l ih =>
      unfold upsert
      split
      · rename_i hb
        cases i with
        | zero => simp [List.findIdx?_cons, hb] at hne
        | succ i => rfl
      · rename_i hb
        cases i with
        | zero => rfl
        | succ i =>
            have hrest : l.findIdx? p ≠ some i := by
              intro hfound
              exact hne (by simp [List.findIdx?_cons, hb, hfound])
            simpa using ih (by simpa using hi) hrest

end Upsert

section Keyed

variable [DecidableEq K] {key : α → Option K}

/-- The entries under the key `k`. -/
def hasKey (key : α → Option K) (k : K) (a : α) : Bool := decide (key a = some k)

theorem hasKey_disjoint {k k' : K} (hne : k' ≠ k) (a : α) (ha : hasKey key k a = true) :
    hasKey key k' a = false := by
  simp only [hasKey, decide_eq_true_eq, decide_eq_false_iff_not] at ha ⊢
  rw [ha]
  simpa using Ne.symm hne

/-- Writing an entry leaves every key where it is, and appends its own if that is
new. -/
theorem map_key_upsert {k : K} {a : α} (ha : key a = some k) (l : List α) :
    (upsert (hasKey key k) a l).map key =
      if some k ∈ l.map key then l.map key else l.map key ++ [some k] := by
  induction l with
  | nil => simp [upsert, ha]
  | cons b l ih =>
      unfold upsert
      by_cases hb : key b = some k
      · simp [hasKey, hb, ha]
      · have hne : some k ≠ key b := fun h => hb h.symm
        simp only [hasKey, hb, decide_false, Bool.false_eq_true, if_false, List.map_cons,
          List.mem_cons, hne, false_or] at ih ⊢
        rw [ih]
        split <;> rfl

theorem nodup_key_upsert {k : K} {a : α} (ha : key a = some k) {l : List α}
    (hnodup : (l.map key).Nodup) : ((upsert (hasKey key k) a l).map key).Nodup := by
  rw [map_key_upsert ha]
  split
  · exact hnodup
  · rename_i hnew
    rw [List.nodup_append]
    refine ⟨hnodup, by simp, ?_⟩
    intro x hx y hy hxy
    rw [List.mem_singleton.mp hy] at hxy
    exact hnew (hxy ▸ hx)

/-- Write every pair of `os` into the list, in order. -/
def upsertAll (key : α → Option K) (entry : K → V → α) (l : List α) (os : List (K × V)) :
    List α :=
  os.foldl (fun l o => upsert (hasKey key o.1) (entry o.1 o.2) l) l

variable {entry : K → V → α}

/-- Under a key that was written the value written is found, and under any other
key what was found before. -/
theorem find?_upsertAll {os : List (K × V)}
    (hentry : ∀ o ∈ os, key (entry o.1 o.2) = some o.1)
    (hnodup : (os.map Prod.fst).Nodup) (l : List α) (k : K) :
    (upsertAll key entry l os).find? (hasKey key k) =
      match os.find? (fun o => o.1 = k) with
      | some o => some (entry k o.2)
      | none => l.find? (hasKey key k) := by
  induction os generalizing l with
  | nil => rfl
  | cons o os ih =>
      obtain ⟨hfresh, hrest⟩ := List.nodup_cons.mp hnodup
      have ho : key (entry o.1 o.2) = some o.1 := hentry o (by simp)
      rw [upsertAll, List.foldl_cons, ← upsertAll,
        ih (fun o' ho' => hentry o' (List.mem_cons_of_mem _ ho')) hrest, List.find?_cons]
      by_cases hk : o.1 = k
      · subst hk
        have hnone : os.find? (fun o' => decide (o'.1 = o.1)) = none := by
          rw [List.find?_eq_none]
          intro o' ho' hsame
          exact hfresh (List.mem_map.mpr ⟨o', ho', of_decide_eq_true hsame⟩)
        have hself : hasKey key o.1 (entry o.1 o.2) = true := by simp [hasKey, ho]
        simp [hnone, find?_upsert_self hself]
      · have hother := find?_upsert_of_disjoint
          (hasKey_disjoint (Ne.symm hk) (entry o.1 o.2) (by simp [hasKey, ho]))
          (fun b (hb : hasKey key o.1 b = true) => hasKey_disjoint (Ne.symm hk) b hb) l
        simp only [hk, decide_false]
        rw [hother]

/-- The keys of the list stay where they are; the new ones are appended, each of
them once. -/
theorem map_key_upsertAll {os : List (K × V)}
    (hentry : ∀ o ∈ os, key (entry o.1 o.2) = some o.1) (l : List α) :
    ∃ added : List K, added.Nodup ∧ (∀ k ∈ added, k ∈ os.map Prod.fst) ∧
      (∀ k ∈ added, some k ∉ l.map key) ∧
      (upsertAll key entry l os).map key = l.map key ++ added.map some := by
  induction os generalizing l with
  | nil => exact ⟨[], by simp, by simp, by simp, by simp [upsertAll]⟩
  | cons o os ih =>
      obtain ⟨added, hnodup, hwritten, hnew, hkeys⟩ :=
        ih (fun o' ho' => hentry o' (List.mem_cons_of_mem _ ho'))
          (upsert (hasKey key o.1) (entry o.1 o.2) l)
      rw [map_key_upsert (hentry o (by simp))] at hnew hkeys
      rw [upsertAll, List.foldl_cons, ← upsertAll]
      by_cases hold : some o.1 ∈ l.map key
      · rw [if_pos hold] at hnew hkeys
        exact ⟨added, hnodup, fun k hk => List.mem_cons_of_mem _ (hwritten k hk), hnew, hkeys⟩
      · rw [if_neg hold] at hnew hkeys
        refine ⟨o.1 :: added, List.nodup_cons.mpr ⟨?_, hnodup⟩, ?_, ?_, ?_⟩
        · intro hmem
          exact hnew _ hmem (by simp)
        · intro k hk
          rcases List.mem_cons.mp hk with rfl | hk
          · simp
          · exact List.mem_cons_of_mem _ (hwritten k hk)
        · intro k hk
          rcases List.mem_cons.mp hk with rfl | hk
          · exact hold
          · exact fun hmem => hnew k hk (List.mem_append_left _ hmem)
        · simpa using hkeys

theorem findIdx?_hasKey (k : K) (l : List α) :
    l.findIdx? (hasKey key k) = (l.map key).findIdx? (fun x => decide (x = some k)) := by
  rw [List.findIdx?_map]
  rfl

/-- An entry that is not the first one under a written key stays as it is. -/
theorem getElem?_upsertAll {os : List (K × V)}
    (hentry : ∀ o ∈ os, key (entry o.1 o.2) = some o.1) {i : Nat} {l : List α}
    (hi : i < l.length)
    (hne : ∀ k ∈ os.map Prod.fst, l.findIdx? (hasKey key k) ≠ some i) :
    (upsertAll key entry l os)[i]? = l[i]? := by
  induction os generalizing l with
  | nil => rfl
  | cons o os ih =>
      have hkeys := map_key_upsert (hentry o (by simp)) l
      have hlength : l.length ≤ (upsert (hasKey key o.1) (entry o.1 o.2) l).length := by
        have h := congrArg List.length hkeys
        split at h
        · simp only [List.length_map] at h
          omega
        · simp only [List.length_map, List.length_append] at h
          omega
      rw [upsertAll, List.foldl_cons, ← upsertAll,
        ih (fun o' ho' => hentry o' (List.mem_cons_of_mem _ ho')) (by omega),
        getElem?_upsert hi]
      · exact hne o.1 (by simp)
      · -- a first entry before position `l.length` was the first one already
        intro k hk hfirst
        refine hne k (List.mem_cons_of_mem _ hk) ?_
        rw [findIdx?_hasKey, hkeys] at hfirst
        rw [findIdx?_hasKey]
        split at hfirst
        · exact hfirst
        · rw [List.findIdx?_append] at hfirst
          cases hfound : (l.map key).findIdx? (fun x => decide (x = some k)) with
          | some j => simpa [hfound] using hfirst
          | none =>
              simp only [hfound, Option.none_or, Option.map_eq_some_iff] at hfirst
              obtain ⟨j, -, hj⟩ := hfirst
              simp only [List.length_map] at hj
              omega

end Keyed

end Ftl.Foundation
