/-
  Foundation/FdTable.lean --- a descriptor table of one process.

  A table maps finitely many descriptor numbers to open objects.  Allocation
  takes the lowest free number; `dup2` fails quietly on a bad descriptor or on a
  target beyond the limit; fork copies the table, so a table is a plain value.

  The facts that the users of a table need:

      slot_lowestFree, isSome_of_lt_lowestFree   what "lowest free" means
      lowestFree_lt_alloc                        allocations in a row go up
      lowestFree_alloc_lt_iff                    when there is room for two of them
      slot_alloc, slot_close, slot_dup2          what each operation changes
      Extends.alloc, Extends.close               what has been opened since an earlier table
-/
import Mathlib.Data.List.Range
import Mathlib.Logic.Function.Basic

set_option autoImplicit false

namespace Ftl.Foundation

open Function (update)

/-- The open descriptors of a process. -/
structure FdTable (α : Type) where
  /-- the object a number is open on -/
  slot : Nat → Option α
  /-- no number from here on is open -/
  bound : Nat
  slot_bound : ∀ n, bound ≤ n → slot n = none

namespace FdTable

variable {α β : Type}

/-- The number is open. -/
def isOpen (t : FdTable α) (n : Nat) : Bool := (t.slot n).isSome

/-- The table that is open on `objects`, from number 0 up. -/
def ofList (objects : List α) : FdTable α where
  slot := fun n => objects[n]?
  bound := objects.length
  slot_bound := fun _ hn => List.getElem?_eq_none hn

/-- The same numbers, with every object renamed. -/
def map (f : α → β) (t : FdTable α) : FdTable β where
  slot := fun n => (t.slot n).map f
  bound := t.bound
  slot_bound := fun n hn => by rw [t.slot_bound n hn, Option.map_none]

@[simp] theorem slot_map (f : α → β) (t : FdTable α) (n : Nat) :
    (t.map f).slot n = (t.slot n).map f := rfl

/-! ## The lowest free number -/

/-- The first number from `n` on that is free in `slot`, looking at `fuel` numbers. -/
def firstFree (slot : Nat → Option α) : Nat → Nat → Nat
  | 0, n => n
  | fuel + 1, n => if (slot n).isNone then n else firstFree slot fuel (n + 1)

theorem slot_firstFree {slot : Nat → Option α} (fuel n : Nat)
    (hend : ∀ m, n + fuel ≤ m → slot m = none) :
    slot (firstFree slot fuel n) = none := by
  induction fuel generalizing n with
  | zero => exact hend n (Nat.le_refl n)
  | succ fuel ih =>
      unfold firstFree
      split
      · rename_i hfree
        exact Option.isNone_iff_eq_none.mp hfree
      · exact ih (n + 1) fun m hm => hend m (by omega)

theorem isSome_of_lt_firstFree {slot : Nat → Option α} (fuel n : Nat) {m : Nat}
    (hnm : n ≤ m) (hm : m < firstFree slot fuel n) : (slot m).isSome = true := by
  induction fuel generalizing n with
  | zero =>
      unfold firstFree at hm
      omega
  | succ fuel ih =>
      unfold firstFree at hm
      split at hm
      · omega
      · rename_i hopen
        rcases Nat.eq_or_lt_of_le hnm with rfl | hlt
        · exact Option.isSome_iff_ne_none.mpr (by simpa using hopen)
        · exact ih (n + 1) hlt hm

/-- The lowest number that is not open. -/
def lowestFree (t : FdTable α) : Nat := firstFree t.slot t.bound 0

@[simp] theorem slot_lowestFree (t : FdTable α) : t.slot t.lowestFree = none :=
  slot_firstFree t.bound 0 fun m hm => t.slot_bound m (by omega)

theorem isSome_of_lt_lowestFree {t : FdTable α} {m : Nat} (hm : m < t.lowestFree) :
    (t.slot m).isSome = true :=
  isSome_of_lt_firstFree t.bound 0 (Nat.zero_le m) hm

theorem lowestFree_le {t : FdTable α} {n : Nat} (hfree : t.slot n = none) :
    t.lowestFree ≤ n := by
  by_contra hlt
  have hopen := isSome_of_lt_lowestFree (Nat.lt_of_not_le hlt)
  rw [hfree] at hopen
  cases hopen

/-! ## Operations -/

/-- Open `n` on `a`, whatever it was open on before. -/
def set (t : FdTable α) (n : Nat) (a : α) : FdTable α where
  slot := update t.slot n (some a)
  bound := max t.bound (n + 1)
  slot_bound := by
    intro m hm
    have hne : m ≠ n := by omega
    rw [Function.update_of_ne hne]
    exact t.slot_bound m (by omega)

/-- Open the lowest free number on `a`. -/
def alloc (t : FdTable α) (a : α) : FdTable α := t.set t.lowestFree a

/-- `close(n)`. -/
def close (t : FdTable α) (n : Nat) : FdTable α where
  slot := update t.slot n none
  bound := t.bound
  slot_bound := by
    intro m hm
    by_cases hmn : m = n
    · rw [hmn, Function.update_self]
    · rw [Function.update_of_ne hmn]
      exact t.slot_bound m hm

/-- `dup2(oldfd, newfd)` in a process that may not use numbers from `limit` on. -/
def dup2 (limit : Option Nat) (t : FdTable α) (oldfd newfd : Nat) : FdTable α :=
  match t.slot oldfd with
  | none => t
  | some a => if limit.any (· ≤ newfd) then t else t.set newfd a

theorem slot_set (t : FdTable α) (n : Nat) (a : α) (m : Nat) :
    (t.set n a).slot m = if m = n then some a else t.slot m :=
  Function.update_apply t.slot n (some a) m

theorem slot_alloc (t : FdTable α) (a : α) (m : Nat) :
    (t.alloc a).slot m = if m = t.lowestFree then some a else t.slot m :=
  t.slot_set t.lowestFree a m

theorem slot_close (t : FdTable α) (n m : Nat) :
    (t.close n).slot m = if m = n then none else t.slot m :=
  Function.update_apply t.slot n none m

/-- A `dup2` of an open descriptor onto a number within the limit. -/
theorem slot_dup2 {limit : Option Nat} {t : FdTable α} {oldfd newfd : Nat} {a : α}
    (hopen : t.slot oldfd = some a) (hlimit : ∀ l ∈ limit, newfd < l) (m : Nat) :
    (t.dup2 limit oldfd newfd).slot m = if m = newfd then some a else t.slot m := by
  have hwithin : limit.any (· ≤ newfd) = false := by
    cases limit with
    | none => rfl
    | some l =>
        have hl := hlimit l rfl
        simpa using hl
  rw [dup2, hopen]
  simp only [hwithin, Bool.false_eq_true, if_false]
  exact t.slot_set newfd a m

/-- What is free after an allocation was free before. -/
theorem slot_eq_none_of_alloc {t : FdTable α} {a : α} {n : Nat}
    (hfree : (t.alloc a).slot n = none) : t.slot n = none := by
  rw [slot_alloc] at hfree
  split at hfree
  · cases hfree
  · exact hfree

/-- What is open after an allocation is new or was open before. -/
theorem slot_alloc_cases {t : FdTable α} {a b : α} {n : Nat}
    (hopen : (t.alloc a).slot n = some b) :
    (n = t.lowestFree ∧ b = a) ∨ t.slot n = some b := by
  rw [slot_alloc] at hopen
  split at hopen
  · rename_i hlowest
    exact .inl ⟨hlowest, (Option.some.inj hopen).symm⟩
  · exact .inr hopen

theorem slot_alloc_of_some {t : FdTable α} {a b : α} {n : Nat} (hopen : t.slot n = some b) :
    (t.alloc a).slot n = some b := by
  have hne : n ≠ t.lowestFree := by
    rintro rfl
    rw [slot_lowestFree] at hopen
    cases hopen
  rw [slot_alloc, if_neg hne]
  exact hopen

/-- Allocations in a row go up. -/
theorem lowestFree_lt_alloc (t : FdTable α) (a : α) :
    t.lowestFree < (t.alloc a).lowestFree := by
  by_contra hle
  have hfree := slot_lowestFree (t.alloc a)
  rw [slot_alloc] at hfree
  split at hfree
  · cases hfree
  · rename_i hne
    have hopen := isSome_of_lt_lowestFree (show (t.alloc a).lowestFree < t.lowestFree by omega)
    rw [hfree] at hopen
    cases hopen

/-- After an allocation there is a free number below `limit` if there were two. -/
theorem lowestFree_alloc_lt_iff {t : FdTable α} {a : α} {limit : Nat} :
    (t.alloc a).lowestFree < limit ↔
      ∃ m n, m < n ∧ n < limit ∧ t.slot m = none ∧ t.slot n = none := by
  constructor
  · intro hlimit
    exact ⟨_, _, t.lowestFree_lt_alloc a, hlimit, t.slot_lowestFree,
      slot_eq_none_of_alloc (slot_lowestFree (t.alloc a))⟩
  · rintro ⟨m, n, hless, hlimit, hm, hn⟩
    have hlowest := lowestFree_le hm
    have hfree : (t.alloc a).slot n = none := by rw [slot_alloc, if_neg (by omega), hn]
    exact Nat.lt_of_le_of_lt (lowestFree_le hfree) hlimit

/-- Closing what was just allocated leaves the same numbers open on the same
objects. -/
theorem slot_close_alloc (t : FdTable α) (a : α) (m : Nat) :
    ((t.alloc a).close t.lowestFree).slot m = t.slot m := by
  rw [slot_close, slot_alloc]
  by_cases hm : m = t.lowestFree
  · simp [hm]
  · simp [hm]

/-! ## What has been opened since -/

/-- Since `t₀` the numbers in `held` have been opened, and all others are as they were. -/
structure Extends (t₀ : FdTable α) (held : List Nat) (t : FdTable α) : Prop where
  nodup : held.Nodup
  fresh : ∀ n ∈ held, t₀.slot n = none
  opened : ∀ n ∈ held, (t.slot n).isSome = true
  rest : ∀ n, n ∉ held → t.slot n = t₀.slot n

namespace Extends

variable {t₀ t : FdTable α} {held held' : List Nat}

theorem of_slot (h : ∀ n, t.slot n = t₀.slot n) : t₀.Extends [] t where
  nodup := List.nodup_nil
  fresh := nofun
  opened := nofun
  rest := fun n _ => h n

theorem perm (h : t₀.Extends held t) (hperm : held.Perm held') : t₀.Extends held' t where
  nodup := hperm.nodup_iff.mp h.nodup
  fresh := fun n hn => h.fresh n (hperm.mem_iff.mpr hn)
  opened := fun n hn => h.opened n (hperm.mem_iff.mpr hn)
  rest := fun n hn => h.rest n fun hmem => hn (hperm.mem_iff.mp hmem)

theorem congr (h : t₀.Extends held t) {t' : FdTable α} (hslot : ∀ n, t'.slot n = t.slot n) :
    t₀.Extends held t' where
  nodup := h.nodup
  fresh := h.fresh
  opened := fun n hn => by
    rw [hslot]
    exact h.opened n hn
  rest := fun n hn => (hslot n).trans (h.rest n hn)

theorem alloc (h : t₀.Extends held t) (a : α) :
    t₀.Extends (t.lowestFree :: held) (t.alloc a) := by
  have hnew : t.lowestFree ∉ held := by
    intro hmem
    have hopen := h.opened _ hmem
    rw [slot_lowestFree] at hopen
    cases hopen
  refine ⟨List.nodup_cons.mpr ⟨hnew, h.nodup⟩, fun n hn => ?_, fun n hn => ?_, fun n hn => ?_⟩
  · rcases List.mem_cons.mp hn with rfl | hn
    · rw [← h.rest _ hnew, slot_lowestFree]
    · exact h.fresh n hn
  · rw [slot_alloc]
    split
    · rfl
    · rename_i hne
      exact h.opened n ((List.mem_cons.mp hn).resolve_left hne)
  · rw [List.mem_cons, not_or] at hn
    rw [slot_alloc, if_neg hn.1]
    exact h.rest n hn.2

theorem close {fd : Nat} (h : t₀.Extends (fd :: held) t) : t₀.Extends held (t.close fd) := by
  obtain ⟨hgone, hnodup⟩ := List.nodup_cons.mp h.nodup
  refine ⟨hnodup, fun n hn => h.fresh n (.tail fd hn), fun n hn => ?_, fun n hn => ?_⟩
  · rw [slot_close, if_neg fun hsame : n = fd => hgone (hsame ▸ hn)]
    exact h.opened n (.tail fd hn)
  · rw [slot_close]
    split
    · rename_i hsame
      exact (hsame ▸ h.fresh fd List.mem_cons_self).symm
    · rename_i hne
      exact h.rest n fun hmem => hn ((List.mem_cons.mp hmem).resolve_left hne)

end Extends

/-! ## Listing -/

/-- The open numbers, in ascending order. -/
def openFds (t : FdTable α) : List Nat := (List.range t.bound).filter t.isOpen

theorem mem_openFds {t : FdTable α} {n : Nat} : n ∈ t.openFds ↔ (t.slot n).isSome = true := by
  rw [openFds, List.mem_filter, List.mem_range, isOpen]
  constructor
  · exact And.right
  · intro hopen
    refine ⟨?_, hopen⟩
    by_contra hle
    rw [t.slot_bound n (Nat.le_of_not_lt hle)] at hopen
    cases hopen

end FdTable

end Ftl.Foundation
