/-
  Foundation/Ledger.lean --- a descriptor table that remembers what was opened and
  closed in it.

  `Balanced t d owners` accounts for every descriptor since the table was `t`: each
  one that was opened has been closed, once, or is one of `owners`; nothing else
  was closed.  The rules follow a program step by step:

      balanced_begin        nothing has happened yet
      Balanced.opens        an allocation adds an owner
      Balanced.closeAll     closes take owners away
      Balanced.settled      without owners the table is `t` again
-/
import Mathlib.Data.List.Perm.Basic
import Mathlib.Data.List.Nodup
import Ftl.Foundation.FdTable

set_option autoImplicit false

namespace Ftl.Foundation

/-- A table with the numbers that were opened and closed in it, oldest first. -/
structure Ledger (α : Type) where
  table : FdTable α
  opened : List Nat
  closed : List Nat

namespace Ledger

variable {α : Type}

/-- The table `t`, before anything happens. -/
def begin (t : FdTable α) : Ledger α where
  table := t
  opened := []
  closed := []

/-- Open the lowest free number on `a`. -/
def opens (d : Ledger α) (a : α) : Ledger α where
  table := d.table.alloc a
  opened := d.opened ++ [d.table.lowestFree]
  closed := d.closed

/-- `close(fd)`. -/
def close (d : Ledger α) (fd : Nat) : Ledger α where
  table := d.table.close fd
  opened := d.opened
  closed := d.closed ++ [fd]

/-- Close the numbers of a list, in order. -/
def closeAll (d : Ledger α) (fds : List Nat) : Ledger α := fds.foldl close d

/-- Since `t`, every descriptor that was opened has been closed once or belongs to
`owners`, and no other descriptor has been touched. -/
structure Balanced (t : FdTable α) (d : Ledger α) (owners : List Nat) : Prop where
  /-- each opened descriptor is closed once, or still owned -/
  once : (d.closed ++ owners).Perm d.opened
  nodup : d.opened.Nodup
  /-- what was opened was free before -/
  fresh : ∀ n ∈ d.opened, t.slot n = none
  /-- what is owned is open -/
  held : ∀ n ∈ owners, (d.table.slot n).isSome = true
  /-- everything else is as it was -/
  rest : ∀ n, n ∉ owners → d.table.slot n = t.slot n

/-- Since `t`, every descriptor that was opened has been closed once, nothing else has
been closed, and the table is what it was. -/
structure Settled (t : FdTable α) (d : Ledger α) : Prop where
  nodup : d.opened.Nodup
  once : d.closed.Perm d.opened
  restored : ∀ n, d.table.slot n = t.slot n

theorem balanced_begin (t : FdTable α) : Balanced t (begin t) [] where
  once := List.Perm.refl []
  nodup := List.nodup_nil
  fresh := by simp [begin]
  held := by simp
  rest := fun _ _ => rfl

namespace Balanced

variable {t : FdTable α} {d : Ledger α} {owners owners' : List Nat}

theorem perm (h : Balanced t d owners) (hperm : owners.Perm owners') :
    Balanced t d owners' where
  once := (hperm.symm.append_left d.closed).trans h.once
  nodup := h.nodup
  fresh := h.fresh
  held := fun n hn => h.held n (hperm.mem_iff.mpr hn)
  rest := fun n hn => h.rest n fun hmem => hn (hperm.mem_iff.mp hmem)

/-- While nothing has been closed, an allocation adds an owner. -/
theorem opens (h : Balanced t d owners) (hclosed : d.closed = []) (a : α) :
    Balanced t (d.opens a) (owners ++ [d.table.lowestFree]) := by
  have hopened : owners.Perm d.opened := by
    have honce := h.once
    rwa [hclosed, List.nil_append] at honce
  have hnew : d.table.lowestFree ∉ owners := by
    intro hmem
    have hopen := h.held _ hmem
    rw [FdTable.slot_lowestFree] at hopen
    cases hopen
  have hfree : t.slot d.table.lowestFree = none := by
    rw [← h.rest _ hnew, FdTable.slot_lowestFree]
  refine ⟨?_, ?_, ?_, ?_, ?_⟩
  · have hboth := hopened.append_right [d.table.lowestFree]
    simpa [Ledger.opens, hclosed] using hboth
  · refine List.nodup_append.mpr ⟨h.nodup, List.nodup_singleton _, ?_⟩
    intro n hn m hm hsame
    rw [List.mem_singleton.mp hm] at hsame
    rw [hsame] at hn
    exact hnew (hopened.mem_iff.mpr hn)
  · intro n hn
    rcases List.mem_append.mp hn with hn | hn
    · exact h.fresh n hn
    · rw [List.mem_singleton.mp hn]
      exact hfree
  · intro n hn
    rw [Ledger.opens, FdTable.slot_alloc]
    split
    · rfl
    · rename_i hne
      rcases List.mem_append.mp hn with hn | hn
      · exact h.held n hn
      · exact (hne (List.mem_singleton.mp hn)).elim
  · intro n hn
    rw [List.mem_append, not_or] at hn
    rw [Ledger.opens, FdTable.slot_alloc, if_neg (fun hsame => hn.2 (by simp [hsame]))]
    exact h.rest n hn.1

theorem close {fd : Nat} (h : Balanced t d (fd :: owners)) : Balanced t (d.close fd) owners := by
  have hmem : fd ∈ d.opened := h.once.mem_iff.mp (by simp)
  have hnodup : (d.closed ++ fd :: owners).Nodup := h.once.nodup_iff.mpr h.nodup
  have hother : fd ∉ owners := (List.nodup_cons.mp (List.nodup_append.mp hnodup).2.1).1
  refine ⟨?_, h.nodup, h.fresh, ?_, ?_⟩
  · have honce := h.once
    simpa [Ledger.close] using honce
  · intro n hn
    have hne : n ≠ fd := fun hsame => hother (hsame ▸ hn)
    rw [Ledger.close, FdTable.slot_close, if_neg hne]
    exact h.held n (List.mem_cons_of_mem _ hn)
  · intro n hn
    rw [Ledger.close, FdTable.slot_close]
    split
    · rename_i hsame
      rw [hsame, h.fresh fd hmem]
    · rename_i hne
      exact h.rest n (by simp [hne, hn])

theorem closeAll {fds : List Nat} (h : Balanced t d (fds ++ owners)) :
    Balanced t (d.closeAll fds) owners := by
  induction fds generalizing d with
  | nil => exact h
  | cons fd fds ih => exact ih h.close

theorem settled (h : Balanced t d []) : Settled t d where
  nodup := h.nodup
  once := by
    have honce := h.once
    rwa [List.append_nil] at honce
  restored := fun n => h.rest n (by simp)

end Balanced

end Ledger

end Ftl.Foundation
