/-
  Core/Fd.lean --- `ftl::UniqueFd` of ftl/core/fd.hpp.

  An object owns at most one descriptor.  Its members are functions of the object
  and of the descriptor ledger of the process; what a group of objects owns is
  the `owners` of a balanced ledger.
-/
import Ftl.Foundation.Ledger

set_option autoImplicit false

namespace Ftl.Core

open Foundation (FdTable Ledger)
open Foundation.Ledger (Balanced)

/-- `UniqueFd`; `none` is the -1 of an object that owns nothing. -/
structure UniqueFd where
  fd : Option Nat
  deriving DecidableEq, Repr

namespace UniqueFd

/-- `UniqueFd()`. -/
def empty : UniqueFd := ⟨none⟩

/-- `UniqueFd(fd)` for a descriptor. -/
def ofFd (fd : Nat) : UniqueFd := ⟨some fd⟩

section Members

variable {α : Type}

/-- `~UniqueFd()`. -/
def destroy (u : UniqueFd) (d : Ledger α) : Ledger α :=
  match u.fd with
  | some fd => d.close fd
  | none => d

/-- `reset()`. -/
def reset (u : UniqueFd) (d : Ledger α) : UniqueFd × Ledger α := (empty, u.destroy d)

/-- `UniqueFd(std::move(other))`: the new object, and the other one afterwards. -/
def moveConstruct (other : UniqueFd) : UniqueFd × UniqueFd := (⟨other.fd⟩, empty)

/-- `reset(fd)`. -/
def resetTo (u : UniqueFd) (fd : Nat) (d : Ledger α) : UniqueFd × Ledger α :=
  (ofFd fd, u.destroy d)

/-- `release()`: the descriptor, and the object afterwards. -/
def release (u : UniqueFd) : Option Nat × UniqueFd := (u.fd, empty)

/-- `*this = std::move(other)` for two objects: both of them afterwards. -/
def moveAssign (u other : UniqueFd) (d : Ledger α) : (UniqueFd × UniqueFd) × Ledger α :=
  ((⟨other.fd⟩, empty), u.destroy d)

/-- The destructors of several objects, in order. -/
def destroyAll (us : List UniqueFd) (d : Ledger α) : Ledger α :=
  us.foldl (fun d u => u.destroy d) d

end Members

/-! ## Ownership -/

/-- The descriptors that some objects own. -/
def owners (us : List UniqueFd) : List Nat := us.filterMap fd

@[simp] theorem owners_nil : owners [] = [] := rfl

theorem owners_cons (u : UniqueFd) (us : List UniqueFd) :
    owners (u :: us) = u.fd.toList ++ owners us := by
  obtain ⟨_ | fd⟩ := u
  · rfl
  · rfl

@[simp] theorem owners_cons_empty (us : List UniqueFd) : owners (empty :: us) = owners us := rfl

@[simp] theorem owners_cons_ofFd (fd : Nat) (us : List UniqueFd) :
    owners (ofFd fd :: us) = fd :: owners us := rfl

theorem owners_append (us vs : List UniqueFd) :
    owners (us ++ vs) = owners us ++ owners vs :=
  List.filterMap_append

variable {α : Type} {t : FdTable α} {d : Ledger α} {rest : List Nat}

theorem balanced_destroy {u : UniqueFd} (h : Balanced t d (u.fd.toList ++ rest)) :
    Balanced t (u.destroy d) rest := by
  obtain ⟨_ | fd⟩ := u
  · exact h
  · exact h.close

theorem balanced_destroyAll {us : List UniqueFd} (h : Balanced t d (owners us ++ rest)) :
    Balanced t (destroyAll us d) rest := by
  induction us generalizing d with
  | nil => exact h
  | cons u us ih =>
      rw [owners_cons, List.append_assoc] at h
      exact ih (balanced_destroy h)

theorem balanced_reset (us : List UniqueFd) (u : UniqueFd) (vs : List UniqueFd)
    (h : Balanced t d (owners (us ++ u :: vs))) :
    Balanced t (u.reset d).2 (owners (us ++ empty :: vs)) := by
  rw [owners_append, owners_cons] at h
  rw [owners_append, owners_cons_empty]
  have hfront : (owners us ++ (u.fd.toList ++ owners vs)).Perm
      (u.fd.toList ++ (owners us ++ owners vs)) := by
    rw [← List.append_assoc, ← List.append_assoc]
    exact List.perm_append_comm.append_right _
  exact balanced_destroy (h.perm hfront)

end UniqueFd

end Ftl.Core
