/-
  Test/FdTrack.lean --- `fd_snapshot` and the descriptor leak guard.

  Embedded source: `fd_snapshot` of ftl/core/fd.hpp and `FdLeakGuard` of
  ftest/fdtrack.hpp.

  A snapshot opens a directory of its own and lists it with the rest.  The number
  it takes is the lowest free one, so it is part of every baseline although it is
  closed again: a descriptor that is later opened under this number is missed.

      requireClean_exact_iff    the guard is exact exactly when the number the
                                first snapshot used is not open at the check
-/
import Mathlib.Data.List.Sort
import Ftl.Foundation.Decimal
import Ftl.Foundation.FdTable
import Ftl.Test.Framework

set_option autoImplicit false

namespace Ftl.Test

open Foundation (FdTable commaList)

variable {α : Type}

/-! ## fd_snapshot -/

/-- `d_name` of an entry of /proc/self/fd. -/
inductive Dirent where
  | dot
  | dotDot
  | number (fd : Nat)
  deriving DecidableEq, Repr

/-- The `strtol` test of the loop: the whole name is a number. -/
def Dirent.parse : Dirent → Option Nat
  | .dot | .dotDot => none
  | .number fd => some fd

/-- What the calls of a snapshot depend on: the descriptor limit, whether the
directory can be opened, and whether `fdopendir` finds memory. -/
structure ProcFs where
  limit : Nat
  opens : Bool
  allocates : Bool

/-- The entries of /proc/self/fd. -/
def readdir (t : FdTable α) : List Dirent :=
  [.dot, .dotDot] ++ t.openFds.map .number

/-- `fd_snapshot()`: the list it returns and the table it leaves. -/
def fdSnapshot (proc : ProcFs) (dir : α) (t : FdTable α) : List Nat × FdTable α :=
  if proc.opens = false ∨ proc.limit ≤ t.lowestFree then ([], t)
  else
    let dirFd := t.lowestFree
    let opened := t.alloc dir
    if proc.allocates = false then ([], opened.close dirFd)
    else
      (((readdir opened).filterMap Dirent.parse).insertionSort (· ≤ ·), opened.close dirFd)

theorem filterMap_parse_readdir (t : FdTable α) :
    (readdir t).filterMap Dirent.parse = t.openFds := by
  rw [readdir, List.filterMap_append, List.filterMap_map]
  simp only [List.filterMap_cons, Dirent.parse, List.filterMap_nil, List.nil_append]
  exact List.filterMap_some

/-- With a free number and memory, a snapshot lists the open numbers and the one it takes
itself. -/
theorem mem_fdSnapshot_of_free {proc : ProcFs} {dir : α} {t : FdTable α}
    (hopens : ¬ (proc.opens = false ∨ proc.limit ≤ t.lowestFree))
    (hallocates : ¬ proc.allocates = false) (n : Nat) :
    n ∈ (fdSnapshot proc dir t).1 ↔ (t.slot n).isSome = true ∨ n = t.lowestFree := by
  unfold fdSnapshot
  rw [if_neg hopens, if_neg hallocates, List.mem_insertionSort, filterMap_parse_readdir,
    FdTable.mem_openFds, FdTable.slot_alloc]
  by_cases hn : n = t.lowestFree
  · simp [hn]
  · simp [hn]

theorem mem_fdSnapshot {proc : ProcFs} {dir : α} {t : FdTable α}
    (hsucceeds : (fdSnapshot proc dir t).1 ≠ []) (n : Nat) :
    n ∈ (fdSnapshot proc dir t).1 ↔ (t.slot n).isSome = true ∨ n = t.lowestFree := by
  have hfound := hsucceeds
  unfold fdSnapshot at hfound
  split at hfound
  · exact (hfound rfl).elim
  · rename_i hopens
    split at hfound
    · exact (hfound rfl).elim
    · rename_i hallocates
      exact mem_fdSnapshot_of_free hopens hallocates n

/-- The list is sorted, as the binary search over a baseline needs it. -/
theorem pairwise_fdSnapshot (proc : ProcFs) (dir : α) (t : FdTable α) :
    (fdSnapshot proc dir t).1.Pairwise (· ≤ ·) := by
  unfold fdSnapshot
  split
  · exact List.Pairwise.nil
  · split
    · exact List.Pairwise.nil
    · exact List.pairwise_insertionSort (· ≤ ·) _

theorem nodup_fdSnapshot (proc : ProcFs) (dir : α) (t : FdTable α) :
    (fdSnapshot proc dir t).1.Nodup := by
  unfold fdSnapshot
  split
  · exact List.nodup_nil
  · split
    · exact List.nodup_nil
    · rw [(List.perm_insertionSort _ _).nodup_iff, filterMap_parse_readdir]
      exact List.nodup_range.filter _

theorem slot_fdSnapshot (proc : ProcFs) (dir : α) (t : FdTable α) (n : Nat) :
    (fdSnapshot proc dir t).2.slot n = t.slot n := by
  unfold fdSnapshot
  split
  · rfl
  · split
    · exact FdTable.slot_close_alloc t dir n
    · exact FdTable.slot_close_alloc t dir n

/-! ## FdLeakGuard -/

/-- `FdLeakGuard`. -/
structure FdLeakGuard where
  label : String
  baseline : List Nat

namespace FdLeakGuard

/-- The constructor. -/
def construct (proc : ProcFs) (dir : α) (label : String) (t : FdTable α) :
    FdLeakGuard × FdTable α :=
  ({ label := label, baseline := (fdSnapshot proc dir t).1 }, (fdSnapshot proc dir t).2)

/-- `leaked`: `baseline_` is sorted, so the binary search is a membership test. -/
def leaked (guard : FdLeakGuard) (now : List Nat) : List Nat :=
  now.filter fun fd => !decide (fd ∈ guard.baseline)

/-- The message of the failure. -/
def leakMessage (guard : FdLeakGuard) (leaked : List Nat) : String :=
  guard.label ++ ": " ++ leaked.length.repr ++ " file descriptor(s) left open: " ++
    commaList leaked

/-- `require_clean()`: what it throws, if it does, and the table it leaves. -/
def requireClean (guard : FdLeakGuard) (proc : ProcFs) (dir : α) (t : FdTable α) :
    Except TestFailure Unit × FdTable α :=
  (if guard.leaked (fdSnapshot proc dir t).1 = [] then .ok ()
    else .error ⟨guard.leakMessage (guard.leaked (fdSnapshot proc dir t).1)⟩,
    (fdSnapshot proc dir t).2)

theorem leakMessage_injective {guard : FdLeakGuard} {ns ms : List Nat}
    (h : guard.leakMessage ns = guard.leakMessage ms) : ns = ms := by
  have hchars := congrArg String.toList h
  simp only [leakMessage, String.toList_append, List.append_assoc] at hchars
  have hcount := List.append_cancel_left (List.append_cancel_left hchars)
  have htext : ∀ ks, Foundation.NoDigitFirst
      (" file descriptor(s) left open: ".toList ++ (commaList ks).toList) := by
    intro ks c hc
    have hblank : ' ' = c := by simpa using hc
    rw [← hblank]
    decide
  obtain ⟨-, hrest⟩ := Foundation.decimal_append_inj (htext ns) (htext ms) hcount
  exact Foundation.commaList_injective
    (String.toList_injective (List.append_cancel_left hrest))

end FdLeakGuard

/-! ## What happens in between -/

/-- An operation on descriptors; it fails without effect when the table is full or
the descriptor is not open. -/
inductive FdOp (α : Type) where
  | opens (a : α)
  | dup (fd : Nat)
  | close (fd : Nat)

/-- The table after one operation. -/
def FdOp.apply (limit : Nat) (t : FdTable α) : FdOp α → FdTable α
  | .opens a => if t.lowestFree < limit then t.alloc a else t
  | .dup fd =>
      match t.slot fd with
      | some a => if t.lowestFree < limit then t.alloc a else t
      | none => t
  | .close fd => t.close fd

/-- The table after a sequence of operations. -/
def applyOps (limit : Nat) (t : FdTable α) (ops : List (FdOp α)) : FdTable α :=
  ops.foldl (FdOp.apply limit) t

/-- `fd` is open at `t1` and was not at `t0`. -/
def NewFd (t0 t1 : FdTable α) (fd : Nat) : Prop :=
  t0.slot fd = none ∧ (t1.slot fd).isSome = true

/-- The guard's verdict is exact: it throws if and only if some descriptor is new,
and a message lists the new ones, each of them once. -/
def Exact (guard : FdLeakGuard) (t0 t1 : FdTable α) (verdict : Except TestFailure Unit) :
    Prop :=
  ((∃ failure, verdict = .error failure) ↔ ∃ fd, NewFd t0 t1 fd) ∧
    ∀ failure, verdict = .error failure →
      ∃ fds : List Nat, failure.message = guard.leakMessage fds ∧ fds.Nodup ∧
        ∀ fd, fd ∈ fds ↔ NewFd t0 t1 fd

/-- What the two snapshots make of a table `t0` and a later one `t1`. -/
theorem mem_leaked {proc proc' : ProcFs} {dir : α} {label : String} {t0 t1 : FdTable α}
    (hfirst : (fdSnapshot proc dir t0).1 ≠ []) (hsecond : (fdSnapshot proc' dir t1).1 ≠ [])
    (n : Nat) :
    n ∈ (FdLeakGuard.construct proc dir label t0).1.leaked (fdSnapshot proc' dir t1).1 ↔
      ((t1.slot n).isSome = true ∨ n = t1.lowestFree) ∧
        t0.slot n = none ∧ n ≠ t0.lowestFree := by
  rw [FdLeakGuard.leaked, List.mem_filter, mem_fdSnapshot hsecond, FdLeakGuard.construct]
  simp only [Bool.not_eq_true', decide_eq_false_iff_not, mem_fdSnapshot hfirst]
  rw [not_or, Bool.not_eq_true, Option.isSome_eq_false_iff, Option.isNone_iff_eq_none]

/-- As long as the number of the first snapshot is not taken, the second snapshot
adds nothing of its own and the guard reports the new descriptors. -/
theorem leaked_eq_new {proc proc' : ProcFs} {dir : α} {label : String} {t0 t1 : FdTable α}
    (hfirst : (fdSnapshot proc dir t0).1 ≠ []) (hsecond : (fdSnapshot proc' dir t1).1 ≠ [])
    (hfree : t1.slot t0.lowestFree = none) (n : Nat) :
    n ∈ (FdLeakGuard.construct proc dir label t0).1.leaked (fdSnapshot proc' dir t1).1 ↔
      NewFd t0 t1 n := by
  rw [mem_leaked hfirst hsecond, NewFd]
  constructor
  · rintro ⟨hnow, hclosed, hne⟩
    refine ⟨hclosed, ?_⟩
    rcases hnow with hopen | rfl
    · exact hopen
    · -- the second directory is at or below the first one: below it, `t0` is open
      have hle := FdTable.lowestFree_le hfree
      have hopen := FdTable.isSome_of_lt_lowestFree
        (show t1.lowestFree < t0.lowestFree by omega)
      rw [hclosed] at hopen
      cases hopen
  · rintro ⟨hclosed, hopen⟩
    refine ⟨Or.inl hopen, hclosed, ?_⟩
    rintro rfl
    rw [hfree] at hopen
    cases hopen

/-- The number of the first snapshot's directory is never reported, so it must not
be new. -/
theorem not_exact_of_open {proc proc' : ProcFs} {dir : α} {label : String}
    {t0 t1 : FdTable α} (hfirst : (fdSnapshot proc dir t0).1 ≠ [])
    (hsecond : (fdSnapshot proc' dir t1).1 ≠ [])
    (hopen : t1.isOpen t0.lowestFree = true) :
    ¬ Exact (FdLeakGuard.construct proc dir label t0).1 t0 t1
      ((FdLeakGuard.construct proc dir label t0).1.requireClean proc' dir t1).1 := by
  rintro ⟨hthrows, hlists⟩
  have hnew : NewFd t0 t1 t0.lowestFree := ⟨t0.slot_lowestFree, hopen⟩
  obtain ⟨failure, hfailure⟩ := hthrows.mpr ⟨_, hnew⟩
  obtain ⟨fds, hmessage, -, hmem⟩ := hlists failure hfailure
  -- the message that was thrown lists what is in `leaked`, so `fds` is that list
  rw [FdLeakGuard.requireClean] at hfailure
  simp only at hfailure
  split at hfailure
  · cases hfailure
  · cases hfailure
    have hfds := FdLeakGuard.leakMessage_injective hmessage
    have hlisted := (hmem t0.lowestFree).mpr hnew
    rw [← hfds, mem_leaked hfirst hsecond] at hlisted
    exact hlisted.2.2 rfl

theorem exact_of_closed {proc proc' : ProcFs} {dir : α} {label : String}
    {t0 t1 : FdTable α} (hfirst : (fdSnapshot proc dir t0).1 ≠ [])
    (hsecond : (fdSnapshot proc' dir t1).1 ≠ [])
    (hclosed : t1.isOpen t0.lowestFree = false) :
    Exact (FdLeakGuard.construct proc dir label t0).1 t0 t1
      ((FdLeakGuard.construct proc dir label t0).1.requireClean proc' dir t1).1 := by
  have hfree : t1.slot t0.lowestFree = none := by simpa [FdTable.isOpen] using hclosed
  have hmem : ∀ fd, fd ∈ (FdLeakGuard.construct proc dir label t0).1.leaked
      (fdSnapshot proc' dir t1).1 ↔ NewFd t0 t1 fd := leaked_eq_new hfirst hsecond hfree
  rw [FdLeakGuard.requireClean]
  simp only
  split
  · rename_i hnone
    refine ⟨⟨?_, ?_⟩, ?_⟩
    · rintro ⟨failure, hfailure⟩
      cases hfailure
    · rintro ⟨fd, hfd⟩
      rw [← hmem, hnone] at hfd
      cases hfd
    · rintro failure hfailure
      cases hfailure
  · rename_i hsome
    refine ⟨⟨?_, fun _ => ⟨_, rfl⟩⟩, ?_⟩
    · rintro -
      obtain ⟨fd, hfd⟩ := List.exists_mem_of_ne_nil _ hsome
      exact ⟨fd, (hmem fd).mp hfd⟩
    · rintro failure hfailure
      cases hfailure
      exact ⟨_, rfl, (nodup_fdSnapshot proc' dir t1).filter _, hmem⟩

/-- For any table at the construction and any operations up to the check, with two
snapshots that succeed, the guard is exact if and only if the number that the
first snapshot used for its directory is not open at the check.  A snapshot that fails is
empty, which `Ftl.Test.Exhaustion` is about. -/
theorem requireClean_exact_iff (limit : Nat) (proc proc' : ProcFs) (dir : α)
    (label : String) (t0 : FdTable α) (ops : List (FdOp α))
    (hfirst : (fdSnapshot proc dir t0).1 ≠ [])
    (hsecond : (fdSnapshot proc' dir
      (applyOps limit (FdLeakGuard.construct proc dir label t0).2 ops)).1 ≠ []) :
    Exact (FdLeakGuard.construct proc dir label t0).1 t0
        (applyOps limit (FdLeakGuard.construct proc dir label t0).2 ops)
        ((FdLeakGuard.construct proc dir label t0).1.requireClean proc' dir
          (applyOps limit (FdLeakGuard.construct proc dir label t0).2 ops)).1 ↔
      (applyOps limit (FdLeakGuard.construct proc dir label t0).2 ops).isOpen
        t0.lowestFree = false := by
  constructor
  · intro hexact
    by_contra hopen
    exact not_exact_of_open hfirst hsecond (by simpa only [Bool.not_eq_false] using hopen)
      hexact
  · exact exact_of_closed hfirst hsecond

/-- A process with its three standard descriptors. -/
def threeOpen : FdTable Unit := .ofList [(), (), ()]

/-- A system on which snapshots succeed. -/
def usual : ProcFs where
  limit := 1024
  opens := true
  allocates := true

/-- The table at the check after `ops`, in such a process. -/
def atCheck (ops : List (FdOp Unit)) : FdTable Unit :=
  applyOps 1024 (FdLeakGuard.construct usual () "scope" threeOpen).2 ops

/-- The verdict after `ops`, in such a process. -/
def verdictAfter (ops : List (FdOp Unit)) : Except TestFailure Unit :=
  ((FdLeakGuard.construct usual () "scope" threeOpen).1.requireClean usual ()
    (atCheck ops)).1

/-- Closing a standard descriptor and leaving it closed is exact. -/
theorem requireClean_exact_after_close :
    Exact (FdLeakGuard.construct usual () "scope" threeOpen).1 threeOpen
      (atCheck [.close 0]) (verdictAfter [.close 0]) :=
  (requireClean_exact_iff 1024 usual usual () "scope" threeOpen [.close 0]
    (by decide) (by decide)).mpr (by decide)

/-- One descriptor is left open, under the number the first snapshot used: the
message names the second snapshot's directory instead, and once a lower number is
free the guard does not throw at all. -/
theorem requireClean_misses_leak :
    (NewFd threeOpen (atCheck [.opens ()]) 3 ∧
      verdictAfter [.opens ()] = .error ⟨"scope: 1 file descriptor(s) left open: 4"⟩) ∧
    (NewFd threeOpen (atCheck [.opens (), .close 0]) 3 ∧
      verdictAfter [.opens (), .close 0] = .ok ()) ∧
    ¬ Exact (FdLeakGuard.construct usual () "scope" threeOpen).1 threeOpen
      (atCheck [.opens ()]) (verdictAfter [.opens ()]) := by
  refine ⟨⟨⟨rfl, rfl⟩, rfl⟩, ⟨⟨rfl, rfl⟩, rfl⟩, ?_⟩
  exact not_exact_of_open (by decide) (by decide) (by decide)

end Ftl.Test
