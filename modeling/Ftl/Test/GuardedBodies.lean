/-
  Test/GuardedBodies.lean --- a test body between the construction of an `FdLeakGuard` and its
  `require_clean`.

  Embedded source: `open_fd` of ftl/core/fd.hpp, which `FileDescriptor` of ftest/files.hpp wraps,
  in programs that use `UniqueFd` objects, descriptors of their own and the two runners.

  The guard is not exact for every use of descriptors.  It is for a body that closes only what it
  has opened, whichever way it leaves its scopes:

      guard_throws_iff   the guard throws exactly when a descriptor is left; its message is
                         wrong exactly when one of them has the number of the first snapshot
-/
import Ftl.Foundation.Scopes
import Ftl.Process.CLifetime
import Ftl.Test.FdTrack

set_option autoImplicit false

namespace Ftl.Test

open Ftl.Core (UniqueFd)
open Ftl.Core.UniqueFd (ofFd owners)
open Foundation (Ending FdTable Ledger Runs Scoped ScopeLang Stmt)
open Process (CArguments CRunResult CRunState CallEvent Object RunState Subprocess)

variable {α : Type}

/-! ## Bodies -/

/-- `open_fd(path, flags)`; `found` is what `open` answers, an errno or what it finds. -/
def openFd (strerror : Int → String) (path : String) (found : Except Int α) (d : Ledger α) :
    Except String (UniqueFd × Ledger α) :=
  match found with
  | .error errno => .error ("cannot open " ++ path ++ ": " ++ strerror errno)
  | .ok a => .ok (ofFd d.table.lowestFree, d.opens a)

/-- The descriptors of the process, and those of the body that no object owns. -/
structure Holdings (α : Type) where
  fds : Ledger α
  loose : List Nat

/-- What a body does.  Objects are counted from the youngest. -/
inductive BodyOp (α : Type) where
  /-- `UniqueFd x = open_fd(path, flags);` -/
  | openFd (path : String) (found : Except Int α)
  /-- `UniqueFd x(fd);` -/
  | adopt (fd : Nat)
  /-- `UniqueFd x(std::move(objects[i]));` -/
  | moveFrom (i : Nat)
  /-- `objects[i] = std::move(objects[j]);` -/
  | moveAssign (i j : Nat)
  /-- `objects[i].reset();` -/
  | reset (i : Nat)
  /-- `objects[i].reset(fd);` -/
  | resetTo (i fd : Nat)
  /-- `objects[i].release();` -/
  | release (i : Nat)
  /-- a descriptor from `open`, `dup` and the like -/
  | acquire (a : α)
  /-- `close(fd);` -/
  | close (fd : Nat)
  /-- `Subprocess::run()` -/
  | run (sp : Subprocess)
  /-- `ftl_run_command(..)` -/
  | runCommand (args : CArguments)

/-- The table after a call in which the caller's objects have other names. -/
def Holdings.after (w : Holdings α) (table : FdTable α) : Holdings α :=
  { w with fds := { w.fds with table := table } }

/-- The effect of an operation.  A body closes or adopts only what it holds itself. -/
inductive BodyOp.Performs (strerror : Int → String) :
    BodyOp α → Scoped UniqueFd (Holdings α) → Ending → Scoped UniqueFd (Holdings α) → Prop
  | opened {path : String} {found : Except Int α} {s : Scoped UniqueFd (Holdings α)}
      {u : UniqueFd} {d : Ledger α} :
      Test.openFd strerror path found s.rest.fds = .ok (u, d) →
      Performs strerror (.openFd path found) s .normal ⟨u :: s.objects, { s.rest with fds := d }⟩
  | notOpened {path e : String} {found : Except Int α} {s : Scoped UniqueFd (Holdings α)} :
      Test.openFd strerror path found s.rest.fds = .error e →
      Performs strerror (.openFd path found) s .threw s
  | adopted {fd : Nat} {s : Scoped UniqueFd (Holdings α)} :
      fd ∈ s.rest.loose →
      Performs strerror (.adopt fd) s .normal
        ⟨ofFd fd :: s.objects, { s.rest with loose := s.rest.loose.erase fd }⟩
  | moved {i : Nat} {u : UniqueFd} {s : Scoped UniqueFd (Holdings α)} :
      s.objects[i]? = some u →
      Performs strerror (.moveFrom i) s .normal
        ⟨u.moveConstruct.1 :: s.objects.set i u.moveConstruct.2, s.rest⟩
  | assigned {i j : Nat} {u v : UniqueFd} {s : Scoped UniqueFd (Holdings α)} :
      i ≠ j → s.objects[i]? = some u → s.objects[j]? = some v →
      Performs strerror (.moveAssign i j) s .normal
        ⟨(s.objects.set i (u.moveAssign v s.rest.fds).1.1).set j (u.moveAssign v s.rest.fds).1.2,
          { s.rest with fds := (u.moveAssign v s.rest.fds).2 }⟩
  | assignedSelf {i : Nat} {u : UniqueFd} {s : Scoped UniqueFd (Holdings α)} :
      s.objects[i]? = some u → Performs strerror (.moveAssign i i) s .normal s
  | reset {i : Nat} {u : UniqueFd} {s : Scoped UniqueFd (Holdings α)} :
      s.objects[i]? = some u →
      Performs strerror (.reset i) s .normal
        ⟨s.objects.set i (u.reset s.rest.fds).1, { s.rest with fds := (u.reset s.rest.fds).2 }⟩
  | resetTo {i fd : Nat} {u : UniqueFd} {s : Scoped UniqueFd (Holdings α)} :
      s.objects[i]? = some u → fd ∈ s.rest.loose →
      Performs strerror (.resetTo i fd) s .normal
        ⟨s.objects.set i (u.resetTo fd s.rest.fds).1,
          ⟨(u.resetTo fd s.rest.fds).2, s.rest.loose.erase fd⟩⟩
  | released {i : Nat} {u : UniqueFd} {s : Scoped UniqueFd (Holdings α)} :
      s.objects[i]? = some u →
      Performs strerror (.release i) s .normal
        ⟨s.objects.set i u.release.2,
          { s.rest with loose := u.release.1.toList ++ s.rest.loose }⟩
  | acquired {a : α} {s : Scoped UniqueFd (Holdings α)} :
      Performs strerror (.acquire a) s .normal
        ⟨s.objects, ⟨s.rest.fds.opens a, s.rest.fds.table.lowestFree :: s.rest.loose⟩⟩
  | closed {fd : Nat} {s : Scoped UniqueFd (Holdings α)} :
      fd ∈ s.rest.loose →
      Performs strerror (.close fd) s .normal
        ⟨s.objects, ⟨s.rest.fds.close fd, s.rest.loose.erase fd⟩⟩
  | ran {sp : Subprocess} {s : Scoped UniqueFd (Holdings α)} {es : List CallEvent}
      {r : RunState α} {t : FdTable α} :
      Runs sp.CallSteps (.initial s.rest.fds.table) es r → r.control.ended = true →
      (∀ n, r.fds.table.slot n = (t.map .caller).slot n) →
      Performs strerror (.run sp) s (if r.control.threw then .threw else .normal)
        ⟨s.objects, s.rest.after t⟩
  | ranCommand {args : CArguments} {s : Scoped UniqueFd (Holdings α)} {es : List CallEvent}
      {old : CRunResult} {r : CRunState α} {t : FdTable α} :
      Runs args.CallSteps (.initial args s.rest.fds.table old) es r → r.control.ended = true →
      (∀ n, r.fds.table.slot n = (t.map .caller).slot n) →
      Performs strerror (.runCommand args) s .normal ⟨s.objects, s.rest.after t⟩

/-- The test bodies. -/
abbrev bodyLang (α : Type) (strerror : Int → String) :
    ScopeLang UniqueFd (Holdings α) (BodyOp α) where
  prim := BodyOp.Performs strerror
  destroy u w := (false, { w with fds := u.destroy w.fds })

/-- A body starts without descriptors of its own. -/
def bare (t : FdTable α) : Scoped UniqueFd (Holdings α) := ⟨[], ⟨.begin t, []⟩⟩

/-! ## What a body holds -/

/-- The descriptors of a body. -/
def held (s : Scoped UniqueFd (Holdings α)) : List Nat := owners s.objects ++ s.rest.loose

/-- Beside what the body holds, the table is `t₀`.  What the objects own goes with their scopes, so
at the end only the loose descriptors are left. -/
def HoldsOnly (t₀ : FdTable α) (s : Scoped UniqueFd (Holdings α)) : Prop :=
  t₀.Extends (held s) s.rest.fds.table

theorem owners_set {objects : List UniqueFd} {i : Nat} {u : UniqueFd} (v : UniqueFd)
    (hget : objects[i]? = some u) :
    (u.fd.toList ++ owners (objects.set i v)).Perm (v.fd.toList ++ owners objects) := by
  induction objects generalizing i with
  | nil => cases hget
  | cons w objects ih =>
      cases i with
      | zero =>
          cases hget
          rw [List.set_cons_zero, UniqueFd.owners_cons, UniqueFd.owners_cons]
          exact List.perm_append_comm_assoc _ _ _
      | succ i =>
          rw [List.set_cons_succ, UniqueFd.owners_cons, UniqueFd.owners_cons]
          refine (List.perm_append_comm_assoc _ _ _).trans ?_
          refine ((ih hget).append_left w.fd.toList).trans ?_
          exact List.perm_append_comm_assoc _ _ _

/-- Taking a descriptor from those that no object owns. -/
theorem perm_erase {loose : List Nat} {fd : Nat} (hfd : fd ∈ loose) (owned : List Nat) :
    (owned ++ loose).Perm (fd :: (owned ++ loose.erase fd)) :=
  ((List.perm_cons_erase hfd).append_left owned).trans List.perm_middle

section HoldsOnly

variable {t₀ : FdTable α} {s : Scoped UniqueFd (Holdings α)}

theorem extends_destroy {u : UniqueFd} {rest : List Nat} {d : Ledger α}
    (h : t₀.Extends (u.fd.toList ++ rest) d.table) :
    t₀.Extends rest (u.destroy d).table := by
  obtain ⟨_ | fd⟩ := u
  · exact h
  · exact h.close

theorem holdsOnly_bare {t : FdTable α} (hslot : ∀ n, t.slot n = t₀.slot n) :
    HoldsOnly t₀ (bare t) := .of_slot hslot

/-- An object that is moved from hands its descriptor over. -/
theorem perm_emptied {i : Nat} {u : UniqueFd} (hget : s.objects[i]? = some u) :
    (u.fd.toList ++ (owners (s.objects.set i .empty) ++ s.rest.loose)).Perm (held s) := by
  rw [held, ← List.append_assoc]
  exact (owners_set .empty hget).append_right _

theorem holdsOnly_assigned {i j : Nat} {u v : UniqueFd} (h : HoldsOnly t₀ s) (hij : i ≠ j)
    (hu : s.objects[i]? = some u) (hv : s.objects[j]? = some v) :
    HoldsOnly t₀ ⟨(s.objects.set i ⟨v.fd⟩).set j .empty,
      { s.rest with fds := u.destroy s.rest.fds }⟩ := by
  have hv' : (s.objects.set i ⟨v.fd⟩)[j]? = some v := by
    rw [List.getElem?_set_ne hij]
    exact hv
  -- what `v` owns is handed to the other object, and what that one owned is left over
  have hboth : (v.fd.toList ++ (u.fd.toList ++
      owners ((s.objects.set i ⟨v.fd⟩).set j .empty))).Perm (v.fd.toList ++ owners s.objects) := by
    refine (List.perm_append_comm_assoc _ _ _).trans ?_
    refine ((owners_set .empty hv').append_left u.fd.toList).trans ?_
    exact owners_set ⟨v.fd⟩ hu
  have howners := ((List.perm_append_left_iff _).mp hboth).append_right s.rest.loose
  rw [List.append_assoc] at howners
  exact extends_destroy (h.perm howners.symm)

theorem holdsOnly_after {t : FdTable α} {d : Ledger (Object α)} (h : HoldsOnly t₀ s)
    (hsettled : Ledger.Settled (s.rest.fds.table.map .caller) d)
    (hafter : ∀ n, d.table.slot n = (t.map .caller).slot n) :
    HoldsOnly t₀ ⟨s.objects, s.rest.after t⟩ := by
  refine h.congr fun n => ?_
  have hsame : (t.slot n).map Object.caller = (s.rest.fds.table.slot n).map .caller :=
    (hafter n).symm.trans (hsettled.restored n)
  exact Option.map_injective (fun _ _ => Object.caller.inj) hsame

theorem holdsOnly_performs {strerror : Int → String} {op : BodyOp α} {out : Ending}
    {s' : Scoped UniqueFd (Holdings α)} (h : HoldsOnly t₀ s) (hop : op.Performs strerror s out s') :
    HoldsOnly t₀ s' := by
  cases hop with
  | @opened path found _ u d hopen =>
      cases found with
      | error errno => cases hopen
      | ok a =>
          cases hopen
          exact h.alloc a
  | notOpened => exact h
  | adopted hfd => exact h.perm (perm_erase hfd _)
  | moved hget =>
      refine h.perm ((perm_emptied hget).symm.trans (.of_eq ?_))
      rw [← List.append_assoc, ← UniqueFd.owners_cons]
      rfl
  | assigned hij hu hv => exact holdsOnly_assigned h hij hu hv
  | assignedSelf => exact h
  | reset hget => exact extends_destroy (h.perm (perm_emptied hget).symm)
  | @resetTo i fd u _ hget hfd =>
      refine extends_destroy (h.perm ((perm_erase hfd _).trans ?_))
      rw [held, ← List.append_assoc]
      exact (owners_set (ofFd fd) hget).symm.append_right _
  | @released i u _ hget =>
      refine h.perm ((perm_emptied hget).symm.trans ?_)
      exact List.perm_append_comm_assoc _ _ _
  | acquired => exact (h.alloc _).perm List.perm_middle.symm
  | closed hfd => exact (h.perm (perm_erase hfd _)).close
  | ran hrun hended hafter =>
      exact holdsOnly_after h ((RunState.inv_run hrun).settled hended) hafter
  | ranCommand hrun hended hafter =>
      exact holdsOnly_after h ((CRunState.inv_run hrun).settled hended) hafter

theorem holdsOnly_destroy {u : UniqueFd} {objects : List UniqueFd} {w : Holdings α}
    (h : HoldsOnly t₀ ⟨u :: objects, w⟩) :
    HoldsOnly t₀ ⟨objects, { w with fds := u.destroy w.fds }⟩ := by
  refine extends_destroy ?_
  rw [held, ← List.append_assoc, ← UniqueFd.owners_cons]
  exact h

end HoldsOnly

/-- A body that has left its scopes holds the descriptors that no object owns. -/
theorem extends_of_exec {strerror : Int → String} {t₀ t : FdTable α} {body : Stmt (BodyOp α)}
    {out : Ending} {s : Scoped UniqueFd (Holdings α)} (hslot : ∀ n, t.slot n = t₀.slot n)
    (hexec : (bodyLang α strerror).Exec (.block body) (bare t) out s) :
    t₀.Extends s.rest.loose s.rest.fds.table := by
  have hprim : ∀ op s out s', True → HoldsOnly t₀ s → (bodyLang α strerror).prim op s out s' →
      HoldsOnly t₀ s' := fun _ _ _ _ _ => holdsOnly_performs
  have hholds : HoldsOnly t₀ s := hexec.invariant hprim (fun _ _ _ => holdsOnly_destroy)
    (body.all_of_forall fun _ => trivial) (holdsOnly_bare hslot)
  have hlives : out ≠ .terminated := by
    refine hexec.lives (fun _ _ => rfl) fun op s out s' hop => ?_
    cases hop with
    | ran => split <;> nofun
    | _ => nofun
  have hnone : s.objects = [] := hexec.closed rfl hlives
  rw [HoldsOnly, held, hnone] at hholds
  exact hholds

/-! ## The verdict of the guard -/

section Verdict

variable {proc proc' : ProcFs} {dir : α} (label : String) {t₀ t₁ : FdTable α} {loose : List Nat}
  (hfirst : (fdSnapshot proc dir t₀).1 ≠ []) (hsecond : (fdSnapshot proc' dir t₁).1 ≠ [])
  (h : t₀.Extends loose t₁)
include hfirst hsecond h

/-- The guard finds something exactly when something is left.  It also does when all that is left
has the number of its first snapshot: then it finds the number of the second one. -/
theorem leaked_eq_nil_iff :
    (FdLeakGuard.construct proc dir label t₀).1.leaked (fdSnapshot proc' dir t₁).1 = [] ↔
      loose = [] := by
  have hmem := @mem_leaked _ proc proc' dir label t₀ t₁ hfirst hsecond
  constructor
  · intro hnone
    refine List.eq_nil_iff_forall_not_mem.mpr fun n hn => ?_
    have hquiet : ∀ m, m ∉ (FdLeakGuard.construct proc dir label t₀).1.leaked
        (fdSnapshot proc' dir t₁).1 := by
      rw [hnone]
      exact fun m => List.not_mem_nil
    by_cases hsame : n = t₀.lowestFree
    · have hother : t₁.lowestFree ∉ loose := by
        intro hheld
        have hopen := h.opened _ hheld
        rw [FdTable.slot_lowestFree] at hopen
        cases hopen
      refine hquiet t₁.lowestFree ((hmem _).mpr ⟨.inr rfl, ?_, ?_⟩)
      · rw [← h.rest _ hother, FdTable.slot_lowestFree]
      · rw [← hsame]
        exact fun heq => hother (heq ▸ hn)
    · exact hquiet n ((hmem n).mpr ⟨.inl (h.opened n hn), h.fresh n hn, hsame⟩)
  · rintro rfl
    refine List.eq_nil_iff_forall_not_mem.mpr fun n hn => ?_
    obtain ⟨hnow, hclosed, hne⟩ := (hmem n).mp hn
    have hslot : ∀ m, t₁.slot m = t₀.slot m := fun m => h.rest m List.not_mem_nil
    rcases hnow with hopen | rfl
    · rw [hslot, hclosed] at hopen
      cases hopen
    · have hle : t₀.lowestFree ≤ t₁.lowestFree := FdTable.lowestFree_le hclosed
      have hle' : t₁.lowestFree ≤ t₀.lowestFree := by
        refine FdTable.lowestFree_le ?_
        rw [hslot, FdTable.slot_lowestFree]
      exact hne (Nat.le_antisymm hle' hle)

/-- It finds what is left exactly when the number of the first snapshot is not among it. -/
theorem leaked_perm_iff :
    ((FdLeakGuard.construct proc dir label t₀).1.leaked (fdSnapshot proc' dir t₁).1).Perm loose ↔
      t₀.lowestFree ∉ loose := by
  constructor
  · intro hperm hmem
    have hlisted := hperm.mem_iff.mpr hmem
    rw [mem_leaked hfirst hsecond] at hlisted
    exact hlisted.2.2 rfl
  · intro hnone
    have hfree : t₁.slot t₀.lowestFree = none := by
      rw [h.rest _ hnone, FdTable.slot_lowestFree]
    refine (List.perm_ext_iff_of_nodup ((nodup_fdSnapshot proc' dir t₁).filter _) h.nodup).mpr ?_
    intro n
    refine (leaked_eq_new hfirst hsecond hfree n).trans ⟨fun ⟨hclosed, hopen⟩ => ?_, fun hn => ?_⟩
    · by_contra hother
      rw [h.rest n hother, hclosed] at hopen
      cases hopen
    · exact ⟨h.fresh n hn, h.opened n hn⟩

end Verdict

/-- For any body, whichever way it leaves its scopes: only the descriptors that it has opened and
neither closed nor given to an object are left.  If both snapshots have found a descriptor for
their directory, the guard throws exactly when there are any, and its message lists them exactly
when the number that its first snapshot used is not among them.  A snapshot that fails is empty,
and an empty one is taken for that of a process without descriptors. -/
theorem guard_throws_iff (strerror : Int → String) (proc proc' : ProcFs) (dir : α)
    (label : String) (t₀ : FdTable α) {body : Stmt (BodyOp α)} {out : Ending}
    {s : Scoped UniqueFd (Holdings α)}
    (hexec : (bodyLang α strerror).Exec (.block body)
      (bare (FdLeakGuard.construct proc dir label t₀).2) out s)
    (hfirst : (fdSnapshot proc dir t₀).1 ≠ [])
    (hsecond : (fdSnapshot proc' dir s.rest.fds.table).1 ≠ []) :
    t₀.Extends s.rest.loose s.rest.fds.table ∧
    (((FdLeakGuard.construct proc dir label t₀).1.requireClean proc' dir s.rest.fds.table).1 =
      .ok () ↔ s.rest.loose = []) ∧
    (s.rest.loose ≠ [] → ((∃ fds : List Nat, fds.Perm s.rest.loose ∧
      ((FdLeakGuard.construct proc dir label t₀).1.requireClean proc' dir s.rest.fds.table).1 =
        .error ⟨(FdLeakGuard.construct proc dir label t₀).1.leakMessage fds⟩) ↔
      t₀.lowestFree ∉ s.rest.loose)) := by
  have hextends := extends_of_exec (slot_fdSnapshot proc dir t₀) hexec
  have hnil := leaked_eq_nil_iff label hfirst hsecond hextends
  refine ⟨hextends, ?_, fun hsome => ?_⟩
  · rw [← hnil, FdLeakGuard.requireClean]
    dsimp only
    split
    · rename_i hnone
      exact iff_of_true rfl hnone
    · rename_i hfound
      refine iff_of_false (fun hok => ?_) hfound
      cases hok
  · rw [← leaked_perm_iff label hfirst hsecond hextends, FdLeakGuard.requireClean]
    dsimp only
    rw [if_neg fun hnone => hsome (hnil.mp hnone)]
    constructor
    · rintro ⟨fds, hperm, hthrown⟩
      have hmessage := congrArg TestFailure.message (Except.error.inj hthrown)
      rw [FdLeakGuard.leakMessage_injective hmessage]
      exact hperm
    · exact fun hperm => ⟨_, hperm, rfl⟩

/-- A body that opens a descriptor and then finds no file. -/
def forgetful : Stmt (BodyOp Unit) :=
  .seq (.prim (.acquire ())) (.prim (.openFd "missing" (.error 2)))

/-- The guard throws, but does not name it. -/
theorem guard_throws_iff_forgetful :
    ∃ t₁ : FdTable Unit, t₁.isOpen 3 = true ∧
      ((FdLeakGuard.construct usual () "test" threeOpen).1.requireClean usual () t₁).1 ≠ .ok () ∧
      ((FdLeakGuard.construct usual () "test" threeOpen).1.requireClean usual () t₁).1 ≠
        .error ⟨(FdLeakGuard.construct usual () "test" threeOpen).1.leakMessage [3]⟩ := by
  have hbody : (bodyLang Unit fun _ => "").Exec forgetful
      (bare (FdLeakGuard.construct usual () "test" threeOpen).2) .threw _ :=
    .seq (.prim .acquired) (.prim (.notOpened rfl))
  obtain ⟨-, hok, hlists⟩ := guard_throws_iff (fun _ => "") usual usual () "test" threeOpen
    hbody.block (by decide) (by decide)
  refine ⟨(FdLeakGuard.construct usual () "test" threeOpen).2.alloc (), by decide,
    fun hclean => ?_, fun hthrown => ?_⟩
  · exact List.cons_ne_nil _ _ (hok.mp hclean)
  · have hwrong := (hlists (List.cons_ne_nil _ _)).mp ⟨[3], by decide, hthrown⟩
    exact hwrong (by decide)

end Ftl.Test
