/-
  Core/Ownership.lean --- any number of `UniqueFd` objects in one process.

  A store holds the objects that are alive, by address, and the descriptor table of the
  process.  Each slot of the table holds the serial number of the call that opened it, so
  that a number that is closed and opened again is another descriptor.  The steps are the
  members of ftl/core/fd.hpp and, between them, opens and closes by the rest of the
  program.

      descriptors_owned_once   in every run, descriptors have one owner, are open while
                               they are owned, and are closed once unless released
      custodial_step           the invariant behind it
-/
import Ftl.Core.Fd
import Ftl.Foundation.Custody
import Ftl.Foundation.Runs

set_option autoImplicit false

namespace Ftl.Core

open Function (update)
open Foundation (Event FdTable Ledger Runs)
open Foundation.Event (last Orderly)

/-- The objects of a process, its descriptors, and what has happened to these. -/
structure Store where
  /-- the object at an address, if one is alive there -/
  objects : Nat → Option UniqueFd
  /-- the descriptors; a slot holds the serial number of its opening -/
  fds : Ledger Nat
  /-- what objects have been given, have released and have closed, by serial number -/
  log : List (Event Nat)

/-- One step of the program: a member of an object, or (the last two) a call elsewhere. -/
inductive Op where
  /-- `UniqueFd x;` -/
  | construct (x : Nat)
  /-- `UniqueFd x(fd);` -/
  | constructFd (x fd : Nat)
  /-- `UniqueFd x(std::move(y));` -/
  | moveConstruct (x y : Nat)
  /-- `x = std::move(y);` -/
  | moveAssign (x y : Nat)
  /-- `x.release();` -/
  | release (x : Nat)
  /-- `x.reset();` -/
  | reset (x : Nat)
  /-- `x.reset(fd);` -/
  | resetTo (x fd : Nat)
  /-- the end of `x` -/
  | destroy (x : Nat)
  /-- a new descriptor -/
  | openFd
  /-- `close(fd);` of a descriptor that no object owns -/
  | closeFd (fd : Nat)
  deriving DecidableEq, Repr

/-- The object whose member is called. -/
def Op.target : Op → Option Nat
  | .construct x | .constructFd x _ | .moveConstruct x _ | .moveAssign x _ | .release x
  | .reset x | .resetTo x _ | .destroy x => some x
  | .openFd | .closeFd _ => none

namespace Store

/-- No objects and no descriptors; what the process inherits is opened by its first
steps. -/
def initial : Store where
  objects := fun _ => none
  fds := Ledger.begin (.ofList [])
  log := []

/-- The serial number of an open descriptor. -/
def serial (s : Store) (fd : Nat) : Option Nat := s.fds.table.slot fd

/-- The object at `x` owns `fd`. -/
def Owns (s : Store) (x fd : Nat) : Prop := s.objects x = some (.ofFd fd)

/-- `fd` is open and no object owns it. -/
def Loose (s : Store) (fd : Nat) : Prop :=
  (s.serial fd).isSome = true ∧ ∀ x, ¬ s.Owns x fd

/-- The numbers that have been closed on the way to `fds`. -/
def closings (s : Store) (fds : Ledger Nat) : List Nat :=
  fds.closed.drop s.fds.closed.length

/-- The store after a member that returned or was handed these descriptors. -/
def record (s : Store) (objects : Nat → Option UniqueFd) (fds : Ledger Nat)
    (released adopted : Option Nat) : Store where
  objects := objects
  fds := fds
  log := s.log ++ (released.bind s.serial).toList.map .released
    ++ ((s.closings fds).filterMap s.serial).map .closed
    ++ (adopted.bind s.serial).toList.map .adopted

/-- The steps of a program. -/
inductive Step (s : Store) : Op → Store → Prop
  | construct {x : Nat} : s.objects x = none →
      Step s (.construct x) (s.record (update s.objects x (some .empty)) s.fds none none)
  | constructFd {x fd : Nat} : s.objects x = none → s.Loose fd →
      Step s (.constructFd x fd)
        (s.record (update s.objects x (some (.ofFd fd))) s.fds none (some fd))
  | moveConstruct {x y : Nat} {v : UniqueFd} : s.objects x = none → s.objects y = some v →
      Step s (.moveConstruct x y)
        (s.record (update (update s.objects x (some v.moveConstruct.1)) y
          (some v.moveConstruct.2)) s.fds none none)
  /-- `if (this != &other)` -/
  | moveAssign {x y : Nat} {u v : UniqueFd} : x ≠ y → s.objects x = some u →
      s.objects y = some v →
      Step s (.moveAssign x y)
        (s.record (update (update s.objects x (some (u.moveAssign v s.fds).1.1)) y
          (some (u.moveAssign v s.fds).1.2)) (u.moveAssign v s.fds).2 none none)
  | moveAssignSelf {x : Nat} {u : UniqueFd} : s.objects x = some u →
      Step s (.moveAssign x x) (s.record s.objects s.fds none none)
  | release {x : Nat} {u : UniqueFd} : s.objects x = some u →
      Step s (.release x)
        (s.record (update s.objects x (some u.release.2)) s.fds u.release.1 none)
  | reset {x : Nat} {u : UniqueFd} : s.objects x = some u →
      Step s (.reset x)
        (s.record (update s.objects x (some (u.reset s.fds).1)) (u.reset s.fds).2 none none)
  | resetTo {x fd : Nat} {u : UniqueFd} : s.objects x = some u → s.Loose fd →
      Step s (.resetTo x fd)
        (s.record (update s.objects x (some (u.resetTo fd s.fds).1)) (u.resetTo fd s.fds).2
          none (some fd))
  | destroy {x : Nat} {u : UniqueFd} : s.objects x = some u →
      Step s (.destroy x) (s.record (update s.objects x none) (u.destroy s.fds) none none)
  | openFd : Step s .openFd { s with fds := s.fds.opens s.fds.opened.length }
  | closeFd {fd : Nat} : s.Loose fd → Step s (.closeFd fd) { s with fds := s.fds.close fd }

/-- Descriptors have one owner and one serial number; the log is orderly, and tells which
of them are owned and which have been closed. -/
structure Custodial (s : Store) : Prop where
  unique : ∀ x y fd, s.Owns x fd → s.Owns y fd → x = y
  opened : ∀ x fd, s.Owns x fd → (s.serial fd).isSome = true
  serials : ∀ fd fd' k, s.serial fd = some k → s.serial fd' = some k → fd = fd'
  below : ∀ fd k, s.serial fd = some k → k < s.fds.opened.length
  known : ∀ e ∈ s.log, e.about < s.fds.opened.length
  orderly : Orderly s.log
  held : ∀ k, last s.log k = some (.adopted k) ↔ ∃ x fd, s.Owns x fd ∧ s.serial fd = some k
  gone : ∀ k, last s.log k = some (.closed k) → ∀ fd, s.serial fd ≠ some k

/-! ## What one effect preserves -/

section Effects

variable {s : Store} {x fd k : Nat}

theorem Custodial.regroup (h : s.Custodial) {objects : Nat → Option UniqueFd}
    (hunique : ∀ x y fd, objects x = some (.ofFd fd) → objects y = some (.ofFd fd) → x = y)
    (howned : ∀ fd, (∃ x, objects x = some (.ofFd fd)) ↔ ∃ x, s.Owns x fd) :
    Custodial { s with objects := objects } := by
  refine ⟨hunique, ?_, h.serials, h.below, h.known, h.orderly, ?_, h.gone⟩
  · intro x fd hx
    obtain ⟨y, hy⟩ := (howned fd).mp ⟨x, hx⟩
    exact h.opened y fd hy
  · intro k
    rw [h.held k]
    constructor
    · rintro ⟨x, fd, hx, hk⟩
      obtain ⟨y, hy⟩ := (howned fd).mpr ⟨x, hx⟩
      exact ⟨y, fd, hy, hk⟩
    · rintro ⟨x, fd, hx, hk⟩
      obtain ⟨y, hy⟩ := (howned fd).mp ⟨x, hx⟩
      exact ⟨y, fd, hy, hk⟩

/-- The owners after one object has been given another value. -/
theorem owns_update {v : Option UniqueFd} {y fd' : Nat} :
    update s.objects x v y = some (.ofFd fd') ↔
      (y = x ∧ v = some (.ofFd fd')) ∨ (y ≠ x ∧ s.Owns y fd') := by
  by_cases hy : y = x
  · rw [hy, Function.update_self]
    simp
  · rw [Function.update_of_ne hy]
    simp [hy, Owns]

theorem owns_update_empty {y fd' : Nat} :
    update s.objects x (some .empty) y = some (.ofFd fd') ↔ y ≠ x ∧ s.Owns y fd' := by
  rw [owns_update]
  simp [UniqueFd.empty, UniqueFd.ofFd]

theorem Custodial.known_concat (h : s.Custodial) (hk : s.serial fd = some k) {e : Event Nat}
    (habout : e.about = k) : ∀ e' ∈ s.log ++ [e], e'.about < s.fds.opened.length := by
  intro e' he'
  rcases List.mem_append.mp he' with he' | he'
  · exact h.known e' he'
  · rw [List.mem_singleton.mp he', habout]
    exact h.below fd k hk

/-! ### An object that owns nothing takes a descriptor that nobody owns -/

theorem Custodial.unique_adopt (h : s.Custodial) (hloose : ∀ y, ¬ s.Owns y fd) {y z fd' : Nat}
    (hy : update s.objects x (some (.ofFd fd)) y = some (.ofFd fd'))
    (hz : update s.objects x (some (.ofFd fd)) z = some (.ofFd fd')) : y = z := by
  rcases owns_update.mp hy with ⟨hyx, hyfd⟩ | ⟨-, hy'⟩
  · rcases owns_update.mp hz with ⟨hzx, -⟩ | ⟨-, hz'⟩
    · rw [hyx, hzx]
    · cases hyfd
      exact (hloose z hz').elim
  · rcases owns_update.mp hz with ⟨-, hzfd⟩ | ⟨-, hz'⟩
    · cases hzfd
      exact (hloose y hy').elim
    · exact h.unique y z fd' hy' hz'

/-- What `x` takes is held from now on, and nothing else changes hands. -/
theorem Custodial.held_adopt (h : s.Custodial) (hx : ∀ fd, ¬ s.Owns x fd)
    (hk : s.serial fd = some k) (k' : Nat) :
    last (s.log ++ [.adopted k]) k' = some (.adopted k') ↔
      ∃ y fd', update s.objects x (some (.ofFd fd)) y = some (.ofFd fd') ∧
        s.serial fd' = some k' := by
  by_cases hsame : k = k'
  · rw [← hsame]
    exact iff_of_true (Event.last_concat_about s.log (.adopted k))
      ⟨x, fd, Function.update_self x _ _, hk⟩
  · rw [Event.last_concat_of_ne (e := .adopted k) hsame, h.held k']
    constructor
    · rintro ⟨y, fd', hy, hk'⟩
      refine ⟨y, fd', owns_update.mpr (.inr ⟨?_, hy⟩), hk'⟩
      rintro rfl
      exact hx fd' hy
    · rintro ⟨y, fd', hy, hk'⟩
      rcases owns_update.mp hy with ⟨-, hyfd⟩ | ⟨-, hy⟩
      · cases hyfd
        exact (hsame (Option.some.inj (hk.symm.trans hk'))).elim
      · exact ⟨y, fd', hy, hk'⟩

theorem Custodial.adopt (h : s.Custodial) (hx : ∀ fd, ¬ s.Owns x fd)
    (hloose : ∀ y, ¬ s.Owns y fd) (hk : s.serial fd = some k) :
    Custodial
      { objects := update s.objects x (some (.ofFd fd)), fds := s.fds
        log := s.log ++ [.adopted k] } := by
  have hfree : last s.log k ≠ some (.adopted k) := by
    intro hheld
    obtain ⟨y, fd', hy, hk'⟩ := (h.held k).mp hheld
    rw [h.serials fd' fd k hk' hk] at hy
    exact hloose y hy
  have hthere : last s.log k ≠ some (.closed k) := fun hgone => h.gone k hgone fd hk
  refine ⟨fun y z fd' => h.unique_adopt hloose, ?_, h.serials, h.below,
    h.known_concat hk rfl, h.orderly.adopts hfree hthere, h.held_adopt hx hk, ?_⟩
  · intro y fd' hy
    rcases owns_update.mp hy with ⟨-, hyfd⟩ | ⟨-, hy⟩
    · cases hyfd
      exact Option.isSome_of_mem hk
    · exact h.opened y fd' hy
  · intro k' hgone
    rw [Event.last_concat] at hgone
    split at hgone
    · cases hgone
    · exact h.gone k' hgone

/-! ### An object lets a descriptor go, which stays open or is closed -/

/-- The object at `x` owns `fd`, the descriptor `k`, and lets it go by the event `e`, after
which `d` is open. -/
structure LetsGo (s : Store) (x fd k : Nat) (e : Event Nat) (d : Ledger Nat) : Prop where
  owned : s.Owns x fd
  serial : s.serial fd = some k
  about : e.about = k
  leaves : e ≠ .adopted k
  opened : d.opened = s.fds.opened
  rest : ∀ n, n ≠ fd → d.table.slot n = s.serial n
  left : ∀ k', d.table.slot fd = some k' → k' = k ∧ e ≠ .closed k

section LetGo

variable {e : Event Nat} {d : Ledger Nat}

theorem letsGo_close (hx : s.Owns x fd) (hk : s.serial fd = some k) :
    s.LetsGo x fd k (.closed k) (s.fds.close fd) where
  owned := hx
  serial := hk
  about := rfl
  leaves := by simp
  opened := rfl
  rest := by
    intro n hn
    rw [Ledger.close, FdTable.slot_close, if_neg hn]
    rfl
  left := by
    intro k' hk'
    simp [Ledger.close, FdTable.slot_close] at hk'

theorem letsGo_release (hx : s.Owns x fd) (hk : s.serial fd = some k) :
    s.LetsGo x fd k (.released k) s.fds where
  owned := hx
  serial := hk
  about := rfl
  leaves := by simp
  opened := rfl
  rest := fun _ _ => rfl
  left := fun k' hk' => ⟨Option.some.inj (hk'.symm.trans hk), by simp⟩

theorem LetsGo.before (hgo : s.LetsGo x fd k e d) {n k' : Nat}
    (hn : d.table.slot n = some k') : s.serial n = some k' := by
  by_cases hnfd : n = fd
  · rw [hnfd] at hn ⊢
    rw [(hgo.left k' hn).1]
    exact hgo.serial
  · rw [← hgo.rest n hnfd]
    exact hn

theorem LetsGo.other (hgo : s.LetsGo x fd k e d) (h : s.Custodial) {y fd' : Nat}
    (hyx : y ≠ x) (hy : s.Owns y fd') : fd' ≠ fd := by
  rintro rfl
  exact hyx (h.unique y x fd' hy hgo.owned)

/-- What `x` lets go is held no longer, and nothing else changes hands. -/
theorem LetsGo.held (hgo : s.LetsGo x fd k e d) (h : s.Custodial) (k' : Nat) :
    last (s.log ++ [e]) k' = some (.adopted k') ↔
      ∃ y fd', update s.objects x (some .empty) y = some (.ofFd fd') ∧
        d.table.slot fd' = some k' := by
  rw [Event.last_concat, hgo.about]
  by_cases hsame : k = k'
  · rw [if_pos hsame, ← hsame]
    refine iff_of_false (fun he => hgo.leaves (Option.some.inj he)) ?_
    rintro ⟨y, fd', hy, hk'⟩
    obtain ⟨hyx, hy⟩ := owns_update_empty.mp hy
    exact hgo.other h hyx hy (h.serials fd' fd k (hgo.before hk') hgo.serial)
  · rw [if_neg hsame, h.held k']
    constructor
    · rintro ⟨y, fd', hy, hk'⟩
      have hne : fd' ≠ fd := by
        rintro rfl
        exact hsame (Option.some.inj (hgo.serial.symm.trans hk'))
      refine ⟨y, fd', owns_update_empty.mpr ⟨?_, hy⟩, (hgo.rest fd' hne).trans hk'⟩
      rintro rfl
      have hsome := hgo.owned.symm.trans hy
      cases hsome
      exact hne rfl
    · rintro ⟨y, fd', hy, hk'⟩
      exact ⟨y, fd', (owns_update_empty.mp hy).2, hgo.before hk'⟩

/-- What has been closed is not open, also when `fd` is closed now. -/
theorem LetsGo.gone (hgo : s.LetsGo x fd k e d) (h : s.Custodial) {k' : Nat}
    (hgone : last (s.log ++ [e]) k' = some (.closed k')) (n : Nat) :
    d.table.slot n ≠ some k' := by
  intro hn
  rw [Event.last_concat, hgo.about] at hgone
  split at hgone
  · rename_i hsame
    rw [← hsame] at hgone hn
    rw [h.serials n fd k (hgo.before hn) hgo.serial] at hn
    exact (hgo.left k hn).2 (Option.some.inj hgone)
  · exact h.gone k' hgone n (hgo.before hn)

theorem Custodial.letGo (h : s.Custodial) (hgo : s.LetsGo x fd k e d) :
    Custodial
      { objects := update s.objects x (some .empty), fds := d, log := s.log ++ [e] } := by
  have hheld : last s.log k = some (.adopted k) :=
    (h.held k).mpr ⟨x, fd, hgo.owned, hgo.serial⟩
  refine ⟨?_, ?_, ?_, ?_, ?_, h.orderly.letsGo hheld hgo.about hgo.leaves, hgo.held h,
    fun k' hgone => hgo.gone h hgone⟩
  · intro y z fd' hy hz
    exact h.unique y z fd' (owns_update_empty.mp hy).2 (owns_update_empty.mp hz).2
  · intro y fd' hy
    obtain ⟨hyx, hy⟩ := owns_update_empty.mp hy
    have hopen := h.opened y fd' hy
    rw [← hgo.rest fd' (hgo.other h hyx hy)] at hopen
    exact hopen
  · intro n m k' hn hm
    exact h.serials n m k' (hgo.before hn) (hgo.before hm)
  · intro n k' hn
    rw [hgo.opened]
    exact h.below n k' (hgo.before hn)
  · rw [hgo.opened]
    exact h.known_concat hgo.serial hgo.about

end LetGo

/-! ### The rest of the program -/

theorem Custodial.serials_opens (h : s.Custodial) {n m k : Nat}
    (hn : (s.fds.table.alloc s.fds.opened.length).slot n = some k)
    (hm : (s.fds.table.alloc s.fds.opened.length).slot m = some k) : n = m := by
  rcases FdTable.slot_alloc_cases hn with ⟨hn', hnew⟩ | hn'
  · rcases FdTable.slot_alloc_cases hm with ⟨hm', -⟩ | hm'
    · rw [hn', hm']
    · have hbelow := h.below m k hm'
      omega
  · rcases FdTable.slot_alloc_cases hm with ⟨-, hnew⟩ | hm'
    · have hbelow := h.below n k hn'
      omega
    · exact h.serials n m k hn' hm'

theorem Custodial.held_opens (h : s.Custodial) (k : Nat) :
    last s.log k = some (.adopted k) ↔
      ∃ x fd, s.Owns x fd ∧ (s.fds.table.alloc s.fds.opened.length).slot fd = some k := by
  rw [h.held k]
  constructor
  · rintro ⟨x, fd, hx, hk⟩
    exact ⟨x, fd, hx, FdTable.slot_alloc_of_some hk⟩
  · rintro ⟨x, fd, hx, hk⟩
    obtain ⟨k', hk'⟩ := Option.isSome_iff_exists.mp (h.opened x fd hx)
    cases (FdTable.slot_alloc_of_some hk').symm.trans hk
    exact ⟨x, fd, hx, hk'⟩

theorem Custodial.opens (h : s.Custodial) :
    Custodial { s with fds := s.fds.opens s.fds.opened.length } := by
  have hlength : (s.fds.opens s.fds.opened.length).opened.length = s.fds.opened.length + 1 := by
    simp [Ledger.opens]
  refine ⟨h.unique, ?_, fun n m k => h.serials_opens, ?_, ?_, h.orderly, h.held_opens, ?_⟩
  · intro x fd hx
    obtain ⟨k, hk⟩ := Option.isSome_iff_exists.mp (h.opened x fd hx)
    exact Option.isSome_of_mem (FdTable.slot_alloc_of_some hk)
  · intro n k hn
    rw [hlength]
    rcases FdTable.slot_alloc_cases hn with ⟨-, hnew⟩ | hn'
    · omega
    · exact Nat.lt_succ_of_lt (h.below n k hn')
  · intro e he
    rw [hlength]
    exact Nat.lt_succ_of_lt (h.known e he)
  · intro k hgone n hn
    rcases FdTable.slot_alloc_cases hn with ⟨-, hnew⟩ | hn'
    · have hknown := h.known _ (Event.mem_of_last hgone)
      rw [hnew] at hknown
      exact Nat.lt_irrefl _ hknown
    · exact h.gone k hgone n hn'

/-- The rest of the program closes a descriptor that no object owns. -/
theorem Custodial.closes (h : s.Custodial) (hloose : ∀ x, ¬ s.Owns x fd) :
    Custodial { s with fds := s.fds.close fd } := by
  have hslot : ∀ n k, (s.fds.table.close fd).slot n = some k ↔
      n ≠ fd ∧ s.serial n = some k := by
    intro n k
    rw [FdTable.slot_close]
    split
    · rename_i hsame
      simp [hsame]
    · rename_i hne
      simp [hne, serial]
  have howned : ∀ x n, s.Owns x n → n ≠ fd := by
    rintro x n hx rfl
    exact hloose x hx
  refine ⟨h.unique, ?_, ?_, ?_, h.known, h.orderly, ?_, ?_⟩
  · intro x n hx
    obtain ⟨k, hk⟩ := Option.isSome_iff_exists.mp (h.opened x n hx)
    exact Option.isSome_of_mem ((hslot n k).mpr ⟨howned x n hx, hk⟩)
  · intro n m k hn hm
    exact h.serials n m k ((hslot n k).mp hn).2 ((hslot m k).mp hm).2
  · intro n k hn
    exact h.below n k ((hslot n k).mp hn).2
  · intro k
    rw [h.held k]
    constructor
    · rintro ⟨x, n, hx, hk⟩
      exact ⟨x, n, hx, (hslot n k).mpr ⟨howned x n hx, hk⟩⟩
    · rintro ⟨x, n, hx, hk⟩
      exact ⟨x, n, hx, ((hslot n k).mp hk).2⟩
  · intro k hgone n hn
    exact h.gone k hgone n ((hslot n k).mp hn).2

end Effects

/-! ## The steps -/

section Steps

variable {s : Store} {objects : Nat → Option UniqueFd} {x : Nat} {u : UniqueFd}

theorem closings_self (s : Store) : s.closings s.fds = [] := by
  simp [closings]

theorem closings_destroy (s : Store) (u : UniqueFd) :
    s.closings (u.destroy s.fds) = u.fd.toList := by
  obtain ⟨_ | fd⟩ := u
  · exact s.closings_self
  · simp [closings, UniqueFd.destroy, Ledger.close]

/-- A member that closes nothing and exchanges no descriptors with its caller. -/
theorem record_quiet (s : Store) (objects : Nat → Option UniqueFd) :
    s.record objects s.fds none none = { s with objects := objects } := by
  simp [record, closings_self]

/-- The object at `x`, emptied by closing what it owns. -/
def emptied (s : Store) (x : Nat) (u : UniqueFd) : Store :=
  s.record (update s.objects x (some .empty)) (u.destroy s.fds) none none

theorem owns_emptied {y fd : Nat} :
    (s.emptied x u).Owns y fd ↔ y ≠ x ∧ s.Owns y fd :=
  owns_update_empty

theorem custodial_emptied (h : s.Custodial) (hx : s.objects x = some u) :
    (s.emptied x u).Custodial := by
  obtain ⟨_ | fd⟩ := u
  · unfold emptied
    rw [show UniqueFd.destroy ⟨none⟩ s.fds = s.fds from rfl, record_quiet]
    have hsame : update s.objects x (some UniqueFd.empty) = s.objects := by
      rw [← show s.objects x = some UniqueFd.empty from hx]
      exact Function.update_eq_self x s.objects
    rw [hsame]
    exact h
  · obtain ⟨k, hk⟩ := Option.isSome_iff_exists.mp (h.opened x fd hx)
    have hclosed := h.letGo (letsGo_close hx hk)
    have hlog : s.emptied x ⟨some fd⟩ =
        { objects := update s.objects x (some .empty), fds := s.fds.close fd
          log := s.log ++ [.closed k] } := by
      unfold emptied record
      rw [closings_destroy]
      simp [hk, UniqueFd.destroy]
    rw [hlog]
    exact hclosed

/-- The owners after a move from `y` to an object that has been emptied. -/
theorem owns_moved {y : Nat} {v : UniqueFd} (hxy : x ≠ y) (hy : s.objects y = some v)
    {z fd : Nat} :
    update (update s.objects x (some (⟨v.fd⟩ : UniqueFd))) y (some .empty) z
        = some (.ofFd fd) ↔
      (z = x ∧ s.Owns y fd) ∨ (z ≠ x ∧ z ≠ y ∧ s.Owns z fd) := by
  have hvalue : some (⟨v.fd⟩ : UniqueFd) = some (.ofFd fd) ↔ s.Owns y fd := by
    unfold Owns
    rw [hy]
  by_cases hzy : z = y
  · rw [hzy, Function.update_self]
    simp [UniqueFd.empty, UniqueFd.ofFd, hxy.symm]
  · rw [Function.update_of_ne hzy, owns_update, hvalue]
    simp [hzy]

/-- The same descriptors are owned, each by one object, after a move to an object that
owns nothing. -/
theorem Custodial.move {y : Nat} {v : UniqueFd} (h : s.Custodial) (hxy : x ≠ y)
    (hx : ∀ fd, ¬ s.Owns x fd) (hy : s.objects y = some v) :
    Custodial
      { s with
        objects := update (update s.objects x (some (⟨v.fd⟩ : UniqueFd))) y
          (some .empty) } := by
  refine h.regroup ?_ ?_
  · intro z z' fd hz hz'
    rcases (owns_moved hxy hy).mp hz with ⟨hzx, hyfd⟩ | ⟨-, hzy, hzfd⟩
    · rcases (owns_moved hxy hy).mp hz' with ⟨hzx', -⟩ | ⟨-, hzy', hzfd'⟩
      · rw [hzx, hzx']
      · exact (hzy' (h.unique z' y fd hzfd' hyfd)).elim
    · rcases (owns_moved hxy hy).mp hz' with ⟨-, hyfd⟩ | ⟨-, -, hzfd'⟩
      · exact (hzy (h.unique z y fd hzfd hyfd)).elim
      · exact h.unique z z' fd hzfd hzfd'
  · intro fd
    constructor
    · rintro ⟨z, hz⟩
      rcases (owns_moved hxy hy).mp hz with ⟨-, hyfd⟩ | ⟨-, -, hzfd⟩
      · exact ⟨y, hyfd⟩
      · exact ⟨z, hzfd⟩
    · rintro ⟨z, hz⟩
      by_cases hzy : z = y
      · rw [hzy] at hz
        exact ⟨x, (owns_moved hxy hy).mpr (.inl ⟨rfl, hz⟩)⟩
      · refine ⟨z, (owns_moved hxy hy).mpr (.inr ⟨?_, hzy, hz⟩)⟩
        rintro rfl
        exact hx fd hz

/-- An object that owns nothing can begin or end, or be replaced by such an object. -/
theorem Custodial.exchange (h : s.Custodial) (hx : ∀ fd, ¬ s.Owns x fd)
    {v : Option UniqueFd} (hv : ∀ fd, v ≠ some (.ofFd fd)) :
    Custodial { s with objects := update s.objects x v } := by
  have howns : ∀ z fd, update s.objects x v z = some (.ofFd fd) ↔ s.Owns z fd := by
    intro z fd
    rw [owns_update]
    constructor
    · rintro (⟨-, hvalue⟩ | ⟨-, hz⟩)
      · exact (hv fd hvalue).elim
      · exact hz
    · intro hz
      refine .inr ⟨?_, hz⟩
      rintro rfl
      exact hx fd hz
  refine h.regroup ?_ ?_
  · intro z z' fd hz hz'
    exact h.unique z z' fd ((howns z fd).mp hz) ((howns z' fd).mp hz')
  · intro fd
    exact exists_congr fun z => howns z fd

theorem not_owns_of_none (hx : s.objects x = none) (fd : Nat) : ¬ s.Owns x fd := by
  unfold Owns
  rw [hx]
  exact nofun

theorem not_owns_emptied (fd : Nat) : ¬ (s.emptied x u).Owns x fd := fun h =>
  (owns_emptied.mp h).1 rfl

/-- What is loose is so after an object has been emptied. -/
theorem loose_emptied {fd : Nat} (hx : s.objects x = some u) (hloose : s.Loose fd) :
    (∀ y, ¬ (s.emptied x u).Owns y fd) ∧ (s.emptied x u).serial fd = s.serial fd := by
  refine ⟨fun y hy => hloose.2 y (owns_emptied.mp hy).2, ?_⟩
  obtain ⟨_ | n⟩ := u
  · rfl
  · have hne : fd ≠ n := by
      rintro rfl
      exact hloose.2 x hx
    simp only [serial, emptied, record, UniqueFd.destroy, Ledger.close]
    rw [FdTable.slot_close, if_neg hne]

/-- A step that hands a loose descriptor to `x`, once `x` has been emptied. -/
theorem custodial_resetTo {fd : Nat} (h : s.Custodial) (hx : s.objects x = some u)
    (hloose : s.Loose fd) :
    Custodial
      (s.record (update s.objects x (some (u.resetTo fd s.fds).1)) (u.resetTo fd s.fds).2
        none (some fd)) := by
  obtain ⟨hnone, hserial⟩ := loose_emptied hx hloose
  obtain ⟨k, hk⟩ := Option.isSome_iff_exists.mp hloose.1
  have hadopted := (custodial_emptied h hx).adopt not_owns_emptied hnone (hserial.trans hk)
  have hsame : s.record (update s.objects x (some (u.resetTo fd s.fds).1))
      (u.resetTo fd s.fds).2 none (some fd) =
      { objects := update (s.emptied x u).objects x (some (.ofFd fd))
        fds := (s.emptied x u).fds, log := (s.emptied x u).log ++ [.adopted k] } := by
    simp [record, emptied, UniqueFd.resetTo, hk]
  rw [hsame]
  exact hadopted

/-- Every step keeps descriptors in custody. -/
theorem custodial_step {op : Op} {s' : Store} (h : s.Custodial) (hstep : Step s op s') :
    s'.Custodial := by
  cases hstep with
  | construct hx =>
      rw [record_quiet]
      exact h.exchange (not_owns_of_none hx) (by simp [UniqueFd.empty, UniqueFd.ofFd])
  | @constructFd x fd hx hloose =>
      obtain ⟨k, hk⟩ := Option.isSome_iff_exists.mp hloose.1
      have hadopted := h.adopt (not_owns_of_none hx) hloose.2 hk
      simpa [record, closings_self, hk] using hadopted
  | @moveConstruct x y v hx hy =>
      have hxy : x ≠ y := by
        rintro rfl
        rw [hx] at hy
        cases hy
      rw [record_quiet]
      exact h.move hxy (not_owns_of_none hx) hy
  | @moveAssign x y u v hxy hx hy =>
      -- the assignment closes what `x` owns before it takes what `y` owns
      have hother : (s.emptied x u).objects y = some v := by
        simp only [emptied, record]
        rw [Function.update_of_ne hxy.symm]
        exact hy
      have hmoved := (custodial_emptied h hx).move hxy not_owns_emptied hother
      simpa [emptied, record, UniqueFd.moveAssign] using hmoved
  | moveAssignSelf =>
      rw [record_quiet]
      exact h
  | @release x u hx =>
      obtain ⟨_ | fd⟩ := u
      · have hsame := h.exchange (v := some .empty) (x := x)
          (fun fd hfd => by cases hx.symm.trans hfd) (by simp [UniqueFd.empty, UniqueFd.ofFd])
        simpa [record, closings_self, UniqueFd.release] using hsame
      · obtain ⟨k, hk⟩ := Option.isSome_iff_exists.mp (h.opened x fd hx)
        have hreleased := h.letGo (letsGo_release hx hk)
        simpa [record, closings_self, UniqueFd.release, hk] using hreleased
  | reset hx => exact custodial_emptied h hx
  | resetTo hx hloose => exact custodial_resetTo h hx hloose
  | @destroy x u hx =>
      have hgone := (custodial_emptied h hx).exchange not_owns_emptied (v := none) (by simp)
      simpa [emptied, record] using hgone
  | openFd => exact h.opens
  | closeFd hloose => exact h.closes hloose.2

/-- A member closes nothing but what its object owns. -/
theorem owns_of_mem_closings {op : Op} {s' : Store} (hstep : Step s op s')
    (htarget : op.target = some x) {fd : Nat} (hfd : fd ∈ s.closings s'.fds) : s.Owns x fd := by
  have hquiet : fd ∉ s.closings s.fds := by
    rw [closings_self]
    exact List.not_mem_nil
  have hdestroy : ∀ {u : UniqueFd}, s.objects x = some u →
      fd ∈ s.closings (u.destroy s.fds) → s.Owns x fd := by
    intro u hx hmem
    rw [closings_destroy] at hmem
    obtain ⟨_ | n⟩ := u
    · cases hmem
    · rw [List.mem_singleton.mp hmem]
      exact hx
  cases hstep with
  | moveAssign _ hx _ =>
      cases htarget
      exact hdestroy hx hfd
  | reset hx =>
      cases htarget
      exact hdestroy hx hfd
  | resetTo hx _ =>
      cases htarget
      exact hdestroy hx hfd
  | destroy hx =>
      cases htarget
      exact hdestroy hx hfd
  | openFd => cases htarget
  | closeFd _ => cases htarget
  | _ => exact (hquiet hfd).elim

theorem custodial_initial : Store.initial.Custodial where
  unique := by simp [Owns, Store.initial]
  opened := by simp [Owns, Store.initial]
  serials := by simp [serial, Store.initial, Ledger.begin, FdTable.ofList]
  below := by simp [serial, Store.initial, Ledger.begin, FdTable.ofList]
  known := by simp [Store.initial]
  orderly := .nil
  held := by simp [Owns, Store.initial]
  gone := by simp [Store.initial]

end Steps

/-- What holds of the descriptors in a store.  Numbers come back after a close, so what has been
closed once is told by the serial number that an open gives. -/
structure OwnedOnce (s : Store) : Prop where
  /-- a descriptor has at most one owner -/
  unique : ∀ x y fd, s.Owns x fd → s.Owns y fd → x = y
  /-- what is owned is open -/
  opened : ∀ x fd, s.Owns x fd → (s.serial fd).isSome = true
  /-- what a member closes is open, and its object owns it -/
  closes : ∀ op s' x fd, Step s op s' → op.target = some x → fd ∈ s.closings s'.fds →
    (s.serial fd).isSome = true ∧ s.Owns x fd
  /-- without objects, what an object was ever given has been closed once, unless the last
  owner released it -/
  balanced : (∀ x, s.objects x = none) → ∀ k, .adopted k ∈ s.log →
    s.log.count (.closed k) = if last s.log k = some (.released k) then 0 else 1

/-- In every run, descriptors are owned once, and closed once. -/
theorem descriptors_owned_once {ops : List Op} {s : Store}
    (hrun : Runs Step Store.initial ops s) : s.OwnedOnce := by
  have h : s.Custodial := hrun.invariant custodial_initial fun h hstep => custodial_step h hstep
  refine ⟨h.unique, h.opened, ?_, ?_⟩
  · intro op s' x fd hstep htarget hfd
    have hx := owns_of_mem_closings hstep htarget hfd
    exact ⟨h.opened x fd hx, hx⟩
  · intro hnone k hadopted
    rw [h.orderly.count_closed k]
    obtain ⟨e, hlast⟩ := Event.last_isSome hadopted
    simp only [Event.about] at hlast
    rw [hlast]
    have habout : e.about = k := Event.about_of_last hlast
    cases e with
    | adopted k' =>
        simp only [Event.about] at habout
        rw [habout] at hlast
        obtain ⟨x, fd, hx, -⟩ := (h.held k).mp hlast
        exact (not_owns_of_none (hnone x) fd hx).elim
    | released k' =>
        simp only [Event.about] at habout
        simp [habout]
    | closed k' =>
        simp only [Event.about] at habout
        simp [habout]

/-- A descriptor that is moved, and moved to itself, before its owner ends. -/
theorem descriptors_owned_once_moves : ∃ s,
    Runs Step Store.initial
      [.openFd, .constructFd 0 0, .moveConstruct 1 0, .moveAssign 1 1, .destroy 1] s ∧
        s.OwnedOnce := by
  have hrun : ∃ s, Runs Step Store.initial
      [.openFd, .constructFd 0 0, .moveConstruct 1 0, .moveAssign 1 1, .destroy 1] s := by
    refine ⟨_, .head .openFd <| .head (.constructFd rfl ⟨rfl, ?_⟩) <|
      .head (.moveConstruct rfl rfl) <| .head (.moveAssignSelf rfl) <| .single (.destroy rfl)⟩
    intro x hx
    cases hx
  obtain ⟨s, hs⟩ := hrun
  exact ⟨s, hs, descriptors_owned_once hs⟩

end Store

end Ftl.Core
