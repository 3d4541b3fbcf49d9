/-
  Test/Exhaustion.lean --- the leak guards when the descriptor table is full.

  A snapshot needs a descriptor of its own.  Without one it returns no descriptors and no
  threads, which both guards take for a clean process:

      fd_clean_iff                  the descriptor guard
      thread_clean_iff              the thread guard, poll by poll
      failed_snapshot_clean_iff     when a failed snapshot becomes no clean verdict
-/
import Ftl.Test.Guards

set_option autoImplicit false

namespace Ftl.Test

open Foundation (FdTable)

variable {α : Type}

/-- A system with procfs and memory, on which only a full table makes `open` fail. -/
def procfs (limit : Nat) : ProcFs where
  limit := limit
  opens := true
  allocates := true

/-- Every number below the limit is taken. -/
def Full (limit : Nat) (t : FdTable α) : Prop := limit ≤ t.lowestFree

instance (limit : Nat) (t : FdTable α) : Decidable (Full limit t) :=
  inferInstanceAs (Decidable (_ ≤ _))

/-! ## FdLeakGuard -/

section Descriptors

variable {limit : Nat} {dir : α} {t : FdTable α}

theorem fdSnapshot_of_full (h : Full limit t) : (fdSnapshot (procfs limit) dir t).1 = [] := by
  have hfails : (procfs limit).opens = false ∨ (procfs limit).limit ≤ t.lowestFree := .inr h
  unfold fdSnapshot
  rw [if_pos hfails]

theorem mem_fdSnapshot_of_not_full (h : ¬ Full limit t) (n : Nat) :
    n ∈ (fdSnapshot (procfs limit) dir t).1 ↔ t.isOpen n = true ∨ n = t.lowestFree := by
  apply mem_fdSnapshot_of_free
  · rintro (hclosed | hfull)
    · cases hclosed
    · exact h hfull
  · intro hmemory
    cases hmemory

theorem FdLeakGuard.returns_iff {guard : FdLeakGuard} {proc : ProcFs} :
    (guard.requireClean proc dir t).1 = .ok () ↔
      ∀ n ∈ (fdSnapshot proc dir t).1, n ∈ guard.baseline := by
  have hleaked : guard.leaked (fdSnapshot proc dir t).1 = [] ↔
      ∀ n ∈ (fdSnapshot proc dir t).1, n ∈ guard.baseline := by
    simp [FdLeakGuard.leaked, List.filter_eq_nil_iff]
  rw [← hleaked, FdLeakGuard.requireClean]
  simp only
  split
  · rename_i hnone
    exact ⟨fun _ => hnone, fun _ => rfl⟩
  · rename_i hsome
    exact ⟨fun hok => (by cases hok), fun hnone => (hsome hnone).elim⟩

/-- The descriptor guard lets nothing through exactly if the table is not full, or there is
nothing to let through. -/
theorem fd_clean_iff (limit : Nat) (dir : α) (guard : FdLeakGuard) (t : FdTable α) :
    ((guard.requireClean (procfs limit) dir t).1 = .ok () →
        ∀ n, t.isOpen n = true → n ∈ guard.baseline) ↔
      ¬ Full limit t ∨ ∀ n, t.isOpen n = true → n ∈ guard.baseline := by
  rw [FdLeakGuard.returns_iff]
  by_cases hfull : Full limit t
  · rw [fdSnapshot_of_full hfull]
    simp [hfull]
  · simp only [mem_fdSnapshot_of_not_full hfull]
    exact ⟨fun _ => .inl hfull, fun _ hclean n hopen => hclean n (.inl hopen)⟩

end Descriptors

/-! ## ThreadLeakGuard -/

/-- A process at a poll. -/
structure Scene (α : Type) where
  table : FdTable α
  threads : List Thread
  clock : Nat

namespace Scene

variable {limit : Nat}

/-- Its threads that run. -/
def count (s : Scene α) : Nat := (s.threads.filter Thread.running).length

/-- What a poll sees of it. -/
def poll (limit : Nat) (s : Scene α) : Poll where
  dir := if Full limit s.table then none else taskDir s.threads
  clock := s.clock

theorem snapshot_of_full {s : Scene α} (h : Full limit s.table) :
    threadSnapshot (s.poll limit).dir = 0 := by
  rw [poll, if_pos h]
  rfl

theorem snapshot_of_not_full {s : Scene α} (h : ¬ Full limit s.table) :
    threadSnapshot (s.poll limit).dir = s.count := by
  rw [poll, if_neg h]
  exact threadSnapshot_taskEntries _

end Scene

namespace ThreadLeakGuard

/-- `require_clean` takes a poll of `s`. -/
def Polled (guard : ThreadLeakGuard) (limit expected start : Nat) (scenes : List (Scene α))
    (s : Scene α) : Prop :=
  ∃ front back, scenes = front ++ s :: back ∧
    guard.requireClean expected start (front.map (Scene.poll limit)) = none

/-- `require_clean` returns normally after a poll of `s`. -/
def ReturnsAt (guard : ThreadLeakGuard) (limit expected start : Nat) (scenes : List (Scene α))
    (s : Scene α) : Prop :=
  ∃ front back, scenes = front ++ s :: back ∧
    guard.requireClean expected start (front.map (Scene.poll limit)) = none ∧
    guard.requireClean expected start ((front ++ [s]).map (Scene.poll limit)) = some (.ok ())

theorem look_returns_iff {guard : ThreadLeakGuard} {expected deadline : Nat} {p : Poll} :
    guard.look expected deadline p = some (.ok ()) ↔
      threadSnapshot p.dir ≤ guard.baseline + expected := by
  unfold look
  simp only
  split
  · rename_i hfew
    exact ⟨fun _ => hfew, fun _ => rfl⟩
  · rename_i hmany
    refine ⟨fun hok => ?_, fun hfew => (hmany hfew).elim⟩
    split at hok
    · cases hok
    · cases hok

theorem returnsAt_iff {guard : ThreadLeakGuard} {limit expected start : Nat}
    {scenes : List (Scene α)} {s : Scene α} :
    guard.ReturnsAt limit expected start scenes s ↔
      guard.Polled limit expected start scenes s ∧
        threadSnapshot (s.poll limit).dir ≤ guard.baseline + expected := by
  have hlast : ∀ front : List (Scene α),
      guard.requireClean expected start (front.map (Scene.poll limit)) = none →
        (guard.requireClean expected start ((front ++ [s]).map (Scene.poll limit)) =
            some (.ok ()) ↔
          threadSnapshot (s.poll limit).dir ≤ guard.baseline + expected) := by
    intro front hnone
    rw [← @look_returns_iff guard expected (start + 500)]
    unfold requireClean at hnone ⊢
    rw [List.map_append, List.findSome?_append, hnone]
    simp
  constructor
  · rintro ⟨front, back, hscenes, hnone, hok⟩
    exact ⟨⟨front, back, hscenes, hnone⟩, (hlast front hnone).mp hok⟩
  · rintro ⟨⟨front, back, hscenes, hnone⟩, hfew⟩
    exact ⟨front, back, hscenes, hnone, (hlast front hnone).mpr hfew⟩

end ThreadLeakGuard

/-- The thread guard lets nothing through exactly if at every poll the table is not full, or
there is nothing to let through. -/
theorem thread_clean_iff (limit expected start : Nat) (guard : ThreadLeakGuard)
    (scenes : List (Scene α)) :
    (∀ s, guard.ReturnsAt limit expected start scenes s →
        s.count ≤ guard.baseline + expected) ↔
      ∀ s, guard.Polled limit expected start scenes s →
        ¬ Full limit s.table ∨ s.count ≤ guard.baseline + expected := by
  have hscene : ∀ s : Scene α,
      (threadSnapshot (s.poll limit).dir ≤ guard.baseline + expected →
          s.count ≤ guard.baseline + expected) ↔
        ¬ Full limit s.table ∨ s.count ≤ guard.baseline + expected := by
    intro s
    by_cases hfull : Full limit s.table
    · rw [Scene.snapshot_of_full hfull]
      simp [hfull]
    · rw [Scene.snapshot_of_not_full hfull]
      simp [hfull]
  constructor
  · intro h s hpolled
    apply (hscene s).mp
    intro hfew
    exact h s (ThreadLeakGuard.returnsAt_iff.mpr ⟨hpolled, hfew⟩)
  · intro h s hreturns
    obtain ⟨hpolled, hfew⟩ := ThreadLeakGuard.returnsAt_iff.mp hreturns
    exact (hscene s).mpr (h s hpolled) hfew

/-! ## Both guards -/

/-- Whatever the baselines are, and whatever the process has come to: the guards return
normally on nothing but clean states if and only if the table is not full when they look at
an unclean one.  A full table leaves `opendir` no descriptor, and both guards take what they
get then, nothing, for an observation. -/
theorem failed_snapshot_clean_iff (limit : Nat) :
    (∀ (dir : α) (guard : FdLeakGuard) (t : FdTable α),
      ((guard.requireClean (procfs limit) dir t).1 = .ok () →
          ∀ n, t.isOpen n = true → n ∈ guard.baseline) ↔
        ¬ Full limit t ∨ ∀ n, t.isOpen n = true → n ∈ guard.baseline) ∧
    ∀ (expected start : Nat) (guard : ThreadLeakGuard) (scenes : List (Scene α)),
      (∀ s, guard.ReturnsAt limit expected start scenes s →
          s.count ≤ guard.baseline + expected) ↔
        ∀ s, guard.Polled limit expected start scenes s →
          ¬ Full limit s.table ∨ s.count ≤ guard.baseline + expected :=
  ⟨fd_clean_iff limit, thread_clean_iff limit⟩

/-- A process in which every number below 8 is taken. -/
def exhausted : FdTable Unit := .ofList (List.replicate 8 ())

/-- Descriptors leak until the table is full, and a second thread runs: both guards return
normally. -/
theorem failed_snapshot_is_clean :
    (((FdLeakGuard.construct (procfs 8) () "scope" threeOpen).1.requireClean (procfs 8) ()
        exhausted).1 = .ok () ∧
      exhausted.isOpen 4 = true ∧
      4 ∉ (FdLeakGuard.construct (procfs 8) () "scope" threeOpen).1.baseline) ∧
    (mainGuard.requireClean 0 0
        [(⟨exhausted, [mainThread, worker false false false], 0⟩ : Scene Unit).poll 8] =
          some (.ok ()) ∧
      mainGuard.baseline <
        (⟨exhausted, [mainThread, worker false false false], 0⟩ : Scene Unit).count) := by
  refine ⟨⟨rfl, rfl, by decide⟩, rfl, by decide⟩

end Ftl.Test
