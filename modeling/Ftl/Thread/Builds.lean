/-
  Thread/Builds.lean --- the verdicts of the two builds of `StuckThreadGuard`.

  The build without `pthread_timedjoin_np` asks `pthread_kill(h, 0)` whether a thread is
  gone.  It joins nothing, and the ID of a thread that has terminated lives on until somebody
  joins it, so this build names every watched thread.

      fallback_names_all     the verdict without timed joins
      message_length         the message tells how many threads it names
      verdicts_agree_iff     when the two builds say the same
-/
import Ftl.Thread.Probing
import Ftl.Foundation.Decimal

set_option autoImplicit false

namespace Ftl.Thread

open Foundation (decimal_append_inj NoDigitFirst)

/-! ## The fallback -/

section Fallback

variable {env : Env} {deadline : Int} {h : Handle} {fuel : Nat} {s s' : Threads} {b : Bool}

/-- A probe of a thread that nobody has joined ends at the deadline, whether the thread has
terminated or not. -/
theorem probeFinished_eq (hrun : probeFinished env deadline h fuel s = (some b, s'))
    (hbefore : ¬ s.Joined h) : b = false ∧ s'.calls = s.calls := by
  have halive : ∀ {s : Threads}, ¬ s.Joined h → killFindsNone s h = false :=
    fun hs => decide_eq_false hs
  induction fuel generalizing s with
  | zero => simp [probeFinished] at hrun
  | succ fuel ih =>
      simp only [probeFinished, halive hbefore, Bool.false_eq_true, if_false] at hrun
      split at hrun
      · cases hrun
        exact ⟨rfl, rfl⟩
      · have hrest := ih hrun
        exact hrest hbefore

/-- The fallback names every watched thread that nobody has joined. -/
theorem fallback_names_all {ws : List Watched} {acc stuck : List String}
    (hrun : scan .fallback env deadline fuel ws acc s = (some stuck, s'))
    (hbefore : ∀ w ∈ ws, ¬ s.Joined w.handle) : stuck = acc ++ ws.map Watched.label := by
  induction ws generalizing acc s with
  | nil =>
      cases hrun
      simp
  | cons w rest ih =>
      have hme := hbefore w List.mem_cons_self
      simp only [scan, threadFinished] at hrun
      split at hrun
      · cases hrun
      · rename_i s₁ hw
        exact absurd (probeFinished_eq hw hme).1 (by decide)
      · rename_i s₁ hw
        have hcalls := (probeFinished_eq hw hme).2
        have hothers : ∀ w' ∈ rest, ¬ s₁.Joined w'.handle := by
          intro w' hw'
          unfold Threads.Joined
          rw [hcalls]
          exact hbefore w' (List.mem_cons_of_mem _ hw')
        rw [ih hrun hothers]
        simp

end Fallback

/-! ## The message -/

/-- Two messages of one guard and timeout that read the same name equally many threads. -/
theorem message_length {guard : StuckThreadGuard} {timeout : Int} {stuck stuck' : List String}
    (h : guard.message stuck timeout = guard.message stuck' timeout) :
    stuck.length = stuck'.length := by
  have hchars := congrArg String.toList h
  simp only [StuckThreadGuard.message, String.toList_append, List.append_assoc] at hchars
  have hcount := List.append_cancel_left (List.append_cancel_left hchars)
  have hblank : ∀ rest : List Char, NoDigitFirst (" stuck thread(s) after ".toList ++ rest) := by
    intro rest c hc
    have hc' : ' ' = c := by simpa using hc
    rw [← hc']
    decide
  exact (decimal_append_inj (hblank _) (hblank _) hcount).1

/-- The verdict on a sublist of the watched threads is that on all of them only if it is all
of them. -/
theorem verdict_eq_iff {guard : StuckThreadGuard} {timeout : Int} {stuck ws : List Watched}
    (hsub : stuck.Sublist ws) :
    guard.verdict timeout (stuck.map Watched.label) =
      guard.verdict timeout (ws.map Watched.label) ↔ stuck = ws := by
  refine ⟨fun hsame => ?_, fun hall => by rw [hall]⟩
  apply hsub.eq_of_length
  unfold StuckThreadGuard.verdict at hsame
  split at hsame
  · rename_i hnone
    split at hsame
    · rename_i hnone'
      rw [List.map_eq_nil_iff.mp hnone, List.map_eq_nil_iff.mp hnone']
    · cases hsame
  · split at hsame
    · cases hsame
    · simpa using message_length (Except.error.inj hsame)

/-! ## The two builds -/

/-- Suppose that nobody has joined the watched threads.  The build with timed joins (at the
times `env.clock`) and the fallback (at the times `clock'`) end with the same verdict if and
only if every watched thread is still running at its last timed join.  `pthread_kill` succeeds on a
thread that has ended until it is joined, which the fallback never does, so the fallback names
every watched thread; the first build names those whose joins time out to the last. -/
theorem verdicts_agree_iff (guard : StuckThreadGuard) (env : Env) (clock' : Nat → Nat)
    (monotone' : ∀ {i j : Nat}, i ≤ j → clock' i ≤ clock' j) (timeout : Int) (s : Threads)
    (joinable : ∀ w ∈ guard.watched, ¬ s.Joined w.handle) (k fuel : Nat)
    (hpast : StuckThreadGuard.deadline env timeout s ≤ env.clock k)
    (hpast' : StuckThreadGuard.deadline ⟨clock', monotone', env.ends⟩ timeout s ≤ clock' k)
    (hfuel : k < fuel) :
    ∃ v v',
      (guard.requireAllFinished .timedjoin env fuel timeout s).1 = some v ∧
      (guard.requireAllFinished .fallback ⟨clock', monotone', env.ends⟩ fuel timeout s).1 =
        some v' ∧
      (v = v' ↔ AllRunning env (StuckThreadGuard.deadline env timeout s) guard.watched
        (s.tick + 1)) := by
  obtain ⟨stuck, s₁, hscan⟩ :=
    @scan_returns env _ fuel .timedjoin k hpast hfuel guard.watched [] (s.pass 1)
  obtain ⟨all, s₂, hscan'⟩ :=
    @scan_returns ⟨clock', monotone', env.ends⟩ _ fuel .fallback k hpast' hfuel guard.watched []
      (s.pass 1)
  obtain ⟨names, cs, hpass, hstuck⟩ := pass_of_scan hscan
  have hall := fallback_names_all hscan' joinable
  rw [List.nil_append] at hstuck hall
  refine ⟨guard.verdict timeout stuck, guard.verdict timeout all, ?_, ?_, ?_⟩
  · simp [StuckThreadGuard.requireAllFinished, hscan]
  · simp [StuckThreadGuard.requireAllFinished, hscan']
  · rw [hstuck, hall, verdict_eq_iff (pass_sublist hpass)]
    exact pass_all_stuck_iff hpass joinable

/-- A clock that moves on by 100 ms with each operation. -/
def steady : Nat → Nat := fun k => k * 100000000

theorem steady_monotone {i j : Nat} (h : i ≤ j) : steady i ≤ steady j :=
  Nat.mul_le_mul_right _ h

/-- Threads under that clock. -/
def steadyEnv (ends : Handle → Option Nat) : Env := ⟨steady, steady_monotone, ends⟩

/-- A guard that watches one thread. -/
def watching (handle : Handle) (label : String) : StuckThreadGuard :=
  (StuckThreadGuard.construct "probe").watch handle label

theorem steady_deadline (ends : Handle → Option Nat) :
    StuckThreadGuard.deadline (steadyEnv ends) 300 .initial = 300000000 := by
  have hzero : (steadyEnv ends).clock Threads.initial.tick = 0 := Nat.zero_mul _
  rw [StuckThreadGuard.deadline_eq (by decide) (by rw [hzero]; decide), hzero]
  decide

/-- From the third operation on, the clock is past the deadline. -/
theorem steady_past (ends : Handle → Option Nat) {k : Nat} (hk : 3 ≤ k) :
    StuckThreadGuard.deadline (steadyEnv ends) 300 .initial ≤ (steadyEnv ends).clock k := by
  rw [steady_deadline]
  have hmono := steady_monotone hk
  change (300000000 : Int) ≤ (steady k : Nat)
  unfold steady at hmono ⊢
  omega

/-- A guard that watches three threads. -/
def watchingThree : StuckThreadGuard :=
  ((watching 7 "stuck").watch 8 "worker").watch 9 "idle"

/-- Only the second thread terminates. -/
def workerEnds (e : Nat) (h : Handle) : Option Nat := if h = 8 then some e else none

/-- The worker is probed after the thread that never terminates, at 500 ms.  Both builds name all
three threads if it terminates at 600 ms, and they disagree if it has terminated at 50 ms. -/
theorem verdicts_agree_stuck :
    (∃ v,
      (watchingThree.requireAllFinished .timedjoin (steadyEnv (workerEnds 600000000))
        4 300 .initial).1 = some v ∧
      (watchingThree.requireAllFinished .fallback (steadyEnv (workerEnds 600000000))
        4 300 .initial).1 = some v) ∧
    ∃ v v',
      (watchingThree.requireAllFinished .timedjoin (steadyEnv (workerEnds 50000000))
        4 300 .initial).1 = some v ∧
      (watchingThree.requireAllFinished .fallback (steadyEnv (workerEnds 50000000))
        4 300 .initial).1 = some v' ∧ v ≠ v' := by
  have hpast : ∀ ends, StuckThreadGuard.deadline (steadyEnv ends) 300 .initial ≤ steady 3 :=
    fun ends => steady_past ends (Nat.le_refl 3)
  constructor
  · obtain ⟨v, v', hv, hv', hagree⟩ := verdicts_agree_iff watchingThree
      (steadyEnv (workerEnds 600000000)) steady steady_monotone 300 .initial (by decide) 3 4
      (hpast _) (hpast _) (by decide)
    have hsame := hagree.mpr
      ⟨0, firstPast_zero.mpr (steady_past _ (by decide)), by decide,
        0, firstPast_zero.mpr (steady_past _ (by decide)), by decide,
        0, firstPast_zero.mpr (steady_past _ (by decide)), by decide, trivial⟩
    exact ⟨v, hv, hsame ▸ hv'⟩
  · obtain ⟨v, v', hv, hv', hagree⟩ := verdicts_agree_iff watchingThree
      (steadyEnv (workerEnds 50000000)) steady steady_monotone 300 .initial (by decide) 3 4
      (hpast _) (hpast _) (by decide)
    refine ⟨v, v', hv, hv', fun hsame => ?_⟩
    obtain ⟨n, hn, -, m, hm, hruns, -⟩ := hagree.mp hsame
    cases firstPast_eq_zero hn (steady_past _ (by decide))
    cases firstPast_eq_zero hm (steady_past _ (by decide))
    exact absurd hruns (by decide)

/-- The thread has terminated before the call: the build with timed joins joins it, and the
fallback names it. -/
theorem verdicts_differ_finished :
    ((watching 1 "quick").requireAllFinished .timedjoin (steadyEnv fun _ => some 0) 4 300
        .initial).1 = some (.ok ()) ∧
      ((watching 1 "quick").requireAllFinished .fallback (steadyEnv fun _ => some 0) 4 300
        .initial).1 = some (.error "probe: 1 stuck thread(s) after 300 ms: quick") := by
  refine ⟨rfl, rfl⟩

end Ftl.Thread
