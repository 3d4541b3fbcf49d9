/-
  Test/Matchers.lean --- the three matchers on a `RunResult`.

  Embedded source: `require_exit`, `require_signaled` and `require_timed_out` of
  ftest/matchers.hpp.

  `require_exit` and `describe_exit` look at `timed_out` before the status;
  `require_signaled` looks at the status alone.

      accepts_exit_iff           what a matcher accepts
      matchers_consistent_iff    the results on which exactly one of them does, and
                                 the one that `describe_exit` names
-/
import Ftl.Process.TimedOut
import Ftl.Test.Framework

set_option autoImplicit false

namespace Ftl.Test

open Foundation (Runs)
open Process

section Matchers

variable (strsignal : Int → String)

/-- `require_exit(result, expected_code, what)`. -/
def requireExit (result : RunResult) (expectedCode : Int) (what : String) :
    Except TestFailure Unit := do
  require (!result.timedOut)
    (what ++ ": process timed out (" ++ describeExit strsignal result ++ ")")
  require result.exited
    (what ++ ": process did not exit normally (" ++ describeExit strsignal result ++ ")")
  requireEqual result.exitCode expectedCode what

/-- `require_signaled(result, expected_signal, what)`. -/
def requireSignaled (result : RunResult) (expectedSignal : Int) (what : String) :
    Except TestFailure Unit := do
  require result.signaled
    (what ++ ": expected a crash but " ++ describeExit strsignal result)
  if 0 < expectedSignal then
    requireEqual result.signalNumber expectedSignal (what ++ ": wrong terminating signal")

/-- `require_timed_out(result, what)`. -/
def requireTimedOut (result : RunResult) (what : String) : Except TestFailure Unit :=
  require result.timedOut
    (what ++ ": expected a timeout but " ++ describeExit strsignal result)

end Matchers

/-! ## What each of them accepts -/

/-- The matchers. -/
inductive Matcher where
  | exit
  | signaled
  | timedOut
  deriving DecidableEq, Repr

namespace Matcher

/-- The matcher accepts `r`: the exit code and the signal are not fixed. -/
def Accepts (strsignal : Int → String) (what : String) (r : RunResult) : Matcher → Prop
  | .exit => requireExit strsignal r r.exitCode what = .ok ()
  | .signaled => requireSignaled strsignal r 0 what = .ok ()
  | .timedOut => requireTimedOut strsignal r what = .ok ()

/-- What `describe_exit` says of a result that the matcher is for. -/
def description (strsignal : Int → String) (r : RunResult) : Matcher → String
  | .exit => "exit code " ++ toString r.exitCode
  | .signaled => "crashed: killed by signal " ++ strsignal r.signalNumber
  | .timedOut => "timed out (possible hang)"

variable {strsignal : Int → String} {what : String} {r : RunResult}

theorem accepts_exit_iff :
    Accepts strsignal what r .exit ↔ r.timedOut = false ∧ r.exited = true := by
  unfold Accepts requireExit
  rw [bind_eq_ok_iff, bind_eq_ok_iff, require_eq_ok_iff, require_eq_ok_iff,
    requireEqual_eq_ok_iff, Bool.not_eq_true']
  simp

theorem accepts_signaled_iff : Accepts strsignal what r .signaled ↔ r.signaled = true := by
  unfold Accepts requireSignaled
  rw [bind_eq_ok_iff, require_eq_ok_iff]
  exact ⟨fun h => h.1, fun h => ⟨h, rfl⟩⟩

theorem accepts_timedOut_iff : Accepts strsignal what r .timedOut ↔ r.timedOut = true := by
  unfold Accepts requireTimedOut
  exact require_eq_ok_iff

theorem signaled_of_requireSignaled {s : Int} (h : requireSignaled strsignal r s what = .ok ()) :
    r.signaled = true := by
  unfold requireSignaled at h
  rw [bind_eq_ok_iff, require_eq_ok_iff] at h
  exact h.1

theorem signaled_of_exited (h : r.exited = true) : r.signaled = false := by
  have hzero : r.status % 128 = 0 := of_decide_eq_true h
  unfold RunResult.signaled wifsignaled
  rw [hzero]
  rfl

theorem accepts_only_iff (m : Matcher) :
    (∀ m', Accepts strsignal what r m' ↔ m' = m) ↔
      ((r.timedOut = false ∧ r.exited = true) ↔ m = .exit) ∧
        (r.signaled = true ↔ m = .signaled) ∧ (r.timedOut = true ↔ m = .timedOut) := by
  constructor
  · intro h
    refine ⟨?_, ?_, ?_⟩
    · rw [← @accepts_exit_iff strsignal what, h]
      exact eq_comm
    · rw [← @accepts_signaled_iff strsignal what, h]
      exact eq_comm
    · rw [← @accepts_timedOut_iff strsignal what, h]
      exact eq_comm
  · rintro ⟨hexit, hsignaled, htimed⟩ m'
    rw [eq_comm]
    cases m' with
    | exit => rw [accepts_exit_iff, hexit]
    | signaled => rw [accepts_signaled_iff, hsignaled]
    | timedOut => rw [accepts_timedOut_iff, htimed]

/-! `describe_exit` looks at the timeout first, then at the signal, then at the exit. -/

theorem describeExit_timedOut (h : r.timedOut = true) :
    describeExit strsignal r = description strsignal r .timedOut := by
  unfold describeExit
  rw [if_pos h]
  rfl

theorem describeExit_signaled (hto : r.timedOut = false) (h : r.signaled = true) :
    describeExit strsignal r = description strsignal r .signaled := by
  unfold describeExit
  rw [if_neg (by simp [hto]), if_pos h]
  rfl

theorem describeExit_exited (hto : r.timedOut = false) (h : r.exited = true) :
    describeExit strsignal r = description strsignal r .exit := by
  unfold describeExit
  rw [if_neg (by simp [hto]), if_neg (by simp [signaled_of_exited h]), if_pos h]
  rfl

/-- The results on which exactly one matcher accepts. -/
theorem existsUnique_accepts_iff :
    (∃ m, (∀ m', Accepts strsignal what r m' ↔ m' = m) ∧
        describeExit strsignal r = m.description strsignal r) ↔
      if r.timedOut then r.signaled = false else r.signaled = true ∨ r.exited = true := by
  simp only [accepts_only_iff]
  cases hto : r.timedOut with
  | true =>
      rw [if_pos rfl]
      constructor
      · rintro ⟨m, ⟨-, hsignaled, htimed⟩, -⟩
        refine Bool.eq_false_iff.mpr fun hsig => ?_
        have hm := hsignaled.mp hsig
        rw [htimed.mp rfl] at hm
        cases hm
      · intro hnot
        exact ⟨.timedOut, ⟨by simp, by simp [hnot], by simp⟩, describeExit_timedOut hto⟩
  | false =>
      rw [if_neg Bool.false_ne_true]
      constructor
      · rintro ⟨m, ⟨hexit, hsignaled, htimed⟩, -⟩
        cases m with
        | exit => exact .inr (hexit.mpr rfl).2
        | signaled => exact .inl (hsignaled.mpr rfl)
        | timedOut => cases htimed.mpr rfl
      · rintro (hsignaled | hexited)
        · have hexited : r.exited = false := by
            refine Bool.eq_false_iff.mpr fun hexited => ?_
            rw [signaled_of_exited hexited] at hsignaled
            cases hsignaled
          exact ⟨.signaled, ⟨by simp [hexited], by simp [hsignaled], by simp⟩,
            describeExit_signaled hto hsignaled⟩
        · exact ⟨.exit, ⟨by simp [hexited], by simp [signaled_of_exited hexited], by simp⟩,
            describeExit_exited hto hexited⟩

end Matcher

/-! ## The matchers on what `run()` returns -/

/-- Exactly one matcher accepts `r`, `describe_exit` names it, and a crash is accepted
only of a child that died from a signal which is not the runner's. -/
def Consistent (strsignal : Int → String) (what : String) (ls : List Label) (r : RunResult) :
    Prop :=
  (∃ m : Matcher, (∀ m', m'.Accepts strsignal what r ↔ m' = m) ∧
    describeExit strsignal r = m.description strsignal r) ∧
  ∀ s, requireSignaled strsignal r s what = .ok () →
    ∃ st, deaths ls = [.byItself st] ∧ wifsignaled st = true

/-- What happened to the child fits one matcher: waitpid got it and it did not die of a
signal after SIGKILL was sent, or waitpid failed and SIGKILL was sent. -/
def FitsOneMatcher {σ : Type} (w : World σ) (reaped : Bool) : Prop :=
  if reaped then w.killed = true → ∀ st, w.status = some st → wifsignaled st = false
  else w.killed = true

variable {capacity : Nat} {faults : Bool} {B : Behaviour} {clock : Nat} {sp : Subprocess}

/-- waitpid failed: the status is -1, which is neither an exit nor a signal. -/
theorem consistent_unreaped_iff (strsignal : Int → String) (what : String) (ls : List Label)
    {r : RunResult} (hraw : r.status = -1) :
    Consistent strsignal what ls r ↔ r.timedOut = true := by
  have hsignaled : r.signaled = false := by
    rw [RunResult.signaled, hraw]
    rfl
  have hexited : r.exited = false := by
    rw [RunResult.exited, hraw]
    rfl
  unfold Consistent
  rw [Matcher.existsUnique_accepts_iff, hsignaled, hexited]
  cases r.timedOut with
  | true =>
      refine ⟨fun _ => rfl, fun _ => ⟨rfl, fun s haccepts => ?_⟩⟩
      rw [Matcher.signaled_of_requireSignaled haccepts] at hsignaled
      cases hsignaled
  | false => simp

/-- waitpid got the child: it is consistent unless a kill and a signal come together. -/
theorem consistent_reaped_iff (strsignal : Int → String) (what : String) {ls : List Label}
    {r : RunResult} (hended : Terminated r.status)
    (hown : r.timedOut = false → deaths ls = [.byItself r.status]) :
    Consistent strsignal what ls r ↔ (r.timedOut = true → r.signaled = false) := by
  have hexited : r.exited = !r.signaled := exited_or_signaled_of_terminated hended
  unfold Consistent
  rw [Matcher.existsUnique_accepts_iff]
  cases hto : r.timedOut with
  | true =>
      rw [if_pos rfl]
      refine ⟨fun h _ => h.1, fun h => ⟨h rfl, fun s haccepts => ?_⟩⟩
      have hsignaled := Matcher.signaled_of_requireSignaled haccepts
      rw [h rfl] at hsignaled
      cases hsignaled
  | false =>
      refine ⟨fun _ h => (by cases h), fun _ => ⟨?_, fun s haccepts => ?_⟩⟩
      · rw [if_neg Bool.false_ne_true, hexited]
        cases r.signaled with
        | true => exact .inl rfl
        | false => exact .inr rfl
      · exact ⟨_, hown hto, Matcher.signaled_of_requireSignaled haccepts⟩

/-- The matchers are consistent on a returned result exactly when the child's end fits
one of them.  `require_signaled` does not look at `timed_out`, and that is the one way to two
matchers.  A status that waitpid stores is that of a process that has ended, so other numbers
are left out. -/
theorem matchers_consistent_iff (strsignal : Int → String) (what : String) {ls : List Label}
    {r : RunResult} {reaped : Bool} {w : World B.State}
    (hrun : Runs (sp.Sys capacity faults B) (sp.initial B clock) ls (.returned r reaped, w))
    (hstatuses : ∀ st, w.status = some st → Terminated st) :
    Consistent strsignal what ls r ↔ FitsOneMatcher w reaped := by
  obtain ⟨hflag, hstatus⟩ := returned_run hrun
  unfold FitsOneMatcher
  cases reaped with
  | false => rw [consistent_unreaped_iff strsignal what ls hstatus, hflag, if_neg (by simp)]
  | true =>
      have hraw : w.status = some r.status := hstatus
      have hall : (∀ st, w.status = some st → wifsignaled st = false) ↔ r.signaled = false := by
        rw [hraw]
        simp [RunResult.signaled]
      rw [if_pos rfl, hall, ← hflag]
      apply consistent_reaped_iff strsignal what (hstatuses r.status hraw)
      -- without a SIGKILL of the runner the child ended by itself
      intro hnokill
      rcases deaths_run hrun with ⟨-, hnone⟩ | ⟨d, hd, hsome, hrunner⟩
      · rw [show w.status = none from hnone] at hraw
        cases hraw
      · cases d with
        | byRunner =>
            rw [hflag, hrunner rfl] at hnokill
            cases hnokill
        | byItself st =>
            have hst : st = r.status := Option.some.inj (hsome.symm.trans hraw)
            rw [hd, hst]

/-- A child that exits with 0 is accepted by `require_exit` alone. -/
theorem matchers_consistent_exit :
    ∃ ls r w, Runs (bareRun.Sys 1 false (.script [.exit 0 fun _ => false]))
        (bareRun.initial (.script [.exit 0 fun _ => false]) 0) ls (.returned r true, w) ∧
      r.status = 0 ∧ Consistent (fun _ => "signal") "app" ls r := by
  obtain ⟨ls, ⟨p, w⟩, hrun, hend⟩ := bareRun.play 1 [.exit 0 fun _ => false]
    [.parent .done, .child, .parent (.time 0), .parent (.time 0),
      .parent (.ready fun _ => true), .parent (.bytes []), .parent (.status 0)]
    (fun _ => true)
    (fun y => match y.1 with
      | .returned r true => decide (r.status = 0) && decide (y.2.status = some 0) && !y.2.killed
      | _ => false)
    (by decide)
  split at hend
  · rename_i r hp
    simp only at hp
    subst hp
    simp only [Bool.and_eq_true, decide_eq_true_eq, Bool.not_eq_true'] at hend
    obtain ⟨⟨hstatus, hworld⟩, halive⟩ := hend
    refine ⟨ls, r, w, hrun.unguard, hstatus, ?_⟩
    refine (matchers_consistent_iff _ _ hrun.unguard ?_).mpr ?_
    · intro st hst
      rw [hworld] at hst
      cases hst
      exact .exit 0 (by decide)
    · intro hkilled
      rw [halive] at hkilled
      cases hkilled
  · cases hend

/-- A child that hangs is killed at the deadline, and is then both a timeout and a crash
by SIGKILL. -/
theorem matchers_accept_hang_as_crash :
    ∃ ls r w, Runs (bareRun.Sys 1 false (.script [])) (bareRun.initial (.script []) 0) ls
        (.returned r true, w) ∧
      requireTimedOut (fun _ => "signal") r "app" = .ok () ∧
      requireSignaled (fun _ => "signal") r 9 "app" = .ok () ∧
      ¬ Consistent (fun _ => "signal") "app" ls r := by
  obtain ⟨ls, ⟨p, w⟩, hrun, hend⟩ := bareRun.play 1 []
    [.parent .done, .parent (.time 0), .tick 5000000000, .parent (.time 5000000000),
      .parent .done, .die, .parent (.status 9)]
    (fun _ => true)
    (fun y => match y.1 with
      | .returned r true => r.timedOut && decide (r.status = 9)
      | _ => false)
    (by decide)
  split at hend
  · rename_i r hp
    simp only at hp
    subst hp
    rw [Bool.and_eq_true, decide_eq_true_eq] at hend
    obtain ⟨hto, hstatus⟩ := hend
    have hsignaled : r.signaled = true := by
      rw [RunResult.signaled, hstatus]
      rfl
    refine ⟨ls, r, w, hrun.unguard, ?_, ?_, ?_⟩
    · exact Matcher.accepts_timedOut_iff.mpr hto
    · unfold requireSignaled
      rw [bind_eq_ok_iff, require_eq_ok_iff]
      refine ⟨hsignaled, ?_⟩
      rw [if_pos (by decide), RunResult.signalNumber, if_pos hsignaled, hstatus]
      rfl
    · rintro ⟨hone, -⟩
      rw [Matcher.existsUnique_accepts_iff, if_pos hto, hsignaled] at hone
      cases hone
  · cases hend

end Ftl.Test
