/-
  Process/ExitStatus.lean --- wait statuses, and how `RunResult` reads them.

  Embedded source: `exited`, `signaled`, `exit_code`, `signal_number` and
  `describe_exit` of ftl/process/subprocess.hpp, with the macros of <sys/wait.h>
  on the raw `int`.

      exited_or_signaled_of_terminated   a child that has ended either exited or was
                                         killed by a signal
-/
import Ftl.Process.Subprocess

set_option autoImplicit false

namespace Ftl.Process

/-! ## The macros -/

/-- `WIFEXITED(status)`. -/
def wifexited (status : Int) : Bool := decide (status % 128 = 0)

/-- `WTERMSIG(status)`. -/
def wtermsig (status : Int) : Int := status % 128

/-- `WIFSIGNALED(status)`: neither an exit nor the 127 of a stopped child. -/
def wifsignaled (status : Int) : Bool := decide (0 < status % 128 ∧ status % 128 < 127)

/-- `WEXITSTATUS(status)`. -/
def wexitstatus (status : Int) : Int := status / 256 % 256

/-- The wait status of a child killed by SIGKILL. -/
def sigkillStatus : Int := 9

/-- The wait statuses of children that have ended: an exit code, or a signal with the
core dump flag. -/
inductive Terminated : Int → Prop
  | exit (code : Nat) : code < 256 → Terminated (code * 256)
  | signal (number : Nat) (core : Bool) : 0 < number → number < 127 →
      Terminated (number + if core then 128 else 0)

/-- A child that has ended either exited or was killed by a signal. -/
theorem exited_or_signaled_of_terminated {status : Int} (h : Terminated status) :
    wifexited status = !wifsignaled status := by
  unfold wifexited wifsignaled
  cases h with
  | exit code hcode =>
      have hzero : (code * 256 : Int) % 128 = 0 := by omega
      simp [hzero]
  | signal number core hpos hlt =>
      have hsignal : (number + if core then 128 else 0 : Int) % 128 = number := by
        cases core with
        | false => simp only [Bool.false_eq_true, if_false]; omega
        | true => simp only [if_true]; omega
      rw [hsignal, decide_eq_false (by omega), decide_eq_true (by omega)]
      rfl

/-! ## `RunResult` -/

namespace RunResult

/-- `exited()`. -/
def exited (r : RunResult) : Bool := wifexited r.status

/-- `signaled()`. -/
def signaled (r : RunResult) : Bool := wifsignaled r.status

/-- `exit_code()`. -/
def exitCode (r : RunResult) : Int := if r.exited then wexitstatus r.status else -1

/-- `signal_number()`. -/
def signalNumber (r : RunResult) : Int := if r.signaled then wtermsig r.status else 0

end RunResult

/-- `describe_exit`. -/
def describeExit (strsignal : Int → String) (result : RunResult) : String :=
  if result.timedOut then "timed out (possible hang)"
  else if result.signaled then
    "crashed: killed by signal " ++ strsignal result.signalNumber
  else if result.exited then "exit code " ++ toString result.exitCode
  else "unknown termination"

end Ftl.Process
