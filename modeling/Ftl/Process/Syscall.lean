/-
  Process/Syscall.lean --- the system calls of the two process runners, and the
  clock arithmetic both of them do on the results.

  `ftl::Subprocess::run` (ftl/process/subprocess.hpp) and `ftl_run_command`
  (ftl/ftl.h) are modelled as machines: a control state with a pending `Call`,
  and a next control state for every `Reply`.  The calls below are the ones the
  parent makes between fork() and its return.

  Machine integers.  `long long`, `time_point` and the pipe offsets are `Int` and
  `Nat`; the two conversions that can lose bits (the 64-bit nanosecond count of
  `steady_clock`, and the `int` that poll() takes) are the wrapping functions
  `wrap64` and `wrap32`.
-/
import Mathlib.Data.Int.Init
import Mathlib.Logic.Function.Basic

set_option autoImplicit false

namespace Ftl.Process

/-- The bytes of a `std::string` or of a C string without its terminator. -/
abbrev Bytes : Type := List UInt8

/-- The output pipes of one run, as the parent's `sources` array indexes them:
`sources[0]` reads the stdout pipe and `sources[1]` the stderr pipe. -/
inductive Stream where
  | out
  | err
  deriving DecidableEq, Repr

/-- The errno values the runners tell apart. -/
inductive Errno where
  /-- a signal was caught before anything was transferred -/
  | eintr
  /-- the pipe has no reader left -/
  | epipe
  /-- any other failure -/
  | other (code : Nat)
  deriving DecidableEq, Repr

/-- A call of the parent, with the arguments the kernel sees. -/
inductive Call where
  /-- `write(in_pipe.write_fd, data)` -/
  | write (data : Bytes)
  /-- close the write end of the stdin pipe -/
  | closeStdin
  /-- read the monotonic clock -/
  | clock
  /-- `poll` for `POLLIN` on the read ends in `watched` -/
  | poll (watched : List Stream) (timeoutMs : Int)
  /-- `read` at most `size` bytes from the read end of `s` -/
  | read (s : Stream) (size : Nat)
  /-- `kill(pid, SIGKILL)` -/
  | kill
  /-- `waitpid(pid, &status, 0)` -/
  | waitpid
  /-- `malloc`, or `realloc` to a new size -/
  | allocate (size : Nat)
  /-- close the read end of the stdout pipe -/
  | closeOutput
  deriving DecidableEq, Repr

/-- What a call returns. -/
inductive Reply where
  /-- write returned `n` -/
  | wrote (n : Nat)
  /-- the call returned -1 with this errno -/
  | failed (e : Errno)
  /-- the call has no result worth looking at -/
  | done
  /-- the clock shows `t` nanoseconds -/
  | time (t : Nat)
  /-- poll returned 0 -/
  | lapsed
  /-- poll returned a positive count; the flag of a stream says whether its
  `revents & (POLLIN | POLLHUP | POLLERR)` is non-zero -/
  | ready (revents : Stream → Bool)
  /-- read returned these bytes; none of them is end of file -/
  | bytes (bs : Bytes)
  /-- waitpid returned the child and stored its status -/
  | status (st : Int)
  /-- the allocation succeeded, or returned NULL -/
  | memory (ok : Bool)

/-- The calls a caught signal makes fail with `EINTR`. -/
def Call.interruptible : Call → Bool
  | .write _ | .poll _ _ | .read _ _ | .waitpid => true
  | _ => false

/-! ## Clock arithmetic -/

/-- Two's complement wrap-around of a signed 64-bit operation. -/
def wrap64 (x : Int) : Int := x.bmod 18446744073709551616

/-- `static_cast<int>`. -/
def wrap32 (x : Int) : Int := x.bmod 4294967296

/-- `steady_clock::now() + milliseconds(timeout_ms)` in 64-bit nanoseconds. -/
def deadlineOf (now : Nat) (timeoutMs : Int) : Int :=
  wrap64 (now + wrap64 (timeoutMs * 1000000))

/-- `duration_cast<milliseconds>(deadline - steady_clock::now()).count()`:
truncation towards zero. -/
def remainingMsOf (deadline : Int) (now : Nat) : Int :=
  (wrap64 (deadline - now)).tdiv 1000000

/-- `struct timespec`. -/
structure Timespec where
  /-- `tv_sec` -/
  sec : Nat
  /-- `tv_nsec`, below one second -/
  nsec : Nat
  nsec_lt : nsec < 1000000000

/-- `clock_gettime(CLOCK_MONOTONIC)` when the clock shows `t` nanoseconds. -/
def Timespec.ofNanos (t : Nat) : Timespec where
  sec := t / 1000000000
  nsec := t % 1000000000
  nsec_lt := Nat.mod_lt _ (by decide)

/-- The `elapsed_ms` of the C runner: seconds and nanoseconds are subtracted
separately, and the nanosecond difference is divided towards zero. -/
def elapsedMsOf (start now : Timespec) : Int :=
  ((now.sec : Int) - start.sec) * 1000 + ((now.nsec : Int) - start.nsec).tdiv 1000000

theorem elapsedMsOf_self (t : Timespec) : elapsedMsOf t t = 0 := by
  simp [elapsedMsOf]

end Ftl.Process
