/-
  Process/Subprocess.lean --- `ftl::Subprocess` and its parent side after the fork.

  Embedded source: ftl/process/subprocess.hpp (`RunResult`, the builder,
  `run`, `drain_once`, `collect`) and `write_all` of ftl/io/pipe.hpp.

  `Parent` is the control state of `run()` from the fork on, one constructor for
  each call it can be blocked in.  `Subprocess.pending` names that call and
  `Subprocess.advance` is the code between two calls.  The program text of the
  loop is kept under its own names: `writeAll`, `whileOpen` (the loop test),
  `checkDeadline`, `drainNext` and `drainOnce`.

  The calls before the fork (pipe creation) and the descriptors the child sees
  are in Process/ChildExec.lean.
-/
import Ftl.Process.Syscall

set_option autoImplicit false

namespace Ftl.Process

open Function (update)

/-! ## RunResult -/

/-- `ftl::RunResult`.  `status` is the raw wait status. -/
structure RunResult where
  status : Int := -1
  timedOut : Bool := false
  output : Bytes := []
  errorOutput : Bytes := []
  deriving DecidableEq, Repr

namespace RunResult

/-- The buffer that collects a stream. -/
def sink (r : RunResult) : Stream → Bytes
  | .out => r.output
  | .err => r.errorOutput

/-- `sink->append(buffer, got)`. -/
def append (r : RunResult) (s : Stream) (bs : Bytes) : RunResult :=
  match s with
  | .out => { r with output := r.output ++ bs }
  | .err => { r with errorOutput := r.errorOutput ++ bs }

@[simp] theorem sink_append (r : RunResult) (s : Stream) (bs : Bytes) :
    (r.append s bs).sink = update r.sink s (r.sink s ++ bs) := by
  funext t
  cases s <;> cases t <;> rfl

@[simp] theorem timedOut_append (r : RunResult) (s : Stream) (bs : Bytes) :
    (r.append s bs).timedOut = r.timedOut := by
  cases s <;> rfl

end RunResult

/-! ## The builder -/

/-- The default of `timeout_ms_`. -/
def defaultTimeoutMs : Int := 5000

/-- `ftl::Subprocess` as the builder leaves it.  `timeout_ms_` is a `long long`
that every setter clamps to at least one. -/
structure Subprocess where
  program : Bytes
  args : List Bytes := []
  stdinData : Bytes := []
  envOverrides : List (Bytes × Bytes) := []
  envReplace : Bool := false
  timeoutMs : Int := defaultTimeoutMs
  rlimitNofile : Int := 0
  splitOutput : Bool := false
  timeout_pos : 1 ≤ timeoutMs := by decide
  timeout_le : timeoutMs ≤ 9223372036854775807 := by decide

namespace Subprocess

/-- The constructor `Subprocess(program)`. -/
def ofProgram (program : Bytes) : Subprocess := { program := program }

/-- `stdin_data(data)`. -/
def setStdinData (sp : Subprocess) (data : Bytes) : Subprocess :=
  { sp with stdinData := data }

/-- `split_output(split)`. -/
def setSplitOutput (sp : Subprocess) (split : Bool) : Subprocess :=
  { sp with splitOutput := split }

/-- `timeout_ms(milliseconds)` for a `long long` argument. -/
def setTimeoutMs (sp : Subprocess) (milliseconds : Int)
    (hrange : milliseconds ≤ 9223372036854775807) : Subprocess :=
  { sp with
    timeoutMs := max 1 milliseconds
    timeout_pos := Int.le_max_left 1 milliseconds
    timeout_le := Int.max_le.mpr ⟨by decide, hrange⟩ }

/-- `args(args)`. -/
def setArgs (sp : Subprocess) (args : List Bytes) : Subprocess := { sp with args := args }

/-- `rlimit_nofile(limit)`. -/
def setRlimitNofile (sp : Subprocess) (limit : Int) : Subprocess :=
  { sp with rlimitNofile := limit }

/-! ## The parent after the fork -/

/-- The streams `sources` watches: stdout always, stderr when `err_fd >= 0`. -/
def watched (sp : Subprocess) : Stream → Bool
  | .out => true
  | .err => sp.splitOutput

end Subprocess

/-- The locals of `collect`. -/
structure Collect where
  result : RunResult
  deadline : Int
  /-- `sources[i].open` -/
  isOpen : Stream → Bool

/-- The control state of `run()` after the fork. -/
inductive Parent where
  /-- in `write(fd, data + written, size - written)` -/
  | feeding (written : Nat)
  /-- at `in_pipe.write_fd.reset()` -/
  | closing
  /-- at the `steady_clock::now()` that fixes the deadline -/
  | arming
  /-- at the head of the loop body, reading the clock -/
  | checking (c : Collect)
  /-- in `poll` -/
  | polling (c : Collect) (remainingMs : Int)
  /-- in the `read` of `drain_once` on `s`, with the sources in `todo` to follow -/
  | draining (c : Collect) (s : Stream) (todo : List Stream)
  /-- at `kill(pid, SIGKILL)` -/
  | killing (c : Collect)
  /-- in `waitpid` -/
  | waiting (c : Collect)
  /-- `run()` returned `r`; `reaped` records whether waitpid got the child -/
  | returned (r : RunResult) (reaped : Bool)
  /-- `throw_errno("poll")` left `run()` -/
  | threw (e : Errno)

namespace Subprocess

/-- `write_all` with `written` bytes gone: another write, or on to the close. -/
def writeAll (sp : Subprocess) (written : Nat) : Parent :=
  if written < sp.stdinData.length then .feeding written else .closing

/-- `while (sources[0].open || sources[1].open)`. -/
def whileOpen (c : Collect) : Parent :=
  if c.isOpen .out || c.isOpen .err then .checking c else .waiting c

/-- The deadline test at the head of the loop body. -/
def checkDeadline (c : Collect) (now : Nat) : Parent :=
  if remainingMsOf c.deadline now ≤ 0 then
    .killing { c with result := { c.result with timedOut := true } }
  else .polling c (remainingMsOf c.deadline now)

/-- The sources `poll` was given, in index order. -/
def watchedNow (c : Collect) : List Stream := [.out, .err].filter c.isOpen

/-- The next `drain_once` of the `for` loop over `watched`, or back to the top. -/
def drainNext (c : Collect) : List Stream → Parent
  | [] => whileOpen c
  | s :: todo => .draining c s todo

/-- The locals of `collect` when it enters its loop. -/
def collectStart (sp : Subprocess) (now : Nat) : Collect where
  result := {}
  deadline := deadlineOf now sp.timeoutMs
  isOpen := sp.watched

/-- The call the parent is in. -/
def pending (sp : Subprocess) : Parent → Option Call
  | .feeding written => some (.write (sp.stdinData.drop written))
  | .closing => some .closeStdin
  | .arming => some .clock
  | .checking _ => some .clock
  | .polling c remainingMs => some (.poll (watchedNow c) (wrap32 remainingMs))
  | .draining _ s _ => some (.read s 4096)
  | .killing _ => some .kill
  | .waiting _ => some .waitpid
  | .returned _ _ => none
  | .threw _ => none

/-- `drain_once(src.fd, src.sink, &src.open)` once `read` has returned. -/
def drainOnce (c : Collect) (s : Stream) (todo : List Stream) : Reply → Option Parent
  | .bytes (b :: bs) =>
      some (drainNext { c with result := c.result.append s (b :: bs) } todo)
  | .bytes [] => some (drainNext { c with isOpen := update c.isOpen s false } todo)
  | .failed .eintr => some (.draining c s todo)
  | .failed _ => some (drainNext { c with isOpen := update c.isOpen s false } todo)
  | _ => none

/-- The code between the reply to the pending call and the next call. -/
def advance (sp : Subprocess) : Parent → Reply → Option Parent
  | .feeding written, .wrote n => some (sp.writeAll (written + n))
  | .feeding written, .failed .eintr => some (.feeding written)
  | .feeding _, .failed _ => some .closing
  | .closing, .done => some .arming
  | .arming, .time now => some (whileOpen (sp.collectStart now))
  | .checking c, .time now => some (checkDeadline c now)
  | .polling c _, .failed .eintr => some (whileOpen c)
  | .polling _ _, .failed e => some (.threw e)
  | .polling c _, .lapsed =>
      some (.killing { c with result := { c.result with timedOut := true } })
  | .polling c _, .ready revents => some (drainNext c ((watchedNow c).filter revents))
  | .draining c s todo, r => drainOnce c s todo r
  | .killing c, .done => some (.waiting c)
  | .waiting c, .status st => some (.returned { c.result with status := st } true)
  | .waiting c, .failed _ => some (.returned c.result false)
  | _, _ => none

/-- The parent right after the fork, at `write_all(…, stdin_data_)`. -/
def start (sp : Subprocess) : Parent := sp.writeAll 0

/-- The parent's own step relation: the pending call, its reply, the next state. -/
def Moves (sp : Subprocess) (p : Parent) (c : Call) (r : Reply) (p' : Parent) : Prop :=
  sp.pending p = some c ∧ sp.advance p r = some p'

end Subprocess

/-! ## The branches of `run()` -/

namespace Subprocess

/-- What a move can be: a call, a reply that it can have, and the state that follows. -/
inductive Branch (sp : Subprocess) : Parent → Call → Reply → Parent → Prop
  | wrote (written n : Nat) :
      Branch sp (.feeding written) (.write (sp.stdinData.drop written)) (.wrote n)
        (sp.writeAll (written + n))
  | writeInterrupted (written : Nat) :
      Branch sp (.feeding written) (.write (sp.stdinData.drop written)) (.failed .eintr)
        (.feeding written)
  | writeFailed (written : Nat) (e : Errno) (he : e ≠ .eintr) :
      Branch sp (.feeding written) (.write (sp.stdinData.drop written)) (.failed e) .closing
  | closed : Branch sp .closing .closeStdin .done .arming
  | armed (now : Nat) :
      Branch sp .arming .clock (.time now) (whileOpen (sp.collectStart now))
  | checked (c : Collect) (now : Nat) :
      Branch sp (.checking c) .clock (.time now) (checkDeadline c now)
  | pollInterrupted (c : Collect) (ms : Int) :
      Branch sp (.polling c ms) (.poll (watchedNow c) (wrap32 ms)) (.failed .eintr) (whileOpen c)
  | pollFailed (c : Collect) (ms : Int) (e : Errno) (he : e ≠ .eintr) :
      Branch sp (.polling c ms) (.poll (watchedNow c) (wrap32 ms)) (.failed e) (.threw e)
  | lapsed (c : Collect) (ms : Int) :
      Branch sp (.polling c ms) (.poll (watchedNow c) (wrap32 ms)) .lapsed
        (.killing { c with result := { c.result with timedOut := true } })
  | ready (c : Collect) (ms : Int) (revents : Stream → Bool) :
      Branch sp (.polling c ms) (.poll (watchedNow c) (wrap32 ms)) (.ready revents)
        (drainNext c ((watchedNow c).filter revents))
  | drained (c : Collect) (s : Stream) (todo : List Stream) (r : Reply) (p' : Parent)
      (hdrained : drainOnce c s todo r = some p') :
      Branch sp (.draining c s todo) (.read s 4096) r p'
  | killed (c : Collect) : Branch sp (.killing c) .kill .done (.waiting c)
  | reaped (c : Collect) (st : Int) :
      Branch sp (.waiting c) .waitpid (.status st)
        (.returned { c.result with status := st } true)
  | waitFailed (c : Collect) (e : Errno) :
      Branch sp (.waiting c) .waitpid (.failed e) (.returned c.result false)

theorem branch_of_moves {sp : Subprocess} {p p' : Parent} {c : Call} {r : Reply}
    (hmove : sp.Moves p c r p') : sp.Branch p c r p' := by
  obtain ⟨hpending, hadvance⟩ := hmove
  cases p with
  | feeding written =>
      cases hpending
      cases r with
      | wrote n => cases hadvance; exact .wrote written n
      | failed e =>
          cases e with
          | eintr => cases hadvance; exact .writeInterrupted written
          | _ => cases hadvance; exact .writeFailed written _ (by simp)
      | _ => simp [advance] at hadvance
  | closing =>
      cases hpending
      cases r with
      | done => cases hadvance; exact .closed
      | _ => simp [advance] at hadvance
  | arming =>
      cases hpending
      cases r with
      | time now => cases hadvance; exact .armed now
      | _ => simp [advance] at hadvance
  | checking col =>
      cases hpending
      cases r with
      | time now => cases hadvance; exact .checked col now
      | _ => simp [advance] at hadvance
  | polling col ms =>
      cases hpending
      cases r with
      | failed e =>
          cases e with
          | eintr => cases hadvance; exact .pollInterrupted col ms
          | _ => cases hadvance; exact .pollFailed col ms _ (by simp)
      | lapsed => cases hadvance; exact .lapsed col ms
      | ready revents => cases hadvance; exact .ready col ms revents
      | _ => simp [advance] at hadvance
  | draining col s todo =>
      cases hpending
      exact .drained col s todo r p' hadvance
  | killing col =>
      cases hpending
      cases r with
      | done => cases hadvance; exact .killed col
      | _ => simp [advance] at hadvance
  | waiting col =>
      cases hpending
      cases r with
      | status st => cases hadvance; exact .reaped col st
      | failed e => cases hadvance; exact .waitFailed col e
      | _ => simp [advance] at hadvance
  | returned _ _ => cases hpending
  | threw _ => cases hpending

end Subprocess

/-! ## How `run()` ends -/

/-- `run()` has returned or has been left by an exception. -/
def Parent.over : Parent → Bool
  | .returned _ _ | .threw _ => true
  | _ => false

/-- The states of `collect`. -/
def Parent.looping : Parent → Bool
  | .checking _ | .polling _ _ | .draining _ _ _ | .killing _ | .waiting _ => true
  | _ => false

/-- What a move can be for the course of `run()`. -/
inductive Course (p : Parent) (c : Call) (r : Reply) (p' : Parent) : Prop
  | goesOn : p'.over = false → (p.looping = true → p'.looping = true) →
      (∀ fds ms e, c = .poll fds ms → r = .failed e → e = .eintr) → Course p c r p'
  | throws (fds : List Stream) (ms : Int) (e : Errno) : c = .poll fds ms → r = .failed e →
      e ≠ .eintr → p' = .threw e → Course p c r p'
  | returns (col : Collect) (st : Int) : p = .waiting col → c = .waitpid → r = .status st →
      p' = .returned { col.result with status := st } true → Course p c r p'
  | waitFails (col : Collect) (e : Errno) : p = .waiting col → c = .waitpid →
      r = .failed e → p' = .returned col.result false → Course p c r p'

namespace Subprocess

theorem looping_whileOpen (c : Collect) : (whileOpen c).looping = true := by
  unfold whileOpen
  split
  · rfl
  · rfl

theorem looping_drainNext (c : Collect) (todo : List Stream) :
    (drainNext c todo).looping = true := by
  cases todo with
  | nil => exact looping_whileOpen c
  | cons s todo => rfl

theorem looping_checkDeadline (c : Collect) (now : Nat) :
    (checkDeadline c now).looping = true := by
  unfold checkDeadline
  split
  · rfl
  · rfl

theorem looping_drainOnce {c : Collect} {s : Stream} {todo : List Stream} {r : Reply}
    {p' : Parent} (h : drainOnce c s todo r = some p') : p'.looping = true := by
  unfold drainOnce at h
  split at h
  · cases h
    exact looping_drainNext _ todo
  · cases h
    exact looping_drainNext _ todo
  · cases h
    rfl
  · cases h
    exact looping_drainNext _ todo
  · cases h

theorem over_of_looping {p : Parent} (h : p.looping = true) : p.over = false := by
  cases p with
  | returned _ _ => cases h
  | threw _ => cases h
  | _ => rfl

theorem writeAll_cases (sp : Subprocess) (written : Nat) :
    sp.writeAll written = .feeding written ∨ sp.writeAll written = .closing := by
  unfold writeAll
  split
  · exact .inl rfl
  · exact .inr rfl

theorem over_writeAll (sp : Subprocess) (written : Nat) : (sp.writeAll written).over = false := by
  rcases sp.writeAll_cases written with h | h
  · rw [h]
    rfl
  · rw [h]
    rfl

/-- `collect` goes on until a poll fails or waitpid returns. -/
theorem course_of_moves {sp : Subprocess} {p p' : Parent} {c : Call} {r : Reply}
    (hmove : sp.Moves p c r p') : Course p c r p' := by
  have hstays : p'.looping = true →
      (∀ fds ms e, c = .poll fds ms → r = .failed e → e = .eintr) → Course p c r p' :=
    fun hlooping hpoll => .goesOn (over_of_looping hlooping) (fun _ => hlooping) hpoll
  cases branch_of_moves hmove with
  | wrote written n => exact .goesOn (sp.over_writeAll _) (fun h => by cases h) (by simp)
  | writeInterrupted written => exact .goesOn rfl (fun h => by cases h) (by simp)
  | writeFailed written e _ => exact .goesOn rfl (fun h => by cases h) (by simp)
  | closed => exact .goesOn rfl (fun h => by cases h) (by simp)
  | armed now => exact hstays (looping_whileOpen _) (by simp)
  | checked col now => exact hstays (looping_checkDeadline col now) (by simp)
  | pollInterrupted col ms =>
      refine hstays (looping_whileOpen col) ?_
      intro _ _ e _ he
      cases he
      rfl
  | pollFailed col ms e he => exact .throws _ _ e rfl rfl he rfl
  | lapsed col ms => exact hstays rfl (by simp)
  | ready col ms revents => exact hstays (looping_drainNext col _) (by simp)
  | drained col s todo r p' hdrained => exact hstays (looping_drainOnce hdrained) (by simp)
  | killed col => exact hstays rfl (by simp)
  | reaped col st => exact .returns col st rfl rfl rfl rfl
  | waitFailed col e => exact .waitFails col e rfl rfl rfl rfl

end Subprocess

end Ftl.Process
