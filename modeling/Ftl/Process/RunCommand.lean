/-
  Process/RunCommand.lean --- `ftl_run_command` of ftl/ftl.h after the fork.

  The C runner has its own copy of the feeding and collecting loops.  It differs
  from `Subprocess::collect` in what it reads the clock for (after every poll,
  into `elapsed_ms`), in polling at most 1000000 ms at a time, in going back to
  poll after an interrupted read, and in a hand-grown output buffer that may be
  NULL.  `CParent` has one constructor for each call the parent can be in.
-/
import Ftl.Process.Syscall

set_option autoImplicit false

namespace Ftl.Process

/-- `ftl_run_result`; `output` is NULL or the bytes before its terminator. -/
structure CRunResult where
  status : Int
  timedOut : Bool
  output : Option Bytes
  deriving DecidableEq, Repr

/-- The arguments of `ftl_run_command` that the parent side reads: a non-NULL
`stdin_data` is the bytes before its terminator. -/
structure CCommand where
  stdinData : Option Bytes
  timeoutMs : Int

/-- The locals of the collecting loop.  `buffer` is NULL, or holds its first
`length` bytes. -/
structure CCollect where
  start : Timespec
  elapsedMs : Int
  capacity : Nat
  length : Nat
  buffer : Option Bytes

/-- The control state of `ftl_run_command` after the fork. -/
inductive CParent where
  /-- in `write(in_pipe[1], stdin_data + written, total - written)` -/
  | feeding (written : Nat)
  /-- at `close(in_pipe[1])` -/
  | closing
  /-- at the `clock_gettime` that fills `start` -/
  | starting
  /-- at `malloc(capacity)` -/
  | allocating (start : Timespec)
  /-- in `poll` -/
  | polling (c : CCollect) (remaining : Int)
  /-- at the `clock_gettime` after a poll that returned `ready` -/
  | clocking (c : CCollect) (ready : Reply)
  /-- in `read` -/
  | reading (c : CCollect)
  /-- at `realloc(buffer, next)`, with `chunk` still to be stored -/
  | growing (c : CCollect) (chunk : Bytes) (next : Nat)
  /-- at `kill(pid, SIGKILL)` -/
  | killing (c : CCollect)
  /-- at `close(out_pipe[0])` -/
  | closingOutput (c : CCollect)
  /-- in `waitpid` -/
  | waiting (c : CCollect)
  /-- returned 0 with `r` in `*result`; `reaped` records whether waitpid got the
  child -/
  | returned (r : CRunResult) (reaped : Bool)

namespace CCommand

/-- `timeout_ms` after the default has been filled in. -/
def timeout (cmd : CCommand) : Int :=
  if cmd.timeoutMs ≤ 0 then 5000 else cmd.timeoutMs

/-- The payload: `stdin_data` when it is neither NULL nor empty. -/
def payload (cmd : CCommand) : Bytes := cmd.stdinData.getD []

/-- The write loop with `written` bytes gone. -/
def writeLoop (cmd : CCommand) (written : Nat) : CParent :=
  if written < cmd.payload.length then .feeding written else .closing

/-- The head of `for (;;)`. -/
def loopHead (cmd : CCommand) (c : CCollect) : CParent :=
  if cmd.timeout - c.elapsedMs ≤ 0 then .killing c
  else .polling c (min (cmd.timeout - c.elapsedMs) 1000000)

/-- `while (length + got + 1 > next) next *= 2;` -/
def doubleUntil (needed next : Nat) : Nat :=
  if needed ≤ next ∨ next = 0 then next else doubleUntil needed (next * 2)
termination_by needed - next
decreasing_by omega

/-- `memcpy(buffer + length, chunk, got); length += got;` -/
def store (c : CCollect) (chunk : Bytes) : CCollect :=
  { c with buffer := c.buffer.map (· ++ chunk), length := c.length + chunk.length }

/-- What is done with a chunk: dropped without a buffer, stored if it fits,
otherwise the buffer is grown first. -/
def keepChunk (cmd : CCommand) (c : CCollect) (chunk : Bytes) : CParent :=
  if c.buffer.isNone then cmd.loopHead c
  else if c.length + chunk.length + 1 > c.capacity then
    .growing c chunk (doubleUntil (c.length + chunk.length + 1) (c.capacity * 2))
  else cmd.loopHead (store c chunk)

/-- What follows a poll once `elapsed_ms` has been updated. -/
def afterPoll (cmd : CCommand) (c : CCollect) : Reply → Option CParent
  | .failed .eintr => some (cmd.loopHead c)
  | .failed _ => some (.closingOutput c)
  | .lapsed =>
      some (if c.elapsedMs ≥ cmd.timeout then .killing c else cmd.loopHead c)
  | .ready _ => some (.reading c)
  | _ => none

/-- `*result` as it is filled in before `waitpid`, with the status to come. -/
def result (cmd : CCommand) (c : CCollect) (status : Int) : CRunResult where
  status := status
  timedOut := decide (c.elapsedMs ≥ cmd.timeout)
  output := c.buffer

/-- The call the parent is in. -/
def pending (cmd : CCommand) : CParent → Option Call
  | .feeding written => some (.write (cmd.payload.drop written))
  | .closing => some .closeStdin
  | .starting => some .clock
  | .allocating _ => some (.allocate 4096)
  | .polling _ remaining => some (.poll [.out] (wrap32 remaining))
  | .clocking _ _ => some .clock
  | .reading _ => some (.read .out 4096)
  | .growing _ _ next => some (.allocate next)
  | .killing _ => some .kill
  | .closingOutput _ => some .closeOutput
  | .waiting _ => some .waitpid
  | .returned _ _ => none

/-- The code between the reply to the pending call and the next call. -/
def advance (cmd : CCommand) : CParent → Reply → Option CParent
  | .feeding written, .wrote n => some (cmd.writeLoop (written + n))
  | .feeding written, .failed .eintr => some (.feeding written)
  | .feeding _, .failed _ => some .closing
  | .closing, .done => some .starting
  | .starting, .time t => some (.allocating (.ofNanos t))
  | .allocating start, .memory ok =>
      some (cmd.loopHead
        { start := start, elapsedMs := 0, capacity := 4096, length := 0
          buffer := if ok then some [] else none })
  | .polling c _, .failed e => some (.clocking c (.failed e))
  | .polling c _, .lapsed => some (.clocking c .lapsed)
  | .polling c _, .ready revents => some (.clocking c (.ready revents))
  | .clocking c ready, .time t =>
      cmd.afterPoll { c with elapsedMs := elapsedMsOf c.start (.ofNanos t) } ready
  | .reading c, .bytes (b :: bs) => some (cmd.keepChunk c (b :: bs))
  | .reading c, .bytes [] => some (.closingOutput c)
  | .reading c, .failed .eintr => some (cmd.loopHead c)
  | .reading c, .failed _ => some (.closingOutput c)
  | .growing c chunk next, .memory true =>
      some (cmd.loopHead (store { c with capacity := next } chunk))
  | .growing c _ _, .memory false => some (cmd.loopHead { c with buffer := none })
  | .killing c, .done => some (.closingOutput c)
  | .closingOutput c, .done => some (.waiting c)
  | .waiting c, .status st => some (.returned (cmd.result c st) true)
  | .waiting c, .failed _ => some (.returned (cmd.result c (-1)) false)
  | _, _ => none

/-- The parent right after the fork and its two closes. -/
def start (cmd : CCommand) : CParent := cmd.writeLoop 0

/-- The parent's own step relation: the pending call, its reply, the next state. -/
def Moves (cmd : CCommand) (p : CParent) (c : Call) (r : Reply) (p' : CParent) : Prop :=
  cmd.pending p = some c ∧ cmd.advance p r = some p'

end CCommand

/-! ## The branches of `ftl_run_command` -/

namespace CCommand

/-- What a move can be: a call, a reply that it can have, and the state that follows. -/
inductive Branch (cmd : CCommand) : CParent → Call → Reply → CParent → Prop
  | wrote (written n : Nat) :
      Branch cmd (.feeding written) (.write (cmd.payload.drop written)) (.wrote n)
        (cmd.writeLoop (written + n))
  | writeInterrupted (written : Nat) :
      Branch cmd (.feeding written) (.write (cmd.payload.drop written)) (.failed .eintr)
        (.feeding written)
  | writeFailed (written : Nat) (e : Errno) (he : e ≠ .eintr) :
      Branch cmd (.feeding written) (.write (cmd.payload.drop written)) (.failed e) .closing
  | closed : Branch cmd .closing .closeStdin .done .starting
  | started (t : Nat) : Branch cmd .starting .clock (.time t) (.allocating (.ofNanos t))
  | allocated (start : Timespec) (ok : Bool) :
      Branch cmd (.allocating start) (.allocate 4096) (.memory ok)
        (cmd.loopHead
          { start := start, elapsedMs := 0, capacity := 4096, length := 0
            buffer := if ok then some [] else none })
  | pollFailed (c : CCollect) (ms : Int) (e : Errno) :
      Branch cmd (.polling c ms) (.poll [.out] (wrap32 ms)) (.failed e) (.clocking c (.failed e))
  | lapsed (c : CCollect) (ms : Int) :
      Branch cmd (.polling c ms) (.poll [.out] (wrap32 ms)) .lapsed (.clocking c .lapsed)
  | ready (c : CCollect) (ms : Int) (revents : Stream → Bool) :
      Branch cmd (.polling c ms) (.poll [.out] (wrap32 ms)) (.ready revents)
        (.clocking c (.ready revents))
  | clocked (c : CCollect) (answer : Reply) (t : Nat) (p' : CParent)
      (hafter : cmd.afterPoll { c with elapsedMs := elapsedMsOf c.start (.ofNanos t) } answer =
        some p') :
      Branch cmd (.clocking c answer) .clock (.time t) p'
  | got (c : CCollect) (b : UInt8) (bs : Bytes) :
      Branch cmd (.reading c) (.read .out 4096) (.bytes (b :: bs)) (cmd.keepChunk c (b :: bs))
  | ended (c : CCollect) :
      Branch cmd (.reading c) (.read .out 4096) (.bytes []) (.closingOutput c)
  | readInterrupted (c : CCollect) :
      Branch cmd (.reading c) (.read .out 4096) (.failed .eintr) (cmd.loopHead c)
  | readFailed (c : CCollect) (e : Errno) (he : e ≠ .eintr) :
      Branch cmd (.reading c) (.read .out 4096) (.failed e) (.closingOutput c)
  | grown (c : CCollect) (chunk : Bytes) (next : Nat) :
      Branch cmd (.growing c chunk next) (.allocate next) (.memory true)
        (cmd.loopHead (store { c with capacity := next } chunk))
  | notGrown (c : CCollect) (chunk : Bytes) (next : Nat) :
      Branch cmd (.growing c chunk next) (.allocate next) (.memory false)
        (cmd.loopHead { c with buffer := none })
  | killed (c : CCollect) : Branch cmd (.killing c) .kill .done (.closingOutput c)
  | outputClosed (c : CCollect) :
      Branch cmd (.closingOutput c) .closeOutput .done (.waiting c)
  | reaped (c : CCollect) (st : Int) :
      Branch cmd (.waiting c) .waitpid (.status st) (.returned (cmd.result c st) true)
  | waitFailed (c : CCollect) (e : Errno) :
      Branch cmd (.waiting c) .waitpid (.failed e) (.returned (cmd.result c (-1)) false)

theorem branch_of_moves {cmd : CCommand} {p p' : CParent} {c : Call} {r : Reply}
    (hmove : cmd.Moves p c r p') : cmd.Branch p c r p' := by
  obtain ⟨hpending, hadvance⟩ := hmove
  cases p with
  | feeding written =>
      cases hpending
      cases r with
      | wrote n => cases hadvance; exact .wrote written n
      | failed e =>
          cases e with
          | eintr => cases hadvance; exact .writeInterrupted written
          | _ => cases hadvance; exact .writeFailed written _ (by simp)
      | _ => simp [advance] at hadvance
  | closing =>
      cases hpending
      cases r with
      | done => cases hadvance; exact .closed
      | _ => simp [advance] at hadvance
  | starting =>
      cases hpending
      cases r with
      | time t => cases hadvance; exact .started t
      | _ => simp [advance] at hadvance
  | allocating start =>
      cases hpending
      cases r with
      | memory ok => cases hadvance; exact .allocated start ok
      | _ => simp [advance] at hadvance
  | polling col ms =>
      cases hpending
      cases r with
      | failed e => cases hadvance; exact .pollFailed col ms e
      | lapsed => cases hadvance; exact .lapsed col ms
      | ready revents => cases hadvance; exact .ready col ms revents
      | _ => simp [advance] at hadvance
  | clocking col answer =>
      cases hpending
      cases r with
      | time t => exact .clocked col answer t p' hadvance
      | _ => simp [advance] at hadvance
  | reading col =>
      cases hpending
      cases r with
      | bytes bs =>
          cases bs with
          | nil => cases hadvance; exact .ended col
          | cons b bs => cases hadvance; exact .got col b bs
      | failed e =>
          cases e with
          | eintr => cases hadvance; exact .readInterrupted col
          | _ => cases hadvance; exact .readFailed col _ (by simp)
      | _ => simp [advance] at hadvance
  | growing col chunk next =>
      cases hpending
      cases r with
      | memory ok =>
          cases ok with
          | true => cases hadvance; exact .grown col chunk next
          | false => cases hadvance; exact .notGrown col chunk next
      | _ => simp [advance] at hadvance
  | killing col =>
      cases hpending
      cases r with
      | done => cases hadvance; exact .killed col
      | _ => simp [advance] at hadvance
  | closingOutput col =>
      cases hpending
      cases r with
      | done => cases hadvance; exact .outputClosed col
      | _ => simp [advance] at hadvance
  | waiting col =>
      cases hpending
      cases r with
      | status st => cases hadvance; exact .reaped col st
      | failed e => cases hadvance; exact .waitFailed col e
      | _ => simp [advance] at hadvance
  | returned _ _ => cases hpending

end CCommand

/-! ## The course of a call -/

/-- The parts of `ftl_run_command` after the fork. -/
inductive CPhase where
  | feeding
  | closing
  | collecting
  | closingOutput
  | waiting
  | returned
  deriving DecidableEq, Repr

/-- The part that a state is in. -/
def CParent.phase : CParent → CPhase
  | .feeding _ => .feeding
  | .closing => .closing
  | .closingOutput _ => .closingOutput
  | .waiting _ => .waiting
  | .returned _ _ => .returned
  | _ => .collecting

/-- The parts that one move can lead to. -/
def CPhase.next : CPhase → List CPhase
  | .feeding => [.feeding, .closing]
  | .closing => [.collecting]
  | .collecting => [.collecting, .closingOutput]
  | .closingOutput => [.waiting]
  | .waiting => [.returned]
  | .returned => []

namespace CCommand

theorem phase_writeLoop (cmd : CCommand) (written : Nat) :
    (cmd.writeLoop written).phase ∈ CPhase.feeding.next := by
  unfold writeLoop
  split
  · exact .head _
  · exact .tail _ (.head _)

theorem phase_loopHead (cmd : CCommand) (c : CCollect) :
    (cmd.loopHead c).phase = .collecting := by
  unfold loopHead
  split
  · rfl
  · rfl

theorem phase_keepChunk (cmd : CCommand) (c : CCollect) (chunk : Bytes) :
    (cmd.keepChunk c chunk).phase = .collecting := by
  unfold keepChunk
  split
  · exact cmd.phase_loopHead c
  · split
    · rfl
    · exact cmd.phase_loopHead _

theorem phase_afterPoll {cmd : CCommand} {c : CCollect} {ready : Reply} {p' : CParent}
    (h : cmd.afterPoll c ready = some p') : p'.phase ∈ CPhase.collecting.next := by
  unfold afterPoll at h
  split at h
  · cases h
    rw [phase_loopHead]
    exact .head _
  · cases h
    exact .tail _ (.head _)
  · cases h
    split
    · exact .head _
    · rw [phase_loopHead]
      exact .head _
  · cases h
    exact .head _
  · cases h

theorem phase_advance {cmd : CCommand} {p p' : CParent} {c : Call} {r : Reply}
    (hmove : cmd.Moves p c r p') : p'.phase ∈ p.phase.next := by
  have hstays : p'.phase = .collecting → p'.phase ∈ CPhase.collecting.next := by
    intro h
    rw [h]
    exact .head _
  cases branch_of_moves hmove with
  | wrote written n => exact cmd.phase_writeLoop _
  | writeInterrupted written => exact .head _
  | writeFailed written e _ => exact .tail _ (.head _)
  | closed => exact .head _
  | started t => exact .head _
  | allocated start ok => exact hstays (cmd.phase_loopHead _)
  | pollFailed col ms e => exact .head _
  | lapsed col ms => exact .head _
  | ready col ms revents => exact .head _
  | clocked col answer t p' hafter => exact phase_afterPoll hafter
  | got col b bs => exact hstays (cmd.phase_keepChunk _ _)
  | ended col => exact .tail _ (.head _)
  | readInterrupted col => exact hstays (cmd.phase_loopHead _)
  | readFailed col e _ => exact .tail _ (.head _)
  | grown col chunk next => exact hstays (cmd.phase_loopHead _)
  | notGrown col chunk next => exact hstays (cmd.phase_loopHead _)
  | killed col => exact .tail _ (.head _)
  | outputClosed col => exact .head _
  | reaped col st => exact .head _
  | waitFailed col e => exact .head _

end CCommand

end Ftl.Process
