/-
  Process/Interrupts.lean --- signals that interrupt the parent's calls.

  Every call that a signal can interrupt is retried, except one: both runners make
  the final waitpid once.  The C runner also goes back to the head of its loop
  after an interrupted read, where it may find that the time is up before it has
  read what poll announced.

      eintr_transparent         interruptions elsewhere change nothing
      interrupted_wait_unreaped an interrupted waitpid loses the status and the child

  The world is a `Kernel`: it answers calls deterministically, so that one schedule
  can be compared with and without interruptions.  Time passes in the calls that
  block, and a poll that announced something announces it again.
-/
import Ftl.Foundation.Machine
import Ftl.Process.RunCommand
import Ftl.Process.Subprocess

set_option autoImplicit false

namespace Ftl.Process

open Foundation (Machine Oracle Runs)

/-! ## The kernel -/

/-- The calls that take time. -/
def Call.blocks : Call → Bool
  | .write _ | .poll _ _ | .waitpid => true
  | _ => false

/-- The rest of the world, child included, without interruptions. -/
structure Kernel where
  oracle : Oracle Call Reply
  /-- the monotonic clock -/
  now : oracle.State → Nat
  clock_answer : ∀ k, oracle.answer k .clock = some (.time (now k), k)
  still : ∀ k c r k', oracle.answer k c = some (r, k') → c.blocks = false → now k' = now k
  uninterrupted : ∀ k c r k', oracle.answer k c = some (r, k') → r ≠ .failed .eintr
  /-- what is ready to be read stays ready -/
  poll_again : ∀ k fds ms revents k',
    oracle.answer k (.poll fds ms) = some (.ready revents, k') →
    ∀ ms', ∃ revents', oracle.answer k' (.poll fds ms') = some (.ready revents', k')
  reaps : ∀ k r k', oracle.answer k .waitpid = some (r, k') → ∃ st, r = .status st

/-- States of the kernel. -/
abbrev Kernel.State (K : Kernel) : Type := K.oracle.State

/-- `run()` after the fork. -/
def Subprocess.machine (sp : Subprocess) : Machine Parent Call Reply where
  pending := sp.pending
  advance := sp.advance

/-- `ftl_run_command` after the fork. -/
def CCommand.machine (cmd : CCommand) : Machine CParent Call Reply where
  pending := cmd.pending
  advance := cmd.advance

/-- A machine in the kernel, any of whose interruptible calls may be interrupted. -/
abbrev Interrupted {P : Type} (M : Machine P Call Reply) (K : Kernel) :
    P × K.State → Option P → P × K.State → Prop :=
  M.Step K.oracle (fun c => c.interruptible = true) (.failed .eintr)

/-! ## The C++ runner -/

namespace Subprocess

variable {sp : Subprocess} {K : Kernel}

/-- What the loop knows: a source is open, and the time left that it polls for is the
time left now.  A run that returns has reaped its child. -/
def Fresh (K : Kernel) (x : Parent × K.State) : Prop :=
  match x.1 with
  | .checking c => (c.isOpen .out || c.isOpen .err) = true
  | .polling c remainingMs =>
      (c.isOpen .out || c.isOpen .err) = true ∧
        checkDeadline c (K.now x.2) = .polling c remainingMs
  | .returned _ reaped => reaped = true
  | _ => True

theorem fresh_whileOpen (c : Collect) (k : K.State) : Fresh K (whileOpen c, k) := by
  unfold whileOpen
  split
  · assumption
  · trivial

theorem fresh_drainNext (c : Collect) (todo : List Stream) (k : K.State) :
    Fresh K (drainNext c todo, k) := by
  cases todo with
  | nil => exact fresh_whileOpen c k
  | cons s todo => trivial

theorem fresh_drainOnce {c : Collect} {s : Stream} {todo : List Stream} {r : Reply}
    {p : Parent} (h : drainOnce c s todo r = some p) (k : K.State) : Fresh K (p, k) := by
  unfold drainOnce at h
  split at h
  · cases h; exact fresh_drainNext _ _ k
  · cases h; exact fresh_drainNext _ _ k
  · cases h; trivial
  · cases h; exact fresh_drainNext _ _ k
  · cases h

/-- No time passes between a deadline check and the poll that follows it. -/
theorem fresh_checkDeadline {c : Collect} (hopen : (c.isOpen .out || c.isOpen .err) = true)
    (k : K.State) : Fresh K (checkDeadline c (K.now k), k) := by
  cases hcheck : checkDeadline c (K.now k) with
  | polling c' remainingMs =>
      unfold checkDeadline at hcheck
      split at hcheck
      · cases hcheck
      · rename_i hleft
        cases hcheck
        refine ⟨hopen, ?_⟩
        simp only [checkDeadline]
        rw [if_neg hleft]
  | _ => first | trivial | (unfold checkDeadline at hcheck; split at hcheck <;> cases hcheck)

theorem fresh_quiet {x y : Parent × K.State} (h : Fresh K x)
    (hstep : sp.machine.Quiet K.oracle x y) : Fresh K y := by
  obtain ⟨p, k⟩ := x
  obtain ⟨p', k'⟩ := y
  obtain ⟨call, r, hpending, hanswer, hadvance⟩ := hstep
  have hmove : sp.Moves p call r p' := ⟨hpending, hadvance⟩
  cases branch_of_moves hmove with
  | wrote written n =>
      unfold writeAll
      split <;> trivial
  | armed now => exact fresh_whileOpen _ k'
  | checked c now =>
      rw [K.clock_answer] at hanswer
      cases hanswer
      exact fresh_checkDeadline h k
  | pollInterrupted c ms => exact fresh_whileOpen c k'
  | ready c ms revents => exact fresh_drainNext c _ k'
  | drained c s todo r p' hdrained => exact fresh_drainOnce hdrained k'
  | reaped c st => rfl
  | waitFailed c e =>
      obtain ⟨st, hst⟩ := K.reaps _ _ _ hanswer
      cases hst
  | _ => trivial

/-- Any interruption but one of waitpid leads quietly back to where it happened. -/
theorem fresh_back {x y : Parent × K.State} {p : Parent}
    (hallowed : sp.pending p ≠ some .waitpid) (h : Fresh K x)
    (hstep : Interrupted sp.machine K x (some p) y) :
    Fresh K y ∧ sp.machine.QuietRun K.oracle y x := by
  cases hstep with
  | @interrupt _ p' k call hpending hinterruptible hadvance =>
      simp only [machine] at hpending hadvance
      cases p with
      | feeding written => cases hadvance; exact ⟨trivial, .refl⟩
      | draining c s todo => cases hadvance; exact ⟨trivial, .refl⟩
      | polling c remainingMs =>
          obtain ⟨hopen, hcheck⟩ := h
          cases hadvance
          refine ⟨fresh_whileOpen c k, .single ⟨.clock, .time (K.now k), ?_, ?_, ?_⟩⟩
          · simp only [machine, whileOpen, hopen, if_true]
            rfl
          · exact K.clock_answer k
          · simp only [machine, whileOpen, hopen, if_true]
            exact congrArg some hcheck
      | waiting c => exact (hallowed rfl).elim
      | returned r reaped => simp [pending] at hpending
      | threw e => simp [pending] at hpending
      | _ => cases hpending; simp [Call.interruptible] at hinterruptible

theorem fresh_start (k : K.State) : Fresh K (sp.start, k) := by
  unfold start writeAll
  split <;> trivial

/-- A run that ends with the child reaped has not been interrupted in waitpid: that
would have ended it without the child's status. -/
theorem wait_uninterrupted {x y z : Parent × K.State} {ls : List (Option Parent)}
    (hrun : Runs (Interrupted sp.machine K) x ls y) (hz : sp.machine.QuietRun K.oracle y z)
    (hreaped : ∀ r, z.1 ≠ .returned r false) :
    ∀ p, some p ∈ ls → sp.pending p ≠ some .waitpid := by
  refine Machine.not_interrupted_of_end (fun p => sp.pending p = some .waitpid)
    (fun p => ∃ r, p = .returned r false) ?_ ?_ hrun hz ?_
  · rintro p ⟨r, rfl⟩
    rfl
  · intro p p' hp hadvance
    cases p with
    | waiting c => cases hadvance; exact ⟨_, rfl⟩
    | _ => simp [pending] at hp
  · rintro ⟨r, hr⟩
    exact hreaped r hr

end Subprocess

/-! ## The C runner -/

namespace CCommand

variable {cmd : CCommand} {K : Kernel}

/-- `elapsed_ms` is what the clock shows now, so that a turn for an interrupted call computes what
it has. -/
def Timed (K : Kernel) (c : CCollect) (k : K.State) : Prop :=
  elapsedMsOf c.start (.ofNanos (K.now k)) = c.elapsedMs

/-- A poll of the output pipe returns at once. -/
def Announced (K : Kernel) (k : K.State) : Prop :=
  ∀ ms, ∃ revents, K.oracle.answer k (.poll [.out] ms) = some (.ready revents, k)

/-- What the loop knows: `elapsed_ms` is up to date, it polls for the time that is
left, and it reads what a poll has announced. -/
def Fresh (cmd : CCommand) (K : Kernel) (x : CParent × K.State) : Prop :=
  match x.1 with
  | .allocating start => start = .ofNanos (K.now x.2)
  | .polling c remaining => Timed K c x.2 ∧ cmd.loopHead c = .polling c remaining
  | .clocking _ (.ready _) => Announced K x.2
  | .reading c => Timed K c x.2 ∧ Announced K x.2
  | .growing c _ _ => Timed K c x.2
  | .returned _ reaped => reaped = true
  | _ => True

theorem fresh_loopHead {c : CCollect} {k : K.State} (htimed : Timed K c k) :
    Fresh cmd K (cmd.loopHead c, k) := by
  cases hhead : cmd.loopHead c with
  | polling c' remaining =>
      unfold loopHead at hhead
      split at hhead
      · cases hhead
      · rename_i hleft
        cases hhead
        refine ⟨htimed, ?_⟩
        rw [loopHead, if_neg hleft]
  | killing c' => trivial
  | _ => unfold loopHead at hhead; split at hhead <;> cases hhead

theorem fresh_keepChunk {c : CCollect} {chunk : Bytes} {k : K.State}
    (htimed : Timed K c k) : Fresh cmd K (cmd.keepChunk c chunk, k) := by
  unfold keepChunk
  split
  · exact fresh_loopHead htimed
  · split
    · exact htimed
    · exact fresh_loopHead htimed

theorem fresh_afterPoll {c : CCollect} {ready : Reply} {p : CParent} {k : K.State}
    (htimed : Timed K c k) (hannounced : ∀ revents, ready = .ready revents → Announced K k)
    (h : cmd.afterPoll c ready = some p) : Fresh cmd K (p, k) := by
  cases ready with
  | failed e =>
      cases e with
      | eintr => cases h; exact fresh_loopHead htimed
      | epipe => cases h; trivial
      | other code => cases h; trivial
  | lapsed =>
      simp only [afterPoll, Option.some.injEq] at h
      subst h
      split
      · trivial
      · exact fresh_loopHead htimed
  | ready revents => cases h; exact ⟨htimed, hannounced revents rfl⟩
  | _ => simp [afterPoll] at h

/-- A call that does not block keeps `elapsed_ms` up to date. -/
theorem Timed.still {c : CCollect} {k k' : K.State} (h : Timed K c k)
    (hnow : K.now k' = K.now k) : Timed K c k' := by
  rw [Timed, hnow]
  exact h

theorem fresh_quiet {x y : CParent × K.State} (h : Fresh cmd K x)
    (hstep : cmd.machine.Quiet K.oracle x y) : Fresh cmd K y := by
  obtain ⟨p, k⟩ := x
  obtain ⟨p', k'⟩ := y
  obtain ⟨call, r, hpending, hanswer, hadvance⟩ := hstep
  have hmove : cmd.Moves p call r p' := ⟨hpending, hadvance⟩
  cases branch_of_moves hmove with
  | wrote written n =>
      unfold writeLoop
      split <;> trivial
  | started t =>
      rw [K.clock_answer] at hanswer
      cases hanswer
      exact rfl
  | allocated start ok =>
      have hnow := K.still _ _ _ _ hanswer rfl
      have hstart : start = .ofNanos (K.now k) := h
      refine fresh_loopHead ?_
      rw [Timed, hnow, hstart]
      exact elapsedMsOf_self _
  | ready c ms revents => exact K.poll_again _ _ _ _ _ hanswer
  | clocked c answer t p' hafter =>
      rw [K.clock_answer] at hanswer
      cases hanswer
      have htimed : Timed K { c with elapsedMs := elapsedMsOf c.start (.ofNanos (K.now k)) } k :=
        rfl
      refine fresh_afterPoll htimed ?_ hafter
      rintro revents rfl
      exact h
  | got c b bs => exact fresh_keepChunk (h.1.still (K.still _ _ _ _ hanswer rfl))
  | readInterrupted c => exact fresh_loopHead (h.1.still (K.still _ _ _ _ hanswer rfl))
  | grown c chunk next => exact fresh_loopHead (Timed.still h (K.still _ _ _ _ hanswer rfl))
  | notGrown c chunk next => exact fresh_loopHead (Timed.still h (K.still _ _ _ _ hanswer rfl))
  | reaped c st => rfl
  | waitFailed c e =>
      obtain ⟨st, hst⟩ := K.reaps _ _ _ hanswer
      cases hst
  | _ => trivial

/-- A read that follows a poll which returned only when the time was up. -/
def LateRead (cmd : CCommand) (p : CParent) : Prop :=
  ∃ c, p = .reading c ∧ cmd.timeout ≤ c.elapsedMs

/-- Any interruption but one of waitpid or of a late read leads quietly back to where
it happened. -/
theorem fresh_back {x y : CParent × K.State} {p : CParent}
    (hallowed : cmd.pending p ≠ some .waitpid ∧ ¬ cmd.LateRead p) (h : Fresh cmd K x)
    (hstep : Interrupted cmd.machine K x (some p) y) :
    Fresh cmd K y ∧ cmd.machine.QuietRun K.oracle y x := by
  cases hstep with
  | @interrupt _ p' k call hpending hinterruptible hadvance =>
      simp only [machine] at hpending hadvance
      cases p with
      | feeding written => cases hadvance; exact ⟨trivial, .refl⟩
      | polling c remaining =>
          obtain ⟨htimed, hhead⟩ := h
          cases hadvance
          refine ⟨trivial, .single ⟨.clock, .time (K.now k), rfl, K.clock_answer k, ?_⟩⟩
          -- the reading shows the `elapsed_ms` that the loop already had
          have hsame : { c with elapsedMs := elapsedMsOf c.start (.ofNanos (K.now k)) } = c := by
            rw [htimed]
          simp only [machine, advance, afterPoll, hsame, hhead]
      | reading c =>
          obtain ⟨htimed, hannounced⟩ := h
          cases hadvance
          refine ⟨fresh_loopHead htimed, ?_⟩
          have hearly : ¬ cmd.timeout - c.elapsedMs ≤ 0 := by
            intro hlate
            exact hallowed.2 ⟨c, rfl, by omega⟩
          obtain ⟨revents, hrevents⟩ :=
            hannounced (wrap32 (min (cmd.timeout - c.elapsedMs) 1000000))
          have hsame : { c with elapsedMs := elapsedMsOf c.start (.ofNanos (K.now k)) } = c := by
            rw [htimed]
          rw [loopHead, if_neg hearly]
          have hpoll : cmd.machine.Quiet K.oracle
              (.polling c (min (cmd.timeout - c.elapsedMs) 1000000), k)
              (.clocking c (.ready revents), k) := ⟨_, _, rfl, hrevents, rfl⟩
          have hclock : cmd.machine.Quiet K.oracle (.clocking c (.ready revents), k)
              (.reading c, k) := by
            refine ⟨.clock, .time (K.now k), rfl, K.clock_answer k, ?_⟩
            simp only [machine, advance, afterPoll, hsame]
          exact .head hpoll (.single hclock)
      | waiting c => exact (hallowed.1 rfl).elim
      | returned r reaped => simp [pending] at hpending
      | _ => cases hpending; simp [Call.interruptible] at hinterruptible

theorem fresh_start (k : K.State) : Fresh cmd K (cmd.start, k) := by
  unfold start writeLoop
  split <;> trivial

/-- A run that ends with the child reaped has not been interrupted in waitpid: that
would have ended it without the child's status. -/
theorem wait_uninterrupted {x y z : CParent × K.State} {ls : List (Option CParent)}
    (hrun : Runs (Interrupted cmd.machine K) x ls y) (hz : cmd.machine.QuietRun K.oracle y z)
    (hreaped : ∀ r, z.1 ≠ .returned r false) :
    ∀ p, some p ∈ ls → cmd.pending p ≠ some .waitpid := by
  refine Machine.not_interrupted_of_end (fun p => cmd.pending p = some .waitpid)
    (fun p => ∃ r, p = .returned r false) ?_ ?_ hrun hz ?_
  · rintro p ⟨r, rfl⟩
    rfl
  · intro p p' hp hadvance
    cases p with
    | waiting c => cases hadvance; exact ⟨_, rfl⟩
    | _ => simp [pending] at hp
  · rintro ⟨r, hr⟩
    exact hreaped r hr

end CCommand

/-! ## Both runners -/

/-- Take a schedule under which the runner returns.  It has reaped the child then; and
a run with any finite number of interruptions returns the same

  * in the C++ runner, exactly when none of them hits waitpid;
  * in the C runner, when none of them hits waitpid or a late read, and only when none
    of them hits waitpid. -/
theorem eintr_transparent (K : Kernel) (k : K.State) :
    (∀ (sp : Subprocess) (r : RunResult) (reaped : Bool) (k' : K.State),
      sp.machine.QuietRun K.oracle (sp.start, k) (.returned r reaped, k') →
      reaped = true ∧
      ∀ ls x, Runs (Interrupted sp.machine K) (sp.start, k) ls x →
        (sp.machine.QuietRun K.oracle x (.returned r reaped, k') ↔
          ∀ p, some p ∈ ls → sp.pending p ≠ some .waitpid)) ∧
    (∀ (cmd : CCommand) (r : CRunResult) (reaped : Bool) (k' : K.State),
      cmd.machine.QuietRun K.oracle (cmd.start, k) (.returned r reaped, k') →
      reaped = true ∧
      ∀ ls x, Runs (Interrupted cmd.machine K) (cmd.start, k) ls x →
        ((∀ p, some p ∈ ls → cmd.pending p ≠ some .waitpid ∧ ¬ cmd.LateRead p) →
          cmd.machine.QuietRun K.oracle x (.returned r reaped, k')) ∧
        (cmd.machine.QuietRun K.oracle x (.returned r reaped, k') →
          ∀ p, some p ∈ ls → cmd.pending p ≠ some .waitpid)) := by
  constructor
  · intro sp r reaped k' hquiet
    have hreaped : reaped = true :=
      hquiet.invariant (Subprocess.fresh_start k) Subprocess.fresh_quiet
    refine ⟨hreaped, fun ls x hrun => ⟨fun hx => ?_, fun hallowed => ?_⟩⟩
    · apply Subprocess.wait_uninterrupted hrun hx
      rintro r' ⟨⟩
      cases hreaped
    · refine Machine.ends_of_quiet
        (fun l => ∀ p, l = some p → sp.pending p ≠ some .waitpid) hrun
        (Subprocess.fresh_start k) (fun l hl p hp => hallowed p (hp ▸ hl))
        Subprocess.fresh_quiet (fun hQ h hstep => ?_) hquiet rfl
      exact Subprocess.fresh_back (hQ _ rfl) h hstep
  · intro cmd r reaped k' hquiet
    have hreaped : reaped = true :=
      hquiet.invariant (CCommand.fresh_start k) CCommand.fresh_quiet
    refine ⟨hreaped, fun ls x hrun => ⟨fun hallowed => ?_, fun hx => ?_⟩⟩
    · refine Machine.ends_of_quiet
        (fun l => ∀ p, l = some p → cmd.pending p ≠ some .waitpid ∧ ¬ cmd.LateRead p) hrun
        (CCommand.fresh_start k) (fun l hl p hp => hallowed p (hp ▸ hl))
        CCommand.fresh_quiet (fun hQ h hstep => ?_) hquiet rfl
      exact CCommand.fresh_back (hQ _ rfl) h hstep
    · apply CCommand.wait_uninterrupted hrun hx
      rintro r' ⟨⟩
      cases hreaped

/-! ## Fixed schedules -/

/-- Every call succeeds at once; the child has written nothing and exited with 0. -/
def instantReply : Call → Reply
  | .write data => .wrote data.length
  | .closeStdin | .kill | .closeOutput => .done
  | .clock => .time 0
  | .poll _ _ => .ready fun _ => true
  | .read _ _ => .bytes []
  | .waitpid => .status 0
  | .allocate _ => .memory true

/-- The kernel that answers so. -/
def instantKernel : Kernel where
  oracle := { State := Unit, answer := fun _ c => some (instantReply c, ()) }
  now := fun _ => 0
  clock_answer := fun _ => rfl
  still := fun _ _ _ _ _ _ => rfl
  uninterrupted := by
    rintro k c r k' h rfl
    cases c <;> cases h
  poll_again := fun _ _ _ _ _ _ _ => ⟨fun _ => true, rfl⟩
  reaps := by
    rintro k r k' h
    cases h
    exact ⟨0, rfl⟩

/-- A schedule of flags that can be played is a run with those interruptions. -/
theorem play_interrupted {P : Type} {M : Machine P Call Reply} {K : Kernel}
    {x y : P × K.State} (flags : List Bool)
    (h : M.play K.oracle (.failed .eintr) Call.interruptible x flags = some y) :
    ∃ ls, Runs (Interrupted M K) x ls y :=
  Machine.play_sound h

theorem play_uninterrupted {P : Type} {M : Machine P Call Reply} {K : Kernel}
    {x y : P × K.State} (n : Nat)
    (h : M.play K.oracle (.failed .eintr) Call.interruptible x (List.replicate n false) =
      some y) : M.QuietRun K.oracle x y :=
  Machine.play_quiet h

/-- Both runners in that kernel, with a signal in the poll and in the read. -/
theorem eintr_transparent_instant :
    (∃ ls, Runs (Interrupted (Subprocess.ofProgram []).machine instantKernel)
        ((Subprocess.ofProgram []).start, ()) ls
        (.returned { status := 0 } true, ()) ∧
      ∀ p, some p ∈ ls → (Subprocess.ofProgram []).pending p ≠ some .waitpid) ∧
    (∃ ls, Runs (Interrupted (CCommand.mk none 0).machine instantKernel)
        ((CCommand.mk none 0).start, ()) ls
        (.returned { status := 0, timedOut := false, output := some [] } true, ()) ∧
      ∀ p, some p ∈ ls → (CCommand.mk none 0).pending p ≠ some .waitpid) := by
  obtain ⟨hrunner, hcommand⟩ := eintr_transparent instantKernel ()
  constructor
  · have hquiet : (Subprocess.ofProgram []).machine.QuietRun instantKernel.oracle
        ((Subprocess.ofProgram []).start, ()) (.returned { status := 0 } true, ()) :=
      play_uninterrupted 6 rfl
    obtain ⟨-, hruns⟩ := hrunner (.ofProgram []) _ _ () hquiet
    obtain ⟨ls, hrun⟩ := @play_interrupted _ (Subprocess.ofProgram []).machine instantKernel
      ((Subprocess.ofProgram []).start, ()) (.returned { status := 0 } true, ())
      [false, false, false, true, false, false, true, false, false] rfl
    exact ⟨ls, hrun, (hruns ls _ hrun).mp .refl⟩
  · have hquiet : (CCommand.mk none 0).machine.QuietRun instantKernel.oracle
        ((CCommand.mk none 0).start, ())
        (.returned { status := 0, timedOut := false, output := some [] } true, ()) :=
      play_uninterrupted 8 rfl
    obtain ⟨-, hruns⟩ := hcommand (.mk none 0) _ _ () hquiet
    obtain ⟨ls, hrun⟩ := @play_interrupted _ (CCommand.mk none 0).machine instantKernel
      ((CCommand.mk none 0).start, ())
      (.returned { status := 0, timedOut := false, output := some [] } true, ())
      [false, false, false, true, false, false, false, true, false, false, false, false, false]
      rfl
    exact ⟨ls, hrun, (hruns ls _ hrun).2 .refl⟩

/-- The world of a child that writes one byte six seconds into the poll. -/
structure LateState where
  polled : Bool
  wasRead : Bool

/-- Its answers. -/
def lateAnswer (k : LateState) : Call → Reply × LateState
  | .clock => (.time (if k.polled then 6000000000 else 0), k)
  | .poll _ _ => (.ready fun _ => true, { k with polled := true })
  | .read _ _ => (.bytes (if k.wasRead then [] else [104]), { k with wasRead := true })
  | c => (instantReply c, k)

/-- The kernel that answers so. -/
def lateKernel : Kernel where
  oracle := { State := LateState, answer := fun k c => some (lateAnswer k c) }
  now := fun k => if k.polled then 6000000000 else 0
  clock_answer := fun _ => rfl
  still := by
    intro k c r k' h hblocks
    cases c <;> first | (cases hblocks; done) | (cases h; rfl)
  uninterrupted := by
    rintro k c r k' h rfl
    cases c <;> cases h
  poll_again := by
    intro k fds ms revents k' h ms'
    cases h
    exact ⟨fun _ => true, rfl⟩
  reaps := by
    intro k r k' h
    cases h
    exact ⟨0, rfl⟩

/-- One signal in waitpid and the child's status is lost, the child unreaped, in both
runners; one signal in a late read and the C runner loses output that poll had
announced. -/
theorem interrupted_wait_unreaped :
    ((Subprocess.ofProgram []).machine.QuietRun instantKernel.oracle
        ((Subprocess.ofProgram []).start, ()) (.returned { status := 0 } true, ()) ∧
      ∃ ls, Runs (Interrupted (Subprocess.ofProgram []).machine instantKernel)
        ((Subprocess.ofProgram []).start, ()) ls (.returned { status := -1 } false, ())) ∧
    ((CCommand.mk none 0).machine.QuietRun instantKernel.oracle
        ((CCommand.mk none 0).start, ())
        (.returned { status := 0, timedOut := false, output := some [] } true, ()) ∧
      ∃ ls, Runs (Interrupted (CCommand.mk none 0).machine instantKernel)
        ((CCommand.mk none 0).start, ()) ls
        (.returned { status := -1, timedOut := false, output := some [] } false, ())) ∧
    ((CCommand.mk none 0).machine.QuietRun lateKernel.oracle
        ((CCommand.mk none 0).start, ⟨false, false⟩)
        (.returned { status := 0, timedOut := true, output := some [104] } true,
          ⟨true, true⟩) ∧
      ∃ ls, Runs (Interrupted (CCommand.mk none 0).machine lateKernel)
        ((CCommand.mk none 0).start, ⟨false, false⟩) ls
        (.returned { status := 0, timedOut := true, output := some [] } true,
          ⟨true, false⟩)) :=
  ⟨⟨play_uninterrupted 6 rfl, play_interrupted
      [false, false, false, false, false, true] rfl⟩,
    ⟨play_uninterrupted 8 rfl, play_interrupted
      [false, false, false, false, false, false, false, true] rfl⟩,
    ⟨play_uninterrupted 9 rfl, play_interrupted
      [false, false, false, false, false, true, false, false, false] rfl⟩⟩

end Ftl.Process
