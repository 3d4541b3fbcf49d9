/-
  Process/Runner.lean --- what a process runner is for, and that both runners
  are one.

  A `Runner` feeds a payload into stdin, collects what comes out of the output
  pipes until every one of them has ended, and waits for the child.  It has no
  program text: `Runner.Step` only says what each reply does to the payload that
  is left, to the collected bytes and to the set of streams still listened to.

      Subprocess.tracks_step   the C++ machine refines the runner
      CCommand.tracks_step     so does the C machine

  The properties of the two programs that speak about bytes, end of file and the
  kill are proved of `Runner` and carried down by `Simulates.runs`.
-/
import Ftl.Process.World
import Ftl.Process.Subprocess
import Ftl.Process.RunCommand

set_option autoImplicit false

namespace Ftl.Process

open Function (update)

/-! ## The abstract runner -/

/-- The state of a runner. -/
structure Runner where
  /-- the part of the payload that has not been written -/
  unsent : Bytes
  /-- the write end of the stdin pipe is still open -/
  feeding : Bool
  /-- what has been collected from each stream -/
  sink : Stream → Bytes
  /-- the streams that have neither ended nor failed -/
  listening : Stream → Bool
  /-- SIGKILL has been sent -/
  sentKill : Bool
  /-- memory ran out, so `sink` is no longer kept -/
  lost : Bool

/-- A runner that has sent and collected nothing. -/
def Runner.fresh (payload : Bytes) (listening : Stream → Bool) : Runner where
  unsent := payload
  feeding := true
  sink := fun _ => []
  listening := listening
  sentKill := false
  lost := false

/-- The runner may stop collecting: it has killed the child, or every stream has
ended. -/
def Runner.MayStop (v : Runner) : Prop :=
  v.sentKill = true ∨ ∀ s, v.listening s = false

/-- What a call and its reply mean to a runner. -/
inductive Runner.Step : Runner → Call → Reply → Runner → Prop
  | send {v : Runner} {n : Nat} :
      Step v (.write v.unsent) (.wrote n) { v with unsent := v.unsent.drop n }
  | interrupted {v : Runner} {c : Call} : Step v c (.failed .eintr) v
  | giveUp {v : Runner} {e : Errno} :
      e ≠ .eintr → Step v (.write v.unsent) (.failed e) { v with unsent := [] }
  | hangUp {v : Runner} :
      v.unsent = [] → Step v .closeStdin .done { v with feeding := false }
  | clock {v : Runner} {t : Nat} : Step v .clock (.time t) v
  | lapsed {v : Runner} {fds : List Stream} {ms : Int} :
      Step v (.poll fds ms) .lapsed v
  | ready {v : Runner} {fds : List Stream} {ms : Int} {revents : Stream → Bool} :
      Step v (.poll fds ms) (.ready revents) v
  | deaf {v : Runner} {fds : List Stream} {ms : Int} {e : Errno} :
      e ≠ .eintr →
      Step v (.poll fds ms) (.failed e) { v with listening := fun _ => false }
  | collect {v : Runner} {s : Stream} {size : Nat} {bs : Bytes} :
      bs ≠ [] → v.feeding = false →
      Step v (.read s size) (.bytes bs)
        { v with sink := update v.sink s (v.sink s ++ bs) }
  | ended {v : Runner} {s : Stream} {size : Nat} :
      Step v (.read s size) (.bytes [])
        { v with listening := update v.listening s false }
  | failed {v : Runner} {s : Stream} {size : Nat} {e : Errno} :
      e ≠ .eintr →
      Step v (.read s size) (.failed e)
        { v with listening := update v.listening s false }
  | kill {v : Runner} :
      v.feeding = false → Step v .kill .done { v with sentKill := true }
  | closeOutput {v : Runner} :
      v.MayStop → Step v .closeOutput .done v
  | memory {v : Runner} {size : Nat} : Step v (.allocate size) (.memory true) v
  | outOfMemory {v : Runner} {size : Nat} :
      Step v (.allocate size) (.memory false) { v with lost := true }
  | wait {v : Runner} {st : Int} : v.MayStop → Step v .waitpid (.status st) v
  | waitFailed {v : Runner} {e : Errno} :
      v.MayStop → Step v .waitpid (.failed e) v

theorem Runner.eq_of_interrupted {v v' : Runner} {c : Call} (hstep : v.Step c (.failed .eintr) v') :
    v' = v := by
  cases hstep with
  | interrupted => rfl
  | waitFailed => rfl
  | giveUp hne => exact (hne rfl).elim
  | deaf hne => exact (hne rfl).elim
  | failed hne => exact (hne rfl).elim

/-- A read that gets something appends it to its sink. -/
theorem Runner.eq_of_bytes {v v' : Runner} {s : Stream} {size : Nat} {bs : Bytes}
    (hne : bs ≠ []) (hstep : v.Step (.read s size) (.bytes bs) v') :
    v' = { v with sink := update v.sink s (v.sink s ++ bs) } := by
  cases hstep with
  | collect => rfl
  | ended => exact (hne rfl).elim

theorem Runner.eq_of_endOfFile {v v' : Runner} {s : Stream} {size : Nat}
    (hstep : v.Step (.read s size) (.bytes []) v') :
    v' = { v with listening := update v.listening s false } := by
  cases hstep with
  | collect hne => exact (hne rfl).elim
  | ended => rfl

/-! ## The C++ machine refines the runner -/

namespace Subprocess

/-- The runner of a state of `collect`. -/
def runnerOf (c : Collect) (sentKill : Bool) : Runner where
  unsent := []
  feeding := false
  sink := c.result.sink
  listening := c.isOpen
  sentKill := sentKill
  lost := false

/-- Which runner states a state of the machine stands for.  Only a returned run
leaves a choice: `RunResult` does not say which streams had ended. -/
def Tracks (sp : Subprocess) : Parent → Runner → Prop
  | .feeding written, v => v = Runner.fresh (sp.stdinData.drop written) sp.watched
  | .closing, v => v = Runner.fresh [] sp.watched
  | .arming, v => v = { Runner.fresh [] sp.watched with feeding := false }
  | .checking c, v => v = runnerOf c false ∧ c.result.timedOut = false
  | .polling c _, v => v = runnerOf c false ∧ c.result.timedOut = false
  | .draining c _ _, v => v = runnerOf c false ∧ c.result.timedOut = false
  | .killing c, v => v = runnerOf c false ∧ c.result.timedOut = true
  | .waiting c, v => v = runnerOf c c.result.timedOut ∧ v.MayStop
  | .returned r _, v => v.sink = r.sink ∧ v.sentKill = r.timedOut ∧ v.lost = false ∧ v.MayStop
  | .threw _, _ => True

theorem runnerOf_collectStart (sp : Subprocess) (now : Nat) :
    runnerOf (sp.collectStart now) false =
      { Runner.fresh [] sp.watched with feeding := false } := by
  have hsink : (sp.collectStart now).result.sink = fun _ => [] := by
    funext s
    cases s <;> rfl
  simp [runnerOf, Runner.fresh, hsink]
  rfl

theorem tracks_whileOpen {sp : Subprocess} {c : Collect} (h : c.result.timedOut = false) :
    sp.Tracks (whileOpen c) (runnerOf c false) := by
  unfold whileOpen
  split
  · exact ⟨rfl, h⟩
  · rename_i hclosed
    refine ⟨by rw [h], Or.inr ?_⟩
    intro s
    cases s <;> simp_all [runnerOf]

theorem tracks_checkDeadline {sp : Subprocess} {c : Collect} (now : Nat)
    (h : c.result.timedOut = false) :
    sp.Tracks (checkDeadline c now) (runnerOf c false) := by
  unfold checkDeadline
  split
  · exact ⟨rfl, rfl⟩
  · exact ⟨rfl, h⟩

theorem tracks_drainNext {sp : Subprocess} {c : Collect} (todo : List Stream)
    (h : c.result.timedOut = false) :
    sp.Tracks (drainNext c todo) (runnerOf c false) := by
  cases todo with
  | nil => exact tracks_whileOpen h
  | cons s todo => exact ⟨rfl, h⟩

theorem tracks_writeAll (sp : Subprocess) (written : Nat) :
    sp.Tracks (sp.writeAll written) (Runner.fresh (sp.stdinData.drop written) sp.watched) := by
  unfold writeAll
  split
  · rfl
  · rename_i hdone
    rw [List.drop_eq_nil_of_le (by omega)]
    rfl

theorem tracks_start (sp : Subprocess) :
    sp.Tracks sp.start (Runner.fresh sp.stdinData sp.watched) :=
  sp.tracks_writeAll 0

/-- `drain_once` appends what it read to the sink of its source, or closes the
source. -/
theorem tracks_drainOnce {sp : Subprocess} {c : Collect} {s : Stream}
    {todo : List Stream} {r : Reply} {p' : Parent} {size : Nat}
    (h : c.result.timedOut = false) (hr : drainOnce c s todo r = some p') :
    ∃ v', Runner.Step (runnerOf c false) (.read s size) r v' ∧ sp.Tracks p' v' := by
  cases r with
  | bytes bs =>
      cases bs with
      | nil =>
          cases hr
          exact ⟨_, .ended, tracks_drainNext todo h⟩
      | cons b bs =>
          cases hr
          refine ⟨_, .collect (by simp) rfl, ?_⟩
          have htracks := @tracks_drainNext sp
            { c with result := c.result.append s (b :: bs) } todo (by simpa using h)
          simpa [runnerOf] using htracks
  | failed e =>
      cases e with
      | eintr =>
          cases hr
          exact ⟨_, .interrupted, rfl, h⟩
      | epipe =>
          cases hr
          exact ⟨_, .failed (by simp), tracks_drainNext todo h⟩
      | other code =>
          cases hr
          exact ⟨_, .failed (by simp), tracks_drainNext todo h⟩
  | _ => simp [drainOnce] at hr

/-- Every step of the C++ machine is a step of the runner it tracks. -/
theorem tracks_step {sp : Subprocess} {p p' : Parent} {v : Runner} {c : Call} {r : Reply}
    (htracks : sp.Tracks p v) (hmove : sp.Moves p c r p') :
    ∃ v', v.Step c r v' ∧ sp.Tracks p' v' := by
  cases branch_of_moves hmove with
  | wrote written n =>
      cases htracks
      refine ⟨_, .send, ?_⟩
      have h := sp.tracks_writeAll (written + n)
      rw [← List.drop_drop] at h
      exact h
  | writeInterrupted written =>
      cases htracks
      exact ⟨_, .interrupted, rfl⟩
  | writeFailed written e he =>
      cases htracks
      exact ⟨_, .giveUp he, rfl⟩
  | closed =>
      cases htracks
      exact ⟨_, .hangUp rfl, rfl⟩
  | armed now =>
      cases htracks
      refine ⟨_, .clock, ?_⟩
      rw [← sp.runnerOf_collectStart now]
      exact tracks_whileOpen rfl
  | checked c now =>
      obtain ⟨rfl, hto⟩ := htracks
      exact ⟨_, .clock, tracks_checkDeadline now hto⟩
  | pollInterrupted c ms =>
      obtain ⟨rfl, hto⟩ := htracks
      exact ⟨_, .interrupted, tracks_whileOpen hto⟩
  | pollFailed c ms e he => exact ⟨_, .deaf he, trivial⟩
  | lapsed c ms =>
      obtain ⟨rfl, -⟩ := htracks
      exact ⟨_, .lapsed, rfl, rfl⟩
  | ready c ms revents =>
      obtain ⟨rfl, hto⟩ := htracks
      exact ⟨_, .ready, tracks_drainNext _ hto⟩
  | drained c s todo r p' hdrained =>
      obtain ⟨rfl, hto⟩ := htracks
      exact tracks_drainOnce hto hdrained
  | killed c =>
      obtain ⟨rfl, hto⟩ := htracks
      refine ⟨_, .kill rfl, ?_, Or.inl rfl⟩
      rw [hto]
      rfl
  | reaped c st =>
      obtain ⟨rfl, hstop⟩ := htracks
      exact ⟨_, .wait hstop, rfl, rfl, rfl, hstop⟩
  | waitFailed c e =>
      obtain ⟨rfl, hstop⟩ := htracks
      exact ⟨_, .waitFailed hstop, rfl, rfl, rfl, hstop⟩

end Subprocess

/-! ## The C machine refines the runner -/

namespace CCommand

/-- The C runner listens to its one output pipe. -/
def watched : Stream → Bool
  | .out => true
  | .err => false

/-- The buffer of `c`, followed by a chunk that is not stored yet, is what the
runner has collected, unless memory ran out. -/
structure Collected (c : CCollect) (chunk : Bytes) (v : Runner) : Prop where
  feeding : v.feeding = false
  unsent : v.unsent = []
  deafErr : v.listening .err = false
  sinkErr : v.sink .err = []
  sinkOut : v.lost = false → ∃ b, c.buffer = some b ∧ v.sink .out = b ++ chunk

/-- Which runner states a state of the C machine stands for. -/
def Tracks (cmd : CCommand) : CParent → Runner → Prop
  | .feeding written, v => v = Runner.fresh (cmd.payload.drop written) watched
  | .closing, v => v = Runner.fresh [] watched
  | .starting, v => v = { Runner.fresh [] watched with feeding := false }
  | .allocating _, v => v = { Runner.fresh [] watched with feeding := false }
  | .polling c _, v => Collected c [] v ∧ v.sentKill = false
  | .clocking c ready, v =>
      Collected c [] v ∧ v.sentKill = false ∧
        ∀ e, ready = .failed e → e ≠ .eintr → ∀ s, v.listening s = false
  | .reading c, v => Collected c [] v ∧ v.sentKill = false
  | .growing c chunk _, v => Collected c chunk v ∧ v.sentKill = false
  | .killing c, v => Collected c [] v ∧ v.sentKill = false ∧ cmd.timeout ≤ c.elapsedMs
  | .closingOutput c, v =>
      Collected c [] v ∧ v.MayStop ∧ (v.sentKill = true → cmd.timeout ≤ c.elapsedMs)
  | .waiting c, v =>
      Collected c [] v ∧ v.MayStop ∧ (v.sentKill = true → cmd.timeout ≤ c.elapsedMs)
  | .returned r _, v =>
      v.MayStop ∧ (v.sentKill = true → r.timedOut = true) ∧
        (v.lost = false → r.output = some (v.sink .out))

theorem tracks_writeLoop (cmd : CCommand) (written : Nat) :
    cmd.Tracks (cmd.writeLoop written)
      (Runner.fresh (cmd.payload.drop written) watched) := by
  unfold writeLoop
  split
  · rfl
  · rename_i hdone
    rw [List.drop_eq_nil_of_le (by omega)]
    rfl

theorem tracks_start (cmd : CCommand) :
    cmd.Tracks cmd.start (Runner.fresh cmd.payload watched) :=
  cmd.tracks_writeLoop 0

theorem tracks_loopHead {cmd : CCommand} {c : CCollect} {v : Runner}
    (hc : Collected c [] v) (hkill : v.sentKill = false) :
    cmd.Tracks (cmd.loopHead c) v := by
  unfold loopHead
  split
  · exact ⟨hc, hkill, by omega⟩
  · exact ⟨hc, hkill⟩

/-- `elapsed_ms` is not part of what has been collected. -/
theorem Collected.elapsed {c : CCollect} {chunk : Bytes} {v : Runner} (ms : Int)
    (hc : Collected c chunk v) : Collected { c with elapsedMs := ms } chunk v :=
  ⟨hc.feeding, hc.unsent, hc.deafErr, hc.sinkErr, hc.sinkOut⟩

/-- Storing the outstanding chunk collects nothing new. -/
theorem Collected.store {c : CCollect} {chunk : Bytes} {v : Runner}
    (hc : Collected c chunk v) : Collected (store c chunk) [] v where
  feeding := hc.feeding
  unsent := hc.unsent
  deafErr := hc.deafErr
  sinkErr := hc.sinkErr
  sinkOut := by
    intro hlost
    obtain ⟨b, hb, hsink⟩ := hc.sinkOut hlost
    exact ⟨b ++ chunk, by simp [CCommand.store, hb], by simp [hsink]⟩

/-- A chunk that has been read is outstanding until it is stored. -/
theorem Collected.read {c : CCollect} {v : Runner} (chunk : Bytes)
    (hc : Collected c [] v) :
    Collected c chunk { v with sink := update v.sink .out (v.sink .out ++ chunk) } where
  feeding := hc.feeding
  unsent := hc.unsent
  deafErr := hc.deafErr
  sinkErr := by simpa using hc.sinkErr
  sinkOut := by
    intro hlost
    obtain ⟨b, hb, hsink⟩ := hc.sinkOut hlost
    exact ⟨b, hb, by simp [hsink]⟩

theorem tracks_keepChunk {cmd : CCommand} {c : CCollect} {chunk : Bytes} {v : Runner}
    (hc : Collected c chunk v) (hkill : v.sentKill = false) :
    cmd.Tracks (cmd.keepChunk c chunk) v := by
  unfold keepChunk
  split
  · rename_i hnone
    have hlost : v.lost = false → False := by
      intro hlost
      obtain ⟨b, hb, -⟩ := hc.sinkOut hlost
      simp [hb] at hnone
    exact tracks_loopHead
      ⟨hc.feeding, hc.unsent, hc.deafErr, hc.sinkErr, fun h => (hlost h).elim⟩ hkill
  · split
    · exact ⟨hc, hkill⟩
    · exact tracks_loopHead hc.store hkill

theorem tracks_afterPoll {cmd : CCommand} {c : CCollect} {ready : Reply} {v : Runner}
    {p' : CParent} (hc : Collected c [] v) (hkill : v.sentKill = false)
    (hdeaf : ∀ e, ready = .failed e → e ≠ .eintr → ∀ s, v.listening s = false)
    (h : cmd.afterPoll c ready = some p') : cmd.Tracks p' v := by
  have hstop : ∀ e, ready = .failed e → e ≠ .eintr →
      cmd.Tracks (.closingOutput c) v := fun e he hne =>
    ⟨hc, Or.inr (hdeaf e he hne), fun hk => by simp [hkill] at hk⟩
  cases ready with
  | failed e =>
      cases e with
      | eintr => cases h; exact tracks_loopHead hc hkill
      | epipe => cases h; exact hstop _ rfl (by simp)
      | other code => cases h; exact hstop _ rfl (by simp)
  | lapsed =>
      simp only [afterPoll, Option.some.injEq] at h
      subst h
      split
      · rename_i hlate
        exact ⟨hc, hkill, hlate⟩
      · exact tracks_loopHead hc hkill
  | ready revents => cases h; exact ⟨hc, hkill⟩
  | _ => simp [afterPoll] at h

/-- A poll that fails for good leaves nothing to listen to. -/
theorem tracks_pollFailed {cmd : CCommand} {c : CCollect} {v : Runner} {fds : List Stream}
    {ms : Int} (hc : Collected c [] v) (hkill : v.sentKill = false) (e : Errno) :
    ∃ v', v.Step (.poll fds ms) (.failed e) v' ∧ cmd.Tracks (.clocking c (.failed e)) v' := by
  by_cases he : e = .eintr
  · subst he
    exact ⟨v, .interrupted, hc, hkill, fun e h hne => by cases h; exact (hne rfl).elim⟩
  · exact ⟨_, .deaf he,
      ⟨hc.feeding, hc.unsent, rfl, hc.sinkErr, hc.sinkOut⟩, hkill, fun _ _ _ _ => rfl⟩

/-- After the one source has ended or failed, nothing is listened to any more. -/
theorem tracks_closingOutput {cmd : CCommand} {c : CCollect} {v : Runner}
    (hc : Collected c [] v) (hkill : v.sentKill = false) :
    cmd.Tracks (.closingOutput c) { v with listening := update v.listening .out false } := by
  refine ⟨⟨hc.feeding, hc.unsent, by simpa using hc.deafErr, hc.sinkErr, hc.sinkOut⟩,
    Or.inr ?_, fun hk => by simp [hkill] at hk⟩
  intro s
  cases s
  · simp
  · simpa using hc.deafErr

/-- The result has what was collected, and the flag if the child was killed. -/
theorem tracks_result {cmd : CCommand} {c : CCollect} {v : Runner} (hc : Collected c [] v)
    (hstop : v.MayStop) (hlate : v.sentKill = true → cmd.timeout ≤ c.elapsedMs) (st : Int)
    (reaped : Bool) : cmd.Tracks (.returned (cmd.result c st) reaped) v := by
  refine ⟨hstop, fun hk => decide_eq_true (hlate hk), fun hlost => ?_⟩
  obtain ⟨b, hb, hsink⟩ := hc.sinkOut hlost
  simp [result, hb, hsink]

/-- Every step of the C machine is a step of the runner it tracks. -/
theorem tracks_step {cmd : CCommand} {p p' : CParent} {v : Runner} {c : Call} {r : Reply}
    (htracks : cmd.Tracks p v) (hmove : cmd.Moves p c r p') :
    ∃ v', v.Step c r v' ∧ cmd.Tracks p' v' := by
  cases branch_of_moves hmove with
  | wrote written n =>
      cases htracks
      refine ⟨_, .send, ?_⟩
      have h := cmd.tracks_writeLoop (written + n)
      rw [← List.drop_drop] at h
      exact h
  | writeInterrupted written =>
      cases htracks
      exact ⟨_, .interrupted, rfl⟩
  | writeFailed written e he =>
      cases htracks
      exact ⟨_, .giveUp he, rfl⟩
  | closed =>
      cases htracks
      exact ⟨_, .hangUp rfl, rfl⟩
  | started t =>
      cases htracks
      exact ⟨_, .clock, rfl⟩
  | allocated start ok =>
      cases htracks
      cases ok with
      | true =>
          exact ⟨_, .memory, tracks_loopHead
            ⟨rfl, rfl, rfl, rfl, fun _ => ⟨[], rfl, rfl⟩⟩ rfl⟩
      | false =>
          exact ⟨_, .outOfMemory, tracks_loopHead
            ⟨rfl, rfl, rfl, rfl, fun h => by simp at h⟩ rfl⟩
  | pollFailed col ms e => exact tracks_pollFailed htracks.1 htracks.2 e
  | lapsed col ms =>
      obtain ⟨hc, hkill⟩ := htracks
      exact ⟨v, .lapsed, hc, hkill, by simp⟩
  | ready col ms revents =>
      obtain ⟨hc, hkill⟩ := htracks
      exact ⟨v, .ready, hc, hkill, by simp⟩
  | clocked col answer t p' hafter =>
      obtain ⟨hc, hkill, hdeaf⟩ := htracks
      exact ⟨v, .clock, tracks_afterPoll (hc.elapsed _) hkill hdeaf hafter⟩
  | got col b bs =>
      obtain ⟨hc, hkill⟩ := htracks
      exact ⟨_, .collect (by simp) hc.feeding, tracks_keepChunk (hc.read (b :: bs)) hkill⟩
  | ended col => exact ⟨_, .ended, tracks_closingOutput htracks.1 htracks.2⟩
  | readInterrupted col => exact ⟨v, .interrupted, tracks_loopHead htracks.1 htracks.2⟩
  | readFailed col e he => exact ⟨_, .failed he, tracks_closingOutput htracks.1 htracks.2⟩
  | grown col chunk next =>
      obtain ⟨hc, hkill⟩ := htracks
      refine ⟨v, .memory, tracks_loopHead (Collected.store ?_) hkill⟩
      exact ⟨hc.feeding, hc.unsent, hc.deafErr, hc.sinkErr, hc.sinkOut⟩
  | notGrown col chunk next =>
      obtain ⟨hc, hkill⟩ := htracks
      exact ⟨_, .outOfMemory, tracks_loopHead
        ⟨hc.feeding, hc.unsent, hc.deafErr, hc.sinkErr, fun h => by simp at h⟩ hkill⟩
  | killed col =>
      obtain ⟨hc, -, hlate⟩ := htracks
      exact ⟨_, .kill hc.feeding, ⟨hc.feeding, hc.unsent, hc.deafErr, hc.sinkErr, hc.sinkOut⟩,
        Or.inl rfl, fun _ => hlate⟩
  | outputClosed col =>
      obtain ⟨hc, hstop, hlate⟩ := htracks
      exact ⟨v, .closeOutput hstop, hc, hstop, hlate⟩
  | reaped col st =>
      obtain ⟨hc, hstop, hlate⟩ := htracks
      exact ⟨v, .wait hstop, tracks_result hc hstop hlate st true⟩
  | waitFailed col e =>
      obtain ⟨hc, hstop, hlate⟩ := htracks
      exact ⟨v, .waitFailed hstop, tracks_result hc hstop hlate (-1) false⟩

end CCommand

end Ftl.Process
