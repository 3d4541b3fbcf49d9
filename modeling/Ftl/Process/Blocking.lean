/-
  Process/Blocking.lean --- where the two runners can be blocked.

  A call blocks when nothing but a signal can end it as long as the child does nothing.  A read
  does not, since what poll has announced stays readable until the parent reads it: nobody else
  does, and no process gets a write end back.  That leaves the write to a full stdin pipe, the
  wait for a child that goes on running, and a poll without a timeout.  `collect` makes the
  latter where the `int` that poll takes cannot hold the milliseconds that are left; the C
  runner polls for a million of them at most.

      readable_run    what a poll announced is still there when it is read
      blocks_iff      which calls block
      paced_run       the C runner polls with a timeout
      blocked_only    where the two machines are blocked
-/
import Ftl.Process.Feeding
import Ftl.Process.Overflow
import Ftl.Process.DeadlineResponse

set_option autoImplicit false

namespace Ftl.Process

open Foundation (Runs Guarded)

/-! ## Streams that can be read -/

/-- A read of `s` returns at once: there are bytes, or the stream has ended. -/
def World.Readable {σ : Type} (S : Setting) (w : World σ) (s : Stream) : Prop :=
  w.pipe s ≠ [] ∨ ¬ w.HasWriter S s

section Readable

variable {S : Setting} {B : Behaviour} {w w' : World B.State} {s : Stream}

theorem readable_of_writers (h : w.Readable S s) (hpipe : w'.pipe s = w.pipe s)
    (hwriter : w'.HasWriter S s → w.HasWriter S s) : w'.Readable S s := by
  rcases h with hbytes | hnone
  · exact .inl (by rwa [hpipe])
  · exact .inr fun h => hnone (hwriter h)

theorem readable_acts {a : Action} (h : w.Readable S s) (hacts : Acts S w a w') :
    w'.Readable S s := by
  cases hacts with
  | @write fd t bs _ _ _ hne =>
      by_cases hsame : s = t
      · refine .inl ?_
        rw [hsame]
        simp [World.emit, hne]
      · exact readable_of_writers h (by simp [World.emit, hsame]) id
  | close => exact readable_of_writers h rfl World.hasWriter_of_release
  | exit => exact readable_of_writers h rfl (World.hasWriter_of_terminate _ _)
  | _ => exact h

/-- The parent makes a stream unreadable only by reading from it. -/
theorem readable_answers {c : Call} {r : Reply} (h : w.Readable S s) (hans : Answers S w c r w')
    (hread : ∀ size, c = .read s size → r = .failed .eintr) : w'.Readable S s := by
  cases hans with
  | @bytes t size bs rest =>
      have hother : s ≠ t := by
        rintro rfl
        cases hread size rfl
      exact readable_of_writers h (by simp [World.drain, hother]) id
  | _ => exact h

end Readable

/-! ## Polls that tell the truth -/

/-- A poll that reports something reports a stream that it was given, and what it reports can be
read.  `Answers` leaves both free. -/
def World.Truthful {σ : Type} (S : Setting) (w : World σ) : Call → Reply → Prop
  | .poll fds _, .ready revents =>
      (∃ s ∈ fds, revents s = true) ∧ ∀ s, revents s = true → w.Readable S s
  | _, _ => True

/-- The polls of the parent tell the truth.  Without this the kernel could announce bytes that
are not there, and the read that follows would block. -/
def Honest {X : Type} {B : Behaviour} (S : Setting) : Label → X × World B.State → Prop
  | .parent c r, y => y.2.Truthful S c r
  | _, _ => True

section Announced

variable {X : Type} {S : Setting} {B : Behaviour} {Par : X → Call → Reply → X → Prop}
  {Inv : X → Prop} {due : X → List Stream}

/-- A stream is due to be read after a poll that reported it, until it is read. -/
def Announces (Par : X → Call → Reply → X → Prop) (Inv : X → Prop) (due : X → List Stream) :
    Prop :=
  ∀ x c r x', Inv x → Par x c r x' → ∀ s ∈ due x',
    s ∈ due x ∧ (∀ size, c = .read s size → r = .failed .eintr) ∨
      ∃ fds ms revents, c = .poll fds ms ∧ r = .ready revents ∧ (revents s = true ∨ fds = [s])

/-- What a poll has announced is still there when it is read. -/
theorem readable_run (hannounces : Announces Par Inv due)
    (hkeeps : ∀ x c r x', Inv x → Par x c r x' → (∀ n, r = .wrote n → 0 < n) → Inv x')
    {x y : X} {w w' : World B.State} {ls : List Label} (hinit : Inv x) (hnone : due x = [])
    (hrun : Runs (Guarded (Step S B Par) (Honest S)) (x, w) ls (y, w')) :
    Inv y ∧ ∀ s ∈ due y, w'.Readable S s := by
  refine @Runs.invariant _ _ _ (fun z => Inv z.1 ∧ ∀ s ∈ due z.1, z.2.Readable S s) _ _ _ hrun
    ⟨hinit, by simp [hnone]⟩ ?_
  rintro ⟨p, u⟩ ⟨p', u'⟩ l ⟨hinv, hreadable⟩ ⟨hstep, hhonest⟩
  cases hstep with
  | parent hmove hans =>
      refine ⟨hkeeps _ _ _ _ hinv hmove (wrote_pos hans), fun s hs => ?_⟩
      rcases hannounces _ _ _ _ hinv hmove s hs with ⟨hdue, hread⟩ | hpolled
      · exact readable_answers (hreadable s hdue) hans hread
      · obtain ⟨fds, ms, revents, rfl, rfl, hreported⟩ := hpolled
        obtain ⟨⟨t, ht, hfound⟩, htrue⟩ := hhonest
        rcases hreported with hreported | rfl
        · exact htrue s hreported
        · rw [List.mem_singleton.mp ht] at hfound
          exact htrue s hfound
  | child _ hacts =>
      refine ⟨hinv, fun s hs => ?_⟩
      have hafter := readable_acts (hreadable s hs) hacts
      exact hafter
  | die =>
      exact ⟨hinv, fun s hs =>
        readable_of_writers (hreadable s hs) rfl (World.hasWriter_of_terminate _ _)⟩
  | tick => exact ⟨hinv, hreadable⟩

end Announced

/-! ## Calls that block -/

/-- While the child does nothing, nothing but a signal ends the call. -/
def World.Blocks {σ : Type} (S : Setting) (w : World σ) (c : Call) : Prop :=
  ∀ r w', Answers S w c r w' → w'.Truthful S c r → r = .failed .eintr

/-- The call is a poll that no time ends, and none of its streams can be read. -/
def World.BlocksPoll {σ : Type} (S : Setting) (w : World σ) (c : Call) : Prop :=
  ∃ fds ms, c = .poll fds ms ∧ ms < 0 ∧ ∀ s ∈ fds, ¬ w.Readable S s

section Blocks

variable {S : Setting} {B : Behaviour} {w : World B.State} {c : Call}

theorem not_blocks_of_answers {r : Reply} {w' : World B.State} (hans : Answers S w c r w')
    (htrue : w'.Truthful S c r) (hne : r ≠ .failed .eintr) : ¬ w.Blocks S c :=
  fun hblocks => hne (hblocks r w' hans htrue)

theorem blocks_write_iff {data : Bytes} (hfaults : S.faults = false) (hdata : data ≠ []) :
    w.Blocks S (.write data) ↔ w.BlocksWrite S (some (.write data)) := by
  rw [World.blocksWrite_iff hfaults hdata]
  exact ⟨fun h r w' hans => h r w' hans trivial, fun h r w' hans _ => h r w' hans⟩

theorem blocks_waitpid_iff (hfaults : S.faults = false) :
    w.Blocks S .waitpid ↔ w.status = none := by
  constructor
  · intro hblocks
    cases hstatus : w.status with
    | none => rfl
    | some st => cases hblocks _ _ (.status hstatus) trivial
  · intro hrunning r w' hans _
    cases hans with
    | interrupted => rfl
    | fault hfault =>
        rw [hfaults] at hfault
        cases hfault
    | status hstatus =>
        rw [hrunning] at hstatus
        cases hstatus

theorem not_blocks_read {s : Stream} {size : Nat} (hsize : 0 < size) (h : w.Readable S s) :
    ¬ w.Blocks S (.read s size) := by
  -- one byte can be read, if there is one
  have htakes : w.pipe s ≠ [] → ¬ w.Blocks S (.read s size) := by
    intro hbytes
    obtain ⟨b, rest, hpipe⟩ := List.exists_cons_of_ne_nil hbytes
    exact not_blocks_of_answers (.bytes (List.cons_ne_nil b []) hsize hpipe) trivial nofun
  by_cases hempty : w.pipe s = []
  · have hnone := h.resolve_left fun hbytes => hbytes hempty
    exact not_blocks_of_answers (.endOfFile hempty hnone) trivial nofun
  · exact htakes hempty

/-- A poll is ended by its timeout, unless that is negative, and by what can be read. -/
theorem blocks_poll_iff {fds : List Stream} {ms : Int} (hfaults : S.faults = false) :
    w.Blocks S (.poll fds ms) ↔ ms < 0 ∧ ∀ s ∈ fds, ¬ w.Readable S s := by
  classical
  constructor
  · intro hblocks
    constructor
    · by_contra hlimit
      exact not_blocks_of_answers (.lapsed (Int.not_lt.mp hlimit)) trivial nofun hblocks
    · intro s hs hreadable
      have htrue : w.Truthful S (.poll fds ms) (.ready fun t => decide (t = s)) := by
        refine ⟨⟨s, hs, decide_eq_true rfl⟩, fun t ht => ?_⟩
        rw [of_decide_eq_true ht]
        exact hreadable
      exact not_blocks_of_answers .ready htrue nofun hblocks
  · rintro ⟨hnegative, hsilent⟩ r w' hans htrue
    cases hans with
    | interrupted => rfl
    | fault hfault =>
        rw [hfaults] at hfault
        cases hfault
    | lapsed hlimit => omega
    | ready =>
        obtain ⟨⟨s, hs, hreported⟩, hreadable⟩ := htrue
        exact (hsilent s hs (hreadable s hreported)).elim

/-- Which calls block, if a read finds its stream readable. -/
theorem blocks_iff (hfaults : S.faults = false) (hwrite : ∀ data, c = .write data → data ≠ [])
    (hread : ∀ s size, c = .read s size → 0 < size ∧ w.Readable S s) :
    w.Blocks S c ↔
      w.BlocksWrite S (some c) ∨ c = .waitpid ∧ w.status = none ∨ w.BlocksPoll S c := by
  have hends : ¬ w.Blocks S c → (∀ data, c ≠ .write data) → c ≠ .waitpid →
      (∀ fds ms, c ≠ .poll fds ms) →
      (w.Blocks S c ↔
        w.BlocksWrite S (some c) ∨ c = .waitpid ∧ w.status = none ∨ w.BlocksPoll S c) := by
    intro hnot hwrites hwaits hpolls
    refine ⟨fun hblocks => (hnot hblocks).elim, ?_⟩
    rintro (⟨data, hcall, -⟩ | ⟨hcall, -⟩ | ⟨fds, ms, hcall, -⟩)
    · exact (hwrites data (Option.some.inj hcall)).elim
    · exact (hwaits hcall).elim
    · exact (hpolls fds ms hcall).elim
  cases c with
  | write data =>
      rw [blocks_write_iff hfaults (hwrite data rfl)]
      refine ⟨.inl, ?_⟩
      rintro (hfull | ⟨hcall, -⟩ | ⟨fds, ms, hcall, -⟩)
      · exact hfull
      · cases hcall
      · cases hcall
  | waitpid =>
      rw [blocks_waitpid_iff hfaults]
      refine ⟨fun hrunning => .inr (.inl ⟨rfl, hrunning⟩), ?_⟩
      rintro (⟨data, hcall, -⟩ | ⟨-, hrunning⟩ | ⟨fds, ms, hcall, -⟩)
      · cases hcall
      · exact hrunning
      · cases hcall
  | poll fds ms =>
      rw [blocks_poll_iff hfaults]
      refine ⟨fun hsilent => .inr (.inr ⟨fds, ms, rfl, hsilent⟩), ?_⟩
      rintro (⟨data, hcall, -⟩ | ⟨hcall, -⟩ | ⟨fds', ms', hcall, hsilent⟩)
      · cases hcall
      · cases hcall
      · cases hcall
        exact hsilent
  | read s size =>
      obtain ⟨hsize, hreadable⟩ := hread s size rfl
      exact hends (not_blocks_read hsize hreadable) nofun nofun nofun
  | closeStdin =>
      exact hends (not_blocks_of_answers .closedStdin trivial nofun) nofun nofun nofun
  | clock => exact hends (not_blocks_of_answers .clock trivial nofun) nofun nofun nofun
  | kill => exact hends (not_blocks_of_answers .killed trivial nofun) nofun nofun nofun
  | allocate size =>
      exact hends (not_blocks_of_answers (@Answers.memory _ _ _ _ true nofun) trivial nofun)
        nofun nofun nofun
  | closeOutput =>
      exact hends (not_blocks_of_answers .closedOutput trivial nofun) nofun nofun nofun

end Blocks

/-! ## Where the two machines are blocked -/

namespace Subprocess

/-- The sources that the loop over `watched` is still to read. -/
def due : Parent → List Stream
  | .draining _ s todo => s :: todo
  | _ => []

theorem due_writeAll (sp : Subprocess) (written : Nat) : due (sp.writeAll written) = [] := by
  rcases sp.writeAll_cases written with h | h <;> rw [h] <;> rfl

theorem due_whileOpen (c : Collect) : due (whileOpen c) = [] := by
  unfold whileOpen
  split
  · rfl
  · rfl

theorem due_drainNext (c : Collect) (todo : List Stream) : due (drainNext c todo) = todo := by
  cases todo with
  | nil => exact due_whileOpen c
  | cons s todo => rfl

theorem due_drained {c : Collect} {s : Stream} {todo : List Stream} {r : Reply} {p' : Parent}
    (hdrained : drainOnce c s todo r = some p') :
    due p' = todo ∨ r = .failed .eintr ∧ due p' = s :: todo := by
  unfold drainOnce at hdrained
  split at hdrained
  · cases hdrained
    exact .inl (due_drainNext _ todo)
  · cases hdrained
    exact .inl (due_drainNext _ todo)
  · cases hdrained
    exact .inr ⟨rfl, rfl⟩
  · cases hdrained
    exact .inl (due_drainNext _ todo)
  · cases hdrained

theorem announces (sp : Subprocess) : Announces sp.Moves sp.InOrder due := by
  intro p c r p' horder hmove s hs
  cases branch_of_moves hmove with
  | wrote written n => simp [due_writeAll] at hs
  | armed now => simp [due_whileOpen] at hs
  | checked col now =>
      unfold checkDeadline at hs
      split at hs <;> simp [due] at hs
  | pollInterrupted col ms => simp [due_whileOpen] at hs
  | ready col ms revents =>
      rw [due_drainNext] at hs
      exact .inr ⟨_, _, revents, rfl, rfl, .inl (List.mem_filter.mp hs).2⟩
  | drained col t todo r p' hdrained =>
      left
      rcases due_drained hdrained with hnext | ⟨rfl, hagain⟩
      · rw [hnext] at hs
        refine ⟨List.mem_cons_of_mem t hs, fun size hcall => ?_⟩
        cases hcall
        exact ((List.nodup_cons.mp horder.1).1 hs).elim
      · rw [hagain] at hs
        exact ⟨hs, fun _ _ => rfl⟩
  | _ => simp [due] at hs

theorem ne_nil_of_pending {sp : Subprocess} {p : Parent} {data : Bytes} (horder : sp.InOrder p)
    (hpending : sp.pending p = some (.write data)) : data ≠ [] := by
  cases p with
  | feeding written =>
      cases hpending
      have hmore : written < sp.stdinData.length := horder
      intro hnone
      have hlength := List.drop_eq_nil_iff.mp hnone
      omega
  | _ => cases hpending

theorem due_of_pending {sp : Subprocess} {p : Parent} {s : Stream} {size : Nat}
    (hpending : sp.pending p = some (.read s size)) : 0 < size ∧ s ∈ due p := by
  cases p with
  | draining c t todo =>
      cases hpending
      exact ⟨by decide, List.mem_cons_self⟩
  | _ => cases hpending

end Subprocess

namespace CCommand

/-- The pipe, between a poll that reported it and the read. -/
def due : CParent → List Stream
  | .clocking _ (.ready _) | .reading _ => [.out]
  | _ => []

theorem due_writeLoop (cmd : CCommand) (written : Nat) : due (cmd.writeLoop written) = [] := by
  unfold writeLoop
  split <;> rfl

theorem due_loopHead (cmd : CCommand) (c : CCollect) : due (cmd.loopHead c) = [] := by
  unfold loopHead
  split
  · rfl
  · rfl

theorem due_keepChunk (cmd : CCommand) (c : CCollect) (chunk : Bytes) :
    due (cmd.keepChunk c chunk) = [] := by
  unfold keepChunk
  split
  · exact cmd.due_loopHead c
  · split
    · rfl
    · exact cmd.due_loopHead _

theorem due_afterPoll {cmd : CCommand} {c : CCollect} {ready : Reply} {p' : CParent}
    (hafter : cmd.afterPoll c ready = some p') (col : CCollect) :
    due p' = [] ∨ due p' = due (.clocking col ready) := by
  unfold afterPoll at hafter
  split at hafter
  · cases hafter
    exact .inl (cmd.due_loopHead c)
  · cases hafter
    exact .inl rfl
  · cases hafter
    left
    split
    · rfl
    · exact cmd.due_loopHead c
  · cases hafter
    exact .inr rfl
  · cases hafter

theorem announces (cmd : CCommand) : Announces cmd.Moves cmd.InOrder due := by
  intro p c r p' horder hmove s hs
  cases branch_of_moves hmove with
  | wrote written n => simp [due_writeLoop] at hs
  | allocated start ok => simp [due_loopHead] at hs
  | ready col ms revents =>
      refine .inr ⟨_, _, revents, rfl, rfl, .inr ?_⟩
      rw [List.mem_singleton.mp hs]
  | clocked col answer t p' hafter =>
      left
      rcases due_afterPoll hafter col with hnone | hsame
      · simp [hnone] at hs
      · rw [hsame] at hs
        exact ⟨hs, fun size hcall => by cases hcall⟩
  | got col b bs => simp [due_keepChunk] at hs
  | readInterrupted col => simp [due_loopHead] at hs
  | grown col chunk next => simp [due_loopHead] at hs
  | notGrown col chunk next => simp [due_loopHead] at hs
  | _ => simp [due] at hs

theorem ne_nil_of_pending {cmd : CCommand} {p : CParent} {data : Bytes} (horder : cmd.InOrder p)
    (hpending : cmd.pending p = some (.write data)) : data ≠ [] := by
  cases p with
  | feeding written =>
      cases hpending
      have hmore : written < cmd.payload.length := horder
      intro hnone
      have hlength := List.drop_eq_nil_iff.mp hnone
      omega
  | _ => cases hpending

theorem due_of_pending {cmd : CCommand} {p : CParent} {s : Stream} {size : Nat}
    (hpending : cmd.pending p = some (.read s size)) : 0 < size ∧ s ∈ due p := by
  cases p with
  | reading c =>
      cases hpending
      exact ⟨by decide, List.mem_cons_self⟩
  | _ => cases hpending

/-- A poll is for a positive number of milliseconds, and a million of them at most. -/
def Paced : CParent → Prop
  | .polling _ remaining => 0 < remaining ∧ remaining ≤ 1000000
  | _ => True

theorem paced_loopHead (cmd : CCommand) (c : CCollect) : Paced (cmd.loopHead c) := by
  unfold loopHead
  split
  · trivial
  · rename_i hleft
    constructor <;> omega

theorem paced_keepChunk (cmd : CCommand) (c : CCollect) (chunk : Bytes) :
    Paced (cmd.keepChunk c chunk) := by
  unfold keepChunk
  split
  · exact cmd.paced_loopHead c
  · split
    · trivial
    · exact cmd.paced_loopHead _

theorem paced_afterPoll {cmd : CCommand} {c : CCollect} {ready : Reply} {p' : CParent}
    (hafter : cmd.afterPoll c ready = some p') : Paced p' := by
  unfold afterPoll at hafter
  split at hafter
  · cases hafter
    exact cmd.paced_loopHead c
  · cases hafter
    trivial
  · cases hafter
    split
    · trivial
    · exact cmd.paced_loopHead c
  · cases hafter
    trivial
  · cases hafter

theorem paced_writeLoop (cmd : CCommand) (written : Nat) : Paced (cmd.writeLoop written) := by
  unfold writeLoop
  split <;> trivial

/-- Whatever the kernel replies, and whatever went before. -/
theorem paced_moves {cmd : CCommand} {p p' : CParent} {c : Call} {r : Reply}
    (hmove : cmd.Moves p c r p') : Paced p' := by
  cases branch_of_moves hmove with
  | wrote written n => exact cmd.paced_writeLoop (written + n)
  | allocated start ok => exact cmd.paced_loopHead _
  | clocked col answer t p' hafter => exact paced_afterPoll hafter
  | got col b bs => exact cmd.paced_keepChunk col _
  | readInterrupted col => exact cmd.paced_loopHead col
  | grown col chunk next => exact cmd.paced_loopHead _
  | notGrown col chunk next => exact cmd.paced_loopHead _
  | _ => trivial

theorem paced_run {cmd : CCommand} {B : Behaviour} {capacity clock : Nat} {faults : Bool}
    {ls : List Label} {x : CParent × World B.State}
    (hrun : Runs (cmd.Sys capacity faults B) (cmd.initial B clock) ls x) : Paced x.1 := by
  refine @Runs.invariant _ _ _ (fun z => Paced z.1) _ _ _ hrun (cmd.paced_writeLoop 0) ?_
  intro a b l hpaced hstep
  cases hstep with
  | parent hmove _ => exact paced_moves hmove
  | child _ _ => exact hpaced
  | die _ _ => exact hpaced
  | tick _ => exact hpaced

theorem poll_limit {cmd : CCommand} {p : CParent} {fds : List Stream} {ms : Int} (h : Paced p)
    (hpending : cmd.pending p = some (.poll fds ms)) : 0 ≤ ms := by
  cases p with
  | polling c remaining =>
      cases hpending
      obtain ⟨hpos, hle⟩ := h
      have hwhole := @wrap32_eq_iff remaining (by omega)
      rw [hwhole.mpr (by omega)]
      omega
  | _ => cases hpending

end CCommand

/-- Where polls tell the truth and no call fails but by a signal, a runner is blocked only in a
write to a stdin pipe that is full and has a reader, in the wait for a child that is running,
and, the C++ one, in a poll with a negative timeout for streams that cannot be read. -/
theorem blocked_only (capacity : Nat) (B : Behaviour) (clock : Nat) (ls : List Label)
    (w : World B.State) (c : Call) :
    (∀ (sp : Subprocess) (p : Parent),
      Runs (Guarded (sp.Sys capacity false B) (Honest (sp.setting capacity false)))
        (sp.initial B clock) ls (p, w) → sp.pending p = some c →
      (w.Blocks (sp.setting capacity false) c ↔
        w.BlocksWrite (sp.setting capacity false) (some c) ∨ c = .waitpid ∧ w.status = none ∨
          w.BlocksPoll (sp.setting capacity false) c)) ∧
    ∀ (cmd : CCommand) (p : CParent),
      Runs (Guarded (cmd.Sys capacity false B) (Honest (CCommand.setting capacity false)))
        (cmd.initial B clock) ls (p, w) → cmd.pending p = some c →
      (w.Blocks (CCommand.setting capacity false) c ↔
        w.BlocksWrite (CCommand.setting capacity false) (some c) ∨
          c = .waitpid ∧ w.status = none) := by
  constructor
  · intro sp p hrun hpending
    obtain ⟨horder, hreadable⟩ := readable_run sp.announces (fun _ _ _ _ => sp.frugal.keeps)
      (sp.inOrder_writeAll 0) (sp.due_writeAll 0) hrun
    refine blocks_iff rfl ?_ ?_
    · rintro data rfl
      exact Subprocess.ne_nil_of_pending horder hpending
    · rintro s size rfl
      obtain ⟨hsize, hdue⟩ := Subprocess.due_of_pending hpending
      exact ⟨hsize, hreadable s hdue⟩
  · intro cmd p hrun hpending
    obtain ⟨horder, hreadable⟩ := readable_run cmd.announces (fun _ _ _ _ => cmd.frugal.keeps)
      (cmd.inOrder_writeLoop 0) (cmd.due_writeLoop 0) hrun
    -- its polls have a timeout, so the third case does not occur
    have hlimit : ¬ w.BlocksPoll (CCommand.setting capacity false) c := by
      rintro ⟨fds, ms, rfl, hnegative, -⟩
      have hms := CCommand.poll_limit (CCommand.paced_run hrun.unguard) hpending
      omega
    have hcases := @blocks_iff (CCommand.setting capacity false) B w c rfl
      (by
        rintro data rfl
        exact CCommand.ne_nil_of_pending horder hpending)
      (by
        rintro s size rfl
        obtain ⟨hsize, hdue⟩ := CCommand.due_of_pending hpending
        exact ⟨hsize, hreadable s hdue⟩)
    rw [hcases, or_iff_left hlimit]

/-- A payload of two bytes. -/
def twoBytes : Subprocess := (Subprocess.ofProgram []).setStdinData [97, 98]

/-- The world after the first of them, with a child that does nothing. -/
def oneByteFed : World (List Action) := (World.initial [] 0).feed [97]

/-- In a pipe for one byte, there is no room for the second one.  And where a child is given
2^31 ms, the first poll is for -2147483648 of them. -/
theorem blocked_only_two_bytes :
    oneByteFed.Blocks (twoBytes.setting 1 false) (.write [98]) ∧
      ((World.initial [] 0).hangUp : World (List Action)).Blocks (longWait.setting 1 false)
        (.poll [.out] (-2147483648)) := by
  constructor
  · have hwrote : twoBytes.Moves (.feeding 0) (.write [97, 98]) (.wrote 1) (.feeding 1) :=
      ⟨rfl, rfl⟩
    have hans : Answers (twoBytes.setting 1 false) (World.initial [] 0 : World (List Action))
        (.write [97, 98]) (.wrote 1) oneByteFed := .wrote rfl (by decide) (by decide) (by decide)
    have hrun : Runs
        (Guarded (twoBytes.Sys 1 false (.script [])) (Honest (twoBytes.setting 1 false)))
        (twoBytes.initial (.script []) 0) [.parent (.write [97, 98]) (.wrote 1)]
        (.feeding 1, oneByteFed) := .single ⟨.parent hwrote hans, trivial⟩
    exact ((blocked_only 1 (.script []) 0 _ oneByteFed (.write [98])).1 twoBytes _ hrun rfl).mpr
      (.inl ⟨[98], rfl, by decide, rfl, by decide⟩)
  · have hclosed : longWait.Moves .closing .closeStdin .done .arming := ⟨rfl, rfl⟩
    have harmed : longWait.Moves .arming .clock (.time 0)
        (.checking (longWait.collectStart 0)) := ⟨rfl, rfl⟩
    have hchecked : longWait.Moves (.checking (longWait.collectStart 0)) .clock (.time 0)
        (.polling (longWait.collectStart 0) 2147483648) := ⟨rfl, rfl⟩
    have hrun : Runs
        (Guarded (longWait.Sys 1 false (.script [])) (Honest (longWait.setting 1 false)))
        (longWait.initial (.script []) 0)
        [.parent .closeStdin .done, .parent .clock (.time 0), .parent .clock (.time 0)]
        (.polling (longWait.collectStart 0) 2147483648, (World.initial [] 0).hangUp) :=
      .tail (.tail (.single ⟨.parent hclosed .closedStdin, trivial⟩)
        ⟨.parent harmed .clock, trivial⟩) ⟨.parent hchecked .clock, trivial⟩
    -- the child has its stdout, and has written nothing to it
    have hsilent : ¬ ((World.initial [] 0).hangUp : World (List Action)).Readable
        (longWait.setting 1 false) .out := by
      rintro (hbytes | hnone)
      · exact hbytes rfl
      · exact hnone ⟨.stdout, rfl, rfl⟩
    refine ((blocked_only 1 (.script []) 0 _ _ _).1 longWait _ hrun rfl).mpr
      (.inr (.inr ⟨[.out], -2147483648, rfl, by decide, fun s hs => ?_⟩))
    rw [List.mem_singleton.mp hs]
    exact hsilent

end Ftl.Process
