/-
  Process/Collection.lean --- what the collecting loops guarantee about bytes and
  about the final waitpid.

      collect_conserves     nothing that the child writes is lost, repeated,
                            reordered or moved between the streams
      wait_is_bounded       the final waitpid is bounded as long as a running
                            child keeps one of its outputs open
      wait_is_unbounded     and is not bounded otherwise

  The first two are read off invariants of the abstract runner in a world
  (`Conserves`, `EndedDry`, `KillAgrees`); `Subprocess.abstract_run` and
  `CCommand.abstract_run` carry a run of a machine to a run of the runner.
-/
import Ftl.Process.Runner

set_option autoImplicit false

namespace Ftl.Process

open Function (update)
open Foundation (Runs Guarded)

/-! ## Runs of the two programs -/

/-- The world of a `Subprocess`. -/
def Subprocess.setting (sp : Subprocess) (capacity : Nat) (faults : Bool) : Setting where
  capacity := capacity
  split := sp.splitOutput
  faults := faults

/-- The world of `ftl_run_command`: stderr always shares the output pipe. -/
def CCommand.setting (capacity : Nat) (faults : Bool) : Setting where
  capacity := capacity
  split := false
  faults := faults

section Systems

variable (capacity : Nat) (faults : Bool) (B : Behaviour) (clock : Nat)

/-- One step of `run()` with its child. -/
abbrev Subprocess.Sys (sp : Subprocess) :
    Parent × World B.State → Label → Parent × World B.State → Prop :=
  Step (sp.setting capacity faults) B sp.Moves

/-- One step of `ftl_run_command` with its child. -/
abbrev CCommand.Sys (cmd : CCommand) :
    CParent × World B.State → Label → CParent × World B.State → Prop :=
  Step (CCommand.setting capacity faults) B cmd.Moves

/-- `run()` right after the fork. -/
def Subprocess.initial (sp : Subprocess) : Parent × World B.State :=
  (sp.start, World.initial B.start clock)

/-- `ftl_run_command` right after the fork. -/
def CCommand.initial (cmd : CCommand) : CParent × World B.State :=
  (cmd.start, World.initial B.start clock)

variable {capacity faults B clock}

/-- A run of the C++ machine is a run of the runner it tracks. -/
theorem Subprocess.abstract_run {sp : Subprocess} {ls : List Label} {p : Parent}
    {w : World B.State} (h : Runs (sp.Sys capacity faults B) (sp.initial B clock) ls (p, w)) :
    ∃ v, Runs (Step (sp.setting capacity faults) B Runner.Step)
        (Runner.fresh sp.stdinData sp.watched, World.initial B.start clock) ls (v, w) ∧
      sp.Tracks p v :=
  runs_of_simulates Subprocess.tracks_step sp.tracks_start h

/-- A run of the C machine is a run of the runner it tracks. -/
theorem CCommand.abstract_run {cmd : CCommand} {ls : List Label} {p : CParent}
    {w : World B.State} (h : Runs (cmd.Sys capacity faults B) (cmd.initial B clock) ls (p, w)) :
    ∃ v, Runs (Step (CCommand.setting capacity faults) B Runner.Step)
        (Runner.fresh cmd.payload CCommand.watched, World.initial B.start clock) ls (v, w) ∧
      cmd.Tracks p v :=
  runs_of_simulates CCommand.tracks_step cmd.tracks_start h

/-- A schedule that can be played against a scripted child, with no call failing
other than by a signal, is a run of `run()`. -/
theorem Subprocess.play (sp : Subprocess) (capacity : Nat) (moves : List Action)
    (ts : List Turn) (ok P : Parent × World (List Action) → Bool)
    (h : (perform (sp.setting capacity false) sp.pending sp.advance ok
      (sp.start, World.initial moves 0) ts).any P = true) :
    ∃ ls y, Runs (Guarded (sp.Sys capacity false (.script moves))
        fun l z => (¬ l.readFails ∧ ¬ l.pollFails) ∧ ok z = true)
      (sp.initial (.script moves) 0) ls y ∧ P y = true :=
  perform_reaches moves h

theorem CCommand.play (cmd : CCommand) (capacity : Nat) (moves : List Action)
    (ts : List Turn) (ok P : CParent × World (List Action) → Bool)
    (h : (perform (CCommand.setting capacity false) cmd.pending cmd.advance ok
      (cmd.start, World.initial moves 0) ts).any P = true) :
    ∃ ls y, Runs (Guarded (cmd.Sys capacity false (.script moves))
        fun l z => (¬ l.readFails ∧ ¬ l.pollFails) ∧ ok z = true)
      (cmd.initial (.script moves) 0) ls y ∧ P y = true :=
  perform_reaches moves h

end Systems

/-! ## Invariants of the runner -/

section Invariants

variable {S : Setting} {B : Behaviour}

/-- For every stream, what has been collected followed by what is still in the
pipe is what the child wrote to it. -/
def Conserves (x : Runner × World B.State) : Prop :=
  ∀ s, x.1.sink s ++ x.2.pipe s = x.2.wrote s

theorem conserves_step {x y : Runner × World B.State} {l : Label} (h : Conserves x)
    (hstep : Step S B Runner.Step x l y) : Conserves y := by
  cases hstep with
  | parent hrunner hans =>
      cases hans with
      | @bytes s size bs rest hne hlen hpipe =>
          rw [Runner.eq_of_bytes hne hrunner]
          intro t
          have ht := h t
          by_cases hts : t = s
          · subst hts
            rw [hpipe] at ht
            simpa [World.drain] using ht
          · simpa [World.drain, hts] using ht
      | endOfFile =>
          rw [Runner.eq_of_endOfFile hrunner]
          exact h
      | _ => cases hrunner <;> exact h
  | @child x w _ _ _ _ hacts =>
      cases hacts with
      | @write fd s bs =>
          intro t
          have ht : x.sink t ++ w.pipe t = w.wrote t := h t
          by_cases hts : t = s
          · subst hts
            simp [World.become, World.emit, ← ht]
          · simpa [World.become, World.emit, hts] using ht
      | _ => exact h
  | die => exact h
  | tick => exact h

/-- A stream that is no longer listened to is empty and has no writer left, so nothing comes
behind the end of file that the runner has read.  A read that fails breaks this. -/
def EndedDry (S : Setting) (x : Runner × World B.State) : Prop :=
  ∀ s, x.1.listening s = false → x.2.pipe s = [] ∧ ¬ x.2.HasWriter S s

theorem World.hasWriter_of_terminate {w : World B.State} (st : Int)
    (kept : ChildFd → Bool) {s : Stream} (h : (w.terminate st kept).HasWriter S s) :
    w.HasWriter S s := by
  obtain ⟨fd, hholds, hroute⟩ := h
  refine ⟨fd, ?_, hroute⟩
  simp only [World.terminate, Bool.and_eq_true] at hholds
  exact hholds.1

theorem World.hasWriter_of_release {w : World B.State} {fd : ChildFd} {s : Stream}
    (h : (w.release fd).HasWriter S s) : w.HasWriter S s := by
  obtain ⟨fd', hholds, hroute⟩ := h
  have hne : fd' ≠ fd := by
    rintro rfl
    simp [World.release] at hholds
  exact ⟨fd', by simpa [World.release, hne] using hholds, hroute⟩

/-- Where the pipes stay as they are and no writer is added. -/
theorem EndedDry.of_writers {v : Runner} {w w' : World B.State} (h : EndedDry S (v, w))
    (hpipe : w'.pipe = w.pipe) (hwriter : ∀ s, w'.HasWriter S s → w.HasWriter S s) :
    EndedDry S (v, w') := by
  intro s hs
  obtain ⟨hdry, hnone⟩ := h s hs
  exact ⟨by rw [hpipe, hdry], fun hw => hnone (hwriter s hw)⟩

/-- What the parent does keeps ended streams dry, if no poll and no read fails. -/
theorem endedDry_parent {v v' : Runner} {w w' : World B.State} {c : Call} {r : Reply}
    (hread : ¬ (Label.parent c r).readFails) (hpoll : ¬ (Label.parent c r).pollFails)
    (h : EndedDry S (v, w)) (hrunner : v.Step c r v') (hans : Answers S w c r w') :
    EndedDry S (v', w') := by
  cases hans with
  | @bytes s size bs rest hne hlen hpipe =>
      rw [Runner.eq_of_bytes hne hrunner]
      intro t ht
      obtain ⟨hdry, hwriter⟩ := h t ht
      by_cases hts : t = s
      · subst hts
        rw [hpipe] at hdry
        simp [hne] at hdry
      · exact ⟨by simpa [World.drain, hts] using hdry, hwriter⟩
  | @endOfFile s size hempty hnone =>
      rw [Runner.eq_of_endOfFile hrunner]
      intro t ht
      by_cases hts : t = s
      · subst hts
        exact ⟨hempty, hnone⟩
      · exact h t (by simpa [hts] using ht)
  | fault _ _ hne =>
      cases hrunner with
      | interrupted => exact h
      | giveUp => exact h
      | deaf => exact (hpoll hne).elim
      | failed => exact (hread hne).elim
      | waitFailed => exact h
  | interrupted =>
      rw [Runner.eq_of_interrupted hrunner]
      exact h
  | _ => cases hrunner <;> exact h

/-- Without a failing poll or read, only end of file ends a stream. -/
theorem endedDry_step {x y : Runner × World B.State} {l : Label}
    (hread : ¬ l.readFails) (hpoll : ¬ l.pollFails) (h : EndedDry S x)
    (hstep : Step S B Runner.Step x l y) : EndedDry S y := by
  cases hstep with
  | parent hrunner hans => exact endedDry_parent hread hpoll h hrunner hans
  | child _ hacts =>
      cases hacts with
      | @write fd s bs hholds hroute =>
          intro t ht
          obtain ⟨hdry, hwriter⟩ := h t ht
          have hts : t ≠ s := by
            rintro rfl
            exact hwriter ⟨fd, hholds, hroute⟩
          exact ⟨by simpa [World.become, World.emit, hts] using hdry, hwriter⟩
      | close => exact h.of_writers rfl fun s hw => World.hasWriter_of_release hw
      | @exit st kept => exact h.of_writers rfl fun s hw => World.hasWriter_of_terminate st kept hw
      | _ => exact h
  | @die _ _ kept => exact h.of_writers rfl fun s hw => World.hasWriter_of_terminate 9 kept hw
  | tick => exact h

/-- The runner knows whether it has killed the child. -/
def KillAgrees (x : Runner × World B.State) : Prop :=
  x.1.sentKill = x.2.killed

theorem killAgrees_step {x y : Runner × World B.State} {l : Label} (h : KillAgrees x)
    (hstep : Step S B Runner.Step x l y) : KillAgrees y := by
  cases hstep with
  | parent hrunner hans =>
      cases hans with
      | killed => cases hrunner; rfl
      | _ => cases hrunner <;> exact h
  | child _ hacts => cases hacts <;> exact h
  | die => exact h
  | tick => exact h

end Invariants

/-! ## Bytes -/

/-- The sinks of a run that has not been left by an exception. -/
def Parent.sinks : Parent → Option (Stream → Bytes)
  | .feeding _ | .closing | .arming => some fun _ => []
  | .checking c | .polling c _ | .draining c _ _ | .killing c | .waiting c =>
      some c.result.sink
  | .returned r _ => some r.sink
  | .threw _ => none

section Systems

variable {capacity : Nat} {faults : Bool} {B : Behaviour} {clock : Nat}

theorem Subprocess.tracks_sinks {sp : Subprocess} {p : Parent} {v : Runner}
    {sinks : Stream → Bytes} (htracks : sp.Tracks p v) (hsinks : p.sinks = some sinks) :
    v.sink = sinks := by
  cases p with
  | feeding | closing | arming => cases htracks; cases hsinks; rfl
  | checking | polling | draining | killing | waiting =>
      obtain ⟨rfl, -⟩ := htracks
      cases hsinks
      rfl
  | returned => cases hsinks; exact htracks.1
  | threw => simp [Parent.sinks] at hsinks

theorem Subprocess.endedDry_initial (sp : Subprocess) :
    EndedDry (sp.setting capacity faults)
      (Runner.fresh sp.stdinData sp.watched, World.initial B.start clock) := by
  intro s hs
  refine ⟨rfl, ?_⟩
  rintro ⟨fd, -, hroute⟩
  cases s with
  | out => simp [Runner.fresh, Subprocess.watched] at hs
  | err =>
      have hmerged : sp.splitOutput = false := hs
      cases fd <;> simp [Subprocess.setting, Setting.route, hmerged] at hroute

theorem CCommand.endedDry_initial (cmd : CCommand) :
    EndedDry (CCommand.setting capacity faults)
      (Runner.fresh cmd.payload CCommand.watched, World.initial B.start clock) := by
  intro s hs
  refine ⟨rfl, ?_⟩
  rintro ⟨fd, -, hroute⟩
  cases s with
  | out => simp [Runner.fresh, CCommand.watched] at hs
  | err => cases fd <;> simp [CCommand.setting, Setting.route] at hroute

theorem Subprocess.threw_of_pollFails {sp : Subprocess} {ls : List Label}
    {x : Parent × World B.State}
    (hrun : Runs (sp.Sys capacity faults B) (sp.initial B clock) ls x)
    (hfails : ∃ l ∈ ls, l.pollFails) : ∃ e, x.1 = .threw e := by
  induction hrun with
  | refl => simp at hfails
  | @tail t u ms l _ hlast ih =>
      by_cases hbefore : ∃ l ∈ ms, l.pollFails
      · obtain ⟨e, he⟩ := ih hbefore
        cases hlast with
        | parent hmove =>
            simp only at he
            subst he
            simp [Moves, pending] at hmove
        | child | die | tick => exact ⟨e, he⟩
      · -- the last step is the failing poll
        have hl : l.pollFails := by
          obtain ⟨m, hm, hmf⟩ := hfails
          rcases List.mem_append.mp hm with hm | hm
          · exact absurd ⟨m, hm, hmf⟩ hbefore
          · rwa [← List.mem_singleton.mp hm]
        cases hlast with
        | parent hmove =>
            cases branch_of_moves hmove with
            | pollInterrupted c ms => exact (hl rfl).elim
            | pollFailed c ms e _ => exact ⟨e, rfl⟩
            | _ => exact hl.elim
        | child | die | tick => exact hl.elim

/-- Where a run of `run()` without a failing read has got to, unless it was left by an
exception: its runner has heard every ended stream out and knows of its kill. -/
theorem Subprocess.heard_run {sp : Subprocess} {ls : List Label} {p : Parent}
    {w : World B.State}
    (hrun : Runs (sp.Sys capacity faults B) (sp.initial B clock) ls (p, w))
    (hread : ∀ l ∈ ls, ¬ l.readFails) (hinside : ∀ e, p ≠ .threw e) :
    ∃ v, sp.Tracks p v ∧ EndedDry (sp.setting capacity faults) (v, w) ∧
      KillAgrees (v, w) := by
  obtain ⟨v, hruns, htracks⟩ := Subprocess.abstract_run hrun
  have hlabels : ∀ l ∈ ls, ¬ l.readFails ∧ ¬ l.pollFails := by
    intro l hl
    refine ⟨hread l hl, fun hfails => ?_⟩
    obtain ⟨e, he⟩ := Subprocess.threw_of_pollFails hrun ⟨l, hl, hfails⟩
    exact hinside e he
  refine ⟨v, htracks, ?_, hruns.invariant rfl killAgrees_step⟩
  exact hruns.invariant_of (fun l => ¬ l.readFails ∧ ¬ l.pollFails) sp.endedDry_initial
    hlabels fun hq hi hs => endedDry_step hq.1 hq.2 hi hs

/-- The same for `ftl_run_command`, which a failing poll does not leave. -/
theorem CCommand.heard_run {cmd : CCommand} {ls : List Label} {p : CParent}
    {w : World B.State}
    (hrun : Runs (cmd.Sys capacity faults B) (cmd.initial B clock) ls (p, w))
    (hlabels : ∀ l ∈ ls, ¬ l.readFails ∧ ¬ l.pollFails) :
    ∃ v, cmd.Tracks p v ∧ EndedDry (CCommand.setting capacity faults) (v, w) ∧
      KillAgrees (v, w) := by
  obtain ⟨v, hruns, htracks⟩ := CCommand.abstract_run hrun
  refine ⟨v, htracks, ?_, hruns.invariant rfl killAgrees_step⟩
  exact hruns.invariant_of (fun l => ¬ l.readFails ∧ ¬ l.pollFails) cmd.endedDry_initial
    hlabels fun hq hi hs => endedDry_step hq.1 hq.2 hi hs

/-- Nothing the child writes is lost, repeated, reordered or moved between the
streams.  At every point of a run, what a sink holds followed by what is still in
its pipe is what the child wrote; so a run that neither timed out nor failed to
read returns all of it, and one that timed out returns a prefix. -/
theorem collect_conserves (sp : Subprocess) {ls : List Label} {p : Parent}
    {w : World B.State}
    (hrun : Runs (sp.Sys capacity faults B) (sp.initial B clock) ls (p, w)) :
    (∀ sinks, p.sinks = some sinks → ∀ s, sinks s ++ w.pipe s = w.wrote s) ∧
    (∀ r reaped, p = .returned r reaped → r.timedOut = false →
      (∀ l ∈ ls, ¬ l.readFails) →
      r.output = w.wrote .out ∧ r.errorOutput = w.wrote .err) ∧
    (∀ r reaped, p = .returned r reaped → r.timedOut = true →
      r.output <+: w.wrote .out ∧ r.errorOutput <+: w.wrote .err) := by
  obtain ⟨v, hruns, htracks⟩ := Subprocess.abstract_run hrun
  have hconserves : Conserves (v, w) := hruns.invariant (fun _ => rfl) conserves_step
  have hpoint : ∀ sinks, p.sinks = some sinks → ∀ s, sinks s ++ w.pipe s = w.wrote s := by
    intro sinks hsinks s
    rw [← Subprocess.tracks_sinks htracks hsinks]
    exact hconserves s
  refine ⟨hpoint, ?_, ?_⟩
  · rintro r reaped rfl hto hread
    obtain ⟨v', ⟨-, hkill, -, hstop⟩, hdry, -⟩ :=
      Subprocess.heard_run hrun hread fun e h => by cases h
    have hended : ∀ s, w.pipe s = [] := by
      rcases hstop with hkilled | hdeaf
      · rw [hkill, hto] at hkilled
        cases hkilled
      · exact fun s => (hdry s (hdeaf s)).1
    have hout := hpoint r.sink rfl .out
    have herr := hpoint r.sink rfl .err
    rw [hended, List.append_nil] at hout herr
    exact ⟨hout, herr⟩
  · rintro r reaped rfl -
    exact ⟨⟨_, hpoint r.sink rfl .out⟩, ⟨_, hpoint r.sink rfl .err⟩⟩

/-- A run with split output: the child writes one byte to each of its outputs and
exits. -/
def splitRun : Subprocess := (Subprocess.ofProgram []).setSplitOutput true

/-- What that child does. -/
def twoWrites : List Action :=
  [.write .stdout [104], .write .stderr [33], .exit 0 fun _ => false]

/-- Its schedule: both bytes are read after the child is gone, then both ends of
file. -/
def twoWritesSchedule : List Turn :=
  [.parent .done, .parent (.time 0), .child, .child, .child, .parent (.time 0),
    .parent (.failed .eintr), .parent (.time 0), .parent (.ready fun _ => true),
    .parent (.bytes [104]), .parent (.failed .eintr), .parent (.bytes [33]),
    .parent (.time 0), .parent (.ready fun _ => true), .parent (.bytes []),
    .parent (.bytes []), .parent (.status 0)]

theorem collect_conserves_split_run :
    ∃ ls r w, Runs (splitRun.Sys 4 false (.script twoWrites))
        (splitRun.initial (.script twoWrites) 0) ls (.returned r true, w) ∧
      w.wrote .out = [104] ∧ w.wrote .err = [33] ∧
      r.output = w.wrote .out ∧ r.errorOutput = w.wrote .err := by
  obtain ⟨ls, ⟨p, w⟩, hrun, hend⟩ := splitRun.play 4 twoWrites twoWritesSchedule
    (fun _ => true)
    (fun y => match y.1 with
      | .returned r true =>
          !r.timedOut && (y.2.wrote .out == [104]) && (y.2.wrote .err == [33])
      | _ => false)
    (by decide)
  split at hend
  · rename_i r hp
    simp only [Bool.and_eq_true, Bool.not_eq_true', beq_iff_eq] at hend
    obtain ⟨⟨hto, hout⟩, herr⟩ := hend
    simp only at hp
    subst hp
    have hread : ∀ l ∈ ls, ¬ l.readFails := hrun.guard_labels fun _ _ h => h.1.1
    obtain ⟨-, hall, -⟩ := collect_conserves splitRun hrun.unguard
    exact ⟨ls, r, w, hrun.unguard, hout, herr, hall r true rfl hto hread⟩
  · cases hend

/-! ## The final waitpid -/

/-- While the child itself runs, its family holds an output descriptor.  Then no stream of a
child that runs comes to its end, and the loops can only be left by a kill. -/
def KeepsOutput (S : Setting) (w : World B.State) : Prop :=
  w.status = none → ∃ s, w.HasWriter S s

/-- In the final `waitpid` of `collect`, once the deadline is past, the child has
terminated or SIGKILL has been sent. -/
def Subprocess.WaitBounded (x : Parent × World B.State) : Prop :=
  ∀ c, x.1 = .waiting c → c.deadline < x.2.clock →
    x.2.status.isSome = true ∨ x.2.killed = true

/-- The same for the final `waitpid` of `ftl_run_command`, whose deadline is
`timeout_ms` after `start`. -/
def CCommand.WaitBounded (cmd : CCommand) (x : CParent × World B.State) : Prop :=
  ∀ c, x.1 = .waiting c →
    (c.start.sec * 1000000000 + c.start.nsec : Int) + cmd.timeout * 1000000 < x.2.clock →
    x.2.status.isSome = true ∨ x.2.killed = true

/-- A runner that may stop, and has only stopped listening at end of file, waits
for a child that is dead or about to be. -/
theorem terminated_or_killed {S : Setting} {v : Runner} {w : World B.State}
    (hstop : v.MayStop) (hkill : KillAgrees (v, w)) (hdry : EndedDry S (v, w))
    (hkeeps : KeepsOutput S w) : w.status.isSome = true ∨ w.killed = true := by
  rcases hstop with hkilled | hdeaf
  · exact Or.inr (hkill.symm.trans hkilled)
  · left
    rw [Option.isSome_iff_ne_none]
    intro hrunning
    obtain ⟨s, hwriter⟩ := hkeeps hrunning
    exact (hdry s (hdeaf s)).2 hwriter

theorem keepsOutput_initial (S : Setting) :
    KeepsOutput S (World.initial B.start clock) := fun _ => ⟨.out, .stdout, rfl, rfl⟩

/-- The final waitpid of both runners is bounded in every run in which no read
fails (for the C runner: no read and no poll) and a running child keeps one of
its output descriptors open. -/
theorem wait_is_bounded (capacity : Nat) (faults : Bool) (B : Behaviour) (clock : Nat) :
    (∀ (sp : Subprocess) (ls : List Label) (x : Parent × World B.State),
      Runs (Guarded (sp.Sys capacity faults B) fun l y =>
          ¬ l.readFails ∧ KeepsOutput (sp.setting capacity faults) y.2)
        (sp.initial B clock) ls x →
      Subprocess.WaitBounded x) ∧
    (∀ (cmd : CCommand) (ls : List Label) (x : CParent × World B.State),
      Runs (Guarded (cmd.Sys capacity faults B) fun l y =>
          (¬ l.readFails ∧ ¬ l.pollFails) ∧
            KeepsOutput (CCommand.setting capacity faults) y.2)
        (cmd.initial B clock) ls x →
      cmd.WaitBounded x) := by
  constructor
  · rintro sp ls ⟨p, w⟩ hguarded c rfl -
    have hread : ∀ l ∈ ls, ¬ l.readFails := hguarded.guard_labels fun _ _ h => h.1
    have hkeeps : KeepsOutput (sp.setting capacity faults) w :=
      hguarded.guard_last (fun y => KeepsOutput (sp.setting capacity faults) y.2)
        (fun _ _ h => h.2) (keepsOutput_initial _)
    obtain ⟨v, htracks, hdry, hkill⟩ :=
      Subprocess.heard_run hguarded.unguard hread fun e h => by cases h
    exact terminated_or_killed htracks.2 hkill hdry hkeeps
  · rintro cmd ls ⟨p, w⟩ hguarded c rfl -
    have hlabels : ∀ l ∈ ls, ¬ l.readFails ∧ ¬ l.pollFails :=
      hguarded.guard_labels fun _ _ h => h.1
    have hkeeps : KeepsOutput (CCommand.setting capacity faults) w :=
      hguarded.guard_last (fun y => KeepsOutput (CCommand.setting capacity faults) y.2)
        (fun _ _ h => h.2) (keepsOutput_initial _)
    obtain ⟨v, htracks, hdry, hkill⟩ := CCommand.heard_run hguarded.unguard hlabels
    exact terminated_or_killed htracks.2.1 hkill hdry hkeeps

/-- A `Subprocess` with the defaults. -/
def bareRun : Subprocess := .ofProgram []

/-- A C command with the defaults. -/
def bareCommand : CCommand := { stdinData := none, timeoutMs := 0 }

/-- `KeepsOutput` as a check. -/
def keepsOutput {σ : Type} (S : Setting) (w : World σ) : Bool :=
  w.status.isSome || decide (w.HasWriter S .out)

theorem keepsOutput_sound {S : Setting} {w : World B.State} (h : keepsOutput S w = true) :
    KeepsOutput S w := by
  intro hrunning
  simp only [keepsOutput, hrunning, Option.isSome_none, Bool.false_or,
    decide_eq_true_eq] at h
  exact ⟨.out, h⟩

theorem wait_is_bounded_after_exit :
    (∃ ls c w, Runs (Guarded (bareRun.Sys 1 false (.script [.exit 0 fun _ => false]))
          fun l y => ¬ l.readFails ∧ KeepsOutput (bareRun.setting 1 false) y.2)
        (bareRun.initial (.script [.exit 0 fun _ => false]) 0) ls (.waiting c, w) ∧
      c.deadline < w.clock ∧ (w.status.isSome = true ∨ w.killed = true)) ∧
    (∃ ls c w, Runs (Guarded (bareCommand.Sys 1 false (.script [.exit 0 fun _ => false]))
          fun l y => (¬ l.readFails ∧ ¬ l.pollFails) ∧
            KeepsOutput (CCommand.setting 1 false) y.2)
        (bareCommand.initial (.script [.exit 0 fun _ => false]) 0) ls (.waiting c, w) ∧
      (c.start.sec * 1000000000 + c.start.nsec : Int) + bareCommand.timeout * 1000000
        < w.clock ∧
      (w.status.isSome = true ∨ w.killed = true)) := by
  obtain ⟨hrunner, hcommand⟩ :=
    wait_is_bounded 1 false (.script [.exit 0 fun _ => false]) 0
  constructor
  · obtain ⟨ls, ⟨p, w⟩, hrun, hend⟩ := bareRun.play 1 [.exit 0 fun _ => false]
      [.parent .done, .child, .parent (.time 0), .parent (.time 0),
        .parent (.ready fun _ => true), .parent (.bytes []), .tick 6000000000]
      (fun y => keepsOutput (bareRun.setting 1 false) y.2)
      (fun y => match y.1 with
        | .waiting c => decide (c.deadline < y.2.clock)
        | _ => false)
      (by decide)
    split at hend
    · rename_i c hp
      simp only at hp
      subst hp
      have hguarded := hrun.mono fun {a b l} h =>
        (⟨h.1, h.2.1.1, keepsOutput_sound h.2.2⟩ :
          Guarded _ (fun l y => ¬ l.readFails ∧
            KeepsOutput (bareRun.setting 1 false) y.2) a l b)
      have hlate : c.deadline < w.clock := of_decide_eq_true hend
      exact ⟨ls, c, w, hguarded, hlate, hrunner bareRun ls _ hguarded c rfl hlate⟩
    · cases hend
  · obtain ⟨ls, ⟨p, w⟩, hrun, hend⟩ := bareCommand.play 1 [.exit 0 fun _ => false]
      [.parent .done, .child, .parent (.time 0), .parent (.memory true),
        .parent (.ready fun _ => true), .parent (.time 0), .parent (.bytes []),
        .parent .done, .tick 6000000000]
      (fun y => keepsOutput (CCommand.setting 1 false) y.2)
      (fun y => match y.1 with
        | .waiting c =>
            decide ((c.start.sec * 1000000000 + c.start.nsec : Int) +
              bareCommand.timeout * 1000000 < y.2.clock)
        | _ => false)
      (by decide)
    split at hend
    · rename_i c hp
      simp only at hp
      subst hp
      have hguarded := hrun.mono fun {a b l} h =>
        (⟨h.1, h.2.1, keepsOutput_sound h.2.2⟩ :
          Guarded _ (fun l y => (¬ l.readFails ∧ ¬ l.pollFails) ∧
            KeepsOutput (CCommand.setting 1 false) y.2) a l b)
      have hlate := of_decide_eq_true hend
      exact ⟨ls, c, w, hguarded, hlate, hcommand bareCommand ls _ hguarded c rfl hlate⟩
    · cases hend

/-- A child that runs and has not been killed leaves the waitpid unbounded. -/
theorem waits_unboundedly {w : World B.State} (hrunning : w.status = none)
    (halive : w.killed = false) : ¬ (w.status.isSome = true ∨ w.killed = true) := by
  rw [hrunning, halive]
  simp

/-- A child that closes both outputs and goes on running. -/
def daemonMoves : List Action := [.close .stdout, .close .stderr]

/-- A child that closes both outputs and goes on running leaves both runners in
a waitpid that neither the deadline nor a kill bounds: after end of file nobody
looks at the clock any more. -/
theorem wait_is_unbounded :
    (∃ ls x, Runs (bareRun.Sys 1 false (.script daemonMoves))
        (bareRun.initial (.script daemonMoves) 0) ls x ∧ ¬ Subprocess.WaitBounded x) ∧
    (∃ ls x, Runs (bareCommand.Sys 1 false (.script daemonMoves))
        (bareCommand.initial (.script daemonMoves) 0) ls x ∧
      ¬ bareCommand.WaitBounded x) := by
  constructor
  · obtain ⟨ls, ⟨p, w⟩, hrun, hend⟩ := bareRun.play 1 daemonMoves
      [.parent .done, .child, .child, .parent (.time 0), .parent (.time 0),
        .parent (.ready fun _ => true), .parent (.bytes []), .tick 6000000000]
      (fun _ => true)
      (fun y => match y.1 with
        | .waiting c => decide (c.deadline < y.2.clock) && y.2.status.isNone && !y.2.killed
        | _ => false)
      (by decide)
    split at hend
    · rename_i c hp
      simp only [Bool.and_eq_true, decide_eq_true_eq, Bool.not_eq_true',
        Option.isNone_iff_eq_none] at hend
      obtain ⟨⟨hlate, hrunning⟩, halive⟩ := hend
      refine ⟨ls, (p, w), hrun.unguard, fun hbounded => ?_⟩
      exact waits_unboundedly hrunning halive (hbounded c hp hlate)
    · cases hend
  · obtain ⟨ls, ⟨p, w⟩, hrun, hend⟩ := bareCommand.play 1 daemonMoves
      [.parent .done, .child, .child, .parent (.time 0), .parent (.memory true),
        .parent (.ready fun _ => true), .parent (.time 0), .parent (.bytes []),
        .parent .done, .tick 6000000000]
      (fun _ => true)
      (fun y => match y.1 with
        | .waiting c =>
            decide ((c.start.sec * 1000000000 + c.start.nsec : Int) +
              bareCommand.timeout * 1000000 < y.2.clock) &&
              y.2.status.isNone && !y.2.killed
        | _ => false)
      (by decide)
    split at hend
    · rename_i c hp
      simp only [Bool.and_eq_true, decide_eq_true_eq, Bool.not_eq_true',
        Option.isNone_iff_eq_none] at hend
      obtain ⟨⟨hlate, hrunning⟩, halive⟩ := hend
      refine ⟨ls, (p, w), hrun.unguard, fun hbounded => ?_⟩
      exact waits_unboundedly hrunning halive (hbounded c hp hlate)
    · cases hend

end Systems

end Ftl.Process
