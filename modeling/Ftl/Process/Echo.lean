/-
  Process/Echo.lean --- feeding a child that answers while it is being fed.

  `cat` copies its stdin to its stdout, and both runners write the whole payload
  before they read the first byte of the answer.  So the answer has to fit into
  what lies between the parent's write and the parent's read: the stdin pipe, one
  byte in the hands of the child, and the stdout pipe.

      echo_goes_through_iff   no deadlock, and the answer is the payload, exactly
                              when the payload has at most 2 * capacity + 1 bytes
      echo_deadlocks          two pipes of 64 KiB and two bytes more

  The count is the invariant `Echoed`: every byte of the payload is in one place.
-/
import Ftl.Process.Feeding

set_option autoImplicit false

namespace Ftl.Process

open Function (update)
open Foundation (Runs)

/-! ## The child -/

/-- The states of `cat`. -/
inductive CatState where
  /-- in its loop, with these bytes still to be written -/
  | copying (carried : Bytes)
  /-- at end of file -/
  | leaving
  /-- after its exit -/
  | gone

/-- The moves of `cat` with a buffer of `chunk` bytes: read at most a buffer, write
all of it in as many writes as it takes, leave at end of file. -/
inductive CatMove (chunk : Nat) : CatState → Action → CatState → Prop
  | read {bs : Bytes} :
      bs ≠ [] → bs.length ≤ chunk → CatMove chunk (.copying []) (.read bs) (.copying bs)
  | readEnd : CatMove chunk (.copying []) (.read []) .leaving
  | write {bs rest : Bytes} :
      CatMove chunk (.copying (bs ++ rest)) (.write .stdout bs) (.copying rest)
  | exit : CatMove chunk .leaving (.exit 0 fun _ => false) .gone

/-- `cat` with a buffer of `chunk` bytes. -/
abbrev cat (chunk : Nat) : Behaviour where
  State := CatState
  start := .copying []
  act := CatMove chunk

/-- The bytes `cat` has read and not yet written. -/
def CatState.carried : CatState → Bytes
  | .copying bs => bs
  | .leaving | .gone => []

/-- The parent, in the call `c`, is blocked in write on a full stdin pipe while
`cat` is blocked in write on a full stdout pipe. -/
def Deadlocked (S : Setting) (c : Option Call) (w : World CatState) : Prop :=
  w.BlocksWrite S c ∧ w.child.carried ≠ [] ∧ w.holds .stdout = true ∧
    S.capacity ≤ (w.pipe .out).length

/-! ## Where the bytes of the payload are -/

section Books

variable {S : Setting} {chunk : Nat}

/-- Every byte of the payload is collected, in the stdout pipe, carried by `cat`,
in the stdin pipe, or unsent; and `cat` stays until its stdin has ended. -/
structure Echoed (payload : Bytes) (x : Runner × World CatState) : Prop where
  books : x.1.sink .out ++ x.2.pipe .out ++ x.2.child.carried ++ x.2.stdinPipe ++
    x.1.unsent = payload
  feeder : x.1.feeding = x.2.feederOpen
  sent : x.1.feeding = false → x.1.unsent = []
  ended : (∀ bs, x.2.child ≠ .copying bs) → x.2.feederOpen = false ∧ x.2.stdinPipe = []
  held : x.2.status = none → ∀ fd, x.2.holds fd = true
  exited : x.2.status.isSome = true → x.2.child = .gone ∨ x.2.killed = true
  killing : x.2.killed = true → x.1.feeding = false
  kept : x.1.lost = false

theorem echoed_initial (payload : Bytes) (listening : Stream → Bool) (clock : Nat) :
    Echoed payload (Runner.fresh payload listening,
      World.initial (.copying [] : CatState) clock) where
  books := by simp [Runner.fresh, World.initial, CatState.carried]
  feeder := rfl
  sent := by simp [Runner.fresh]
  ended := by
    intro h
    exact (h [] rfl).elim
  held := fun _ _ => rfl
  exited := by simp [World.initial]
  killing := by simp [World.initial]
  kept := rfl

/-- A child that has let go of its stdin while the parent feeds it has been
neither killed nor at end of file, so there is none. -/
theorem Echoed.reader {payload : Bytes} {v : Runner} {w : World CatState}
    (h : Echoed payload (v, w)) (hfeeding : v.feeding = true) :
    w.holds .stdin = true := by
  refine h.held ?_ .stdin
  by_contra hended
  rcases h.exited (Option.isSome_iff_ne_none.mpr hended) with hgone | hkilled
  · have hclosed := (h.ended (by simp only at hgone; simp [hgone])).1
    have hfeeder := h.feeder
    simp only [hfeeding] at hfeeder
    rw [← hfeeder] at hclosed
    cases hclosed
  · have hnot := h.killing hkilled
    simp only [hfeeding] at hnot
    cases hnot

/-- A `cat` that has ended without leaving its loop has been killed. -/
theorem Echoed.killed {payload : Bytes} {v : Runner} {w : World CatState}
    (h : Echoed payload (v, w)) (hstays : w.child ≠ .gone) (hstatus : w.status.isSome = true) :
    w.killed = true := by
  rcases h.exited hstatus with hgone | hkilled
  · exact (hstays hgone).elim
  · exact hkilled

theorem echoed_child {payload : Bytes} {v : Runner} {w w' : World CatState} {a : Action}
    {q : CatState} (h : Echoed payload (v, w)) (hmove : CatMove chunk w.child a q)
    (hacts : Acts S w a w') : Echoed payload (v, w'.become q) := by
  obtain ⟨pipes, feederOpen, pipe, wrote, collecting, holds, child, status, killed, clock⟩ := w
  cases hmove with
  | @read bs hne =>
      cases hacts with
      | read _ _ hpipe =>
          refine { h with
            books := ?_
            ended := fun hq => (hq bs rfl).elim
            exited := fun hstatus => .inr (h.killed (by simp) hstatus) }
          have hbooks := h.books
          simp only at hpipe
          simpa [World.become, World.consume, CatState.carried, hpipe] using hbooks
      | readEnd => exact (hne rfl).elim
  | readEnd =>
      cases hacts with
      | read _ hne => exact (hne rfl).elim
      | readEnd _ hempty hclosed =>
          exact { h with
            books := h.books
            ended := fun _ => ⟨hclosed, hempty⟩
            exited := fun hstatus => .inr (h.killed (by simp) hstatus) }
  | @write bs rest =>
      cases hacts with
      | write _ hroute =>
          cases hroute
          refine { h with
            books := ?_
            ended := fun hq => (hq rest rfl).elim
            exited := fun hstatus => .inr (h.killed (by simp) hstatus) }
          have hbooks := h.books
          simpa [World.become, World.emit, CatState.carried] using hbooks
  | exit =>
      cases hacts with
      | exit =>
          refine { h with
            books := h.books
            ended := fun _ => h.ended (by simp)
            held := by simp [World.become, World.terminate]
            exited := fun _ => Or.inl rfl }

/-- What the parent writes goes into the stdin pipe. -/
theorem echoed_wrote {payload : Bytes} {v : Runner} {w : World CatState} {n : Nat}
    (h : Echoed payload (v, w)) (hpos : 0 < n) (hle : n ≤ v.unsent.length) :
    Echoed payload ({ v with unsent := v.unsent.drop n }, w.feed (v.unsent.take n)) := by
  have hunsent : v.unsent ≠ [] := by
    intro hnil
    simp [hnil] at hle
    omega
  have hfeeding : v.feeding = true := by
    by_contra hnot
    exact hunsent (h.sent (by simpa using hnot))
  refine { h with books := ?_, sent := ?_, ended := ?_ }
  · have hbooks := h.books
    simpa [World.feed, List.append_assoc] using hbooks
  · intro hnot
    simp only [hfeeding] at hnot
    cases hnot
  · intro hq
    have hclosed := (h.ended hq).1
    have hfeeder := h.feeder
    simp only [hfeeding] at hfeeder
    simp only at hclosed
    rw [← hfeeder] at hclosed
    cases hclosed

/-- A write that finds no reader gives up nothing: the runner is not feeding any more. -/
theorem echoed_giveUp {payload : Bytes} {v : Runner} {w : World CatState}
    (h : Echoed payload (v, w)) (hnone : w.holds .stdin = false) :
    Echoed payload ({ v with unsent := [] }, w) := by
  have hsent : v.unsent = [] := by
    refine h.sent ?_
    by_contra hfeeding
    have hreader := h.reader (by simpa using hfeeding)
    simp only [hnone] at hreader
    cases hreader
  refine { h with books := ?_, sent := fun _ => rfl }
  simpa [hsent] using h.books

/-- What the parent reads comes out of the stdout pipe. -/
theorem echoed_collect {payload : Bytes} {v : Runner} {w : World CatState} {s : Stream}
    {bs rest : Bytes} (h : Echoed payload (v, w)) (hpipe : w.pipe s = bs ++ rest) :
    Echoed payload ({ v with sink := update v.sink s (v.sink s ++ bs) }, w.drain s rest) := by
  refine { h with books := ?_ }
  have hbooks := h.books
  cases s with
  | out => simpa [World.drain, hpipe] using hbooks
  | err => simpa [World.drain] using hbooks

/-- Unless something faults, what the parent does keeps the books. -/
theorem echoed_parent {payload : Bytes} (hfaults : S.faults = false) {v v' : Runner}
    {w w' : World CatState} {c : Call} {r : Reply} (h : Echoed payload (v, w))
    (hrunner : v.Step c r v') (hans : Answers S w c r w') : Echoed payload (v', w') := by
  cases hans with
  | @wrote data n hreader hpos hle =>
      cases hrunner
      exact echoed_wrote h hpos hle
  | brokenPipe hnone =>
      cases hrunner
      exact echoed_giveUp h hnone
  | interrupted =>
      rw [Runner.eq_of_interrupted hrunner]
      exact h
  | fault hfault =>
      rw [hfaults] at hfault
      cases hfault
  | closedStdin =>
      cases hrunner with
      | hangUp hsent =>
          exact { h with
            feeder := rfl
            sent := fun _ => hsent
            ended := fun hq => ⟨rfl, (h.ended hq).2⟩
            killing := fun _ => rfl }
  | @bytes s size bs rest hne hlen hpipe =>
      rw [Runner.eq_of_bytes hne hrunner]
      exact echoed_collect h hpipe
  | endOfFile =>
      rw [Runner.eq_of_endOfFile hrunner]
      exact { h with }
  | killed =>
      cases hrunner with
      | kill hfeeding =>
          exact { h with exited := fun _ => Or.inr rfl, killing := fun _ => hfeeding }
  | memory hok =>
      cases hrunner with
      | memory => exact h
      | outOfMemory =>
          have hfault := hok rfl
          rw [hfaults] at hfault
          cases hfault
  | closedOutput =>
      cases hrunner
      exact { h with }
  | _ =>
      cases hrunner
      exact h

/-- Unless something faults, every step keeps the books. -/
theorem echoed_step {payload : Bytes} (hfaults : S.faults = false)
    {x y : Runner × World (cat chunk).State} {l : Label} (h : Echoed payload x)
    (hstep : Step S (cat chunk) Runner.Step x l y) : Echoed payload y := by
  cases hstep with
  | parent hrunner hans => exact echoed_parent hfaults h hrunner hans
  | child hmove hacts => exact echoed_child h hmove hacts
  | die hkilled hstatus =>
      exact { h with
        held := by simp [World.terminate]
        exited := fun _ => Or.inr hkilled }
  | tick nanos => exact { h with }

/-- The two pipes and the child hold more than `2 * capacity` bytes of a payload
that has come to a deadlock, and some of it is unsent. -/
theorem Echoed.length_of_deadlock {payload : Bytes} {v : Runner} {w : World CatState}
    (h : Echoed payload (v, w)) (hjam : Deadlocked S (some (.write v.unsent)) w) :
    2 * S.capacity + 2 ≤ payload.length := by
  obtain ⟨⟨data, hcall, hdata, -, hstdin⟩, hcarried, -, hstdout⟩ := hjam
  cases hcall
  have hunsent : 0 < v.unsent.length := List.length_pos_iff.mpr hdata
  have hcarry : 0 < w.child.carried.length := List.length_pos_iff.mpr hcarried
  have hlength := congrArg List.length h.books
  simp only [List.length_append] at hlength
  omega

/-- A runner that stopped without killing `cat` has collected the payload. -/
theorem Echoed.complete {payload : Bytes} {v : Runner} {w : World (cat chunk).State}
    (h : Echoed payload (v, w)) (hstop : v.MayStop) (hspared : v.sentKill = false)
    (hkill : KillAgrees (v, w)) (hdry : EndedDry S (v, w)) :
    v.sink .out = payload := by
  have halive : w.killed = false := hkill.symm.trans hspared
  have hdeaf : ∀ s, v.listening s = false := by
    rcases hstop with hkilled | hdeaf
    · rw [hspared] at hkilled
      cases hkilled
    · exact hdeaf
  obtain ⟨hpipe, hnone⟩ := hdry .out (hdeaf .out)
  have hended : w.status.isSome = true := by
    rw [Option.isSome_iff_ne_none]
    intro hrunning
    exact hnone ⟨.stdout, h.held hrunning .stdout, rfl⟩
  have hgone : w.child = .gone := by
    rcases h.exited hended with hgone | hkilled
    · exact hgone
    · simp only [halive] at hkilled
      cases hkilled
  have hquit : ∀ bs, w.child ≠ .copying bs := by simp [hgone]
  obtain ⟨hclosed, hempty⟩ := h.ended hquit
  have hunsent : v.unsent = [] := h.sent (h.feeder.trans hclosed)
  have hbooks := h.books
  simp only at hpipe hempty
  simpa [hpipe, hgone, hempty, hunsent, CatState.carried] using hbooks

end Books

/-! ## A run that fills both pipes -/

section Jam

variable {X : Type} {S : Setting} {chunk : Nat} {Par : X → Call → Reply → X → Prop}
  {payload : Bytes} {f : Nat → X}

/-- The control states `f k` are a write loop with `k` bytes of the payload gone. -/
def WritesFrom (Par : X → Call → Reply → X → Prop) (payload : Bytes) (f : Nat → X) : Prop :=
  ∀ k n, 0 < n → k + n < payload.length →
    Par (f k) (.write (payload.drop k)) (.wrote n) (f (k + n))

/-- `cat` is waiting for input and the stdout pipe holds `k` bytes. -/
structure Awaiting (k : Nat) (w : World CatState) : Prop where
  stdinEmpty : w.stdinPipe = []
  child : w.child = .copying []
  stdout : (w.pipe .out).length = k
  holds : ∀ fd, w.holds fd = true
  collecting : w.collecting = true

theorem carry_byte (hloop : WritesFrom Par payload f) (hcapacity : 1 ≤ S.capacity)
    (hchunk : 1 ≤ chunk) {k : Nat} {w : World (cat chunk).State} (hw : Awaiting k w)
    (hlong : k + 1 < payload.length) :
    ∃ ls b, Runs (Step S (cat chunk) Par) (f k, w) ls
      (f (k + 1), w.become (.copying [b])) := by
  obtain ⟨b, hb⟩ : ∃ b, (payload.drop k).take 1 = [b] := by
    rw [← List.length_eq_one_iff]
    simp only [List.length_take, List.length_drop]
    omega
  have hwrite : Step S (cat chunk) Par (f k, w) _ (f (k + 1), _) :=
    .parent (hloop k 1 Nat.one_pos hlong)
      (.wrote (hw.holds .stdin) Nat.one_pos (by simp only [List.length_drop]; omega)
        (by simpa [hw.stdinEmpty] using hcapacity))
  have hread : Step S (cat chunk) Par (f (k + 1), w.feed ((payload.drop k).take 1))
      (.child (.read [b]))
      (f (k + 1), ((w.feed ((payload.drop k).take 1)).consume []).become (.copying [b])) := by
    refine .child ?_ (.read (hw.holds .stdin) (by simp) ?_)
    · have hchild : (w.feed ((payload.drop k).take 1)).child = .copying [] := hw.child
      rw [hchild]
      exact .read (by simp) (by simpa using hchunk)
    · simp [World.feed, hw.stdinEmpty, hb]
  have hrun := (Runs.single hwrite).tail hread
  have hsame : ((w.feed ((payload.drop k).take 1)).consume []).become (.copying [b]) =
      w.become (.copying [b]) := by
    simp [World.feed, World.consume, World.become, hw.stdinEmpty]
  rw [hsame] at hrun
  exact ⟨_, b, hrun⟩

theorem echo_byte (hloop : WritesFrom Par payload f) (hchunk : 1 ≤ chunk) {k : Nat}
    {w : World (cat chunk).State} (hw : Awaiting k w) (hroom : k < S.capacity)
    (hlong : k + 1 < payload.length) :
    ∃ ls w', Runs (Step S (cat chunk) Par) (f k, w) ls (f (k + 1), w') ∧
      Awaiting (k + 1) w' := by
  have hcapacity : 1 ≤ S.capacity := by omega
  obtain ⟨ls, b, hcarry⟩ := carry_byte hloop hcapacity hchunk hw hlong
  have hback : Step S (cat chunk) Par (f (k + 1), w.become (.copying [b]))
      (.child (.write .stdout [b]))
      (f (k + 1), ((w.become (.copying [b])).emit .out [b]).become (.copying [])) := by
    refine .child ?_ (.write (hw.holds .stdout) rfl hw.collecting (by simp) ?_)
    · exact @CatMove.write chunk [b] []
    · have hpipe : (w.pipe .out).length = k := hw.stdout
      simp only [World.become, List.length_singleton, hpipe]
      omega
  refine ⟨_, _, hcarry.tail hback, ?_⟩
  exact
    { stdinEmpty := hw.stdinEmpty
      child := rfl
      stdout := by simp [World.become, World.emit, hw.stdout]
      holds := hw.holds
      collecting := hw.collecting }

theorem echo_bytes (hloop : WritesFrom Par payload f) (hchunk : 1 ≤ chunk) (clock : Nat)
    (k : Nat) (hroom : k ≤ S.capacity) (hlong : k < payload.length) :
    ∃ ls w, Runs (Step S (cat chunk) Par) (f 0, World.initial (cat chunk).start clock) ls
      (f k, w) ∧ Awaiting k w := by
  induction k with
  | zero => exact ⟨[], _, .refl _, ⟨rfl, rfl, rfl, fun _ => rfl, rfl⟩⟩
  | succ k ih =>
      obtain ⟨ls, w, hrun, hw⟩ := ih (by omega) (by omega)
      have hroom' : k < S.capacity := by omega
      obtain ⟨ms, w', hround, hw'⟩ := echo_byte hloop hchunk hw hroom' hlong
      exact ⟨ls ++ ms, w', hrun.trans hround, hw'⟩

/-- The stdout pipe is filled, `cat` takes one more byte, and the stdin pipe is
filled: the next write has nowhere to go. -/
theorem echo_jams (hloop : WritesFrom Par payload f) (hcapacity : 1 ≤ S.capacity)
    (hchunk : 1 ≤ chunk) (clock : Nat) (hlong : 2 * S.capacity + 1 < payload.length) :
    ∃ ls w, Runs (Step S (cat chunk) Par) (f 0, World.initial (cat chunk).start clock) ls
        (f (2 * S.capacity + 1), w) ∧
      Deadlocked S (some (.write (payload.drop (2 * S.capacity + 1)))) w := by
  obtain ⟨ls, w, hrun, hw⟩ := echo_bytes hloop hchunk clock S.capacity (Nat.le_refl _)
    (by omega)
  obtain ⟨ms, b, hcarry⟩ := carry_byte hloop hcapacity hchunk hw (by omega)
  have hfill : Step S (cat chunk) Par
      (f (S.capacity + 1), w.become (.copying [b])) _
      (f (S.capacity + 1 + S.capacity), _) :=
    .parent (hloop (S.capacity + 1) S.capacity (by omega) (by omega))
      (.wrote (hw.holds .stdin) (by omega) (by simp only [List.length_drop]; omega)
        (by simp [World.become, hw.stdinEmpty]))
  have hindex : S.capacity + 1 + S.capacity = 2 * S.capacity + 1 := by omega
  rw [hindex] at hfill
  refine ⟨_, _, (hrun.trans hcarry).tail hfill, ⟨_, rfl, ?_, hw.holds .stdin, ?_⟩, ?_,
    hw.holds .stdout, ?_⟩
  · simpa using hlong
  · simp [World.feed, World.become, hw.stdinEmpty]
    omega
  · simp [World.feed, World.become, CatState.carried]
  · simp [World.feed, World.become, hw.stdout]

end Jam

/-! ## The two programs -/

section Programs

variable {capacity chunk clock : Nat}

/-- A world that does not fault never fails a read or a poll but by a signal. -/
theorem not_fails_of_step {X : Type} {S : Setting} {B : Behaviour}
    {Par : X → Call → Reply → X → Prop} (hfaults : S.faults = false)
    {x y : X × World B.State} {l : Label} (hstep : Step S B Par x l y) :
    ¬ l.readFails ∧ ¬ l.pollFails := by
  cases hstep with
  | @parent _ _ _ _ c r _ hans =>
      cases hans with
      | interrupted =>
          constructor
          · intro hfails
            cases c <;> simp [Label.readFails] at hfails
          · intro hfails
            cases c <;> simp [Label.pollFails] at hfails
      | fault hfault =>
          rw [hfaults] at hfault
          cases hfault
      | _ => exact ⟨id, id⟩
  | child | die | tick => exact ⟨id, id⟩

/-- In a run of a runner against `cat` the books are kept, ended streams are dry
and the runner knows whether it killed the child. -/
theorem echoed_runs {S : Setting} (hfaults : S.faults = false) {payload : Bytes}
    {listening : Stream → Bool} {ls : List Label} {v : Runner} {w : World (cat chunk).State}
    (hdry : EndedDry S (Runner.fresh payload listening,
      World.initial (cat chunk).start clock))
    (hruns : Runs (Step S (cat chunk) Runner.Step)
      (Runner.fresh payload listening, World.initial (cat chunk).start clock) ls (v, w)) :
    Echoed payload (v, w) ∧ EndedDry S (v, w) ∧ KillAgrees (v, w) := by
  refine ⟨hruns.invariant (echoed_initial payload listening clock) (echoed_step hfaults),
    hruns.invariant hdry ?_, hruns.invariant rfl killAgrees_step⟩
  intro x y l hx hstep
  obtain ⟨hread, hpoll⟩ := not_fails_of_step hfaults hstep
  exact endedDry_step hread hpoll hx hstep

theorem CCommand.tracks_write {cmd : CCommand} {p : CParent} {v : Runner} {data : Bytes}
    (htracks : cmd.Tracks p v) (hcall : cmd.pending p = some (.write data)) :
    v.unsent = data := by
  cases p with
  | feeding written =>
      cases htracks
      cases hcall
      rfl
  | _ => simp [pending] at hcall

/-- A long payload brings `run()` to a deadlock with `cat`. -/
theorem Subprocess.deadlocks (sp : Subprocess) (clock : Nat) (hcapacity : 1 ≤ capacity)
    (hchunk : 1 ≤ chunk) (hlong : 2 * capacity + 1 < sp.stdinData.length) :
    ∃ ls p w, Runs (sp.Sys capacity false (cat chunk)) (sp.initial (cat chunk) clock) ls
        (p, w) ∧ Deadlocked (sp.setting capacity false) (sp.pending p) w := by
  have hloop : WritesFrom sp.Moves sp.stdinData .feeding := by
    intro k n hpos hmore
    refine ⟨rfl, ?_⟩
    simp only [advance, writeAll]
    rw [if_pos hmore]
  have hstart : sp.start = .feeding 0 := by
    unfold start writeAll
    rw [if_pos (by omega)]
  obtain ⟨ls, w, hrun, hjam⟩ :=
    @echo_jams _ (sp.setting capacity false) _ _ _ _ hloop hcapacity hchunk clock hlong
  refine ⟨ls, .feeding (2 * capacity + 1), w, ?_, hjam⟩
  rw [initial, hstart]
  exact hrun

theorem CCommand.deadlocks (cmd : CCommand) (clock : Nat) (hcapacity : 1 ≤ capacity)
    (hchunk : 1 ≤ chunk) (hlong : 2 * capacity + 1 < cmd.payload.length) :
    ∃ ls p w, Runs (cmd.Sys capacity false (cat chunk)) (cmd.initial (cat chunk) clock) ls
        (p, w) ∧ Deadlocked (CCommand.setting capacity false) (cmd.pending p) w := by
  have hloop : WritesFrom cmd.Moves cmd.payload .feeding := by
    intro k n hpos hmore
    refine ⟨rfl, ?_⟩
    simp only [advance, writeLoop]
    rw [if_pos hmore]
  have hstart : cmd.start = .feeding 0 := by
    unfold start writeLoop
    rw [if_pos (by omega)]
  obtain ⟨ls, w, hrun, hjam⟩ :=
    @echo_jams _ (CCommand.setting capacity false) _ _ _ _ hloop hcapacity hchunk clock hlong
  refine ⟨ls, .feeding (2 * capacity + 1), w, ?_, hjam⟩
  rw [initial, hstart]
  exact hrun

/-- The exchange of `sp` with `cat` goes through: no reachable deadlock, and every
run that returns without timing out returns the payload. -/
def Subprocess.EchoGoesThrough (sp : Subprocess) (capacity chunk clock : Nat) : Prop :=
  ∀ ls p w, Runs (sp.Sys capacity false (cat chunk)) (sp.initial (cat chunk) clock) ls
      (p, w) →
    ¬ Deadlocked (sp.setting capacity false) (sp.pending p) w ∧
    ∀ r reaped, p = .returned r reaped → r.timedOut = false → r.output = sp.stdinData

/-- The exchange of `cmd` with `cat` goes through. -/
def CCommand.EchoGoesThrough (cmd : CCommand) (capacity chunk clock : Nat) : Prop :=
  ∀ ls p w, Runs (cmd.Sys capacity false (cat chunk)) (cmd.initial (cat chunk) clock) ls
      (p, w) →
    ¬ Deadlocked (CCommand.setting capacity false) (cmd.pending p) w ∧
    ∀ r reaped, p = .returned r reaped → r.timedOut = false → r.output = some cmd.payload

theorem Subprocess.echoGoesThrough_of_le {sp : Subprocess}
    (hfits : sp.stdinData.length ≤ 2 * capacity + 1) :
    sp.EchoGoesThrough capacity chunk clock := by
  intro ls p w hrun
  obtain ⟨v, hruns, htracks⟩ := Subprocess.abstract_run hrun
  obtain ⟨hechoed, hdry, hkill⟩ := echoed_runs rfl sp.endedDry_initial hruns
  constructor
  · intro hjam
    obtain ⟨data, hcall, -⟩ := hjam.1
    rw [hcall, ← Subprocess.tracks_write htracks hcall] at hjam
    have hlength := hechoed.length_of_deadlock hjam
    simp only [Subprocess.setting] at hlength
    omega
  · rintro r reaped rfl hto
    obtain ⟨hsink, hsent, -, hstop⟩ := htracks
    have hout := hechoed.complete hstop (hsent.trans hto) hkill hdry
    rw [hsink] at hout
    exact hout

/-- A payload that fits goes through `ftl_run_command`. -/
theorem CCommand.echoGoesThrough_of_le {cmd : CCommand}
    (hfits : cmd.payload.length ≤ 2 * capacity + 1) :
    cmd.EchoGoesThrough capacity chunk clock := by
  intro ls p w hrun
  obtain ⟨v, hruns, htracks⟩ := CCommand.abstract_run hrun
  obtain ⟨hechoed, hdry, hkill⟩ := echoed_runs rfl cmd.endedDry_initial hruns
  constructor
  · intro hjam
    obtain ⟨data, hcall, -⟩ := hjam.1
    rw [hcall, ← CCommand.tracks_write htracks hcall] at hjam
    have hlength := hechoed.length_of_deadlock hjam
    simp only [CCommand.setting] at hlength
    omega
  · rintro r reaped rfl hto
    obtain ⟨hstop, hsent, hkept⟩ := htracks
    have hspared : v.sentKill = false := by
      by_contra hkilled
      have hlate := hsent (by simpa using hkilled)
      rw [hto] at hlate
      cases hlate
    rw [hkept hechoed.kept, hechoed.complete hstop hspared hkill hdry]

/-- An exchange with `cat` goes through exactly when the two pipes and one byte in
the hands of the child can hold the payload, in both runners.  Neither reads before all of the
payload is written, so until then what has been echoed waits in the stdout pipe.  Pipes without
room for a byte and a `cat` without a buffer are left out: they pass nothing on. -/
theorem echo_goes_through_iff (capacity chunk clock : Nat) (hcapacity : 1 ≤ capacity)
    (hchunk : 1 ≤ chunk) :
    (∀ sp : Subprocess, sp.EchoGoesThrough capacity chunk clock ↔
      sp.stdinData.length ≤ 2 * capacity + 1) ∧
    (∀ cmd : CCommand, cmd.EchoGoesThrough capacity chunk clock ↔
      cmd.payload.length ≤ 2 * capacity + 1) := by
  constructor
  · intro sp
    constructor
    · intro hthrough
      by_contra hlong
      obtain ⟨ls, p, w, hrun, hjam⟩ :=
        sp.deadlocks clock hcapacity hchunk (Nat.lt_of_not_le hlong)
      exact (hthrough ls p w hrun).1 hjam
    · exact Subprocess.echoGoesThrough_of_le
  · intro cmd
    constructor
    · intro hthrough
      by_contra hlong
      obtain ⟨ls, p, w, hrun, hjam⟩ :=
        cmd.deadlocks clock hcapacity hchunk (Nat.lt_of_not_le hlong)
      exact (hthrough ls p w hrun).1 hjam
    · exact CCommand.echoGoesThrough_of_le

/-- A payload of 15 bytes goes through pipes of 64 KiB. -/
theorem echo_goes_through_short :
    ((Subprocess.ofProgram [99, 97, 116]).setStdinData
      (List.replicate 15 120)).EchoGoesThrough 65536 4096 0 :=
  ((echo_goes_through_iff 65536 4096 0 (by decide) (by decide)).1 _).mpr (by decide)

/-- `cat` behind pipes of 64 KiB, fed 131074 bytes. -/
def longEcho : Subprocess :=
  (Subprocess.ofProgram [99, 97, 116]).setStdinData (List.replicate 131074 120)

/-- The same through the C runner. -/
def longEchoCommand : CCommand :=
  { stdinData := some (List.replicate 131074 120), timeoutMs := 0 }

/-- Two bytes more than the two pipes hold bring both runners to a deadlock. -/
theorem echo_deadlocks :
    (∃ ls p w, Runs (longEcho.Sys 65536 false (cat 4096)) (longEcho.initial (cat 4096) 0) ls
        (p, w) ∧ Deadlocked (longEcho.setting 65536 false) (longEcho.pending p) w) ∧
    (∃ ls p w, Runs (longEchoCommand.Sys 65536 false (cat 4096))
        (longEchoCommand.initial (cat 4096) 0) ls (p, w) ∧
      Deadlocked (CCommand.setting 65536 false) (longEchoCommand.pending p) w) := by
  have hlength : (List.replicate 131074 (120 : UInt8)).length = 131074 :=
    List.length_replicate
  constructor
  · refine longEcho.deadlocks 0 (by decide) (by decide) ?_
    rw [longEcho, Subprocess.setStdinData, hlength]
    decide
  · refine longEchoCommand.deadlocks 0 (by decide) (by decide) ?_
    rw [CCommand.payload, longEchoCommand, Option.getD_some, hlength]
    decide

end Programs

end Ftl.Process
