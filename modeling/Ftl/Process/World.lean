/-
  Process/World.lean --- what a runner runs against: three pipes, a process
  family on their far side, and a clock.

  The far side is a `Behaviour`, an arbitrary nondeterministic process that reads
  its stdin, writes its stdout and stderr, closes descriptors, exits, or leaves a
  descendant behind that still holds some of them.  `Answers` says which replies
  the kernel may give to a call of the parent and what they do to the pipes;
  `Step` interleaves the parent with the child, with the delivery of a SIGKILL
  and with the clock.

  The parent is a parameter (`Par`), so the same world runs the C++ machine, the
  C machine, and the abstract runner both of them refine.
-/
import Mathlib.Data.List.Basic
import Ftl.Foundation.Runs
import Ftl.Process.Syscall

set_option autoImplicit false

namespace Ftl.Process

open Function (update)

/-! ## The child side -/

/-- The standard descriptors of the child. -/
inductive ChildFd where
  | stdin
  | stdout
  | stderr
  deriving DecidableEq, Repr

/-- One move of the child's process family.  `read []` is a read at end of file;
`exit status kept` ends the child itself while a descendant keeps the
descriptors in `kept`. -/
inductive Action where
  | read (bs : Bytes)
  | write (fd : ChildFd) (bs : Bytes)
  | close (fd : ChildFd)
  | exit (status : Int) (kept : ChildFd → Bool)
  | idle

/-- A child program, as the moves it may make. -/
structure Behaviour where
  /-- Its states. -/
  State : Type
  /-- The state it starts in. -/
  start : State
  /-- Its moves. -/
  act : State → Action → State → Prop

/-- The child that makes the moves in `moves`, in order, and then hangs. -/
def Behaviour.script (moves : List Action) : Behaviour where
  State := List Action
  start := moves
  act := fun q a q' => q = a :: q'

/-- What a run depends on besides the two programs: the size of a pipe, whether
stderr has a pipe of its own, and whether poll, read, write and allocation may
fail outright. -/
structure Setting where
  capacity : Nat
  split : Bool
  faults : Bool

/-- The pipe that a descriptor of the child writes to: `child_exec` duplicates
the stdout pipe onto descriptor 2 unless the output is split. -/
def Setting.route (S : Setting) : ChildFd → Option Stream
  | .stdin => none
  | .stdout => some .out
  | .stderr => some (if S.split then .err else .out)

/-! ## The state of the world -/

/-- The kernel objects of one run, from the fork on. -/
structure World (σ : Type) where
  /-- bytes in the stdin pipe -/
  stdinPipe : Bytes
  /-- the parent still holds the write end of the stdin pipe -/
  feederOpen : Bool
  /-- bytes in an output pipe -/
  pipe : Stream → Bytes
  /-- everything the family has written to an output pipe so far -/
  wrote : Stream → Bytes
  /-- the parent still holds the read ends of the output pipes -/
  collecting : Bool
  /-- some process of the family holds this descriptor -/
  holds : ChildFd → Bool
  /-- the state of the family -/
  child : σ
  /-- the wait status of the child once it has terminated -/
  status : Option Int
  /-- SIGKILL has been sent to the child -/
  killed : Bool
  /-- the monotonic clock, in nanoseconds -/
  clock : Nat

/-- The world at the fork: empty pipes and a child that holds its three standard
descriptors. -/
def World.initial {σ : Type} (start : σ) (clock : Nat) : World σ where
  stdinPipe := []
  feederOpen := true
  pipe := fun _ => []
  wrote := fun _ => []
  collecting := true
  holds := fun _ => true
  child := start
  status := none
  killed := false
  clock := clock

variable {σ : Type}

/-- Some process still holds a write end of the pipe of `s`. -/
def World.HasWriter (S : Setting) (w : World σ) (s : Stream) : Prop :=
  ∃ fd, w.holds fd = true ∧ S.route fd = some s

namespace World

/-- The parent writes `bs` into the stdin pipe. -/
def feed (w : World σ) (bs : Bytes) : World σ :=
  { w with stdinPipe := w.stdinPipe ++ bs }

/-- The parent closes the write end of the stdin pipe. -/
def hangUp (w : World σ) : World σ := { w with feederOpen := false }

/-- The parent reads from the pipe of `s` and leaves `rest`. -/
def drain (w : World σ) (s : Stream) (rest : Bytes) : World σ :=
  { w with pipe := update w.pipe s rest }

/-- The parent sends SIGKILL. -/
def sendKill (w : World σ) : World σ := { w with killed := true }

/-- The parent closes the read ends of the output pipes. -/
def stopCollecting (w : World σ) : World σ := { w with collecting := false }

/-- The child reads from stdin and leaves `rest`. -/
def consume (w : World σ) (rest : Bytes) : World σ := { w with stdinPipe := rest }

/-- The child writes `bs` to the pipe of `s`. -/
def emit (w : World σ) (s : Stream) (bs : Bytes) : World σ :=
  { w with pipe := update w.pipe s (w.pipe s ++ bs)
           wrote := update w.wrote s (w.wrote s ++ bs) }

/-- The child's family closes its last copy of `fd`. -/
def release (w : World σ) (fd : ChildFd) : World σ :=
  { w with holds := update w.holds fd false }

/-- The child terminates with `status`; its family keeps what is in `kept`. -/
def terminate (w : World σ) (status : Int) (kept : ChildFd → Bool) : World σ :=
  { w with status := some status, holds := fun fd => w.holds fd && kept fd }

/-- The child's family reaches the state `q`. -/
def become (w : World σ) (q : σ) : World σ := { w with child := q }

/-- The clock advances. -/
def tick (w : World σ) (nanos : Nat) : World σ := { w with clock := w.clock + nanos }

@[simp] theorem stdinPipe_tick (w : World σ) (nanos : Nat) :
    (w.tick nanos).stdinPipe = w.stdinPipe := rfl

@[simp] theorem holds_tick (w : World σ) (nanos : Nat) : (w.tick nanos).holds = w.holds := rfl

@[simp] theorem killed_tick (w : World σ) (nanos : Nat) :
    (w.tick nanos).killed = w.killed := rfl

@[simp] theorem clock_tick (w : World σ) (nanos : Nat) :
    (w.tick nanos).clock = w.clock + nanos := rfl

end World

/-! ## What the kernel answers -/

/-- The calls that can fail for a reason other than a signal. -/
def Call.fallible : Call → Bool
  | .write _ | .poll _ _ | .read _ _ => true
  | _ => false

/-- `Answers S w c r w'`: the kernel may answer the call `c` with `r`, which
turns `w` into `w'`.  A write transfers as much as it likes of what fits; a full
pipe gives no answer until the child reads.  A read of an empty pipe with a
writer gives no answer either.  What poll reports is left free, but it returns 0 only for a
timeout that is not negative: with a negative one it waits without limit. -/
inductive Answers (S : Setting) : World σ → Call → Reply → World σ → Prop
  | wrote {w : World σ} {data : Bytes} {n : Nat} :
      w.holds .stdin = true → 0 < n → n ≤ data.length →
      w.stdinPipe.length + n ≤ S.capacity →
      Answers S w (.write data) (.wrote n) (w.feed (data.take n))
  | brokenPipe {w : World σ} {data : Bytes} :
      w.holds .stdin = false →
      Answers S w (.write data) (.failed .epipe) w
  | interrupted {w : World σ} {c : Call} :
      c.interruptible = true → Answers S w c (.failed .eintr) w
  | fault {w : World σ} {c : Call} {e : Errno} :
      S.faults = true → c.fallible = true → e ≠ .eintr →
      Answers S w c (.failed e) w
  | closedStdin {w : World σ} : Answers S w .closeStdin .done w.hangUp
  | clock {w : World σ} : Answers S w .clock (.time w.clock) w
  | lapsed {w : World σ} {fds : List Stream} {ms : Int} :
      0 ≤ ms → Answers S w (.poll fds ms) .lapsed w
  | ready {w : World σ} {fds : List Stream} {ms : Int} {revents : Stream → Bool} :
      Answers S w (.poll fds ms) (.ready revents) w
  | bytes {w : World σ} {s : Stream} {size : Nat} {bs rest : Bytes} :
      bs ≠ [] → bs.length ≤ size → w.pipe s = bs ++ rest →
      Answers S w (.read s size) (.bytes bs) (w.drain s rest)
  | endOfFile {w : World σ} {s : Stream} {size : Nat} :
      w.pipe s = [] → ¬ w.HasWriter S s →
      Answers S w (.read s size) (.bytes []) w
  | killed {w : World σ} : Answers S w .kill .done w.sendKill
  | status {w : World σ} {st : Int} :
      w.status = some st → Answers S w .waitpid (.status st) w
  | memory {w : World σ} {size : Nat} {ok : Bool} :
      (ok = false → S.faults = true) →
      Answers S w (.allocate size) (.memory ok) w
  | closedOutput {w : World σ} : Answers S w .closeOutput .done w.stopCollecting

/-- `Acts S w a w'`: what a move of the family does to the pipes. -/
inductive Acts (S : Setting) : World σ → Action → World σ → Prop
  | read {w : World σ} {bs rest : Bytes} :
      w.holds .stdin = true → bs ≠ [] → w.stdinPipe = bs ++ rest →
      Acts S w (.read bs) (w.consume rest)
  | readEnd {w : World σ} :
      w.holds .stdin = true → w.stdinPipe = [] → w.feederOpen = false →
      Acts S w (.read []) w
  | write {w : World σ} {fd : ChildFd} {s : Stream} {bs : Bytes} :
      w.holds fd = true → S.route fd = some s → w.collecting = true → bs ≠ [] →
      (w.pipe s).length + bs.length ≤ S.capacity →
      Acts S w (.write fd bs) (w.emit s bs)
  | close {w : World σ} {fd : ChildFd} : Acts S w (.close fd) (w.release fd)
  | exit {w : World σ} {st : Int} {kept : ChildFd → Bool} :
      w.status = none → Acts S w (.exit st kept) (w.terminate st kept)
  | idle {w : World σ} : Acts S w .idle w

/-! ## The interleaving -/

/-- Who moved, and how. -/
inductive Label where
  /-- the parent made a call and got its reply -/
  | parent (c : Call) (r : Reply)
  /-- the child's family moved -/
  | child (a : Action)
  /-- the child died of the SIGKILL -/
  | die (kept : ChildFd → Bool)
  /-- the clock advanced -/
  | tick (nanos : Nat)

/-- A read that fails for a reason other than a signal. -/
def Label.readFails : Label → Prop
  | .parent (.read _ _) (.failed e) => e ≠ .eintr
  | _ => False

/-- A poll that fails for a reason other than a signal. -/
def Label.pollFails : Label → Prop
  | .parent (.poll _ _) (.failed e) => e ≠ .eintr
  | _ => False

/-- One step of a parent `Par` and a child `B` in the world. -/
inductive Step {X : Type} (S : Setting) (B : Behaviour)
    (Par : X → Call → Reply → X → Prop) :
    X × World B.State → Label → X × World B.State → Prop
  | parent {x x' : X} {w w' : World B.State} {c : Call} {r : Reply} :
      Par x c r x' → Answers S w c r w' →
      Step S B Par (x, w) (.parent c r) (x', w')
  | child {x : X} {w w' : World B.State} {a : Action} {q : B.State} :
      B.act w.child a q → Acts S w a w' →
      Step S B Par (x, w) (.child a) (x, w'.become q)
  | die {x : X} {w : World B.State} {kept : ChildFd → Bool} :
      w.killed = true → w.status = none →
      Step S B Par (x, w) (.die kept) (x, w.terminate 9 kept)
  | tick {x : X} {w : World B.State} (nanos : Nat) :
      Step S B Par (x, w) (.tick nanos) (x, w.tick nanos)

/-- A parent that is simulated by another one is simulated in every world. -/
theorem simulates_step {X Y : Type} {S : Setting} {B : Behaviour} {R : X → Y → Prop}
    {Par : X → Call → Reply → X → Prop} {Par' : Y → Call → Reply → Y → Prop}
    (hsim : ∀ {x x' : X} {y : Y} {c : Call} {r : Reply},
      R x y → Par x c r x' → ∃ y', Par' y c r y' ∧ R x' y') :
    Foundation.Simulates (fun (x : X × World B.State) (y : Y × World B.State) =>
        R x.1 y.1 ∧ x.2 = y.2)
      (Step S B Par) (Step S B Par') := by
  rintro ⟨x, w⟩ s' ⟨y, _⟩ l ⟨hR, rfl⟩ hstep
  cases hstep with
  | parent hpar hans =>
      obtain ⟨y', hpar', hR'⟩ := hsim hR hpar
      exact ⟨(y', _), .parent hpar' hans, hR', rfl⟩
  | child hact hacts => exact ⟨(y, _), .child hact hacts, hR, rfl⟩
  | die hkilled hstatus => exact ⟨(y, _), .die hkilled hstatus, hR, rfl⟩
  | tick nanos => exact ⟨(y, _), .tick nanos, hR, rfl⟩

theorem runs_of_simulates {X Y : Type} {S : Setting} {B : Behaviour} {R : X → Y → Prop}
    {Par : X → Call → Reply → X → Prop} {Par' : Y → Call → Reply → Y → Prop}
    (hsim : ∀ {x x' : X} {y : Y} {c : Call} {r : Reply},
      R x y → Par x c r x' → ∃ y', Par' y c r y' ∧ R x' y')
    {x x' : X} {y : Y} {w w' : World B.State} {ls : List Label} (hR : R x y)
    (hrun : Foundation.Runs (Step S B Par) (x, w) ls (x', w')) :
    ∃ y', Foundation.Runs (Step S B Par') (y, w) ls (y', w') ∧ R x' y' := by
  have hlift : Foundation.Simulates (fun (a : X × World B.State) (b : Y × World B.State) =>
      R a.1 b.1 ∧ a.2 = b.2) (Step S B Par) (Step S B Par') := simulates_step hsim
  have hstart : R x y ∧ w = w := ⟨hR, rfl⟩
  obtain ⟨⟨y', _⟩, hruns, hR', hw⟩ := hlift.runs (y, w) hstart hrun
  cases hw
  exact ⟨y', hruns, hR'⟩

/-! ## Executable schedules

A scripted child and a machine are both deterministic, so a schedule only has to
say whose turn it is and what the kernel replies.  `perform` plays one, and
`perform_sound` turns it into a run of `Step`. -/

instance (S : Setting) (w : World σ) (s : Stream) : Decidable (w.HasWriter S s) :=
  decidable_of_iff
    (∃ fd ∈ [ChildFd.stdin, ChildFd.stdout, ChildFd.stderr],
      w.holds fd = true ∧ S.route fd = some s) <| by
    constructor
    · rintro ⟨fd, -, h⟩
      exact ⟨fd, h⟩
    · rintro ⟨fd, h⟩
      exact ⟨fd, by cases fd <;> simp, h⟩

/-- The world after `c` is answered with `r`, if the kernel may answer so. -/
def World.answer (S : Setting) (w : World σ) : Call → Reply → Option (World σ)
  | .write data, .wrote n =>
      if w.holds .stdin = true ∧ 0 < n ∧ n ≤ data.length ∧
          w.stdinPipe.length + n ≤ S.capacity then some (w.feed (data.take n))
      else none
  | c, .failed .eintr => if c.interruptible then some w else none
  | .closeStdin, .done => some w.hangUp
  | .clock, .time t => if t = w.clock then some w else none
  | .poll _ ms, .lapsed => if 0 ≤ ms then some w else none
  | .poll _ _, .ready _ => some w
  | .read s size, .bytes bs =>
      if bs = [] then
        if w.pipe s = [] ∧ ¬ w.HasWriter S s then some w else none
      else if bs.length ≤ size ∧ (w.pipe s).take bs.length = bs then
        some (w.drain s ((w.pipe s).drop bs.length))
      else none
  | .kill, .done => some w.sendKill
  | .waitpid, .status st => if w.status = some st then some w else none
  | .allocate _, .memory ok => if ok = true ∨ S.faults = true then some w else none
  | .closeOutput, .done => some w.stopCollecting
  | _, _ => none

theorem World.answer_sound {S : Setting} {w w' : World σ} {c : Call} {r : Reply}
    (h : w.answer S c r = some w') : Answers S w c r w' := by
  unfold World.answer at h
  split at h
  · split at h
    · rename_i hc
      cases h
      exact .wrote hc.1 hc.2.1 hc.2.2.1 hc.2.2.2
    · cases h
  · split at h
    · rename_i hc
      cases h
      exact .interrupted hc
    · cases h
  · cases h; exact .closedStdin
  · split at h
    · rename_i hc
      cases h
      subst hc
      exact .clock
    · cases h
  · split at h
    · rename_i hc
      cases h
      exact .lapsed hc
    · cases h
  · cases h; exact .ready
  · split at h
    · rename_i hnil
      subst hnil
      split at h
      · rename_i hc
        cases h
        exact .endOfFile hc.1 hc.2
      · cases h
    · rename_i s size bs hne
      split at h
      · rename_i hc
        cases h
        refine .bytes hne hc.1 ?_
        conv_lhs => rw [← List.take_append_drop bs.length (w.pipe s), hc.2]
      · cases h
  · cases h; exact .killed
  · split at h
    · rename_i hc
      cases h
      exact .status hc
    · cases h
  · split at h
    · rename_i hc
      cases h
      refine .memory fun hfail => ?_
      rcases hc with hc | hc
      · rw [hfail] at hc
        cases hc
      · exact hc
    · cases h
  · cases h; exact .closedOutput
  · cases h

/-- The world after the family makes the move `a`, if it can. -/
def World.move (S : Setting) (w : World σ) : Action → Option (World σ)
  | .read bs =>
      if bs = [] then
        if w.holds .stdin = true ∧ w.stdinPipe = [] ∧ w.feederOpen = false then some w
        else none
      else if w.holds .stdin = true ∧ w.stdinPipe.take bs.length = bs then
        some (w.consume (w.stdinPipe.drop bs.length))
      else none
  | .write fd bs =>
      match S.route fd with
      | none => none
      | some s =>
          if w.holds fd = true ∧ w.collecting = true ∧ bs ≠ [] ∧
              (w.pipe s).length + bs.length ≤ S.capacity then some (w.emit s bs)
          else none
  | .close fd => some (w.release fd)
  | .exit st kept => if w.status = none then some (w.terminate st kept) else none
  | .idle => some w

theorem World.move_sound {S : Setting} {w w' : World σ} {a : Action}
    (h : w.move S a = some w') : Acts S w a w' := by
  unfold World.move at h
  split at h
  · rename_i bs
    split at h
    · rename_i hnil
      subst hnil
      split at h
      · rename_i hc
        cases h
        exact .readEnd hc.1 hc.2.1 hc.2.2
      · cases h
    · rename_i hne
      split at h
      · rename_i hc
        cases h
        refine .read hc.1 hne ?_
        conv_lhs => rw [← List.take_append_drop bs.length w.stdinPipe, hc.2]
      · cases h
  · split at h
    · cases h
    · rename_i hroute
      split at h
      · rename_i hc
        cases h
        exact .write hc.1 hroute hc.2.1 hc.2.2.1 hc.2.2.2
      · cases h
  · cases h; exact .close
  · split at h
    · rename_i hc
      cases h
      exact .exit hc
    · cases h
  · cases h; exact .idle

/-- Whose turn it is. -/
inductive Turn where
  | parent (r : Reply)
  | child
  | die
  | tick (nanos : Nat)

section Perform

variable {X : Type} (S : Setting) (pending : X → Option Call) (advance : X → Reply → Option X)

/-- Play one turn; the child is the rest of its script. -/
def playTurn (x : X × World (List Action)) : Turn → Option (X × World (List Action))
  | .parent r =>
      (pending x.1).bind fun c =>
        (advance x.1 r).bind fun x' => (x.2.answer S c r).map fun w' => (x', w')
  | .child =>
      match x.2.child with
      | [] => none
      | a :: q => (x.2.move S a).map fun w' => (x.1, w'.become q)
  | .die =>
      if x.2.killed = true ∧ x.2.status = none then
        some (x.1, x.2.terminate 9 fun _ => false)
      else none
  | .tick nanos => some (x.1, x.2.tick nanos)

/-- Play the turns in order, checking `ok` after each of them. -/
def perform (ok : X × World (List Action) → Bool) :
    X × World (List Action) → List Turn → Option (X × World (List Action))
  | x, [] => some x
  | x, t :: ts =>
      (playTurn S pending advance x t).bind fun y =>
        if ok y = true then perform ok y ts else none

variable {S pending advance}

/-- A turn is a step; no call fails in it other than by a signal. -/
theorem playTurn_sound (moves : List Action) {x y : X × World (List Action)} {t : Turn}
    (h : playTurn S pending advance x t = some y) :
    ∃ l, Step S (.script moves)
        (fun x c r x' => pending x = some c ∧ advance x r = some x') x l y ∧
      ¬ l.readFails ∧ ¬ l.pollFails := by
  obtain ⟨p, w⟩ := x
  cases t with
  | parent r =>
      simp only [playTurn, Option.bind_eq_some_iff, Option.map_eq_some_iff] at h
      obtain ⟨c, hc, p', hp', w', hw', rfl⟩ := h
      refine ⟨.parent c r, .parent ⟨hc, hp'⟩ (World.answer_sound hw'), ?_, ?_⟩
      · intro hfails
        cases c <;> cases r <;> simp_all [Label.readFails, World.answer]
      · intro hfails
        cases c <;> cases r <;> simp_all [Label.pollFails, World.answer]
  | child =>
      simp only [playTurn] at h
      split at h
      · cases h
      · rename_i a q hscript
        obtain ⟨w', hw', rfl⟩ := Option.map_eq_some_iff.mp h
        exact ⟨.child a, .child hscript (World.move_sound hw'), id, id⟩
  | die =>
      simp only [playTurn] at h
      split at h
      · rename_i hc
        cases h
        exact ⟨.die _, .die hc.1 hc.2, id, id⟩
      · cases h
  | tick nanos =>
      cases h
      exact ⟨.tick nanos, .tick nanos, id, id⟩

/-- A schedule that can be played is a run without failing reads and polls, all
of whose states pass the check. -/
theorem perform_sound (moves : List Action) {ok : X × World (List Action) → Bool}
    {ts : List Turn} {x y : X × World (List Action)}
    (h : perform S pending advance ok x ts = some y) :
    ∃ ls, Foundation.Runs
      (Foundation.Guarded
        (Step S (.script moves) fun x c r x' => pending x = some c ∧ advance x r = some x')
        fun l z => (¬ l.readFails ∧ ¬ l.pollFails) ∧ ok z = true) x ls y := by
  induction ts generalizing x with
  | nil => cases h; exact ⟨[], .refl _⟩
  | cons t ts ih =>
      obtain ⟨z, hz, hrest⟩ := Option.bind_eq_some_iff.mp h
      split at hrest
      · rename_i hok
        obtain ⟨l, hstep, hlabel⟩ := playTurn_sound moves hz
        obtain ⟨ls, hls⟩ := ih hrest
        exact ⟨l :: ls, .head ⟨hstep, hlabel, hok⟩ hls⟩
      · cases hrest

/-- A schedule that ends in a state with the property `P` reaches such a state. -/
theorem perform_reaches (moves : List Action) {ok P : X × World (List Action) → Bool}
    {ts : List Turn} {x : X × World (List Action)}
    (h : (perform S pending advance ok x ts).any P = true) :
    ∃ ls y, Foundation.Runs
      (Foundation.Guarded
        (Step S (.script moves) fun x c r x' => pending x = some c ∧ advance x r = some x')
        fun l z => (¬ l.readFails ∧ ¬ l.pollFails) ∧ ok z = true) x ls y ∧ P y = true := by
  cases hy : perform S pending advance ok x ts with
  | none => simp [hy] at h
  | some y =>
      obtain ⟨ls, hls⟩ := perform_sound moves hy
      exact ⟨ls, y, hls, by simpa [hy] using h⟩

end Perform

end Ftl.Process
