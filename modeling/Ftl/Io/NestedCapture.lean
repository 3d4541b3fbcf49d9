/-
  Io/NestedCapture.lean --- `capture_stdout` scopes inside one another.

  A program prints, writes to descriptor 1 and opens scopes, and every scope is left
  normally or by an exception.  What it did is read off its events; where its bytes ended
  up, off the open files.

      exec_sound      a piece of a program keeps descriptors, delivers its bytes to the
                      innermost capture and leaves the captures around it alone
      captures_route  so every program routes every byte and restores the target, and a
                      constructor returns exactly when it finds what it needs
-/
import Ftl.Io.FdCapture

set_option autoImplicit false

namespace Ftl.Io

open Foundation (FdTable Shuffle)
open Function (update)
open Process (Bytes)

/-! ## Programs -/

/-- How a statement ends. -/
inductive Outcome where
  | returned
  | thrown
  deriving DecidableEq, Repr

/-- A program: its statements as it comes to them, with what is not its own choice. -/
inductive Prog where
  | done
  | throw
  /-- stdio has written `flushed` bytes when the print returns -/
  | print (bs : Bytes) (flushed : Nat) (next : Prog)
  | write (bs : Bytes) (next : Prog)
  /-- `{ FdCapture capture(STDOUT_FILENO, stdout); body; ... }`: `reads` if `content()` is
  the last action of the scope, `ends` for how the scope is left after it -/
  | capture (found : Resources) (body : Prog) (reads : Bool) (ends : Outcome) (next : Prog)
  /-- `try { body } catch (...) {}` -/
  | attempt (body next : Prog)

/-- `capture_stdout(fn)`. -/
def Prog.captureStdout (found : Resources) (fn next : Prog) : Prog :=
  .capture found fn true .returned next

/-- How bytes leave a program. -/
inductive Channel where
  | stdio
  | raw
  deriving DecidableEq, Repr

/-- What a program does. -/
inductive Event where
  /-- a constructor has returned, with the temporary file `k` -/
  | enter (k : Nat)
  /-- a destructor has run -/
  | leave
  | emit (channel : Channel) (bs : Bytes)
  /-- `content()` of the capture with the file `k` has returned -/
  | content (k : Nat) (out : Bytes)
  deriving DecidableEq, Repr

/-- The end of a statement. -/
structure Ran where
  outcome : Outcome
  proc : Proc
  events : List Event

namespace Ran

/-- With what has happened before. -/
def log (before : List Event) (r : Ran) : Ran := { r with events := before ++ r.events }

/-- The next statement, unless an exception is on its way. -/
def andThen (r : Ran) (next : Proc → Ran) : Ran :=
  match r.outcome with
  | .returned => (next r.proc).log r.events
  | .thrown => r

end Ran

namespace FdCapture

/-- `content()` as a statement. -/
def read (block k : Nat) (c : FdCapture) (s : Proc) : Ran :=
  match c.content block s with
  | (some out, s') => { outcome := .returned, proc := s', events := [.content k out] }
  | (none, s') => { outcome := .thrown, proc := s', events := [] }

/-- What is left of a scope when its body has run. -/
def finish (block k : Nat) (reads : Bool) (ends : Outcome) (c : FdCapture) (s : Proc) : Ran :=
  (if reads then c.read block k s
    else { outcome := .returned, proc := s, events := [] }).andThen
    fun s' => { outcome := ends, proc := s', events := [] }

/-- The end of a scope: the destructor runs, whatever the outcome. -/
def leave (limit : Nat) (c : FdCapture) (r : Ran) : Ran :=
  { r with proc := c.destruct limit r.proc, events := r.events ++ [.leave] }

end FdCapture

/-- A program, from a state on. -/
def Prog.exec (limit block : Nat) : Prog → Proc → Ran
  | .done, s => { outcome := .returned, proc := s, events := [] }
  | .throw, s => { outcome := .thrown, proc := s, events := [] }
  | .print bs flushed next, s =>
      (next.exec limit block (s.print bs flushed)).log [.emit .stdio bs]
  | .write bs next, s => (next.exec limit block (s.write stdoutFileno bs)).log [.emit .raw bs]
  | .capture found body reads ends next, s =>
      match FdCapture.construct limit found stdoutFileno true s with
      | (none, s') => { outcome := .thrown, proc := s', events := [] }
      | (some c, s') =>
          ((c.leave limit ((body.exec limit block s').andThen
              (c.finish block s.made reads ends))).log [.enter s.made]).andThen
            (next.exec limit block)
  | .attempt body next, s =>
      (next.exec limit block (body.exec limit block s).proc).log (body.exec limit block s).events

/-! ## Where the bytes belong -/

/-- The captures that are active after `events`, innermost first. -/
def nesting : List Sink → List Event → List Sink
  | stack, [] => stack
  | stack, .enter k :: events => nesting (.captured k :: stack) events
  | stack, .leave :: events => nesting stack.tail events
  | stack, .emit _ _ :: events => nesting stack events
  | stack, .content _ _ :: events => nesting stack events

/-- The bytes that leave through `channel` while `sink` is innermost. -/
def routed (channel : Channel) (sink : Sink) : List Sink → List Event → Bytes
  | _, [] => []
  | stack, .enter k :: events => routed channel sink (.captured k :: stack) events
  | stack, .leave :: events => routed channel sink stack.tail events
  | stack, .emit channel' bs :: events =>
      (if channel' = channel ∧ stack.head? = some sink then bs else []) ++
        routed channel sink stack events
  | stack, .content _ _ :: events => routed channel sink stack events

theorem nesting_append (stack : List Sink) (events events' : List Event) :
    nesting stack (events ++ events') = nesting (nesting stack events) events' := by
  induction events generalizing stack with
  | nil => rfl
  | cons e events ih =>
      cases e with
      | enter k => exact ih _
      | leave => exact ih _
      | emit channel bs => exact ih _
      | content k out => exact ih _

theorem routed_append (channel : Channel) (sink : Sink) (stack : List Sink)
    (events events' : List Event) :
    routed channel sink stack (events ++ events') =
      routed channel sink stack events ++ routed channel sink (nesting stack events) events' := by
  induction events generalizing stack with
  | nil => rfl
  | cons e events ih =>
      cases e with
      | enter k => exact ih _
      | leave => exact ih _
      | emit channel' bs =>
          simp only [List.cons_append, routed, nesting, ih, List.append_assoc]
      | content k out => exact ih _

/-! ## A piece of a program -/

/-- What happens inside a scope stays inside: descriptors are back, and files from before
other than the target's are untouched. -/
structure Frame (top : Sink) (s s' : Proc) : Prop where
  slot : ∀ n, s'.table.slot n = s.table.slot n
  made : s.made ≤ s'.made
  outer : ∀ sink, sink ≠ top → (∀ k, sink = .captured k → k < s.made) →
    s'.files sink = s.files sink

/-- A piece of a program that starts in `s`, with `top` innermost, and ends as `r`.  Whatever
happens inside, the piece ends with `top` innermost again; that is what lets pieces follow each
other. -/
structure Sound (top : Sink) (s : Proc) (r : Ran) : Prop where
  valid : Valid top r.proc
  frame : Frame top s r.proc
  balanced : ∀ rest, nesting (top :: rest) r.events = top :: rest
  delivers : ∀ rest, Delivers (fun sink => routed .stdio sink (top :: rest) r.events)
    (fun sink => routed .raw sink (top :: rest) r.events) s r.proc

/-- One that has read no file but those of its own captures, and these in full. -/
structure Unreading (top : Sink) (s : Proc) (r : Ran) : Prop extends Sound top s r where
  stream : (r.proc.files top).stream = (s.files top).stream
  contents : ∀ k out, Event.content k out ∈ r.events →
    s.made ≤ k ∧ k < r.proc.made ∧ (r.proc.files (.captured k)).file.data = out

section Pieces

variable {top : Sink} {s s' t : Proc} {r r' : Ran}

theorem Frame.refl (top : Sink) (s : Proc) : Frame top s s :=
  ⟨fun _ => rfl, Nat.le_refl _, fun _ _ _ => rfl⟩

theorem Frame.trans (h : Frame top s s') (h' : Frame top s' t) : Frame top s t where
  slot := fun n => (h'.slot n).trans (h.slot n)
  made := Nat.le_trans h.made h'.made
  outer := by
    intro sink hne hold
    rw [h'.outer sink hne fun k hk => Nat.lt_of_lt_of_le (hold k hk) h.made]
    exact h.outer sink hne hold

/-- The innermost capture is an earlier one than those to come. -/
theorem Valid.top_old (h : Valid top s) (k : Nat) (hk : top = .captured k) : k < s.made :=
  h.old stdoutFileno k (hk ▸ h.target)

theorem Valid.captured_ne (h : Valid top s) {k : Nat} (hk : s.made ≤ k) :
    Sink.captured k ≠ top := by
  intro heq
  have hless := h.top_old k heq.symm
  omega

theorem Delivers.congr {stdio raw stdio' raw' : Sink → Bytes} (h : Delivers stdio raw s s')
    (hstdio : ∀ sink, stdio sink = stdio' sink) (hraw : ∀ sink, raw sink = raw' sink) :
    Delivers stdio' raw' s s' := by
  rw [← funext hstdio, ← funext hraw]
  exact h

theorem Sound.log (h : Sound top s r) (h' : Sound top r.proc r') :
    Sound top s (r'.log r.events) where
  valid := h'.valid
  frame := h.frame.trans h'.frame
  balanced := by
    intro rest
    exact (nesting_append _ _ _).trans ((h.balanced rest).symm ▸ h'.balanced rest)
  delivers := by
    intro rest
    apply ((h.delivers rest).trans (h'.delivers rest)).congr
    · intro sink
      exact ((routed_append _ _ _ _ _).trans (by rw [h.balanced])).symm
    · intro sink
      exact ((routed_append _ _ _ _ _).trans (by rw [h.balanced])).symm

/-- The same, when the second piece only runs without an exception. -/
theorem Sound.andThen (h : Sound top s r) {next : Proc → Ran}
    (h' : Sound top r.proc (next r.proc)) : Sound top s (r.andThen next) := by
  unfold Ran.andThen
  split
  · exact h.log h'
  · exact h

theorem Sound.of_step (hvalid : Valid top s') (hframe : Frame top s s') {outcome : Outcome}
    (hdelivers : Delivers nothing nothing s s') :
    Sound top s { outcome := outcome, proc := s', events := [] } where
  valid := hvalid
  frame := hframe
  balanced := fun _ => rfl
  delivers := fun _ => hdelivers

theorem Sound.refl (h : Valid top s) (outcome : Outcome) :
    Sound top s { outcome := outcome, proc := s, events := [] } :=
  .of_step h (Frame.refl top s) (delivers_refl s)

theorem Unreading.of_step (hvalid : Valid top s') (hframe : Frame top s s')
    (hstream : (s'.files top).stream = (s.files top).stream) {outcome : Outcome}
    (hdelivers : Delivers nothing nothing s s') :
    Unreading top s { outcome := outcome, proc := s', events := [] } where
  toSound := .of_step hvalid hframe hdelivers
  stream := hstream
  contents := by
    intro k out hmem
    cases hmem

theorem Unreading.refl (h : Valid top s) (outcome : Outcome) :
    Unreading top s { outcome := outcome, proc := s, events := [] } :=
  .of_step h (Frame.refl top s) rfl (delivers_refl s)

theorem Unreading.log (hs : Valid top s) (h : Unreading top s r) (h' : Unreading top r.proc r') :
    Unreading top s (r'.log r.events) where
  toSound := h.toSound.log h'.toSound
  stream := h'.stream.trans h.stream
  contents := by
    intro k out hmem
    rcases List.mem_append.mp hmem with hbefore | hafter
    · obtain ⟨hlow, hhigh, hdata⟩ := h.contents k out hbefore
      refine ⟨hlow, Nat.lt_of_lt_of_le hhigh h'.frame.made, ?_⟩
      rw [← hdata]
      have houter := h'.frame.outer (.captured k) (hs.captured_ne hlow) (by
        intro j hj
        cases hj
        exact hhigh)
      exact congrArg (·.file.data) houter
    · obtain ⟨hlow, hhigh, hdata⟩ := h'.contents k out hafter
      exact ⟨Nat.le_trans h.frame.made hlow, hhigh, hdata⟩

theorem Unreading.andThen (hs : Valid top s) (h : Unreading top s r) {next : Proc → Ran}
    (h' : Unreading top r.proc (next r.proc)) : Unreading top s (r.andThen next) := by
  unfold Ran.andThen
  split
  · exact h.log hs h'
  · exact h

/-! ## Prints and writes -/

theorem routed_emit (channel channel' : Channel) (bs : Bytes) (rest : List Sink) (sink : Sink) :
    routed channel sink (top :: rest) [.emit channel' bs] =
      if channel' = channel then only top bs sink else [] := by
  simp only [routed, List.head?_cons, List.append_nil, Option.some.injEq]
  unfold only
  by_cases hsink : sink = top
  · subst hsink
    simp
  · have hne : ¬ top = sink := fun heq => hsink heq.symm
    simp [hsink, hne, nothing]

theorem Valid.frame_write (h : Valid top s) (bs : Bytes) :
    Frame top s (s.write stdoutFileno bs) where
  slot := fun n => by rw [s.table_write]
  made := Nat.le_of_eq (s.made_write _ _).symm
  outer := by
    intro sink hne _
    rw [h.write_eq]
    exact Function.update_of_ne hne _ _

theorem unreading_print (h : Valid top s) (bs : Bytes) (flushed : Nat) :
    Unreading top s ⟨.returned, s.print bs flushed, [.emit .stdio bs]⟩ where
  valid := h.print bs flushed
  frame := ⟨(h.frame_write _).slot, (h.frame_write _).made, (h.frame_write _).outer⟩
  balanced := fun _ => rfl
  delivers := by
    intro rest
    apply (h.delivers_print bs flushed).congr
    · intro sink
      exact (routed_emit .stdio .stdio bs rest sink).symm
    · intro sink
      exact (routed_emit .raw .stdio bs rest sink).symm
  contents := by
    intro k out hmem
    cases List.mem_singleton.mp hmem
  stream := h.stream_write _ top

theorem unreading_write (h : Valid top s) (bs : Bytes) :
    Unreading top s ⟨.returned, s.write stdoutFileno bs, [.emit .raw bs]⟩ where
  valid := h.write bs
  frame := h.frame_write bs
  balanced := fun _ => rfl
  delivers := by
    intro rest
    apply (h.delivers_write bs).congr
    · intro sink
      exact (routed_emit .stdio .raw bs rest sink).symm
    · intro sink
      exact (routed_emit .raw .raw bs rest sink).symm
  contents := by
    intro k out hmem
    cases List.mem_singleton.mp hmem
  stream := h.stream_write _ top

/-! ## Scopes -/

variable {limit block : Nat} {found : Resources} {c : FdCapture}

/-- A constructor that gets as far as the temporary file leaves earlier files alone. -/
theorem Valid.outer_made (h : Valid top s) {sink : Sink} (hne : sink ≠ top)
    (hold : ∀ k, sink = .captured k → k < s.made) :
    update s.fflush.files (.captured s.made) .tmpfile sink = s.files sink := by
  have hsink : sink ≠ .captured s.made := fun heq => Nat.lt_irrefl _ (hold _ heq)
  rw [Function.update_of_ne hsink]
  exact h.files_fflush_of_ne hne

theorem Valid.stream_made (h : Valid top s) :
    (update s.fflush.files (.captured s.made) .tmpfile top).stream = (s.files top).stream := by
  rw [Function.update_of_ne (h.captured_ne (Nat.le_refl _)).symm]
  exact h.stream_fflush top

theorem unreading_construct_none (h : Valid top s)
    (hc : FdCapture.construct limit found stdoutFileno true s = (none, s')) :
    Unreading top s { outcome := .thrown, proc := s', events := [] } := by
  obtain ⟨hdelivers, hvalid⟩ := h.delivers_construct_none hc
  have hnone : (FdCapture.construct limit found stdoutFileno true s).1 = none := by rw [hc]
  have hslot := FdCapture.slot_construct_none hnone
  obtain ⟨-, hfiles⟩ := FdCapture.construct_none_eq hnone
  simp only [hc] at hslot hfiles
  rcases hfiles with ⟨hfiles, hmade⟩ | ⟨hfiles, hmade⟩
  · apply Unreading.of_step hvalid ⟨hslot, Nat.le_of_eq hmade.symm, ?_⟩ ?_ hdelivers
    · intro sink hne _
      rw [hfiles]
      exact h.files_fflush_of_ne hne
    · rw [hfiles]
      exact h.stream_fflush top
  · apply Unreading.of_step hvalid ⟨hslot, by omega, ?_⟩ ?_ hdelivers
    · intro sink hne hold
      rw [hfiles]
      exact h.outer_made hne hold
    · rw [hfiles]
      exact h.stream_made

/-- `content()` returns what the file has when its capture ends. -/
def ReadsAll (k : Nat) (r : Ran) : Prop :=
  ∀ k' out, Event.content k' out ∈ r.events →
    k' = k ∧ (r.proc.fflush.files (.captured k)).file.data = out

theorem sound_read {k : Nat} (h : Valid (.captured k) t) (hblock : 0 < block)
    (hstream : c.stream = true) (hfile : t.table.slot c.file = some (.captured k))
    (hunread : (t.files (.captured k)).stream = Opened.tmpfile.stream) :
    Sound (.captured k) t (c.read block k t) ∧ ReadsAll k (c.read block k t) := by
  obtain ⟨read, hcontent, hend⟩ := h.content hblock hstream hfile hunread
  have hafter := h.fflush.afterContent hend
  have hempty : (only (.captured k) t.fflush.buffer : Sink → Bytes) = nothing := by
    rw [h.buffer_fflush]
    exact Function.update_eq_self _ nothing
  have hdelivers : Delivers nothing nothing t
      { t.fflush with files := update t.fflush.files (.captured k) read } := by
    refine h.delivers_fflush.trans (delivers_nothing h.buffer_fflush h.buffer_fflush ?_)
    intro sink
    by_cases hsink : sink = .captured k
    · subst hsink
      simp only [Function.update_self, hend.file_eq]
    · simp only [Function.update_of_ne hsink]
  unfold FdCapture.read
  rw [hcontent]
  refine ⟨⟨hafter, ⟨fun n => by rw [← t.table_fflush], Nat.le_of_eq t.made_fflush.symm, ?_⟩,
    fun rest => rfl, fun rest => hdelivers⟩, ?_⟩
  · intro sink hne _
    simp only [Function.update_of_ne hne]
    exact h.files_fflush_of_ne hne
  · intro k' out hmem
    cases List.mem_singleton.mp hmem
    refine ⟨rfl, ?_⟩
    rw [hafter.fflush_eq, hafter.file_write, hempty]
    simp only [Function.update_self, nothing, List.append_nil, hend.file_eq]

theorem sound_finish {k : Nat} (h : Valid (.captured k) t) (hblock : 0 < block)
    (hstream : c.stream = true) (hfile : t.table.slot c.file = some (.captured k))
    (hunread : (t.files (.captured k)).stream = Opened.tmpfile.stream) (reads : Bool)
    (ends : Outcome) :
    Sound (.captured k) t (c.finish block k reads ends t) ∧
      ReadsAll k (c.finish block k reads ends t) := by
  unfold FdCapture.finish
  cases reads with
  | true =>
      obtain ⟨hsound, hreads⟩ := sound_read h hblock hstream hfile hunread
      refine ⟨hsound.andThen (.refl hsound.valid ends), ?_⟩
      unfold Ran.andThen
      split
      · rename_i hreturned
        unfold ReadsAll Ran.log
        simp only [if_true, List.append_nil]
        exact hreads
      · exact hreads
  | false =>
      refine ⟨(Sound.refl h .returned).andThen (.refl h ends), ?_⟩
      intro k' out hmem
      cases hmem

/-- The file of the capture is what its descriptor is open on. -/
theorem slot_file (hc : FdCapture.Constructed limit true top s c s') :
    s'.table.slot c.file = some (.captured s.made) := by
  rw [hc.slot, if_neg hc.distinct.symm, if_pos rfl]
  exact ite_self _

/-- The files around a capture, after its destructor. -/
theorem files_leave (hc : FdCapture.Constructed limit true top s c s')
    (hr : Sound (.captured s.made) s' r) {sink : Sink} (hne : sink ≠ .captured s.made)
    (hold : ∀ k, sink = .captured k → k < s.made) :
    (c.destruct limit r.proc).files sink =
      update s.fflush.files (.captured s.made) .tmpfile sink := by
  have hold' : ∀ k, sink = .captured k → k < s'.made := by
    intro k hk
    rw [hc.made]
    exact Nat.lt_succ_of_lt (hold k hk)
  rw [(hr.valid.destruct_eq hc.stream_eq).1, hr.valid.files_fflush_of_ne hne,
    hr.frame.outer sink hne hold', hc.files]
  rfl

theorem nesting_scope (hr : Sound (.captured s.made) s' r) (rest : List Sink) :
    nesting (top :: rest) ([.enter s.made] ++ (r.events ++ [.leave])) = top :: rest := by
  rw [nesting_append, nesting_append]
  exact congrArg List.tail (hr.balanced (top :: rest))

/-- What leaves the program inside it does so one scope deeper. -/
theorem routed_scope (channel : Channel) (sink : Sink) (rest : List Sink) (k : Nat)
    (events : List Event) :
    routed channel sink (top :: rest) ([.enter k] ++ (events ++ [.leave])) =
      routed channel sink (.captured k :: top :: rest) events := by
  rw [routed_append, routed_append]
  exact List.append_nil _

theorem made_leave (hc : FdCapture.Constructed limit true top s c s')
    (hr : Sound (.captured s.made) s' r) : s.made < (c.destruct limit r.proc).made := by
  have hbody := hr.frame.made
  rw [hc.made] at hbody
  rw [(hr.valid.destruct_eq hc.stream_eq).2.2]
  omega

theorem slot_leave (h : Valid top s) (hc : FdCapture.Constructed limit true top s c s')
    (hr : Sound (.captured s.made) s' r) (n : Nat) :
    (c.destruct limit r.proc).table.slot n = s.table.slot n :=
  FdCapture.slot_scope hc h.target hr.frame.slot n

theorem valid_leave (h : Valid top s) (hc : FdCapture.Constructed limit true top s c s')
    (hr : Sound (.captured s.made) s' r) : Valid top (c.destruct limit r.proc) := by
  obtain ⟨hfiles, -, hmade⟩ := @Valid.destruct_eq _ _ limit c hr.valid hc.stream_eq
  refine ⟨(slot_leave h hc hr _).trans h.target, ?_, ?_, ?_⟩
  · intro n k hopen
    exact Nat.lt_trans (h.old n k ((slot_leave h hc hr n).symm.trans hopen)) (made_leave hc hr)
  · rw [hfiles]
    exact hr.valid.fflush.atEnd
  · rw [hfiles, hmade, ← r.proc.made_fflush]
    exact hr.valid.fflush.unused

/-- The scope up to its end, and then the destructor. -/
theorem unreading_leave (h : Valid top s) (hc : FdCapture.Constructed limit true top s c s')
    (hr : Sound (.captured s.made) s' r)
    (hcontents : ∀ k out, Event.content k out ∈ r.events →
      s.made ≤ k ∧ k < r.proc.made ∧ (r.proc.fflush.files (.captured k)).file.data = out) :
    Unreading top s ((c.leave limit r).log [.enter s.made]) where
  valid := valid_leave h hc hr
  frame := by
    refine ⟨slot_leave h hc hr, Nat.le_of_lt (made_leave hc hr), ?_⟩
    intro sink hne hold
    have hsink : sink ≠ .captured s.made := fun heq => Nat.lt_irrefl _ (hold _ heq)
    exact (files_leave hc hr hsink hold).trans (h.outer_made hne hold)
  balanced := nesting_scope hr
  delivers := by
    intro rest
    have hbody := (h.delivers_construct hc).trans (hr.delivers (top :: rest))
    apply (hbody.trans (hr.valid.delivers_destruct hc.stream_eq)).congr
    · intro sink
      exact (List.append_nil _).trans (routed_scope .stdio sink rest s.made r.events).symm
    · intro sink
      exact (List.append_nil _).trans (routed_scope .raw sink rest s.made r.events).symm
  stream := by
    have htop := files_leave hc hr (h.captured_ne (Nat.le_refl _)).symm h.top_old
    exact (congrArg Opened.stream htop).trans h.stream_made
  contents := by
    intro k out hmem
    obtain ⟨hfiles, -, hmade⟩ := @Valid.destruct_eq _ _ limit c hr.valid hc.stream_eq
    have hinside : Event.content k out ∈ r.events := by
      simpa [Ran.log, FdCapture.leave] using hmem
    obtain ⟨hlow, hhigh, hdata⟩ := hcontents k out hinside
    simp only [Ran.log, FdCapture.leave, hmade, hfiles]
    exact ⟨hlow, hhigh, hdata⟩

/-- A whole scope, from its constructor to its destructor. -/
theorem unreading_scope (h : Valid top s) (hblock : 0 < block)
    (hc : FdCapture.Constructed limit true top s c s') (hr : Unreading (.captured s.made) s' r)
    (reads : Bool) (ends : Outcome) :
    Unreading top s
      ((c.leave limit (r.andThen (c.finish block s.made reads ends))).log [.enter s.made]) := by
  have hfile : r.proc.table.slot c.file = some (.captured s.made) := by
    rw [hr.frame.slot, slot_file hc]
  have hunread : (r.proc.files (.captured s.made)).stream = Opened.tmpfile.stream := by
    rw [hr.stream, hc.files, Function.update_self]
  obtain ⟨hfinish, hreads⟩ := sound_finish hr.valid hblock hc.stream_eq hfile hunread reads ends
  apply unreading_leave h hc (hr.toSound.andThen hfinish)
  -- what the captures inside have returned stays what their files have
  have hinside : ∀ {t : Proc}, Valid (.captured s.made) t →
      Frame (.captured s.made) r.proc t → ∀ k out, Event.content k out ∈ r.events →
      s.made ≤ k ∧ k < t.made ∧ (t.fflush.files (.captured k)).file.data = out := by
    intro t ht hframe k out hmem
    obtain ⟨hlow, hhigh, hdata⟩ := hr.contents k out hmem
    rw [hc.made] at hlow
    have hne : Sink.captured k ≠ .captured s.made := by
      intro heq
      cases heq
      omega
    refine ⟨by omega, Nat.lt_of_lt_of_le hhigh hframe.made, ?_⟩
    rw [ht.files_fflush_of_ne hne, hframe.outer _ hne (by intro j hj; cases hj; exact hhigh)]
    exact hdata
  unfold Ran.andThen
  split
  · intro k out hmem
    rcases List.mem_append.mp hmem with hbefore | hlast
    · exact hinside hfinish.valid hfinish.frame k out hbefore
    · obtain ⟨hown, hdata⟩ := hreads k out hlast
      subst hown
      have hbody := hr.frame.made
      have hend := hfinish.frame.made
      rw [hc.made] at hbody
      exact ⟨Nat.le_refl _, by simp only [Ran.log]; omega, hdata⟩
  · exact hinside hr.valid (Frame.refl _ _)

end Pieces

/-! ## All programs -/

theorem exec_sound (limit : Nat) {block : Nat} (hblock : 0 < block) (p : Prog) {top : Sink}
    {s : Proc} (h : Valid top s) : Unreading top s (p.exec limit block s) := by
  induction p generalizing top s with
  | done => exact .refl h .returned
  | throw => exact .refl h .thrown
  | print bs flushed next ih =>
      exact (unreading_print h bs flushed).log h (ih (h.print bs flushed))
  | write bs next ih => exact (unreading_write h bs).log h (ih (h.write bs))
  | capture found body reads ends next ihBody ihNext =>
      unfold Prog.exec
      split
      · rename_i s' hc
        exact unreading_construct_none h hc
      · rename_i c s' hc
        have hmade := FdCapture.constructed h.target hc
        have hscope := unreading_scope h hblock hmade (ihBody (h.construct hmade)) reads ends
        exact hscope.andThen h (ihNext hscope.valid)
  | attempt body next ihBody ihNext =>
      have hbody := ihBody h
      exact hbody.log h (ihNext hbody.valid)

theorem Valid.start {table : FdTable Nat} {orig : Nat}
    (hopen : table.slot stdoutFileno = some orig) :
    Valid (.inherited orig) (Proc.start table) where
  target := by
    rw [Proc.start, FdTable.slot_map, hopen]
    rfl
  old := by
    intro n k hslot
    rw [Proc.start, FdTable.slot_map] at hslot
    cases hobject : table.slot n with
    | none => rw [hobject] at hslot; cases hslot
    | some m => rw [hobject] at hslot; cases hslot
  atEnd := fun _ => rfl
  unused := fun _ _ => rfl

/-- A run from `table` that ended as `r`, with the flush of `stdout` at the exit. -/
structure Routed (table : FdTable Nat) (orig : Nat) (r : Ran) : Prop where
  /-- a sink has what was emitted while it was innermost, once, and each channel in order -/
  bytes : ∀ sink, Shuffle (routed .stdio sink [.inherited orig] r.events)
    (routed .raw sink [.inherited orig] r.events) (r.proc.fflush.files sink).file.data
  /-- `content()` has returned what the file has in the end -/
  returned : ∀ k out, Event.content k out ∈ r.events →
    (r.proc.fflush.files (.captured k)).file.data = out
  /-- every descriptor is open on what it was open on at the start, or closed as it was -/
  restored : ∀ n, r.proc.table.slot n = (table.slot n).map .inherited

/-- For every table with descriptor 1 open and every program of nested scopes, whatever
stdio flushes at a print, whichever constructors fail and however the scopes are left: every
byte ends up in the sink it belongs to and the table is as before.  In any state a constructor
returns if and only if it finds what it needs, and one that throws has changed no descriptor. -/
theorem captures_route (limit : Nat) {block : Nat} (hblock : 0 < block) {table : FdTable Nat}
    {orig : Nat} (hopen : table.slot stdoutFileno = some orig) (p : Prog) :
    Routed table orig (p.exec limit block (.start table)) ∧
      ∀ (found : Resources) (target : Nat) (stream : Bool) (s : Proc),
        ((FdCapture.construct limit found target stream s).1.isSome = true ↔
          s.Admits limit found target) ∧
        ((FdCapture.construct limit found target stream s).1 = none → ∀ n,
          (FdCapture.construct limit found target stream s).2.table.slot n = s.table.slot n) := by
  have hsound := exec_sound limit hblock p (Valid.start hopen)
  have hvalid := hsound.valid
  refine ⟨⟨fun sink => ?_, fun k out hmem => ?_, hsound.frame.slot⟩, ?_⟩
  · obtain ⟨sent, out, hpending, hshuffle, hdata⟩ :=
      (hsound.delivers []).trans hvalid.delivers_fflush sink
    -- nothing is pending at the start, nor after the last flush
    rw [Proc.pending_eq_nil hvalid.buffer_fflush, Proc.pending_eq_nil rfl] at hpending
    simp only [nothing, List.append_nil, List.nil_append] at hpending hshuffle
    rw [hdata, ← hpending]
    exact hshuffle
  · obtain ⟨hlow, hhigh, hdata⟩ := hsound.contents k out hmem
    rw [hvalid.files_fflush_of_ne (by intro heq; cases heq)]
    exact hdata
  · intro found target stream s
    exact ⟨FdCapture.isSome_construct_iff, FdCapture.slot_construct_none⟩

/-- A capture inside a capture that is left by an exception, with prints that stay in the
buffer across every boundary. -/
def nestedProgram : Prog :=
  .print [97] 0 <| .captureStdout ⟨true, true⟩
    (.print [98] 0 <| .write [99] <| .attempt
      (.capture ⟨true, true⟩ (.print [100] 0 .throw) false .returned .done)
      (.print [101] 1 .done))
    (.print [102] 0 .done)

/-- Three descriptors of sixteen are open. -/
def threeOpen : Proc := .start (.ofList [0, 1, 2])

/-- Both constructors return.  The raw byte overtakes the print before it, the outer `content()`
gives what was printed outside the inner capture, and the terminal gets the rest. -/
theorem captures_route_nested :
    Routed (.ofList [0, 1, 2]) 1 (nestedProgram.exec 16 4096 threeOpen) ∧
      (FdCapture.construct 16 ⟨true, true⟩ stdoutFileno true threeOpen).1.isSome = true ∧
      Event.content 0 [99, 98, 101] ∈ (nestedProgram.exec 16 4096 threeOpen).events ∧
      ((nestedProgram.exec 16 4096 threeOpen).proc.fflush.files (.inherited 1)).file.data =
        [97, 102] ∧
      ((nestedProgram.exec 16 4096 threeOpen).proc.fflush.files (.captured 1)).file.data =
        [100] := by
  obtain ⟨hrouted, hconstruct⟩ :=
    @captures_route 16 4096 (by decide) (.ofList [0, 1, 2]) 1 rfl nestedProgram
  refine ⟨hrouted, ?_, by decide +kernel, by decide +kernel, by decide +kernel⟩
  apply (hconstruct ⟨true, true⟩ stdoutFileno true threeOpen).1.mpr
  exact ⟨rfl, rfl, .inl rfl, 3, 4, by decide, by decide, rfl, rfl⟩

end Ftl.Io
