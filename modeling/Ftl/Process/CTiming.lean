/-
  Process/CTiming.lean --- the loop of `ftl_run_command` as far as the clock matters.

  `elapsed_ms` is computed from the first clock reading and the last one.  A move reads the
  clock, goes on with the loop, leaves it by a kill or at the end of the output, or has nothing
  to do with it.

      ctiming_of_moves     which of them a move is
      kept_of_runs         what the locals have to do with the readings
      left_of_runs         the loop is left once, by a kill or at the end of the output
-/
import Ftl.Process.Clocked
import Ftl.Process.RunCommand

set_option autoImplicit false

namespace Ftl.Process

open Foundation (Runs)

/-! ## What a move has to do with the clock -/

/-- The reply is an error that the loop gives up on. -/
def Reply.gaveUp : Reply → Bool
  | .failed .eintr => false
  | .failed _ => true
  | _ => false

theorem Reply.gaveUp_failed {e : Errno} (he : e ≠ .eintr) : (Reply.failed e).gaveUp = true := by
  cases e with
  | eintr => exact (he rfl).elim
  | epipe => rfl
  | other code => rfl

/-- The event is the end of the output, or an error of read or poll. -/
def Event.closes (e : Event) : Bool :=
  match e.call, e.reply with
  | .read _ _, .bytes [] => true
  | .read _ _, r => r.gaveUp
  | .poll _ _, r => r.gaveUp
  | _, _ => false

/-- Where a call of `ftl_run_command` is. -/
inductive Stage where
  | before
  | opening
  | looping
  | killing
  | after
  deriving DecidableEq

namespace CParent

/-- The stage of a state. -/
def stage : CParent → Stage
  | .feeding _ | .closing | .starting => .before
  | .allocating _ => .opening
  | .polling _ _ | .clocking _ _ | .reading _ | .growing _ _ _ => .looping
  | .killing _ => .killing
  | .closingOutput _ | .waiting _ | .returned _ _ => .after

/-- The locals of the loop where there are any. -/
def locals : CParent → Option CCollect
  | .polling c _ | .clocking c _ | .reading c | .growing c _ _ | .killing c
  | .closingOutput c | .waiting c => some c
  | _ => none

/-- The poll before this clock reading failed. -/
def pollFailed : CParent → Bool
  | .clocking _ ready => ready.gaveUp
  | _ => false

end CParent

/-- The loop goes on with the locals `c`: it polls, or kills when `elapsed_ms` says so. -/
structure LoopsOn (cmd : CCommand) (c : CCollect) (p : CParent) : Prop where
  locals : ∃ c', p.locals = some c' ∧ c'.start = c.start ∧ c'.elapsedMs = c.elapsedMs
  stage : p.stage = .looping ∨ p.stage = .killing ∧ cmd.timeout ≤ c.elapsedMs
  pollFailed : p.pollFailed = false

/-- What a move is, as far as the clock matters. -/
inductive CTiming (cmd : CCommand) (p : CParent) (e : Event) (p' : CParent) : Prop
  | feeds : p.stage = .before → p'.stage = .before → e.call ≠ .clock → e.call ≠ .kill →
      e.closes = false → CTiming cmd p e p'
  | starts (t : Nat) : p.stage = .before → e.call = .clock → e.reply = .time t →
      p' = .allocating (.ofNanos t) → CTiming cmd p e p'
  | opens (c : CCollect) : p = .allocating c.start → c.elapsedMs = 0 → e.call ≠ .clock →
      e.call ≠ .kill → e.closes = false → LoopsOn cmd c p' → CTiming cmd p e p'
  | polls (c : CCollect) (ms : Int) (ready : Reply) : p = .polling c ms →
      p' = .clocking c ready → e.call ≠ .clock → e.call ≠ .kill → e.closes = ready.gaveUp →
      CTiming cmd p e p'
  | clocks (c c' : CCollect) (ready : Reply) (t : Nat) : p = .clocking c ready →
      e.call = .clock → e.reply = .time t →
      c' = { c with elapsedMs := elapsedMsOf c.start (.ofNanos t) } →
      (if ready.gaveUp then p' = .closingOutput c' else LoopsOn cmd c' p') → CTiming cmd p e p'
  | goesOn (c : CCollect) : p.locals = some c → p.stage = .looping → p.pollFailed = false →
      e.call ≠ .clock → e.call ≠ .kill → e.closes = false → LoopsOn cmd c p' → CTiming cmd p e p'
  | closes (c : CCollect) : p = .reading c → e.call ≠ .clock → e.call ≠ .kill →
      e.closes = true → p' = .closingOutput c → CTiming cmd p e p'
  | kills (c : CCollect) : p = .killing c → e.call = .kill → e.closes = false →
      p' = .closingOutput c → CTiming cmd p e p'
  | waits (c : CCollect) : p = .closingOutput c → e.call ≠ .clock → e.call ≠ .kill →
      e.closes = false → p' = .waiting c → CTiming cmd p e p'
  | returns (c : CCollect) (r : CRunResult) (reaped : Bool) : p = .waiting c →
      e.call ≠ .clock → e.call ≠ .kill → e.closes = false → p' = .returned r reaped →
      r.timedOut = decide (cmd.timeout ≤ c.elapsedMs) → CTiming cmd p e p'

namespace CCommand

theorem timeout_pos (cmd : CCommand) : 0 < cmd.timeout := by
  unfold timeout
  split
  · decide
  · omega

theorem stage_writeLoop (cmd : CCommand) (written : Nat) :
    (cmd.writeLoop written).stage = .before := by
  unfold writeLoop
  split
  · rfl
  · rfl

theorem loopsOn_loopHead (cmd : CCommand) (c : CCollect) : LoopsOn cmd c (cmd.loopHead c) := by
  unfold loopHead
  split
  · exact ⟨⟨c, rfl, rfl, rfl⟩, .inr ⟨rfl, by omega⟩, rfl⟩
  · exact ⟨⟨c, rfl, rfl, rfl⟩, .inl rfl, rfl⟩

theorem loopsOn_of_eq {cmd : CCommand} {c c' : CCollect} {p : CParent} (h : LoopsOn cmd c' p)
    (hstart : c'.start = c.start) (helapsed : c'.elapsedMs = c.elapsedMs) : LoopsOn cmd c p := by
  obtain ⟨⟨c'', hc'', hstart', helapsed'⟩, hstage, hpoll⟩ := h
  rw [helapsed] at hstage
  exact ⟨⟨c'', hc'', hstart'.trans hstart, helapsed'.trans helapsed⟩, hstage, hpoll⟩

theorem loopsOn_keepChunk (cmd : CCommand) (c : CCollect) (chunk : Bytes) :
    LoopsOn cmd c (cmd.keepChunk c chunk) := by
  unfold keepChunk
  split
  · exact cmd.loopsOn_loopHead c
  · split
    · exact ⟨⟨c, rfl, rfl, rfl⟩, .inl rfl, rfl⟩
    · exact loopsOn_of_eq (cmd.loopsOn_loopHead (store c chunk)) rfl rfl

theorem loopsOn_afterPoll {cmd : CCommand} {c : CCollect} {ready : Reply} {p' : CParent}
    (h : cmd.afterPoll c ready = some p') :
    if ready.gaveUp then p' = .closingOutput c else LoopsOn cmd c p' := by
  unfold afterPoll at h
  split at h
  · cases h
    exact cmd.loopsOn_loopHead c
  · rename_i e hne
    cases h
    rw [if_pos (Reply.gaveUp_failed hne)]
  · cases h
    have hnot : Reply.lapsed.gaveUp ≠ true := by decide
    rw [if_neg hnot]
    split
    · rename_i hdue
      exact ⟨⟨c, rfl, rfl, rfl⟩, .inr ⟨rfl, hdue⟩, rfl⟩
    · exact cmd.loopsOn_loopHead c
  · cases h
    exact ⟨⟨c, rfl, rfl, rfl⟩, .inl rfl, rfl⟩
  · cases h

theorem ctiming_of_moves {cmd : CCommand} {p p' : CParent} {e : Event}
    (hmove : cmd.Moves p e.call e.reply p') : CTiming cmd p e p' := by
  obtain ⟨call, reply, time⟩ := e
  dsimp only at hmove
  cases branch_of_moves hmove with
  | wrote written n => exact .feeds rfl (cmd.stage_writeLoop _) (by simp) (by simp) rfl
  | writeInterrupted written => exact .feeds rfl rfl (by simp) (by simp) rfl
  | writeFailed written e _ => exact .feeds rfl rfl (by simp) (by simp) rfl
  | closed => exact .feeds rfl rfl (by simp) (by simp) rfl
  | started t => exact .starts t rfl rfl rfl rfl
  | allocated start ok =>
      refine .opens ⟨start, 0, 4096, 0, if ok then some [] else none⟩ rfl rfl (by simp)
        (by simp) rfl ?_
      exact cmd.loopsOn_loopHead _
  | pollFailed c ms e => exact .polls c ms _ rfl rfl (by simp) (by simp) rfl
  | lapsed c ms => exact .polls c ms _ rfl rfl (by simp) (by simp) rfl
  | ready c ms revents => exact .polls c ms _ rfl rfl (by simp) (by simp) rfl
  | clocked c answer t p' hafter =>
      exact .clocks c _ answer t rfl rfl rfl rfl (loopsOn_afterPoll hafter)
  | got c b bs =>
      exact .goesOn c rfl rfl rfl (by simp) (by simp) rfl (cmd.loopsOn_keepChunk c _)
  | ended c => exact .closes c rfl (by simp) (by simp) rfl rfl
  | readInterrupted c =>
      exact .goesOn c rfl rfl rfl (by simp) (by simp) rfl (cmd.loopsOn_loopHead c)
  | readFailed c e he => exact .closes c rfl (by simp) (by simp) (Reply.gaveUp_failed he) rfl
  | grown c chunk next =>
      refine .goesOn c rfl rfl rfl (by simp) (by simp) rfl ?_
      exact loopsOn_of_eq (cmd.loopsOn_loopHead _) rfl rfl
  | notGrown c chunk next =>
      refine .goesOn c rfl rfl rfl (by simp) (by simp) rfl ?_
      exact loopsOn_of_eq (cmd.loopsOn_loopHead _) rfl rfl
  | killed c => exact .kills c rfl rfl rfl rfl
  | outputClosed c => exact .waits c rfl (by simp) (by simp) rfl rfl
  | reaped c st => exact .returns c _ _ rfl (by simp) (by simp) rfl rfl rfl
  | waitFailed c e => exact .returns c _ _ rfl (by simp) (by simp) rfl rfl rfl

end CCommand

/-! ## Readings and elapsed time -/

/-- `elapsed_ms` after some readings. -/
def elapsedOf : List Nat → Int
  | [] => 0
  | start :: rest => elapsedMsOf (.ofNanos start) (.ofNanos (rest.getLastD start))

theorem elapsedOf_concat {times : List Nat} {start : Nat} (h : times.head? = some start) (t : Nat) :
    elapsedOf (times ++ [t]) = elapsedMsOf (.ofNanos start) (.ofNanos t) := by
  obtain ⟨rest, rfl⟩ := List.head?_eq_some_iff.mp h
  simp [elapsedOf, List.getLastD_eq_getLast?]

/-- What the locals of the loop have to do with the readings.  `elapsed_ms` is from the first one
and the last one, and outlives the loop: the flag is computed from it. -/
structure Kept (cmd : CCommand) (es : List Event) (p : CParent) : Prop where
  before : p.stage = .before → readings es = []
  opening : ∀ start, p = .allocating start → ∃ t, readings es = [t] ∧ start = .ofNanos t
  locals : ∀ c, p.locals = some c → ∃ t, (readings es).head? = some t ∧ c.start = .ofNanos t ∧
    c.elapsedMs = elapsedOf (readings es)
  kills : p.stage = .killing → cmd.timeout ≤ elapsedOf (readings es)
  returned : ∀ r reaped, p = .returned r reaped →
    r.timedOut = decide (cmd.timeout ≤ elapsedOf (readings es))

section Histories

variable {cmd : CCommand} {es : List Event} {e : Event} {x y : CParent × Nat}

theorem kept_of_loopsOn {p : CParent} {c : CCollect} {t : Nat} (h : LoopsOn cmd c p)
    (hhead : (readings es).head? = some t) (hstart : c.start = .ofNanos t)
    (helapsed : c.elapsedMs = elapsedOf (readings es)) : Kept cmd es p := by
  obtain ⟨⟨c', hc', hstart', helapsed'⟩, hstage, -⟩ := h
  have hnotBefore : p.stage ≠ .before := by
    rcases hstage with hloop | ⟨hkill, -⟩
    · simp [hloop]
    · simp [hkill]
  refine ⟨fun hbefore => absurd hbefore hnotBefore, ?_, ?_, ?_, ?_⟩
  · intro start hp
    rw [hp] at hc'
    cases hc'
  · intro c'' hc''
    rw [hc'] at hc''
    cases hc''
    exact ⟨t, hhead, hstart'.trans hstart, helapsed'.trans helapsed⟩
  · intro hkill
    rcases hstage with hloop | ⟨-, hdue⟩
    · rw [hkill] at hloop
      cases hloop
    · rwa [← helapsed]
  · intro r reaped hp
    rw [hp] at hc'
    cases hc'

theorem kept_of_locals {p : CParent} {c : CCollect} (hc : p.locals = some c)
    (hstage : p.stage = .looping ∨ p.stage = .after)
    (hkept : ∃ t, (readings es).head? = some t ∧ c.start = .ofNanos t ∧
      c.elapsedMs = elapsedOf (readings es)) : Kept cmd es p := by
  have hnot : ∀ st, p.stage = st → st = .looping ∨ st = .after := fun st h => h ▸ hstage
  refine ⟨?_, ?_, ?_, ?_, ?_⟩
  · intro hbefore
    simpa using hnot .before hbefore
  · intro start hp
    rw [hp] at hc
    cases hc
  · intro c' hc'
    rw [hc] at hc'
    cases hc'
    exact hkept
  · intro hkill
    simpa using hnot .killing hkill
  · intro r reaped hp
    rw [hp] at hc
    cases hc

theorem kept_of_before {p : CParent} (hstage : p.stage = .before) (hnone : readings es = []) :
    Kept cmd es p := by
  refine ⟨fun _ => hnone, ?_, ?_, ?_, ?_⟩
  · intro start hp
    rw [hp] at hstage
    cases hstage
  · intro c hc
    cases hp : p with
    | feeding _ => rw [hp] at hc; cases hc
    | closing => rw [hp] at hc; cases hc
    | starting => rw [hp] at hc; cases hc
    | _ => rw [hp] at hstage; cases hstage
  · intro hkill
    rw [hstage] at hkill
    cases hkill
  · intro r reaped hp
    rw [hp] at hstage
    cases hstage

/-- The clock is not read, and the locals stay as they are. -/
theorem kept_of_same {p p' : CParent} {c : CCollect} (h : Kept cmd es p)
    (hcall : e.call ≠ .clock) (hc : p.locals = some c) (hc' : p'.locals = some c)
    (hstage : p'.stage = .looping ∨ p'.stage = .after) : Kept cmd (es ++ [e]) p' := by
  apply kept_of_locals hc' hstage
  rw [readings_other hcall]
  exact h.locals c hc

theorem kept_of_clock {p p' : CParent} {c c' : CCollect} {ready : Reply} {t : Nat}
    (h : Kept cmd es p) (hc : p.locals = some c) (hcall : e.call = .clock) (htime : t = e.time)
    (hc' : c' = { c with elapsedMs := elapsedMsOf c.start (.ofNanos t) })
    (hnext : if ready.gaveUp then p' = .closingOutput c' else LoopsOn cmd c' p') :
    Kept cmd (es ++ [e]) p' := by
  obtain ⟨start, hhead, hstart, -⟩ := h.locals c hc
  have hlonger : readings (es ++ [e]) = readings es ++ [t] := by
    rw [readings_clock hcall, ← htime]
  have helapsed : c'.elapsedMs = elapsedOf (readings (es ++ [e])) := by
    rw [hlonger, elapsedOf_concat hhead, hc', hstart]
  have hstart' : c'.start = .ofNanos start := by rw [hc', hstart]
  split at hnext
  · rw [hnext]
    exact kept_of_locals rfl (.inr rfl) ⟨start, head?_readings_concat hhead, hstart', helapsed⟩
  · exact kept_of_loopsOn hnext (head?_readings_concat hhead) hstart' helapsed

theorem kept_step (h : Kept cmd es x.1) (hstep : Clocked cmd.Moves x e y) :
    Kept cmd (es ++ [e]) y.1 := by
  cases CCommand.ctiming_of_moves hstep.moves with
  | feeds hx hy hcall _ _ =>
      apply kept_of_before hy
      rw [readings_other hcall, h.before hx]
  | starts t hx hcall hreply hy =>
      have hone : readings (es ++ [e]) = [t] := by
        rw [readings_clock hcall, h.before hx, hstep.reads t hreply, List.nil_append]
      rw [hy]
      refine ⟨nofun, ?_, nofun, nofun, nofun⟩
      intro start hp
      cases hp
      exact ⟨t, hone, rfl⟩
  | opens c hx hzero hcall _ _ hloop =>
      obtain ⟨t, hone, hstart⟩ := h.opening c.start hx
      have hsame : readings (es ++ [e]) = [t] := by rw [readings_other hcall, hone]
      apply kept_of_loopsOn hloop _ hstart
      · rw [hzero, hsame]
        exact (elapsedMsOf_self _).symm
      · rw [hsame]
        rfl
  | polls c ms ready hx hy hcall _ _ =>
      rw [hx] at h
      rw [hy]
      exact kept_of_same h hcall rfl rfl (.inl rfl)
  | clocks c c' ready t hx hcall hreply hc' hnext =>
      exact kept_of_clock h (by rw [hx]; rfl) hcall (hstep.reads t hreply) hc' hnext
  | goesOn c hc _ _ hcall _ _ hloop =>
      obtain ⟨t, hhead, hstart, helapsed⟩ := h.locals c hc
      rw [← readings_other hcall] at hhead helapsed
      exact kept_of_loopsOn hloop hhead hstart helapsed
  | closes c hx hcall _ _ hy =>
      rw [hx] at h
      rw [hy]
      exact kept_of_same h hcall rfl rfl (.inr rfl)
  | kills c hx hcall _ hy =>
      have hother : e.call ≠ .clock := by simp [hcall]
      rw [hx] at h
      rw [hy]
      exact kept_of_same h hother rfl rfl (.inr rfl)
  | waits c hx hcall _ _ hy =>
      rw [hx] at h
      rw [hy]
      exact kept_of_same h hcall rfl rfl (.inr rfl)
  | returns c r reaped hx hcall _ _ hy htimedOut =>
      obtain ⟨t, hhead, hstart, helapsed⟩ := h.locals c (by rw [hx]; rfl)
      rw [hy]
      refine ⟨nofun, nofun, nofun, nofun, ?_⟩
      intro r' reaped' hp
      cases hp
      rw [htimedOut, helapsed, readings_other hcall]

theorem kept_of_runs {t₀ : Nat} (hrun : Runs (Clocked cmd.Moves) (cmd.start, t₀) es x) :
    Kept cmd es x.1 := by
  generalize hinit : (cmd.start, t₀) = x₀ at hrun
  induction hrun with
  | refl =>
      rw [← hinit]
      exact kept_of_before (cmd.stage_writeLoop 0) rfl
  | tail _ hstep ih => exact kept_step ih hstep

/-! ## How the loop is left -/

/-- The run has called `kill`. -/
def Kills (es : List Event) : Prop := ∃ e ∈ es, e.call = .kill

/-- The run has met the end of the output, or an error of read or poll. -/
def Closes (es : List Event) : Prop := ∃ e ∈ es, e.closes = true

theorem kills_concat : Kills (es ++ [e]) ↔ Kills es ∨ e.call = .kill := by
  unfold Kills
  simp only [List.mem_append, List.mem_singleton, or_and_right, exists_or, exists_eq_left]

theorem closes_concat : Closes (es ++ [e]) ↔ Closes es ∨ e.closes = true := by
  unfold Closes
  simp only [List.mem_append, List.mem_singleton, or_and_right, exists_or, exists_eq_left]

/-- What has been called so far, by where the call is. -/
structure Left (es : List Event) (p : CParent) : Prop where
  inside : p.stage ≠ .after → ¬ Kills es ∧ (Closes es ↔ p.pollFailed = true)
  outside : p.stage = .after → (Kills es ↔ ¬ Closes es)

theorem left_quiet {p p' : CParent} (h : Left es p) (hcall : e.call ≠ .kill)
    (hcloses : e.closes = false) (hstage : p.stage = .after ↔ p'.stage = .after)
    (hpoll : p.pollFailed = p'.pollFailed) : Left (es ++ [e]) p' := by
  have hkills : Kills (es ++ [e]) ↔ Kills es := by simp [kills_concat, hcall]
  have hcloses : Closes (es ++ [e]) ↔ Closes es := by simp [closes_concat, hcloses]
  refine ⟨fun hin => ?_, fun hout => ?_⟩
  · rw [hkills, hcloses, ← hpoll]
    exact h.inside (fun hafter => hin (hstage.mp hafter))
  · rw [hkills, hcloses]
    exact h.outside (hstage.mpr hout)

theorem not_after_of_loopsOn {c : CCollect} {p : CParent} (h : LoopsOn cmd c p) :
    p.stage ≠ .after := by
  rcases h.stage with hloop | ⟨hkill, -⟩
  · simp [hloop]
  · simp [hkill]

/-- The loop is left by a call or an event that has just happened. -/
theorem left_by {p p' : CParent} (h : Left es p) (hin : p.stage ≠ .after)
    (hpoll : p.pollFailed = false) (hout : p'.stage = .after)
    (heither : e.call = .kill ↔ e.closes = false) : Left (es ++ [e]) p' := by
  obtain ⟨hnoKill, hnoClose⟩ := h.inside hin
  refine ⟨fun hnot => absurd hout hnot, fun _ => ?_⟩
  rw [kills_concat, closes_concat, hnoClose, hpoll]
  simp [hnoKill, heither]

/-- The clock reading after a poll: the loop is left if the poll failed. -/
theorem left_of_clock {c c' : CCollect} {ready : Reply} {p' : CParent}
    (h : Left es (.clocking c ready)) (hcall : e.call = .clock)
    (hnext : if ready.gaveUp then p' = .closingOutput c' else LoopsOn cmd c' p') :
    Left (es ++ [e]) p' := by
  have hin := h.inside (by simp [CParent.stage])
  have hkills : ¬ Kills (es ++ [e]) := by simp [kills_concat, hin.1, hcall]
  have hcloses : Closes (es ++ [e]) ↔ ready.gaveUp = true := by
    rw [closes_concat, hin.2]
    simp [Event.closes, hcall, CParent.pollFailed]
  split at hnext
  · rename_i hfailed
    have hout : p'.stage = .after := by
      rw [hnext]
      rfl
    refine ⟨fun hnot => absurd hout hnot, fun _ => ?_⟩
    exact ⟨fun hkill => absurd hkill hkills, fun hnone => absurd (hcloses.mpr hfailed) hnone⟩
  · rename_i hwell
    refine ⟨fun _ => ⟨hkills, ?_⟩, fun hout => absurd hout (not_after_of_loopsOn hnext)⟩
    rw [hcloses, hnext.pollFailed]
    simpa using hwell

theorem pollFailed_of_before {p : CParent} (h : p.stage = .before) : p.pollFailed = false := by
  cases p with
  | clocking _ _ => cases h
  | _ => rfl

theorem left_step (h : Left es x.1) (hstep : Clocked cmd.Moves x e y) :
    Left (es ++ [e]) y.1 := by
  cases CCommand.ctiming_of_moves hstep.moves with
  | feeds hx hy _ hcall hcloses =>
      apply left_quiet h hcall hcloses
      · simp [hx, hy]
      · rw [pollFailed_of_before hx, pollFailed_of_before hy]
  | starts t hx hcall hreply hy =>
      have hopen : y.1.stage = .opening := by
        rw [hy]
        rfl
      apply left_quiet h (by simp [hcall])
      · simp [Event.closes, hcall]
      · simp [hx, hopen]
      · rw [pollFailed_of_before hx, hy]
        rfl
  | opens c hx _ _ hcall hcloses hloop =>
      have hopen : x.1.stage = .opening := by
        rw [hx]
        rfl
      apply left_quiet h hcall hcloses
      · simp [hopen, not_after_of_loopsOn hloop]
      · rw [hloop.pollFailed, hx]
        rfl
  | polls c ms ready hx hy _ hcall hcloses =>
      have hin := h.inside (by rw [hx]; simp [CParent.stage])
      refine ⟨fun _ => ?_, fun hout => ?_⟩
      · rw [kills_concat, closes_concat, hin.2, hx, hy, hcloses]
        simp [hin.1, hcall, CParent.pollFailed]
      · rw [hy] at hout
        cases hout
  | clocks c c' ready t hx hcall _ _ hnext =>
      rw [hx] at h
      exact left_of_clock h hcall hnext
  | goesOn c hc hx hpoll _ hcall hcloses hloop =>
      apply left_quiet h hcall hcloses
      · simp [hx, not_after_of_loopsOn hloop]
      · rw [hpoll, hloop.pollFailed]
  | closes c hx _ hcall hcloses hy =>
      rw [hx] at h
      rw [hy]
      apply left_by h (by simp [CParent.stage]) rfl rfl
      simp [hcall, hcloses]
  | kills c hx hcall hcloses hy =>
      rw [hx] at h
      rw [hy]
      apply left_by h (by simp [CParent.stage]) rfl rfl
      simp [hcall, hcloses]
  | waits c hx _ hcall hcloses hy =>
      apply left_quiet h hcall hcloses
      · simp [hx, hy, CParent.stage]
      · rw [hx, hy]
        rfl
  | returns c r reaped hx _ hcall hcloses hy _ =>
      apply left_quiet h hcall hcloses
      · simp [hx, hy, CParent.stage]
      · rw [hx, hy]
        rfl

theorem left_of_runs {t₀ : Nat} (hrun : Runs (Clocked cmd.Moves) (cmd.start, t₀) es x) :
    Left es x.1 := by
  generalize hinit : (cmd.start, t₀) = x₀ at hrun
  induction hrun with
  | refl =>
      rw [← hinit]
      have hstage : cmd.start.stage = .before := cmd.stage_writeLoop 0
      refine ⟨fun _ => ⟨by simp [Kills], ?_⟩, fun hout => ?_⟩
      · dsimp only
        rw [pollFailed_of_before hstage]
        simp [Closes]
      · dsimp only at hout
        rw [hstage] at hout
        cases hout
  | tail _ hstep ih => exact left_step ih hstep

end Histories

end Ftl.Process
