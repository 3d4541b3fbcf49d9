/-
  Process/Deadline.lean --- how punctual `Subprocess::collect` is.

  The time that is left is cut down to whole milliseconds before it is tested and before it is
  given to poll, so a run can take its deadline to have passed in the last millisecond before
  it.

      on_time_iff         when the child is not killed before its deadline
      never_a_ms_early    by how much it can be too early
-/
import Ftl.Process.Timing

set_option autoImplicit false

namespace Ftl.Process

open Foundation (Runs Throughout throughout_iff)

/-! ## Early kills -/

/-- The run is killing its child, or has flagged it. -/
def Parent.timesOut (p : Parent) : Prop := p.flag = true ∨ ∃ c, p = .killing c

/-- Where the run times out, it is past the deadline, which counts from the first reading. -/
def OnTime (timeoutMs : Int) (es : List Event) (x : Parent × Nat) : Prop :=
  x.1.timesOut → ∀ start, (readings es).head? = some start → dueAt timeoutMs start ≤ x.2

/-- Before the deadline, the event is no clock reading in the last millisecond and no poll that
returns 0. -/
def Event.Sharp (due : Int) (e : Event) : Prop :=
  (e.call = .clock → e.time < due → e.time + 1000000 ≤ due) ∧ (e.reply = .lapsed → due ≤ e.time)

/-- No clock reading is less than a millisecond before the deadline, and no poll returns 0
before it.  What is left is truncated to whole milliseconds, so the last one of them is taken
for none, and a poll that returns 0 is taken for the end of the time. -/
def Sharp (timeoutMs : Int) (es : List Event) : Prop :=
  ∀ start, (readings es).head? = some start → ∀ e ∈ es, e.Sharp (dueAt timeoutMs start)

theorem sharp_shrink (timeoutMs : Int) (es : List Event) (e : Event)
    (h : Sharp timeoutMs (es ++ [e])) : Sharp timeoutMs es :=
  fun start hstart e' he' =>
    h start (head?_readings_concat hstart) e' (List.mem_append_left _ he')

/-- Once the deadline is fixed, each event counts by itself. -/
theorem sharp_concat {timeoutMs : Int} {es : List Event} {e : Event} {start : Nat}
    (hstart : (readings es).head? = some start) (h : Sharp timeoutMs es) :
    Sharp timeoutMs (es ++ [e]) ↔ e.Sharp (dueAt timeoutMs start) := by
  have hlonger : (readings (es ++ [e])).head? = some start := head?_readings_concat hstart
  constructor
  · intro hall
    exact hall start hlonger e (List.mem_append_right _ List.mem_cons_self)
  · intro he start' hstart' e' he'
    rw [hlonger] at hstart'
    cases hstart'
    rcases List.mem_append.mp he' with hold | hnew
    · exact h start hstart e' hold
    · rw [List.mem_singleton.mp hnew]
      exact he

theorem onTime_iff {timeoutMs : Int} {es : List Event} {x : Parent × Nat} {start : Nat}
    (hstart : (readings es).head? = some start) :
    OnTime timeoutMs es x ↔ (x.1.timesOut → dueAt timeoutMs start ≤ x.2) := by
  unfold OnTime
  rw [hstart]
  simp

section Kills

variable {sp : Subprocess} {es : List Event} {e : Event} {x y : Parent × Nat}

theorem not_timesOut_of_not_armed {p : Parent} (h : p.armed = false) : ¬ p.timesOut := by
  rintro (hflag | ⟨c, rfl⟩)
  · cases p with
    | feeding _ => cases hflag
    | closing => cases hflag
    | arming => cases hflag
    | _ => cases h
  · cases h

theorem flag_of_calm {p : Parent} (hcalm : p.calm = true) (h : p.timesOut) : p.flag = true := by
  rcases h with hflag | ⟨c, rfl⟩
  · exact hflag
  · cases hcalm

/-- An event that is no clock reading and no poll that returns 0 is sharp, and `collect` does not
time out by it. -/
theorem onTime_of_quiet {start : Nat}
    (hstart : (readings es).head? = some start) (hcall : e.call ≠ .clock)
    (hreply : e.reply ≠ .lapsed) (hlater : x.2 ≤ y.2) (honTime : OnTime sp.timeoutMs es x)
    (hsharp : Sharp sp.timeoutMs es) (hflag : y.1.timesOut → x.1.flag = true) :
    OnTime sp.timeoutMs (es ++ [e]) y ↔ Sharp sp.timeoutMs (es ++ [e]) := by
  rw [sharp_concat hstart hsharp, onTime_iff (head?_readings_concat hstart)]
  rw [onTime_iff hstart] at honTime
  refine ⟨fun _ => ⟨fun h => absurd h hcall, fun h => absurd h hreply⟩, fun _ hout => ?_⟩
  have hdue := honTime (.inl (hflag hout))
  omega

theorem onTime_of_check (hmax : sp.timeoutMs ≤ 2147483647) {start : Nat} {c : Collect}
    (hstart : (readings es).head? = some start) (hlater : start ≤ e.time)
    (hdeadline : c.deadline = deadlineOf start sp.timeoutMs) (hcall : e.call = .clock)
    (hreply : e.reply ≠ .lapsed) (hx : x.1 = .checking c) (hxy : x.2 ≤ e.time)
    (hy : y = (Subprocess.checkDeadline c e.time, e.time))
    (honTime : OnTime sp.timeoutMs es x) (hsharp : Sharp sp.timeoutMs es) :
    OnTime sp.timeoutMs (es ++ [e]) y ↔ Sharp sp.timeoutMs (es ++ [e]) := by
  rw [sharp_concat hstart hsharp, onTime_iff (head?_readings_concat hstart)]
  rw [onTime_iff hstart, hx] at honTime
  have hleft := remaining_eq sp.timeout_pos hmax hlater e.time_lt
  have hsharpIff : e.Sharp (dueAt sp.timeoutMs start) ↔
      (e.time < dueAt sp.timeoutMs start → e.time + 1000000 ≤ dueAt sp.timeoutMs start) :=
    ⟨fun h => h.1 hcall, fun h => ⟨fun _ => h, fun hlapsed => absurd hlapsed hreply⟩⟩
  rw [hsharpIff, hy]
  unfold Subprocess.checkDeadline
  rw [hdeadline, hleft]
  split
  · rename_i hzero
    have hlast := tdiv_nonpos_iff.mp hzero
    constructor
    · intro hkill hbefore
      have hdue := hkill (.inr ⟨_, rfl⟩)
      dsimp only at hdue
      omega
    · intro hearly _
      apply Int.not_lt.mp
      intro hbefore
      have hfar := hearly hbefore
      omega
  · rename_i hsome
    have hfar := tdiv_pos_iff.mp (Int.not_le.mp hsome)
    refine ⟨fun _ _ => by omega, fun _ hout => ?_⟩
    rcases hout with hflag | ⟨_, hc⟩
    · have hdue := honTime (.inl hflag)
      dsimp only
      omega
    · cases hc

theorem onTime_of_arm {start : Nat} (h : Armed sp es x) (hx : x.1.armed = false)
    (hcall : e.call = .clock) (hreply : e.reply = .time start) (hnow : start = e.time)
    (hy : y.1 = Subprocess.whileOpen (sp.collectStart start)) :
    OnTime sp.timeoutMs (es ++ [e]) y ↔ Sharp sp.timeoutMs (es ++ [e]) := by
  obtain ⟨hnone, hlapsed⟩ := h.before hx
  have hpos := sp.timeout_pos
  have hquiet : ¬ y.1.timesOut := by
    obtain ⟨-, hflag, hcalm⟩ := Subprocess.carriesOn_whileOpen (sp.collectStart start)
    rw [← hy] at hflag hcalm
    intro hout
    have hflagged := flag_of_calm hcalm hout
    rw [hflag] at hflagged
    cases hflagged
  refine ⟨fun _ start' hstart' e' he' => ?_, fun _ hout => absurd hout hquiet⟩
  rw [readings_clock hcall, hnone, ← hnow] at hstart'
  cases hstart'
  rcases List.mem_append.mp he' with hold | hnew
  · -- before the first reading there is none, and no poll
    refine ⟨fun hclock => ?_, fun hzero => absurd hzero (hlapsed e' hold)⟩
    have hmem : e'.time ∈ readings es :=
      List.mem_filterMap.mpr ⟨e', hold, reading_of_clock hclock⟩
    rw [hnone] at hmem
    cases hmem
  · rw [List.mem_singleton.mp hnew]
    refine ⟨fun _ _ => ?_, fun hzero => ?_⟩
    · unfold dueAt
      omega
    · rw [hreply] at hzero
      cases hzero

theorem onTime_step (hmax : sp.timeoutMs ≤ 2147483647) (h : Armed sp es x)
    (hstep : Clocked sp.Moves x e y) (honTime : OnTime sp.timeoutMs es x)
    (hsharp : Sharp sp.timeoutMs es) :
    OnTime sp.timeoutMs (es ++ [e]) y ↔ Sharp sp.timeoutMs (es ++ [e]) := by
  have hlater := hstep.time_le
  cases Subprocess.timing_of_moves hstep.moves with
  | feeds hx hy hcall _ =>
      have hnone : (readings (es ++ [e])).head? = none := by
        rw [readings_other hcall, (h.before hx).1]
        rfl
      unfold OnTime Sharp
      rw [hnone]
      simp
  | arms start hx hcall hreply hy =>
      exact onTime_of_arm h hx hcall hreply (hstep.reads start hreply) hy
  | checks c now hx hcall hreply hy =>
      obtain ⟨start, hstart, hle, hdeadline⟩ := h.after (by rw [hx]; rfl)
      have hnow := hstep.reads now hreply
      rw [hnow] at hy
      refine onTime_of_check hmax hstart (Nat.le_trans hle hstep.later)
        (hdeadline c (by rw [hx]; rfl)) hcall (by rw [hreply]; simp) hx hstep.later ?_ honTime
        hsharp
      exact Prod.ext hy hstep.time_eq
  | lapses c ms hx hcall hreply hy =>
      obtain ⟨start, hstart, -, -⟩ := h.after (by rw [hx]; rfl)
      rw [sharp_concat hstart hsharp, onTime_iff (head?_readings_concat hstart), hstep.time_eq]
      have hout : y.1.timesOut := .inr ⟨_, hy⟩
      refine ⟨fun hdue => ⟨fun hclock => ?_, fun _ => hdue hout⟩, fun hsharp _ => hsharp.2 hreply⟩
      rw [hcall] at hclock
      cases hclock
  | goesOn c c' hc _ hcall hreply _ hflag hcalm =>
      obtain ⟨start, hstart, -, -⟩ := h.after (armed_of_locals hc)
      apply onTime_of_quiet hstart hcall hreply hlater honTime hsharp
      intro hout
      rw [← hflag]
      exact flag_of_calm hcalm hout
  | ends c hc _ hcall hreply _ hflag hcalm =>
      obtain ⟨start, hstart, -, -⟩ := h.after (armed_of_locals hc)
      apply onTime_of_quiet hstart hcall hreply hlater honTime hsharp
      intro hout
      exact hflag (flag_of_calm hcalm hout)

end Kills

/-- In no state of a run is the child killed, or flagged, before the deadline if and only if no
clock reading is less than a millisecond before it and no poll returns 0 before it. -/
theorem on_time_iff (sp : Subprocess) (hmax : sp.timeoutMs ≤ 2147483647) (t₀ : Nat)
    (es : List Event) (x : Parent × Nat) (hrun : Runs (Clocked sp.Moves) (sp.start, t₀) es x) :
    Throughout (Clocked sp.Moves) (sp.start, t₀) (OnTime sp.timeoutMs) es ↔
      Sharp sp.timeoutMs es := by
  refine throughout_iff (clocked_unique sp.moves_unique) hrun (armed_start sp t₀) ?_ ?_
    (sharp_shrink sp.timeoutMs) armed_step (onTime_step hmax)
  · intro hout
    exact absurd hout (not_timesOut_of_not_armed (sp.armed_writeAll 0))
  · intro start hstart
    cases hstart

/-- A child that is given one millisecond. -/
def oneMs : Subprocess := (Subprocess.ofProgram []).setTimeoutMs 1 (by decide)

/-- The locals of its `collect`. -/
def oneMsLocals : Collect := oneMs.collectStart 0

/-- The clock reads 0 ns, and 1 ns at the first check. -/
def oneMsEvents : List Event :=
  [⟨.closeStdin, .done, 0, zero_counted⟩, ⟨.clock, .time 0, 0, zero_counted⟩,
    ⟨.clock, .time 1, 1, one_counted⟩]

theorem oneMs_run :
    Runs (Clocked oneMs.Moves) (oneMs.start, 0) oneMsEvents
      (.killing { oneMsLocals with result := { oneMsLocals.result with timedOut := true } }, 1) :=
  .head (t := (.arming, 0)) ⟨⟨rfl, rfl⟩, rfl, by decide, by simp, by simp⟩ <|
  .head (t := (.checking oneMsLocals, 0)) ⟨⟨rfl, rfl⟩, rfl, by decide, by simp, by simp⟩ <|
  .single ⟨⟨rfl, rfl⟩, rfl, by decide, by simp, by simp⟩

/-- It is killed one nanosecond after its start, a millisecond less one nanosecond too early. -/
theorem oneMs_killed_early :
    ∃ c es, Runs (Clocked oneMs.Moves) (oneMs.start, 0) es (.killing c, 1) ∧
      c.result.timedOut = true ∧ (readings es).head? = some 0 ∧
      (1 : Int) < dueAt oneMs.timeoutMs 0 := by
  exact ⟨_, _, oneMs_run, rfl, rfl, by decide⟩

/-- The clock reads 0 ns at the first check, too, and poll takes the whole millisecond. -/
def oneMsPolled : List Event :=
  [⟨.closeStdin, .done, 0, zero_counted⟩, ⟨.clock, .time 0, 0, zero_counted⟩,
    ⟨.clock, .time 0, 0, zero_counted⟩, ⟨.poll [.out] 1, .lapsed, 1000000, million_counted⟩]

theorem oneMsPolled_run :
    Runs (Clocked oneMs.Moves) (oneMs.start, 0) oneMsPolled
      (.killing { oneMsLocals with result := { oneMsLocals.result with timedOut := true } },
        1000000) :=
  .head (t := (.arming, 0)) ⟨⟨rfl, rfl⟩, rfl, by decide, by simp, by simp⟩ <|
  .head (t := (.checking oneMsLocals, 0)) ⟨⟨rfl, rfl⟩, rfl, by decide, by simp, by simp⟩ <|
  .head (t := (.polling oneMsLocals 1, 0)) ⟨⟨rfl, rfl⟩, rfl, by decide, by simp, by simp⟩ <|
  .single ⟨⟨rfl, rfl⟩, rfl, by decide, by simp, by simp⟩

/-- A poll of 1 ms lapses at the deadline.  In the other run a check 1 ns after the start has 0 ms
left, and kills. -/
theorem on_time_oneMs :
    Throughout (Clocked oneMs.Moves) (oneMs.start, 0) (OnTime oneMs.timeoutMs) oneMsPolled ∧
      ¬ Throughout (Clocked oneMs.Moves) (oneMs.start, 0) (OnTime oneMs.timeoutMs)
        oneMsEvents := by
  constructor
  · apply (on_time_iff oneMs (by decide) 0 oneMsPolled _ oneMsPolled_run).mpr
    intro start hstart
    cases hstart
    simp [oneMsPolled, Event.Sharp, dueAt, oneMs, Subprocess.setTimeoutMs]
  · rw [on_time_iff oneMs (by decide) 0 oneMsEvents _ oneMs_run]
    intro hsharp
    have hlast := (hsharp 0 rfl ⟨.clock, .time 1, 1, one_counted⟩ (by simp [oneMsEvents])).1 rfl
    exact absurd hlast (by decide)

/-! ## How early -/

/-- The time that poll is given, and the time that has passed when the run times out, fall short
of the deadline by less than a millisecond. -/
structure Near (sp : Subprocess) (es : List Event) (x : Parent × Nat) : Prop where
  armed : Armed sp es x
  polling : ∀ c ms start, x.1 = .polling c ms → (readings es).head? = some start →
    dueAt sp.timeoutMs start < x.2 + ms * 1000000 + 1000000 ∧ 0 < ms ∧ ms < 2147483648
  out : x.1.timesOut → ∀ start, (readings es).head? = some start →
    dueAt sp.timeoutMs start < x.2 + 1000000

section Near

variable {sp : Subprocess} {es : List Event} {e : Event} {x y : Parent × Nat}

theorem near_of_calm (harmed : Armed sp (es ++ [e]) y) (hcalm : y.1.calm = true)
    (hout : y.1.flag = true → ∀ start, (readings (es ++ [e])).head? = some start →
      dueAt sp.timeoutMs start < y.2 + 1000000) : Near sp (es ++ [e]) y := by
  refine ⟨harmed, ?_, fun h => hout (flag_of_calm hcalm h)⟩
  intro c ms start hy
  rw [hy] at hcalm
  cases hcalm

theorem near_of_check (hmax : sp.timeoutMs ≤ 2147483647) (hnear : Near sp es x)
    (harmed : Armed sp (es ++ [e]) y) {c : Collect} (hx : x.1 = .checking c)
    (hlater : x.2 ≤ e.time) (hy : y = (Subprocess.checkDeadline c e.time, e.time)) :
    Near sp (es ++ [e]) y := by
  obtain ⟨start, hstart, hle, hdeadline⟩ := hnear.armed.after (by rw [hx]; rfl)
  have hlonger : (readings (es ++ [e])).head? = some start := head?_readings_concat hstart
  have hstarted : start ≤ e.time := Nat.le_trans hle hlater
  have hleft := remaining_eq sp.timeout_pos hmax hstarted e.time_lt
  rw [← hdeadline c (by rw [hx]; rfl)] at hleft
  have hpos := sp.timeout_pos
  have hdue : dueAt sp.timeoutMs start = start + sp.timeoutMs * 1000000 := rfl
  refine ⟨harmed, ?_, ?_⟩
  -- a poll gets the whole milliseconds that are left, so less than one of them is cut off
  · intro c' ms start' hpoll hstart'
    rw [hlonger] at hstart'
    cases hstart'
    rw [hy] at hpoll ⊢
    unfold Subprocess.checkDeadline at hpoll
    split at hpoll
    · cases hpoll
    · rename_i hsome
      cases hpoll
      rw [hleft] at hsome ⊢
      have hfar := tdiv_pos_iff.mp (Int.not_le.mp hsome)
      rw [tdiv_of_nonneg (by omega)]
      dsimp only
      omega
  · intro hout start' hstart'
    rw [hlonger] at hstart'
    cases hstart'
    rw [hy] at hout ⊢
    unfold Subprocess.checkDeadline at hout
    split at hout
    · rename_i hzero
      rw [hleft] at hzero
      have hlast := tdiv_nonpos_iff.mp hzero
      dsimp only
      omega
    · rcases hout with hflag | ⟨_, hc⟩
      · have hbefore := hnear.out (.inl (by rw [hx]; exact hflag)) start hstart
        dsimp only
        omega
      · cases hc

theorem near_step (hmax : sp.timeoutMs ≤ 2147483647) (hnear : Near sp es x)
    (hstep : Clocked sp.Moves x e y) : Near sp (es ++ [e]) y := by
  have harmed := armed_step hnear.armed hstep
  have hlater := hstep.time_le
  -- the deadline was not far away before, if the flag was up
  have hkept : ∀ {c : Collect}, x.1.locals = some c → (y.1.flag = true → x.1.flag = true) →
      y.1.flag = true → ∀ start, (readings (es ++ [e])).head? = some start →
      dueAt sp.timeoutMs start < y.2 + 1000000 := by
    intro c hc hflag hy start hstart
    obtain ⟨start', hstart', -, -⟩ := hnear.armed.after (armed_of_locals hc)
    have hlonger : (readings (es ++ [e])).head? = some start' := head?_readings_concat hstart'
    rw [hlonger] at hstart
    cases hstart
    have hbefore := hnear.out (.inl (hflag hy)) start hstart'
    omega
  cases Subprocess.timing_of_moves hstep.moves with
  | feeds _ hy _ _ =>
      refine ⟨harmed, fun c ms start hpoll => ?_, fun hout => ?_⟩
      · rw [hpoll] at hy
        cases hy
      · exact absurd hout (not_timesOut_of_not_armed hy)
  | arms start _ _ _ hy =>
      obtain ⟨-, hflag, hcalm⟩ := Subprocess.carriesOn_whileOpen (sp.collectStart start)
      rw [← hy] at hflag hcalm
      apply near_of_calm harmed hcalm
      intro hup
      rw [hflag] at hup
      cases hup
  | checks c now hx _ hreply hy =>
      rw [hstep.reads now hreply] at hy
      exact near_of_check hmax hnear harmed hx hstep.later (Prod.ext hy hstep.time_eq)
  | lapses c ms hx hcall hreply hy =>
      obtain ⟨start, hstart, -, -⟩ := hnear.armed.after (by rw [hx]; rfl)
      have hlonger : (readings (es ++ [e])).head? = some start := head?_readings_concat hstart
      obtain ⟨hfar, hms, hint⟩ := hnear.polling c ms start hx hstart
      have hwaited := (hstep.punctual _ _ hcall hreply).2
      rw [(wrap32_eq_iff (Int.le_of_lt hms)).mpr hint] at hwaited
      refine ⟨harmed, fun c' ms' start' hpoll => ?_, fun _ start' hstart' => ?_⟩
      · rw [hy] at hpoll
        cases hpoll
      · rw [hlonger] at hstart'
        cases hstart'
        rw [hstep.time_eq]
        omega
  | goesOn c c' hc _ _ _ _ hflag hcalm =>
      exact near_of_calm harmed hcalm (hkept hc (fun h => by rw [← hflag]; exact h))
  | ends c hc _ _ _ _ hflag hcalm => exact near_of_calm harmed hcalm (hkept hc hflag)

/-- Whatever its readings and polls, a run does not time out a millisecond or more before its
deadline. -/
theorem never_a_ms_early (hmax : sp.timeoutMs ≤ 2147483647) {t₀ : Nat}
    (hrun : Runs (Clocked sp.Moves) (sp.start, t₀) es x) (hout : x.1.timesOut) :
    ∀ start, (readings es).head? = some start → dueAt sp.timeoutMs start < x.2 + 1000000 := by
  suffices hnear : Near sp es x from hnear.out hout
  clear hout
  generalize hinit : (sp.start, t₀) = x₀ at hrun
  induction hrun with
  | refl =>
      rw [← hinit]
      refine ⟨armed_start sp t₀, fun c ms start _ hstart => ?_, fun _ start hstart => ?_⟩
      · cases hstart
      · cases hstart
  | tail _ hstep ih => exact near_step hmax ih hstep

end Near

end Ftl.Process
