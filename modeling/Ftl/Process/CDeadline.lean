/-
  Process/CDeadline.lean --- the flag and the deadline of `ftl_run_command`.

  `timed_out` is not set where the child is killed; it is computed after the loop from the last
  `elapsed_ms`, and that may have reached the timeout when the output ended.  `elapsed_ms` is
  rounded up where the nanoseconds are borrowed from the seconds.

      flag_reports_kill_iff    when the flag says whether the child was killed
      elapsed_le_iff           when `elapsed_ms` is not more than the time that has passed
      never_early_iff          when the child is not killed before its deadline
-/
import Ftl.Process.CTiming

set_option autoImplicit false

namespace Ftl.Process

open Foundation (Runs Throughout)

section Flags

variable {cmd : CCommand} {es : List Event} {e : Event} {x y : CParent × Nat}

theorem call_ne_clock_of_after (hstep : Clocked cmd.Moves x e y) (h : x.1.stage = .after) :
    e.call ≠ .clock := by
  have hnot : ∀ {p : CParent}, x.1 = p → p.stage = .after := fun hp => by rw [← hp, h]
  cases CCommand.ctiming_of_moves hstep.moves with
  | feeds hx _ _ _ _ =>
      rw [hx] at h
      cases h
  | starts t hx _ _ _ =>
      rw [hx] at h
      cases h
  | opens c hx _ _ _ _ _ => cases hnot hx
  | polls c ms ready hx _ _ _ _ => cases hnot hx
  | clocks c c' ready t hx _ _ _ _ => cases hnot hx
  | goesOn c _ hx _ _ _ _ _ =>
      rw [hx] at h
      cases h
  | closes c hx _ _ _ _ => cases hnot hx
  | kills c hx _ _ _ => cases hnot hx
  | waits c _ hcall _ _ _ => exact hcall
  | returns c r reaped _ hcall _ _ _ _ => exact hcall

/-- `kill` is called from one place. -/
theorem killing_of_kill (hstep : Clocked cmd.Moves x e y) (h : e.call = .kill) :
    x.1.stage = .killing := by
  cases CCommand.ctiming_of_moves hstep.moves with
  | kills c hx _ _ _ =>
      rw [hx]
      rfl
  | starts t _ hcall _ _ =>
      rw [hcall] at h
      cases h
  | clocks c c' ready t _ hcall _ _ _ =>
      rw [hcall] at h
      cases h
  | feeds _ _ _ hcall _ => exact absurd h hcall
  | opens c _ _ _ hcall _ _ => exact absurd h hcall
  | polls c ms ready _ _ _ hcall _ => exact absurd h hcall
  | goesOn c _ _ _ _ hcall _ _ => exact absurd h hcall
  | closes c _ _ hcall _ _ => exact absurd h hcall
  | waits c _ _ hcall _ _ => exact absurd h hcall
  | returns c r reaped _ _ hcall _ _ _ => exact absurd h hcall

/-- A run that has killed its child has seen `elapsed_ms` reach the timeout. -/
theorem due_of_kills {t₀ : Nat} (hrun : Runs (Clocked cmd.Moves) (cmd.start, t₀) es x)
    (hkills : Kills es) : cmd.timeout ≤ elapsedOf (readings es) := by
  induction hrun with
  | refl =>
      obtain ⟨e, he, -⟩ := hkills
      cases he
  | @tail mid last es e hrun hstep ih =>
      rcases kills_concat.mp hkills with hbefore | hnow
      · have hafter : mid.1.stage = .after := by
          apply Decidable.byContradiction
          intro hin
          exact ((left_of_runs hrun).inside hin).1 hbefore
        rw [readings_other (call_ne_clock_of_after hstep hafter)]
        exact ih hbefore
      · rw [readings_other (by rw [hnow]; simp)]
        exact (kept_of_runs hrun).kills (killing_of_kill hstep hnow)

end Flags

/-- When `ftl_run_command` returns, `timed_out` says whether it has killed the child if and only
if `elapsed_ms` was below the timeout where the loop was left at the end of the output or by an
error of read or poll.  The flag is computed behind the loop, from the time and not from the
kill. -/
theorem flag_reports_kill_iff (cmd : CCommand) (t₀ t : Nat) (es : List Event) (r : CRunResult)
    (reaped : Bool)
    (hrun : Runs (Clocked cmd.Moves) (cmd.start, t₀) es (.returned r reaped, t)) :
    (r.timedOut = true ↔ Kills es) ↔
      (Closes es → elapsedOf (readings es) < cmd.timeout) := by
  have hflag := (kept_of_runs hrun).returned r reaped rfl
  have hleft := (left_of_runs hrun).outside rfl
  rw [hflag, decide_eq_true_iff]
  constructor
  · intro hsame hcloses
    apply Int.lt_of_not_ge
    intro hdue
    exact (hleft.mp (hsame.mp hdue)) hcloses
  · intro hbelow
    refine ⟨fun hdue => hleft.mpr fun hcloses => ?_, due_of_kills hrun⟩
    have hnot := hbelow hcloses
    omega

/-- A child that is given one millisecond. -/
def briefly : CCommand := ⟨none, 1⟩

/-- It closes its output, and poll returns late: the clock has reached the deadline. -/
def closesLate : List Event :=
  [⟨.closeStdin, .done, 0, zero_counted⟩, ⟨.clock, .time 0, 0, zero_counted⟩,
    ⟨.allocate 4096, .memory true, 0, zero_counted⟩,
    ⟨.poll [.out] 1, .ready fun _ => true, 1000000, by decide⟩,
    ⟨.clock, .time 1000000, 1000000, by decide⟩, ⟨.read .out 4096, .bytes [], 1000000, by decide⟩,
    ⟨.closeOutput, .done, 1000000, by decide⟩, ⟨.waitpid, .status 0, 1000000, by decide⟩]

theorem closesLate_run :
    Runs (Clocked briefly.Moves) (briefly.start, 0) closesLate
      (.returned ⟨0, true, some []⟩ true, 1000000) :=
  .head (t := (.starting, 0)) ⟨⟨rfl, rfl⟩, rfl, by decide, by simp, by simp⟩ <|
  .head (t := (.allocating (.ofNanos 0), 0)) ⟨⟨rfl, rfl⟩, rfl, by decide, by simp, by simp⟩ <|
  .head (t := (.polling ⟨.ofNanos 0, 0, 4096, 0, some []⟩ 1, 0))
    ⟨⟨rfl, rfl⟩, rfl, by decide, by simp, by simp⟩ <|
  .head (t := (.clocking ⟨.ofNanos 0, 0, 4096, 0, some []⟩ (.ready fun _ => true), 1000000))
    ⟨⟨rfl, rfl⟩, rfl, by decide, by simp, by simp⟩ <|
  .head (t := (.reading ⟨.ofNanos 0, 1, 4096, 0, some []⟩, 1000000))
    ⟨⟨rfl, rfl⟩, rfl, by decide, by simp, by simp⟩ <|
  .head (t := (.closingOutput ⟨.ofNanos 0, 1, 4096, 0, some []⟩, 1000000))
    ⟨⟨rfl, rfl⟩, rfl, by decide, by simp, by simp⟩ <|
  .head (t := (.waiting ⟨.ofNanos 0, 1, 4096, 0, some []⟩, 1000000))
    ⟨⟨rfl, rfl⟩, rfl, by decide, by simp, by simp⟩ <|
  .single ⟨⟨rfl, rfl⟩, rfl, by decide, by simp, by simp⟩

theorem flagged_not_killed :
    ∃ r t, Runs (Clocked briefly.Moves) (briefly.start, 0) closesLate (.returned r true, t) ∧
      r.timedOut = true ∧ ¬ Kills closesLate := by
  refine ⟨_, _, closesLate_run, rfl, ?_⟩
  simp [Kills, closesLate]

/-- It closes its output, and poll returns at once. -/
def closesInTime : List Event :=
  [⟨.closeStdin, .done, 0, zero_counted⟩, ⟨.clock, .time 0, 0, zero_counted⟩,
    ⟨.allocate 4096, .memory true, 0, zero_counted⟩,
    ⟨.poll [.out] 1, .ready fun _ => true, 0, zero_counted⟩,
    ⟨.clock, .time 0, 0, zero_counted⟩, ⟨.read .out 4096, .bytes [], 0, zero_counted⟩,
    ⟨.closeOutput, .done, 0, zero_counted⟩, ⟨.waitpid, .status 0, 0, zero_counted⟩]

theorem closesInTime_run :
    Runs (Clocked briefly.Moves) (briefly.start, 0) closesInTime
      (.returned ⟨0, false, some []⟩ true, 0) :=
  .head (t := (.starting, 0)) ⟨⟨rfl, rfl⟩, rfl, by decide, by simp, by simp⟩ <|
  .head (t := (.allocating (.ofNanos 0), 0)) ⟨⟨rfl, rfl⟩, rfl, by decide, by simp, by simp⟩ <|
  .head (t := (.polling ⟨.ofNanos 0, 0, 4096, 0, some []⟩ 1, 0))
    ⟨⟨rfl, rfl⟩, rfl, by decide, by simp, by simp⟩ <|
  .head (t := (.clocking ⟨.ofNanos 0, 0, 4096, 0, some []⟩ (.ready fun _ => true), 0))
    ⟨⟨rfl, rfl⟩, rfl, by decide, by simp, by simp⟩ <|
  .head (t := (.reading ⟨.ofNanos 0, 0, 4096, 0, some []⟩, 0))
    ⟨⟨rfl, rfl⟩, rfl, by decide, by simp, by simp⟩ <|
  .head (t := (.closingOutput ⟨.ofNanos 0, 0, 4096, 0, some []⟩, 0))
    ⟨⟨rfl, rfl⟩, rfl, by decide, by simp, by simp⟩ <|
  .head (t := (.waiting ⟨.ofNanos 0, 0, 4096, 0, some []⟩, 0))
    ⟨⟨rfl, rfl⟩, rfl, by decide, by simp, by simp⟩ <|
  .single ⟨⟨rfl, rfl⟩, rfl, by decide, by simp, by simp⟩

/-- The flag is right where the last reading is before the deadline. -/
theorem flag_reports_closesLate :
    ((⟨0, false, some []⟩ : CRunResult).timedOut = true ↔ Kills closesInTime) ∧
      ¬ ((⟨0, true, some []⟩ : CRunResult).timedOut = true ↔ Kills closesLate) := by
  constructor
  · apply (flag_reports_kill_iff briefly 0 0 closesInTime _ true closesInTime_run).mpr
    intro _
    decide
  · rw [flag_reports_kill_iff briefly 0 1000000 closesLate _ true closesLate_run]
    intro hbelow
    have hcloses : Closes closesLate :=
      ⟨_, List.mem_of_getElem? (show closesLate[5]? = some _ from rfl), rfl⟩
    exact absurd (hbelow hcloses) (by decide)

/-! ## The elapsed time -/

/-- The nanoseconds of the later reading are not below those of the earlier one, but for whole
milliseconds.  Otherwise their difference is negative and is truncated upwards, to zero. -/
def Unborrowed (start now : Nat) : Prop :=
  start % 1000000000 ≤ now % 1000000000 ∨
    (start % 1000000000 - now % 1000000000) % 1000000 = 0

/-- `elapsed_ms` is not more than the time that has passed if and only if no milliseconds are
rounded up. -/
theorem elapsed_le_iff (start now : Nat) :
    elapsedMsOf (.ofNanos start) (.ofNanos now) * 1000000 ≤ now - start ↔
      Unborrowed start now := by
  have hnsec : elapsedMsOf (.ofNanos start) (.ofNanos now) =
      ((now / 1000000000 : Nat) - (start / 1000000000 : Nat) : Int) * 1000 +
        ((now % 1000000000 : Nat) - (start % 1000000000 : Nat) : Int).tdiv 1000000 := rfl
  rw [hnsec, Unborrowed]
  by_cases hborrow : start % 1000000000 ≤ now % 1000000000
  · rw [Int.tdiv_eq_ediv_of_nonneg (by omega)]
    omega
  · have hflip : ((now % 1000000000 : Nat) - (start % 1000000000 : Nat) : Int).tdiv 1000000 =
        -(((start % 1000000000 : Nat) - (now % 1000000000 : Nat) : Int) / 1000000) := by
      rw [← Int.tdiv_eq_ediv_of_nonneg (by omega), ← Int.neg_tdiv, Int.neg_sub]
    rw [hflip]
    omega

theorem elapsedOf_last {times : List Nat} {start : Nat} (h : times.head? = some start) :
    ∃ last ∈ times, elapsedOf times = elapsedMsOf (.ofNanos start) (.ofNanos last) := by
  obtain ⟨rest, rfl⟩ := List.head?_eq_some_iff.mp h
  refine ⟨rest.getLastD start, ?_, rfl⟩
  exact List.getLastD_mem_cons

/-- `elapsed_ms` is not more than the time that has passed, and where the child is about to be
killed its timeout has passed. -/
structure NeverEarly (cmd : CCommand) (es : List Event) (x : CParent × Nat) : Prop where
  elapsed : ∀ start, (readings es).head? = some start → ∀ now ∈ readings es,
    elapsedMsOf (.ofNanos start) (.ofNanos now) * 1000000 ≤ now - start
  kills : x.1.stage = .killing → ∀ start, (readings es).head? = some start →
    start + cmd.timeout * 1000000 ≤ x.2

/-- In all states of a run this holds if and only if in no clock reading milliseconds are rounded
up. -/
theorem never_early_iff (cmd : CCommand) (t₀ : Nat) (es : List Event) (x : CParent × Nat)
    (hrun : Runs (Clocked cmd.Moves) (cmd.start, t₀) es x) :
    Throughout (Clocked cmd.Moves) (cmd.start, t₀) (NeverEarly cmd) es ↔
      ∀ start, (readings es).head? = some start → ∀ now ∈ readings es, Unborrowed start now := by
  constructor
  · intro hall start hstart now hnow
    have hearly := hall es x (List.prefix_refl es) hrun
    exact (elapsed_le_iff start now).mp (hearly.elapsed start hstart now hnow)
  · intro hwhole ms y hms hrun'
    have hreadings : ∀ start, (readings ms).head? = some start → ∀ now ∈ readings ms,
        elapsedMsOf (.ofNanos start) (.ofNanos now) * 1000000 ≤ now - start := by
      intro start hstart now hnow
      obtain ⟨rest, rfl⟩ := hms
      have hsplit : readings (ms ++ rest) = readings ms ++ readings rest :=
        List.filterMap_append
      apply (elapsed_le_iff start now).mpr
      apply hwhole start _ now
      · rw [hsplit]
        exact List.mem_append_left _ hnow
      · rw [hsplit, List.head?_append, hstart]
        rfl
    refine ⟨hreadings, fun hkill start hstart => ?_⟩
    have hdue := (kept_of_runs hrun').kills hkill
    obtain ⟨last, hlast, helapsed⟩ := elapsedOf_last hstart
    have hpassed := hreadings start hstart last hlast
    have hbefore := (reading_between hrun' last hlast).2
    rw [helapsed] at hdue
    omega

/-- A child that is given one second. -/
def oneSecond : CCommand := ⟨none, 1000⟩

/-- The clock reads 1 ns, and 1 s after a signal. -/
def interruptedPoll : List Event :=
  [⟨.closeStdin, .done, 0, zero_counted⟩, ⟨.clock, .time 1, 1, one_counted⟩,
    ⟨.allocate 4096, .memory true, 1, one_counted⟩,
    ⟨.poll [.out] 1000, .failed .eintr, 1000000000, by decide⟩,
    ⟨.clock, .time 1000000000, 1000000000, by decide⟩]

theorem interruptedPoll_run :
    Runs (Clocked oneSecond.Moves) (oneSecond.start, 0) interruptedPoll
      (.killing ⟨.ofNanos 1, 1000, 4096, 0, some []⟩, 1000000000) :=
  .head (t := (.starting, 0)) ⟨⟨rfl, rfl⟩, rfl, by decide, by simp, by simp⟩ <|
  .head (t := (.allocating (.ofNanos 1), 1)) ⟨⟨rfl, rfl⟩, rfl, by decide, by simp, by simp⟩ <|
  .head (t := (.polling ⟨.ofNanos 1, 0, 4096, 0, some []⟩ 1000, 1))
    ⟨⟨rfl, rfl⟩, rfl, by decide, by simp, by simp⟩ <|
  .head (t := (.clocking ⟨.ofNanos 1, 0, 4096, 0, some []⟩ (.failed .eintr), 1000000000))
    ⟨⟨rfl, rfl⟩, rfl, by decide, by simp, by simp⟩ <|
  .single ⟨⟨rfl, rfl⟩, rfl, by decide, by simp, by simp⟩

/-- `elapsed_ms` says 1000 after 999999999 ns, and the child is killed. -/
theorem killed_a_nanosecond_early :
    elapsedMsOf (.ofNanos 1) (.ofNanos 1000000000) = 1000 ∧
      ∃ c, Runs (Clocked oneSecond.Moves) (oneSecond.start, 0) interruptedPoll
        (.killing c, 1000000000) ∧ (readings interruptedPoll).head? = some 1 ∧
        (1000000000 : Int) < 1 + oneSecond.timeout * 1000000 := by
  exact ⟨by decide, _, interruptedPoll_run, rfl, by decide⟩

/-- The same, with a clock that reads 0 ns at the start. -/
def interruptedLater : List Event :=
  [⟨.closeStdin, .done, 0, zero_counted⟩, ⟨.clock, .time 0, 0, zero_counted⟩,
    ⟨.allocate 4096, .memory true, 0, zero_counted⟩,
    ⟨.poll [.out] 1000, .failed .eintr, 1000000000, by decide⟩,
    ⟨.clock, .time 1000000000, 1000000000, by decide⟩]

theorem interruptedLater_run :
    Runs (Clocked oneSecond.Moves) (oneSecond.start, 0) interruptedLater
      (.killing ⟨.ofNanos 0, 1000, 4096, 0, some []⟩, 1000000000) :=
  .head (t := (.starting, 0)) ⟨⟨rfl, rfl⟩, rfl, by decide, by simp, by simp⟩ <|
  .head (t := (.allocating (.ofNanos 0), 0)) ⟨⟨rfl, rfl⟩, rfl, by decide, by simp, by simp⟩ <|
  .head (t := (.polling ⟨.ofNanos 0, 0, 4096, 0, some []⟩ 1000, 0))
    ⟨⟨rfl, rfl⟩, rfl, by decide, by simp, by simp⟩ <|
  .head (t := (.clocking ⟨.ofNanos 0, 0, 4096, 0, some []⟩ (.failed .eintr), 1000000000))
    ⟨⟨rfl, rfl⟩, rfl, by decide, by simp, by simp⟩ <|
  .single ⟨⟨rfl, rfl⟩, rfl, by decide, by simp, by simp⟩

/-- There no milliseconds are rounded up, and the child is killed when its second is over. -/
theorem never_early_interruptedPoll :
    Throughout (Clocked oneSecond.Moves) (oneSecond.start, 0) (NeverEarly oneSecond)
        interruptedLater ∧
      ¬ Throughout (Clocked oneSecond.Moves) (oneSecond.start, 0) (NeverEarly oneSecond)
        interruptedPoll := by
  constructor
  · apply (never_early_iff oneSecond 0 interruptedLater _ interruptedLater_run).mpr
    intro start hstart now _
    cases hstart
    exact .inl (Nat.zero_le _)
  · rw [never_early_iff oneSecond 0 interruptedPoll _ interruptedPoll_run]
    intro hwhole
    have hlast : 1000000000 ∈ readings interruptedPoll := by decide
    rcases hwhole 1 rfl _ hlast with hle | hms
    · exact absurd hle (by decide)
    · exact absurd hms (by decide)

end Ftl.Process
