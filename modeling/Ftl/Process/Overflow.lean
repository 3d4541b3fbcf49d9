/-
  Process/Overflow.lean --- the widths of the numbers in `Subprocess::collect`.

  `timeout_ms` admits every positive `long long`.  In nanoseconds it may not fit into the 64
  bits of a time point, and in milliseconds not into the `int` that poll takes.

      deadlineOf_eq         the deadline wraps as a whole
      deadline_exact_iff    when neither of them loses bits
-/
import Ftl.Process.Timing

set_option autoImplicit false

namespace Ftl.Process

open Foundation (Runs Throughout throughout_iff)

/-- The deadline is what is meant, and so is the time that poll is given: it is neither negative
nor more than what is left, and when it is over what is left has passed. -/
def ExactIn (timeoutMs : Int) (es : List Event) (x : Parent × Nat) : Prop :=
  ∀ start, (readings es).head? = some start →
    (∀ c, x.1.locals = some c → c.deadline = dueAt timeoutMs start) ∧
    ∀ c remainingMs, x.1 = .polling c remainingMs →
      0 ≤ wrap32 remainingMs ∧ wrap32 remainingMs ≤ remainingMs ∧
        remainingMs ≤ wrap32 remainingMs

/-- The deadline fits into 64 bits, and each check finds it less than 2^31 ms away.  Where it
does not, the sum in nanoseconds or the cast to the `int` that `poll` takes wraps. -/
def Fits (timeoutMs : Int) (es : List Event) : Prop :=
  ∀ start checks, readings es = start :: checks →
    dueAt timeoutMs start < 9223372036854775808 ∧
    ∀ now ∈ checks, dueAt timeoutMs start < now + 2147483648000000

theorem deadlineOf_eq (timeoutMs : Int) (start : Nat) :
    deadlineOf start timeoutMs = wrap64 (dueAt timeoutMs start) := by
  unfold deadlineOf dueAt wrap64
  rw [Int.add_bmod_bmod]

theorem wrap64_eq_iff {x : Int} (hpos : 0 ≤ x) : wrap64 x = x ↔ x < 9223372036854775808 := by
  refine ⟨fun hsame => ?_, fun hlt => wrap64_eq (by omega) hlt⟩
  have hlt := @Int.bmod_lt x 18446744073709551616 (by decide)
  rw [wrap64] at hsame
  rw [hsame] at hlt
  omega

theorem fits_shrink (timeoutMs : Int) (es : List Event) (e : Event)
    (h : Fits timeoutMs (es ++ [e])) : Fits timeoutMs es := by
  intro start checks hes
  have hlonger : readings (es ++ [e]) = start :: (checks ++ e.reading.toList) := by
    rw [readings_concat, hes, List.cons_append]
  obtain ⟨hdue, hchecks⟩ := h start _ hlonger
  exact ⟨hdue, fun now hnow => hchecks now (List.mem_append_left _ hnow)⟩

/-- Once the deadline is fixed, each reading counts by itself. -/
theorem fits_concat {timeoutMs : Int} {es : List Event} {e : Event} {start : Nat}
    (hstart : (readings es).head? = some start) (h : Fits timeoutMs es) :
    Fits timeoutMs (es ++ [e]) ↔
      ∀ now, e.reading = some now → dueAt timeoutMs start < now + 2147483648000000 := by
  obtain ⟨checks, hes⟩ := List.head?_eq_some_iff.mp hstart
  have hlonger : readings (es ++ [e]) = start :: (checks ++ e.reading.toList) := by
    rw [readings_concat, hes, List.cons_append]
  constructor
  · intro hall now hnow
    apply (hall start _ hlonger).2
    rw [hnow]
    exact List.mem_append_right _ List.mem_cons_self
  · intro he start' checks' hes'
    rw [hlonger] at hes'
    obtain ⟨rfl, rfl⟩ := List.cons.inj hes'
    obtain ⟨hdue, hchecks⟩ := h start checks hes
    refine ⟨hdue, fun now hnow => ?_⟩
    rcases List.mem_append.mp hnow with hold | hnew
    · exact hchecks now hold
    · exact he now (Option.mem_toList.mp hnew)

theorem exactIn_iff {timeoutMs : Int} {es : List Event} {x : Parent × Nat} {start : Nat}
    (hstart : (readings es).head? = some start) :
    ExactIn timeoutMs es x ↔
      (∀ c, x.1.locals = some c → c.deadline = dueAt timeoutMs start) ∧
      ∀ c remainingMs, x.1 = .polling c remainingMs →
        0 ≤ wrap32 remainingMs ∧ wrap32 remainingMs ≤ remainingMs ∧
          remainingMs ≤ wrap32 remainingMs := by
  unfold ExactIn
  rw [hstart]
  simp

section Widths

variable {sp : Subprocess} {es : List Event} {e : Event} {x y : Parent × Nat}

/-- A state that has the deadline of the one before, and does not poll. -/
theorem exact_of_calm {start : Nat} (hstart : (readings es).head? = some start)
    (hcall : e.call ≠ .clock) (hfits : Fits sp.timeoutMs es) (hpolls : ∀ c ms, y.1 ≠ .polling c ms)
    (hkeeps : ∀ c, y.1.locals = some c → c.deadline = dueAt sp.timeoutMs start) :
    ExactIn sp.timeoutMs (es ++ [e]) y ↔ Fits sp.timeoutMs (es ++ [e]) := by
  rw [fits_concat hstart hfits, exactIn_iff (head?_readings_concat hstart)]
  refine ⟨fun _ now hnow => ?_, fun _ => ⟨hkeeps, fun c ms hy => absurd hy (hpolls c ms)⟩⟩
  rw [reading_of_other hcall] at hnow
  cases hnow

theorem not_polling_of_calm {p : Parent} (hcalm : p.calm = true) (c : Collect) (ms : Int) :
    p ≠ .polling c ms := by
  intro hp
  rw [hp] at hcalm
  cases hcalm

theorem exact_of_check {start : Nat} {c : Collect} (hstart : (readings es).head? = some start)
    (hcall : e.call = .clock) (hdeadline : c.deadline = dueAt sp.timeoutMs start)
    (hfits : Fits sp.timeoutMs es) (hy : y.1 = Subprocess.checkDeadline c e.time) :
    ExactIn sp.timeoutMs (es ++ [e]) y ↔ Fits sp.timeoutMs (es ++ [e]) := by
  rw [fits_concat hstart hfits, exactIn_iff (head?_readings_concat hstart),
    reading_of_clock hcall, hy]
  obtain ⟨checks, hes⟩ := List.head?_eq_some_iff.mp hstart
  obtain ⟨hdue, -⟩ := hfits start checks hes
  have hpos := sp.timeout_pos
  have htime := e.time_lt
  have hleft : remainingMsOf c.deadline e.time =
      (dueAt sp.timeoutMs start - e.time).tdiv 1000000 := by
    unfold remainingMsOf
    rw [hdeadline, wrap64_eq _ _]
    · unfold dueAt
      omega
    · omega
  unfold Subprocess.checkDeadline
  rw [hleft]
  split
  -- the time is up and nothing is cast, or poll gets what fits into an `int`
  · rename_i hzero
    have hnear := tdiv_nonpos_iff.mp hzero
    refine ⟨fun _ now hnow => ?_, fun _ => ⟨fun c' hc' => ?_, fun c' ms hpoll => ?_⟩⟩
    · cases hnow
      omega
    · cases hc'
      exact hdeadline
    · cases hpoll
  · rename_i hsome
    have hfar := tdiv_pos_iff.mp (Int.not_le.mp hsome)
    have hms : (dueAt sp.timeoutMs start - e.time).tdiv 1000000 =
        (dueAt sp.timeoutMs start - e.time) / 1000000 := tdiv_of_nonneg (by omega)
    rw [hms]
    have hint := @wrap32_eq_iff ((dueAt sp.timeoutMs start - e.time) / 1000000) (by omega)
    constructor
    · intro hexact now hnow
      cases hnow
      obtain ⟨-, hle, hge⟩ := hexact.2 c _ rfl
      have hlt := hint.mp (Int.le_antisymm hle hge)
      omega
    · intro hnear
      refine ⟨fun c' hc' => ?_, fun c' ms hpoll => ?_⟩
      · cases hc'
        exact hdeadline
      · cases hpoll
        have hclose := hnear e.time rfl
        rw [hint.mpr (by omega)]
        omega

theorem exact_of_arm {start : Nat} (hes : readings (es ++ [e]) = [start])
    (hy : y.1 = Subprocess.whileOpen (sp.collectStart start)) :
    ExactIn sp.timeoutMs (es ++ [e]) y ↔ Fits sp.timeoutMs (es ++ [e]) := by
  have hpos := sp.timeout_pos
  obtain ⟨⟨c, hc, hdeadline⟩, -, hcalm⟩ :=
    Subprocess.carriesOn_whileOpen (sp.collectStart start)
  rw [← hy] at hc hcalm
  have hfixed : c.deadline = wrap64 (dueAt sp.timeoutMs start) :=
    hdeadline.trans (deadlineOf_eq sp.timeoutMs start)
  have hwhole := @wrap64_eq_iff (dueAt sp.timeoutMs start) (by unfold dueAt; omega)
  have hhead : (readings (es ++ [e])).head? = some start := by
    rw [hes]
    rfl
  rw [exactIn_iff hhead]
  constructor
  · intro hexact start' checks hes'
    rw [hes] at hes'
    cases hes'
    refine ⟨hwhole.mp ?_, by simp⟩
    rw [← hfixed]
    exact hexact.1 c hc
  · intro hfits
    refine ⟨fun c' hc' => ?_, fun c' ms hpoll => absurd hpoll (not_polling_of_calm hcalm c' ms)⟩
    rw [hc] at hc'
    cases hc'
    rw [hfixed]
    exact hwhole.mpr (hfits start [] hes).1

theorem exact_step (h : Armed sp es x) (hstep : Clocked sp.Moves x e y)
    (hexact : ExactIn sp.timeoutMs es x) (hfits : Fits sp.timeoutMs es) :
    ExactIn sp.timeoutMs (es ++ [e]) y ↔ Fits sp.timeoutMs (es ++ [e]) := by
  cases Subprocess.timing_of_moves hstep.moves with
  | feeds hx _ hcall _ =>
      have hnone : readings (es ++ [e]) = [] := by rw [readings_other hcall, (h.before hx).1]
      unfold ExactIn Fits
      rw [hnone]
      simp
  | arms start hx hcall hreply hy =>
      refine exact_of_arm ?_ hy
      rw [readings_clock hcall, (h.before hx).1, hstep.reads start hreply, List.nil_append]
  | checks c now hx hcall hreply hy =>
      obtain ⟨start, hstart, -, -⟩ := h.after (by rw [hx]; rfl)
      rw [exactIn_iff hstart] at hexact
      rw [hstep.reads now hreply] at hy
      exact exact_of_check hstart hcall (hexact.1 c (by rw [hx]; rfl)) hfits hy
  | lapses c ms hx hcall _ hy =>
      obtain ⟨start, hstart, -, -⟩ := h.after (by rw [hx]; rfl)
      rw [exactIn_iff hstart] at hexact
      apply exact_of_calm hstart (by rw [hcall]; simp) hfits
      · intro c' ms' hpoll
        rw [hy] at hpoll
        cases hpoll
      · intro c' hc'
        rw [hy] at hc'
        cases hc'
        exact hexact.1 c (by rw [hx]; rfl)
  | goesOn c c' hc hc' hcall _ hdeadline _ hcalm =>
      obtain ⟨start, hstart, -, -⟩ := h.after (armed_of_locals hc)
      rw [exactIn_iff hstart] at hexact
      exact exact_of_calm hstart hcall hfits (not_polling_of_calm hcalm)
        (deadline_of_locals hc' (hdeadline.trans (hexact.1 c hc)))
  | ends c hc hnone hcall _ _ _ hcalm =>
      obtain ⟨start, hstart, -, -⟩ := h.after (armed_of_locals hc)
      apply exact_of_calm hstart hcall hfits (not_polling_of_calm hcalm)
      intro c' hc'
      rw [hnone] at hc'
      cases hc'

end Widths

/-- In all states of a run the deadline and the times that poll is given are exact if and only
if the deadline fits into 64 bits and each check finds it less than 2^31 ms away. -/
theorem deadline_exact_iff (sp : Subprocess) (t₀ : Nat) (es : List Event) (x : Parent × Nat)
    (hrun : Runs (Clocked sp.Moves) (sp.start, t₀) es x) :
    Throughout (Clocked sp.Moves) (sp.start, t₀) (ExactIn sp.timeoutMs) es ↔
      Fits sp.timeoutMs es := by
  refine throughout_iff (clocked_unique sp.moves_unique) hrun (armed_start sp t₀) ?_ ?_
    (fits_shrink sp.timeoutMs) armed_step exact_step
  · intro start hstart
    cases hstart
  · intro start checks hes
    cases hes

/-- A child that may take all the time that `timeout_ms` admits. -/
def endless : Subprocess := (Subprocess.ofProgram []).setTimeoutMs 9223372036854775807 (by decide)

/-- A child that is given 2^31 ms. -/
def longWait : Subprocess := (Subprocess.ofProgram []).setTimeoutMs 2147483648 (by decide)

/-- The clock reads 0 ns, also at the first check. -/
def firstCheck : List Event :=
  [⟨.closeStdin, .done, 0, zero_counted⟩, ⟨.clock, .time 0, 0, zero_counted⟩,
    ⟨.clock, .time 0, 0, zero_counted⟩]

theorem longWait_run :
    Runs (Clocked longWait.Moves) (longWait.start, 0) firstCheck
      (.polling (longWait.collectStart 0) 2147483648, 0) :=
  .head (t := (.arming, 0)) ⟨⟨rfl, rfl⟩, rfl, by decide, by simp, by simp⟩ <|
  .head (t := (.checking (longWait.collectStart 0), 0))
    ⟨⟨rfl, rfl⟩, rfl, by decide, by simp, by simp⟩ <|
  .single ⟨⟨rfl, rfl⟩, rfl, by decide, by simp, by simp⟩

/-- The longest timeout is over a millisecond before it has begun, and poll waits without limit
for one of 2^31 ms. -/
theorem long_timeouts_wrap :
    deadlineOf 0 endless.timeoutMs = -1000000 ∧
      ∃ c ms, Runs (Clocked longWait.Moves) (longWait.start, 0) firstCheck (.polling c ms, 0) ∧
        wrap32 ms = -2147483648 := by
  exact ⟨by decide, _, _, longWait_run, by decide⟩

/-- The longest time that poll can be given. -/
def longestWait : Subprocess := (Subprocess.ofProgram []).setTimeoutMs 2147483647 (by decide)

theorem longestWait_run :
    Runs (Clocked longestWait.Moves) (longestWait.start, 0) firstCheck
      (.polling (longestWait.collectStart 0) 2147483647, 0) :=
  .head (t := (.arming, 0)) ⟨⟨rfl, rfl⟩, rfl, by decide, by simp, by simp⟩ <|
  .head (t := (.checking (longestWait.collectStart 0), 0))
    ⟨⟨rfl, rfl⟩, rfl, by decide, by simp, by simp⟩ <|
  .single ⟨⟨rfl, rfl⟩, rfl, by decide, by simp, by simp⟩

/-- With one millisecond less the deadline and the time for poll are exact. -/
theorem deadline_exact_longWait :
    Throughout (Clocked longestWait.Moves) (longestWait.start, 0) (ExactIn longestWait.timeoutMs)
        firstCheck ∧
      ¬ Throughout (Clocked longWait.Moves) (longWait.start, 0) (ExactIn longWait.timeoutMs)
        firstCheck := by
  have hreadings : readings firstCheck = [0, 0] := rfl
  constructor
  · apply (deadline_exact_iff longestWait 0 firstCheck _ longestWait_run).mpr
    intro start checks hes
    rw [hreadings] at hes
    cases hes
    exact ⟨by decide, by decide⟩
  · rw [deadline_exact_iff longWait 0 firstCheck _ longWait_run]
    intro hfits
    exact absurd ((hfits 0 [0] hreadings).2 0 (by decide)) (by decide)

end Ftl.Process
