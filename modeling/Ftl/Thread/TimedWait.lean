/-
  Thread/TimedWait.lean --- how long a timed join waits.

  `timespec_from` gives the time that is left until the deadline, and `pthread_timedjoin_np`
  takes it for a time of day, long past.  The loop of `thread_finished` makes up for it: it
  goes on with timed joins that do not wait.

      nanos_timespecFrom     what the timespec denotes
      denotes_ahead_iff      before the deadline it denotes it only at the epoch
      waits_iff              when the timed joins of a probe wait until the deadline
-/
import Ftl.Thread.Builds

set_option autoImplicit false

namespace Ftl.Thread

open Process (Timespec wrap64)

/-- The time of day that the timespec denotes, in ns. -/
def nanos (spec : Timespec) : Int := spec.sec * 1000000000 + spec.nsec

/-- `CLOCK_REALTIME` at an operation; it is `offset` ahead of the steady clock. -/
def Env.realtime (env : Env) (offset : Int) (tick : Nat) : Int := env.clock tick + offset

/-- `pthread_timedjoin_np` does not time out before the time of day it was given. -/
def NotEarly (env : Env) (offset : Int) (cs : List JoinCall) : Prop :=
  ∀ c ∈ cs, c.code = .etimedout → nanos c.spec ≤ env.realtime offset c.tick

/-- What is expected of the timed joins `cs` of one probe, if `thread_finished` waits as its
comment says. -/
structure Waits (env : Env) (offset deadline : Int) (cs : List JoinCall) : Prop where
  /-- what they are given is the time of day of the deadline -/
  denotes : ∀ c ∈ cs, nanos c.spec = deadline + offset
  /-- they do not time out before it -/
  notBefore : ∀ c ∈ cs, c.code = .etimedout → deadline ≤ env.clock c.tick
  /-- at most one follows the first -/
  short : cs.length ≤ 2

/-- By how much `timespec_from` raises the time that is left: not at all until the deadline, and
to zero after it. -/
def raised (deadline : Int) (now : Nat) : Int :=
  max 0 (wrap64 (deadline - now)) - (deadline - now)

theorem raised_of_ahead {deadline : Int} {now : Nat} (hahead : now ≤ deadline)
    (hfits : deadline - now < 9223372036854775808) : raised deadline now = 0 := by
  have hexact : wrap64 (deadline - now) = deadline - now := by
    unfold wrap64
    rw [Int.bmod_eq_of_le (by omega) (by omega)]
  rw [raised, hexact]
  omega

theorem nanos_timespecFrom (point : Int) (now : Nat) :
    nanos (timespecFrom point now) = max 0 (wrap64 (point - now)) := by
  simp only [nanos, timespecFrom]
  omega

/-- The timespec denotes the deadline if and only if `CLOCK_REALTIME` shows nothing but what the
time that is left was raised by. -/
theorem denotes_iff {offset deadline : Int} {now : Nat} :
    nanos (timespecFrom deadline now) = deadline + offset ↔ now + offset = raised deadline now := by
  rw [nanos_timespecFrom, raised]
  omega

/-- Until the deadline the timespec denotes it only at the epoch, when `CLOCK_REALTIME` reads 0. -/
theorem denotes_ahead_iff {offset deadline : Int} {now : Nat} (hahead : now ≤ deadline)
    (hfits : deadline - now < 9223372036854775808) :
    nanos (timespecFrom deadline now) = deadline + offset ↔ now + offset = 0 := by
  rw [denotes_iff, raised_of_ahead hahead hfits]

section Probe

variable {env : Env} {offset deadline : Int} {h : Handle} {fuel : Nat} {s s' : Threads}
  {r : Option Bool}

theorem timedFinished_calls (hrun : timedFinished env deadline h fuel s = (r, s')) :
    ∃ cs, s'.calls = s.calls ++ cs := by
  induction fuel generalizing s with
  | zero =>
      cases hrun
      exact ⟨[], (List.append_nil _).symm⟩
  | succ fuel ih =>
      simp only [timedFinished] at hrun
      split at hrun
      · cases hrun
        exact ⟨_, rfl⟩
      · split at hrun
        · cases hrun
          exact ⟨_, rfl⟩
        · split at hrun
          · cases hrun
            exact ⟨_, rfl⟩
          · obtain ⟨cs, hcs⟩ := ih hrun
            exact ⟨timedJoin env deadline h s :: cs, by simp [hcs]⟩

/-- The first timed join of a probe, and that it is the only one if the clock reading after it
is at or past the deadline. -/
theorem timedFinished_first
    (hrun : timedFinished env deadline h (fuel + 1) s = (r, s')) :
    ∃ cs, s'.calls = s.calls ++ timedJoin env deadline h s :: cs ∧
      (((timedJoin env deadline h s).code = .etimedout →
        deadline ≤ env.clock (s.tick + 2)) → cs = []) := by
  simp only [timedFinished] at hrun
  split at hrun
  · cases hrun
    exact ⟨[], rfl, fun _ => rfl⟩
  · rename_i hjoined
    split at hrun
    · cases hrun
      exact ⟨[], rfl, fun _ => rfl⟩
    · rename_i hgone
      split at hrun
      · cases hrun
        exact ⟨[], rfl, fun _ => rfl⟩
      · rename_i hearly
        obtain ⟨cs, hcs⟩ := timedFinished_calls hrun
        refine ⟨cs, by simp [hcs], fun hlate => ?_⟩
        apply absurd (hlate _) hearly
        cases hcode : (timedJoin env deadline h s).code with
        | etimedout => rfl
        | joined => exact absurd hcode hjoined
        | esrch => exact absurd (.inl hcode) hgone
        | einval => exact absurd (.inr hcode) hgone

end Probe

/-- The timed joins of a probe wait until the deadline if and only if `CLOCK_REALTIME` shows,
when `timespec_from` is first called, nothing but what it raises the time that is left by: 0
until the deadline. -/
theorem waits_iff (env : Env) (offset deadline : Int) (h : Handle) (fuel : Nat) (s s' : Threads)
    (r : Option Bool) (cs : List JoinCall)
    (hrun : timedFinished env deadline h (fuel + 1) s = (r, s'))
    (hcalls : s'.calls = s.calls ++ cs) (notEarly : NotEarly env offset cs) :
    Waits env offset deadline cs ↔
      env.realtime offset s.tick = raised deadline (env.clock s.tick) := by
  obtain ⟨rest, hrest, hlast⟩ := timedFinished_first hrun
  rw [hrest] at hcalls
  have hcs := List.append_cancel_left hcalls
  have hdenotes : nanos (timedJoin env deadline h s).spec = deadline + offset ↔
      env.realtime offset s.tick = raised deadline (env.clock s.tick) := denotes_iff
  rw [← hdenotes]
  constructor
  · intro hwaits
    exact hwaits.denotes _ (by rw [← hcs]; exact List.mem_cons_self)
  · intro hfirst
    have hlate : (timedJoin env deadline h s).code = .etimedout →
        deadline ≤ env.clock (s.tick + 1) := by
      intro hcode
      have htime := notEarly _ (by rw [← hcs]; exact List.mem_cons_self) hcode
      rw [hfirst, Env.realtime] at htime
      simp only [timedJoin] at htime
      omega
    have hnone : rest = [] := by
      apply hlast
      intro hcode
      have hread : env.clock (s.tick + 1) ≤ env.clock (s.tick + 2) :=
        env.monotone (Nat.le_succ _)
      have htimedout := hlate hcode
      omega
    rw [hnone] at hcs
    rw [← hcs]
    refine ⟨?_, ?_, by simp⟩
    · intro c hc
      rw [List.mem_singleton.mp hc]
      exact hfirst
    · intro c hc hcode
      rw [List.mem_singleton.mp hc] at hcode ⊢
      exact hlate hcode

/-- A clock that shows 0 once, and 300 ms from then on. -/
def late : Nat → Nat := fun k => if k = 0 then 0 else 300000000

theorem late_monotone {i j : Nat} (h : i ≤ j) : late i ≤ late j := by
  unfold late
  split
  · exact Nat.zero_le _
  · simp [show ¬ j = 0 by omega]

/-- A machine whose two clocks agree, just started. -/
theorem waits_at_epoch :
    ∃ r s',
      timedFinished ⟨late, late_monotone, fun _ => none⟩ 300000000 7 1 .initial = (r, s') ∧
      (Waits ⟨late, late_monotone, fun _ => none⟩ 0 300000000 s'.calls ↔
        Env.realtime ⟨late, late_monotone, fun _ => none⟩ 0 0 = raised 300000000 (late 0)) := by
  refine ⟨_, _, rfl, ?_⟩
  apply waits_iff ⟨late, late_monotone, fun _ => none⟩ 0 300000000 7 0 .initial _ _ _ rfl rfl
  intro c hc _
  rw [List.mem_singleton.mp hc]
  decide

/-- A machine of the year 2023, 1 s before the deadline: the timed join asks for 1 s after the
epoch, and times out four times before the clock is past the deadline. -/
theorem waits_not_2023 :
    ∃ r s',
      timedFinished (steadyEnv fun _ => none) 1000000000 7 9 .initial = (r, s') ∧
      NotEarly (steadyEnv fun _ => none) 1700000000000000000 s'.calls ∧
      ¬ Waits (steadyEnv fun _ => none) 1700000000000000000 1000000000 s'.calls := by
  refine ⟨_, _, rfl, ?_, ?_⟩
  · unfold NotEarly
    decide
  · intro hwaits
    exact absurd hwaits.short (by decide)

end Ftl.Thread
