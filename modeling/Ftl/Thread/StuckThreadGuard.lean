/-
  Thread/StuckThreadGuard.lean --- `StuckThreadGuard` in both of its builds.

  Embedded source: `StuckThreadGuard` of ftl/thread/thread_count.hpp.

  The operations of a call (clock readings, timed joins, kill probes, sleeps) are numbered,
  and the clock says when each of them takes place.  `pthread_timedjoin_np` joins a thread
  that has terminated; `pthread_kill(h, 0)` succeeds until a thread has been joined.  The
  joins are recorded with what they were given and what came back.

      turns_of_timedFinished     the turns of the loop in the build with timed joins
      pass_of_scan               the probes of a whole call in that build
      scan_returns               a call ends once the clock is past the deadline
-/
import Ftl.Process.Syscall

set_option autoImplicit false

namespace Ftl.Thread

open Process (Timespec deadlineOf wrap64)

/-! ## Clock and threads -/

/-- `pthread_t`. -/
abbrev Handle : Type := Nat

/-- What a run of the guard meets: the steady clock (in ns) at each of its operations, and
the time at which each thread terminates, if it does. -/
structure Env where
  clock : Nat → Nat
  monotone : ∀ {i j : Nat}, i ≤ j → clock i ≤ clock j
  ends : Handle → Option Nat

/-- The thread has not terminated by the time `t`. -/
def Env.Running (env : Env) (h : Handle) (t : Nat) : Prop := ∀ e ∈ env.ends h, t < e

instance (env : Env) (h : Handle) (t : Nat) : Decidable (env.Running h t) :=
  inferInstanceAs (Decidable (∀ e ∈ env.ends h, t < e))

/-- What `pthread_timedjoin_np` returns. -/
inductive JoinCode where
  | joined
  | esrch
  | einval
  | etimedout
  deriving DecidableEq, Repr

/-- A call of `pthread_timedjoin_np`: its arguments, the number of the operation, and what
it returned. -/
structure JoinCall where
  handle : Handle
  spec : Timespec
  tick : Nat
  code : JoinCode

/-- The process as the guard acts on it: the number of the next operation, and the timed
joins so far. -/
structure Threads where
  tick : Nat
  calls : List JoinCall

namespace Threads

/-- Before the first operation. -/
def initial : Threads := ⟨0, []⟩

/-- The thread has been joined. -/
def Joined (s : Threads) (h : Handle) : Prop := ∃ c ∈ s.calls, c.handle = h ∧ c.code = .joined

instance (s : Threads) (h : Handle) : Decidable (s.Joined h) :=
  inferInstanceAs (Decidable (∃ c ∈ s.calls, c.handle = h ∧ c.code = .joined))

/-- `n` operations that leave no trace. -/
def pass (s : Threads) (n : Nat) : Threads := { s with tick := s.tick + n }

@[simp] theorem pass_tick (s : Threads) (n : Nat) : (s.pass n).tick = s.tick + n := rfl

@[simp] theorem pass_calls (s : Threads) (n : Nat) : (s.pass n).calls = s.calls := rfl

end Threads

/-- `pthread_timedjoin_np(h, nullptr, &spec)`: it joins a thread that has terminated, and
there is nothing to join a second time. -/
def pthreadTimedjoinNp (env : Env) (h : Handle) (s : Threads) : JoinCode :=
  if s.Joined h then .esrch
  else if env.Running h (env.clock s.tick) then .etimedout
  else .joined

/-- `pthread_kill(h, 0) == ESRCH`: the lifetime of a thread ID ends with the join. -/
def killFindsNone (s : Threads) (h : Handle) : Bool := decide (s.Joined h)

/-! ## thread_finished -/

/-- `timespec_from(point)` when the clock shows `now`. -/
def timespecFrom (point : Int) (now : Nat) : Timespec where
  sec := (max 0 (wrap64 (point - now))).toNat / 1000000000
  nsec := (max 0 (wrap64 (point - now))).toNat % 1000000000
  nsec_lt := Nat.mod_lt _ (by decide)

/-- `timespec_from(deadline)` and the timed join with it. -/
def timedJoin (env : Env) (deadline : Int) (h : Handle) (s : Threads) : JoinCall where
  handle := h
  spec := timespecFrom deadline (env.clock s.tick)
  tick := s.tick + 1
  code := pthreadTimedjoinNp env h (s.pass 1)

/-- The process after it. -/
def Threads.record (s : Threads) (c : JoinCall) : Threads := ⟨c.tick + 1, s.calls ++ [c]⟩

@[simp] theorem Threads.record_tick (s : Threads) (c : JoinCall) :
    (s.record c).tick = c.tick + 1 := rfl

@[simp] theorem Threads.record_calls (s : Threads) (c : JoinCall) :
    (s.record c).calls = s.calls ++ [c] := rfl

/-- Whether `FTL_HAVE_TIMEDJOIN_NP` is defined. -/
inductive Build where
  | timedjoin
  | fallback
  deriving DecidableEq, Repr

/-- `thread_finished(handle, deadline)` with `FTL_HAVE_TIMEDJOIN_NP`; after `fuel` turns of
its loop it has not returned. -/
def timedFinished (env : Env) (deadline : Int) (h : Handle) :
    Nat → Threads → Option Bool × Threads
  | 0, s => (none, s)
  | fuel + 1, s =>
      let call := timedJoin env deadline h s
      let s := s.record call
      if call.code = .joined then (some true, s)
      else if call.code = .esrch ∨ call.code = .einval then (some true, s)
      else if deadline ≤ env.clock s.tick then (some false, s.pass 1)
      else timedFinished env deadline h fuel (s.pass 1)

/-- `thread_finished(handle, deadline)` without it. -/
def probeFinished (env : Env) (deadline : Int) (h : Handle) :
    Nat → Threads → Option Bool × Threads
  | 0, s => (none, s)
  | fuel + 1, s =>
      if killFindsNone s h then (some true, s.pass 1)
      else if deadline ≤ env.clock (s.tick + 1) then (some false, s.pass 2)
      else probeFinished env deadline h fuel (s.pass 3)

/-- `thread_finished(handle, deadline)`. -/
def threadFinished (build : Build) (env : Env) (deadline : Int) (h : Handle) (fuel : Nat)
    (s : Threads) : Option Bool × Threads :=
  match build with
  | .timedjoin => timedFinished env deadline h fuel s
  | .fallback => probeFinished env deadline h fuel s

/-! ## require_all_finished -/

/-- `Watched`. -/
structure Watched where
  handle : Handle
  label : String

/-- `StuckThreadGuard`. -/
structure StuckThreadGuard where
  label : String
  watched : List Watched

/-- The loop over `watched_`; `stuck` is what it has collected. -/
def scan (build : Build) (env : Env) (deadline : Int) (fuel : Nat) :
    List Watched → List String → Threads → Option (List String) × Threads
  | [], stuck, s => (some stuck, s)
  | w :: rest, stuck, s =>
      match threadFinished build env deadline w.handle fuel s with
      | (none, s) => (none, s)
      | (some true, s) => scan build env deadline fuel rest stuck s
      | (some false, s) => scan build env deadline fuel rest (stuck ++ [w.label]) s

/-- `list`: the labels, with ", " before each but the first. -/
def labelList : List String → String
  | [] => ""
  | l :: ls => l ++ String.join (ls.map fun m => ", " ++ m)

namespace StuckThreadGuard

/-- The constructor. -/
def construct (label : String) : StuckThreadGuard := ⟨label, []⟩

/-- `watch(handle, label)`. -/
def watch (guard : StuckThreadGuard) (handle : Handle) (label : String) : StuckThreadGuard :=
  { guard with watched := guard.watched ++ [⟨handle, label⟩] }

/-- What the thrown `std::runtime_error` says. -/
def message (guard : StuckThreadGuard) (stuck : List String) (timeout : Int) : String :=
  guard.label ++ ": " ++ stuck.length.repr ++ " stuck thread(s) after " ++ toString timeout ++
    " ms: " ++ labelList stuck

/-- What `require_all_finished` ends with. -/
def verdict (guard : StuckThreadGuard) (timeout : Int) (stuck : List String) :
    Except String Unit :=
  if stuck = [] then .ok () else .error (guard.message stuck timeout)

/-- The `deadline` of a call, in 64 bits. -/
def deadline (env : Env) (timeout : Int) (s : Threads) : Int :=
  deadlineOf (env.clock s.tick) timeout

/-- It is `timeout` ms after the start where these bits suffice. -/
theorem deadline_eq {env : Env} {timeout : Int} {s : Threads} (hpos : 0 ≤ timeout)
    (hfits : env.clock s.tick + timeout * 1000000 < 9223372036854775808) :
    deadline env timeout s = env.clock s.tick + timeout * 1000000 := by
  unfold deadline deadlineOf wrap64
  rw [Int.add_bmod_bmod]
  exact Int.bmod_eq_of_le (by omega) (by omega)

/-- `require_all_finished(timeout)`. -/
def requireAllFinished (guard : StuckThreadGuard) (build : Build) (env : Env) (fuel : Nat)
    (timeout : Int) (s : Threads) : Option (Except String Unit) × Threads :=
  match scan build env (deadline env timeout s) fuel guard.watched [] (s.pass 1) with
  | (none, s) => (none, s)
  | (some stuck, s) => (some (guard.verdict timeout stuck), s)

end StuckThreadGuard

/-! ## The probes of the build with timed joins -/

/-- The turns of `timedFinished` from `s`: the timed joins, the result, and the process
afterwards. -/
inductive Turns (env : Env) (deadline : Int) (h : Handle) :
    Threads → List JoinCall → Bool → Threads → Prop where
  | gone {s : Threads} (hcode : (timedJoin env deadline h s).code ≠ .etimedout) :
      Turns env deadline h s [timedJoin env deadline h s] true
        (s.record (timedJoin env deadline h s))
  | late {s : Threads} (hcode : (timedJoin env deadline h s).code = .etimedout)
      (hlate : deadline ≤ env.clock (s.tick + 2)) :
      Turns env deadline h s [timedJoin env deadline h s] false
        ((s.record (timedJoin env deadline h s)).pass 1)
  | again {s s' : Threads} {b : Bool} {cs : List JoinCall}
      (hcode : (timedJoin env deadline h s).code = .etimedout)
      (hearly : env.clock (s.tick + 2) < deadline)
      (hrest : Turns env deadline h ((s.record (timedJoin env deadline h s)).pass 1) cs b s') :
      Turns env deadline h s (timedJoin env deadline h s :: cs) b s'

/-- The loop over the watched threads from `s`: which of them are stuck, and the timed
joins. -/
inductive Pass (env : Env) (deadline : Int) :
    List Watched → Threads → List Watched → List JoinCall → Threads → Prop where
  | done {s : Threads} : Pass env deadline [] s [] [] s
  | finished {w : Watched} {rest stuck : List Watched} {s s₁ s' : Threads}
      {cs cs' : List JoinCall} (hw : Turns env deadline w.handle s cs true s₁)
      (hrest : Pass env deadline rest s₁ stuck cs' s') :
      Pass env deadline (w :: rest) s stuck (cs ++ cs') s'
  | stuck {w : Watched} {rest stuck : List Watched} {s s₁ s' : Threads}
      {cs cs' : List JoinCall} (hw : Turns env deadline w.handle s cs false s₁)
      (hrest : Pass env deadline rest s₁ stuck cs' s') :
      Pass env deadline (w :: rest) s (w :: stuck) (cs ++ cs') s'

section Loops

variable {env : Env} {deadline : Int} {h : Handle} {fuel : Nat} {s s' : Threads} {b : Bool}

theorem turns_of_timedFinished (hrun : timedFinished env deadline h fuel s = (some b, s')) :
    ∃ cs, Turns env deadline h s cs b s' := by
  induction fuel generalizing s with
  | zero => simp [timedFinished] at hrun
  | succ fuel ih =>
      simp only [timedFinished] at hrun
      by_cases hcode : (timedJoin env deadline h s).code = .etimedout
      · simp only [hcode, reduceCtorEq, or_self, if_false] at hrun
        split at hrun
        · rename_i hlate
          cases hrun
          exact ⟨_, .late hcode hlate⟩
        · rename_i hearly
          obtain ⟨cs, hcs⟩ := ih hrun
          exact ⟨_, .again hcode (Int.not_le.mp hearly) hcs⟩
      · have hreturns : (some true, s.record (timedJoin env deadline h s)) = (some b, s') := by
          rw [← hrun]
          cases hc : (timedJoin env deadline h s).code with
          | etimedout => exact absurd hc hcode
          | joined => simp
          | esrch => simp
          | einval => simp
        cases hreturns
        exact ⟨_, .gone hcode⟩

theorem pass_of_scan {ws : List Watched} {acc stuck : List String}
    (hrun : scan .timedjoin env deadline fuel ws acc s = (some stuck, s')) :
    ∃ names cs, Pass env deadline ws s names cs s' ∧
      stuck = acc ++ names.map Watched.label := by
  induction ws generalizing acc s with
  | nil =>
      cases hrun
      exact ⟨[], [], .done, by simp⟩
  | cons w rest ih =>
      simp only [scan, threadFinished] at hrun
      split at hrun
      · cases hrun
      · rename_i s₁ hw
        obtain ⟨cs, hturns⟩ := turns_of_timedFinished hw
        obtain ⟨names, cs', hpass, hstuck⟩ := ih hrun
        exact ⟨names, cs ++ cs', .finished hturns hpass, hstuck⟩
      · rename_i s₁ hw
        obtain ⟨cs, hturns⟩ := turns_of_timedFinished hw
        obtain ⟨names, cs', hpass, hstuck⟩ := ih hrun
        exact ⟨w :: names, cs ++ cs', .stuck hturns hpass, by simp [hstuck]⟩

/-! ## Termination -/

/-- A turn moves on by at least one operation, so `fuel` turns reach the operation `k`. -/
theorem timedFinished_returns {k : Nat} (hk : deadline ≤ env.clock k)
    (hfuel : k < s.tick + fuel) (hpos : 0 < fuel) :
    ∃ b s', timedFinished env deadline h fuel s = (some b, s') := by
  induction fuel generalizing s with
  | zero => exact absurd hpos (Nat.lt_irrefl 0)
  | succ fuel ih =>
      simp only [timedFinished]
      split
      · exact ⟨true, _, rfl⟩
      · split
        · exact ⟨true, _, rfl⟩
        · split
          · exact ⟨false, _, rfl⟩
          · rename_i hearly
            have hbefore : s.tick + 2 < k := by
              apply Decidable.byContradiction
              intro hlater
              have hmono := env.monotone (Nat.not_lt.mp hlater)
              have hread : (s.record (timedJoin env deadline h s)).tick = s.tick + 2 := rfl
              rw [hread] at hearly
              omega
            apply ih
            · simp [timedJoin]
              omega
            · omega

theorem probeFinished_returns {k : Nat} (hk : deadline ≤ env.clock k)
    (hfuel : k < s.tick + fuel) (hpos : 0 < fuel) :
    ∃ b s', probeFinished env deadline h fuel s = (some b, s') := by
  induction fuel generalizing s with
  | zero => exact absurd hpos (Nat.lt_irrefl 0)
  | succ fuel ih =>
      simp only [probeFinished]
      split
      · exact ⟨true, _, rfl⟩
      · split
        · exact ⟨false, _, rfl⟩
        · rename_i hearly
          have hbefore : s.tick + 1 < k := by
            apply Decidable.byContradiction
            intro hlater
            have hmono := env.monotone (Nat.not_lt.mp hlater)
            omega
          apply ih
          · simp
            omega
          · omega

theorem threadFinished_returns {build : Build} {k : Nat} (hk : deadline ≤ env.clock k)
    (hfuel : k < fuel) : ∃ b s', threadFinished build env deadline h fuel s = (some b, s') := by
  have hreach : k < s.tick + fuel := Nat.lt_of_lt_of_le hfuel (Nat.le_add_left fuel s.tick)
  have hpos : 0 < fuel := Nat.zero_lt_of_lt hfuel
  cases build with
  | timedjoin => exact timedFinished_returns hk hreach hpos
  | fallback => exact probeFinished_returns hk hreach hpos

/-- Once some operation `k` finds the clock at or past the deadline, `k + 1` turns a thread
are enough. -/
theorem scan_returns {build : Build} {k : Nat} (hk : deadline ≤ env.clock k) (hfuel : k < fuel)
    (ws : List Watched) (acc : List String) (s : Threads) :
    ∃ stuck s', scan build env deadline fuel ws acc s = (some stuck, s') := by
  induction ws generalizing acc s with
  | nil => exact ⟨acc, s, rfl⟩
  | cons w rest ih =>
      obtain ⟨b, s₁, hw⟩ : ∃ b s₁,
          threadFinished build env deadline w.handle fuel s = (some b, s₁) :=
        threadFinished_returns hk hfuel
      simp only [scan, hw]
      cases b with
      | true => exact ih acc s₁
      | false => exact ih (acc ++ [w.label]) s₁

end Loops

end Ftl.Thread
