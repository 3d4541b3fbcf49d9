/-
  Thread/Reporting.lean --- what `require_all_finished` reports in the build with timed joins.

  A probe ends with a timed join that times out and a clock reading at or past the deadline.
  The join comes first, so a thread that terminates between the two is reported although it
  was in time; after a join that waits for the deadline nothing could come in between.

      pass_turns             the probe of each watched thread in a call
      pass_failed            the threads that a call names
      reporting_exact_iff    when it names no thread that was in time
-/
import Mathlib.Data.List.Nodup
import Mathlib.Data.List.Perm.Subperm
import Ftl.Thread.Builds

set_option autoImplicit false

namespace Ftl.Thread

/-! ## Last probes -/

/-- The timed joins on one thread. -/
def probesOf (cs : List JoinCall) (h : Handle) : List JoinCall := cs.filter (·.handle = h)

/-- The last timed join on the thread timed out. -/
def FailedLast (cs : List JoinCall) (h : Handle) : Prop :=
  (probesOf cs h).getLast?.map JoinCall.code = some .etimedout

instance (cs : List JoinCall) (h : Handle) : Decidable (FailedLast cs h) :=
  inferInstanceAs (Decidable ((probesOf cs h).getLast?.map JoinCall.code = some .etimedout))

/-- The watched threads whose last timed join timed out. -/
def failed (ws : List Watched) (cs : List JoinCall) : List Watched :=
  ws.filter fun w => FailedLast cs w.handle

theorem probesOf_append (cs cs' : List JoinCall) (h : Handle) :
    probesOf (cs ++ cs') h = probesOf cs h ++ probesOf cs' h := List.filter_append _ _

theorem probesOf_self {cs : List JoinCall} {h : Handle} (hall : ∀ c ∈ cs, c.handle = h) :
    probesOf cs h = cs := by
  apply List.filter_eq_self.mpr
  intro c hc
  exact decide_eq_true (hall c hc)

theorem probesOf_none {cs : List JoinCall} {h : Handle} (hnone : ∀ c ∈ cs, c.handle ≠ h) :
    probesOf cs h = [] := by
  apply List.filter_eq_nil_iff.mpr
  intro c hc hsame
  exact hnone c hc (of_decide_eq_true hsame)

section Pass

variable {env : Env} {deadline : Int} {ws stuck : List Watched} {s s' : Threads}
  {cs : List JoinCall}

/-- The last timed join of a probe timed out if and only if the probe calls its thread
stuck. -/
theorem turns_failed_iff {h : Handle} {b : Bool} (hrun : Turns env deadline h s cs b s') :
    cs.getLast?.map JoinCall.code = some .etimedout ↔ b = false := by
  obtain ⟨init, c, hcs, -, htrue, hfalse⟩ := turns_last hrun
  rw [hcs, List.getLast?_concat, Option.map_some, Option.some_inj]
  cases b with
  | true => simpa using htrue rfl
  | false => simpa using (hfalse rfl).1

/-- Threads of other handles are not affected by the timed joins on one. -/
theorem not_joined_of_turns {h h' : Handle} {b : Bool}
    (hrun : Turns env deadline h s cs b s') (hother : h' ≠ h) (hbefore : ¬ s.Joined h') :
    ¬ s'.Joined h' := by
  rw [joined_of_calls (turns_calls hrun)]
  rintro (hold | ⟨c, hc, hhandle, -⟩)
  · exact hbefore hold
  · exact hother (hhandle.symm.trans (turns_handle hrun c hc))

/-- The timed joins on the first thread of a pass come first. -/
theorem probesOf_first {w : Watched} {rest : List Watched} {s₁ : Threads} {b : Bool}
    {cs' : List JoinCall} (hw : Turns env deadline w.handle s cs b s₁)
    (hrest : Pass env deadline rest s₁ stuck cs' s')
    (hother : ∀ w' ∈ rest, w'.handle ≠ w.handle) : probesOf (cs ++ cs') w.handle = cs := by
  rw [probesOf_append, probesOf_self (turns_handle hw), probesOf_none, List.append_nil]
  intro c hc
  obtain ⟨w', hw', hhandle⟩ := pass_handle hrest c hc
  rw [← hhandle]
  exact hother w' hw'

theorem probesOf_later {h h' : Handle} {b : Bool} (hw : Turns env deadline h s cs b s')
    (hother : h' ≠ h) (cs' : List JoinCall) : probesOf (cs ++ cs') h' = probesOf cs' h' := by
  rw [probesOf_append, probesOf_none, List.nil_append]
  intro c hc hhandle
  rw [turns_handle hw c hc] at hhandle
  exact hother hhandle.symm

/-- The timed joins on each thread of a call, where the threads are distinct and none has been
joined before, are the turns of one probe. -/
theorem pass_turns (hpass : Pass env deadline ws s stuck cs s')
    (hdistinct : (ws.map Watched.handle).Nodup) (hbefore : ∀ w ∈ ws, ¬ s.Joined w.handle) :
    ∀ w ∈ ws, ∃ s₀ s₁ b, Turns env deadline w.handle s₀ (probesOf cs w.handle) b s₁ ∧
      ¬ s₀.Joined w.handle ∧ (b = false ↔ w ∈ stuck) := by
  induction hpass with
  | done => simp
  | finished hw hrest ih =>
      have hother := handle_ne_of_nodup hdistinct
      intro w' hw'
      rcases List.mem_cons.mp hw' with rfl | htail
      · rw [probesOf_first hw hrest hother]
        refine ⟨_, _, true, hw, hbefore _ List.mem_cons_self, ?_⟩
        have hnot := fun hmem => hother w' ((pass_sublist hrest).subset hmem) rfl
        simpa using hnot
      · rw [probesOf_later hw (hother w' htail)]
        refine ih (List.nodup_cons.mp hdistinct).2 (fun w hmem => ?_) w' htail
        exact not_joined_of_turns hw (hother w hmem) (hbefore w (List.mem_cons_of_mem _ hmem))
  | stuck hw hrest ih =>
      have hother := handle_ne_of_nodup hdistinct
      intro w' hw'
      rcases List.mem_cons.mp hw' with rfl | htail
      · rw [probesOf_first hw hrest hother]
        exact ⟨_, _, false, hw, hbefore _ List.mem_cons_self, by simp⟩
      · rw [probesOf_later hw (hother w' htail)]
        obtain ⟨s₀, s₁, b, hturns, hfresh, hb⟩ :=
          ih (List.nodup_cons.mp hdistinct).2 (fun w hmem => not_joined_of_turns hw
            (hother w hmem) (hbefore w (List.mem_cons_of_mem _ hmem))) w' htail
        refine ⟨s₀, s₁, b, hturns, hfresh, ?_⟩
        have hne : w' ≠ _ := fun hsame => hother w' htail (congrArg Watched.handle hsame)
        rw [hb, List.mem_cons]
        simp [hne]

/-- A call names, in watch order, the threads whose last timed join timed out. -/
theorem pass_failed (hpass : Pass env deadline ws s stuck cs s')
    (hdistinct : (ws.map Watched.handle).Nodup) (hbefore : ∀ w ∈ ws, ¬ s.Joined w.handle) :
    stuck = failed ws cs := by
  have hmem : ∀ w ∈ ws, (w ∈ stuck ↔ FailedLast cs w.handle) := by
    intro w hw
    obtain ⟨_, _, b, hturns, -, hb⟩ := pass_turns hpass hdistinct hbefore w hw
    rw [← hb, FailedLast, turns_failed_iff hturns]
  have hsub : stuck.Sublist (failed ws cs) := by
    have hself : stuck.filter (fun w => FailedLast cs w.handle) = stuck := by
      apply List.filter_eq_self.mpr
      intro w hw
      exact decide_eq_true ((hmem w ((pass_sublist hpass).subset hw)).mp hw)
    rw [← hself]
    exact (pass_sublist hpass).filter _
  have hnodup : (failed ws cs).Nodup := (List.Nodup.of_map _ hdistinct).filter _
  have hsubset : failed ws cs ⊆ stuck := by
    intro w hw
    obtain ⟨hw', hfailed⟩ := List.mem_filter.mp hw
    exact (hmem w hw').mpr (of_decide_eq_true hfailed)
  exact hsub.eq_of_length_le (hnodup.subperm hsubset).length_le

end Pass

/-! ## The report -/

/-- What is expected of a call that makes the timed joins `cs` and ends with `v`. -/
structure Exact (env : Env) (deadline : Int) (guard : StuckThreadGuard) (timeout : Int)
    (cs : List JoinCall) (v : Except String Unit) : Prop where
  /-- it throws if some thread failed its last probe -/
  throws : (∃ what, v = .error what) ↔ ∃ w ∈ guard.watched, FailedLast cs w.handle
  /-- it names those threads in watch order -/
  names : ∀ what, v = .error what →
    what = guard.message ((failed guard.watched cs).map Watched.label) timeout
  /-- each of them was still running at or after the deadline -/
  late : ∀ w ∈ failed guard.watched cs, ∃ t : Nat, deadline ≤ t ∧ env.Running w.handle t
  /-- the others have been joined by the call, once -/
  joined : ∀ w ∈ guard.watched, w ∉ failed guard.watched cs →
    (probesOf cs w.handle).countP (fun c => c.code = .joined) = 1
  /-- a thread that terminated before the deadline is not named -/
  inTime : ∀ w ∈ guard.watched, ∀ e ∈ env.ends w.handle, e < deadline →
    w ∉ failed guard.watched cs

/-- Whenever a thread terminates after a timed join on it but by the deadline, the clock
reading that follows that join is still before the deadline.  Then it gets another probe; the
timed joins return at once, so none of them can itself wait for the end of the thread. -/
def ReadInTime (env : Env) (deadline : Int) (cs : List JoinCall) : Prop :=
  ∀ c ∈ cs, ∀ e ∈ env.ends c.handle, env.clock c.tick < e → e ≤ deadline →
    env.clock (c.tick + 1) < deadline

instance (env : Env) (deadline : Int) (cs : List JoinCall) :
    Decidable (ReadInTime env deadline cs) :=
  inferInstanceAs (Decidable (∀ c ∈ cs, ∀ e ∈ env.ends c.handle, env.clock c.tick < e →
    (e : Int) ≤ deadline → (env.clock (c.tick + 1) : Int) < deadline))

section Report

variable {env : Env} {deadline : Int} {guard : StuckThreadGuard} {timeout : Int}
  {s s' : Threads} {cs : List JoinCall}

/-- What the verdict says about the threads that failed. -/
theorem verdict_throws_iff :
    (∃ what, guard.verdict timeout ((failed guard.watched cs).map Watched.label) = .error what) ↔
      ∃ w ∈ guard.watched, FailedLast cs w.handle := by
  have hfailed : (∃ w ∈ guard.watched, FailedLast cs w.handle) ↔ failed guard.watched cs ≠ [] := by
    rw [failed, Ne, List.filter_eq_nil_iff]
    simp
  rw [hfailed, StuckThreadGuard.verdict]
  by_cases hnone : failed guard.watched cs = []
  · simp [hnone]
  · simp [hnone]

theorem verdict_names {stuck : List String} {what : String}
    (h : guard.verdict timeout stuck = .error what) : what = guard.message stuck timeout := by
  unfold StuckThreadGuard.verdict at h
  split at h
  · cases h
  · exact (Except.error.inj h).symm

variable (hpass : Pass env deadline guard.watched s (failed guard.watched cs) cs s')
  (hdistinct : (guard.watched.map Watched.handle).Nodup)
  (hbefore : ∀ w ∈ guard.watched, ¬ s.Joined w.handle)
include hpass hdistinct hbefore

/-- A thread is still running when the last timed join on it fails, and the clock is at or past
the deadline after that. -/
theorem last_of_failed {w : Watched} (hw : w ∈ failed guard.watched cs) :
    ∃ c ∈ cs, c.handle = w.handle ∧ env.Running w.handle (env.clock c.tick) ∧
      deadline ≤ env.clock (c.tick + 1) := by
  obtain ⟨hwatched, -⟩ := List.mem_filter.mp hw
  obtain ⟨s₀, s₁, b, hturns, hfresh, hb⟩ := pass_turns hpass hdistinct hbefore w hwatched
  obtain ⟨init, c, hcs, -, -, hfalse⟩ := turns_last hturns
  obtain ⟨hcode, hpast⟩ := hfalse (hb.mpr hw)
  have hmem : c ∈ probesOf cs w.handle := by
    rw [hcs]
    exact List.mem_append_right _ List.mem_cons_self
  obtain ⟨hc, hhandle⟩ := List.mem_filter.mp hmem
  refine ⟨c, hc, of_decide_eq_true hhandle, ?_, hpast⟩
  have hfound := turns_code hturns hfresh c hmem
  rw [hcode] at hfound
  split at hfound
  · assumption
  · cases hfound

/-- A timed join on a thread that still runs, with the clock at or past the deadline after it,
is the last one, and it fails. -/
theorem failed_of_last {c : JoinCall} (hc : c ∈ cs)
    (hruns : env.Running c.handle (env.clock c.tick))
    (hpast : deadline ≤ env.clock (c.tick + 1)) :
    ∃ w ∈ failed guard.watched cs, w.handle = c.handle := by
  obtain ⟨w, hw, hhandle⟩ := pass_handle hpass c hc
  obtain ⟨s₀, s₁, b, hturns, hfresh, hb⟩ := pass_turns hpass hdistinct hbefore w hw
  refine ⟨w, hb.mp ?_, hhandle⟩
  have hmem : c ∈ probesOf cs w.handle := List.mem_filter.mpr ⟨hc, decide_eq_true hhandle.symm⟩
  have hcode := turns_code hturns hfresh c hmem
  rw [hhandle, if_pos hruns] at hcode
  obtain ⟨init, c', hcs, hinit, htrue, -⟩ := turns_last hturns
  rw [hcs] at hmem
  rcases List.mem_append.mp hmem with hearlier | hlast
  · exact absurd (hinit c hearlier).2 (Int.not_lt.mpr hpast)
  · rw [← List.mem_singleton.mp hlast] at htrue
    cases b with
    | true => exact absurd hcode (htrue rfl)
    | false => rfl

theorem joined_once {w : Watched} (hw : w ∈ guard.watched)
    (hpassed : w ∉ failed guard.watched cs) :
    (probesOf cs w.handle).countP (fun c => c.code = .joined) = 1 := by
  obtain ⟨s₀, s₁, b, hturns, hfresh, hb⟩ := pass_turns hpass hdistinct hbefore w hw
  cases b with
  | true => exact turns_joined_once hturns hfresh
  | false => exact absurd (hb.mp rfl) hpassed

/-- The threads that a call names were running at the deadline if and only if its clock
readings were in time. -/
theorem late_iff :
    (∀ w ∈ failed guard.watched cs, ∃ t : Nat, deadline ≤ t ∧ env.Running w.handle t) ↔
      ReadInTime env deadline cs := by
  constructor
  · intro hlate c hc e he hafter hby
    apply Int.lt_of_not_ge
    intro hpast
    have hruns : env.Running c.handle (env.clock c.tick) := by
      intro e' he'
      rw [Option.mem_unique he' he]
      exact hafter
    obtain ⟨w, hw, hhandle⟩ := failed_of_last hpass hdistinct hbefore hc hruns hpast
    obtain ⟨t, ht, hrunning⟩ := hlate w hw
    rw [hhandle] at hrunning
    have hlt := hrunning e he
    omega
  · intro hread w hw
    obtain ⟨c, hc, hhandle, hruns, hpast⟩ := last_of_failed hpass hdistinct hbefore hw
    refine ⟨deadline.toNat, Int.self_le_toNat deadline, ?_⟩
    intro e he
    have hafter := hruns e he
    rw [← hhandle] at he
    have hlate : ¬ (e : Int) ≤ deadline := fun hby =>
      absurd (hread c hc e he hafter hby) (Int.not_lt.mpr hpast)
    omega

end Report

/-- A call on distinct threads that have not been joined ends once the clock is past the
deadline.  It throws, and names threads, exactly as expected if and only if no thread
terminates, by the deadline, between a timed join on it and a clock reading at or past the
deadline.  The deadline is that of the code, which is `timeout` after the start where
`StuckThreadGuard.deadline_eq` says so: below 2^63 ns, and for no negative timeout. -/
theorem reporting_exact_iff (guard : StuckThreadGuard) (env : Env) (timeout : Int) (s : Threads)
    (distinct : (guard.watched.map Watched.handle).Nodup)
    (joinable : ∀ w ∈ guard.watched, ¬ s.Joined w.handle) (k fuel : Nat)
    (hpast : StuckThreadGuard.deadline env timeout s ≤ env.clock k) (hfuel : k < fuel) :
    ∃ v s' cs, guard.requireAllFinished .timedjoin env fuel timeout s = (some v, s') ∧
      s'.calls = s.calls ++ cs ∧
      (Exact env (StuckThreadGuard.deadline env timeout s) guard timeout cs v ↔
        ReadInTime env (StuckThreadGuard.deadline env timeout s) cs) := by
  obtain ⟨stuck, s', hscan⟩ :=
    @scan_returns env _ fuel .timedjoin k hpast hfuel guard.watched [] (s.pass 1)
  obtain ⟨names, cs, hpass, hstuck⟩ := pass_of_scan hscan
  have hnames := pass_failed hpass distinct joinable
  rw [hnames] at hpass hstuck
  have hcalls : s'.calls = (s.pass 1).calls ++ cs := pass_calls hpass
  refine ⟨guard.verdict timeout stuck, s', cs, ?_, hcalls, ?_⟩
  · simp [StuckThreadGuard.requireAllFinished, hscan]
  · rw [hstuck, List.nil_append, ← late_iff hpass distinct joinable]
    refine ⟨fun hexact => hexact.late, fun hlate => ?_⟩
    refine ⟨verdict_throws_iff, fun what hwhat => verdict_names hwhat, hlate, ?_, ?_⟩
    · intro w hw hpassed
      exact joined_once hpass distinct joinable hw hpassed
    · intro w _ e he hearly hnamed
      obtain ⟨t, ht, hruns⟩ := hlate w hnamed
      have hlt := hruns e he
      omega

/-- The worker terminates at 50 ms, and its turn comes after that of the thread that never
terminates: it is joined, and the two others are named in the order of `watch`. -/
theorem reporting_exact_stuck :
    ∃ s' cs,
      watchingThree.requireAllFinished .timedjoin (steadyEnv (workerEnds 50000000)) 4 300 .initial
        = (some (.error "probe: 2 stuck thread(s) after 300 ms: stuck, idle"), s') ∧
      s'.calls = [] ++ cs ∧
      Exact (steadyEnv (workerEnds 50000000))
        (StuckThreadGuard.deadline (steadyEnv (workerEnds 50000000)) 300 .initial) watchingThree
        300 cs (.error "probe: 2 stuck thread(s) after 300 ms: stuck, idle") := by
  obtain ⟨v, s', cs, hrun, hcalls, hexact⟩ := reporting_exact_iff watchingThree
    (steadyEnv (workerEnds 50000000)) 300 .initial (by decide) (by decide) 3 4
    (steady_past _ (Nat.le_refl 3)) (by decide)
  have hverdict : (watchingThree.requireAllFinished .timedjoin (steadyEnv (workerEnds 50000000))
      4 300 .initial).1 = some (.error "probe: 2 stuck thread(s) after 300 ms: stuck, idle") := rfl
  have hjoins : ReadInTime (steadyEnv (workerEnds 50000000)) 300000000
      (watchingThree.requireAllFinished .timedjoin (steadyEnv (workerEnds 50000000)) 4 300
        .initial).2.calls := by decide
  rw [hrun] at hverdict hjoins
  cases hverdict
  refine ⟨s', cs, hrun, hcalls, hexact.mpr ?_⟩
  rw [steady_deadline, ← List.nil_append cs]
  exact hcalls ▸ hjoins

/-- The thread terminates 250 ms after the start, between the timed join at 200 ms and the
clock reading at 300 ms: it is reported as stuck after 300 ms. -/
theorem reports_finished :
    ((watching 1 "worker").requireAllFinished .timedjoin (steadyEnv fun _ => some 250000000) 4
        300 .initial).1 = some (.error "probe: 1 stuck thread(s) after 300 ms: worker") ∧
      (250000000 : Int) <
        StuckThreadGuard.deadline (steadyEnv fun _ => some 250000000) 300 .initial := by
  refine ⟨rfl, ?_⟩
  rw [steady_deadline]
  decide

end Ftl.Thread
