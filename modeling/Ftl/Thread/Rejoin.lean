/-
  Thread/Rejoin.lean --- timed joins over the lifetime of a `StuckThreadGuard`.

  `require_all_finished` is const: a guard goes on watching the threads it has joined.  The
  next call makes a timed join on each of them again.

      runOps_calls          timed joins are only added
      noSecondJoin_pass     one call joins no thread twice
      joined_again          a call on a guard that has joined a thread it watches
      never_rejoins_iff     when a guard joins no thread again
-/
import Ftl.Thread.Builds

set_option autoImplicit false

namespace Ftl.Thread

/-! ## Calls on one guard -/

/-- A call on the guard. -/
inductive GuardOp where
  | watch (handle : Handle) (label : String)
  | requireAllFinished (timeout : Int)

/-- The call in the build with timed joins; `none` if it has not returned.  The guard is as
before whether `require_all_finished` returns or throws. -/
def GuardOp.apply (env : Env) (fuel : Nat) (st : StuckThreadGuard × Threads) :
    GuardOp → Option (StuckThreadGuard × Threads)
  | .watch handle label => some (st.1.watch handle label, st.2)
  | .requireAllFinished timeout =>
      match st.1.requireAllFinished .timedjoin env fuel timeout st.2 with
      | (none, _) => none
      | (some _, s) => some (st.1, s)

/-- A sequence of calls. -/
def runOps (env : Env) (fuel : Nat) :
    List GuardOp → StuckThreadGuard × Threads → Option (StuckThreadGuard × Threads)
  | [], st => some st
  | op :: ops, st => (op.apply env fuel st).bind (runOps env fuel ops)

/-- The handles that the calls pass to `watch`. -/
def handles : List GuardOp → List Handle
  | [] => []
  | .watch handle _ :: ops => handle :: handles ops
  | .requireAllFinished _ :: ops => handles ops

/-- There is a `require_all_finished` among the calls. -/
def CallsAgain (ops : List GuardOp) : Prop := ∃ timeout, .requireAllFinished timeout ∈ ops

/-- No timed join follows one that joined the same thread. -/
def NoSecondJoin (calls : List JoinCall) : Prop :=
  calls.Pairwise fun c c' => c.code = .joined → c'.handle ≠ c.handle

/-- At each `require_all_finished` that another one follows, every watched thread is still
running at its last timed join.  Then it joins none of them; a guard does not remember which
ones it has joined, and the next call starts with all of them again. -/
def JoinsOnlyLast (env : Env) (fuel : Nat) (ops : List GuardOp)
    (st : StuckThreadGuard × Threads) : Prop :=
  ∀ pre timeout post guard s, ops = pre ++ .requireAllFinished timeout :: post →
    CallsAgain post → runOps env fuel pre st = some (guard, s) →
    AllRunning env (StuckThreadGuard.deadline env timeout s) guard.watched (s.tick + 1)

section Calls

variable {env : Env} {fuel : Nat} {ops : List GuardOp} {op : GuardOp}
  {guard : StuckThreadGuard} {s s' : Threads} {st st' : StuckThreadGuard × Threads}

/-- A call of `require_all_finished` makes the timed joins of a pass over the watched
threads. -/
theorem apply_require {timeout : Int}
    (hop : GuardOp.apply env fuel (guard, s) (.requireAllFinished timeout) = some st') :
    st'.1 = guard ∧ ∃ stuck cs, Pass env (StuckThreadGuard.deadline env timeout s) guard.watched
      (s.pass 1) stuck cs st'.2 ∧ st'.2.calls = s.calls ++ cs := by
  simp only [GuardOp.apply, StuckThreadGuard.requireAllFinished] at hop
  split at hop
  · cases hop
  · rename_i hcall
    split at hcall
    · cases hcall
    · rename_i hscan
      cases hcall
      cases hop
      obtain ⟨names, cs, hpass, -⟩ := pass_of_scan hscan
      have hcalls := pass_calls hpass
      exact ⟨rfl, names, cs, hpass, hcalls⟩

theorem apply_calls (hop : op.apply env fuel st = some st') :
    ∃ cs, st'.2.calls = st.2.calls ++ cs := by
  obtain ⟨guard, s⟩ := st
  cases op with
  | watch handle label =>
      cases hop
      exact ⟨[], (List.append_nil _).symm⟩
  | requireAllFinished timeout =>
      obtain ⟨-, -, cs, -, hcalls⟩ := apply_require hop
      exact ⟨cs, hcalls⟩

theorem runOps_calls (hrun : runOps env fuel ops st = some st') :
    ∃ cs, st'.2.calls = st.2.calls ++ cs := by
  induction ops generalizing st with
  | nil =>
      cases hrun
      exact ⟨[], (List.append_nil _).symm⟩
  | cons op ops ih =>
      obtain ⟨mid, hop, hrest⟩ := Option.bind_eq_some_iff.mp hrun
      obtain ⟨cs, hcs⟩ := apply_calls hop
      obtain ⟨cs', hcs'⟩ := ih hrest
      exact ⟨cs ++ cs', by rw [hcs', hcs, List.append_assoc]⟩

theorem runOps_watches (hnone : ¬ CallsAgain ops) (hrun : runOps env fuel ops st = some st') :
    st'.2 = st.2 := by
  induction ops generalizing st with
  | nil =>
      cases hrun
      rfl
  | cons op ops ih =>
      obtain ⟨mid, hop, hrest⟩ := Option.bind_eq_some_iff.mp hrun
      have hothers : ¬ CallsAgain ops :=
        fun ⟨timeout, hmem⟩ => hnone ⟨timeout, List.mem_cons_of_mem _ hmem⟩
      rw [ih hothers hrest]
      cases op with
      | watch handle label =>
          cases hop
          rfl
      | requireAllFinished timeout => exact absurd ⟨timeout, List.mem_cons_self⟩ hnone

/-! ## One call -/

/-- A pass over distinct threads that have not been joined joins each at most once. -/
theorem noSecondJoin_pass {deadline : Int} {ws stuck : List Watched} {cs : List JoinCall}
    (hpass : Pass env deadline ws s stuck cs s') (hdistinct : (ws.map Watched.handle).Nodup) :
    NoSecondJoin cs := by
  have hturns : ∀ {h : Handle} {s s' : Threads} {b : Bool} {cs : List JoinCall},
      Turns env deadline h s cs b s' → NoSecondJoin cs := by
    intro h s s' b cs hrun
    obtain ⟨init, c, hcs, hinit, -, -⟩ := turns_last hrun
    rw [hcs, NoSecondJoin, List.pairwise_append]
    refine ⟨?_, List.pairwise_singleton _ _, ?_⟩
    · apply List.Pairwise.imp_of_mem _ (List.pairwise_of_forall fun _ _ => trivial)
      intro x y hx _ _ hjoined
      rw [(hinit x hx).1] at hjoined
      cases hjoined
    · intro x hx y _ hjoined
      rw [(hinit x hx).1] at hjoined
      cases hjoined
  have hboth : ∀ {w : Watched} {rest stuck : List Watched} {s s₁ s' : Threads} {b : Bool}
      {cs cs' : List JoinCall}, Turns env deadline w.handle s cs b s₁ →
      Pass env deadline rest s₁ stuck cs' s' → ((w :: rest).map Watched.handle).Nodup →
      NoSecondJoin cs' → NoSecondJoin (cs ++ cs') := by
    intro w rest stuck s s₁ s' b cs cs' hw hrest hnodup hlater
    rw [NoSecondJoin, List.pairwise_append]
    refine ⟨hturns hw, hlater, ?_⟩
    intro c hc c' hc' _ hsame
    obtain ⟨w', hw', hhandle⟩ := pass_handle hrest c' hc'
    rw [hsame, turns_handle hw c hc] at hhandle
    exact handle_ne_of_nodup hnodup w' hw' hhandle
  induction hpass with
  | done => exact List.Pairwise.nil
  | finished hw hrest ih => exact hboth hw hrest hdistinct (ih (List.nodup_cons.mp hdistinct).2)
  | stuck hw hrest ih => exact hboth hw hrest hdistinct (ih (List.nodup_cons.mp hdistinct).2)

/-- A pass that finds every thread stuck joins nothing. -/
theorem pass_all_etimedout {deadline : Int} {ws stuck : List Watched} {cs : List JoinCall}
    (hpass : Pass env deadline ws s stuck cs s') (hall : stuck = ws) :
    ∀ c ∈ cs, c.code = .etimedout := by
  induction hpass with
  | done => simp
  | finished _ hrest _ =>
      have hlength := congrArg List.length hall
      have hle := (pass_sublist hrest).length_le
      simp only [List.length_cons] at hlength
      omega
  | stuck hw _ ih =>
      intro c hc
      rcases List.mem_append.mp hc with hmine | hother
      · exact turns_stuck hw c hmine
      · exact ih (List.cons_inj_right _ |>.mp hall) c hother

/-- A pass that does not find every thread stuck joins one of them. -/
theorem pass_joins {deadline : Int} {ws stuck : List Watched} {cs : List JoinCall}
    (hpass : Pass env deadline ws s stuck cs s') (hbefore : ∀ w ∈ ws, ¬ s.Joined w.handle)
    (hsome : stuck ≠ ws) : ∃ w ∈ ws, s'.Joined w.handle := by
  induction hpass with
  | done => exact absurd rfl hsome
  | @finished w _ _ _ _ _ cs _ hw hrest _ =>
      have hone := turns_joined_once hw (hbefore _ List.mem_cons_self)
      have hpos : 0 < cs.countP (fun c => c.code = .joined) := by
        rw [hone]
        exact Nat.one_pos
      obtain ⟨c, hc, hjoined⟩ := List.countP_pos_iff.mp hpos
      refine ⟨w, List.mem_cons_self, ?_⟩
      rw [joined_of_calls (pass_calls hrest), joined_of_calls (turns_calls hw)]
      exact .inl (.inr ⟨c, hc, turns_handle hw c hc, of_decide_eq_true hjoined⟩)
  | stuck hw _ ih =>
      have hothers := fun w' (hw' : w' ∈ _) =>
        not_joined_of_stuck hw (hbefore w' (List.mem_cons_of_mem _ hw'))
      obtain ⟨w', hw', hjoined⟩ := ih hothers (fun hsame => hsome (by rw [hsame]))
      exact ⟨w', List.mem_cons_of_mem _ hw', hjoined⟩

/-- A pass over threads that have not been joined joins none of them a second time. -/
theorem noSecondJoin_after {deadline : Int} {ws stuck : List Watched} {cs : List JoinCall}
    {s₀ : Threads} (hpass : Pass env deadline ws s₀ stuck cs s')
    (hdistinct : (ws.map Watched.handle).Nodup) (hbefore : ∀ w ∈ ws, ¬ s.Joined w.handle)
    (hcalls : s'.calls = s.calls ++ cs) (hno : NoSecondJoin s.calls) :
    NoSecondJoin s'.calls := by
  rw [hcalls, NoSecondJoin, List.pairwise_append]
  refine ⟨hno, noSecondJoin_pass hpass hdistinct, ?_⟩
  intro c hc c' hc' hcode hsame
  obtain ⟨w, hw, hhandle⟩ := pass_handle hpass c' hc'
  exact hbefore w hw ⟨c, hc, by rw [hhandle, hsame], hcode⟩

/-! ## Sequences of calls -/

/-- The condition for a sequence is that of its first call and that of the rest. -/
theorem joinsOnlyLast_cons (hop : op.apply env fuel st = some st') :
    JoinsOnlyLast env fuel (op :: ops) st ↔
      (∀ timeout, op = .requireAllFinished timeout → CallsAgain ops →
        AllRunning env (StuckThreadGuard.deadline env timeout st.2) st.1.watched
          (st.2.tick + 1)) ∧
      JoinsOnlyLast env fuel ops st' := by
  constructor
  · intro hall
    refine ⟨fun timeout hfirst hagain => ?_, ?_⟩
    · exact hall [] timeout ops st.1 st.2 (by rw [hfirst, List.nil_append]) hagain rfl
    · intro pre timeout post guard s hops hagain hpre
      apply hall (op :: pre) timeout post guard s (by rw [hops, List.cons_append]) hagain
      rw [runOps, hop]
      exact hpre
  · intro ⟨hfirst, hrest⟩ pre timeout post guard s hops hagain hpre
    cases pre with
    | nil =>
        obtain ⟨rfl, rfl⟩ := List.cons.inj hops
        cases hpre
        exact hfirst timeout rfl hagain
    | cons op' pre =>
        obtain ⟨rfl, rfl⟩ := List.cons.inj hops
        rw [runOps, hop] at hpre
        exact hrest pre timeout post guard s rfl hagain hpre

theorem joinsOnlyLast_watches (hnone : ¬ CallsAgain ops) : JoinsOnlyLast env fuel ops st := by
  intro pre timeout post guard s hops hagain hpre
  obtain ⟨timeout', hmem⟩ := hagain
  apply absurd _ hnone
  refine ⟨timeout', ?_⟩
  rw [hops]
  exact List.mem_append_right _ (List.mem_cons_of_mem _ hmem)

/-- A guard that watches a thread it has joined makes a timed join on it at the next call. -/
theorem joined_again (hagain : CallsAgain ops) (hrun : runOps env fuel ops st = some st')
    (hjoined : ∃ w ∈ st.1.watched, st.2.Joined w.handle) : ¬ NoSecondJoin st'.2.calls := by
  induction ops generalizing st with
  | nil =>
      obtain ⟨_, hmem⟩ := hagain
      exact absurd hmem List.not_mem_nil
  | cons op ops ih =>
      obtain ⟨guard, s⟩ := st
      obtain ⟨mid, hop, hrest⟩ := Option.bind_eq_some_iff.mp hrun
      obtain ⟨w, hw, c, hc, hhandle, hcode⟩ := hjoined
      cases op with
      | watch handle label =>
          cases hop
          have hlater : CallsAgain ops := by
            obtain ⟨timeout, hmem⟩ := hagain
            refine ⟨timeout, ?_⟩
            simpa using hmem
          exact ih hlater hrest ⟨w, List.mem_append_left _ hw, c, hc, hhandle, hcode⟩
      | requireAllFinished timeout =>
          obtain ⟨-, stuck, cs, hpass, hcalls⟩ := apply_require hop
          obtain ⟨c', hc', hhandle'⟩ := pass_probes hpass w hw
          obtain ⟨more, hmore⟩ := runOps_calls hrest
          intro hno
          rw [hmore, hcalls] at hno
          have hpair := (List.pairwise_append.mp (List.pairwise_append.mp hno).1).2.2
          exact hpair c hc c' hc' hcode (hhandle'.trans hhandle.symm)

/-- The sequences that start with nothing joined among the threads they watch. -/
theorem noSecondJoin_iff (hrun : runOps env fuel ops st = some st')
    (hdistinct : (st.1.watched.map Watched.handle ++ handles ops).Nodup)
    (hbefore : ∀ h ∈ st.1.watched.map Watched.handle ++ handles ops, ¬ st.2.Joined h)
    (hno : NoSecondJoin st.2.calls) :
    NoSecondJoin st'.2.calls ↔ JoinsOnlyLast env fuel ops st := by
  induction ops generalizing st with
  | nil =>
      cases hrun
      exact ⟨fun _ => joinsOnlyLast_watches (fun ⟨_, hmem⟩ => List.not_mem_nil hmem), fun _ => hno⟩
  | cons op ops ih =>
      obtain ⟨guard, s⟩ := st
      obtain ⟨mid, hop, hrest⟩ := Option.bind_eq_some_iff.mp hrun
      rw [joinsOnlyLast_cons hop]
      cases op with
      | watch handle label =>
          cases hop
          have hsame : (guard.watch handle label).watched.map Watched.handle ++ handles ops =
              guard.watched.map Watched.handle ++ handles (.watch handle label :: ops) := by
            simp [StuckThreadGuard.watch, handles]
          rw [ih hrest (by rw [hsame]; exact hdistinct) (by rw [hsame]; exact hbefore) hno]
          simp
      | requireAllFinished timeout =>
          obtain ⟨hguard, stuck, cs, hpass, hcalls⟩ := apply_require hop
          obtain ⟨guard', s₁⟩ := mid
          dsimp only at hguard hpass hcalls hrest hop hbefore hno hdistinct ⊢
          rw [hguard] at hrest hop ⊢
          have hwatched : ∀ w ∈ guard.watched, ¬ s.Joined w.handle := fun w hw =>
            hbefore w.handle (List.mem_append_left _ (List.mem_map_of_mem hw))
          have hall := pass_all_stuck_iff hpass hwatched
          have hno₁ : NoSecondJoin s₁.calls :=
            noSecondJoin_after hpass (List.nodup_append.mp hdistinct).1 hwatched hcalls hno
          -- a call that another one follows must join nothing, since that one joins it all again
          by_cases hagain : CallsAgain ops
          · by_cases hstuck : stuck = guard.watched
            · have hnew := pass_all_etimedout hpass hstuck
              rw [ih hrest hdistinct _ hno₁]
              · simp only [GuardOp.requireAllFinished.injEq, forall_eq']
                exact ⟨fun hlater => ⟨fun _ => hall.mp hstuck, hlater⟩, fun hboth => hboth.2⟩
              · exact fun h hh => not_joined_of_none hcalls hnew (hbefore h hh)
            · have hjoined := pass_joins hpass hwatched hstuck
              have hagain' := joined_again hagain hrest hjoined
              refine ⟨fun hfinal => absurd hfinal hagain', fun hboth => ?_⟩
              exact absurd (hall.mpr (hboth.1 timeout rfl hagain)) hstuck
          · rw [runOps_watches hagain hrest]
            refine ⟨fun _ => ⟨fun _ _ hlater => absurd hlater hagain, ?_⟩, fun _ => hno₁⟩
            exact joinsOnlyLast_watches hagain

end Calls

/-- Whatever calls are made on a new guard, with distinct handles: no timed join follows one
that joined the same thread if and only if at each `require_all_finished` that another one
follows every watched thread is still running at its last timed join. -/
theorem never_rejoins_iff (env : Env) (fuel : Nat) (label : String) (ops : List GuardOp)
    (guard : StuckThreadGuard) (s : Threads) (distinct : (handles ops).Nodup)
    (hrun : runOps env fuel ops (.construct label, .initial) = some (guard, s)) :
    NoSecondJoin s.calls ↔ JoinsOnlyLast env fuel ops (.construct label, .initial) := by
  apply noSecondJoin_iff hrun
  · exact distinct
  · intro h _
    simp [Threads.Joined, Threads.initial]
  · exact List.Pairwise.nil

/-- Two threads, and a second call after the first one threw. -/
def twoCalls : List GuardOp :=
  [.watch 1 "quick", .watch 7 "stuck", .requireAllFinished 300, .requireAllFinished 600]

/-- Threads that never terminate are joined by neither call. -/
theorem never_rejoins_stuck :
    ∃ guard s,
      runOps (steadyEnv fun _ => none) 9 twoCalls (.construct "probe", .initial) =
        some (guard, s) ∧
      (NoSecondJoin s.calls ↔
        JoinsOnlyLast (steadyEnv fun _ => none) 9 twoCalls (.construct "probe", .initial)) := by
  refine ⟨_, _, rfl, ?_⟩
  exact never_rejoins_iff (steadyEnv fun _ => none) 9 "probe" twoCalls _ _ (by decide) rfl

/-- The quick thread has terminated before the calls: the first joins it, and the second makes
a timed join on it again. -/
theorem rejoins_quick :
    ∃ guard s,
      runOps (steadyEnv fun h => if h = 1 then some 0 else none) 9 twoCalls
        (.construct "probe", .initial) = some (guard, s) ∧
      ¬ NoSecondJoin s.calls := by
  refine ⟨_, _, rfl, fun hno => ?_⟩
  have hfirst := (List.pairwise_cons.mp hno).1
  exact hfirst _ (.tail _ (.head _)) (by decide) (by decide)

end Ftl.Thread
