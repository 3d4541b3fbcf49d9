/-
  Thread/Probing.lean --- what the timed joins of one call find.

  A probe makes timed joins until one of them joins the thread or the clock is at or past
  the deadline after one that timed out.  From that follow the probes of a whole call, thread
  by thread, and when all of them find their thread running.

      turns_last             all joins of a probe but the last timed out before the deadline
      turns_of_running       when a probe calls its thread stuck
      pass_all_stuck_iff     when a call finds every watched thread stuck
-/
import Ftl.Thread.StuckThreadGuard

set_option autoImplicit false

namespace Ftl.Thread

/-! ## The turns of one probe -/

section Turns

variable {env : Env} {deadline : Int} {h : Handle} {s s' : Threads} {b : Bool}
  {cs : List JoinCall}

theorem turns_calls (hrun : Turns env deadline h s cs b s') : s'.calls = s.calls ++ cs := by
  induction hrun with
  | gone => rfl
  | late => rfl
  | again _ _ _ ih => simp [ih]

theorem turns_handle (hrun : Turns env deadline h s cs b s') : ∀ c ∈ cs, c.handle = h := by
  induction hrun with
  | gone => simp [timedJoin]
  | late => simp [timedJoin]
  | again _ _ _ ih => simpa [timedJoin] using ih

theorem turns_ne_nil (hrun : Turns env deadline h s cs b s') : cs ≠ [] := by
  cases hrun <;> exact List.cons_ne_nil _ _

/-- A thread that had not been joined is not joined by a join that times out. -/
theorem not_joined_of_etimedout {c : JoinCall} {h' : Handle} {n : Nat}
    (hbefore : ¬ s.Joined h') (hcode : c.code = .etimedout) :
    ¬ ((s.record c).pass n).Joined h' := by
  intro hjoined
  obtain ⟨c', hmem, hhandle, hjoin⟩ := hjoined
  rcases List.mem_append.mp hmem with hold | hnew
  · exact hbefore ⟨c', hold, hhandle, hjoin⟩
  · rw [List.mem_singleton.mp hnew, hcode] at hjoin
    exact absurd hjoin (by decide)

/-- Unless the thread has been joined before, what a timed join returns depends on whether the
thread still runs when it is made. -/
theorem timedJoin_code (hbefore : ¬ s.Joined h) :
    (timedJoin env deadline h s).code =
      if env.Running h (env.clock (timedJoin env deadline h s).tick) then .etimedout
      else .joined := by
  have hpassed : ¬ (s.pass 1).Joined h := hbefore
  unfold timedJoin pthreadTimedjoinNp
  rw [if_neg hpassed]
  rfl

theorem turns_code (hrun : Turns env deadline h s cs b s') (hbefore : ¬ s.Joined h) :
    ∀ c ∈ cs, c.code = if env.Running h (env.clock c.tick) then .etimedout else .joined := by
  induction hrun with
  | gone _ => simpa only [List.forall_mem_singleton] using timedJoin_code hbefore
  | late _ _ => simpa only [List.forall_mem_singleton] using timedJoin_code hbefore
  | again hcode _ _ ih =>
      intro c hc
      rcases List.mem_cons.mp hc with rfl | hrest
      · exact timedJoin_code hbefore
      · exact ih (not_joined_of_etimedout hbefore hcode) c hrest

/-- All timed joins of a probe but the last time out, and the clock reading that follows is
before the deadline; the last one decides the result. -/
theorem turns_last (hrun : Turns env deadline h s cs b s') :
    ∃ init c, cs = init ++ [c] ∧
      (∀ x ∈ init, x.code = .etimedout ∧ env.clock (x.tick + 1) < deadline) ∧
      (b = true → c.code ≠ .etimedout) ∧
      (b = false → c.code = .etimedout ∧ deadline ≤ env.clock (c.tick + 1)) := by
  induction hrun with
  | gone hcode => exact ⟨[], _, rfl, by simp, fun _ => hcode, by simp⟩
  | late hcode hlate => exact ⟨[], _, rfl, by simp, by simp, fun _ => ⟨hcode, hlate⟩⟩
  | again hcode hearly _ ih =>
      obtain ⟨init, c, hcs, hinit, htrue, hfalse⟩ := ih
      refine ⟨_ :: init, c, by rw [hcs, List.cons_append], ?_, htrue, hfalse⟩
      intro x hx
      rcases List.mem_cons.mp hx with rfl | hrest
      · exact ⟨hcode, hearly⟩
      · exact hinit x hrest

/-- A thread that was not joined before the probe, and is not stuck, is joined by it once. -/
theorem turns_joined_once (hrun : Turns env deadline h s cs true s') (hbefore : ¬ s.Joined h) :
    cs.countP (fun c => c.code = .joined) = 1 := by
  obtain ⟨init, c, hcs, hinit, hlast, -⟩ := turns_last hrun
  have hcode := turns_code hrun hbefore c (by simp [hcs])
  have hjoined : c.code = .joined := by
    rw [hcode]
    split
    · rename_i hruns
      rw [if_pos hruns] at hcode
      exact absurd hcode (hlast rfl)
    · rfl
  have hnone : init.countP (fun c => c.code = .joined) = 0 := by
    rw [List.countP_eq_zero]
    intro x hx
    simp [(hinit x hx).1]
  simp [hcs, List.countP_append, hnone, hjoined]

/-- A probe that calls its thread stuck has joined nothing. -/
theorem turns_stuck (hrun : Turns env deadline h s cs false s') :
    ∀ c ∈ cs, c.code = .etimedout := by
  obtain ⟨init, c, hcs, hinit, -, hlast⟩ := turns_last hrun
  intro x hx
  rw [hcs] at hx
  rcases List.mem_append.mp hx with hbefore | hend
  · exact (hinit x hbefore).1
  · rw [List.mem_singleton.mp hend]
    exact (hlast rfl).1

end Turns

/-! ## The schedule of a probe -/

/-- Of the turns that start at the operation `t`, the turn `n` is the first whose clock reading
is at or past the deadline. -/
def FirstPast (env : Env) (deadline : Int) (t n : Nat) : Prop :=
  (∀ m < n, env.clock (t + 3 * m + 2) < deadline) ∧ deadline ≤ env.clock (t + 3 * n + 2)

theorem firstPast_zero {env : Env} {deadline : Int} {t : Nat} :
    FirstPast env deadline t 0 ↔ deadline ≤ env.clock (t + 2) := by
  simp [FirstPast]

theorem firstPast_eq_zero {env : Env} {deadline : Int} {t n : Nat}
    (hfirst : FirstPast env deadline t n) (hpast : deadline ≤ env.clock (t + 2)) : n = 0 := by
  by_contra hlater
  have hearly := hfirst.1 0 (Nat.pos_of_ne_zero hlater)
  exact absurd hearly (Int.not_lt.mpr hpast)

theorem firstPast_succ {env : Env} {deadline : Int} {t n : Nat}
    (hearly : env.clock (t + 2) < deadline) :
    FirstPast env deadline t (n + 1) ↔ FirstPast env deadline (t + 3) n := by
  have hshift : ∀ m, t + 3 * (m + 1) + 2 = t + 3 + 3 * m + 2 := fun m => by omega
  constructor
  · intro hfirst
    refine ⟨fun m hm => ?_, ?_⟩
    · rw [← hshift]
      exact hfirst.1 (m + 1) (Nat.succ_lt_succ hm)
    · rw [← hshift]
      exact hfirst.2
  · intro hfirst
    refine ⟨fun m hm => ?_, ?_⟩
    · cases m with
      | zero => exact hearly
      | succ m =>
          rw [hshift]
          exact hfirst.1 m (Nat.lt_of_succ_lt_succ hm)
    · rw [hshift]
      exact hfirst.2

theorem running_mono {env : Env} {h : Handle} {t t' : Nat} (hle : t ≤ t')
    (hruns : env.Running h t') : env.Running h t :=
  fun e he => Nat.lt_of_le_of_lt hle (hruns e he)

section Schedule

variable {env : Env} {deadline : Int} {h : Handle} {s s' : Threads} {b : Bool}
  {cs : List JoinCall}

theorem timedJoin_etimedout_iff (hbefore : ¬ s.Joined h) :
    (timedJoin env deadline h s).code = .etimedout ↔
      env.Running h (env.clock (s.tick + 1)) := by
  rw [timedJoin_code hbefore]
  refine ⟨fun hcode => ?_, fun hruns => if_pos hruns⟩
  split at hcode
  · assumption
  · cases hcode

/-- A thread that is called stuck still runs at the timed join of the first turn that ends at
or past the deadline. -/
theorem turns_stuck_schedule (hrun : Turns env deadline h s cs false s')
    (hbefore : ¬ s.Joined h) :
    ∃ n, FirstPast env deadline s.tick n ∧ env.Running h (env.clock (s.tick + 3 * n + 1)) ∧
      s'.tick = s.tick + 3 * (n + 1) := by
  generalize hb : false = b at hrun
  induction hrun with
  | gone _ => cases hb
  | late hcode hlate =>
      exact ⟨0, firstPast_zero.mpr hlate, (timedJoin_etimedout_iff hbefore).mp hcode, rfl⟩
  | again hcode hearly _ ih =>
      obtain ⟨n, hfirst, hruns, htick⟩ := ih (not_joined_of_etimedout hbefore hcode) hb
      refine ⟨n + 1, (firstPast_succ hearly).mpr hfirst, ?_, ?_⟩
      · have hsame : ∀ t, t + 3 * (n + 1) + 1 = t + 1 + 1 + 1 + 3 * n + 1 := fun t => by omega
        rw [hsame]
        exact hruns
      · rw [htick]
        simp [timedJoin]
        omega

/-- Conversely a thread that still runs there is called stuck. -/
theorem turns_of_running (hrun : Turns env deadline h s cs b s') (hbefore : ¬ s.Joined h)
    {n : Nat} (hfirst : FirstPast env deadline s.tick n)
    (hruns : env.Running h (env.clock (s.tick + 3 * n + 1))) :
    b = false ∧ s'.tick = s.tick + 3 * (n + 1) := by
  induction hrun generalizing n with
  | gone hcode =>
      apply absurd _ hcode
      apply (timedJoin_etimedout_iff hbefore).mpr
      exact running_mono (env.monotone (by omega)) hruns
  | late _ hlate =>
      cases n with
      | zero => exact ⟨rfl, rfl⟩
      | succ n => exact absurd hlate (Int.not_le.mpr (hfirst.1 0 (Nat.zero_lt_succ n)))
  | again hcode hearly _ ih =>
      cases n with
      | zero => exact absurd hearly (Int.not_lt.mpr (firstPast_zero.mp hfirst))
      | succ n =>
          have hnext := (firstPast_succ hearly).mp hfirst
          rename_i s₀ _ _ _ _
          have hsame : s₀.tick + 3 * (n + 1) + 1 = s₀.tick + 3 + 3 * n + 1 := by omega
          rw [hsame] at hruns
          obtain ⟨hb, htick⟩ := ih (not_joined_of_etimedout hbefore hcode) hnext hruns
          refine ⟨hb, ?_⟩
          rw [htick]
          simp [timedJoin]
          omega

end Schedule

/-! ## The probes of a call -/

/-- Every thread of the list still runs at its last timed join, in a call whose loop starts at
the operation `t`: that join belongs to the first turn that ends at or past the deadline. -/
def AllRunning (env : Env) (deadline : Int) : List Watched → Nat → Prop
  | [], _ => True
  | w :: rest, t =>
      ∃ n, FirstPast env deadline t n ∧ env.Running w.handle (env.clock (t + 3 * n + 1)) ∧
        AllRunning env deadline rest (t + 3 * (n + 1))

section Pass

variable {env : Env} {deadline : Int} {ws stuck : List Watched} {s s' : Threads}
  {cs : List JoinCall}

theorem pass_calls (hpass : Pass env deadline ws s stuck cs s') :
    s'.calls = s.calls ++ cs := by
  induction hpass with
  | done => simp
  | finished hw _ ih => rw [ih, turns_calls hw, List.append_assoc]
  | stuck hw _ ih => rw [ih, turns_calls hw, List.append_assoc]

theorem pass_sublist (hpass : Pass env deadline ws s stuck cs s') : stuck.Sublist ws := by
  induction hpass with
  | done => exact .slnil
  | finished _ _ ih => exact ih.cons _
  | stuck _ _ ih => exact ih.cons_cons _

theorem pass_handle (hpass : Pass env deadline ws s stuck cs s') :
    ∀ c ∈ cs, ∃ w ∈ ws, w.handle = c.handle := by
  have hstep : ∀ {w : Watched} {rest : List Watched} {cs cs' : List JoinCall},
      (∀ c ∈ cs, c.handle = w.handle) → (∀ c ∈ cs', ∃ w ∈ rest, w.handle = c.handle) →
      ∀ c ∈ cs ++ cs', ∃ w' ∈ w :: rest, w'.handle = c.handle := by
    intro w rest cs cs' hfirst hothers c hc
    rcases List.mem_append.mp hc with hmine | hother
    · exact ⟨w, List.mem_cons_self, (hfirst c hmine).symm⟩
    · obtain ⟨w', hw', hhandle⟩ := hothers c hother
      exact ⟨w', List.mem_cons_of_mem _ hw', hhandle⟩
  induction hpass with
  | done => simp
  | finished hw _ ih => exact hstep (turns_handle hw) ih
  | stuck hw _ ih => exact hstep (turns_handle hw) ih

theorem handle_ne_of_nodup {w : Watched} {rest : List Watched}
    (hdistinct : ((w :: rest).map Watched.handle).Nodup) :
    ∀ w' ∈ rest, w'.handle ≠ w.handle := by
  intro w' hw' hsame
  rw [List.map_cons, List.nodup_cons] at hdistinct
  exact hdistinct.1 (List.mem_map.mpr ⟨w', hw', hsame⟩)

theorem pass_probes (hpass : Pass env deadline ws s stuck cs s') :
    ∀ w ∈ ws, ∃ c ∈ cs, c.handle = w.handle := by
  have hstep : ∀ {w : Watched} {rest : List Watched} {cs cs' : List JoinCall},
      cs ≠ [] → (∀ c ∈ cs, c.handle = w.handle) → (∀ w ∈ rest, ∃ c ∈ cs', c.handle = w.handle) →
      ∀ w' ∈ w :: rest, ∃ c ∈ cs ++ cs', c.handle = w'.handle := by
    intro w rest cs cs' hne hfirst hothers w' hw'
    rcases List.mem_cons.mp hw' with rfl | hrest
    · obtain ⟨c, hc⟩ := List.exists_mem_of_ne_nil cs hne
      exact ⟨c, List.mem_append_left _ hc, hfirst c hc⟩
    · obtain ⟨c, hc, hhandle⟩ := hothers w' hrest
      exact ⟨c, List.mem_append_right _ hc, hhandle⟩
  induction hpass with
  | done => simp
  | finished hw _ ih => exact hstep (turns_ne_nil hw) (turns_handle hw) ih
  | stuck hw _ ih => exact hstep (turns_ne_nil hw) (turns_handle hw) ih

/-- The threads that have been joined after timed joins that were made. -/
theorem joined_of_calls {h : Handle} (hcalls : s'.calls = s.calls ++ cs) :
    s'.Joined h ↔ s.Joined h ∨ ∃ c ∈ cs, c.handle = h ∧ c.code = .joined := by
  unfold Threads.Joined
  simp only [hcalls, List.mem_append, or_and_right, exists_or]

/-- After timed joins that all timed out nothing more has been joined. -/
theorem not_joined_of_none {h : Handle} (hcalls : s'.calls = s.calls ++ cs)
    (hnew : ∀ c ∈ cs, c.code = .etimedout) (hbefore : ¬ s.Joined h) : ¬ s'.Joined h := by
  rw [joined_of_calls hcalls]
  rintro (hold | ⟨c, hc, -, hcode⟩)
  · exact hbefore hold
  · rw [hnew c hc] at hcode
    cases hcode

theorem not_joined_of_stuck {h h' : Handle} (hw : Turns env deadline h s cs false s')
    (hbefore : ¬ s.Joined h') : ¬ s'.Joined h' :=
  not_joined_of_none (turns_calls hw) (turns_stuck hw) hbefore

/-- A call on threads that have not been joined finds all of them stuck if and only if each
still runs at its last timed join. -/
theorem pass_all_stuck_iff (hpass : Pass env deadline ws s stuck cs s')
    (hbefore : ∀ w ∈ ws, ¬ s.Joined w.handle) :
    stuck = ws ↔ AllRunning env deadline ws s.tick := by
  induction hpass with
  | done => simp [AllRunning]
  | finished hw hrest _ =>
      constructor
      · intro hall
        have hlength := congrArg List.length hall
        have hle := (pass_sublist hrest).length_le
        simp only [List.length_cons] at hlength
        omega
      · rintro ⟨n, hfirst, hruns, -⟩
        have hstuck := turns_of_running hw (hbefore _ List.mem_cons_self) hfirst hruns
        exact absurd hstuck.1 (by decide)
  | stuck hw hrest ih =>
      have hme := hbefore _ List.mem_cons_self
      have hothers := fun w' (hw' : w' ∈ _) =>
        not_joined_of_stuck hw (hbefore w' (List.mem_cons_of_mem _ hw'))
      rw [List.cons_inj_right, ih hothers]
      constructor
      · intro hrunning
        obtain ⟨n, hfirst, hruns, htick⟩ := turns_stuck_schedule hw hme
        rw [htick] at hrunning
        exact ⟨n, hfirst, hruns, hrunning⟩
      · rintro ⟨n, hfirst, hruns, hrunning⟩
        rw [(turns_of_running hw hme hfirst hruns).2]
        exact hrunning

end Pass

end Ftl.Thread
