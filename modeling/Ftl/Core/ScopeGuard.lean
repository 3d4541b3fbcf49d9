/-
  Core/ScopeGuard.lean --- `ftl::ScopeGuard` of ftl/core/scope_guard.hpp.

  A client is any program whose scope guards are local objects: it makes them, moves them,
  dismisses them, and leaves its scopes normally, by a `return` or by an exception.  The
  functions that the guards hold are numbered in the order in which they are handed over.

      guards_run_once   once its scopes are left, each function has been run once, or
                        dismissed; a function that throws ends the process instead
      guards_run_lifo   as long as no guard is moved, a function is run when all that were
                        handed over later have been
-/
import Mathlib.Data.List.Count
import Ftl.Foundation.Scopes

set_option autoImplicit false

namespace Ftl.Core

open Foundation (Ending Scoped ScopeLang Stmt)

/-! ## The class -/

/-- `ftl::ScopeGuard`: the number of its function, and `active_`. -/
structure ScopeGuard where
  fn : Nat
  active : Bool

namespace ScopeGuard

/-- `ScopeGuard(fn)`, and `make_scope_guard(fn)`. -/
def make (fn : Nat) : ScopeGuard := ⟨fn, true⟩

/-- `ScopeGuard(ScopeGuard&& other)`: the new guard and `other`. -/
def moved (other : ScopeGuard) : ScopeGuard × ScopeGuard :=
  (⟨other.fn, other.active⟩, { other with active := false })

/-- `dismiss()`. -/
def dismiss (g : ScopeGuard) : ScopeGuard := { g with active := false }

/-- The guard would run the function `k`. -/
def holds (k : Nat) (g : ScopeGuard) : Bool := g.active && decide (g.fn = k)

end ScopeGuard

/-- What happens to a function. -/
inductive GuardEvent where
  /-- it is handed over to a guard -/
  | armed (fn : Nat)
  | ran (fn : Nat)
  /-- the guard that holds it is dismissed -/
  | dismissed (fn : Nat)
  deriving DecidableEq, Repr

/-- What has happened, and how many functions have been handed over. -/
structure GuardLog where
  events : List GuardEvent
  made : Nat

/-- The log with another event. -/
def GuardLog.add (log : GuardLog) (e : GuardEvent) : GuardLog :=
  { log with events := log.events ++ [e] }

/-- `~ScopeGuard()`; `throws` says which functions throw. -/
def ScopeGuard.destroy (throws : Nat → Bool) (g : ScopeGuard) (log : GuardLog) :
    Bool × GuardLog :=
  if g.active then (throws g.fn, log.add (.ran g.fn)) else (false, log)

/-- What a client does with its guards; they are counted from the youngest. -/
inductive GuardOp where
  /-- `auto g = make_scope_guard(fn);` -/
  | make
  /-- `ScopeGuard g(std::move(guards[i]));` -/
  | moveFrom (i : Nat)
  /-- `guards[i].dismiss();` -/
  | dismiss (i : Nat)
  deriving DecidableEq, Repr

/-- The effect of an operation. -/
def GuardOp.perform (op : GuardOp) (s : Scoped ScopeGuard GuardLog) :
    Option (Scoped ScopeGuard GuardLog) :=
  match op with
  | .make =>
      some ⟨.make s.rest.made :: s.objects,
        { s.rest.add (.armed s.rest.made) with made := s.rest.made + 1 }⟩
  | .moveFrom i =>
      (s.objects[i]?).map fun other =>
        ⟨other.moved.1 :: s.objects.set i other.moved.2, s.rest⟩
  | .dismiss i =>
      (s.objects[i]?).map fun g =>
        ⟨s.objects.set i g.dismiss, if g.active then s.rest.add (.dismissed g.fn) else s.rest⟩

/-- The programs with scope guards. -/
abbrev guardLang (throws : Nat → Bool) : ScopeLang ScopeGuard GuardLog GuardOp where
  prim op s out s' := op.perform s = some s' ∧ out = .normal
  destroy := ScopeGuard.destroy throws

/-- No guard, and nothing has happened. -/
def noGuards : Scoped ScopeGuard GuardLog := ⟨[], ⟨[], 0⟩⟩

/-! ## Each function is held, has been run, or has been dismissed -/

/-- How many guards would run the function `k`. -/
def holders (k : Nat) (objects : List ScopeGuard) : Nat := objects.countP (ScopeGuard.holds k)

/-- Each function that has been handed over is held by one guard, has been run once, or has been
dismissed once. -/
def Settled (s : Scoped ScopeGuard GuardLog) : Prop :=
  ∀ k, holders k s.objects + s.rest.events.count (.ran k) + s.rest.events.count (.dismissed k) =
    if k < s.rest.made then 1 else 0

theorem settled_noGuards : Settled noGuards := fun _ => rfl

theorem holders_cons (k : Nat) (g : ScopeGuard) (objects : List ScopeGuard) :
    holders k (g :: objects) = holders k objects + if g.holds k then 1 else 0 :=
  List.countP_cons

theorem holders_set {k i : Nat} {objects : List ScopeGuard} {g g' : ScopeGuard}
    (hget : objects[i]? = some g) :
    holders k (objects.set i g') + (if g.holds k then 1 else 0) =
      holders k objects + if g'.holds k then 1 else 0 := by
  obtain ⟨hi, rfl⟩ := List.getElem?_eq_some_iff.mp hget
  have hle := List.boole_getElem_le_countP (p := ScopeGuard.holds k) (i := i) hi
  unfold holders
  rw [List.countP_set hi]
  omega

/-- How often something has happened to the function `k`, after another event. -/
theorem count_add (log : GuardLog) (e e' : GuardEvent) :
    (log.add e).events.count e' = log.events.count e' + if e = e' then 1 else 0 := by
  simp [GuardLog.add, List.count_singleton]

theorem settled_perform {op : GuardOp} {s s' : Scoped ScopeGuard GuardLog} (h : Settled s)
    (hop : op.perform s = some s') : Settled s' := by
  intro k
  have hk := h k
  cases op with
  | make =>
      cases hop
      have hnew : (ScopeGuard.make s.rest.made).holds k = decide (s.rest.made = k) := rfl
      simp only [holders_cons, hnew, decide_eq_true_eq, count_add, reduceCtorEq, if_false]
      split_ifs at hk ⊢ <;> omega
  | moveFrom i =>
      obtain ⟨g, hget, rfl⟩ := Option.map_eq_some_iff.mp hop
      have hset := @holders_set k i s.objects g g.moved.2 hget
      have hnew : g.moved.1.holds k = g.holds k := rfl
      have hleft : g.moved.2.holds k = false := rfl
      rw [hleft, if_neg Bool.false_ne_true] at hset
      rw [holders_cons, hnew, hset]
      exact hk
  | dismiss i =>
      obtain ⟨g, hget, rfl⟩ := Option.map_eq_some_iff.mp hop
      have hset := @holders_set k i s.objects g g.dismiss hget
      have hleft : g.dismiss.holds k = false := rfl
      rw [hleft, if_neg Bool.false_ne_true] at hset
      unfold ScopeGuard.holds at hset
      cases hactive : g.active with
      | false =>
          rw [hactive, Bool.false_and, if_neg Bool.false_ne_true] at hset
          simp only [Bool.false_eq_true, if_false]
          omega
      | true =>
          simp only [hactive, Bool.true_and, decide_eq_true_eq] at hset
          simp only [if_true, count_add, GuardEvent.dismissed.injEq, reduceCtorEq, if_false]
          change holders k (s.objects.set i g.dismiss) + _ + _ = if k < s.rest.made then 1 else 0
          omega

theorem settled_destroy (throws : Nat → Bool) {g : ScopeGuard} {objects : List ScopeGuard}
    {log : GuardLog} (h : Settled ⟨g :: objects, log⟩) :
    Settled ⟨objects, (g.destroy throws log).2⟩ := by
  intro k
  have hk := h k
  rw [holders_cons] at hk
  unfold ScopeGuard.holds at hk
  unfold ScopeGuard.destroy
  cases hactive : g.active with
  | false => simpa [hactive] using hk
  | true =>
      simp only [hactive, Bool.true_and, decide_eq_true_eq] at hk
      simp only [if_true, count_add, GuardEvent.ran.injEq, reduceCtorEq, if_false]
      change holders k objects + _ + _ = if k < log.made then 1 else 0
      omega

theorem settled_exec {throws : Nat → Bool} {st : Stmt GuardOp} {out : Ending}
    {s s' : Scoped ScopeGuard GuardLog} (hexec : (guardLang throws).Exec st s out s')
    (h : Settled s) : Settled s' := by
  have hprim : ∀ op s out s', True → Settled s → (guardLang throws).prim op s out s' →
      Settled s' := fun _ _ _ _ _ hs hop => settled_perform hs hop.1
  exact hexec.invariant hprim (fun _ _ _ => settled_destroy throws)
    (st.all_of_forall fun _ => trivial) h

/-- When a program has left its outermost scope, whichever way, each function that it has handed
over has been run once, or has been dismissed once and not been run.  A function that throws ends
the process; then too none has been run twice, or run and dismissed. -/
theorem guards_run_once (throws : Nat → Bool) {st : Stmt GuardOp} {out : Ending}
    {s : Scoped ScopeGuard GuardLog}
    (hexec : (guardLang throws).Exec (.block st) noGuards out s) (k : Nat) :
    s.rest.events.count (.ran k) + s.rest.events.count (.dismissed k) ≤ 1 ∧
      (out ≠ .terminated → k < s.rest.made →
        s.rest.events.count (.ran k) + s.rest.events.count (.dismissed k) = 1) := by
  have hsettled := settled_exec hexec settled_noGuards k
  constructor
  · split at hsettled <;> omega
  · intro hout hmade
    rw [hexec.closed rfl hout, if_pos hmade] at hsettled
    simpa [holders] using hsettled

theorem exec_make (throws : Nat → Bool) (s : Scoped ScopeGuard GuardLog) :
    (guardLang throws).Exec (.prim .make) s .normal ⟨.make s.rest.made :: s.objects,
      { s.rest.add (.armed s.rest.made) with made := s.rest.made + 1 }⟩ :=
  .prim ⟨rfl, rfl⟩

/-- Two guards are made, the younger one is dismissed, and an exception leaves the scope. -/
def rollback : Stmt GuardOp :=
  .seq (.prim .make) (.seq (.prim .make) (.seq (.prim (.dismiss 0)) .throw))

/-- The younger of two guards is dismissed and an exception leaves the scope, where the function
of the older one is run. -/
theorem guards_run_once_rollback :
    ∃ s, (guardLang fun _ => false).Exec (.block rollback) noGuards .threw s ∧
      s.rest.events.count (.ran 0) + s.rest.events.count (.dismissed 0) = 1 := by
  have hbody : (guardLang fun _ => false).Exec rollback noGuards .threw
      ⟨[⟨1, false⟩, ⟨0, true⟩], ⟨[.armed 0, .armed 1, .dismissed 1], 2⟩⟩ :=
    .seq (exec_make _ _) (.seq (exec_make _ _) (.seq (.prim ⟨rfl, rfl⟩) .throw))
  exact ⟨_, hbody.block, (guards_run_once _ hbody.block 0).2 (by decide) (by decide)⟩

/-! ## The order -/

/-- Where the function `k` is run, each one that was handed over after it has been run or
dismissed. -/
def LastArmedFirst (events : List GuardEvent) : Prop :=
  ∀ before k after, events = before ++ .ran k :: after →
    ∀ k', k < k' → .armed k' ∈ before → .ran k' ∈ before ∨ .dismissed k' ∈ before

theorem lastArmedFirst_concat {events : List GuardEvent} {e : GuardEvent}
    (h : LastArmedFirst events)
    (hlast : ∀ k, e = .ran k → ∀ k', k < k' → .armed k' ∈ events →
      .ran k' ∈ events ∨ .dismissed k' ∈ events) : LastArmedFirst (events ++ [e]) := by
  intro before k after hsplit
  rcases List.eq_nil_or_concat after with rfl | ⟨after, e', rfl⟩
  · obtain ⟨rfl, hsame⟩ := List.append_inj' hsplit rfl
    exact hlast k (List.head_eq_of_cons_eq hsame)
  · rw [List.concat_eq_append, ← List.cons_append, ← List.append_assoc] at hsplit
    exact h before k after (List.append_inj' hsplit rfl).1

/-- The guards as they are while none is moved: the youngest object holds the latest function, so
the order of the destructors is that of the functions. -/
structure Stacked (s : Scoped ScopeGuard GuardLog) : Prop where
  settled : Settled s
  /-- younger guards hold later functions -/
  younger : (s.objects.map ScopeGuard.fn).Pairwise fun k k' => k' < k
  below : ∀ k ∈ s.objects.map ScopeGuard.fn, k < s.rest.made
  /-- what has been handed over is counted -/
  counted : ∀ k, .armed k ∈ s.rest.events → k < s.rest.made
  order : LastArmedFirst s.rest.events

theorem stacked_noGuards : Stacked noGuards where
  settled := settled_noGuards
  younger := by simp [noGuards]
  below := by simp [noGuards]
  counted := by simp [noGuards]
  order := by simp [LastArmedFirst, noGuards]

/-- The operation does not move a guard. -/
def GuardOp.stays : GuardOp → Prop
  | .moveFrom _ => False
  | _ => True

theorem map_fn_dismiss {objects : List ScopeGuard} {i : Nat} {g : ScopeGuard}
    (hget : objects[i]? = some g) :
    (objects.set i g.dismiss).map ScopeGuard.fn = objects.map ScopeGuard.fn := by
  obtain ⟨hi, rfl⟩ := List.getElem?_eq_some_iff.mp hget
  have hi' : i < (objects.map ScopeGuard.fn).length := by simpa using hi
  have hfn : objects[i].dismiss.fn = (objects.map ScopeGuard.fn)[i] := by
    rw [List.getElem_map]
    rfl
  rw [List.map_set, hfn, List.set_getElem_self]

theorem counted_add {log : GuardLog} {e : GuardEvent} (hnot : ∀ k, e ≠ .armed k)
    (h : ∀ k, .armed k ∈ log.events → k < log.made) :
    ∀ k, .armed k ∈ (log.add e).events → k < (log.add e).made := by
  intro k hk
  rcases List.mem_append.mp hk with hk | hk
  · exact h k hk
  · exact (hnot k (List.mem_singleton.mp hk).symm).elim

theorem stacked_perform {op : GuardOp} {s s' : Scoped ScopeGuard GuardLog} (hstays : op.stays)
    (h : Stacked s) (hop : op.perform s = some s') : Stacked s' := by
  have hsettled := settled_perform h.settled hop
  cases op with
  | make =>
      cases hop
      refine ⟨hsettled, List.pairwise_cons.mpr ⟨h.below, h.younger⟩, ?_, ?_,
        lastArmedFirst_concat h.order nofun⟩
      · intro k hk
        rcases List.mem_cons.mp hk with rfl | hk
        · exact Nat.lt_succ_self _
        · exact Nat.lt_succ_of_lt (h.below k hk)
      · intro k hk
        rcases List.mem_append.mp hk with hk | hk
        · exact Nat.lt_succ_of_lt (h.counted k hk)
        · cases List.mem_singleton.mp hk
          exact Nat.lt_succ_self _
  | moveFrom i => exact hstays.elim
  | dismiss i =>
      obtain ⟨g, hget, rfl⟩ := Option.map_eq_some_iff.mp hop
      have hsame := map_fn_dismiss hget
      cases hactive : g.active with
      | false =>
          rw [hactive] at hsettled
          exact ⟨hsettled, hsame ▸ h.younger, hsame ▸ h.below, h.counted, h.order⟩
      | true =>
          rw [hactive] at hsettled
          exact ⟨hsettled, hsame ▸ h.younger, hsame ▸ h.below, counted_add nofun h.counted,
            lastArmedFirst_concat h.order nofun⟩

/-- Behind the youngest guard, no guard holds a function that is later than its own. -/
theorem holders_later {g : ScopeGuard} {objects : List ScopeGuard} {k : Nat}
    (hyounger : ((g :: objects).map ScopeGuard.fn).Pairwise fun k k' => k' < k)
    (hlater : g.fn < k) : holders k (g :: objects) = 0 := by
  refine List.countP_eq_zero.mpr fun g' hg' hholds => ?_
  simp only [ScopeGuard.holds, Bool.and_eq_true, decide_eq_true_eq] at hholds
  obtain ⟨-, rfl⟩ := hholds
  rcases List.mem_cons.mp hg' with rfl | hg'
  · exact Nat.lt_irrefl _ hlater
  · have hless := (List.pairwise_cons.mp hyounger).1 g'.fn (List.mem_map_of_mem hg')
    exact Nat.lt_asymm hlater hless

theorem stacked_destroy (throws : Nat → Bool) {g : ScopeGuard} {objects : List ScopeGuard}
    {log : GuardLog} (h : Stacked ⟨g :: objects, log⟩) :
    Stacked ⟨objects, (g.destroy throws log).2⟩ := by
  have hsettled := settled_destroy throws h.settled
  have hyounger := (List.pairwise_cons.mp h.younger).2
  have hbelow := fun k hk => h.below k (List.mem_cons_of_mem g.fn hk)
  unfold ScopeGuard.destroy at hsettled ⊢
  split
  · rename_i hactive
    rw [if_pos hactive] at hsettled
    refine ⟨hsettled, hyounger, hbelow, counted_add nofun h.counted,
      lastArmedFirst_concat h.order ?_⟩
    intro _ hsame k hlater harmed
    cases hsame
    have hk := h.settled k
    rw [holders_later h.younger hlater, if_pos (h.counted k harmed), Nat.zero_add] at hk
    rcases Nat.eq_zero_or_pos (log.events.count (.ran k)) with hzero | hran
    · have hdismissed : 0 < log.events.count (.dismissed k) := by
        change log.events.count (.ran k) + log.events.count (.dismissed k) = 1 at hk
        omega
      exact .inr (List.count_pos_iff.mp hdismissed)
    · exact .inl (List.count_pos_iff.mp hran)
  · rename_i hactive
    rw [if_neg hactive] at hsettled
    exact ⟨hsettled, hyounger, hbelow, h.counted, h.order⟩

/-- As long as no guard is moved, a function is run only when each one that was handed over after
it has been run or dismissed. -/
theorem guards_run_lifo (throws : Nat → Bool) {st : Stmt GuardOp} (hstays : st.All GuardOp.stays)
    {out : Ending} {s : Scoped ScopeGuard GuardLog}
    (hexec : (guardLang throws).Exec (.block st) noGuards out s) :
    LastArmedFirst s.rest.events := by
  have hprim : ∀ op s out s', GuardOp.stays op → Stacked s → (guardLang throws).prim op s out s' →
      Stacked s' := fun _ _ _ _ hop hs hperform => stacked_perform hop hs hperform.1
  have hstacked : Stacked s :=
    hexec.invariant hprim (fun _ _ _ => stacked_destroy throws) hstays stacked_noGuards
  exact hstacked.order

/-- Two guards are made, and the scope is left by a `return`. -/
theorem guards_run_lifo_two : LastArmedFirst [.armed 0, .armed 1, .ran 1, .ran 0] := by
  have hbody : (guardLang fun _ => false).Exec (.seq (.prim .make) (.seq (.prim .make) .ret))
      noGuards .returned ⟨[⟨1, true⟩, ⟨0, true⟩], ⟨[.armed 0, .armed 1], 2⟩⟩ :=
    .seq (exec_make _ _) (.seq (exec_make _ _) .ret)
  have hstays : (Stmt.seq (.prim GuardOp.make) (.seq (.prim .make) .ret)).All GuardOp.stays :=
    ⟨trivial, trivial, trivial⟩
  exact guards_run_lifo _ hstays hbody.block

end Ftl.Core
