/-
  Foundation/Machine.lean --- a program that makes calls, the world that answers
  them, and calls that are interrupted.

  A `Machine` has a pending call in every control state and goes on from its reply.
  An `Oracle` answers calls and changes its own state in doing so.  An interruption
  hands the machine the reply `e` instead and leaves the oracle as it was.

      catches_up     if every interruption leads back to where it happened, an
                     interrupted run and the quiet one meet again
      ends_of_quiet  so it ends where the quiet one ends
-/
import Mathlib.Logic.Relation
import Ftl.Foundation.Runs

set_option autoImplicit false

namespace Ftl.Foundation

open Relation (ReflTransGen)

/-- A program: the call each control state is in, and where a reply leads. -/
structure Machine (P C R : Type) where
  pending : P → Option C
  advance : P → R → Option P

/-- A world that answers calls; `none` is a call that never returns. -/
structure Oracle (C R : Type) where
  State : Type
  answer : State → C → Option (R × State)

variable {P C R : Type}

/-- One call of the program in the world: answered (`none`), or interrupted in the
control state `p` (`some p`). -/
inductive Machine.Step (M : Machine P C R) (O : Oracle C R) (interruptible : C → Prop)
    (e : R) : P × O.State → Option P → P × O.State → Prop
  | call {p p' : P} {k k' : O.State} {c : C} {r : R} :
      M.pending p = some c → O.answer k c = some (r, k') → M.advance p r = some p' →
      Step M O interruptible e (p, k) none (p', k')
  | interrupt {p p' : P} {k : O.State} {c : C} :
      M.pending p = some c → interruptible c → M.advance p e = some p' →
      Step M O interruptible e (p, k) (some p) (p', k)

namespace Machine

variable {M : Machine P C R} {O : Oracle C R} {interruptible : C → Prop} {e : R}

/-- A call that is answered. -/
def Quiet (M : Machine P C R) (O : Oracle C R) (x y : P × O.State) : Prop :=
  ∃ c r, M.pending x.1 = some c ∧ O.answer x.2 c = some (r, y.2) ∧ M.advance x.1 r = some y.1

/-- A run without interruptions. -/
def QuietRun (M : Machine P C R) (O : Oracle C R) : P × O.State → P × O.State → Prop :=
  ReflTransGen (M.Quiet O)

theorem quiet_of_step {x y : P × O.State} (h : M.Step O interruptible e x none y) :
    M.Quiet O x y := by
  cases h with
  | call hpending hanswer hadvance => exact ⟨_, _, hpending, hanswer, hadvance⟩

theorem quiet_unique {x y z : P × O.State} (hy : M.Quiet O x y) (hz : M.Quiet O x z) :
    y = z := by
  obtain ⟨c, r, hc, hr, hp⟩ := hy
  obtain ⟨c', r', hc', hr', hp'⟩ := hz
  rw [hc] at hc'
  cases hc'
  rw [hr] at hr'
  obtain ⟨rfl, hk⟩ := Prod.mk.inj (Option.some.inj hr')
  rw [hp] at hp'
  exact Prod.ext (Option.some.inj hp') hk

theorem eq_of_quietRun_of_end {x y : P × O.State} (hend : M.pending x.1 = none)
    (h : M.QuietRun O x y) : y = x := by
  cases h.cases_head with
  | inl heq => exact heq.symm
  | inr hstep =>
      obtain ⟨z, ⟨c, r, hc, -⟩, -⟩ := hstep
      rw [hend] at hc
      cases hc

/-- Two quiet runs from one state: the one that has ended is ahead. -/
theorem quietRun_of_end {s x z : P × O.State} (hx : M.QuietRun O s x)
    (hz : M.QuietRun O s z) (hend : M.pending z.1 = none) : M.QuietRun O x z := by
  induction hx with
  | refl => exact hz
  | tail _ hstep ih =>
      rcases ih.cases_head with heq | ⟨y, hy, hrest⟩
      · obtain ⟨c, r, hc, -⟩ := hstep
        rw [heq, hend] at hc
        cases hc
      · rw [quiet_unique hstep hy]
        exact hrest

/-- If every interruption that `Q` allows leads quietly back to where it happened,
then at any point of a run the quiet run from the same start can be met again. -/
theorem catches_up (Q : Option P → Prop) {Inv : P × O.State → Prop} {s x : P × O.State}
    {ls : List (Option P)} (hrun : Runs (M.Step O interruptible e) s ls x) (hinit : Inv s)
    (hlabels : ∀ l ∈ ls, Q l)
    (hquiet : ∀ {a b : P × O.State}, Inv a → M.Quiet O a b → Inv b)
    (hback : ∀ {a b : P × O.State} {p : P}, Q (some p) → Inv a →
      M.Step O interruptible e a (some p) b → Inv b ∧ M.QuietRun O b a) :
    ∃ y, M.QuietRun O s y ∧ M.QuietRun O x y := by
  have hmeet : Inv x ∧ ∃ y, M.QuietRun O s y ∧ M.QuietRun O x y := by
    refine @Runs.invariant_of _ _ _ Q
      (fun x => Inv x ∧ ∃ y, M.QuietRun O s y ∧ M.QuietRun O x y) _ _ _ hrun
      ⟨hinit, s, .refl, .refl⟩ hlabels ?_
    rintro a b l hQ ⟨hInv, y, hsy, hay⟩ hstep
    cases l with
    | none =>
        have hab := quiet_of_step hstep
        refine ⟨hquiet hInv hab, ?_⟩
        rcases hay.cases_head with heq | ⟨z, haz, hzy⟩
        · -- the quiet run takes the same step
          subst heq
          exact ⟨b, hsy.tail hab, .refl⟩
        · exact ⟨y, hsy, quiet_unique hab haz ▸ hzy⟩
    | some p =>
        obtain ⟨hInv', hba⟩ := hback hQ hInv hstep
        exact ⟨hInv', y, hsy, hba.trans hay⟩
  exact hmeet.2

/-- An interrupted run ends where the quiet run ends. -/
theorem ends_of_quiet (Q : Option P → Prop) {Inv : P × O.State → Prop} {s x z : P × O.State}
    {ls : List (Option P)} (hrun : Runs (M.Step O interruptible e) s ls x) (hinit : Inv s)
    (hlabels : ∀ l ∈ ls, Q l)
    (hquiet : ∀ {a b : P × O.State}, Inv a → M.Quiet O a b → Inv b)
    (hback : ∀ {a b : P × O.State} {p : P}, Q (some p) → Inv a →
      M.Step O interruptible e a (some p) b → Inv b ∧ M.QuietRun O b a)
    (hz : M.QuietRun O s z) (hend : M.pending z.1 = none) : M.QuietRun O x z := by
  obtain ⟨y, hsy, hxy⟩ := catches_up Q hrun hinit hlabels hquiet hback
  exact hxy.trans (quietRun_of_end hsy hz hend)

/-- What answered calls preserve holds along a quiet run. -/
theorem QuietRun.invariant {Inv : P × O.State → Prop} {x y : P × O.State}
    (hrun : M.QuietRun O x y) (hinit : Inv x)
    (hquiet : ∀ {a b : P × O.State}, Inv a → M.Quiet O a b → Inv b) : Inv y := by
  induction hrun with
  | refl => exact hinit
  | tail _ hstep ih => exact hquiet ih hstep

/-- If an interruption of a call that satisfies `A` ends the run in a state that
satisfies `F`, a run in which it happens ends there. -/
theorem end_of_interrupt (A F : P → Prop) (hend : ∀ p, F p → M.pending p = none)
    (hinterrupt : ∀ p p', A p → M.advance p e = some p' → F p') {x y : P × O.State}
    {ls : List (Option P)} (hrun : Runs (M.Step O interruptible e) x ls y)
    (hin : ∃ p, some p ∈ ls ∧ A p) : F y.1 := by
  induction hrun with
  | refl => simp at hin
  | @tail t u ms l _ hlast ih =>
      by_cases hbefore : ∃ p, some p ∈ ms ∧ A p
      · -- there is no step after the end
        have hnone := hend _ (ih hbefore)
        cases hlast with
        | call hpending => simp [hpending] at hnone
        | interrupt hpending => simp [hpending] at hnone
      · obtain ⟨p, hp, hA⟩ := hin
        rcases List.mem_append.mp hp with hp | hp
        · exact (hbefore ⟨p, hp, hA⟩).elim
        · cases List.mem_singleton.mp hp
          cases hlast with
          | interrupt _ _ hadvance => exact hinterrupt p _ hA hadvance

/-- A run that ends elsewhere has not met such an interruption. -/
theorem not_interrupted_of_end (A F : P → Prop) (hend : ∀ p, F p → M.pending p = none)
    (hinterrupt : ∀ p p', A p → M.advance p e = some p' → F p') {x y z : P × O.State}
    {ls : List (Option P)} (hrun : Runs (M.Step O interruptible e) x ls y)
    (hz : M.QuietRun O y z) (helse : ¬ F z.1) : ∀ p, some p ∈ ls → ¬ A p := by
  intro p hp hA
  have hF := end_of_interrupt A F hend hinterrupt hrun ⟨p, hp, hA⟩
  rw [eq_of_quietRun_of_end (hend _ hF) hz] at helse
  exact helse hF

/-! ## Executable schedules -/

section Play

variable (M O e) (interrupts : C → Bool)

/-- Play the run in which the calls flagged `true` are interrupted. -/
def play : P × O.State → List Bool → Option (P × O.State)
  | x, [] => some x
  | (p, k), false :: flags =>
      (M.pending p).bind fun c => (O.answer k c).bind fun answered =>
        (M.advance p answered.1).bind fun p' => play (p', answered.2) flags
  | (p, k), true :: flags =>
      (M.pending p).bind fun c =>
        if interrupts c = true then (M.advance p e).bind fun p' => play (p', k) flags
        else none

variable {M O interrupts e}

theorem play_sound {x y : P × O.State} {flags : List Bool}
    (h : M.play O e interrupts x flags = some y) :
    ∃ ls, Runs (M.Step O (fun c => interrupts c = true) e) x ls y := by
  induction flags generalizing x with
  | nil => cases h; exact ⟨[], .refl _⟩
  | cons flag flags ih =>
      obtain ⟨p, k⟩ := x
      cases flag with
      | false =>
          simp only [play, Option.bind_eq_some_iff] at h
          obtain ⟨c, hc, ⟨r, k'⟩, hr, p', hp', hrest⟩ := h
          obtain ⟨ls, hls⟩ := ih hrest
          exact ⟨none :: ls, .head (.call hc hr hp') hls⟩
      | true =>
          simp only [play, Option.bind_eq_some_iff] at h
          obtain ⟨c, hc, hrest⟩ := h
          split at hrest
          · rename_i hinterrupts
            obtain ⟨p', hp', hrest⟩ := Option.bind_eq_some_iff.mp hrest
            obtain ⟨ls, hls⟩ := ih hrest
            exact ⟨some p :: ls, .head (.interrupt hc hinterrupts hp') hls⟩
          · cases hrest

theorem play_quiet {x y : P × O.State} {n : Nat}
    (h : M.play O e interrupts x (List.replicate n false) = some y) : M.QuietRun O x y := by
  induction n generalizing x with
  | zero => cases h; exact .refl
  | succ n ih =>
      obtain ⟨p, k⟩ := x
      simp only [List.replicate_succ, play, Option.bind_eq_some_iff] at h
      obtain ⟨c, hc, ⟨r, k'⟩, hr, p', hp', hrest⟩ := h
      exact .head ⟨c, r, hc, hr, hp'⟩ (ih hrest)

end Play

end Machine

end Ftl.Foundation
