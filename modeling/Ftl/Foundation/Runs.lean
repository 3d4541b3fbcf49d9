/-
  Foundation/Runs.lean --- labelled steps, finite runs, and what they preserve.

  A system is given by one relation `Step : S → L → S → Prop`.  Four rules are
  proved once here and used by every module that talks about reachable states:

      Runs.invariant     an inductive invariant holds at the end of every run
      Runs.invariant_of  the same, for runs all of whose labels satisfy `Q`
      Simulates.runs     a forward simulation lifts from steps to runs
      throughout_iff     a property of all states of a run is one of its labels

  Nothing here knows what a state or a label is.
-/
import Mathlib.Logic.Relation

set_option autoImplicit false

namespace Ftl.Foundation

variable {S T L : Type}

/-- `Runs Step s ls t`: the labels `ls`, taken in order, lead from `s` to `t`. -/
inductive Runs (Step : S → L → S → Prop) : S → List L → S → Prop
  /-- The empty run. -/
  | refl (s : S) : Runs Step s [] s
  /-- One more step at the end. -/
  | tail {s t u : S} {ls : List L} {l : L} :
      Runs Step s ls t → Step t l u → Runs Step s (ls ++ [l]) u

namespace Runs

variable {Step : S → L → S → Prop}

theorem single {s t : S} {l : L} (h : Step s l t) : Runs Step s [l] t :=
  .tail (.refl s) h

theorem trans {s t u : S} {ls ms : List L} (h : Runs Step s ls t)
    (h' : Runs Step t ms u) : Runs Step s (ls ++ ms) u := by
  induction h' with
  | refl => simpa using h
  | tail _ hstep ih =>
      rw [← List.append_assoc]
      exact .tail ih hstep

theorem head {s t u : S} {l : L} {ls : List L} (h : Step s l t)
    (h' : Runs Step t ls u) : Runs Step s (l :: ls) u :=
  (single h).trans h'

/-- A property preserved by every step holds at the end of every run. -/
theorem invariant {Inv : S → Prop} {s t : S} {ls : List L}
    (hrun : Runs Step s ls t) (hinit : Inv s)
    (hstep : ∀ {a b : S} {l : L}, Inv a → Step a l b → Inv b) : Inv t := by
  induction hrun with
  | refl => exact hinit
  | tail _ hlast ih => exact hstep ih hlast

/-- A property preserved by the steps whose label satisfies `Q` holds at the end
of every run that takes only such steps. -/
theorem invariant_of (Q : L → Prop) {Inv : S → Prop} {s t : S} {ls : List L}
    (hrun : Runs Step s ls t) (hinit : Inv s) (hlabels : ∀ l ∈ ls, Q l)
    (hstep : ∀ {a b : S} {l : L}, Q l → Inv a → Step a l b → Inv b) : Inv t := by
  induction hrun with
  | refl => exact hinit
  | @tail _ _ ms l _ hlast ih =>
      have hprefix : ∀ m ∈ ms, Q m := fun m hm => hlabels m (by simp [hm])
      exact hstep (hlabels l (by simp)) (ih hprefix) hlast

/-- Runs of a smaller step relation are runs of a larger one. -/
theorem mono {Step' : S → L → S → Prop} {s t : S} {ls : List L}
    (hle : ∀ {a b : S} {l : L}, Step a l b → Step' a l b)
    (hrun : Runs Step s ls t) : Runs Step' s ls t := by
  induction hrun with
  | refl => exact .refl _
  | tail _ hlast ih => exact .tail ih (hle hlast)

/-- The labels of a deterministic system play out as a run. -/
theorem of_foldlM (step : S → L → Option S) {s t : S} {ls : List L}
    (h : ls.foldlM step s = some t) : Runs (fun a l b => step a l = some b) s ls t := by
  induction ls generalizing s with
  | nil =>
      cases h
      exact .refl _
  | cons l ls ih =>
      rw [List.foldlM_cons] at h
      obtain ⟨u, hu, hrest⟩ := Option.bind_eq_some_iff.mp h
      exact head hu (ih hrest)

end Runs

/-- The steps of `Step` whose label and target satisfy `G`. -/
def Guarded (Step : S → L → S → Prop) (G : L → S → Prop) (s : S) (l : L) (t : S) : Prop :=
  Step s l t ∧ G l t

namespace Runs

variable {Step : S → L → S → Prop} {G : L → S → Prop}

theorem unguard {s t : S} {ls : List L} (hrun : Runs (Guarded Step G) s ls t) :
    Runs Step s ls t :=
  hrun.mono And.left

/-- What the guard says about labels holds of every label of a guarded run. -/
theorem guard_labels {Q : L → Prop} (hQ : ∀ l t, G l t → Q l) {s t : S} {ls : List L}
    (hrun : Runs (Guarded Step G) s ls t) : ∀ l ∈ ls, Q l := by
  induction hrun with
  | refl => simp
  | tail _ hlast ih =>
      intro l hl
      rcases List.mem_append.mp hl with hl | hl
      · exact ih l hl
      · rw [List.mem_singleton.mp hl]
        exact hQ _ _ hlast.2

/-- What the guard says about states holds at the end of a guarded run that
starts in such a state. -/
theorem guard_last (P : S → Prop) (hP : ∀ l t, G l t → P t) {s t : S} {ls : List L}
    (hrun : Runs (Guarded Step G) s ls t) (hinit : P s) : P t :=
  hrun.invariant hinit fun _ hstep => hP _ _ hstep.2

/-- A run is guarded if an invariant that its labels preserve implies the guard. -/
theorem guard_of (Q : L → Prop) {Inv : S → Prop} {s t : S} {ls : List L}
    (hrun : Runs Step s ls t) (hinit : Inv s) (hlabels : ∀ l ∈ ls, Q l)
    (hstep : ∀ {a b : S} {l : L}, Q l → Inv a → Step a l b → Inv b ∧ G l b) :
    Runs (Guarded Step G) s ls t ∧ Inv t := by
  induction hrun with
  | refl => exact ⟨.refl _, hinit⟩
  | @tail _ _ ms l _ hlast ih =>
      have hprefix : ∀ m ∈ ms, Q m := fun m hm => hlabels m (by simp [hm])
      obtain ⟨hguarded, hinv⟩ := ih hprefix
      obtain ⟨hinv', hG⟩ := hstep (hlabels l (by simp)) hinv hlast
      exact ⟨.tail hguarded ⟨hlast, hG⟩, hinv'⟩

end Runs

/-- `R` is a forward simulation of `Step` by `Step'`: related states answer the
same label with related states. -/
def Simulates (R : S → T → Prop) (Step : S → L → S → Prop)
    (Step' : T → L → T → Prop) : Prop :=
  ∀ (s s' : S) (t : T) (l : L), R s t → Step s l s' → ∃ t', Step' t l t' ∧ R s' t'

/-- A forward simulation carries every run along, with the same labels. -/
theorem Simulates.runs {R : S → T → Prop} {Step : S → L → S → Prop}
    {Step' : T → L → T → Prop} (hsim : Simulates R Step Step') {s s' : S} (t : T)
    {ls : List L} (hR : R s t) (hrun : Runs Step s ls s') :
    ∃ t', Runs Step' t ls t' ∧ R s' t' := by
  induction hrun with
  | refl => exact ⟨t, .refl t, hR⟩
  | tail _ hlast ih =>
      obtain ⟨u, hu, hRu⟩ := ih
      obtain ⟨u', hstep, hR'⟩ := hsim _ _ u _ hRu hlast
      exact ⟨u', .tail hu hstep, hR'⟩

/-! ## Properties of all states of a run -/

/-- `P` holds wherever the run from `s` with the labels `ls` comes by. -/
def Throughout (Step : S → L → S → Prop) (s : S) (P : List L → S → Prop) (ls : List L) : Prop :=
  ∀ ms t, ms <+: ls → Runs Step s ms t → P ms t

section Throughout

variable {Step : S → L → S → Prop}
  (hdet : ∀ a l b b', Step a l b → Step a l b' → b = b')
include hdet

theorem Runs.unique {s t u : S} {ls : List L} (hrun : Runs Step s ls t)
    (hrun' : Runs Step s ls u) : t = u := by
  have hsome : ∀ (ls : List L) (l : L), ls ++ [l] ≠ [] := fun ls l =>
    List.append_ne_nil_of_right_ne_nil ls (List.cons_ne_nil l [])
  induction hrun generalizing u with
  | refl =>
      generalize hnil : ([] : List L) = ms at hrun'
      cases hrun' with
      | refl => rfl
      | tail _ _ => exact absurd hnil.symm (hsome _ _)
  | @tail mid end' ls l _ hlast ih =>
      generalize hconcat : ls ++ [l] = ms at hrun'
      cases hrun' with
      | refl => exact absurd hconcat (hsome _ _)
      | tail hbefore hlast' =>
          obtain ⟨rfl, hl⟩ := List.append_inj' hconcat rfl
          cases hl
          rw [ih hbefore] at hlast
          exact hdet _ _ _ _ hlast hlast'

theorem throughout_concat {s u : S} {ls : List L} {l : L} {P : List L → S → Prop}
    (hrun : Runs Step s (ls ++ [l]) u) :
    Throughout Step s P (ls ++ [l]) ↔ Throughout Step s P ls ∧ P (ls ++ [l]) u := by
  constructor
  · intro hall
    refine ⟨fun ms t hms => hall ms t (hms.trans (List.prefix_append ls [l])), ?_⟩
    exact hall _ u (List.prefix_refl _) hrun
  · intro ⟨hbefore, hlast⟩ ms t hms hrun'
    rcases List.prefix_concat_iff.mp hms with rfl | hms
    · rw [Runs.unique hdet hrun' hrun]
      exact hlast
    · exact hbefore ms t hms hrun'

/-- If at each step the property of the next state is a condition on the labels so far, the
property of all states of a run is that condition on its labels. -/
theorem throughout_iff {s t : S} {ls : List L} {P Inv : List L → S → Prop} {C : List L → Prop}
    (hrun : Runs Step s ls t) (hinit : Inv [] s) (hP : P [] s) (hC : C [])
    (hshrink : ∀ ms l, C (ms ++ [l]) → C ms)
    (hinv : ∀ {ms a l b}, Inv ms a → Step a l b → Inv (ms ++ [l]) b)
    (hstep : ∀ {ms a l b}, Inv ms a → Step a l b → P ms a → C ms →
      (P (ms ++ [l]) b ↔ C (ms ++ [l]))) :
    Throughout Step s P ls ↔ C ls := by
  suffices hboth : Inv ls t ∧ (Throughout Step s P ls ↔ C ls) from hboth.2
  induction hrun with
  | refl =>
      refine ⟨hinit, fun _ => hC, fun _ ms u hms hrun' => ?_⟩
      rw [List.prefix_nil.mp hms] at hrun' ⊢
      rw [← Runs.unique hdet (.refl s) hrun']
      exact hP
  | @tail mid u ms l hrun hlast ih =>
      obtain ⟨hinvs, hiff⟩ := ih
      refine ⟨hinv hinvs hlast, ?_⟩
      rw [throughout_concat hdet (.tail hrun hlast), hiff]
      constructor
      · intro ⟨hbefore, hend⟩
        have hmid := hiff.mpr hbefore ms mid (List.prefix_refl ms) hrun
        exact (hstep hinvs hlast hmid hbefore).mp hend
      · intro hall
        have hbefore := hshrink ms l hall
        have hmid := hiff.mpr hbefore ms mid (List.prefix_refl ms) hrun
        exact ⟨hbefore, (hstep hinvs hlast hmid hbefore).mpr hall⟩

end Throughout

end Ftl.Foundation
