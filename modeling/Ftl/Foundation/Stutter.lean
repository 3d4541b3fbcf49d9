/-
  Foundation/Stutter.lean --- simulations that do not keep step.

  Two systems that do the same thing seldom do it in the same number of steps.  In a
  simulation of this kind a step is matched by any number of steps of the other system, with
  labels of their own.

      Mimics.runs      every run is matched by a run
      Mimics.exactly   if each of two systems mimics the other one, they can produce the same
-/
import Ftl.Foundation.Runs

set_option autoImplicit false

namespace Ftl.Foundation

variable {S T L M : Type} {Step : S → L → S → Prop} {Step' : T → M → T → Prop}

/-- Related states answer a step with a run that leads to related states. -/
def Mimics (R : S → T → Prop) (Step : S → L → S → Prop) (Step' : T → M → T → Prop) : Prop :=
  ∀ (s s' : S) (t : T) (l : L), R s t → Step s l s' → ∃ ms t', Runs Step' t ms t' ∧ R s' t'

theorem Mimics.runs {R : S → T → Prop} (hmimics : Mimics R Step Step') {s s' : S} {t : T}
    {ls : List L} (hR : R s t) (hrun : Runs Step s ls s') :
    ∃ ms t', Runs Step' t ms t' ∧ R s' t' := by
  induction hrun with
  | refl => exact ⟨[], t, .refl t, hR⟩
  | tail _ hlast ih =>
      obtain ⟨ms, u, hu, hRu⟩ := ih
      obtain ⟨ms', u', hu', hRu'⟩ := hmimics _ _ u _ hRu hlast
      exact ⟨ms ++ ms', u', hu.trans hu', hRu'⟩

/-- `Step` can get from `s` to a state that shows `o`. -/
def Produces {O : Type} (Step : S → L → S → Prop) (shows : S → O → Prop) (s : S) (o : O) : Prop :=
  ∃ ls s', Runs Step s ls s' ∧ shows s' o

/-- Where each mimics the other one, and related states show the same, both systems produce
the same. -/
theorem Mimics.exactly {O : Type} {R : S → T → Prop} {R' : T → S → Prop} {shows : S → O → Prop}
    {shows' : T → O → Prop} (hmimics : Mimics R Step Step') (hmimics' : Mimics R' Step' Step)
    (hshows : ∀ {s t o}, R s t → shows s o → shows' t o)
    (hshows' : ∀ {t s o}, R' t s → shows' t o → shows s o) {s : S} {t : T} (hR : R s t)
    (hR' : R' t s) (o : O) : Produces Step shows s o ↔ Produces Step' shows' t o := by
  constructor
  · intro ⟨_, _, hrun, hs⟩
    obtain ⟨ms, t', hruns, hRt⟩ := hmimics.runs hR hrun
    exact ⟨ms, t', hruns, hshows hRt hs⟩
  · intro ⟨_, _, hrun, ht⟩
    obtain ⟨ls, s', hruns, hRs⟩ := hmimics'.runs hR' hrun
    exact ⟨ls, s', hruns, hshows' hRs ht⟩

end Ftl.Foundation
