/-
  Process/RunResults.lean --- what callers do with `ftl_run_result`.

  Embedded source: `ftl_free_run_result` and the part of `ftl_run_command` that makes the
  output (ftl/ftl.h), in one heap.  A caller has any number of results; it clears them, runs
  commands into them and frees them in any order.  A step that has no meaning (a `free` of a
  pointer that is indeterminate, or of a block that is not there) is `none`.

      results_safe   only the free of a result that was neither cleared nor filled has no
                     meaning; each output is what was read in its own run; a block is lost
                     exactly when a result that holds an output is cleared or filled again
-/
import Ftl.Foundation.Runs
import Ftl.Process.OutputBuffer

set_option autoImplicit false

namespace Ftl.Process

open Function (update update_self update_of_ne)
open Foundation (Heap Runs)

/-! ## The code -/

/-- `malloc(capacity)` in a heap that has other blocks. -/
def OutputBuffer.startIn (heap : Heap UInt8) (granted : Bool) : OutputBuffer where
  capacity := 4096
  length := 0
  buffer := ({ heap with failures := 0 }.malloc 4096 granted).1
  heap := ({ heap with failures := 0 }.malloc 4096 granted).2

/-- The results of a caller. -/
structure Results where
  heap : Heap UInt8
  /-- `result->output`: indeterminate, NULL or a pointer -/
  output : Nat → Option (Option Nat)
  /-- what was read of the last command for it -/
  text : Nat → Bytes

/-- No result has been filled. -/
def Results.none : Results where
  heap := Heap.empty
  output := fun _ => Option.none
  text := fun _ => []

/-- What a caller does. -/
inductive ResultOp where
  /-- `ftl_run_result r = {0};` -/
  | clear (r : Nat)
  /-- `ftl_run_command(.., &r)` returns 0 -/
  | run (r : Nat) (granted : Bool) (turns : List Turned)
  /-- it returns -1 -/
  | runFails (r : Nat)
  /-- `ftl_free_run_result(&r)` -/
  | free (r : Nat)
  /-- `ftl_free_run_result(NULL)` -/
  | freeNull

namespace Results

/-- `ftl_free_run_result(&r)`. -/
def freeRunResult (c : Results) (r : Nat) : Option Results :=
  match c.output r with
  | .none => .none
  | some .none => some c
  | some (some p) =>
      (c.heap.free p).map fun heap =>
        { c with heap := heap, output := update c.output r (some .none) }

/-- The output that `ftl_run_command` puts into `r`. -/
def fill (c : Results) (r : Nat) (granted : Bool) (turns : List Turned) : Option Results := do
  let b ← turns.foldlM OutputBuffer.turn (.startIn c.heap granted)
  let (output, heap) ← b.finish
  return { heap := heap, output := update c.output r (some output),
           text := update c.text r (bytesOf turns) }

/-- The effect of an operation. -/
def perform (c : Results) : ResultOp → Option Results
  | .clear r => some { c with output := update c.output r (some .none) }
  | .run r granted turns => c.fill r granted turns
  | .runFails _ => some c
  | .free r => c.freeRunResult r
  | .freeNull => some c

end Results

/-- A command writes less than 2^62 bytes.  Up to there no capacity comes to 2^64, so that its
doubling in a `size_t` does not wrap. -/
def ResultOp.Fits : ResultOp → Prop
  | .run _ _ turns => (bytesOf turns).length < totalLimit
  | _ => True

/-- One operation. -/
def ResultStep (c : Results) (op : ResultOp) (c' : Results) : Prop :=
  op.Fits ∧ c.perform op = some c'

/-! ## What a command adds to the heap -/

section Adds

variable {h₀ : Heap UInt8} {b b' : OutputBuffer}

theorem adds_memcpy {p : Nat} {chunk : Bytes} (h : h₀.Adds (some p) b.heap)
    (hcopy : b.memcpy p chunk = some b') : b'.buffer = b.buffer ∧ h₀.Adds (some p) b'.heap := by
  obtain ⟨heap, hstore, hb'⟩ := Option.bind_eq_some_iff.mp hcopy
  cases hb'
  exact ⟨rfl, h.store hstore⟩

theorem adds_append {chunk : Bytes} {granted : Bool} (h : h₀.Adds b.buffer b.heap)
    (happend : b.append chunk granted = some b') : h₀.Adds b'.buffer b'.heap := by
  unfold OutputBuffer.append at happend
  split at happend
  · cases happend
    exact h
  · rename_i p hbuffer
    rw [hbuffer] at h
    split at happend
    · obtain ⟨next, -, happend⟩ := Option.bind_eq_some_iff.mp happend
      obtain ⟨⟨moved, heap⟩, hrealloc, happend⟩ := Option.bind_eq_some_iff.mp happend
      have hadds := h.realloc hrealloc
      cases granted with
      | false =>
          obtain ⟨cells, -, hcells⟩ := Option.map_eq_some_iff.mp hrealloc
          cases hcells
          obtain ⟨heap, hfree, hb'⟩ := Option.bind_eq_some_iff.mp happend
          cases hb'
          exact hadds.free hfree
      | true =>
          obtain ⟨cells, -, hcells⟩ := Option.map_eq_some_iff.mp hrealloc
          cases hcells
          obtain ⟨hsame, hadds'⟩ := adds_memcpy hadds happend
          rw [hsame]
          exact hadds'
    · obtain ⟨hsame, hadds⟩ := adds_memcpy h happend
      rw [hsame, hbuffer]
      exact hadds

theorem adds_turns {turns : List Turned} (h : h₀.Adds b.buffer b.heap)
    (hturns : turns.foldlM OutputBuffer.turn b = some b') : h₀.Adds b'.buffer b'.heap := by
  induction turns generalizing b with
  | nil =>
      cases hturns
      exact h
  | cons t turns ih =>
      rw [List.foldlM_cons] at hturns
      obtain ⟨b₁, hturn, hturns⟩ := Option.bind_eq_some_iff.mp hturns
      refine ih ?_ hturns
      cases t with
      | chunk c granted => exact adds_append h hturn
      | eintr =>
          cases hturn
          exact h

theorem adds_finish {output : Option Nat} {heap : Heap UInt8} (h : h₀.Adds b.buffer b.heap)
    (hfinish : b.finish = some (output, heap)) : h₀.Adds output heap := by
  unfold OutputBuffer.finish at hfinish
  split at hfinish
  · rename_i hnull
    cases hfinish
    rwa [hnull] at h
  · rename_i p hbuffer
    rw [hbuffer] at h
    obtain ⟨heap, hstore, hsame⟩ := Option.bind_eq_some_iff.mp hfinish
    cases hsame
    exact h.store hstore

/-- The heap in which a command starts may have blocks. -/
theorem buffered_startIn (heap : Heap UInt8) (granted : Bool) :
    Buffered (.startIn heap granted) [] := by
  cases granted with
  | false =>
      refine ⟨iff_of_true rfl (Nat.lt_succ_self 0), ?_⟩
      intro p hp
      cases hp
  | true =>
      obtain ⟨hpointer, hholds, hfailures⟩ :=
        Heap.holds_malloc { heap with failures := 0 } 4096
      refine ⟨iff_of_false (by simp [OutputBuffer.startIn, hpointer]) (Nat.lt_irrefl 0), ?_⟩
      intro p hp
      cases hpointer.symm.trans hp
      exact ⟨hholds, rfl, (by decide : 1 ≤ 4096), (by decide : 4096 ≤ 2 * totalLimit)⟩

/-- The block of the output is there from the start. -/
theorem adds_startIn {heap : Heap UInt8} (htight : heap.Tight) (granted : Bool) :
    heap.Adds (OutputBuffer.startIn heap granted).buffer
      (OutputBuffer.startIn heap granted).heap := by
  have htight' : Heap.Tight { heap with failures := 0 } := htight
  have hadds := Heap.adds_malloc htight' 4096 granted
  exact ⟨hadds.old, hadds.new, hadds.fresh, hadds.later, hadds.tight⟩

end Adds

/-- A command makes a block for its output, which holds what it has read, or leaves NULL. -/
theorem fill_spec (c : Results) (htight : c.heap.Tight) (r : Nat) (granted : Bool)
    (turns : List Turned) (hfits : (bytesOf turns).length < totalLimit) :
    ∃ output heap, c.fill r granted turns = some
        { heap := heap, output := update c.output r (some output),
          text := update c.text r (bytesOf turns) } ∧
      c.heap.Adds output heap ∧
      ∀ p, output = some p → ∃ size, heap.Holds p size (bytesOf turns ++ [nul]) := by
  obtain ⟨b, hturns, hb, -⟩ :=
    buffered_turns (buffered_startIn c.heap granted) (Nat.succ_pos 4095) turns hfits
  obtain ⟨heap, hfinish, hholds⟩ := finish_spec hb
  have hadds := adds_finish (adds_turns (adds_startIn htight granted) hturns) hfinish
  refine ⟨b.buffer, heap, ?_, hadds, ?_⟩
  · simp [Results.fill, hturns, hfinish]
  · exact fun p hp => ⟨_, hholds p hp⟩

/-! ## The results of a caller -/

namespace Results

/-- What the results and the heap have to do with each other.  It is `distinct` that keeps the
`free` of one result from the output of another. -/
structure Sound (c : Results) : Prop where
  tight : c.heap.Tight
  /-- each output is what was read of its command, with a terminator -/
  holds : ∀ r p, c.output r = some (some p) → ∃ size, c.heap.Holds p size (c.text r ++ [nul])
  /-- no two results share one -/
  distinct : ∀ r r' p, c.output r = some (some p) → c.output r' = some (some p) → r = r'

/-- A block that no result points to. -/
def Leaks (c : Results) : Prop :=
  ∃ p, c.heap.block p ≠ .none ∧ ∀ r, c.output r ≠ some (some p)

/-- The operation fills or clears a result that holds an output: the pointer is overwritten, and
nobody else has it. -/
def Overwrites (c : Results) : ResultOp → Prop
  | .clear r | .run r _ _ => ∃ p, c.output r = some (some p)
  | _ => False

variable {c c' : Results}

theorem sound_none : Sound .none where
  tight := fun _ _ => rfl
  holds := nofun
  distinct := nofun

theorem Sound.block (h : c.Sound) {r p : Nat} (hr : c.output r = some (some p)) :
    c.heap.block p ≠ .none := by
  obtain ⟨size, cells, hblock, -⟩ := h.holds r p hr
  rw [hblock]
  nofun

theorem Sound.lt_next (h : c.Sound) {p : Nat} (hp : c.heap.block p ≠ .none) :
    p < c.heap.next := by
  by_contra hbeyond
  exact hp (h.tight p (Nat.le_of_not_lt hbeyond))

theorem Sound.lt_next_of_output (h : c.Sound) {r p : Nat} (hr : c.output r = some (some p)) :
    p < c.heap.next := h.lt_next (h.block hr)

/-- Filling a result, with NULL or with a new block. -/
structure Fills (c : Results) (r : Nat) (output : Option Nat) (c' : Results) : Prop where
  adds : c.heap.Adds output c'.heap
  filled : c'.output = update c.output r (some output)
  holds : ∀ p, output = some p → ∃ size, c'.heap.Holds p size (c'.text r ++ [nul])
  text : ∀ r', r' ≠ r → c'.text r' = c.text r'

section Fills

variable {r : Nat} {output : Option Nat}

theorem Fills.output_self (hf : c.Fills r output c') : c'.output r = some output := by
  rw [hf.filled, update_self]

theorem Fills.output_of_ne (hf : c.Fills r output c') {r' : Nat} (hne : r' ≠ r) :
    c'.output r' = c.output r' := by
  rw [hf.filled, update_of_ne hne]

theorem Sound.fills (h : c.Sound) (hf : c.Fills r output c') : c'.Sound := by
  -- a block of an older output is not that of the new one
  have hapart : ∀ r' p, r' ≠ r → c'.output r' = some (some p) → c'.output r ≠ some (some p) := by
    intro r' p hne hr' hr
    rw [hf.output_of_ne hne] at hr'
    rw [hf.output_self] at hr
    have hfresh := hf.adds.fresh p (Option.some.inj hr)
    exact Nat.lt_irrefl _ (Nat.lt_of_lt_of_le (h.lt_next_of_output hr') hfresh)
  refine ⟨hf.adds.tight, fun r' p hr' => ?_, fun r' r'' p hr' hr'' => ?_⟩
  · by_cases hsame : r' = r
    · subst hsame
      rw [hf.output_self] at hr'
      exact hf.holds p (Option.some.inj hr')
    · rw [hf.output_of_ne hsame] at hr'
      obtain ⟨size, cells, hblock, hcells⟩ := h.holds r' p hr'
      rw [hf.text r' hsame]
      exact ⟨size, cells, (hf.adds.old p (h.lt_next_of_output hr')).trans hblock, hcells⟩
  · by_cases hsame : r' = r
    · by_cases hsame' : r'' = r
      · rw [hsame, hsame']
      · exact (hapart r'' p hsame' hr'' (hsame ▸ hr')).elim
    · by_cases hsame' : r'' = r
      · exact (hapart r' p hsame hr' (hsame' ▸ hr'')).elim
      · rw [hf.output_of_ne hsame] at hr'
        rw [hf.output_of_ne hsame'] at hr''
        exact h.distinct r' r'' p hr' hr''

/-- What was lost stays lost, and an output that is overwritten is lost. -/
theorem Sound.leaks_fills_iff (h : c.Sound) (hf : c.Fills r output c') :
    c'.Leaks ↔ c.Leaks ∨ ∃ p, c.output r = some (some p) := by
  have hnew : ∀ p, p < c.heap.next → output ≠ some p := fun p hp hout =>
    Nat.lt_irrefl _ (Nat.lt_of_lt_of_le hp (hf.adds.fresh p hout))
  -- an old block to which the other results do not point
  have hlost : ∀ p, p < c.heap.next → c.heap.block p ≠ .none →
      (∀ r', r' ≠ r → c.output r' ≠ some (some p)) → c'.Leaks := by
    intro p hp hblock hothers
    refine ⟨p, by rwa [hf.adds.old p hp], fun r' hr' => ?_⟩
    by_cases hsame : r' = r
    · rw [hsame, hf.output_self] at hr'
      exact hnew p hp (Option.some.inj hr')
    · rw [hf.output_of_ne hsame] at hr'
      exact hothers r' hsame hr'
  constructor
  · rintro ⟨p, hblock, hnone⟩
    have hold : p < c.heap.next := by
      by_contra hbeyond
      have hout := (hf.adds.new p (Nat.le_of_not_lt hbeyond)).mp hblock
      exact hnone r (by rw [hf.output_self, hout])
    by_cases hr : c.output r = some (some p)
    · exact .inr ⟨p, hr⟩
    · refine .inl ⟨p, by rwa [← hf.adds.old p hold], fun r' hr' => ?_⟩
      by_cases hsame : r' = r
      · exact hr (hsame ▸ hr')
      · exact hnone r' (by rwa [hf.output_of_ne hsame])
  · rintro (⟨p, hblock, hnone⟩ | ⟨p, hr⟩)
    · exact hlost p (h.lt_next hblock) hblock fun r' _ => hnone r'
    · exact hlost p (h.lt_next_of_output hr) (h.block hr) fun r' hne hr' =>
        hne (h.distinct r' r p hr' hr)

end Fills

/-- The output at `p`, which `r` holds, is freed. -/
structure Frees (c : Results) (r p : Nat) (c' : Results) : Prop where
  held : c.output r = some (some p)
  block : c'.heap.block = update c.heap.block p .none
  next : c'.heap.next = c.heap.next
  emptied : c'.output = update c.output r (some .none)
  text : c'.text = c.text

section Frees

variable {r p : Nat}

theorem Frees.block_of_ne (hf : c.Frees r p c') {q : Nat} (hq : q ≠ p) :
    c'.heap.block q = c.heap.block q := by
  rw [hf.block, update_of_ne hq]

theorem Frees.block_self (hf : c.Frees r p c') : c'.heap.block p = .none := by
  rw [hf.block, update_self]

theorem Frees.output_iff (hf : c.Frees r p c') {r' q : Nat} :
    c'.output r' = some (some q) ↔ r' ≠ r ∧ c.output r' = some (some q) := by
  rw [hf.emptied]
  by_cases hsame : r' = r
  · simp [hsame]
  · simp [hsame]

theorem Sound.frees (h : c.Sound) (hf : c.Frees r p c') : c'.Sound := by
  refine ⟨fun q hq => ?_, fun r' q hr' => ?_, fun r' r'' q hr' hr'' => ?_⟩
  · rw [hf.next] at hq
    by_cases hsame : q = p
    · rw [hsame]
      exact hf.block_self
    · rw [hf.block_of_ne hsame]
      exact h.tight q hq
  · obtain ⟨hne, hold⟩ := hf.output_iff.mp hr'
    have hqp : q ≠ p := fun hsame => hne (h.distinct r' r q hold (hsame ▸ hf.held))
    obtain ⟨size, cells, hblock, hcells⟩ := h.holds r' q hold
    rw [hf.text]
    exact ⟨size, cells, (hf.block_of_ne hqp).trans hblock, hcells⟩
  · exact h.distinct r' r'' q (hf.output_iff.mp hr').2 (hf.output_iff.mp hr'').2

theorem Frees.leaks_iff (hf : c.Frees r p c') : c'.Leaks ↔ c.Leaks := by
  constructor
  · intro ⟨q, hblock, hnone⟩
    have hqp : q ≠ p := fun hsame => hblock (hsame ▸ hf.block_self)
    rw [hf.block_of_ne hqp] at hblock
    refine ⟨q, hblock, fun r' hr' => ?_⟩
    by_cases hsame : r' = r
    · rw [hsame, hf.held] at hr'
      exact hqp (Option.some.inj (Option.some.inj hr')).symm
    · exact hnone r' (hf.output_iff.mpr ⟨hsame, hr'⟩)
  · intro ⟨q, hblock, hnone⟩
    have hqp : q ≠ p := fun hsame => hnone r (hsame ▸ hf.held)
    refine ⟨q, ?_, fun r' hr' => hnone r' (hf.output_iff.mp hr').2⟩
    rwa [hf.block_of_ne hqp]

end Frees

/-! ## Runs -/

/-- What an operation does. -/
inductive Performed (c : Results) (op : ResultOp) (c' : Results) : Prop
  | same (hsame : c' = c) (hkeeps : ¬ c.Overwrites op)
  | filled (r : Nat) (output : Option Nat) (hfills : c.Fills r output c')
      (hover : c.Overwrites op ↔ ∃ p, c.output r = some (some p))
  | freed (r p : Nat) (hfrees : c.Frees r p c') (hkeeps : ¬ c.Overwrites op)

/-- Only the free of a result that was neither cleared nor filled has no meaning. -/
theorem Sound.perform (h : c.Sound) {op : ResultOp} (hfits : op.Fits)
    (hfilled : ∀ r, op = .free r → c.output r ≠ .none) :
    ∃ c', c.perform op = some c' ∧ c.Performed op c' := by
  cases op with
  | clear r =>
      refine ⟨_, rfl, .filled r .none ⟨?_, rfl, nofun, fun _ _ => rfl⟩ Iff.rfl⟩
      exact .refl h.tight
  | run r granted turns =>
      obtain ⟨output, heap, hfill, hadds, hholds⟩ := fill_spec c h.tight r granted turns hfits
      refine ⟨_, hfill, .filled r output ⟨hadds, rfl, fun p hp => ?_, ?_⟩ Iff.rfl⟩
      · change ∃ size, heap.Holds p size (update c.text r (bytesOf turns) r ++ [nul])
        rw [update_self]
        exact hholds p hp
      · exact fun r' hne => update_of_ne hne _ _
  | runFails r => exact ⟨c, rfl, .same rfl id⟩
  | freeNull => exact ⟨c, rfl, .same rfl id⟩
  | free r =>
      cases hr : c.output r with
      | none => exact absurd hr (hfilled r rfl)
      | some output =>
          cases output with
          | none => exact ⟨c, by simp [Results.perform, freeRunResult, hr], .same rfl id⟩
          | some p =>
              obtain ⟨size, cells, hblock, -⟩ := h.holds r p hr
              let freed : Results :=
                { c with heap := { c.heap with block := update c.heap.block p .none }
                         output := update c.output r (some .none) }
              refine ⟨freed, ?_, .freed r p ⟨hr, rfl, rfl, rfl, rfl⟩ id⟩
              simp [Results.perform, freeRunResult, hr, Heap.free, hblock, freed]

theorem Sound.perform_isSome_iff (h : c.Sound) {op : ResultOp} (hfits : op.Fits) :
    (c.perform op).isSome ↔ ∀ r, op = .free r → c.output r ≠ .none := by
  constructor
  · rintro hsome r rfl hr
    simp [Results.perform, freeRunResult, hr] at hsome
  · intro hfilled
    obtain ⟨c', hc', -⟩ := h.perform hfits hfilled
    rw [hc']
    rfl

theorem Sound.step (h : c.Sound) {op : ResultOp} (hstep : ResultStep c op c') :
    c.Performed op c' := by
  obtain ⟨hfits, hc'⟩ := hstep
  have hfilled := (h.perform_isSome_iff hfits).mp (hc' ▸ rfl)
  obtain ⟨c'', hc'', hperformed⟩ := h.perform hfits hfilled
  cases hc''.symm.trans hc'
  exact hperformed

theorem Sound.performed (h : c.Sound) {op : ResultOp} (hp : c.Performed op c') : c'.Sound := by
  cases hp with
  | same hsame => exact hsame ▸ h
  | filled r output hfills => exact h.fills hfills
  | freed r p hfrees => exact h.frees hfrees

/-- A block is lost when an operation overwrites an output, and never comes back. -/
theorem Sound.leaks_performed_iff (h : c.Sound) {op : ResultOp} (hp : c.Performed op c') :
    c'.Leaks ↔ c.Leaks ∨ c.Overwrites op := by
  cases hp with
  | same hsame hkeeps => rw [hsame, or_iff_left hkeeps]
  | filled r output hfills hover => rw [h.leaks_fills_iff hfills, hover]
  | freed r p hfrees hkeeps => rw [hfrees.leaks_iff, or_iff_left hkeeps]

theorem sound_runs {ops : List ResultOp} (hrun : Runs ResultStep .none ops c) : c.Sound :=
  hrun.invariant sound_none fun h hstep => h.performed (h.step hstep)

theorem resultStep_unique (c : Results) (op : ResultOp) (c₁ c₂ : Results)
    (h₁ : ResultStep c op c₁) (h₂ : ResultStep c op c₂) : c₁ = c₂ :=
  Option.some.inj (h₁.2.symm.trans h₂.2)

theorem not_leaks_none : ¬ Leaks .none := fun ⟨_, hblock, _⟩ => hblock rfl

theorem leaks_runs_iff {ops : List ResultOp} (hrun : Runs ResultStep .none ops c) :
    c.Leaks ↔ ∃ before op after x, ops = before ++ op :: after ∧
      Runs ResultStep .none before x ∧ x.Overwrites op := by
  induction hrun with
  | refl =>
      refine iff_of_false not_leaks_none ?_
      rintro ⟨before, op, after, x, hops, -⟩
      simp at hops
  | @tail mid c' ops op hrun hlast ih =>
      have hsound := sound_runs hrun
      rw [hsound.leaks_performed_iff (hsound.step hlast), ih]
      constructor
      · rintro (⟨before, op', after, x, rfl, hbefore, hover⟩ | hover)
        · exact ⟨before, op', after ++ [op], x, by simp, hbefore, hover⟩
        · exact ⟨ops, op, [], mid, rfl, hrun, hover⟩
      · rintro ⟨before, op', after, x, hops, hbefore, hover⟩
        rcases List.eq_nil_or_concat after with rfl | ⟨after, last, rfl⟩
        · obtain ⟨rfl, hop⟩ := List.append_inj' hops rfl
          cases hop
          rw [Runs.unique resultStep_unique hrun hbefore]
          exact .inr hover
        · have hsplit : ops ++ [op] = (before ++ op' :: after) ++ [last] := by simpa using hops
          obtain ⟨rfl, -⟩ := List.append_inj' hsplit rfl
          exact .inl ⟨before, op', after, x, rfl, hbefore, hover⟩

end Results

/-- In every run of a caller: an operation has a meaning unless it frees a result that was
neither cleared nor filled, so nothing is freed twice; an output is what was read of that of its
command; and a block is lost exactly when an operation has filled or cleared a result that held an
output.  Outputs are below 2^62 bytes, where the doubling of the buffer is that of numbers. -/
theorem results_safe (ops : List ResultOp) (c : Results)
    (hrun : Runs ResultStep .none ops c) :
    (∀ op : ResultOp, op.Fits →
      ((c.perform op).isSome ↔ ∀ r, op = .free r → c.output r ≠ none)) ∧
    (∀ r p, c.output r = some (some p) →
      ∃ size, c.heap.Holds p size (c.text r ++ [nul])) ∧
    (c.Leaks ↔ ∃ before op after x, ops = before ++ op :: after ∧
      Runs ResultStep .none before x ∧ x.Overwrites op) := by
  have hsound := Results.sound_runs hrun
  exact ⟨fun op hfits => hsound.perform_isSome_iff hfits, hsound.holds,
    Results.leaks_runs_iff hrun⟩

/-- A result that holds an output is cleared with `= {0}`. -/
theorem results_safe_overwritten :
    ∃ c, Runs ResultStep .none [.clear 0, .run 0 true [], .clear 0] c ∧ c.Leaks := by
  obtain ⟨filled, hfill, hheld⟩ : ∃ filled : Results,
      Results.fill { Results.none with output := update Results.none.output 0 (some none) }
        0 true [] = some filled ∧ filled.output 0 = some (some 0) := by
    simp [-List.reduceReplicate, Results.fill, OutputBuffer.startIn, OutputBuffer.finish,
      Heap.malloc, Heap.store, Results.none, Heap.empty]
  have hrun : Runs ResultStep .none [.clear 0, .run 0 true []] filled :=
    .tail (.single ⟨trivial, rfl⟩) ⟨(by decide : 0 < totalLimit), hfill⟩
  have hcleared := Runs.tail hrun (⟨trivial, rfl⟩ : ResultStep filled (.clear 0) _)
  refine ⟨_, hcleared, (results_safe _ _ hcleared).2.2.mpr ?_⟩
  exact ⟨[.clear 0, .run 0 true []], .clear 0, [], filled, rfl, hrun, 0, hheld⟩

end Ftl.Process
