/-
  Foundation/Heap.lean --- blocks of memory that are allocated, resized, written and freed.

  A block is a list of cells, empty until something is stored in them.  A pointer to a
  block that has been freed, and an access beyond the end of a block, have no meaning: the
  operations answer `none`.  `realloc` moves the block whenever it succeeds, so the old
  pointer is never good afterwards.

      Holds h p size data   `p` is a block of `size` cells that begins with `data`
      holds_malloc, holds_calloc, Holds.realloc, Holds.store, Holds.free
                      the operations on such a block
      Adds h₀ p h     since `h₀`, only the block at `p` has been added
      adds_malloc, Adds.realloc, Adds.store, Adds.free   the operations on it
-/
import Mathlib.Logic.Function.Basic

set_option autoImplicit false

namespace Ftl.Foundation

open Function (update update_self update_of_ne)

/-- The blocks of a process. -/
structure Heap (β : Type) where
  /-- the cells of the block at a pointer; `none` if there is no block -/
  block : Nat → Option (List (Option β))
  /-- no pointer from here on has been given out -/
  next : Nat
  /-- how often NULL was returned -/
  failures : Nat

namespace Heap

variable {β : Type}

/-- No blocks. -/
def empty : Heap β where
  block := fun _ => none
  next := 0
  failures := 0

/-- `malloc(size)`; NULL is `none`. -/
def malloc (h : Heap β) (size : Nat) (granted : Bool) : Option Nat × Heap β :=
  if granted then
    (some h.next,
      { h with block := update h.block h.next (some (List.replicate size none))
               next := h.next + 1 })
  else (none, { h with failures := h.failures + 1 })

/-- `calloc(size, 1)`, for cells that are zero when they hold `zero`. -/
def calloc (h : Heap β) (zero : β) (size : Nat) (granted : Bool) : Option Nat × Heap β :=
  if granted then
    (some h.next,
      { h with block := update h.block h.next (some (List.replicate size (some zero)))
               next := h.next + 1 })
  else (none, { h with failures := h.failures + 1 })

/-- The cells after a change of the size. -/
def resize (cells : List (Option β)) (size : Nat) : List (Option β) :=
  cells.take size ++ List.replicate (size - cells.length) none

/-- `realloc(p, size)`. -/
def realloc (h : Heap β) (p size : Nat) (granted : Bool) : Option (Option Nat × Heap β) :=
  (h.block p).map fun cells =>
    if granted then
      (some h.next,
        { h with block := update (update h.block p none) h.next (some (resize cells size))
                 next := h.next + 1 })
    else (none, { h with failures := h.failures + 1 })

/-- `free(p)`. -/
def free (h : Heap β) (p : Nat) : Option (Heap β) :=
  (h.block p).map fun _ => { h with block := update h.block p none }

/-- The cells after `data` has been written from `offset` on. -/
def splice (cells : List (Option β)) (offset : Nat) (data : List β) : List (Option β) :=
  cells.take offset ++ data.map some ++ cells.drop (offset + data.length)

/-- Write `data` to `p + offset`. -/
def store (h : Heap β) (p offset : Nat) (data : List β) : Option (Heap β) :=
  (h.block p).bind fun cells =>
    if offset + data.length ≤ cells.length then
      some { h with block := update h.block p (some (splice cells offset data)) }
    else none

/-- `p` points to `size` cells, the first of which hold `data`. -/
def Holds (h : Heap β) (p size : Nat) (data : List β) : Prop :=
  ∃ cells, h.block p = some cells ∧ cells.length = size ∧
    cells.take data.length = data.map some

/-! ## Cells -/

theorem length_resize (cells : List (Option β)) (size : Nat) :
    (resize cells size).length = size := by
  unfold resize
  rw [List.length_append, List.length_take, List.length_replicate]
  omega

theorem take_resize {cells : List (Option β)} {size n : Nat} (hold : n ≤ cells.length)
    (hnew : n ≤ size) : (resize cells size).take n = cells.take n := by
  unfold resize
  rw [List.take_append_of_le_length, List.take_take, Nat.min_eq_left hnew]
  rw [List.length_take]
  omega

theorem length_splice {cells : List (Option β)} {offset : Nat} {data : List β}
    (hin : offset + data.length ≤ cells.length) :
    (splice cells offset data).length = cells.length := by
  unfold splice
  simp only [List.length_append, List.length_take, List.length_map, List.length_drop]
  omega

theorem take_splice {cells : List (Option β)} {offset : Nat} {data : List β}
    (hin : offset + data.length ≤ cells.length) :
    (splice cells offset data).take (offset + data.length) =
      cells.take offset ++ data.map some := by
  unfold splice
  rw [List.take_append_of_le_length, List.take_of_length_le]
  · simp only [List.length_append, List.length_take, List.length_map]
    omega
  · simp only [List.length_append, List.length_take, List.length_map]
    omega

/-! ## Blocks -/

variable {h : Heap β} {p size : Nat} {data : List β}

theorem Holds.length_le (hp : h.Holds p size data) : data.length ≤ size := by
  obtain ⟨cells, -, hsize, hdata⟩ := hp
  have hlength := congrArg List.length hdata
  rw [List.length_take, List.length_map] at hlength
  omega

theorem holds_malloc (h : Heap β) (size : Nat) :
    (h.malloc size true).1 = some h.next ∧ (h.malloc size true).2.Holds h.next size [] ∧
      (h.malloc size true).2.failures = h.failures := by
  refine ⟨rfl, ⟨List.replicate size none, ?_, List.length_replicate, rfl⟩, rfl⟩
  exact Function.update_self h.next _ _

theorem holds_calloc (h : Heap β) (zero : β) (size : Nat) :
    (h.calloc zero size true).2.Holds h.next size [] :=
  ⟨List.replicate size (some zero), Function.update_self h.next _ _, List.length_replicate, rfl⟩

/-- A block that holds as much as it has cells has these cells. -/
theorem Holds.full (hp : h.Holds p data.length data) : h.block p = some (data.map some) := by
  obtain ⟨cells, hblock, hsize, hdata⟩ := hp
  rw [List.take_of_length_le (Nat.le_of_eq hsize)] at hdata
  rw [hblock, hdata]

theorem block_store {h' : Heap β} {offset : Nat} (hstore : h.store p offset data = some h')
    {q : Nat} (hq : q ≠ p) : h'.block q = h.block q := by
  obtain ⟨cells, -, hcells⟩ := Option.bind_eq_some_iff.mp hstore
  split at hcells
  · cases hcells
    exact Function.update_of_ne hq _ _
  · cases hcells

theorem Holds.realloc (hp : h.Holds p size data) {size' : Nat} (hle : data.length ≤ size') :
    ∃ h', h.realloc p size' true = some (some h.next, h') ∧ h'.Holds h.next size' data ∧
      h'.failures = h.failures := by
  have hfits := hp.length_le
  obtain ⟨cells, hblock, hsize, hdata⟩ := hp
  let moved : Heap β :=
    { h with block := update (update h.block p none) h.next (some (resize cells size'))
             next := h.next + 1 }
  refine ⟨moved, ?_, ⟨resize cells size', ?_, length_resize cells size', ?_⟩, rfl⟩
  · simp [Heap.realloc, hblock, moved]
  · exact Function.update_self h.next _ _
  · rw [take_resize (by omega) hle]
    exact hdata

theorem Holds.realloc_null (hp : h.Holds p size data) (size' : Nat) :
    ∃ h', h.realloc p size' false = some (none, h') ∧ h'.Holds p size data ∧
      h'.failures = h.failures + 1 := by
  obtain ⟨cells, hblock, hcells⟩ := hp
  exact ⟨{ h with failures := h.failures + 1 }, by simp [Heap.realloc, hblock],
    ⟨cells, hblock, hcells⟩, rfl⟩

/-- Data can be added behind `data` as long as there are cells. -/
theorem Holds.store (hp : h.Holds p size data) {more : List β}
    (hroom : data.length + more.length ≤ size) :
    ∃ h', h.store p data.length more = some h' ∧ h'.Holds p size (data ++ more) ∧
      h'.failures = h.failures := by
  obtain ⟨cells, hblock, hsize, hdata⟩ := hp
  have hin : data.length + more.length ≤ cells.length := by omega
  let written : Heap β :=
    { h with block := update h.block p (some (splice cells data.length more)) }
  refine ⟨written, ?_, ⟨splice cells data.length more, ?_, ?_, ?_⟩, rfl⟩
  · simp [Heap.store, hblock, hin, written]
  · exact Function.update_self p _ _
  · rw [length_splice hin, hsize]
  · rw [List.length_append, take_splice hin, hdata, List.map_append]

theorem Holds.free (hp : h.Holds p size data) :
    ∃ h', h.free p = some h' ∧ h'.block p = none ∧ h'.failures = h.failures := by
  obtain ⟨cells, hblock, -⟩ := hp
  refine ⟨{ h with block := update h.block p none }, by simp [Heap.free, hblock], ?_, rfl⟩
  exact Function.update_self p _ _

/-! ## What a piece of code adds to the heap -/

/-- No block lies behind the pointers that have been given out. -/
def Tight (h : Heap β) : Prop := ∀ q, h.next ≤ q → h.block q = none

/-- Since `h₀`, the blocks that were there are as they were, and of the new ones only the one at
`p` is there. -/
structure Adds (h₀ : Heap β) (p : Option Nat) (h : Heap β) : Prop where
  old : ∀ q, q < h₀.next → h.block q = h₀.block q
  new : ∀ q, h₀.next ≤ q → (h.block q ≠ none ↔ p = some q)
  fresh : ∀ q, p = some q → h₀.next ≤ q
  later : h₀.next ≤ h.next
  tight : h.Tight

variable {h₀ h' : Heap β}

theorem Adds.refl (htight : h₀.Tight) : h₀.Adds none h₀ where
  old := fun _ _ => rfl
  new := fun q hq => iff_of_false (fun hsome => hsome (htight q hq)) nofun
  fresh := nofun
  later := Nat.le_refl _
  tight := htight

theorem adds_malloc (htight : h₀.Tight) (size : Nat) (granted : Bool) :
    h₀.Adds (h₀.malloc size granted).1 (h₀.malloc size granted).2 := by
  cases granted with
  | false =>
      refine ⟨fun q _ => rfl, fun q hq => ?_, nofun, Nat.le_refl _, htight⟩
      have hnone : h₀.block q = none := htight q hq
      simp [malloc, hnone]
  | true =>
      refine ⟨fun q hq => update_of_ne (Nat.ne_of_lt hq) _ _, fun q hq => ?_, fun q hq => ?_,
        Nat.le_succ _, fun q hq => ?_⟩
      · change update h₀.block h₀.next _ q ≠ none ↔ some h₀.next = some q
        by_cases hsame : q = h₀.next
        · simp [hsame]
        · rw [update_of_ne hsame, htight q hq]
          simp [Ne.symm hsame]
      · cases hq
        exact Nat.le_refl _
      · exact (update_of_ne (Nat.ne_of_gt hq) _ _).trans (htight q (Nat.le_of_succ_le hq))

theorem Adds.of_block {r : Option Nat} (h₁ : h₀.Adds (some p) h)
    (hother : ∀ q, q ≠ p → q < h.next → h'.block q = h.block q)
    (hkept : h'.block p ≠ none ↔ r = some p)
    (hnew : ∀ q, h.next ≤ q → (h'.block q ≠ none ↔ r = some q))
    (hfresh : ∀ q, r = some q → q = p ∨ h.next ≤ q) (hnext : h.next ≤ h'.next)
    (htight : h'.Tight) : h₀.Adds r h' := by
  have hp := h₁.fresh p rfl
  refine ⟨fun q hq => ?_, fun q hq => ?_, fun q hq => ?_, Nat.le_trans h₁.later hnext, htight⟩
  · rw [hother q (Nat.ne_of_lt (Nat.lt_of_lt_of_le hq hp)) (Nat.lt_of_lt_of_le hq h₁.later)]
    exact h₁.old q hq
  · rcases Nat.lt_or_ge q h.next with hin | hbeyond
    · by_cases hsame : q = p
      · rw [hsame]
        exact hkept
      · rw [hother q hsame hin, h₁.new q hq]
        refine iff_of_false (fun hpq => hsame (Option.some.inj hpq).symm) fun hr => ?_
        rcases hfresh q hr with hqp | hlater
        · exact hsame hqp
        · exact Nat.lt_irrefl _ (Nat.lt_of_lt_of_le hin hlater)
    · exact hnew q hbeyond
  · rcases hfresh q hq with rfl | hlater
    · exact hp
    · exact Nat.le_trans h₁.later hlater

theorem Adds.lt_next (h₁ : h₀.Adds (some p) h) : p < h.next := by
  by_contra hbeyond
  exact (h₁.new p (h₁.fresh p rfl)).mpr rfl (h₁.tight p (Nat.le_of_not_lt hbeyond))

/-- Where no new block comes, one block is changed to `cells`. -/
theorem Adds.of_update {cells : Option (List (Option β))} {failures : Nat}
    (h₁ : h₀.Adds (some p) h) :
    h₀.Adds (cells.map fun _ => p)
      { h with block := update h.block p cells, failures := failures } := by
  have hlt := h₁.lt_next
  have hbeyond : ∀ q, h.next ≤ q → update h.block p cells q = none := by
    intro q hq
    rw [update_of_ne (Nat.ne_of_gt (Nat.lt_of_lt_of_le hlt hq))]
    exact h₁.tight q hq
  refine h₁.of_block (fun q hq _ => update_of_ne hq _ _) ?_ (fun q hq => ?_) (fun q hq => ?_)
    (Nat.le_refl _) hbeyond
  · cases cells with
    | none => simp
    | some cells => simp
  · refine iff_of_false (fun hsome => hsome (hbeyond q hq)) fun hsame => ?_
    obtain ⟨-, -, rfl⟩ := Option.map_eq_some_iff.mp hsame
    exact Nat.lt_irrefl _ (Nat.lt_of_lt_of_le hlt hq)
  · obtain ⟨-, -, rfl⟩ := Option.map_eq_some_iff.mp hq
    exact .inl rfl

theorem Adds.store (h₁ : h₀.Adds (some p) h) {offset : Nat}
    (hstore : h.store p offset data = some h') : h₀.Adds (some p) h' := by
  obtain ⟨cells, -, hcells⟩ := Option.bind_eq_some_iff.mp hstore
  split at hcells
  · cases hcells
    exact @Adds.of_update _ _ _ _ (some _) _ h₁
  · cases hcells

theorem Adds.free (h₁ : h₀.Adds (some p) h) (hfree : h.free p = some h') : h₀.Adds none h' := by
  obtain ⟨cells, -, rfl⟩ := Option.map_eq_some_iff.mp hfree
  exact @Adds.of_update _ _ _ _ none _ h₁

/-- A block that is resized moves, or stays where it is. -/
theorem Adds.realloc (h₁ : h₀.Adds (some p) h) {granted : Bool} {r : Option Nat}
    (hrealloc : h.realloc p size granted = some (r, h')) :
    h₀.Adds (if granted then r else some p) h' := by
  obtain ⟨cells, -, hcells⟩ := Option.map_eq_some_iff.mp hrealloc
  cases granted with
  | false =>
      cases hcells
      exact ⟨h₁.old, h₁.new, h₁.fresh, h₁.later, h₁.tight⟩
  | true =>
      cases hcells
      have hlt := h₁.lt_next
      have hmoved : ∀ q, q ≠ h.next →
          update (update h.block p none) h.next (some (resize cells size)) q =
            update h.block p none q := fun q hq => update_of_ne hq _ _
      refine h₁.of_block (fun q hq hin => ?_) ?_ (fun q hq => ?_) (fun q hq => ?_)
        (Nat.le_succ _) fun q hq => ?_
      · exact (hmoved q (Nat.ne_of_lt hin)).trans (update_of_ne hq _ _)
      · refine iff_of_false (fun hsome => hsome ?_) fun hsame => ?_
        · exact (hmoved p (Nat.ne_of_lt hlt)).trans (update_self ..)
        · exact Nat.ne_of_lt hlt (Option.some.inj hsame).symm
      · change update (update h.block p none) h.next _ q ≠ none ↔ some h.next = some q
        by_cases hsame : q = h.next
        · simp [hsame]
        · rw [hmoved q hsame, update_of_ne (Nat.ne_of_gt (Nat.lt_of_lt_of_le hlt hq)),
            h₁.tight q hq]
          simp [Ne.symm hsame]
      · exact .inr (Nat.le_of_eq (Option.some.inj hq))
      · have hbeyond : h.next < q := hq
        refine (hmoved q (Nat.ne_of_gt hbeyond)).trans ?_
        rw [update_of_ne (Nat.ne_of_gt (Nat.lt_trans hlt hbeyond))]
        exact h₁.tight q (Nat.le_of_lt hbeyond)

end Heap

end Ftl.Foundation
