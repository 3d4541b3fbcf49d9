/-
  Process/OutputBuffer.lean --- the output buffer of `ftl_run_command` in memory.

  Embedded source: from `size_t capacity = 4096` to `result->output = buffer` in ftl/ftl.h,
  with `size_t` arithmetic, pointers and blocks.  A step that has no meaning (an access
  outside of a block or through a pointer that was freed, or a doubling that does not end)
  is `none`.

      backed_of_runs        the buffer of `Process/RunCommand` is this one, in every run
      output_buffer_grows   no such step is made, the buffer holds what was read, and once
                            an allocation fails it is NULL to the end
-/
import Ftl.Foundation.Heap
import Ftl.Io.PartialWrites
import Ftl.Process.CTiming

set_option autoImplicit false

namespace Ftl.Process

open Foundation (Heap Runs)
open Io (sizeRange sizeAdd sizeAdd_of_lt)

/-! ## The code -/

/-- The `size_t` product of two `size_t`. -/
def sizeMul (a b : Nat) : Nat := a * b % sizeRange

/-- The locals of the loop that the buffer is about, and the heap. -/
structure OutputBuffer where
  capacity : Nat
  length : Nat
  buffer : Option Nat
  heap : Heap UInt8

/-- What one successful `read` returns. -/
structure Chunk where
  bytes : Bytes
  pos : 1 ≤ bytes.length
  le : bytes.length ≤ 4096

/-- One turn of the loop that does not leave it: a chunk, with the answer to a `realloc`
if there is one, or a `read` that is interrupted. -/
inductive Turned where
  | chunk (c : Chunk) (granted : Bool)
  | eintr

/-- `while (length + got + 1 > next) next *= 2;`, at most `fuel` tests of it. -/
def doubling : Nat → Nat → Nat → Option Nat
  | 0, _, _ => none
  | fuel + 1, needed, next =>
      if needed > next then doubling fuel needed (sizeMul next 2) else some next

namespace OutputBuffer

/-- `malloc(capacity)`. -/
def start (granted : Bool) : OutputBuffer where
  capacity := 4096
  length := 0
  buffer := ((Heap.empty : Heap UInt8).malloc 4096 granted).1
  heap := (Heap.empty.malloc 4096 granted).2

/-- `length + got + 1`. -/
def needed (b : OutputBuffer) (got : Nat) : Nat := sizeAdd (sizeAdd b.length got) 1

/-- `next` after the inner loop; 64 doublings of a `size_t` end it or lead to 0. -/
def grownCapacity (b : OutputBuffer) (got : Nat) : Option Nat :=
  doubling 65 (b.needed got) (sizeMul b.capacity 2)

/-- `memcpy(buffer + length, chunk, got); length += got;` -/
def memcpy (b : OutputBuffer) (p : Nat) (chunk : Bytes) : Option OutputBuffer := do
  let heap ← b.heap.store p b.length chunk
  return { b with heap := heap, length := sizeAdd b.length chunk.length }

/-- What is done with a chunk. -/
def append (b : OutputBuffer) (chunk : Bytes) (granted : Bool) : Option OutputBuffer :=
  match b.buffer with
  | none => some b
  | some p =>
      if b.needed chunk.length > b.capacity then do
        let next ← b.grownCapacity chunk.length
        match ← b.heap.realloc p next granted with
        | (none, heap) => do
            let heap ← heap.free p
            return { b with heap := heap, buffer := none }
        | (some grown, heap) =>
            memcpy { b with heap := heap, buffer := some grown, capacity := next } grown chunk
      else b.memcpy p chunk

/-- One turn of the loop. -/
def turn (b : OutputBuffer) : Turned → Option OutputBuffer
  | .chunk c granted => b.append c.bytes granted
  | .eintr => some b

/-- The loop, up to the end of the output. -/
def collect (granted : Bool) (turns : List Turned) : Option OutputBuffer :=
  turns.foldlM turn (start granted)

/-- `if (buffer) buffer[length] = 0; result->output = buffer;` -/
def finish (b : OutputBuffer) : Option (Option Nat × Heap UInt8) :=
  match b.buffer with
  | none => some (none, b.heap)
  | some p => do
      let heap ← b.heap.store p b.length [nul]
      return (some p, heap)

end OutputBuffer

/-- What has been read. -/
def bytesOf : List Turned → Bytes
  | [] => []
  | .chunk c _ :: turns => c.bytes ++ bytesOf turns
  | .eintr :: turns => bytesOf turns

theorem bytesOf_append (turns more : List Turned) :
    bytesOf (turns ++ more) = bytesOf turns ++ bytesOf more := by
  induction turns with
  | nil => rfl
  | cons t turns ih =>
      cases t with
      | chunk c granted => simp [bytesOf, ih]
      | eintr => exact ih

/-! ## Growing -/

/-- The largest total for which the doublings stay below `SIZE_MAX`. -/
def totalLimit : Nat := 4611686018427387904

theorem sizeMul_of_lt {a b : Nat} (h : a * b < sizeRange) : sizeMul a b = a * b :=
  Nat.mod_eq_of_lt h

/-- The inner loop ends, with a capacity that suffices and is not much too large. -/
theorem doubling_spec {fuel needed next : Nat} (hneeded : needed ≤ totalLimit)
    (hpos : 0 < next) (hfuel : needed ≤ next * Nat.pow 2 fuel) :
    ∃ r, doubling (fuel + 1) needed next = some r ∧ needed ≤ r ∧
      (r = next ∨ r < 2 * needed) ∧ r = CCommand.doubleUntil needed next := by
  induction fuel generalizing next with
  | zero =>
      have hle : needed ≤ next := hfuel.trans_eq (Nat.mul_one next)
      refine ⟨next, ?_, hle, .inl rfl, ?_⟩
      · rw [doubling, if_neg (by omega)]
      · rw [CCommand.doubleUntil, if_pos (.inl hle)]
  | succ fuel ih =>
      rw [doubling, CCommand.doubleUntil]
      by_cases hle : needed ≤ next
      · rw [if_neg (by omega), if_pos (.inl hle)]
        exact ⟨next, rfl, hle, .inl rfl, rfl⟩
      · rw [if_pos (by omega), if_neg (by omega)]
        have hdouble : sizeMul next 2 = next * 2 := by
          refine sizeMul_of_lt ?_
          unfold totalLimit at hneeded
          unfold sizeRange
          omega
        have hfuel' : needed ≤ next * 2 * Nat.pow 2 fuel := by
          have hpow : Nat.pow 2 (fuel + 1) = 2 * Nat.pow 2 fuel := Nat.mul_comm _ 2
          rw [Nat.mul_assoc, ← hpow]
          exact hfuel
        obtain ⟨r, hr, hsuffices, hbound, hsame⟩ := ih (by omega) hfuel'
        rw [hdouble]
        refine ⟨r, hr, hsuffices, .inr ?_, hsame⟩
        rcases hbound with rfl | hlt
        · omega
        · exact hlt

/-- After the turns, the buffer holds what was read, or is NULL because an allocation
failed. -/
structure Buffered (b : OutputBuffer) (data : Bytes) : Prop where
  null : b.buffer = none ↔ 0 < b.heap.failures
  holds : ∀ p, b.buffer = some p → b.heap.Holds p b.capacity data ∧
    b.length = data.length ∧ data.length + 1 ≤ b.capacity ∧ b.capacity ≤ 2 * totalLimit

theorem buffered_start (granted : Bool) : Buffered (OutputBuffer.start granted) [] := by
  cases granted with
  | false =>
      refine ⟨iff_of_true rfl (Nat.lt_succ_self 0), ?_⟩
      intro p hp
      cases hp
  | true =>
      obtain ⟨hpointer, hholds, hfailures⟩ := Heap.holds_malloc (Heap.empty : Heap UInt8) 4096
      refine ⟨iff_of_false (by simp [OutputBuffer.start, hpointer]) ?_, ?_⟩
      · exact Nat.lt_irrefl 0
      · intro p hp
        cases hpointer.symm.trans hp
        exact ⟨hholds, rfl, by decide, by decide⟩

section Append

variable {b : OutputBuffer} {data : Bytes} {p : Nat}

theorem memcpy_spec (chunk : Bytes) (hholds : b.heap.Holds p b.capacity data)
    (hlength : b.length = data.length) (hfits : data.length + chunk.length + 1 ≤ b.capacity)
    (hcapacity : b.capacity ≤ 2 * totalLimit) :
    ∃ b', b.memcpy p chunk = some b' ∧ b'.buffer = b.buffer ∧ b'.capacity = b.capacity ∧
      b'.heap.Holds p b.capacity (data ++ chunk) ∧ b'.length = (data ++ chunk).length ∧
      b'.heap.failures = b.heap.failures := by
  obtain ⟨heap, hstore, hholds', hfailures⟩ := hholds.store (by omega : _ + chunk.length ≤ _)
  have hsum : sizeAdd data.length chunk.length = data.length + chunk.length := by
    refine sizeAdd_of_lt ?_
    unfold totalLimit at hcapacity
    unfold sizeRange
    omega
  refine ⟨{ b with heap := heap, length := data.length + chunk.length }, ?_, rfl, rfl, hholds',
    by simp, hfailures⟩
  simp [OutputBuffer.memcpy, hlength, hstore, hsum]

variable {chunk : Bytes}

theorem needed_eq (hlength : b.length = data.length)
    (htotal : (data ++ chunk).length < totalLimit) :
    b.needed chunk.length = data.length + chunk.length + 1 := by
  rw [List.length_append] at htotal
  unfold totalLimit at htotal
  have hsum : sizeAdd data.length chunk.length = data.length + chunk.length := by
    refine sizeAdd_of_lt ?_
    unfold sizeRange
    omega
  unfold OutputBuffer.needed
  rw [hlength, hsum]
  refine sizeAdd_of_lt ?_
  unfold sizeRange
  omega

theorem grownCapacity_spec (hlength : b.length = data.length)
    (htotal : (data ++ chunk).length < totalLimit) (hpos : 0 < b.capacity)
    (hgrows : b.needed chunk.length > b.capacity) :
    ∃ next, b.grownCapacity chunk.length = some next ∧
      data.length + chunk.length + 1 ≤ next ∧ next ≤ 2 * totalLimit ∧
      next = CCommand.doubleUntil (data.length + chunk.length + 1) (b.capacity * 2) := by
  have hneeded := needed_eq hlength htotal
  rw [hneeded] at hgrows
  rw [List.length_append] at htotal
  have hdouble : sizeMul b.capacity 2 = b.capacity * 2 := by
    refine sizeMul_of_lt ?_
    unfold totalLimit at htotal
    unfold sizeRange
    omega
  have hfuel : data.length + chunk.length + 1 ≤ b.capacity * 2 * Nat.pow 2 64 := by
    have hpow : Nat.pow 2 64 = sizeRange := by decide
    rw [hpow]
    unfold totalLimit at htotal
    unfold sizeRange
    omega
  obtain ⟨next, hnext, hsuffices, hbound, hsame⟩ :=
    doubling_spec (Nat.succ_le_of_lt htotal) (by omega) hfuel
  refine ⟨next, ?_, hsuffices, ?_, hsame⟩
  · unfold OutputBuffer.grownCapacity
    rw [hneeded, hdouble]
    exact hnext
  · omega

/-- What `append` does with a chunk, by what becomes of the buffer. -/
inductive Appended (b : OutputBuffer) (data chunk : Bytes) (granted : Bool)
    (b' : OutputBuffer) : Prop
  /-- there is no buffer -/
  | dropped (hnull : b.buffer = none) (hsame : b' = b)
  /-- the chunk fits -/
  | stored (p : Nat) (hbuffer : b.buffer = some p) (hbuffer' : b'.buffer = some p)
      (hfits : data.length + chunk.length + 1 ≤ b.capacity)
      (hcapacity : b'.capacity = b.capacity)
      (hholds : b'.heap.Holds p b'.capacity (data ++ chunk))
      (hlength : b'.length = (data ++ chunk).length)
      (hcount : b'.heap.failures = b.heap.failures)
  /-- the buffer is grown first -/
  | grown (p q : Nat) (hgranted : granted = true) (hbuffer : b.buffer = some p)
      (hbuffer' : b'.buffer = some q)
      (hgrows : b.capacity < data.length + chunk.length + 1)
      (hcapacity : b'.capacity =
        CCommand.doubleUntil (data.length + chunk.length + 1) (b.capacity * 2))
      (hsuffices : data.length + chunk.length + 1 ≤ b'.capacity)
      (hlimit : b'.capacity ≤ 2 * totalLimit)
      (hholds : b'.heap.Holds q b'.capacity (data ++ chunk))
      (hlength : b'.length = (data ++ chunk).length)
      (hcount : b'.heap.failures = b.heap.failures)
  /-- the buffer cannot be grown and is freed -/
  | lost (p : Nat) (hgranted : granted = false) (hbuffer : b.buffer = some p)
      (hbuffer' : b'.buffer = none)
      (hgrows : b.capacity < data.length + chunk.length + 1)
      (hcapacity : b'.capacity = b.capacity) (hlength : b'.length = b.length)
      (hcount : b'.heap.failures = b.heap.failures + 1)

theorem appended_append (h : Buffered b data) (granted : Bool)
    (htotal : (data ++ chunk).length < totalLimit) (hpos : 0 < b.capacity) :
    ∃ b', b.append chunk granted = some b' ∧ Appended b data chunk granted b' := by
  cases hbuffer : b.buffer with
  | none => exact ⟨b, by simp [OutputBuffer.append, hbuffer], .dropped hbuffer rfl⟩
  | some p =>
      obtain ⟨hholds, hlength, hroom, hcapacity⟩ := h.holds p hbuffer
      have hneeded := needed_eq hlength htotal
      by_cases hgrows : b.needed chunk.length > b.capacity
      · obtain ⟨next, hnext, hsuffices, hlimit, hdoubled⟩ :=
          grownCapacity_spec hlength htotal hpos hgrows
        have hlarger : b.capacity < data.length + chunk.length + 1 := by omega
        cases granted with
        | false =>
            obtain ⟨heap, hrealloc, hstill, hcount⟩ := hholds.realloc_null next
            obtain ⟨heap', hfree, -, hcount'⟩ := hstill.free
            refine ⟨{ b with heap := heap', buffer := none }, ?_, ?_⟩
            · simp [OutputBuffer.append, hbuffer, hgrows, hnext, hrealloc, hfree]
            · exact .lost p rfl hbuffer rfl hlarger rfl rfl (hcount'.trans hcount)
        | true =>
            have hkept : data.length ≤ next := by omega
            obtain ⟨heap, hrealloc, hnew, hcount⟩ := hholds.realloc hkept
            let grown : OutputBuffer :=
              { b with heap := heap, buffer := some b.heap.next, capacity := next }
            obtain ⟨b', hcopy, hsame, hsize, hholds', hlength', hcount'⟩ :=
              memcpy_spec (b := grown) chunk hnew hlength hsuffices hlimit
            have hsize' : b'.capacity = next := hsize
            rw [← hsize'] at hsuffices hlimit hdoubled
            refine ⟨b', ?_, ?_⟩
            · simpa [OutputBuffer.append, hbuffer, hgrows, hnext, hrealloc] using hcopy
            · rw [← hsize] at hholds'
              exact .grown p b.heap.next rfl hbuffer hsame hlarger hdoubled hsuffices hlimit
                hholds' hlength' (hcount'.trans hcount)
      · have hfits : data.length + chunk.length + 1 ≤ b.capacity := by omega
        obtain ⟨b', hcopy, hsame, hsize, hholds', hlength', hcount⟩ :=
          memcpy_spec chunk hholds hlength hfits hcapacity
        refine ⟨b', by simp [OutputBuffer.append, hbuffer, hgrows, hcopy], ?_⟩
        rw [← hsize] at hholds'
        exact .stored p hbuffer (hsame.trans hbuffer) hfits hsize hholds' hlength' hcount

theorem buffered_of_appended {b' : OutputBuffer} {granted : Bool} (h : Buffered b data)
    (happended : Appended b data chunk granted b') : Buffered b' (data ++ chunk) := by
  cases happended with
  | dropped hnull hsame =>
      rw [hsame]
      refine ⟨h.null, ?_⟩
      intro p hp
      rw [hnull] at hp
      cases hp
  | stored p hbuffer hbuffer' hfits hcapacity hholds hlength hcount =>
      obtain ⟨-, -, -, hlimit⟩ := h.holds p hbuffer
      refine ⟨?_, ?_⟩
      · rw [hcount, ← h.null, hbuffer, hbuffer']
      · intro q hq
        cases hbuffer'.symm.trans hq
        refine ⟨hholds, hlength, ?_, hcapacity ▸ hlimit⟩
        rw [List.length_append, hcapacity]
        exact hfits
  | grown p q _ hbuffer hbuffer' _ _ hsuffices hlimit hholds hlength hcount =>
      refine ⟨?_, ?_⟩
      · rw [hcount, ← h.null, hbuffer, hbuffer']
        simp
      · intro q' hq
        cases hbuffer'.symm.trans hq
        refine ⟨hholds, hlength, ?_, hlimit⟩
        rw [List.length_append]
        exact hsuffices
  | lost p _ hbuffer hbuffer' _ _ _ hcount =>
      refine ⟨iff_of_true hbuffer' ?_, ?_⟩
      · rw [hcount]
        exact Nat.succ_pos _
      · intro q hq
        rw [hbuffer'] at hq
        cases hq

theorem capacity_pos_of_appended {b' : OutputBuffer} {granted : Bool} (hpos : 0 < b.capacity)
    (happended : Appended b data chunk granted b') : 0 < b'.capacity := by
  cases happended with
  | dropped _ hsame => rwa [hsame]
  | stored _ _ _ _ hcapacity => rwa [hcapacity]
  | grown _ _ _ _ _ _ _ hsuffices => exact Nat.lt_of_lt_of_le (Nat.succ_pos _) hsuffices
  | lost _ _ _ _ _ hcapacity => rwa [hcapacity]

end Append

/-! ## The loop -/

/-- The turns end with a buffer, if all that is read is less than 2^62 bytes. -/
theorem buffered_turns {b : OutputBuffer} {data : Bytes} (h : Buffered b data)
    (hpos : 0 < b.capacity) (turns : List Turned)
    (htotal : (data ++ bytesOf turns).length < totalLimit) :
    ∃ b', turns.foldlM OutputBuffer.turn b = some b' ∧ Buffered b' (data ++ bytesOf turns) ∧
      0 < b'.capacity := by
  induction turns generalizing b data with
  | nil =>
      refine ⟨b, rfl, ?_, hpos⟩
      rw [bytesOf, List.append_nil]
      exact h
  | cons t turns ih =>
      cases t with
      | eintr => exact ih h hpos htotal
      | chunk c granted =>
          rw [bytesOf, ← List.append_assoc] at htotal ⊢
          have hfirst : (data ++ c.bytes).length < totalLimit := by
            rw [List.length_append] at htotal
            omega
          obtain ⟨b', happend, happended⟩ := appended_append h granted hfirst hpos
          obtain ⟨b'', hturns, hb'', hpos''⟩ := ih (buffered_of_appended h happended)
            (capacity_pos_of_appended hpos happended) htotal
          refine ⟨b'', ?_, hb'', hpos''⟩
          rw [List.foldlM_cons]
          simp only [OutputBuffer.turn, happend]
          exact hturns

theorem turns_of_null {b : OutputBuffer} (hnull : b.buffer = none) (turns : List Turned) :
    turns.foldlM OutputBuffer.turn b = some b := by
  induction turns with
  | nil => rfl
  | cons t turns ih =>
      have hturn : b.turn t = some b := by
        cases t with
        | chunk c granted => simp [OutputBuffer.turn, OutputBuffer.append, hnull]
        | eintr => rfl
      rw [List.foldlM_cons, hturn]
      exact ih

theorem finish_spec {b : OutputBuffer} {data : Bytes} (h : Buffered b data) :
    ∃ heap, b.finish = some (b.buffer, heap) ∧
      ∀ p, b.buffer = some p → heap.Holds p b.capacity (data ++ [nul]) := by
  cases hbuffer : b.buffer with
  | none => exact ⟨b.heap, by simp [OutputBuffer.finish, hbuffer], nofun⟩
  | some p =>
      obtain ⟨hholds, hlength, hroom, -⟩ := h.holds p hbuffer
      obtain ⟨heap, hstore, hholds', -⟩ :=
        hholds.store (by simpa using hroom : data.length + [nul].length ≤ b.capacity)
      refine ⟨heap, by simp [OutputBuffer.finish, hbuffer, hlength, hstore], ?_⟩
      intro q hq
      cases hq
      exact hholds'

/-! ## In the machine -/

/-- The locals of the machine say the same as those in memory. -/
structure Refines (b : OutputBuffer) (c : CCollect) (data : Bytes) : Prop where
  capacity : c.capacity = b.capacity
  length : c.length = b.length
  buffer : c.buffer = b.buffer.map fun _ => data

/-- A chunk that is stored, in memory and in the machine. -/
theorem refines_store {b' : OutputBuffer} {c : CCollect} {data chunk : Bytes} {p : Nat}
    (hcapacity : c.capacity = b'.capacity) (hlength : c.length = data.length)
    (hbuffer : c.buffer = some data) (hp : b'.buffer = some p)
    (hlength' : b'.length = (data ++ chunk).length) :
    Refines b' (CCommand.store c chunk) (data ++ chunk) where
  capacity := hcapacity
  length := by
    simp only [CCommand.store]
    rw [hlength', List.length_append, hlength]
  buffer := by simp [CCommand.store, hbuffer, hp]

/-- Whatever becomes of a chunk, the machine goes on to the head of the loop, with locals
that say what is in memory. -/
theorem append_refines (cmd : CCommand) {b b' : OutputBuffer} {c : CCollect}
    {data chunk : Bytes} {granted : Bool} (hrefines : Refines b c data) (h : Buffered b data)
    (happended : Appended b data chunk granted b') :
    ∃ c', Refines b' c' (data ++ chunk) ∧
      (cmd.keepChunk c chunk = cmd.loopHead c' ∨
        ∃ next, cmd.keepChunk c chunk = .growing c chunk next ∧
          cmd.advance (.growing c chunk next) (.memory granted) = some (cmd.loopHead c')) := by
  obtain ⟨hcapacity, hlength, hbuffer⟩ := hrefines
  cases happended with
  | dropped hnull hsame =>
      rw [hnull] at hbuffer
      refine ⟨c, ⟨hsame ▸ hcapacity, hsame ▸ hlength, ?_⟩, .inl ?_⟩
      · rw [hsame, hnull]
        exact hbuffer
      · simp [CCommand.keepChunk, hbuffer]
  | stored p hp hp' hfits hsize _ hlength' _ =>
      have hdata : b.length = data.length := (h.holds p hp).2.1
      rw [hp] at hbuffer
      have hroom : ¬ c.length + chunk.length + 1 > c.capacity := by omega
      refine ⟨CCommand.store c chunk, refines_store (hcapacity.trans hsize.symm)
        (hlength.trans hdata) hbuffer hp' hlength', .inl ?_⟩
      simp [CCommand.keepChunk, hbuffer, hroom]
  | grown p q hgranted hp hq hgrows hsize _ _ _ hlength' _ =>
      have hdata : b.length = data.length := (h.holds p hp).2.1
      rw [hp] at hbuffer
      have hroom : c.length + chunk.length + 1 > c.capacity := by omega
      refine ⟨CCommand.store { c with capacity := b'.capacity } chunk,
        refines_store rfl (hlength.trans hdata) hbuffer hq hlength',
        .inr ⟨b'.capacity, ?_, ?_⟩⟩
      · rw [hsize, ← hcapacity, ← hdata, ← hlength]
        simp [CCommand.keepChunk, hbuffer, hroom]
      · rw [hgranted]
        rfl
  | lost p hgranted hp hp' hgrows hsize hlength' _ =>
      have hdata : b.length = data.length := (h.holds p hp).2.1
      rw [hp] at hbuffer
      have hroom : c.length + chunk.length + 1 > c.capacity := by omega
      refine ⟨{ c with buffer := none },
        ⟨hcapacity.trans hsize.symm, hlength.trans hlength'.symm, ?_⟩,
        .inr ⟨CCommand.doubleUntil (c.length + chunk.length + 1) (c.capacity * 2), ?_, ?_⟩⟩
      · rw [hp']
        rfl
      · simp only [CCommand.keepChunk, hbuffer]
        rw [if_neg (by simp), if_pos hroom]
      · rw [hgranted]
        rfl

/-! ## The buffer -/

/-- What holds of the buffer after the bytes `data` have been read.  Each access has a bound to
keep: the copy of a chunk the capacity, and the terminator the byte behind the data. -/
structure GrowsCorrectly (b : OutputBuffer) (data : Bytes) : Prop where
  /-- there is room for the terminator -/
  room : ∀ p, b.buffer = some p → b.length + 1 ≤ b.capacity
  /-- the first `length` bytes are what was read -/
  contents : ∀ p, b.buffer = some p → ∃ cells, b.heap.block p = some cells ∧
    cells.length = b.capacity ∧ cells.take b.length = data.map some
  /-- the inner loop ends, with a capacity that suffices for the next chunk -/
  grows : ∀ c : Chunk, (data ++ c.bytes).length < totalLimit → b.buffer ≠ none →
    b.needed c.bytes.length > b.capacity →
      ∃ next, b.grownCapacity c.bytes.length = some next ∧
        b.length + c.bytes.length + 1 ≤ next
  /-- there is no buffer exactly if an allocation has failed -/
  null : b.buffer = none ↔ 0 < b.heap.failures
  /-- without a buffer all that follows is read, and there is none to the end -/
  sticky : b.buffer = none → ∀ more : List Turned, more.foldlM OutputBuffer.turn b = some b
  /-- the output is NULL exactly then, and otherwise what was read with a terminator -/
  output : ∃ out heap, b.finish = some (out, heap) ∧ (out = none ↔ 0 < b.heap.failures) ∧
    ∀ p, out = some p → heap.Holds p b.capacity (data ++ [nul])

theorem growsCorrectly_of_buffered {b : OutputBuffer} {data : Bytes} (h : Buffered b data)
    (hpos : 0 < b.capacity) : GrowsCorrectly b data where
  room := by
    intro p hp
    obtain ⟨-, hlength, hroom, -⟩ := h.holds p hp
    rw [hlength]
    exact hroom
  contents := by
    intro p hp
    obtain ⟨⟨cells, hblock, hsize, hdata⟩, hlength, -, -⟩ := h.holds p hp
    rw [← hlength] at hdata
    exact ⟨cells, hblock, hsize, hdata⟩
  grows := by
    intro c htotal hsome hgrows
    obtain ⟨p, hp⟩ := Option.ne_none_iff_exists'.mp hsome
    obtain ⟨-, hlength, -, -⟩ := h.holds p hp
    obtain ⟨next, hnext, hsuffices, -, -⟩ := grownCapacity_spec hlength htotal hpos hgrows
    rw [← hlength] at hsuffices
    exact ⟨next, hnext, hsuffices⟩
  null := h.null
  sticky := fun hnull more => turns_of_null hnull more
  output := by
    obtain ⟨heap, hfinish, hholds⟩ := finish_spec h
    exact ⟨b.buffer, heap, hfinish, h.null, hholds⟩

/-! ## In the runs of the machine -/

/-- What a call has read. -/
def received : Call → Reply → Bytes
  | .read _ _, .bytes bs => bs
  | _, _ => []

/-- What has been read in a run. -/
def receivedIn (es : List Event) : Bytes := es.flatMap fun e => received e.call e.reply

/-- The loop in memory has come to locals like `c` when it had read `data`. -/
def InMemory (data : Bytes) (c : CCollect) : Prop :=
  ∃ granted turns b, OutputBuffer.collect granted turns = some b ∧ bytesOf turns = data ∧
    Refines b c data

/-- What is in memory in a state of the machine, after it has read `data`. -/
def Backed (cmd : CCommand) (data : Bytes) : CParent → Prop
  | .feeding _ | .closing | .starting | .allocating _ => data = []
  | .growing c chunk next =>
      ∃ (kept : Bytes) (got : Chunk), data = kept ++ chunk ∧ got.bytes = chunk ∧
        InMemory kept c ∧ cmd.keepChunk c chunk = .growing c chunk next
  | .polling c _ | .clocking c _ | .reading c | .killing c | .closingOutput c | .waiting c =>
      InMemory data c
  | .returned r _ => ∃ c, InMemory data c ∧ r.output = c.buffer

section Backed

variable {cmd : CCommand} {c : CCollect} {data : Bytes}

theorem inMemory_start (start : Timespec) (ok : Bool) :
    InMemory [] ⟨start, 0, 4096, 0, if ok then some [] else none⟩ := by
  refine ⟨ok, [], OutputBuffer.start ok, rfl, rfl, rfl, rfl, ?_⟩
  cases ok with
  | true => rfl
  | false => rfl

theorem InMemory.elapsed (h : InMemory data c) (elapsedMs : Int) :
    InMemory data { c with elapsedMs := elapsedMs } := by
  obtain ⟨granted, turns, b, hcollect, hdata, hrefines⟩ := h
  exact ⟨granted, turns, b, hcollect, hdata, hrefines.capacity, hrefines.length,
    hrefines.buffer⟩

theorem InMemory.append (h : InMemory data c) (cmd : CCommand) (got : Chunk) (granted : Bool)
    (htotal : (data ++ got.bytes).length < totalLimit) :
    ∃ c', InMemory (data ++ got.bytes) c' ∧
      (cmd.keepChunk c got.bytes = cmd.loopHead c' ∨
        ∃ next, cmd.keepChunk c got.bytes = .growing c got.bytes next ∧
          cmd.advance (.growing c got.bytes next) (.memory granted) =
            some (cmd.loopHead c')) := by
  obtain ⟨first, turns, b, hcollect, rfl, hrefines⟩ := h
  have hbefore : (bytesOf turns).length < totalLimit := by
    rw [List.length_append] at htotal
    omega
  obtain ⟨b₀, hcollect₀, hb, hpos⟩ :=
    buffered_turns (buffered_start first) (Nat.succ_pos 4095) turns hbefore
  cases hcollect.symm.trans hcollect₀
  obtain ⟨b', happend, happended⟩ := appended_append hb granted htotal hpos
  obtain ⟨c', hrefines', hmachine⟩ := append_refines cmd hrefines hb happended
  refine ⟨c', ⟨first, turns ++ [.chunk got granted], b', ?_, ?_, hrefines'⟩, hmachine⟩
  · unfold OutputBuffer.collect at hcollect ⊢
    rw [List.foldlM_append, hcollect]
    simpa [OutputBuffer.turn] using happend
  · simp [bytesOf_append, bytesOf]

theorem backed_loopHead (h : InMemory data c) : Backed cmd data (cmd.loopHead c) := by
  unfold CCommand.loopHead
  split
  · exact h
  · exact h

theorem loopHead_ne_growing (c' : CCollect) (chunk : Bytes) (next : Nat) :
    cmd.loopHead c ≠ .growing c' chunk next := by
  unfold CCommand.loopHead
  split
  · exact nofun
  · exact nofun

/-- A chunk is stored, or has to wait for more memory. -/
theorem backed_keepChunk (h : InMemory data c) (got : Chunk)
    (htotal : (data ++ got.bytes).length < totalLimit) :
    Backed cmd (data ++ got.bytes) (cmd.keepChunk c got.bytes) := by
  obtain ⟨c', hc', hstored | ⟨next, hgrows, -⟩⟩ := h.append cmd got true htotal
  · rw [hstored]
    exact backed_loopHead hc'
  · rw [hgrows]
    exact ⟨data, got, rfl, rfl, h, hgrows⟩

theorem backed_grew {chunk : Bytes} {next : Nat} {granted : Bool} {p' : CParent}
    (h : Backed cmd data (.growing c chunk next)) (htotal : data.length < totalLimit)
    (hadvance : cmd.advance (.growing c chunk next) (.memory granted) = some p') :
    Backed cmd data p' := by
  obtain ⟨kept, got, rfl, rfl, hkept, hgrowing⟩ := h
  obtain ⟨c', hc', hstored | ⟨next', hgrows, hnext⟩⟩ :=
    hkept.append cmd got granted htotal
  · exact (loopHead_ne_growing c got.bytes next (hstored.symm.trans hgrowing)).elim
  · cases hgrowing.symm.trans hgrows
    rw [Option.some.inj (hadvance.symm.trans hnext)]
    exact backed_loopHead hc'

theorem backed_afterPoll {answer : Reply} {p' : CParent} (h : InMemory data c)
    (hafter : cmd.afterPoll c answer = some p') : Backed cmd data p' := by
  unfold CCommand.afterPoll at hafter
  split at hafter
  · cases hafter
    exact backed_loopHead h
  · cases hafter
    exact h
  · cases hafter
    split
    · exact h
    · exact backed_loopHead h
  · cases hafter
    exact h
  · cases hafter

theorem backed_quiet {p p' : CParent} {call : Call} {r : Reply} (h : Backed cmd data p)
    (htotal : data.length < totalLimit) (hmove : cmd.Moves p call r p')
    (hnone : received call r = []) : Backed cmd data p' := by
  have hadvance := hmove.2
  cases CCommand.branch_of_moves hmove with
  | wrote written n =>
      unfold CCommand.writeLoop
      split
      · exact h
      · exact h
  | allocated start ok =>
      cases h
      exact backed_loopHead (inMemory_start start ok)
  | clocked c answer t p' hafter => exact backed_afterPoll (h.elapsed _) hafter
  | got c b bs => cases hnone
  | readInterrupted c => exact backed_loopHead h
  | grown c chunk next => exact backed_grew h htotal hadvance
  | notGrown c chunk next => exact backed_grew h htotal hadvance
  | reaped c st => exact ⟨c, h, rfl⟩
  | waitFailed c e => exact ⟨c, h, rfl⟩
  | _ => exact h

/-- A move, if a read gets at most what it asked for. -/
theorem backed_step {p p' : CParent} {call : Call} {r : Reply} (h : Backed cmd data p)
    (hmove : cmd.Moves p call r p') (hbounded : (received call r).length ≤ 4096)
    (htotal : (data ++ received call r).length < totalLimit) :
    Backed cmd (data ++ received call r) p' := by
  by_cases hnone : received call r = []
  · rw [hnone, List.append_nil] at htotal ⊢
    exact backed_quiet h htotal hmove hnone
  · cases CCommand.branch_of_moves hmove with
    | got c b bs => exact backed_keepChunk h ⟨b :: bs, Nat.succ_pos _, hbounded⟩ htotal
    | _ => exact (hnone rfl).elim

/-- In every run of the machine the locals say what is in memory, if each read gets at most
the 4096 bytes that it asks for, and all of them less than 2^62. -/
theorem backed_of_runs {t₀ : Nat} {es : List Event} {x : CParent × Nat}
    (hrun : Runs (Clocked cmd.Moves) (cmd.start, t₀) es x)
    (hbounded : ∀ e ∈ es, (received e.call e.reply).length ≤ 4096)
    (htotal : (receivedIn es).length < totalLimit) : Backed cmd (receivedIn es) x.1 := by
  generalize hinit : (cmd.start, t₀) = x₀ at hrun
  induction hrun with
  | refl =>
      rw [← hinit]
      unfold CCommand.start CCommand.writeLoop
      split
      · rfl
      · rfl
  | @tail y z es e _ hstep ih =>
      have hlonger : receivedIn (es ++ [e]) = receivedIn es ++ received e.call e.reply := by
        simp [receivedIn]
      rw [hlonger] at htotal ⊢
      have hbefore : (receivedIn es).length < totalLimit := by
        rw [List.length_append] at htotal
        omega
      have hbacked := ih (fun e he => hbounded e (by simp [he])) hbefore
      exact backed_step hbacked hstep.moves (hbounded e (by simp)) htotal

/-- What `ftl_run_command` returns is NULL after a failed allocation, and otherwise all that
was read. -/
theorem output_of_runs {t₀ t : Nat} {es : List Event} {r : CRunResult} {reaped : Bool}
    (hrun : Runs (Clocked cmd.Moves) (cmd.start, t₀) es (.returned r reaped, t))
    (hbounded : ∀ e ∈ es, (received e.call e.reply).length ≤ 4096)
    (htotal : (receivedIn es).length < totalLimit) :
    ∃ b, GrowsCorrectly b (receivedIn es) ∧
      r.output = if 0 < b.heap.failures then none else some (receivedIn es) := by
  obtain ⟨c, ⟨granted, turns, b, hcollect, hdata, hrefines⟩, houtput⟩ :=
    backed_of_runs hrun hbounded htotal
  rw [← hdata] at htotal hrefines ⊢
  obtain ⟨b', hcollect', hb, hpos⟩ :=
    buffered_turns (buffered_start granted) (Nat.succ_pos 4095) turns htotal
  cases hcollect.symm.trans hcollect'
  refine ⟨b, growsCorrectly_of_buffered hb hpos, ?_⟩
  rw [houtput, hrefines.buffer]
  cases hbuffer : b.buffer with
  | none =>
      rw [if_pos (hb.null.mp hbuffer)]
      rfl
  | some p =>
      have hnever : ¬ 0 < b.heap.failures := by
        intro hfailed
        rw [hb.null.mpr hfailed] at hbuffer
        cases hbuffer
      rw [if_neg hnever]
      rfl

end Backed

/-- After any turns of the loop, whatever the allocations do, no access has been out of
bounds, the buffer holds what was read, and it is NULL to the end once an allocation has
failed.  The loop itself goes on until the child is killed or its output ends, and in each of
its states the locals are those of the buffer that the reads so far have filled; what is
returned is NULL after a failed allocation, and otherwise all that was read. -/
theorem output_buffer_grows (granted : Bool) (turns : List Turned)
    (htotal : (bytesOf turns).length < totalLimit) :
    (∃ b, OutputBuffer.collect granted turns = some b ∧ GrowsCorrectly b (bytesOf turns)) ∧
      ∀ (cmd : CCommand) (t₀ : Nat) (es : List Event) (x : CParent × Nat),
        Runs (Clocked cmd.Moves) (cmd.start, t₀) es x →
          (x.1.stage = .after → Kills es ∨ Closes es) ∧
          ((∀ e ∈ es, (received e.call e.reply).length ≤ 4096) →
            (receivedIn es).length < totalLimit →
              Backed cmd (receivedIn es) x.1 ∧
              ∀ r reaped, x.1 = .returned r reaped → ∃ b, GrowsCorrectly b (receivedIn es) ∧
                r.output = if 0 < b.heap.failures then none else some (receivedIn es)) := by
  refine ⟨?_, ?_⟩
  · obtain ⟨b, hcollect, hb, hpos⟩ :=
      buffered_turns (buffered_start granted) (Nat.succ_pos 4095) turns htotal
    exact ⟨b, hcollect, growsCorrectly_of_buffered hb hpos⟩
  · intro cmd t₀ es x hrun
    refine ⟨fun hafter => ?_, fun hbounded hread => ⟨backed_of_runs hrun hbounded hread, ?_⟩⟩
    · have hleft := (left_of_runs hrun).outside hafter
      by_cases hcloses : Closes es
      · exact .inr hcloses
      · exact .inl (hleft.mpr hcloses)
    · rintro r reaped hreturned
      obtain ⟨p, t⟩ := x
      cases hreturned
      exact output_of_runs hrun hbounded hread

/-- As much as one `read` can return. -/
def fullChunk : Chunk where
  bytes := List.replicate 4096 104
  pos := by rw [List.length_replicate]; omega
  le := Nat.le_of_eq List.length_replicate

/-- Two of them, and a byte.  The first does not leave room for the terminator, so that the buffer
grows; for the second it would have to grow again. -/
def refusedTurns : List Turned :=
  [.chunk fullChunk true, .eintr, .chunk fullChunk false,
    .chunk ⟨[105], Nat.le_refl 1, by decide⟩ true]

/-- The second `realloc` fails, so nothing is left of 4096 bytes, and the byte is dropped. -/
theorem output_buffer_grows_refused :
    ∃ b, OutputBuffer.collect true refusedTurns = some b ∧
      GrowsCorrectly b (bytesOf refusedTurns) ∧ b.buffer = none ∧ b.capacity = 8192 := by
  have htotal : (bytesOf refusedTurns).length < totalLimit := by decide +kernel
  obtain ⟨b, hcollect, hgrows⟩ := (output_buffer_grows true refusedTurns htotal).1
  have hgrown : (OutputBuffer.collect true refusedTurns).map
      (fun b => (b.buffer, b.capacity)) = some (none, 8192) := by decide +kernel
  rw [hcollect, Option.map_some, Option.some.injEq, Prod.mk.injEq] at hgrown
  exact ⟨b, hcollect, hgrows, hgrown⟩

end Ftl.Process
