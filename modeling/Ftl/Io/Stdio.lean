/-
  Io/Stdio.lean --- an open file, and the reading half of a `FILE` on it.

  The kernel keeps one offset for all descriptors of an open file.  A `FILE` of glibc
  keeps its own idea of that offset (`_offset`, unset at first) and a read buffer:

      ftell    the cached offset, or the kernel's, less what is still unread
      rewind   moves inside the buffer if it reaches back to the start, and then puts the
               kernel offset where the cache says it is; otherwise seeks to the start
      fread    takes from the buffer, reads whole blocks past it, or refills it

      fread_rest   on a stream in step with the file, reading what is left returns it
-/
import Mathlib.Data.List.Basic
import Ftl.Process.Syscall

set_option autoImplicit false

namespace Ftl.Io

open Process (Bytes)

/-! ## The open file -/

/-- An open file: its bytes and its offset. -/
structure OpenFile where
  data : Bytes
  offset : Nat
  deriving DecidableEq, Repr

namespace OpenFile

/-- `write(fd, bs)`: over what is there, and past the end if need be. -/
def write (file : OpenFile) (bs : Bytes) : OpenFile where
  data := file.data.take file.offset ++ List.replicate (file.offset - file.data.length) 0 ++ bs ++
    file.data.drop (file.offset + bs.length)
  offset := file.offset + bs.length

/-- `lseek(fd, offset, SEEK_SET)`. -/
def seek (file : OpenFile) (offset : Nat) : OpenFile := { file with offset := offset }

/-- The bytes that `read(fd, n)` returns. -/
def ahead (file : OpenFile) (n : Nat) : Bytes := (file.data.drop file.offset).take n

/-- The file after `read(fd, n)`. -/
def read (file : OpenFile) (n : Nat) : OpenFile :=
  { file with offset := file.offset + (file.ahead n).length }

theorem write_at_end {file : OpenFile} (h : file.offset = file.data.length) (bs : Bytes) :
    file.write bs = ⟨file.data ++ bs, file.data.length + bs.length⟩ := by
  have hpast : file.data.drop (file.data.length + bs.length) = [] :=
    List.drop_eq_nil_of_le (Nat.le_add_right _ _)
  simp [write, h, hpast]

theorem length_ahead (file : OpenFile) (n : Nat) :
    (file.ahead n).length = min n (file.data.length - file.offset) := by
  rw [ahead, List.length_take, List.length_drop]

end OpenFile

/-! ## The stream -/

/-- The reading half of a `FILE`. -/
structure Stream where
  /-- `_offset`; `none` is `_IO_pos_BAD` -/
  cached : Option Nat
  /-- from `_IO_buf_base` to `_IO_read_end` -/
  buffer : Bytes
  /-- `_IO_read_ptr - _IO_buf_base` -/
  pos : Nat
  /-- `_IO_EOF_SEEN` -/
  eof : Bool
  deriving DecidableEq, Repr

/-- A stream and the file it is open on. -/
structure Opened where
  file : OpenFile
  stream : Stream
  deriving DecidableEq, Repr

namespace Opened

/-- `tmpfile()`. -/
def tmpfile : Opened where
  file := ⟨[], 0⟩
  stream := { cached := none, buffer := [], pos := 0, eof := false }

/-- A write through another descriptor of the file. -/
def write (s : Opened) (bs : Bytes) : Opened := { s with file := s.file.write bs }

/-- What the buffer still has. -/
def unread (s : Opened) : Bytes := s.stream.buffer.drop s.stream.pos

/-- `ftell(f)`. -/
def ftell (s : Opened) : Int :=
  let result : Int := s.stream.cached.getD s.file.offset - s.unread.length
  if result < 0 then -1 else result

/-- `lseek` to the start, with an empty buffer. -/
def seekStart (s : Opened) : Opened where
  file := s.file.seek 0
  stream := { cached := some 0, buffer := [], pos := 0, eof := false }

/-- `rewind(f)`. -/
def rewind (s : Opened) : Opened :=
  match s.stream.cached with
  | some offset =>
      if offset ≤ s.stream.buffer.length ∧ 0 < offset then
        { file := s.file.seek offset
          stream := { s.stream with pos := s.stream.buffer.length - offset, eof := false } }
      else s.seekStart
  | none => s.seekStart

/-- A refill of the buffer of `block` bytes. -/
def refill (s : Opened) (block : Nat) : Opened where
  file := s.file.read block
  stream := { s.stream with
    cached := s.stream.cached.map (· + (s.file.ahead block).length)
    buffer := s.file.ahead block
    pos := 0 }

/-- `_IO_new_file_underflow` when the buffer is used up; `none` is EOF. -/
def underflow (block : Nat) (s : Opened) : Option Opened :=
  if s.stream.eof then none
  else if s.file.ahead block = [] then none
  else some (s.refill block)

/-- What EOF leaves behind. -/
def atEnd (s : Opened) : Opened :=
  if s.stream.eof then s
  else { s with stream := { cached := none, buffer := [], pos := 0, eof := true } }

/-- The whole blocks in `want`. -/
def directCount (block want : Nat) : Nat :=
  if 128 ≤ block then want - want % block else want

/-- A read into the caller's memory, past the buffer. -/
def direct (s : Opened) (count : Nat) : Opened where
  file := s.file.read count
  stream := { s.stream with
    cached := s.stream.cached.map (· + (s.file.ahead count).length)
    buffer := []
    pos := 0 }

/-- Such a read at the end of the file. -/
def directEnd (s : Opened) (count : Nat) : Opened :=
  { s.direct count with stream := { (s.direct count).stream with eof := true } }

/-- The buffer has been used up. -/
def useUp (s : Opened) : Opened :=
  { s with stream := { s.stream with pos := s.stream.buffer.length } }

/-- `want` bytes have been taken from the buffer. -/
def take (s : Opened) (want : Nat) : Opened :=
  { s with stream := { s.stream with pos := s.stream.pos + want } }

theorem unread_direct (s : Opened) (count : Nat) : (s.direct count).unread = [] := rfl

theorem unread_underflow {block : Nat} {s s' : Opened} (h : s.underflow block = some s') :
    s'.unread ≠ [] := by
  unfold underflow at h
  split at h
  · cases h
  · split at h
    · cases h
    · rename_i hne
      cases h
      exact hne

/-- `fread(buffer, 1, want, f)`: the bytes that it reads, and the state afterwards. -/
def fread (block : Nat) (s : Opened) (want : Nat) : Bytes × Opened :=
  if want ≤ s.unread.length then (s.unread.take want, s.take want)
  else
    let missing := want - s.unread.length
    if missing < block then
      match _h : s.useUp.underflow block with
      | none => (s.unread, s.useUp.atEnd)
      | some s' =>
          let rest := fread block s' missing
          (s.unread ++ rest.1, rest.2)
    else
      let count := directCount block missing
      let bytes := s.file.ahead count
      if bytes = [] then (s.unread, s.directEnd count)
      else
        let rest := fread block (s.direct count) (missing - bytes.length)
        (s.unread ++ bytes ++ rest.1, rest.2)
termination_by 2 * want + if s.unread = [] then 1 else 0
decreasing_by
  · have hunread := unread_underflow _h
    rw [if_neg hunread]
    split
    · omega
    · rename_i hne
      have hpos := List.length_pos_iff.mpr hne
      omega
  · rename_i hne
    have hpos : 0 < (s.file.ahead (directCount block (want - s.unread.length))).length :=
      List.length_pos_iff.mpr hne
    rw [unread_direct, if_pos rfl]
    split
    · omega
    · omega

section Equations

variable {block want : Nat} {s s' : Opened}

theorem fread_of_buffered (h : want ≤ s.unread.length) :
    s.fread block want = (s.unread.take want, s.take want) := by
  unfold fread
  rw [if_pos h]

theorem fread_of_refill (h : ¬ want ≤ s.unread.length) (hshort : want - s.unread.length < block)
    (hrefill : s.useUp.underflow block = some s') :
    s.fread block want =
      (s.unread ++ (s'.fread block (want - s.unread.length)).1,
        (s'.fread block (want - s.unread.length)).2) := by
  rw [fread, if_neg h]
  simp only [if_pos hshort]
  split
  · rename_i hnone
    rw [hrefill] at hnone
    cases hnone
  · rename_i t hsome
    rw [hrefill] at hsome
    cases hsome
    rfl

theorem fread_of_direct (h : ¬ want ≤ s.unread.length)
    (hlong : ¬ want - s.unread.length < block) {count : Nat}
    (hcount : directCount block (want - s.unread.length) = count)
    (hne : s.file.ahead count ≠ []) :
    s.fread block want =
      (s.unread ++ s.file.ahead count ++ ((s.direct count).fread block
          (want - s.unread.length - (s.file.ahead count).length)).1,
        ((s.direct count).fread block
          (want - s.unread.length - (s.file.ahead count).length)).2) := by
  rw [fread, if_neg h]
  simp only [if_neg hlong, hcount, if_neg hne]

end Equations

/-! ## Reading what is left -/

/-- The stream is in step with a file that holds `data`: the cache is right, and the
buffer holds nothing but bytes before the offset, all of them used. -/
structure InStep (data : Bytes) (s : Opened) : Prop where
  holds : s.file.data = data
  offset : s.file.offset ≤ data.length
  cached : s.stream.cached = some s.file.offset
  used : s.stream.pos = s.stream.buffer.length
  buffer : s.stream.buffer <:+ data.take s.file.offset
  eof : s.stream.eof = false

/-- In step, and at the end of the file. -/
structure AtEnd (data : Bytes) (s : Opened) : Prop extends InStep data s where
  whole : s.file.offset = data.length

variable {data : Bytes} {s : Opened}

theorem AtEnd.file_eq (h : AtEnd data s) : s.file = ⟨data, data.length⟩ := by
  obtain ⟨⟨file, offset⟩, stream⟩ := s
  exact congrArg₂ OpenFile.mk h.holds h.whole

theorem inStep_seekStart (h : s.file.data = data) : InStep data s.seekStart where
  holds := h
  offset := Nat.zero_le _
  cached := rfl
  used := rfl
  buffer := List.nil_suffix
  eof := rfl

theorem InStep.unread (h : InStep data s) : s.unread = [] := by
  unfold Opened.unread
  rw [h.used]
  exact List.drop_length

/-- Reading past the buffer keeps the stream in step. -/
theorem InStep.direct (h : InStep data s) (count : Nat) : InStep data (s.direct count) := by
  have hoffset := h.offset
  refine ⟨h.holds, ?_, ?_, rfl, List.nil_suffix, h.eof⟩
  · simp only [Opened.direct, OpenFile.read, OpenFile.length_ahead, h.holds]
    omega
  · simp only [Opened.direct, OpenFile.read, h.cached, Option.map_some]

theorem InStep.useUp (h : InStep data s) : s.useUp = s := by
  unfold Opened.useUp
  rw [← h.used]

/-- A refill that reaches the end of the file, and then all of it is taken. -/
theorem InStep.refill {block : Nat} (h : InStep data s)
    (hall : s.file.ahead block = data.drop s.file.offset) :
    AtEnd data ((s.refill block).take (data.length - s.file.offset)) := by
  have hoffset := h.offset
  have hlength : (s.file.ahead block).length = data.length - s.file.offset := by
    rw [hall, List.length_drop]
  have hend : s.file.offset + (s.file.ahead block).length = data.length := by omega
  refine ⟨⟨h.holds, ?_, ?_, ?_, ?_, h.eof⟩, hend⟩
  · exact Nat.le_of_eq hend
  · simp only [Opened.take, Opened.refill, OpenFile.read, h.cached, Option.map_some]
  · simp only [Opened.take, Opened.refill, hlength, Nat.zero_add]
  · have hsuffix : s.file.ahead block <:+ data.take data.length := by
      rw [hall, List.take_length]
      exact List.drop_suffix _ _
    rw [← hend] at hsuffix
    exact hsuffix

theorem InStep.fread_nothing {block : Nat} (h : InStep data s)
    (hend : s.file.offset = data.length) :
    (s.fread block 0).1 = data.drop s.file.offset ∧ AtEnd data (s.fread block 0).2 := by
  rw [fread_of_buffered (Nat.zero_le _), hend, List.drop_length]
  exact ⟨rfl, ⟨h.holds, h.offset, h.cached, h.used, h.buffer, h.eof⟩, hend⟩

/-- One refill gets all that is left. -/
theorem InStep.fread_refill {block : Nat} (h : InStep data s)
    (hsome : s.file.offset < data.length) (hshort : data.length - s.file.offset < block) :
    (s.fread block (data.length - s.file.offset)).1 = data.drop s.file.offset ∧
      AtEnd data (s.fread block (data.length - s.file.offset)).2 := by
  have hall : s.file.ahead block = data.drop s.file.offset := by
    rw [OpenFile.ahead, h.holds, List.take_of_length_le]
    rw [List.length_drop]
    omega
  have hunread : (s.refill block).unread = data.drop s.file.offset := hall
  have hrefill : s.useUp.underflow block = some (s.refill block) := by
    rw [h.useUp, Opened.underflow, if_neg (by simp [h.eof]), if_neg]
    rw [hall, List.drop_eq_nil_iff]
    omega
  have hmissing : ¬ data.length - s.file.offset ≤ s.unread.length := by
    rw [h.unread, List.length_nil]
    omega
  have hbuffered : data.length - s.file.offset ≤ (s.refill block).unread.length :=
    Nat.le_of_eq (by rw [hunread, List.length_drop])
  rw [fread_of_refill hmissing (by rw [h.unread]; exact hshort) hrefill, h.unread,
    List.length_nil, Nat.sub_zero, fread_of_buffered hbuffered, hunread]
  refine ⟨?_, h.refill hall⟩
  rw [List.nil_append, ← List.length_drop, List.take_length]

/-- Whole blocks are read first, past the buffer; `count` bytes are in them. -/
theorem InStep.fread_direct {block : Nat} (h : InStep data s) (hblock : 0 < block)
    (hlong : block ≤ data.length - s.file.offset) :
    ∃ count, 0 < count ∧ (s.direct count).file.offset = s.file.offset + count ∧
      s.fread block (data.length - s.file.offset) =
        ((data.drop s.file.offset).take count ++
            ((s.direct count).fread block (data.length - (s.direct count).file.offset)).1,
          ((s.direct count).fread block (data.length - (s.direct count).file.offset)).2) := by
  obtain ⟨count, hcount⟩ : ∃ count, directCount block (data.length - s.file.offset) = count :=
    ⟨_, rfl⟩
  have hbounds : 0 < count ∧ count ≤ data.length - s.file.offset := by
    have hmod := Nat.mod_lt (data.length - s.file.offset) hblock
    unfold directCount at hcount
    split at hcount
    · omega
    · omega
  have hlength : (s.file.ahead count).length = count := by
    rw [OpenFile.length_ahead, h.holds]
    omega
  have hoffset : (s.direct count).file.offset = s.file.offset + count := by
    simp only [Opened.direct, OpenFile.read, hlength]
  have hne : s.file.ahead count ≠ [] := by
    rw [← List.length_pos_iff, hlength]
    exact hbounds.1
  have hleft : data.length - s.file.offset - s.unread.length = data.length - s.file.offset := by
    rw [h.unread, List.length_nil, Nat.sub_zero]
  have hrest : data.length - s.file.offset - (s.file.ahead count).length =
      data.length - (s.direct count).file.offset := by
    rw [hlength, hoffset]
    omega
  refine ⟨count, hbounds.1, hoffset, ?_⟩
  rw [fread_of_direct (by rw [h.unread, List.length_nil]; omega) (by rw [hleft]; omega)
    (by rw [hleft]; exact hcount) hne, hleft, hrest, h.unread, List.nil_append,
    OpenFile.ahead, h.holds]

/-- Reading what is left of the file returns it, and leaves the stream at the end. -/
theorem fread_rest {block : Nat} (hblock : 0 < block) (s : Opened) (h : InStep data s) :
    (s.fread block (data.length - s.file.offset)).1 = data.drop s.file.offset ∧
      AtEnd data (s.fread block (data.length - s.file.offset)).2 := by
  have hoffset := h.offset
  rcases Nat.eq_or_lt_of_le hoffset with hend | hsome
  · have hzero : data.length - s.file.offset = 0 := by omega
    rw [hzero]
    exact h.fread_nothing hend
  · rcases Nat.lt_or_ge (data.length - s.file.offset) block with hshort | hlong
    · exact h.fread_refill hsome hshort
    · obtain ⟨count, hpos, hmoved, hread⟩ := h.fread_direct hblock hlong
      obtain ⟨hbytes, hend⟩ := fread_rest hblock (s.direct count) (h.direct count)
      rw [hread, hbytes, hmoved, ← List.drop_drop, List.take_append_drop]
      exact ⟨rfl, hmoved ▸ hend⟩
termination_by data.length - s.file.offset

end Opened

end Ftl.Io
