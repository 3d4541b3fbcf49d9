/-
  Io/FdCapture.lean --- `FdCapture` of ftl/io/capture.hpp over a descriptor table.

  A process has its descriptors, the open files behind them and the buffer of `stdout`.
  The constructor flushes the buffer, makes a temporary file, saves the target in a
  duplicate and puts the file in its place; the destructor flushes again and goes back.

      isSome_construct_iff  when a constructor returns
      slot_construct_none   a constructor that throws leaves every descriptor as it was
      constructed           one that returns changes the target and takes two numbers
      slot_destruct         a destructor gives the numbers back and restores the target
      Delivers              what happens to the bytes of every sink between two states
-/
import Ftl.Foundation.FdTable
import Ftl.Foundation.Shuffle
import Ftl.Io.Capture

set_option autoImplicit false

namespace Ftl.Io

open Foundation (FdTable Shuffle)
open Function (update)
open Process (Bytes)

/-! ## The process -/

/-- An open file: one that was there at the start, or a temporary file of a capture. -/
inductive Sink where
  | inherited (n : Nat)
  | captured (k : Nat)
  deriving DecidableEq, Repr

/-- `STDOUT_FILENO`. -/
def stdoutFileno : Nat := 1

/-- The descriptors of a process, its open files with the `FILE`s on them, and what the
buffer of `stdout` holds. -/
structure Proc where
  table : FdTable Sink
  files : Sink → Opened
  buffer : Bytes
  /-- temporary files made so far -/
  made : Nat

namespace Proc

/-- The start, with nothing written. -/
def start (table : FdTable Nat) : Proc where
  table := table.map .inherited
  files := fun _ => .tmpfile
  buffer := []
  made := 0

/-- `write(fd, bs)`. -/
def write (fd : Nat) (bs : Bytes) (s : Proc) : Proc :=
  match s.table.slot fd with
  | some sink => { s with files := update s.files sink ((s.files sink).write bs) }
  | none => s

/-- `fflush(stdout)`. -/
def fflush (s : Proc) : Proc :=
  match s.table.slot stdoutFileno with
  | some _ => { s.write stdoutFileno s.buffer with buffer := [] }
  | none => s

/-- A print to `stdout`; stdio writes the first `flushed` bytes of what it then has. -/
def print (bs : Bytes) (flushed : Nat) (s : Proc) : Proc :=
  { s.write stdoutFileno ((s.buffer ++ bs).take flushed) with
    buffer := (s.buffer ++ bs).drop flushed }

/-- With one more descriptor, on `sink`. -/
def alloc (sink : Sink) (s : Proc) : Proc := { s with table := s.table.alloc sink }

/-- With a new temporary file. -/
def makeFile (s : Proc) : Proc :=
  { s.alloc (.captured s.made) with
    files := update s.files (.captured s.made) .tmpfile
    made := s.made + 1 }

/-- `tmpfile()`: the descriptor of the stream.  It fails without a free descriptor, and
may fail otherwise. -/
def tmpfile (limit : Nat) (succeeds : Bool) (s : Proc) : Option Nat × Proc :=
  if succeeds = true ∧ s.table.lowestFree < limit then (some s.table.lowestFree, s.makeFile)
  else (none, s)

/-- `dup(fd)`. -/
def dup (limit : Nat) (succeeds : Bool) (fd : Nat) (s : Proc) : Option Nat × Proc :=
  match s.table.slot fd with
  | some sink =>
      if succeeds = true ∧ s.table.lowestFree < limit then
        (some s.table.lowestFree, s.alloc sink)
      else (none, s)
  | none => (none, s)

/-- `dup2(oldfd, newfd)`. -/
def dup2 (limit oldfd newfd : Nat) (s : Proc) : Proc :=
  { s with table := s.table.dup2 (some limit) oldfd newfd }

/-- `close(fd)`. -/
def close (fd : Nat) (s : Proc) : Proc := { s with table := s.table.close fd }

/-- `if (stream_) fflush(stream_)`, when the stream is `stdout`. -/
def flushIf (stream : Bool) (s : Proc) : Proc := if stream then s.fflush else s

/-- `close` or `fclose` of what was obtained. -/
def closeIf (fd : Option Nat) (s : Proc) : Proc :=
  match fd with
  | some fd => s.close fd
  | none => s

end Proc

/-! ## FdCapture -/

/-- `FdCapture`. -/
structure FdCapture where
  target : Nat
  /-- `stream_` is `stdout`, not null -/
  stream : Bool
  /-- `fileno(file_)` -/
  file : Nat
  saved : Nat
  deriving DecidableEq, Repr

/-- Whether the two calls of a constructor succeed when there are free descriptors. -/
structure Resources where
  tmpfile : Bool
  dup : Bool
  deriving DecidableEq, Repr

namespace FdCapture

/-- The constructor; `none` is an exception. -/
def construct (limit : Nat) (found : Resources) (target : Nat) (stream : Bool) (s : Proc) :
    Option FdCapture × Proc :=
  let file := (s.flushIf stream).tmpfile limit found.tmpfile
  let saved := file.2.dup limit found.dup target
  match file.1, saved.1 with
  | some fileno, some fd =>
      (some { target := target, stream := stream, file := fileno, saved := fd },
        saved.2.dup2 limit fileno target)
  | file, fd => (none, (saved.2.closeIf file).closeIf fd)

/-- The destructor. -/
def destruct (limit : Nat) (c : FdCapture) (s : Proc) : Proc :=
  (((s.flushIf c.stream).dup2 limit c.saved c.target).close c.saved).close c.file

/-- `content()`; `none` is an exception. -/
def content (block : Nat) (c : FdCapture) (s : Proc) : Option Bytes × Proc :=
  let flushed := s.flushIf c.stream
  match flushed.table.slot c.file with
  | some sink =>
      let read := (flushed.files sink).content block
      (read.1, { flushed with files := update flushed.files sink read.2 })
  | none => (none, flushed)

end FdCapture

/-! ## Descriptors -/

namespace Proc

variable (s : Proc)

@[simp] theorem table_write (fd : Nat) (bs : Bytes) : (s.write fd bs).table = s.table := by
  unfold write
  split
  · rfl
  · rfl

@[simp] theorem made_write (fd : Nat) (bs : Bytes) : (s.write fd bs).made = s.made := by
  unfold write
  split
  · rfl
  · rfl

@[simp] theorem table_fflush : s.fflush.table = s.table := by
  unfold fflush
  split
  · exact s.table_write stdoutFileno s.buffer
  · rfl

@[simp] theorem made_fflush : s.fflush.made = s.made := by
  unfold fflush
  split
  · exact s.made_write stdoutFileno s.buffer
  · rfl

@[simp] theorem table_flushIf (stream : Bool) : (s.flushIf stream).table = s.table := by
  cases stream with
  | true => exact s.table_fflush
  | false => rfl

@[simp] theorem made_flushIf (stream : Bool) : (s.flushIf stream).made = s.made := by
  cases stream with
  | true => exact s.made_fflush
  | false => rfl

theorem slot_alloc (sink : Sink) (n : Nat) :
    (s.alloc sink).table.slot n = if n = s.table.lowestFree then some sink else s.table.slot n :=
  FdTable.slot_alloc s.table sink n

theorem slot_makeFile (n : Nat) :
    s.makeFile.table.slot n =
      if n = s.table.lowestFree then some (.captured s.made) else s.table.slot n :=
  FdTable.slot_alloc s.table _ n

theorem lowestFree_lt_makeFile : s.table.lowestFree < s.makeFile.table.lowestFree :=
  FdTable.lowestFree_lt_alloc s.table _

theorem slot_dup2 {limit oldfd newfd : Nat} {sink : Sink}
    (hopen : s.table.slot oldfd = some sink) (hlimit : newfd < limit) (n : Nat) :
    (s.dup2 limit oldfd newfd).table.slot n =
      if n = newfd then some sink else s.table.slot n := by
  refine FdTable.slot_dup2 hopen ?_ n
  intro l hl
  cases hl
  exact hlimit

theorem slot_close (fd n : Nat) :
    (s.close fd).table.slot n = if n = fd then none else s.table.slot n :=
  FdTable.slot_close s.table fd n

/-- An open descriptor is not the next one to be given out. -/
theorem ne_lowestFree {fd : Nat} {sink : Sink} (hopen : s.table.slot fd = some sink) :
    fd ≠ s.table.lowestFree := by
  rintro rfl
  rw [FdTable.slot_lowestFree] at hopen
  cases hopen

theorem slot_makeFile_of_open {fd : Nat} {sink : Sink} (hopen : s.table.slot fd = some sink) :
    s.makeFile.table.slot fd = some sink := by
  rw [slot_makeFile, if_neg (s.ne_lowestFree hopen), hopen]

/-- When a second descriptor is free, too, `stdout` is within the limit. -/
theorem stdout_within {limit : Nat} {sink : Sink}
    (hopen : s.table.slot stdoutFileno = some sink)
    (hlimit : s.makeFile.table.lowestFree < limit) : stdoutFileno < limit := by
  have hfile := s.ne_lowestFree hopen
  have hsaved := s.makeFile.ne_lowestFree (s.slot_makeFile_of_open hopen)
  have hless := s.lowestFree_lt_makeFile
  unfold stdoutFileno at hfile hsaved ⊢
  omega

theorem tmpfile_cases (limit : Nat) (succeeds : Bool) :
    s.tmpfile limit succeeds = (none, s) ∨
      s.table.lowestFree < limit ∧
        s.tmpfile limit succeeds = (some s.table.lowestFree, s.makeFile) := by
  unfold tmpfile
  split
  · rename_i h
    exact .inr ⟨h.2, rfl⟩
  · exact .inl rfl

theorem dup_cases (limit : Nat) (succeeds : Bool) (fd : Nat) :
    s.dup limit succeeds fd = (none, s) ∨
      ∃ sink, s.table.slot fd = some sink ∧ s.table.lowestFree < limit ∧
        s.dup limit succeeds fd = (some s.table.lowestFree, s.alloc sink) := by
  unfold dup
  split
  · rename_i sink hopen
    split
    · rename_i h
      exact .inr ⟨sink, hopen, h.2, rfl⟩
    · exact .inl rfl
  · exact .inl rfl

end Proc

/-- What a constructor needs: two calls that do not fail for reasons of their own, two free
numbers, and a target that can be duplicated.  The target can be closed if its number is the
one that the temporary file gets, since that is what is duplicated then. -/
structure Proc.Admits (limit : Nat) (found : Resources) (target : Nat) (s : Proc) : Prop where
  tmpfile : found.tmpfile = true
  dup : found.dup = true
  target : (s.table.slot target).isSome = true ∨ target = s.table.lowestFree
  room : ∃ m n, m < n ∧ n < limit ∧ s.table.slot m = none ∧ s.table.slot n = none

namespace FdCapture

variable {limit : Nat} {found : Resources} {target : Nat} {stream : Bool} {s s' t : Proc}
  {c : FdCapture}

theorem isSome_slot_makeFile :
    (s.makeFile.table.slot target).isSome = true ↔
      (s.table.slot target).isSome = true ∨ target = s.table.lowestFree := by
  rw [Proc.slot_makeFile]
  split
  · rename_i hlowest
    exact ⟨fun _ => .inr hlowest, fun _ => rfl⟩
  · rename_i hne
    exact ⟨.inl, fun h => h.resolve_right hne⟩

theorem construct_of_admits (h : s.Admits limit found target) :
    (construct limit found target stream s).1.isSome = true := by
  obtain ⟨htmpfile, hdup, htarget, hroom⟩ := h
  rw [← s.table_flushIf stream] at htarget hroom
  unfold construct
  generalize s.flushIf stream = t at htarget hroom
  have hsecond : t.makeFile.table.lowestFree < limit := FdTable.lowestFree_alloc_lt_iff.mpr hroom
  have hfirst : t.table.lowestFree < limit := Nat.lt_trans t.lowestFree_lt_makeFile hsecond
  obtain ⟨sink, hopen⟩ := Option.isSome_iff_exists.mp (isSome_slot_makeFile.mpr htarget)
  have hfile : t.tmpfile limit found.tmpfile = (some t.table.lowestFree, t.makeFile) := by
    rw [Proc.tmpfile, if_pos ⟨htmpfile, hfirst⟩]
  have hsaved : t.makeFile.dup limit found.dup target =
      (some t.makeFile.table.lowestFree, t.makeFile.alloc sink) := by
    rw [Proc.dup, hopen]
    simp only [if_pos (And.intro hdup hsecond)]
  simp only [hfile, hsaved, Option.isSome_some]

theorem admits_of_construct (h : (construct limit found target stream s).1.isSome = true) :
    s.Admits limit found target := by
  unfold construct at h
  obtain ⟨t, hflushed⟩ : ∃ t, s.flushIf stream = t := ⟨_, rfl⟩
  have htable : t.table = s.table := hflushed ▸ s.table_flushIf stream
  rw [hflushed] at h
  by_cases hfirst : found.tmpfile = true ∧ t.table.lowestFree < limit
  · have hfile : t.tmpfile limit found.tmpfile = (some t.table.lowestFree, t.makeFile) := by
      rw [Proc.tmpfile, if_pos hfirst]
    simp only [hfile] at h
    rcases t.makeFile.dup_cases limit found.dup target with hsaved | ⟨sink, hopen, hsecond, -⟩
    · simp only [hsaved] at h
      cases h
    · have htarget := isSome_slot_makeFile.mp (Option.isSome_iff_exists.mpr ⟨sink, hopen⟩)
      have hroom := FdTable.lowestFree_alloc_lt_iff.mp hsecond
      rw [htable] at htarget hroom
      refine ⟨hfirst.1, ?_, htarget, hroom⟩
      by_contra hfails
      simp [Proc.dup, hopen, hfails] at h
  · have hfile : t.tmpfile limit found.tmpfile = (none, t) := by
      rw [Proc.tmpfile, if_neg hfirst]
    simp only [hfile] at h
    cases h

theorem isSome_construct_iff :
    (construct limit found target stream s).1.isSome = true ↔ s.Admits limit found target :=
  ⟨admits_of_construct, construct_of_admits⟩

/-- A constructor that throws leaves every descriptor as it was. -/
theorem slot_construct_none (h : (construct limit found target stream s).1 = none) (n : Nat) :
    (construct limit found target stream s).2.table.slot n = s.table.slot n := by
  rw [← s.table_flushIf stream]
  unfold construct at h ⊢
  generalize s.flushIf stream = t at h ⊢
  rcases t.tmpfile_cases limit found.tmpfile with hfile | ⟨-, hfile⟩
  · simp only [hfile] at h ⊢
    rcases t.dup_cases limit found.dup target with hsaved | ⟨sink, -, -, hsaved⟩
    · simp only [hsaved, Proc.closeIf]
    · simp only [hsaved, Proc.closeIf]
      exact FdTable.slot_close_alloc t.table sink n
  · simp only [hfile] at h ⊢
    rcases t.makeFile.dup_cases limit found.dup target with hsaved | ⟨sink, -, -, hsaved⟩
    · simp only [hsaved, Proc.closeIf]
      exact FdTable.slot_close_alloc t.table _ n
    · simp only [hsaved] at h
      cases h

theorem construct_none_eq (h : (construct limit found target stream s).1 = none) :
    (construct limit found target stream s).2.buffer = (s.flushIf stream).buffer ∧
      ((construct limit found target stream s).2.files = (s.flushIf stream).files ∧
          (construct limit found target stream s).2.made = s.made ∨
        (construct limit found target stream s).2.files =
            update (s.flushIf stream).files (.captured s.made) .tmpfile ∧
          (construct limit found target stream s).2.made = s.made + 1) := by
  rw [← s.made_flushIf stream]
  unfold construct at h ⊢
  generalize s.flushIf stream = t at h ⊢
  rcases t.tmpfile_cases limit found.tmpfile with hfile | ⟨-, hfile⟩
  · simp only [hfile] at h ⊢
    rcases t.dup_cases limit found.dup target with hsaved | ⟨sink, -, -, hsaved⟩
    · simp only [hsaved, Proc.closeIf]
      exact ⟨trivial, .inl ⟨trivial, trivial⟩⟩
    · simp only [hsaved, Proc.closeIf]
      exact ⟨rfl, .inl ⟨rfl, rfl⟩⟩
  · simp only [hfile] at h ⊢
    rcases t.makeFile.dup_cases limit found.dup target with hsaved | ⟨sink, -, -, hsaved⟩
    · simp only [hsaved, Proc.closeIf]
      exact ⟨rfl, .inr ⟨rfl, rfl⟩⟩
    · simp only [hsaved] at h
      cases h

/-- What a constructor for `stdout` has done when it returns; descriptor 1 was open on
`sink`. -/
structure Constructed (limit : Nat) (stream : Bool) (sink : Sink) (s : Proc) (c : FdCapture)
    (s' : Proc) : Prop where
  target_eq : c.target = stdoutFileno
  stream_eq : c.stream = stream
  within : stdoutFileno < limit
  fileFree : s.table.slot c.file = none
  savedFree : s.table.slot c.saved = none
  distinct : c.saved ≠ c.file
  slot : ∀ n, s'.table.slot n =
    if n = stdoutFileno then some (.captured s.made)
    else if n = c.saved then some sink
    else if n = c.file then some (.captured s.made)
    else s.table.slot n
  files : s'.files = update (s.flushIf stream).files (.captured s.made) .tmpfile
  buffer : s'.buffer = (s.flushIf stream).buffer
  made : s'.made = s.made + 1

theorem constructed {sink : Sink} (hopen : s.table.slot stdoutFileno = some sink)
    (h : construct limit found stdoutFileno stream s = (some c, s')) :
    Constructed limit stream sink s c s' := by
  rw [← s.table_flushIf stream] at hopen
  unfold construct at h
  obtain ⟨t, hflushed⟩ : ∃ t, s.flushIf stream = t := ⟨_, rfl⟩
  have htable : t.table = s.table := hflushed ▸ s.table_flushIf stream
  have hmade : t.made = s.made := hflushed ▸ s.made_flushIf stream
  rw [hflushed] at h hopen
  rcases t.tmpfile_cases limit found.tmpfile with hfile | ⟨-, hfile⟩
  · simp only [hfile] at h
    cases h
  · simp only [hfile] at h
    rcases t.makeFile.dup_cases limit found.dup stdoutFileno with
      hsaved | ⟨sink', hsink, hlimit, hsaved⟩
    · simp only [hsaved] at h
      cases h
    · simp only [hsaved] at h
      cases h
      rw [t.slot_makeFile_of_open hopen] at hsink
      cases hsink
      have hwithin := t.stdout_within hopen hlimit
      have hless := t.lowestFree_lt_makeFile
      have hfileOpen : (t.makeFile.alloc sink).table.slot t.table.lowestFree =
          some (.captured t.made) := by
        rw [Proc.slot_alloc, if_neg (Nat.ne_of_lt hless), Proc.slot_makeFile, if_pos rfl]
      constructor
      case target_eq => rfl
      case stream_eq => rfl
      case within => exact hwithin
      case fileFree => rw [← htable, FdTable.slot_lowestFree]
      case savedFree =>
        rw [← htable]
        exact FdTable.slot_eq_none_of_alloc (FdTable.slot_lowestFree t.makeFile.table)
      case distinct => exact (Nat.ne_of_lt hless).symm
      case slot =>
        intro n
        rw [Proc.slot_dup2 _ hfileOpen hwithin, Proc.slot_alloc, Proc.slot_makeFile, hmade, htable]
      case files =>
        rw [hflushed, ← hmade]
        rfl
      case buffer =>
        rw [hflushed]
        rfl
      case made =>
        rw [← hmade]
        rfl

/-- A destructor gives its two numbers back and puts the target on what was saved. -/
theorem slot_destruct {sink : Sink} (hsaved : s.table.slot c.saved = some sink)
    (hlimit : c.target < limit) (n : Nat) :
    (c.destruct limit s).table.slot n =
      if n = c.file ∨ n = c.saved then none
      else if n = c.target then some sink
      else s.table.slot n := by
  rw [← s.table_flushIf c.stream] at hsaved ⊢
  rw [destruct, Proc.slot_close, Proc.slot_close, Proc.slot_dup2 _ hsaved hlimit]
  by_cases hfile : n = c.file
  · simp [hfile]
  · simp [hfile]

/-- What happens between a constructor and its destructor is undone if it leaves the
descriptors alone. -/
theorem slot_scope {sink : Sink} (h : Constructed limit stream sink s c s')
    (hopen : s.table.slot stdoutFileno = some sink)
    (hsame : ∀ n, t.table.slot n = s'.table.slot n) (n : Nat) :
    (c.destruct limit t).table.slot n = s.table.slot n := by
  have hsavedFree := h.savedFree
  have hfileFree := h.fileFree
  have hne : c.saved ≠ stdoutFileno := by
    intro heq
    rw [heq, hopen] at hsavedFree
    cases hsavedFree
  have hsaved : t.table.slot c.saved = some sink := by
    rw [hsame, h.slot, if_neg hne, if_pos rfl]
  rw [slot_destruct hsaved (h.target_eq ▸ h.within), h.target_eq, hsame, h.slot]
  by_cases hfile : n = c.file
  · simp [hfile, hfileFree]
  · by_cases hback : n = c.saved
    · simp [hback, hsavedFree]
    · by_cases htarget : n = stdoutFileno
      · rw [if_neg (not_or.mpr ⟨hfile, hback⟩), if_pos htarget, htarget, hopen]
      · simp [hfile, hback, htarget]

end FdCapture

/-! ## Bytes -/

/-- What the buffer of `stdout` holds for a sink. -/
def Proc.pending (s : Proc) (sink : Sink) : Bytes :=
  if s.table.slot stdoutFileno = some sink then s.buffer else []

/-- Between two states every sink gets its raw bytes, and of its stdio bytes those that are
no longer pending. -/
def Delivers (stdio raw : Sink → Bytes) (s s' : Proc) : Prop :=
  ∀ sink, ∃ sent out, sent ++ s'.pending sink = s.pending sink ++ stdio sink ∧
    Shuffle sent (raw sink) out ∧ (s'.files sink).file.data = (s.files sink).file.data ++ out

/-- No bytes. -/
def nothing : Sink → Bytes := fun _ => []

/-- `bs` for `top`. -/
def only (top : Sink) (bs : Bytes) : Sink → Bytes := update nothing top bs

/-- A state in which prints and writes go to `top`.  Every file is at its end, so that they
append, and the numbers of captures to come are unused. -/
structure Valid (top : Sink) (s : Proc) : Prop where
  target : s.table.slot stdoutFileno = some top
  old : ∀ n k, s.table.slot n = some (.captured k) → k < s.made
  atEnd : ∀ sink, (s.files sink).file.offset = (s.files sink).file.data.length
  unused : ∀ k, s.made ≤ k → (s.files (.captured k)).file.data = []

section Bytes

variable {top : Sink} {s s' t : Proc} {stdio raw stdio' raw' : Sink → Bytes}

theorem Delivers.trans (h : Delivers stdio raw s s') (h' : Delivers stdio' raw' s' t) :
    Delivers (fun sink => stdio sink ++ stdio' sink) (fun sink => raw sink ++ raw' sink) s t := by
  intro sink
  obtain ⟨sent, out, hpending, hshuffle, hdata⟩ := h sink
  obtain ⟨sent', out', hpending', hshuffle', hdata'⟩ := h' sink
  refine ⟨sent ++ sent', out ++ out', ?_, hshuffle.append hshuffle', ?_⟩
  · rw [List.append_assoc, hpending', ← List.append_assoc, hpending, List.append_assoc]
  · rw [hdata', hdata, List.append_assoc]

theorem Proc.pending_eq_nil (h : s.buffer = []) (sink : Sink) : s.pending sink = [] := by
  unfold Proc.pending
  rw [h, ite_self]

theorem delivers_refl (s : Proc) : Delivers nothing nothing s s := by
  intro sink
  exact ⟨[], [], (List.append_nil _).symm, .nil, (List.append_nil _).symm⟩

/-- Nothing is pending on either side, and the files are as they were. -/
theorem delivers_nothing (hbefore : s.buffer = []) (hafter : s'.buffer = [])
    (hdata : ∀ sink, (s'.files sink).file.data = (s.files sink).file.data) :
    Delivers nothing nothing s s' := by
  intro sink
  refine ⟨[], [], ?_, .nil, ?_⟩
  · rw [Proc.pending_eq_nil hbefore, Proc.pending_eq_nil hafter]
    rfl
  · rw [hdata, List.append_nil]

theorem Valid.pending (h : Valid top s) (sink : Sink) :
    s.pending sink = only top s.buffer sink := by
  unfold Proc.pending only
  rw [h.target, Function.update_apply]
  by_cases hsink : sink = top
  · rw [if_pos (by rw [hsink]), if_pos hsink]
  · rw [if_neg fun heq => hsink (Option.some.inj heq).symm, if_neg hsink]
    rfl

theorem Valid.write_eq (h : Valid top s) (bs : Bytes) :
    s.write stdoutFileno bs =
      { s with files := update s.files top ((s.files top).write bs) } := by
  unfold Proc.write
  rw [h.target]

theorem Valid.file_write (h : Valid top s) (bs : Bytes) (sink : Sink) :
    ((s.write stdoutFileno bs).files sink).file =
      ⟨(s.files sink).file.data ++ only top bs sink,
        ((s.files sink).file.data ++ only top bs sink).length⟩ := by
  rw [h.write_eq]
  unfold only
  by_cases hsink : sink = top
  · subst hsink
    simp only [Function.update_self, Opened.write]
    rw [OpenFile.write_at_end (h.atEnd sink), List.length_append]
  · simp only [Function.update_of_ne hsink, nothing, List.append_nil]
    rw [← h.atEnd sink]

theorem Valid.stream_write (h : Valid top s) (bs : Bytes) (sink : Sink) :
    ((s.write stdoutFileno bs).files sink).stream = (s.files sink).stream := by
  rw [h.write_eq]
  by_cases hsink : sink = top
  · subst hsink
    simp only [Function.update_self, Opened.write]
  · simp only [Function.update_of_ne hsink]

theorem Valid.write (h : Valid top s) (bs : Bytes) : Valid top (s.write stdoutFileno bs) where
  target := by rw [s.table_write, h.target]
  old := by
    rw [s.table_write, s.made_write]
    exact h.old
  atEnd := fun sink => by rw [h.file_write]
  unused := by
    intro k hk
    rw [s.made_write] at hk
    have hne : Sink.captured k ≠ top := by
      rintro rfl
      have hless := h.old stdoutFileno k h.target
      omega
    rw [h.file_write, h.unused k hk, only, Function.update_of_ne hne]
    rfl

theorem Valid.withBuffer (h : Valid top s) (buffer : Bytes) :
    Valid top { s with buffer := buffer } :=
  ⟨h.target, h.old, h.atEnd, h.unused⟩

theorem Valid.delivers_write (h : Valid top s) (bs : Bytes) :
    Delivers nothing (only top bs) s (s.write stdoutFileno bs) := by
  intro sink
  have hbuffer : (s.write stdoutFileno bs).buffer = s.buffer := by rw [h.write_eq]
  refine ⟨[], only top bs sink, ?_, Shuffle.of_right _, by rw [h.file_write]⟩
  rw [h.pending, (h.write bs).pending, hbuffer]
  exact (List.append_nil _).symm

/-- stdio writes a first part of what it has, and keeps the rest. -/
theorem Valid.delivers_send (h : Valid top s) {bs front rest : Bytes}
    (hsplit : s.buffer ++ bs = front ++ rest) :
    Delivers (only top bs) nothing s { s.write stdoutFileno front with buffer := rest } := by
  intro sink
  have hfile := congrArg OpenFile.data (h.file_write front sink)
  refine ⟨only top front sink, only top front sink, ?_, Shuffle.of_left _, hfile⟩
  rw [h.pending, ((h.write front).withBuffer rest).pending]
  unfold only
  by_cases hsink : sink = top
  · subst hsink
    simp only [Function.update_self]
    exact hsplit.symm
  · simp only [Function.update_of_ne hsink, nothing, List.append_nil]

theorem Valid.fflush_eq (h : Valid top s) :
    s.fflush = { s.write stdoutFileno s.buffer with buffer := [] } := by
  unfold Proc.fflush
  rw [h.target]

theorem Valid.fflush (h : Valid top s) : Valid top s.fflush := by
  rw [h.fflush_eq]
  exact (h.write s.buffer).withBuffer []

theorem Valid.buffer_fflush (h : Valid top s) : s.fflush.buffer = [] := by
  rw [h.fflush_eq]

theorem Valid.delivers_fflush (h : Valid top s) : Delivers nothing nothing s s.fflush := by
  rw [h.fflush_eq]
  have hsend := h.delivers_send (show s.buffer ++ [] = s.buffer ++ [] from rfl)
  rwa [show only top [] = nothing from Function.update_eq_self top nothing] at hsend

theorem Valid.files_fflush_of_ne (h : Valid top s) {sink : Sink} (hne : sink ≠ top) :
    s.fflush.files sink = s.files sink := by
  rw [h.fflush_eq, h.write_eq]
  exact Function.update_of_ne hne _ _

theorem Valid.stream_fflush (h : Valid top s) (sink : Sink) :
    (s.fflush.files sink).stream = (s.files sink).stream := by
  rw [h.fflush_eq]
  exact h.stream_write s.buffer sink

theorem Valid.print (h : Valid top s) (bs : Bytes) (flushed : Nat) :
    Valid top (s.print bs flushed) :=
  (h.write _).withBuffer _

theorem Valid.delivers_print (h : Valid top s) (bs : Bytes) (flushed : Nat) :
    Delivers (only top bs) nothing s (s.print bs flushed) :=
  h.delivers_send (List.take_append_drop flushed (s.buffer ++ bs)).symm

/-! ## A capture -/

variable {limit block : Nat} {found : Resources} {c : FdCapture}

/-- A new temporary file is as empty as the unused place was. -/
theorem Valid.data_update (h : Valid top s) (sink : Sink) :
    (update s.files (.captured s.made) .tmpfile sink).file.data = (s.files sink).file.data := by
  by_cases hsink : sink = .captured s.made
  · subst hsink
    rw [Function.update_self, h.unused s.made (Nat.le_refl _)]
    rfl
  · rw [Function.update_of_ne hsink]

/-- A state that differs from a flushed one by a new temporary file. -/
theorem Valid.made (h : Valid top s) {top' : Sink}
    (hfiles : s'.files = update s.files (.captured s.made) .tmpfile) (hmade : s'.made = s.made + 1)
    (htarget : s'.table.slot stdoutFileno = some top')
    (hold : ∀ n k, s'.table.slot n = some (.captured k) → k < s'.made) : Valid top' s' where
  target := htarget
  old := hold
  atEnd := by
    intro sink
    rw [hfiles]
    by_cases hsink : sink = .captured s.made
    · subst hsink
      rw [Function.update_self]
      rfl
    · rw [Function.update_of_ne hsink]
      exact h.atEnd sink
  unused := by
    intro k hk
    rw [hfiles, h.data_update]
    exact h.unused k (by omega)

/-- The constructor flushes what was printed before. -/
theorem Valid.delivers_construct (h : Valid top s)
    (hc : FdCapture.Constructed limit true top s c s') :
    Delivers nothing nothing s s' := by
  refine h.delivers_fflush.trans (delivers_nothing h.buffer_fflush ?_ fun sink => ?_)
  · rw [hc.buffer]
    exact h.buffer_fflush
  · have hdata := h.fflush.data_update sink
    rw [s.made_fflush] at hdata
    rw [hc.files]
    exact hdata

theorem Valid.construct (h : Valid top s) (hc : FdCapture.Constructed limit true top s c s') :
    Valid (.captured s.made) s' := by
  apply h.fflush.made
  · rw [s.made_fflush]
    exact hc.files
  · rw [s.made_fflush]
    exact hc.made
  · rw [hc.slot, if_pos rfl]
  · intro n k hslot
    rw [hc.slot] at hslot
    rw [hc.made]
    split at hslot
    · cases hslot
      exact Nat.lt_succ_self _
    · split at hslot
      · cases hslot
        exact Nat.lt_succ_of_lt (h.old _ _ h.target)
      · split at hslot
        · cases hslot
          exact Nat.lt_succ_self _
        · exact Nat.lt_succ_of_lt (h.old _ _ hslot)

theorem Valid.delivers_construct_none (h : Valid top s)
    (hc : FdCapture.construct limit found stdoutFileno true s = (none, s')) :
    Delivers nothing nothing s s' ∧ Valid top s' := by
  have hnone : (FdCapture.construct limit found stdoutFileno true s).1 = none := by rw [hc]
  have hslot := FdCapture.slot_construct_none hnone
  obtain ⟨hbuffer, hfiles⟩ := FdCapture.construct_none_eq hnone
  rw [hc] at hslot hbuffer hfiles
  have htarget : s'.table.slot stdoutFileno = some top := (hslot _).trans h.target
  have hafter : s'.buffer = [] := hbuffer.trans h.buffer_fflush
  rcases hfiles with ⟨hfiles, hmade⟩ | ⟨hfiles, hmade⟩
  · have hvalid : Valid top s' := by
      refine ⟨htarget, ?_, ?_, ?_⟩
      · intro n k hopen
        rw [hmade]
        exact h.old n k ((hslot n).symm.trans hopen)
      · rw [hfiles]
        exact h.fflush.atEnd
      · rw [hfiles, hmade, ← s.made_fflush]
        exact h.fflush.unused
    refine ⟨h.delivers_fflush.trans (delivers_nothing h.buffer_fflush hafter ?_), hvalid⟩
    intro sink
    rw [hfiles]
    rfl
  · rw [← s.made_fflush] at hfiles hmade
    refine ⟨h.delivers_fflush.trans (delivers_nothing h.buffer_fflush hafter ?_), ?_⟩
    · intro sink
      rw [hfiles]
      exact h.fflush.data_update sink
    · apply h.fflush.made hfiles hmade htarget
      intro n k hopen
      rw [hmade, s.made_fflush]
      exact Nat.lt_succ_of_lt (h.old n k ((hslot n).symm.trans hopen))

/-- The first `content()` of a capture returns all of its file. -/
theorem Valid.content (h : Valid top s) (hblock : 0 < block) (hstream : c.stream = true)
    (hfile : s.table.slot c.file = some top)
    (hunread : (s.files top).stream = Opened.tmpfile.stream) :
    ∃ read, c.content block s = (some (s.fflush.files top).file.data,
        { s.fflush with files := update s.fflush.files top read }) ∧
      Opened.AtEnd (s.fflush.files top).file.data read := by
  have hfresh : Fresh (s.fflush.files top).file.data (s.fflush.files top) := by
    constructor
    · exact congrArg (OpenFile.mk _) (h.fflush.atEnd top)
    · rw [h.stream_fflush, hunread]
  obtain ⟨hreturned, hend⟩ := content_fresh hblock hfresh
  refine ⟨_, ?_, hend⟩
  unfold FdCapture.content
  rw [hstream]
  simp only [Proc.flushIf, if_true, Proc.table_fflush, hfile]
  rw [hreturned]

theorem Valid.afterContent (h : Valid top s) {read : Opened}
    (hend : Opened.AtEnd (s.files top).file.data read) :
    Valid top { s with files := update s.files top read } where
  target := h.target
  old := h.old
  atEnd := by
    intro sink
    by_cases hsink : sink = top
    · subst hsink
      simp only [Function.update_self, hend.file_eq]
    · simp only [Function.update_of_ne hsink]
      exact h.atEnd sink
  unused := by
    intro k hk
    by_cases hsink : Sink.captured k = top
    · subst hsink
      simp only [Function.update_self]
      rw [hend.file_eq]
      exact h.unused k hk
    · simp only [Function.update_of_ne hsink]
      exact h.unused k hk

theorem Valid.destruct_eq (h : Valid top s) (hstream : c.stream = true) :
    (c.destruct limit s).files = s.fflush.files ∧ (c.destruct limit s).buffer = [] ∧
      (c.destruct limit s).made = s.made := by
  unfold FdCapture.destruct
  rw [hstream]
  exact ⟨rfl, h.buffer_fflush, s.made_fflush⟩

/-- The destructor flushes what was printed during the capture. -/
theorem Valid.delivers_destruct (h : Valid top s) (hstream : c.stream = true) :
    Delivers nothing nothing s (c.destruct limit s) := by
  obtain ⟨hfiles, hbuffer, -⟩ := h.destruct_eq hstream
  refine h.delivers_fflush.trans (delivers_nothing h.buffer_fflush hbuffer ?_)
  intro sink
  rw [hfiles]

end Bytes

end Ftl.Io
