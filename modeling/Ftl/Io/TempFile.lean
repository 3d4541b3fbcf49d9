/-
  Io/TempFile.lean --- `ftl_temp_file_create` of ftl/ftl.h.

  A call is given by what it is answered: by `mkstemp` once the pattern has been
  accepted, by each `write`, and by `strdup`.  The file system is a function of the
  path.  The content loop is that of `Io/PartialWrites`.

      temp_file_complete_iff   a call is all-or-nothing exactly when the prefix fits into
                               the pattern, no write fails and `strdup` succeeds
      temp_file_incomplete     a full disk: a path to an empty file is returned
-/
import Mathlib.Logic.Function.Basic
import Ftl.Io.PartialWrites

set_option autoImplicit false

namespace Ftl.Io

open Function (update)
open Foundation (AskLoop)
open Process (Bytes Errno)

/-! ## The call -/

/-- The contents of the files, by path. -/
abbrev Files : Type := Bytes → Option Bytes

/-- `"/tmp/"`. -/
def tmpSlash : Bytes := [47, 116, 109, 112, 47]

/-- `'_'`. -/
def underscore : UInt8 := 95

/-- `"XXXXXX"`. -/
def sixX : Bytes := [88, 88, 88, 88, 88, 88]

/-- What `snprintf` leaves in the `char pattern[256]`. -/
def patternOf (namePrefix : Text) : Bytes :=
  (tmpSlash ++ namePrefix.bytes ++ underscore :: sixX).take 255

/-- The characters that `mkstemp` puts in place of the X. -/
structure Suffix where
  chars : Bytes
  six : chars.length = 6

/-- `EINVAL`. -/
def einval : Errno := .other 22

/-- `ENOMEM`. -/
def enomem : Errno := .other 12

/-- The outcomes of the calls that the function makes. -/
structure Outcomes where
  /-- of `mkstemp`, for a pattern that ends in six X: the new name, or a failure -/
  name : Except Errno Suffix
  writes : Nat → WriteResult
  strdup : Bool

/-- `mkstemp(pattern)`: the path of the new file. -/
def mkstemp (pattern : Bytes) (answer : Except Errno Suffix) : Except Errno Bytes :=
  if sixX <:+ pattern then
    answer.map fun suffix => pattern.take (pattern.length - 6) ++ suffix.chars
  else .error einval

/-- What the caller has after the call: a path, or NULL with errno, and the files. -/
structure Created where
  returned : Except Errno Bytes
  files : Files

/-- `ftl_temp_file_create(prefix, content)`, when its loop is over after `turns` calls of
`write`. -/
def tempFileCreate (namePrefix content : Option Text) (o : Outcomes) (turns : Nat)
    (files : Files) : Option Created :=
  match namePrefix, content with
  | some namePrefix, some content =>
      match mkstemp (patternOf namePrefix) o.name with
      | .error e => some ⟨.error e, files⟩
      | .ok path =>
          let p := (contentLoop content).after o.writes turns
          if WriteLoop.isOver p then
            some
              { returned := if o.strdup then .ok path else .error enomem
                files := update files path (some p.delivered) }
          else none
  | _, _ => some ⟨.error einval, files⟩

/-- The outcomes that can be met: `mkstemp` names no file that exists, and `write` returns
a count from 1 up to the number that was requested, or -1. -/
structure Outcomes.Possible (o : Outcomes) (namePrefix content : Text) (files : Files) :
    Prop where
  fresh : ∀ path, mkstemp (patternOf namePrefix) o.name = .ok path → files path = none
  writes : (contentLoop content).Admits o.writes

/-! ## All or nothing -/

/-- A path of the documented form. -/
def NamedAfter (namePrefix : Text) (path : Bytes) : Prop :=
  ∃ suffix : Suffix, path = tmpSlash ++ namePrefix.bytes ++ underscore :: suffix.chars

/-- A path that is returned is that of a new file which holds `content`; if NULL is
returned, there is no new file. -/
structure AllOrNothing (namePrefix content : Option Text) (files : Files) (c : Created) :
    Prop where
  all : ∀ path, c.returned = .ok path → ∃ p s, namePrefix = some p ∧ content = some s ∧
    NamedAfter p path ∧ files path = none ∧ c.files path = some s.bytes
  nothing : ∀ e, c.returned = .error e → ∀ path, files path = none → c.files path = none

/-- The bytes taken by the first `k` writes. -/
def counted (writes : Nat → WriteResult) : Nat → Nat
  | 0 => 0
  | k + 1 =>
      match writes k with
      | .wrote n => counted writes k + n
      | .failed _ => counted writes k

/-- A result that ends the loop early. -/
def WriteResult.hard : WriteResult → Prop
  | .wrote _ | .failed .eintr => False
  | .failed _ => True

/-- A write fails before `size` bytes have been taken. -/
def FailsBefore (writes : Nat → WriteResult) (size : Nat) : Prop :=
  ∃ j, (writes j).hard ∧ counted writes j < size

/-- The calls whose outcomes and arguments leave neither half a file nor a file without a
path: if `mkstemp` makes a file, the prefix has at most 243 bytes, no write fails before
all is written, and `strdup` succeeds.  The pattern array has 256 bytes, and 243 are what
"/tmp/", the '_', the six X and the NUL leave of them. -/
def LeavesNothingHalf (namePrefix content : Option Text) (o : Outcomes) : Prop :=
  ∀ p s path, namePrefix = some p → content = some s →
    mkstemp (patternOf p) o.name = .ok path →
      p.bytes.length ≤ 243 ∧ ¬ FailsBefore o.writes s.bytes.length ∧ o.strdup = true

/-! ## The name -/

theorem length_pattern_le (namePrefix : Text) : (patternOf namePrefix).length ≤ 255 := by
  unfold patternOf
  rw [List.length_take]
  exact Nat.min_le_left _ _

theorem pattern_of_short {namePrefix : Text} (h : namePrefix.bytes.length ≤ 243) :
    patternOf namePrefix = tmpSlash ++ namePrefix.bytes ++ [underscore] ++ sixX := by
  unfold patternOf
  rw [List.take_of_length_le]
  · simp
  · simp [tmpSlash, sixX]
    omega

/-- The name that `mkstemp` makes is as long as the pattern. -/
theorem mkstemp_eq_ok {pattern path : Bytes} {answer : Except Errno Suffix}
    (h : mkstemp pattern answer = .ok path) :
    ∃ suffix, answer = .ok suffix ∧ sixX <:+ pattern ∧
      path = pattern.take (pattern.length - 6) ++ suffix.chars := by
  unfold mkstemp at h
  split at h
  · rename_i hends
    cases answer with
    | error e => cases h
    | ok suffix =>
        cases h
        exact ⟨suffix, rfl, hends, rfl⟩
  · cases h

theorem length_of_mkstemp {pattern path : Bytes} {answer : Except Errno Suffix}
    (h : mkstemp pattern answer = .ok path) : path.length = pattern.length := by
  obtain ⟨suffix, -, hends, rfl⟩ := mkstemp_eq_ok h
  have hlen : 6 ≤ pattern.length := hends.length_le
  rw [List.length_append, List.length_take, suffix.six]
  omega

/-- The name is of the documented form exactly when the prefix fits. -/
theorem namedAfter_iff {namePrefix : Text} {path : Bytes} {answer : Except Errno Suffix}
    (h : mkstemp (patternOf namePrefix) answer = .ok path) :
    NamedAfter namePrefix path ↔ namePrefix.bytes.length ≤ 243 := by
  constructor
  · rintro ⟨suffix, hpath⟩
    have hle := length_pattern_le namePrefix
    have hlength := length_of_mkstemp h
    rw [hpath] at hlength
    simp only [List.length_append, List.length_cons, suffix.six, tmpSlash] at hlength
    simp at hlength
    omega
  · intro hshort
    obtain ⟨suffix, -, -, rfl⟩ := mkstemp_eq_ok h
    refine ⟨suffix, ?_⟩
    rw [pattern_of_short hshort, List.length_append, List.take_left' (by simp [sixX])]
    simp

/-! ## The content -/

theorem counted_mono (writes : Nat → WriteResult) {j k : Nat} (h : j ≤ k) :
    counted writes j ≤ counted writes k := by
  induction h with
  | refl => exact Nat.le_refl _
  | @step k _ ih =>
      refine Nat.le_trans ih ?_
      simp only [counted]
      split
      · exact Nat.le_add_right _ _
      · exact Nat.le_refl _

/-- What the state of the loop after `k` writes says about the schedule. -/
def Told (writes : Nat → WriteResult) (size k : Nat) (p : Progress) : Prop :=
  match p.state with
  | .writing written =>
      written < size ∧ written = counted writes k ∧ ∀ j, j < k → ¬ (writes j).hard
  | .finished _ => ¬ FailsBefore writes size
  | .brokeOff _ => FailsBefore writes size

/-- Once `size` bytes have been taken, no failure comes too early. -/
theorem not_failsBefore {writes : Nat → WriteResult} {size k : Nat}
    (hall : size ≤ counted writes k) (hnone : ∀ j, j < k → ¬ (writes j).hard) :
    ¬ FailsBefore writes size := by
  rintro ⟨j, hhard, hlt⟩
  have hk : k ≤ j := by
    by_contra hjk
    exact hnone j (by omega) hhard
  have hmono := counted_mono writes hk
  omega

theorem told_start {L : WriteLoop} {data : Bytes} (hL : L.Reads data)
    (writes : Nat → WriteResult) : Told writes data.length 0 L.start := by
  have hdone : data = [] → ¬ FailsBefore writes data.length := by
    intro hnil
    rw [hnil]
    exact not_failsBefore (Nat.zero_le (counted writes 0)) fun _ hj => by omega
  unfold WriteLoop.start
  cases hentered : L.entered with
  | false => exact hdone (hL.entered hentered)
  | true =>
      unfold WriteLoop.head
      rw [hL.total]
      by_cases hlt : 0 < data.length
      · rw [if_pos hlt]
        exact ⟨hlt, rfl, fun _ hj => by omega⟩
      · rw [if_neg hlt]
        exact hdone (List.length_eq_zero_iff.mp (by omega))

section Told

variable {L : WriteLoop} {data : Bytes} {writes : Nat → WriteResult} {k written : Nat}

/-- Without a failure in the last write there has been none. -/
theorem not_hard_succ (hnone : ∀ j, j < k → ¬ (writes j).hard) (hlast : ¬ (writes k).hard) :
    ∀ j, j < k + 1 → ¬ (writes j).hard := by
  intro j hj
  rcases Nat.lt_succ_iff_lt_or_eq.mp hj with hj | rfl
  · exact hnone j hj
  · exact hlast

theorem told_wrote (hL : L.Reads data) {delivered : Bytes} {n : Nat} (hr : writes k = .wrote n)
    (hallows : L.Allows ⟨.writing written, delivered⟩ (.wrote n))
    (htold : Told writes data.length k ⟨.writing written, delivered⟩) :
    Told writes data.length (k + 1) (L.next ⟨.writing written, delivered⟩ (.wrote n)) := by
  obtain ⟨hlt, hcounted, hnone⟩ := htold
  have hlater := not_hard_succ hnone (by simp [hr, WriteResult.hard])
  have hsum : counted writes (k + 1) = written + n := by
    simp only [counted, hr]
    omega
  simp only [Told, WriteLoop.next]
  rw [WriteLoop.afterWrite_wrote hL hlt hallows.2]
  by_cases hless : written + n < data.length
  · rw [if_pos hless]
    exact ⟨hless, hsum.symm, hlater⟩
  · rw [if_neg hless]
    exact not_failsBefore (by omega) hlater

theorem told_failed (hL : L.Reads data) {delivered : Bytes} {e : Errno}
    (hr : writes k = .failed e)
    (htold : Told writes data.length k ⟨.writing written, delivered⟩) :
    Told writes data.length (k + 1) (L.next ⟨.writing written, delivered⟩ (.failed e)) := by
  obtain ⟨hlt, hcounted, hnone⟩ := htold
  have hsame : counted writes (k + 1) = counted writes k := by
    simp only [counted, hr]
  cases e with
  | eintr =>
      have hlater := not_hard_succ hnone (by simp [hr, WriteResult.hard])
      simp only [Told, WriteLoop.next, WriteLoop.afterWrite_eintr hL hlt]
      exact ⟨hlt, by omega, hlater⟩
  | epipe => exact ⟨k, by simp [hr, WriteResult.hard], by omega⟩
  | other code => exact ⟨k, by simp [hr, WriteResult.hard], by omega⟩

theorem told_next (hL : L.Reads data) {p : Progress} (hgoes : WriteLoop.isOver p = false)
    (hallows : L.Allows p (writes k)) (htold : Told writes data.length k p) :
    Told writes data.length (k + 1) (L.next p (writes k)) := by
  obtain ⟨state, delivered⟩ := p
  cases state with
  | finished written => cases hgoes
  | brokeOff written => cases hgoes
  | writing written =>
      cases hr : writes k with
      | wrote n =>
          rw [hr] at hallows
          exact told_wrote hL hr hallows htold
      | failed e => exact told_failed hL hr htold

end Told

/-- The loop is over with the whole of `data` delivered exactly when no write fails before
that. -/
theorem delivered_eq_iff {L : WriteLoop} {data : Bytes} (hL : L.Reads data)
    {writes : Nat → WriteResult} (hadmits : L.Admits writes) {k : Nat}
    (hover : WriteLoop.isOver (L.after writes k) = true) :
    (L.after writes k).delivered = data ↔ ¬ FailsBefore writes data.length := by
  have htold : Told writes data.length k (L.after writes k) := by
    refine AskLoop.invariant_count (Told writes data.length) hadmits (told_start hL writes)
      ?_ ?_ k
    · intro k p hover htold
      obtain ⟨state, delivered⟩ := p
      cases state with
      | writing written => cases hover
      | finished written => exact htold
      | brokeOff written => exact htold
    · intro k p hgoes hallows htold
      exact told_next hL hgoes hallows htold
  obtain ⟨h, hstands⟩ : ∃ h, WriteLoop.Stands data (L.after writes k) h :=
    ⟨_, WriteLoop.handed_over hL hadmits k⟩
  generalize L.after writes k = p at hover htold hstands
  cases hstands with
  | writing hlt => cases hover
  | finished => exact iff_of_true rfl htold
  | brokeOff hlt =>
      refine iff_of_false ?_ (not_not_intro htold)
      intro hall
      have hlength := congrArg List.length hall
      rw [List.length_take] at hlength
      omega

/-! ## The condition -/

theorem tempFileCreate_of_ok {p s : Text} {o : Outcomes} {turns : Nat} {files : Files}
    {c : Created} {path : Bytes} (hname : mkstemp (patternOf p) o.name = .ok path)
    (h : tempFileCreate (some p) (some s) o turns files = some c) :
    WriteLoop.isOver ((contentLoop s).after o.writes turns) = true ∧
      c.returned = (if o.strdup then .ok path else .error enomem) ∧
      c.files = update files path (some ((contentLoop s).after o.writes turns).delivered) := by
  simp only [tempFileCreate, hname] at h
  split at h
  · rename_i hover
    cases h
    exact ⟨hover, rfl, rfl⟩
  · cases h

theorem tempFileCreate_of_none {namePrefix content : Option Text} {o : Outcomes}
    {turns : Nat} {files : Files} {c : Created}
    (hnone : ∀ p s path, namePrefix = some p → content = some s →
      mkstemp (patternOf p) o.name ≠ .ok path)
    (h : tempFileCreate namePrefix content o turns files = some c) :
    ∃ e, c = ⟨.error e, files⟩ := by
  unfold tempFileCreate at h
  split at h
  · rename_i p s
    cases hname : mkstemp (patternOf p) o.name with
    | error e =>
        rw [hname] at h
        cases h
        exact ⟨e, rfl⟩
    | ok path => exact (hnone p s path rfl rfl hname).elim
  · cases h
    exact ⟨einval, rfl⟩

section Made

variable {p s : Text} {o : Outcomes} {files : Files} {c : Created} {path : Bytes}

/-- What is all-or-nothing, of a call for which `mkstemp` makes the file `path`. -/
theorem allOrNothing_iff_of_made {written : Bytes} (hfresh : files path = none)
    (hreturned : c.returned = if o.strdup then .ok path else .error enomem)
    (hfile : c.files path = some written) :
    AllOrNothing (some p) (some s) files c ↔
      NamedAfter p path ∧ written = s.bytes ∧ o.strdup = true := by
  constructor
  · rintro ⟨hall, hnothing⟩
    cases hdup : o.strdup with
    | false =>
        rw [hdup] at hreturned
        have hgone := hnothing enomem hreturned path hfresh
        rw [hfile] at hgone
        cases hgone
    | true =>
        rw [hdup] at hreturned
        obtain ⟨p', s', hp, hs, hnamed, -, hholds⟩ := hall path hreturned
        cases hp
        cases hs
        rw [hfile] at hholds
        exact ⟨hnamed, Option.some.inj hholds, rfl⟩
  · rintro ⟨hnamed, hwritten, hdup⟩
    rw [hdup] at hreturned
    refine ⟨?_, ?_⟩
    · intro path' hpath
      rw [hreturned] at hpath
      cases hpath
      exact ⟨p, s, rfl, rfl, hnamed, hfresh, by rw [hfile, hwritten]⟩
    · intro e he
      rw [hreturned] at he
      cases he

theorem leavesNothingHalf_iff_of_made (hname : mkstemp (patternOf p) o.name = .ok path) :
    LeavesNothingHalf (some p) (some s) o ↔
      p.bytes.length ≤ 243 ∧ ¬ FailsBefore o.writes s.bytes.length ∧ o.strdup = true := by
  constructor
  · intro hhalf
    exact hhalf p s path rfl rfl hname
  · intro hhalf p' s' path' hp hs hname'
    cases hp
    cases hs
    exact hhalf

end Made

/-- A call that returns is all-or-nothing exactly when, if `mkstemp` makes a file, the
prefix fits, no write fails before all is written, and `strdup` succeeds. -/
theorem temp_file_complete_iff (namePrefix content : Option Text) (o : Outcomes)
    (turns : Nat) (files : Files) (c : Created)
    (hpossible : ∀ p s, namePrefix = some p → content = some s → o.Possible p s files)
    (hcall : tempFileCreate namePrefix content o turns files = some c) :
    AllOrNothing namePrefix content files c ↔ LeavesNothingHalf namePrefix content o := by
  by_cases hmade : ∃ p s path, namePrefix = some p ∧ content = some s ∧
      mkstemp (patternOf p) o.name = .ok path
  · obtain ⟨p, s, path, rfl, rfl, hname⟩ := hmade
    obtain ⟨hover, hreturned, hfiles⟩ := tempFileCreate_of_ok hname hcall
    obtain ⟨hfresh, hadmits⟩ := hpossible p s rfl rfl
    have hnew : c.files path = some ((contentLoop s).after o.writes turns).delivered := by
      rw [hfiles]
      exact Function.update_self path _ files
    rw [allOrNothing_iff_of_made (hfresh path hname) hreturned hnew,
      leavesNothingHalf_iff_of_made hname, namedAfter_iff hname,
      delivered_eq_iff (reads_contentLoop s) hadmits hover]
  · have hnone : ∀ p s path, namePrefix = some p → content = some s →
        mkstemp (patternOf p) o.name ≠ .ok path := by
      intro p s path hp hs hname
      exact hmade ⟨p, s, path, hp, hs, hname⟩
    obtain ⟨e, rfl⟩ := tempFileCreate_of_none hnone hcall
    refine iff_of_true ⟨?_, ?_⟩ ?_
    · intro path hpath
      cases hpath
    · intro e' _ path hfree
      exact hfree
    · intro p s path hp hs hname
      exact (hnone p s path hp hs hname).elim

/-- The text "p". -/
def letter : Text := ⟨⟨[112], by decide⟩, by decide⟩

/-- `"/tmp/p_aaaaaa"`. -/
def letterFile : Bytes := [47, 116, 109, 112, 47, 112, 95, 97, 97, 97, 97, 97, 97]

/-- A call that makes this file, on a disk that answers each write with `r`. -/
def onDisk (r : WriteResult) : Outcomes where
  name := .ok ⟨[97, 97, 97, 97, 97, 97], rfl⟩
  writes := fun _ => r
  strdup := true

theorem onDisk_possible {r : WriteResult} (hr : (contentLoop letter).Allows
      (contentLoop letter).start r)
    (hover : WriteLoop.isOver ((contentLoop letter).after (onDisk r).writes 1) = true) :
    (onDisk r).Possible letter letter (fun _ => none) where
  fresh := fun _ _ => rfl
  writes := by
    intro k hgoes
    cases k with
    | zero => exact hr
    | succ k =>
        have hsame : (contentLoop letter).after (onDisk r).writes (k + 1) =
            (contentLoop letter).after (onDisk r).writes 1 :=
          AskLoop.after_of_over (A := (contentLoop letter).loop) hover (Nat.le_add_left 1 k)
        have hstill : WriteLoop.isOver ((contentLoop letter).after (onDisk r).writes (k + 1))
            = true := by
          rw [hsame]
          exact hover
        cases hstill.symm.trans hgoes

/-- With room for the byte, the file is complete. -/
theorem temp_file_complete_letter :
    AllOrNothing (some letter) (some letter) (fun _ => none)
        ⟨.ok letterFile, update (fun _ => none) letterFile (some [112])⟩ ↔
      LeavesNothingHalf (some letter) (some letter) (onDisk (.wrote 1)) :=
  temp_file_complete_iff (some letter) (some letter) (onDisk (.wrote 1)) 1 (fun _ => none)
    ⟨.ok letterFile, update (fun _ => none) letterFile (some [112])⟩
    (by
      intro p s hp hs
      cases hp
      cases hs
      exact onDisk_possible ⟨Nat.le_refl 1, by decide⟩ rfl)
    rfl

/-- On a full disk the path of an empty file is returned. -/
theorem temp_file_incomplete :
    (onDisk (.failed (.other 28))).Possible letter letter (fun _ => none) ∧
      ∃ c, tempFileCreate (some letter) (some letter) (onDisk (.failed (.other 28))) 1
          (fun _ => none) = some c ∧
        ¬ AllOrNothing (some letter) (some letter) (fun _ => none) c := by
  refine ⟨onDisk_possible trivial rfl,
    ⟨.ok letterFile, update (fun _ => none) letterFile (some [])⟩, rfl, ?_⟩
  rintro ⟨hall, -⟩
  obtain ⟨p, s, -, hs, -, -, hholds⟩ := hall letterFile rfl
  cases hs
  have hempty : update (fun _ => none) letterFile (some []) letterFile = some ([] : Bytes) :=
    Function.update_self letterFile _ _
  cases hempty.symm.trans hholds

end Ftl.Io
