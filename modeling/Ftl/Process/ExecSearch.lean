/-
  Process/ExecSearch.lean --- which file the child executes.

  Embedded source: the choice of the exec call in `Subprocess::child_exec` and
  `Subprocess::execve_portable` (ftl/process/subprocess.hpp).

  `execvp` and `execvpe` belong to the C library.  They search along the PATH of the
  calling process, or along a default of the library; `execve_portable` searches along
  the PATH of the environment it is given.  The texts that the two try differ ("ls" and
  "./ls", "/bin//ls" and "/bin/ls"), so a text is resolved to a directory first.  Both get
  what `c_str()` hands on of a program and of an environment, the texts up to the first NUL.

      searchFrom_eq      the loop of `execve_portable` tries the elements of PATH in order
      builds_agree_iff   the two builds execute the same file exactly when both lists
                         name the same directories in the same order
-/
import Mathlib.Data.List.TakeWhile
import Ftl.Foundation.FirstMatch
import Ftl.Process.Environment

set_option autoImplicit false

namespace Ftl.Process

/-! ## C strings -/

/-- The byte that ends a C string. -/
def nul : UInt8 := 0

/-- A `const char*`: the bytes before its terminator. -/
structure CString where
  bytes : Bytes
  nul_not_mem : nul ∉ bytes
  deriving DecidableEq, Repr

/-- What a reader of `s.c_str()` sees of `s`. -/
def untilNul (s : Bytes) : Bytes := s.takeWhile fun b => decide (b ≠ nul)

theorem nul_not_mem_untilNul (s : Bytes) : nul ∉ untilNul s := by
  intro hmem
  have hne := List.mem_takeWhile_imp hmem
  simp at hne

/-- `s.c_str()`. -/
def cStr (s : Bytes) : CString := ⟨untilNul s, nul_not_mem_untilNul s⟩

theorem untilNul_of_not_mem {s : Bytes} (hs : nul ∉ s) : untilNul s = s := by
  rw [untilNul, List.takeWhile_eq_self_iff]
  intro b hb
  exact decide_eq_true fun hnul => hs (hnul ▸ hb)

theorem untilNul_append {s : Bytes} (hs : nul ∉ s) (rest : Bytes) :
    untilNul (s ++ rest) = s ++ untilNul rest := by
  unfold untilNul
  rw [List.takeWhile_append_of_pos]
  intro b hb
  exact decide_eq_true fun hnul => hs (hnul ▸ hb)

/-- The terminator hides no beginning that is free of it. -/
theorem prefix_untilNul_iff {s : Bytes} (hs : nul ∉ s) (entry : Bytes) :
    s <+: untilNul entry ↔ s <+: entry := by
  constructor
  · exact fun h => h.trans (List.takeWhile_prefix _)
  · rintro ⟨rest, rfl⟩
    rw [untilNul_append hs]
    exact List.prefix_append s _

/-! ## Files -/

/-- The byte '/'. -/
def slash : UInt8 := 47

/-- The byte ':'. -/
def colon : UInt8 := 58

/-- The byte '.'. -/
def dot : UInt8 := 46

/-- A directory, as a path names it: from the root or from the working directory, through
components that are neither empty nor "."; ".." above the root stays at the root. -/
structure Directory where
  absolute : Bool
  components : List Bytes
  deriving DecidableEq, Repr

/-- The directory that `text` names; the empty text is the working directory. -/
def Directory.ofText (text : Bytes) : Directory :=
  let absolute := decide (text.head? = some slash)
  let parts := (text.splitOn slash).filter fun c => decide (c ≠ [] ∧ c ≠ [dot])
  { absolute := absolute
    components := if absolute then parts.dropWhile fun c => decide (c = [dot, dot]) else parts }

/-- A name that never is an executable file: none at all, or a directory's. -/
def Unnamed (name : Bytes) : Prop := name = [] ∨ name = [dot] ∨ name = [dot, dot]

instance (name : Bytes) : Decidable (Unnamed name) := by
  unfold Unnamed
  infer_instance

/-- The executable binaries of a file system, by directory and name. -/
abbrev FileSystem : Type := Directory → Bytes → Option Nat

/-- The last component of a path. -/
def baseName (path : Bytes) : Bytes := (path.reverse.takeWhile fun b => decide (b ≠ slash)).reverse

/-- What comes before it. -/
def dirName (path : Bytes) : Bytes := path.take (path.length - (baseName path).length)

namespace FileSystem

/-- The binary `name` of the directory `text`. -/
def binaryIn (fs : FileSystem) (name text : Bytes) : Option Nat :=
  if Unnamed name then none else fs (.ofText text) name

/-- `execve(path, …)`: the file that replaces the process, if there is one. -/
def execve (fs : FileSystem) (path : Bytes) : Option Nat :=
  fs.binaryIn (baseName path) (dirName path)

end FileSystem

/-! ## The search for a program -/

/-- "PATH". -/
def pathKey : Bytes := [80, 65, 84, 72]

/-- The value of PATH in a list of entries, or `default`. -/
def pathValue (default : Bytes) (entries : List Bytes) : Bytes :=
  match firstEntry pathKey entries with
  | some entry => entry.drop 5
  | none => default

/-- "/usr/bin:/bin". -/
def portableDefault : Bytes :=
  [47, 117, 115, 114, 47, 98, 105, 110, 58, 47, 98, 105, 110]

/-- `path.find(':', start) - start`. -/
def colonAfter (path : Bytes) (start : Nat) : Option Nat :=
  (path.drop start).findIdx? fun b => decide (b = colon)

/-- The text that `execve_portable` tries in the element `dir`. -/
def portableCandidate (program dir : Bytes) : Bytes :=
  let dir := if dir = [] then [dot] else dir
  let dir := if dir.getLast? ≠ some slash then dir ++ [slash] else dir
  dir ++ program

/-- The loop of `execve_portable`. -/
def searchFrom (fs : FileSystem) (program path : Bytes) (start : Nat) : Option Nat :=
  if start ≤ path.length then
    match colonAfter path start with
    | none => fs.execve (portableCandidate program (path.drop start))
    | some length =>
        match fs.execve (portableCandidate program ((path.drop start).take length)) with
        | some file => some file
        | none => searchFrom fs program path (start + length + 1)
  else none
termination_by path.length + 1 - start

/-- `execve_portable(program, …, envp)`. -/
def execvePortable (fs : FileSystem) (program : Bytes) (envp : List Bytes) : Option Nat :=
  if slash ∈ program then fs.execve program
  else searchFrom fs program (pathValue portableDefault envp) 0

/-- The text that the C library tries in the element `dir`. -/
def libcCandidate (program dir : Bytes) : Bytes :=
  if dir = [] then program else dir ++ slash :: program

/-- `execvpe(program, …)` in a process with the environment `environ`. -/
def execvpe (fs : FileSystem) (libcDefault program : Bytes) (environ : List Bytes) :
    Option Nat :=
  if program = [] then none
  else if slash ∈ program then fs.execve program
  else ((pathValue libcDefault environ).splitOn colon).findSome? fun dir =>
    fs.execve (libcCandidate program dir)

/-- Whether the build has `FTL_HAVE_EXECVPE`. -/
inductive Build where
  | execvpe
  | portable
  deriving DecidableEq, Repr

namespace Subprocess

/-- The array that `child_exec` fills from `build_child_env()`. -/
def envp (sp : Subprocess) (environ : List CString) : List CString :=
  (sp.buildChildEnv (environ.map CString.bytes)).map cStr

/-- The file that `child_exec` executes in a process with the environment `environ`. -/
def executed (sp : Subprocess) (build : Build) (fs : FileSystem) (libcDefault : Bytes)
    (environ : List CString) : Option Nat :=
  if sp.envOverrides = [] then
    execvpe fs libcDefault (cStr sp.program).bytes (environ.map CString.bytes)
  else
    match build with
    | .execvpe => execvpe fs libcDefault (cStr sp.program).bytes (environ.map CString.bytes)
    | .portable =>
        execvePortable fs (cStr sp.program).bytes ((sp.envp environ).map CString.bytes)

end Subprocess

/-! ## What the texts name -/

/-- A slash at the end changes nothing, but for the empty text. -/
theorem ofText_append_slash {text : Bytes} (hne : text ≠ []) :
    Directory.ofText (text ++ [slash]) = Directory.ofText text := by
  have hhead : (text ++ [slash]).head? = text.head? := by
    cases text with
    | nil => exact (hne rfl).elim
    | cons b text => rfl
  have hparts : ((text ++ [slash]).splitOn slash).filter
        (fun c => decide (c ≠ [] ∧ c ≠ [dot])) =
      (text.splitOn slash).filter fun c => decide (c ≠ [] ∧ c ≠ [dot]) := by
    rw [List.splitOn_append_cons_of_beq text [] (by simp), List.filter_append]
    simp
  unfold Directory.ofText
  rw [hhead, hparts]

theorem baseName_of_not_mem {name : Bytes} (hname : slash ∉ name) : baseName name = name := by
  unfold baseName
  rw [List.takeWhile_eq_self_iff.mpr, List.reverse_reverse]
  intro b hb
  rw [List.mem_reverse] at hb
  exact decide_eq_true fun hslash => hname (hslash ▸ hb)

theorem baseName_append {name : Bytes} (hname : slash ∉ name) (dir : Bytes) :
    baseName (dir ++ slash :: name) = name := by
  unfold baseName
  rw [List.reverse_append, List.reverse_cons, List.append_assoc,
    List.takeWhile_append_of_pos]
  · simp
  · intro b hb
    rw [List.mem_reverse] at hb
    exact decide_eq_true fun hslash => hname (hslash ▸ hb)

theorem dirName_append {name : Bytes} (hname : slash ∉ name) (dir : Bytes) :
    dirName (dir ++ slash :: name) = dir ++ [slash] := by
  unfold dirName
  rw [baseName_append hname]
  have hlength : (dir ++ slash :: name).length - name.length = (dir ++ [slash]).length := by
    simp only [List.length_append, List.length_cons, List.length_nil]
    omega
  rw [hlength, List.append_cons dir slash name, List.take_left]

/-- In a nonempty element a slash is put before the program. -/
theorem execve_append (fs : FileSystem) {program : Bytes} (hprogram : slash ∉ program)
    {dir : Bytes} (hne : dir ≠ []) :
    fs.execve (dir ++ slash :: program) = fs.binaryIn program dir := by
  unfold FileSystem.execve FileSystem.binaryIn
  rw [baseName_append hprogram, dirName_append hprogram, ofText_append_slash hne]

theorem execve_libcCandidate (fs : FileSystem) {program : Bytes} (hprogram : slash ∉ program)
    (dir : Bytes) : fs.execve (libcCandidate program dir) = fs.binaryIn program dir := by
  unfold libcCandidate
  split
  · rename_i hempty
    rw [FileSystem.execve, dirName, baseName_of_not_mem hprogram, Nat.sub_self, hempty]
    rfl
  · rename_i hne
    exact execve_append fs hprogram hne

theorem execve_portableCandidate (fs : FileSystem) {program : Bytes}
    (hprogram : slash ∉ program) (dir : Bytes) :
    fs.execve (portableCandidate program dir) = fs.binaryIn program dir := by
  by_cases hempty : dir = []
  · -- the empty element is written "."
    rw [hempty]
    exact execve_append fs hprogram (List.cons_ne_nil dot [])
  · have htext : portableCandidate program dir =
        (if dir.getLast? ≠ some slash then dir ++ [slash] else dir) ++ program := by
      unfold portableCandidate
      simp only [if_neg hempty]
    rw [htext]
    split
    · rw [List.append_assoc]
      exact execve_append fs hprogram hempty
    · rename_i hlast
      obtain ⟨front, rfl⟩ := List.getLast?_eq_some_iff.mp (not_not.mp hlast)
      rw [List.append_assoc]
      unfold FileSystem.execve FileSystem.binaryIn
      rw [List.singleton_append, baseName_append hprogram, dirName_append hprogram]

/-! ## What the searches find -/

/-- Without another ':' the rest of PATH is one element. -/
theorem splitOn_of_colonAfter_none {path : Bytes} {start : Nat}
    (hnone : colonAfter path start = none) :
    (path.drop start).splitOn colon = [path.drop start] := by
  apply List.splitOn_eq_singleton
  intro hmem
  have hb := List.findIdx?_eq_none_iff.mp hnone colon hmem
  simp at hb

/-- At a ':' the rest of PATH is the element before it and the rest behind it. -/
theorem splitOn_of_colonAfter {path : Bytes} {start length : Nat}
    (hsome : colonAfter path start = some length) :
    start + length < path.length ∧
      (path.drop start).splitOn colon =
        (path.drop start).take length :: (path.drop (start + length + 1)).splitOn colon := by
  obtain ⟨hlt, hcolon, hbefore⟩ := List.findIdx?_eq_some_iff_getElem.mp hsome
  rw [List.length_drop] at hlt
  refine ⟨by omega, ?_⟩
  have hrest : path.drop start = (path.drop start).take length ++
      colon :: path.drop (start + length + 1) := by
    have hnext : (path.drop start).drop (length + 1) = path.drop (start + length + 1) := by
      rw [List.drop_drop, Nat.add_assoc]
    rw [← hnext, ← of_decide_eq_true hcolon, ← List.drop_eq_getElem_cons,
      List.take_append_drop]
  have hfree : colon ∉ (path.drop start).take length := by
    intro hmem
    obtain ⟨i, hi, hget⟩ := List.mem_iff_getElem.mp hmem
    rw [List.getElem_take] at hget
    rw [List.length_take] at hi
    exact hbefore i (by omega) (decide_eq_true hget)
  rw [hrest, List.splitOn_append_cons_of_beq _ _ (beq_self_eq_true colon),
    List.splitOn_eq_singleton hfree, List.singleton_append, ← hrest]

/-- The loop of `execve_portable` tries the elements of the rest of PATH in order. -/
theorem searchFrom_eq (fs : FileSystem) (program path : Bytes) (start : Nat)
    (hstart : start ≤ path.length) :
    searchFrom fs program path start =
      ((path.drop start).splitOn colon).findSome? fun dir =>
        fs.execve (portableCandidate program dir) := by
  unfold searchFrom
  rw [if_pos hstart]
  split
  · rename_i hnone
    rw [splitOn_of_colonAfter_none hnone, List.findSome?_singleton]
  · rename_i length hsome
    obtain ⟨hlt, hsplit⟩ := splitOn_of_colonAfter hsome
    rw [hsplit, List.findSome?_cons,
      searchFrom_eq fs program path (start + length + 1) (by omega)]
    cases fs.execve (portableCandidate program ((path.drop start).take length)) with
    | none => rfl
    | some file => rfl
termination_by path.length + 1 - start

/-- The directories that the value of PATH names, in order. -/
def searchDirs (path : Bytes) : List Directory := (path.splitOn colon).map Directory.ofText

/-- The file found for a program along a value of PATH. -/
def foundAlong (fs : FileSystem) (path program : Bytes) : Option Nat :=
  if slash ∈ program then fs.execve program
  else if Unnamed program then none
  else (searchDirs path).findSome? fun dir => fs dir program

theorem findSome?_binaryIn (fs : FileSystem) (program : Bytes) (dirs : List Bytes) :
    dirs.findSome? (fs.binaryIn program) =
      if Unnamed program then none
      else (dirs.map Directory.ofText).findSome? fun dir => fs dir program := by
  split
  · rename_i hunnamed
    rw [List.findSome?_eq_none_iff]
    intro dir _
    rw [FileSystem.binaryIn, if_pos hunnamed]
  · rename_i hnamed
    rw [List.findSome?_map]
    congr 1
    funext dir
    rw [FileSystem.binaryIn, if_neg hnamed]
    rfl

/-- `execvpe` finds what the PATH of the process leads to. -/
theorem execvpe_eq_foundAlong (fs : FileSystem) (libcDefault program : Bytes)
    (environ : List Bytes) :
    execvpe fs libcDefault program environ =
      foundAlong fs (pathValue libcDefault environ) program := by
  unfold execvpe foundAlong
  by_cases hempty : program = []
  · rw [if_pos hempty, if_neg (by simp [hempty]), if_pos (.inl hempty)]
  · rw [if_neg hempty]
    split
    · rfl
    · rename_i hslash
      simp only [execve_libcCandidate fs hslash]
      exact findSome?_binaryIn fs program _

/-- `execve_portable` finds what the PATH in `envp` leads to. -/
theorem execvePortable_eq_foundAlong (fs : FileSystem) (program : Bytes) (envp : List Bytes) :
    execvePortable fs program envp =
      foundAlong fs (pathValue portableDefault envp) program := by
  unfold execvePortable foundAlong
  split
  · rfl
  · rename_i hslash
    rw [searchFrom_eq fs program _ 0 (Nat.zero_le _), List.drop_zero]
    simp only [execve_portableCandidate fs hslash]
    exact findSome?_binaryIn fs program _

/-- Two values of PATH lead to the same file in every file system exactly if PATH does
not matter for the program, or both name the same directories in the same order. -/
theorem foundAlong_congr_iff (path path' program : Bytes) :
    (∀ fs, foundAlong fs path program = foundAlong fs path' program) ↔
      slash ∈ program ∨ Unnamed program ∨
        (searchDirs path).eraseDups = (searchDirs path').eraseDups := by
  unfold foundAlong
  by_cases hslash : slash ∈ program
  · simp only [if_pos hslash]
    exact ⟨fun _ => .inl hslash, fun _ _ => trivial⟩
  · by_cases hunnamed : Unnamed program
    · simp only [if_neg hslash, if_pos hunnamed]
      exact ⟨fun _ => .inr (.inl hunnamed), fun _ _ => trivial⟩
    · simp only [if_neg hslash, if_neg hunnamed]
      rw [← @Foundation.findSome?_congr_iff Directory Nat]
      constructor
      · exact fun h => .inr (.inr fun f => h fun dir _ => f dir)
      · rintro (h | h | h) fs
        · exact (hslash h).elim
        · exact (hunnamed h).elim
        · exact h fun dir => fs dir program

/-! ## The two builds -/

/-- The PATH of the child: that of the last call that sets it, or of the environment it
starts from, or the default of `execve_portable`. -/
def childPath (environ : List Bytes) (calls : List EnvCall) : Bytes :=
  match lastValue pathKey (effective calls) with
  | some value => value
  | none => pathValue portableDefault (baseEnv environ calls)

theorem pathValue_buildChildEnv (program : Bytes) (environ : List Bytes)
    {calls : List EnvCall} (hkeys : ∀ c ∈ calls, equals ∉ c.key) :
    pathValue portableDefault ((Subprocess.envCalls program calls).buildChildEnv environ) =
      childPath environ calls := by
  unfold pathValue childPath
  rw [firstEntry_buildChildEnv environ hkeys (by decide)]
  cases lastValue pathKey (effective calls) with
  | none => rfl
  | some value => rfl

theorem startsWithKey_untilNul (entry : Bytes) :
    Subprocess.startsWithKey pathKey (untilNul entry) =
      Subprocess.startsWithKey pathKey entry := by
  rw [Bool.eq_iff_iff, Subprocess.startsWithKey, Subprocess.startsWithKey,
    List.isPrefixOf_iff_prefix, List.isPrefixOf_iff_prefix]
  exact prefix_untilNul_iff (by decide) entry

/-- PATH as `execve_portable` reads it is PATH up to its first NUL. -/
theorem pathValue_untilNul (entries : List Bytes) :
    pathValue portableDefault (entries.map untilNul) =
      untilNul (pathValue portableDefault entries) := by
  have hfirst : firstEntry pathKey (entries.map untilNul) =
      (firstEntry pathKey entries).map untilNul := by
    have hsame : Subprocess.startsWithKey pathKey ∘ untilNul =
        Subprocess.startsWithKey pathKey := funext startsWithKey_untilNul
    rw [firstEntry, List.find?_map, hsame, firstEntry]
  unfold pathValue
  rw [hfirst]
  cases hentry : firstEntry pathKey entries with
  | none => exact (untilNul_of_not_mem (by decide)).symm
  | some entry =>
      have hstarts := List.find?_some hentry
      rw [Subprocess.startsWithKey, List.isPrefixOf_iff_prefix] at hstarts
      obtain ⟨value, rfl⟩ := hstarts
      rw [Option.map_some, untilNul_append (by decide)]
      rfl

theorem map_bytes_envp (sp : Subprocess) (environ : List CString) :
    (sp.envp environ).map CString.bytes =
      (sp.buildChildEnv (environ.map CString.bytes)).map untilNul := by
  rw [Subprocess.envp, List.map_map]
  rfl

theorem envOverrides_ne_nil (program : Bytes) {calls : List EnvCall} (hne : calls ≠ []) :
    (Subprocess.envCalls program calls).envOverrides ≠ [] := by
  intro hnil
  obtain ⟨calls, c, rfl⟩ := (List.eq_nil_or_concat' calls).resolve_left hne
  have hlast := (overrides_envCalls program (calls ++ [c])).last c.key
  have heffective : ∃ front, effective (calls ++ [c]) = front ++ [c] := by
    rw [effective_append]
    split
    · exact ⟨[], rfl⟩
    · exact ⟨_, rfl⟩
  obtain ⟨front, hfront⟩ := heffective
  rw [hnil, hfront, lastValue_append, if_pos rfl] at hlast
  cases hlast

theorem program_envCalls (program : Bytes) (calls : List EnvCall) :
    (Subprocess.envCalls program calls).program = program := by
  induction calls using List.reverseRecOn with
  | nil => rfl
  | append_singleton calls c ih =>
      rw [Subprocess.envCalls, List.foldl_append, ← Subprocess.envCalls]
      cases hc : c.replace with
      | true => simpa [Subprocess.env, hc] using ih
      | false => simpa [Subprocess.env, hc] using ih

theorem executed_execvpe (program libcDefault : Bytes) (environ : List CString)
    {calls : List EnvCall} (hne : calls ≠ []) (fs : FileSystem) :
    (Subprocess.envCalls program calls).executed .execvpe fs libcDefault environ =
      foundAlong fs (pathValue libcDefault (environ.map CString.bytes)) (cStr program).bytes := by
  unfold Subprocess.executed
  rw [if_neg (envOverrides_ne_nil program hne), program_envCalls]
  exact execvpe_eq_foundAlong fs libcDefault _ _

theorem executed_portable (program libcDefault : Bytes) (environ : List CString)
    {calls : List EnvCall} (hne : calls ≠ []) (hkeys : ∀ c ∈ calls, equals ∉ c.key)
    (fs : FileSystem) :
    (Subprocess.envCalls program calls).executed .portable fs libcDefault environ =
      foundAlong fs (cStr (childPath (environ.map CString.bytes) calls)).bytes
        (cStr program).bytes := by
  unfold Subprocess.executed
  rw [if_neg (envOverrides_ne_nil program hne), program_envCalls]
  simp only [execvePortable_eq_foundAlong, map_bytes_envp, pathValue_untilNul,
    pathValue_buildChildEnv program _ hkeys]
  rfl

/-- Both builds execute what the PATH of the child leads to, in every file system,
exactly if PATH does not matter for the program or the PATH of the caller and that of
the child name the same directories in the same order.  The program and the child's PATH
are texts up to the first NUL, as `c_str()` hands them on. -/
theorem builds_agree_iff (program libcDefault : Bytes) (environ : List CString)
    {calls : List EnvCall} (hne : calls ≠ []) (hkeys : ∀ c ∈ calls, equals ∉ c.key) :
    (∀ (fs : FileSystem) (build : Build),
      (Subprocess.envCalls program calls).executed build fs libcDefault environ =
        foundAlong fs (cStr (childPath (environ.map CString.bytes) calls)).bytes
          (cStr program).bytes) ↔
      slash ∈ (cStr program).bytes ∨ Unnamed (cStr program).bytes ∨
        (searchDirs (pathValue libcDefault (environ.map CString.bytes))).eraseDups =
          (searchDirs (cStr (childPath (environ.map CString.bytes) calls)).bytes).eraseDups := by
  rw [← foundAlong_congr_iff]
  constructor
  · intro h fs
    rw [← executed_execvpe program libcDefault environ hne fs]
    exact h fs .execvpe
  · intro h fs build
    cases build with
    | execvpe => rw [executed_execvpe program libcDefault environ hne, h fs]
    | portable => exact executed_portable program libcDefault environ hne hkeys fs

/-- "ls" is number 1 in /bin and number 2 in /opt. -/
def twoTools : FileSystem := fun dir name =>
  if name = [108, 115] then
    if dir = ⟨true, [[98, 105, 110]]⟩ then some 1
    else if dir = ⟨true, [[111, 112, 116]]⟩ then some 2
    else none
  else none

/-- "PATH=/bin", as the caller has it. -/
def callerPath : CString := ⟨[80, 65, 84, 72, 61, 47, 98, 105, 110], by decide⟩

/-- With A=1 the child inherits PATH=/bin. -/
theorem builds_agree_inherited :
    (Subprocess.envCalls [108, 115] [⟨[65], [49], false⟩]).executed .execvpe twoTools []
        [callerPath] = some 1 ∧
      (Subprocess.envCalls [108, 115] [⟨[65], [49], false⟩]).executed .portable twoTools []
        [callerPath] = some 1 := by
  have hagree := (builds_agree_iff [108, 115] [] [callerPath]
    (List.cons_ne_nil ⟨[65], [49], false⟩ []) (by decide)).mpr (.inr (.inr rfl))
  exact ⟨hagree twoTools .execvpe, hagree twoTools .portable⟩

/-- With PATH=/opt the two builds execute different files. -/
theorem builds_differ_on_path :
    (Subprocess.envCalls [108, 115] [⟨pathKey, [47, 111, 112, 116], false⟩]).executed
        .execvpe twoTools [] [callerPath] = some 1 ∧
      (Subprocess.envCalls [108, 115] [⟨pathKey, [47, 111, 112, 116], false⟩]).executed
        .portable twoTools [] [callerPath] = some 2 ∧
      foundAlong twoTools (cStr (childPath ([callerPath].map CString.bytes)
        [⟨pathKey, [47, 111, 112, 116], false⟩])).bytes [108, 115] = some 2 := by
  have hne : [(⟨pathKey, [47, 111, 112, 116], false⟩ : EnvCall)] ≠ [] := List.cons_ne_nil _ _
  refine ⟨?_, ?_, rfl⟩
  · rw [executed_execvpe _ _ _ hne]
    rfl
  · rw [executed_portable _ _ _ hne (by decide)]
    rfl

end Ftl.Process
