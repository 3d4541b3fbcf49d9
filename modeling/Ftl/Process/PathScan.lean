/-
  Process/PathScan.lean --- the paths that `execve_portable` hands to `execve`.

  Embedded source: the exec call of `Subprocess::child_exec` without `FTL_HAVE_EXECVPE`,
  and `Subprocess::execve_portable` (ftl/process/subprocess.hpp).

  `Process/ExecSearch` says which file the search ends at.  Here the loop is followed call
  by call: a call of `execve` that comes back is recorded with the position that the same
  turn gave to `substr`, and so is the one that does not.  What `execve` answers is left
  open; the same path may fail first and succeed later.

      portable_search_exact       the calls are those for the elements of the PATH of the
                                  child, in order, up to the first that succeeds
      execvePortable_eq_attempts  the file of `Process/ExecSearch` is that of the last call
-/
import Ftl.Process.ExecSearch

set_option autoImplicit false

namespace Ftl.Process

open Foundation (asked StopsAtFirst stopsAtFirst_asked getLast?_asked)

/-! ## Strings -/

/-- `std::out_of_range`. -/
inductive OutOfRange where
  | outOfRange
  deriving DecidableEq, Repr

/-- `s.substr(pos, count)`; `none` is `npos`. -/
def substr (s : Bytes) (pos : Nat) (count : Option Nat) : Except OutOfRange Bytes :=
  if s.length < pos then .error .outOfRange
  else
    match count with
    | none => .ok (s.drop pos)
    | some n => .ok ((s.drop pos).take n)

/-! ## The calls of `execve` -/

/-- One call of `execve`. -/
structure ExecveCall where
  path : CString
  /-- the position given to `substr` before it, if PATH is searched -/
  start : Option Nat
  deriving DecidableEq, Repr

/-- The loop of `execve_portable` from `start` on, when `made` calls were made before.
`succeeds i path` tells whether call number `i`, with `path`, replaces the process. -/
def scanPath (succeeds : Nat → Bytes → Bool) (program path : Bytes) (made start : Nat) :
    Except OutOfRange (List ExecveCall) :=
  if start ≤ path.length then do
    let dir ← substr path start (colonAfter path start)
    let candidate := cStr (portableCandidate program dir)
    let call : ExecveCall := ⟨candidate, some start⟩
    if succeeds made candidate.bytes then return [call]
    match colonAfter path start with
    | none => return [call]
    | some length => return call :: (← scanPath succeeds program path (made + 1)
        (start + length + 1))
  else return []
termination_by path.length + 1 - start

/-- The calls that `execve_portable(program, …, envp)` makes. -/
def execvePortableCalls (succeeds : Nat → Bytes → Bool) (program : CString)
    (envp : List CString) : Except OutOfRange (List ExecveCall) :=
  if slash ∈ program.bytes then .ok [⟨program, none⟩]
  else
    let path := pathValue portableDefault (envp.map CString.bytes)
    scanPath succeeds program.bytes path 0 0

namespace Subprocess

/-- How `child_exec` executes the program without `FTL_HAVE_EXECVPE`. -/
inductive PortableExec where
  | execvp (program : CString)
  | execvePortable (calls : Except OutOfRange (List ExecveCall))

/-- The exec call of `child_exec` without `FTL_HAVE_EXECVPE`. -/
def portableExec (sp : Subprocess) (succeeds : Nat → Bytes → Bool) (environ : List CString) :
    PortableExec :=
  if sp.envOverrides ≠ [] then
    .execvePortable (execvePortableCalls succeeds (cStr sp.program) (sp.envp environ))
  else .execvp (cStr sp.program)

end Subprocess

/-! ## What the calls should be -/

/-- `program` in the directory `dir`: `dir + '/' + program`, without a second '/' where
`dir` ends in one, and in "." where it is empty. -/
def inDirectory (program dir : Bytes) : Bytes :=
  if dir = [] then dot :: slash :: program
  else if dir.getLast? = some slash then dir ++ program
  else dir ++ slash :: program

/-- The value of the first entry for PATH, or "/usr/bin:/bin" if there is none. -/
inductive SearchPath (entries : List Bytes) : Bytes → Prop where
  | first {before after : List Bytes} {value : Bytes}
      (hbefore : ∀ e ∈ before, ¬ (pathKey ++ [equals]) <+: e)
      (hentries : entries = before ++ (pathKey ++ [equals] ++ value) :: after) :
      SearchPath entries value
  | absent (hentries : ∀ e ∈ entries, ¬ (pathKey ++ [equals]) <+: e) :
      SearchPath entries portableDefault

/-- The calls made for `program` along `path`. -/
structure PathScan (succeeds : Nat → Bytes → Bool) (program path : Bytes)
    (calls : List ExecveCall) : Prop where
  /-- one for each element of `path`, in order, up to the first that succeeds -/
  attempts : StopsAtFirst succeeds ((path.splitOn colon).map (inDirectory program))
    (calls.map fun call => call.path.bytes)
  /-- `substr` does not throw -/
  within : ∀ call ∈ calls, ∃ start, call.start = some start ∧ start ≤ path.length
  /-- each turn begins behind the one before -/
  ascending : (calls.filterMap ExecveCall.start).Pairwise (· < ·)

/-! ## The loop -/

theorem portableCandidate_eq_inDirectory (program dir : Bytes) :
    portableCandidate program dir = inDirectory program dir := by
  unfold portableCandidate inDirectory
  by_cases hempty : dir = []
  · simp only [if_pos hempty]
    rfl
  · simp only [if_neg hempty]
    by_cases hlast : dir.getLast? = some slash
    · rw [if_neg (not_not.mpr hlast), if_pos hlast]
    · rw [if_pos hlast, if_neg hlast, List.append_assoc, List.singleton_append]

theorem nul_not_mem_inDirectory {program dir : Bytes} (hprogram : nul ∉ program)
    (hdir : nul ∉ dir) : nul ∉ inDirectory program dir := by
  unfold inDirectory
  split
  · simp [hprogram, show nul ≠ dot by decide, show nul ≠ slash by decide]
  · split
    · simp [hprogram, hdir]
    · simp [hprogram, hdir, show nul ≠ slash by decide]

/-- The calls that the loop makes from `start` on. -/
structure ScannedFrom (succeeds : Nat → Bytes → Bool) (program path : Bytes)
    (made start : Nat) (calls : List ExecveCall) : Prop where
  attempts : (calls.map fun call => call.path.bytes) =
    asked succeeds made (((path.drop start).splitOn colon).map (inDirectory program))
  within : ∀ call ∈ calls, ∃ position, call.start = some position ∧ start ≤ position ∧
    position ≤ path.length
  ascending : (calls.filterMap ExecveCall.start).Pairwise (· < ·)

theorem ScannedFrom.last {succeeds : Nat → Bytes → Bool} {program path dir : Bytes}
    {rest : List Bytes} {made start : Nat} {call : ExecveCall}
    (hpath : call.path.bytes = inDirectory program dir) (hcall : call.start = some start)
    (hstart : start ≤ path.length) (hsplit : (path.drop start).splitOn colon = dir :: rest)
    (hends : rest = [] ∨ succeeds made (inDirectory program dir) = true) :
    ScannedFrom succeeds program path made start [call] where
  attempts := by
    rw [hsplit, List.map_singleton, hpath, List.map_cons, asked]
    split
    · rfl
    · rename_i hfails
      rw [hends.resolve_right hfails, List.map_nil, asked]
  within turn hturn := by
    rw [List.mem_singleton.mp hturn]
    exact ⟨start, hcall, Nat.le_refl start, hstart⟩
  ascending := by
    rw [List.filterMap_cons_some hcall]
    exact List.pairwise_singleton _ start

/-- A turn after which the loop goes on behind a ':'. -/
theorem ScannedFrom.cons {succeeds : Nat → Bytes → Bool} {program path dir : Bytes}
    {made start next : Nat} {call : ExecveCall} {calls : List ExecveCall}
    (hpath : call.path.bytes = inDirectory program dir) (hcall : call.start = some start)
    (hstart : start ≤ path.length) (hnext : start < next)
    (hsplit : (path.drop start).splitOn colon = dir :: (path.drop next).splitOn colon)
    (hfails : succeeds made (inDirectory program dir) = false)
    (h : ScannedFrom succeeds program path (made + 1) next calls) :
    ScannedFrom succeeds program path made start (call :: calls) where
  attempts := by
    rw [hsplit, List.map_cons, hpath, List.map_cons, asked, hfails,
      if_neg Bool.false_ne_true, h.attempts]
  within turn hturn := by
    cases List.mem_cons.mp hturn with
    | inl hfirst =>
        rw [hfirst]
        exact ⟨start, hcall, Nat.le_refl start, hstart⟩
    | inr hlater =>
        obtain ⟨position, hposition, hle, hwithin⟩ := h.within turn hlater
        exact ⟨position, hposition, by omega, hwithin⟩
  ascending := by
    rw [List.filterMap_cons_some hcall, List.pairwise_cons]
    refine ⟨fun position hmem => ?_, h.ascending⟩
    obtain ⟨turn, hturn, hposition⟩ := List.mem_filterMap.mp hmem
    obtain ⟨later, hlater, hle, -⟩ := h.within turn hturn
    rw [hposition] at hlater
    cases hlater
    omega

/-- The element that a turn takes out of PATH, and where the next turn goes on. -/
theorem substr_ok {path : Bytes} {start : Nat} (hstart : start ≤ path.length) :
    ∃ dir rest, substr path start (colonAfter path start) = .ok dir ∧ dir <:+: path ∧
      (path.drop start).splitOn colon = dir :: rest ∧
      match colonAfter path start with
      | none => rest = []
      | some length => start + length + 1 ≤ path.length ∧
          rest = (path.drop (start + length + 1)).splitOn colon := by
  have hinside : ¬ path.length < start := Nat.not_lt.mpr hstart
  cases hcolon : colonAfter path start with
  | none =>
      refine ⟨path.drop start, [], ?_, (List.drop_suffix start path).isInfix,
        splitOn_of_colonAfter_none hcolon, rfl⟩
      rw [substr, if_neg hinside]
  | some length =>
      obtain ⟨hlt, hsplit⟩ := splitOn_of_colonAfter hcolon
      refine ⟨(path.drop start).take length, _, ?_, ?_, hsplit, hlt, rfl⟩
      · rw [substr, if_neg hinside]
      · exact (List.take_prefix length _).isInfix.trans (List.drop_suffix start path).isInfix

/-- From a position within PATH the loop ends, and tries the elements behind it. -/
theorem scanPath_ok (succeeds : Nat → Bytes → Bool) {program path : Bytes}
    (hprogram : nul ∉ program) (hpath : nul ∉ path) (made start : Nat)
    (hstart : start ≤ path.length) :
    ∃ calls, scanPath succeeds program path made start = .ok calls ∧
      ScannedFrom succeeds program path made start calls := by
  obtain ⟨dir, rest, hdir, hpart, hsplit, hrest⟩ := substr_ok hstart
  have hcandidate : (cStr (portableCandidate program dir)).bytes = inDirectory program dir := by
    rw [portableCandidate_eq_inDirectory]
    refine untilNul_of_not_mem (nul_not_mem_inDirectory hprogram fun hmem => ?_)
    exact hpath (hpart.subset hmem)
  unfold scanPath
  rw [if_pos hstart, hdir]
  simp only [bind, Except.bind, pure, Except.pure, hcandidate]
  cases hanswer : succeeds made (inDirectory program dir) with
  | true =>
      -- `execve` does not come back
      exact ⟨_, if_pos rfl, .last hcandidate rfl hstart hsplit (.inr hanswer)⟩
  | false =>
      rw [if_neg Bool.false_ne_true]
      cases hcolon : colonAfter path start with
      | none =>
          rw [hcolon] at hrest
          exact ⟨_, rfl, .last hcandidate rfl hstart hsplit (.inl hrest)⟩
      | some length =>
          rw [hcolon] at hrest
          obtain ⟨hnext, hrest⟩ := hrest
          obtain ⟨calls, hcalls, hscanned⟩ :=
            scanPath_ok succeeds hprogram hpath (made + 1) (start + length + 1) hnext
          rw [hrest] at hsplit
          refine ⟨⟨cStr (portableCandidate program dir), some start⟩ :: calls, ?_,
            .cons hcandidate rfl hstart (by omega) hsplit hanswer hscanned⟩
          simp only [hcalls]
termination_by path.length + 1 - start

/-- From the beginning of PATH the loop makes exactly the calls it should. -/
theorem pathScan_of_scannedFrom {succeeds : Nat → Bytes → Bool} {program path : Bytes}
    {calls : List ExecveCall} (h : ScannedFrom succeeds program path 0 0 calls) :
    PathScan succeeds program path calls where
  attempts := by
    rw [h.attempts, List.drop_zero]
    exact stopsAtFirst_asked succeeds _
  within call hcall := by
    obtain ⟨position, hposition, -, hwithin⟩ := h.within call hcall
    exact ⟨position, hposition, hwithin⟩
  ascending := h.ascending

/-! ## The search -/

theorem searchPath_pathValue (entries : List Bytes) :
    SearchPath entries (pathValue portableDefault entries) := by
  unfold pathValue
  cases hentry : firstEntry pathKey entries with
  | none =>
      refine .absent fun entry hmem hstarts => ?_
      have hno := List.find?_eq_none.mp hentry entry hmem
      exact hno (List.isPrefixOf_iff_prefix.mpr hstarts)
  | some entry =>
      obtain ⟨hstarts, before, after, hentries, hbefore⟩ :=
        List.find?_eq_some_iff_append.mp hentry
      rw [Subprocess.startsWithKey, List.isPrefixOf_iff_prefix] at hstarts
      obtain ⟨value, rfl⟩ := hstarts
      refine .first (fun e he hbegins => ?_) hentries
      have hno := hbefore e he
      rw [Subprocess.startsWithKey, List.isPrefixOf_iff_prefix.mpr hbegins] at hno
      cases hno

theorem nul_not_mem_pathValue (entries : List CString) :
    nul ∉ pathValue portableDefault (entries.map CString.bytes) := by
  have hself : entries.map CString.bytes = (entries.map CString.bytes).map untilNul := by
    rw [List.map_map]
    refine List.map_congr_left fun entry _ => ?_
    exact (untilNul_of_not_mem entry.nul_not_mem).symm
  rw [hself, pathValue_untilNul]
  exact nul_not_mem_untilNul _

/-- Without a '/' in the program, the calls follow PATH. -/
theorem execvePortableCalls_ok (succeeds : Nat → Bytes → Bool) {program : CString}
    (hslash : slash ∉ program.bytes) (envp : List CString) :
    ∃ calls, execvePortableCalls succeeds program envp = .ok calls ∧
      ScannedFrom succeeds program.bytes
        (pathValue portableDefault (envp.map CString.bytes)) 0 0 calls := by
  unfold execvePortableCalls
  rw [if_neg hslash]
  exact scanPath_ok succeeds program.nul_not_mem (nul_not_mem_pathValue envp) 0 0
    (Nat.zero_le _)

/-- After some calls of `env()` the child attempts its program in each element of the PATH
of its own environment, in order, up to the first success; a program with a '/' is
attempted as it is.  That PATH is the one of the last call that sets it, or of the
environment that the child starts from, or the default. -/
theorem portable_search_exact (program : Bytes) (environ : List CString)
    {calls : List EnvCall} (hne : calls ≠ []) (hkeys : ∀ c ∈ calls, equals ∉ c.key)
    (succeeds : Nat → Bytes → Bool) :
    (slash ∉ (cStr program).bytes → ∃ path made,
      SearchPath (((Subprocess.envCalls program calls).envp environ).map CString.bytes) path ∧
      path = (cStr (childPath (environ.map CString.bytes) calls)).bytes ∧
      (Subprocess.envCalls program calls).portableExec succeeds environ =
        .execvePortable (.ok made) ∧
      PathScan succeeds (cStr program).bytes path made) ∧
    (slash ∈ (cStr program).bytes →
      (Subprocess.envCalls program calls).portableExec succeeds environ =
        .execvePortable (.ok [⟨cStr program, none⟩])) := by
  unfold Subprocess.portableExec
  rw [if_pos (envOverrides_ne_nil program hne), program_envCalls]
  constructor
  · intro hslash
    obtain ⟨made, hmade, hscanned⟩ := execvePortableCalls_ok succeeds hslash
      ((Subprocess.envCalls program calls).envp environ)
    refine ⟨_, made, searchPath_pathValue _, ?_, by rw [hmade], pathScan_of_scannedFrom hscanned⟩
    rw [map_bytes_envp, pathValue_untilNul, pathValue_buildChildEnv program _ hkeys]
    rfl
  · intro hslash
    rw [execvePortableCalls, if_pos hslash]

/-- With PATH=/opt/: the program "ls" is tried as /opt/ls and as ./ls, whatever PATH the
caller has. -/
theorem portable_search_exact_emptyElement :
    ∃ made, (Subprocess.envCalls [108, 115]
        [⟨pathKey, [47, 111, 112, 116, 47, 58], false⟩]).portableExec
          (fun _ _ => false) [callerPath] = .execvePortable (.ok made) ∧
      StopsAtFirst (fun _ _ => false)
        [[47, 111, 112, 116, 47, 108, 115], [46, 47, 108, 115]]
        (made.map fun call => call.path.bytes) := by
  obtain ⟨path, made, -, hpath, hmade, hscan⟩ := (portable_search_exact [108, 115] [callerPath]
    (List.cons_ne_nil ⟨pathKey, [47, 111, 112, 116, 47, 58], false⟩ []) (by decide)
    (fun _ _ => false)).1 (by decide)
  have hattempts := hscan.attempts
  rw [hpath] at hattempts
  exact ⟨made, hmade, hattempts⟩

/-- Where the answers of `execve` are those of a file system, the calls end at the file
that `execve_portable` finds. -/
theorem execvePortable_eq_attempts (fs : FileSystem) (program : CString)
    (envp : List CString) :
    ∃ calls, execvePortableCalls (fun _ path => (fs.execve path).isSome) program envp =
        .ok calls ∧
      execvePortable fs program.bytes (envp.map CString.bytes) =
        (calls.getLast?).bind fun call => fs.execve call.path.bytes := by
  by_cases hslash : slash ∈ program.bytes
  · refine ⟨[⟨program, none⟩], ?_, ?_⟩
    · rw [execvePortableCalls, if_pos hslash]
    · rw [execvePortable, if_pos hslash]
      rfl
  · obtain ⟨calls, hcalls, hscanned⟩ := execvePortableCalls_ok
      (fun _ path => (fs.execve path).isSome) hslash envp
    refine ⟨calls, hcalls, ?_⟩
    have hlast := getLast?_asked fs.execve 0
      (((pathValue portableDefault (envp.map CString.bytes)).splitOn colon).map
        (inDirectory program.bytes))
    have hattempts := hscanned.attempts
    rw [List.drop_zero] at hattempts
    rw [← hattempts, List.getLast?_map, Option.bind_map, List.findSome?_map] at hlast
    rw [execvePortable, if_neg hslash, searchFrom_eq fs _ _ 0 (Nat.zero_le _), List.drop_zero,
      funext (portableCandidate_eq_inDirectory program.bytes)]
    exact hlast.symm

end Ftl.Process
