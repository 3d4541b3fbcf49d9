/-
  Process/ChildFailure.lean --- allocations that fail between fork and exec.

  Embedded source: `Subprocess::child_exec` from the building of argv on,
  `build_child_env` and `execve_portable` (ftl/process/subprocess.hpp).

  Each string that is built and each element that is pushed is a point at which the
  allocator may throw; an operation that happens not to allocate is a point that never
  throws.  `child_exec` catches nothing, so what is thrown leaves `Subprocess::run`.

      child_stays_iff      the child ends in exec or `_exit` exactly when none of the
                           allocations that it attempts throws
      child_leaves         the first of them throws
-/
import Ftl.Foundation.Fallible
import Ftl.Process.PathScan

set_option autoImplicit false

namespace Ftl.Process

open Foundation (Costs Finish Fallible Quiet upsert)

/-! ## The code -/

/-- How the child ends. -/
inductive ChildEnd where
  /-- the process is replaced -/
  | exec (program : CString)
  | exit (code : Int)
  deriving DecidableEq, Repr

/-- What the exec calls answer: `execvp` or `execvpe`, and each call of `execve`. -/
structure ExecAnswers where
  search : Bool
  execve : Nat → Bytes → Bool

/-- `v.push_back(a)`. -/
def pushBack {α : Type} (v : List α) (a : α) : Fallible ChildEnd (List α) := do
  Fallible.point
  return v ++ [a]

/-- A `std::string` with the contents `s`. -/
def newString (s : Bytes) : Fallible ChildEnd Bytes := do
  Fallible.point
  return s

/-- `s.substr(pos, count)`. -/
def newSubstr (s : Bytes) (pos : Nat) (count : Option Nat) : Fallible ChildEnd Bytes :=
  match substr s pos count with
  | .ok t => newString t
  | .error _ => Fallible.throw

/-- An exec call, which returns only if it fails. -/
def execCall (succeeds : Bool) (program : CString) : Fallible ChildEnd Unit :=
  if succeeds then Fallible.stop (.exec program) else pure ()

/-- `if (dir.empty()) dir = ".";` -/
def orDot (dir : Bytes) : Fallible ChildEnd Bytes :=
  if dir = [] then newString [dot] else pure dir

/-- `if (dir.back() != '/') dir += '/';` -/
def withSlash (dir : Bytes) : Fallible ChildEnd Bytes :=
  if dir.getLast? ≠ some slash then newString (dir ++ [slash]) else pure dir

/-- The `candidate` of the turn at `start`. -/
def newCandidate (program path : Bytes) (start : Nat) : Fallible ChildEnd Bytes := do
  let dir ← newSubstr path start (colonAfter path start)
  let dir ← orDot dir
  let dir ← withSlash dir
  newString (dir ++ program)

/-- The loop of `execve_portable` from `start` on, with `made` calls made before. -/
def tryPath (succeeds : Nat → Bytes → Bool) (program path : Bytes) (made start : Nat) :
    Fallible ChildEnd Unit :=
  if start ≤ path.length then do
    let candidate ← newCandidate program path start
    execCall (succeeds made (cStr candidate).bytes) (cStr candidate)
    match colonAfter path start with
    | none => pure ()
    | some length => tryPath succeeds program path (made + 1) (start + length + 1)
  else pure ()
termination_by path.length + 1 - start

/-- The `path` that `execve_portable` searches. -/
def searchedPath (envp : List CString) : Fallible ChildEnd Bytes := do
  let path ← newString portableDefault
  match firstEntry pathKey (envp.map CString.bytes) with
  | some entry => newString (entry.drop 5)
  | none => pure path

/-- `execve_portable(program, argv, envp)`. -/
def tryPortable (succeeds : Nat → Bytes → Bool) (program : CString) (envp : List CString) :
    Fallible ChildEnd Unit :=
  if slash ∈ program.bytes then execCall (succeeds 0 program.bytes) program
  else do
    let path ← searchedPath envp
    tryPath succeeds program.bytes path 0 0

/-- The body of the loop over `env_overrides_`. -/
def overrideEntry (entries : List Bytes) (overridePair : Bytes × Bytes) :
    Fallible ChildEnd (List Bytes) := do
  let key ← newString (overridePair.1 ++ [equals])
  let text ← newString (key ++ overridePair.2)
  if entries.any (Subprocess.startsWithKey overridePair.1) then
    return upsert (Subprocess.startsWithKey overridePair.1) text entries
  else pushBack entries text

namespace Subprocess

/-- The `argv` that `child_exec` builds. -/
def buildArgv (sp : Subprocess) : Fallible ChildEnd (List (Option CString)) := do
  let argv ← pushBack [] (some (cStr sp.program))
  let argv ← sp.args.foldlM (fun argv arg => pushBack argv (some (cStr arg))) argv
  pushBack argv none

/-- `if (!env_replace_)` and its loop. -/
def inheritEntries (sp : Subprocess) (environ : List CString) :
    Fallible ChildEnd (List Bytes) :=
  if sp.envReplace then pure []
  else environ.foldlM (fun entries e => newString e.bytes >>= pushBack entries) []

/-- `build_child_env()`. -/
def buildStorage (sp : Subprocess) (environ : List CString) :
    Fallible ChildEnd (List Bytes) := do
  let entries ← sp.inheritEntries environ
  sp.envOverrides.foldlM overrideEntry entries

/-- The `envp` that `child_exec` builds. -/
def buildEnvp (storage : List Bytes) : Fallible ChildEnd (List (Option CString)) := do
  let envp ← storage.foldlM (fun envp entry => pushBack envp (some (cStr entry))) []
  pushBack envp none

/-- The branch of `child_exec` for a child with overrides. -/
def execOverridden (sp : Subprocess) (build : Build) (answers : ExecAnswers)
    (environ : List CString) : Fallible ChildEnd Unit := do
  let storage ← sp.buildStorage environ
  let envp ← buildEnvp storage
  match build with
  | .execvpe => execCall answers.search (cStr sp.program)
  | .portable => tryPortable answers.execve (cStr sp.program) (envp.filterMap id)

/-- The exec call of `child_exec`, with what it needs. -/
def execProgram (sp : Subprocess) (build : Build) (answers : ExecAnswers)
    (environ : List CString) : Fallible ChildEnd Unit :=
  if sp.envOverrides ≠ [] then sp.execOverridden build answers environ
  else execCall answers.search (cStr sp.program)

/-- `child_exec` after its closes.  It is `[[noreturn]]`. -/
def childExecFrom (sp : Subprocess) (build : Build) (answers : ExecAnswers)
    (environ : List CString) : Fallible ChildEnd Empty := do
  let _ ← sp.buildArgv
  sp.execProgram build answers environ
  Fallible.stop (.exit 127)

end Subprocess

/-! ## The allocations -/

/-- The element of `path` at `start`. -/
def elementAt (path : Bytes) (start : Nat) : Bytes :=
  match colonAfter path start with
  | none => path.drop start
  | some length => (path.drop start).take length

/-- The strings built for an element of the path: the element, the candidate, and in between
what `dir` becomes. -/
def elementAllocations (dir : Bytes) : Nat :=
  if dir = [] then 4 else if dir.getLast? = some slash then 2 else 3

/-- The allocations before some calls of `execve`. -/
def searchAllocations (path : Bytes) : List ExecveCall → Nat
  | [] => 0
  | call :: calls =>
      (call.start.elim 0 fun start => elementAllocations (elementAt path start))
        + searchAllocations path calls

/-- The allocations of `execve_portable`. -/
def portableAllocations (succeeds : Nat → Bytes → Bool) (program : CString)
    (envp : List CString) : Nat :=
  if slash ∈ program.bytes then 0
  else
    match execvePortableCalls succeeds program envp with
    | .error _ => 0
    | .ok calls =>
        (if (firstEntry pathKey (envp.map CString.bytes)).isSome then 2 else 1)
          + searchAllocations (pathValue portableDefault (envp.map CString.bytes)) calls

/-- The allocations for one override: the key, the entry, and its place if it is new. -/
def overrideAllocations (entries : List Bytes) (overridePair : Bytes × Bytes) : Nat :=
  if entries.any (Subprocess.startsWithKey overridePair.1) then 2 else 3

namespace Subprocess

/-- What the environment storage starts from. -/
def baseEntries (sp : Subprocess) (environ : List CString) : List Bytes :=
  if sp.envReplace then [] else environ.map CString.bytes

/-- The allocations of `build_child_env`. -/
def storageAllocations (sp : Subprocess) (environ : List CString) : Nat :=
  2 * (sp.baseEntries environ).length
    + Costs.foldCost applyOverride overrideAllocations (sp.baseEntries environ) sp.envOverrides

/-- The allocations that the child attempts before it ends. -/
def childAllocations (sp : Subprocess) (build : Build) (answers : ExecAnswers)
    (environ : List CString) : Nat :=
  sp.args.length + 2 +
    if sp.envOverrides = [] then 0
    else
      sp.storageAllocations environ + ((sp.envp environ).length + 1) +
        match build with
        | .execvpe => 0
        | .portable =>
            portableAllocations answers.execve (cStr sp.program) (sp.envp environ)

end Subprocess

/-! ## What each function costs -/

theorem costs_pushBack {α : Type} (v : List α) (a : α) :
    Costs (pushBack v a) 1 (.value (v ++ [a])) :=
  Costs.bind (f := fun _ => pure (v ++ [a])) Costs.point (.pure (v ++ [a]))

theorem costs_newString (s : Bytes) : Costs (newString s) 1 (.value s) :=
  Costs.bind (f := fun _ => pure s) Costs.point (.pure s)

/-- How an exec call ends. -/
def execEnd (succeeds : Bool) (program : CString) : Quiet ChildEnd Unit :=
  if succeeds then .final (.exec program) else .value ()

theorem costs_execCall (succeeds : Bool) (program : CString) :
    Costs (execCall succeeds program) 0 (execEnd succeeds program) := by
  cases succeeds with
  | true => exact .stop _
  | false => exact .pure ()

theorem foldl_push {α β : Type} (f : β → α) (v : List α) (l : List β) :
    l.foldl (fun v b => v ++ [f b]) v = v ++ l.map f := by
  induction l generalizing v with
  | nil => simp
  | cons b l ih => simp [ih]

/-- A loop of pushes, with the same allocations for each. -/
theorem costs_pushAll {α β : Type} {push : List α → β → Fallible ChildEnd (List α)}
    {c : Nat} (f : β → α) (hpush : ∀ v b, Costs (push v b) c (.value (v ++ [f b])))
    (v : List α) (l : List β) :
    Costs (l.foldlM push v) (c * l.length) (.value (v ++ l.map f)) := by
  have hloop := Costs.foldlM hpush v l
  rw [Costs.foldCost_const, foldl_push] at hloop
  exact hloop

theorem costs_orDot (dir : Bytes) :
    Costs (orDot dir) (if dir = [] then 1 else 0)
      (.value (if dir = [] then [dot] else dir)) := by
  unfold orDot
  split
  · exact costs_newString _
  · exact .pure dir

theorem costs_withSlash (dir : Bytes) :
    Costs (withSlash dir) (if dir.getLast? ≠ some slash then 1 else 0)
      (.value (if dir.getLast? ≠ some slash then dir ++ [slash] else dir)) := by
  unfold withSlash
  split
  · exact costs_newString _
  · exact .pure dir

theorem substr_elementAt {path : Bytes} {start : Nat} (hstart : start ≤ path.length) :
    substr path start (colonAfter path start) = .ok (elementAt path start) := by
  unfold substr elementAt
  rw [if_neg (Nat.not_lt.mpr hstart)]
  cases colonAfter path start with
  | none => rfl
  | some length => rfl

theorem costs_newCandidate {path : Bytes} {start : Nat} (hstart : start ≤ path.length)
    (program : Bytes) :
    Costs (newCandidate program path start) (elementAllocations (elementAt path start))
      (.value (portableCandidate program (elementAt path start))) := by
  have hsubstr : Costs (newSubstr path start (colonAfter path start)) 1
      (.value (elementAt path start)) := by
    unfold newSubstr
    rw [substr_elementAt hstart]
    exact costs_newString _
  generalize elementAt path start = dir at hsubstr ⊢
  have hcost : elementAllocations dir = 1 + ((if dir = [] then 1 else 0) +
      ((if (if dir = [] then [dot] else dir).getLast? ≠ some slash then 1 else 0) + 1)) := by
    unfold elementAllocations
    by_cases hempty : dir = []
    · rw [if_pos hempty, if_pos hempty, if_pos hempty]
      rfl
    · rw [if_neg hempty, if_neg hempty, if_neg hempty]
      by_cases hlast : dir.getLast? = some slash
      · rw [if_pos hlast, if_neg (not_not.mpr hlast)]
      · rw [if_neg hlast, if_pos hlast]
  rw [hcost]
  unfold newCandidate
  exact hsubstr.bind ((costs_orDot dir).bind ((costs_withSlash _).bind (costs_newString _)))

/-- How a search ends: in its last call, if that succeeds. -/
def searchEnd (succeeds : Nat → Bytes → Bool) (made : Nat) :
    List ExecveCall → Quiet ChildEnd Unit
  | [] => .value ()
  | [call] => execEnd (succeeds made call.path.bytes) call.path
  | _ :: calls => searchEnd succeeds (made + 1) calls

/-- The calls of the search from an element on, by the answer to the first. -/
theorem scanPath_eq (succeeds : Nat → Bytes → Bool) (program : Bytes) {path : Bytes}
    (made : Nat) {start : Nat} (hstart : start ≤ path.length) {candidate : Bytes}
    (hcandidate : portableCandidate program (elementAt path start) = candidate) :
    scanPath succeeds program path made start =
      if succeeds made (cStr candidate).bytes then .ok [⟨cStr candidate, some start⟩]
      else match colonAfter path start with
        | none => .ok [⟨cStr candidate, some start⟩]
        | some length => do
            let calls ← scanPath succeeds program path (made + 1) (start + length + 1)
            return ⟨cStr candidate, some start⟩ :: calls := by
  rw [scanPath, if_pos hstart, substr_elementAt hstart, ← hcandidate]
  rfl

theorem searchEnd_single {succeeds : Nat → Bytes → Bool} {made : Nat} {call : ExecveCall}
    {answer : Bool} (hanswer : succeeds made call.path.bytes = answer) :
    searchEnd succeeds made [call] = execEnd answer call.path := by
  rw [← hanswer]
  rfl

/-- A search of more calls ends as it does from the next one on. -/
theorem searchEnd_cons (succeeds : Nat → Bytes → Bool) (made : Nat) (call : ExecveCall)
    {calls : List ExecveCall} (hne : calls ≠ []) :
    searchEnd succeeds made (call :: calls) = searchEnd succeeds (made + 1) calls := by
  obtain ⟨next, later, rfl⟩ := List.exists_cons_of_ne_nil hne
  rfl

/-- The loop of `execve_portable` makes the calls of `scanPath`. -/
theorem costs_tryPath (succeeds : Nat → Bytes → Bool) (program path : Bytes)
    (made start : Nat) (hstart : start ≤ path.length) :
    ∃ calls, calls ≠ [] ∧ scanPath succeeds program path made start = .ok calls ∧
      Costs (tryPath succeeds program path made start) (searchAllocations path calls)
        (searchEnd succeeds made calls) := by
  obtain ⟨dir, rest, -, -, -, hnext⟩ := substr_ok hstart
  have hcandidate := costs_newCandidate hstart program
  generalize hcall : portableCandidate program (elementAt path start) = candidate at hcandidate
  have hexec := costs_execCall (succeeds made (cStr candidate).bytes) (cStr candidate)
  rw [scanPath_eq succeeds program made hstart hcall, tryPath, if_pos hstart]
  cases hanswer : succeeds made (cStr candidate).bytes with
  | true =>
      rw [hanswer] at hexec
      refine ⟨[⟨cStr candidate, some start⟩], List.cons_ne_nil _ _, rfl, ?_⟩
      rw [searchEnd_single hanswer]
      refine hcandidate.bind ?_
      rw [hanswer]
      exact hexec.final_bind _
  | false =>
      rw [hanswer] at hexec
      cases hcolon : colonAfter path start with
      | none =>
          refine ⟨[⟨cStr candidate, some start⟩], List.cons_ne_nil _ _, rfl, ?_⟩
          rw [searchEnd_single hanswer]
          refine hcandidate.bind ?_
          rw [hanswer]
          exact Costs.bind (a := ()) hexec (.pure ())
      | some length =>
          rw [hcolon] at hnext
          obtain ⟨calls, hne, hcalls, hcosts⟩ :=
            costs_tryPath succeeds program path (made + 1) (start + length + 1) hnext.1
          refine ⟨⟨cStr candidate, some start⟩ :: calls, List.cons_ne_nil _ _, ?_, ?_⟩
          · simp only [hcalls, if_neg Bool.false_ne_true]
            rfl
          · rw [searchEnd_cons succeeds made _ hne]
            refine hcandidate.bind ?_
            rw [hanswer, ← Nat.zero_add (searchAllocations path _)]
            exact Costs.bind (a := ()) hexec hcosts
termination_by path.length + 1 - start

theorem costs_searchedPath (envp : List CString) :
    Costs (searchedPath envp)
      (if (firstEntry pathKey (envp.map CString.bytes)).isSome then 2 else 1)
      (.value (pathValue portableDefault (envp.map CString.bytes))) := by
  unfold searchedPath pathValue
  cases firstEntry pathKey (envp.map CString.bytes) with
  | none => exact (costs_newString _).bind (.pure _)
  | some entry =>
      refine Costs.bind (l := 1) (costs_newString portableDefault) ?_
      exact costs_newString _

/-- How `execve_portable` ends. -/
def portableEnd (succeeds : Nat → Bytes → Bool) (program : CString) (envp : List CString) :
    Quiet ChildEnd Unit :=
  match execvePortableCalls succeeds program envp with
  | .error _ => .value ()
  | .ok calls => searchEnd succeeds 0 calls

theorem costs_tryPortable (succeeds : Nat → Bytes → Bool) (program : CString)
    (envp : List CString) :
    Costs (tryPortable succeeds program envp) (portableAllocations succeeds program envp)
      (portableEnd succeeds program envp) := by
  unfold tryPortable portableAllocations portableEnd execvePortableCalls
  by_cases hslash : slash ∈ program.bytes
  · rw [if_pos hslash, if_pos hslash, if_pos hslash]
    exact costs_execCall _ _
  · rw [if_neg hslash, if_neg hslash, if_neg hslash]
    obtain ⟨calls, -, hcalls, hcosts⟩ := costs_tryPath succeeds program.bytes
      (pathValue portableDefault (envp.map CString.bytes)) 0 0 (Nat.zero_le _)
    rw [hcalls]
    exact (costs_searchedPath envp).bind hcosts

theorem upsert_of_not_any {α : Type} {p : α → Bool} {l : List α} (hnone : l.any p = false)
    (a : α) : upsert p a l = l ++ [a] := by
  induction l with
  | nil => rfl
  | cons b l ih =>
      rw [List.any_cons, Bool.or_eq_false_iff] at hnone
      rw [upsert, if_neg (by simp [hnone.1]), ih hnone.2, List.cons_append]

theorem costs_overrideEntry (entries : List Bytes) (overridePair : Bytes × Bytes) :
    Costs (overrideEntry entries overridePair) (overrideAllocations entries overridePair)
      (.value (Subprocess.applyOverride entries overridePair)) := by
  have htext : ∀ (f : Bytes → Fallible ChildEnd (List Bytes)) (k : Nat) (e : Quiet _ _),
      Costs (f (Subprocess.envEntry overridePair.1 overridePair.2)) k e →
        Costs (do
          let key ← newString (overridePair.1 ++ [equals])
          let text ← newString (key ++ overridePair.2)
          f text) (1 + (1 + k)) e := by
    intro f k e hf
    exact (costs_newString _).bind ((costs_newString _).bind hf)
  unfold overrideEntry overrideAllocations Subprocess.applyOverride
  cases hany : entries.any (Subprocess.startsWithKey overridePair.1) with
  | true => exact htext _ 0 _ (.pure _)
  | false =>
      rw [upsert_of_not_any hany]
      exact htext _ 1 _ (costs_pushBack _ _)

namespace Subprocess

variable (sp : Subprocess) (environ : List CString)

theorem costs_buildArgv :
    Costs sp.buildArgv (sp.args.length + 2)
      (.value
        ([some (cStr sp.program)] ++ sp.args.map (fun arg => some (cStr arg)) ++ [none])) := by
  have hargs := costs_pushAll (fun arg => some (cStr arg))
    (fun v arg => costs_pushBack v (some (cStr arg))) [some (cStr sp.program)] sp.args
  have hcost : sp.args.length + 2 = 1 + (1 * sp.args.length + 1) := by omega
  rw [hcost]
  unfold buildArgv
  exact (costs_pushBack _ _).bind (hargs.bind (costs_pushBack _ _))

theorem costs_inheritEntries :
    Costs (sp.inheritEntries environ) (2 * (sp.baseEntries environ).length)
      (.value (sp.baseEntries environ)) := by
  unfold inheritEntries baseEntries
  cases sp.envReplace with
  | true => exact .pure []
  | false =>
      have hloop := costs_pushAll CString.bytes
        (fun v e => (costs_newString e.bytes).bind (costs_pushBack v e.bytes)) [] environ
      rw [List.nil_append, ← List.length_map (f := CString.bytes)] at hloop
      exact hloop

theorem costs_buildStorage :
    Costs (sp.buildStorage environ) (sp.storageAllocations environ)
      (.value (sp.buildChildEnv (environ.map CString.bytes))) :=
  (sp.costs_inheritEntries environ).bind (Costs.foldlM costs_overrideEntry _ _)

theorem costs_buildEnvp (storage : List Bytes) :
    Costs (buildEnvp storage) (storage.length + 1)
      (.value (storage.map (fun entry => some (cStr entry)) ++ [none])) := by
  have hloop := costs_pushAll (fun entry => some (cStr entry))
    (fun v entry => costs_pushBack v (some (cStr entry))) [] storage
  rw [List.nil_append, Nat.one_mul] at hloop
  exact hloop.bind (costs_pushBack _ _)

/-- How the exec call of `child_exec` ends. -/
def execProgramEnd (build : Build) (answers : ExecAnswers) : Quiet ChildEnd Unit :=
  if sp.envOverrides = [] then execEnd answers.search (cStr sp.program)
  else
    match build with
    | .execvpe => execEnd answers.search (cStr sp.program)
    | .portable => portableEnd answers.execve (cStr sp.program) (sp.envp environ)

theorem filterMap_envp :
    ((sp.buildChildEnv (environ.map CString.bytes)).map (fun entry => some (cStr entry))
      ++ [none]).filterMap id = sp.envp environ := by
  rw [List.filterMap_append, List.filterMap_map]
  simp [Subprocess.envp]

theorem costs_execOverridden (build : Build) (answers : ExecAnswers)
    (hne : sp.envOverrides ≠ []) :
    Costs (sp.execOverridden build answers environ)
      (sp.storageAllocations environ + ((sp.envp environ).length + 1) +
        match build with
        | .execvpe => 0
        | .portable => portableAllocations answers.execve (cStr sp.program) (sp.envp environ))
      (sp.execProgramEnd environ build answers) := by
  have hlength : (sp.envp environ).length =
      (sp.buildChildEnv (environ.map CString.bytes)).length := List.length_map _
  have henvp := costs_buildEnvp (sp.buildChildEnv (environ.map CString.bytes))
  rw [hlength, Nat.add_assoc]
  unfold execOverridden execProgramEnd
  rw [if_neg hne]
  refine (sp.costs_buildStorage environ).bind (henvp.bind ?_)
  cases build with
  | execvpe => exact costs_execCall _ _
  | portable =>
      simp only [filterMap_envp]
      exact costs_tryPortable _ _ _

theorem costs_execProgram (build : Build) (answers : ExecAnswers) :
    Costs (sp.execProgram build answers environ)
      (if sp.envOverrides = [] then 0
      else
        sp.storageAllocations environ + ((sp.envp environ).length + 1) +
          match build with
          | .execvpe => 0
          | .portable => portableAllocations answers.execve (cStr sp.program) (sp.envp environ))
      (sp.execProgramEnd environ build answers) := by
  unfold execProgram
  by_cases hempty : sp.envOverrides = []
  · unfold execProgramEnd
    rw [if_neg (not_not.mpr hempty), if_pos hempty, if_pos hempty]
    exact costs_execCall _ _
  · rw [if_pos hempty, if_neg hempty]
    exact sp.costs_execOverridden environ build answers hempty

/-- How the child ends: as its exec call ends, or with `_exit(127)` behind it. -/
def childEnd (build : Build) (answers : ExecAnswers) : ChildEnd :=
  match sp.execProgramEnd environ build answers with
  | .final w => w
  | .value () => .exit 127

theorem costs_childExecFrom (build : Build) (answers : ExecAnswers) :
    Costs (sp.childExecFrom build answers environ) (sp.childAllocations build answers environ)
      (.final (sp.childEnd environ build answers)) := by
  have hexec := sp.costs_execProgram environ build answers
  unfold childExecFrom childAllocations childEnd
  cases hend : sp.execProgramEnd environ build answers with
  | value u =>
      rw [hend] at hexec
      exact sp.costs_buildArgv.bind (Costs.bind (l := 0) hexec (.stop _))
  | final w =>
      rw [hend] at hexec
      exact sp.costs_buildArgv.bind (hexec.final_bind _)

end Subprocess

/-! ## What leaves the child -/

/-- The child ends in exec or in `_exit`. -/
def EndsInChild (r : Finish ChildEnd Empty) : Prop :=
  ∃ w n, r = .ended w n

/-- The child ends in exec or in `_exit`, and nothing leaves `Subprocess::run`, exactly when
none of the allocations that it attempts on the way throws: neither `child_exec` nor `run()`
has a handler for `std::bad_alloc`. -/
theorem child_stays_iff (sp : Subprocess) (build : Build) (answers : ExecAnswers)
    (environ : List CString) (fails : Nat → Bool) :
    EndsInChild (sp.childExecFrom build answers environ fails 0) ↔
      ∀ i, i < sp.childAllocations build answers environ → fails i = false := by
  have hcosts := sp.costs_childExecFrom environ build answers
  have hthrew := hcosts.threw_iff fails 0
  constructor
  · rintro ⟨w, n, hended⟩ i hi
    by_contra hfails
    obtain ⟨m, hm⟩ := hthrew.mpr ⟨i, Nat.zero_le i, by omega, by simpa using hfails⟩
    rw [hended] at hm
    cases hm
  · intro hquiet
    exact ⟨sp.childEnd environ build answers, 0 + sp.childAllocations build answers environ,
      hcosts.quiet fails 0 fun i _ hi => hquiet i (by omega)⟩

/-- If the first `push_back` of argv throws, the exception leaves the child's copy of
`Subprocess::run`. -/
theorem child_leaves :
    ¬ EndsInChild ((Subprocess.ofProgram [108, 115]).childExecFrom .execvpe
      ⟨true, fun _ _ => true⟩ [] (fun i => i == 0) 0) := by
  rintro ⟨w, n, hended⟩
  cases hended

end Ftl.Process
