/-
  Test/Suites.lean --- test bodies, `Suite` and `Runner` of ftest/framework.hpp.

  A body is a nesting of assertions and throws over the state that the tests share.  A C++
  exception has a type, and `catch (const T&)` takes the types derived from `T`.

  What goes wrong in a body is recorded as an incident, with the `require_throws` and
  `require_no_throw` around it.

      fails_iff            an exception escapes a body if some incident is not absorbed
      runCase_advances     what the run of one case adds to the progress
      verdict_sound        what `run_all` runs, returns and reports
-/
import Ftl.Test.Framework

set_option autoImplicit false

namespace Ftl.Test

/-! ## Exceptions -/

/-- The types that a program throws. -/
structure ExceptionTypes where
  Ty : Type
  /-- the first type is the second one or derived from it -/
  derives : Ty → Ty → Bool
  derives_refl : ∀ t, derives t t = true
  /-- `std::exception` -/
  standard : Ty
  /-- `ftest::TestFailure` -/
  testFailure : Ty
  testFailure_standard : derives testFailure standard = true

/-- An exception in flight. -/
structure Thrown (X : ExceptionTypes) where
  type : X.Ty
  /-- `what()`, where the type derives from `std::exception` -/
  what : String

/-- `throw TestFailure(message)`. -/
def Thrown.failure (X : ExceptionTypes) (message : String) : Thrown X := ⟨X.testFailure, message⟩

/-! ## Test bodies -/

/-- The assertions that do not run a function, on values that the body computes. -/
inductive Assertion (σ : Type) where
  | require (condition : σ → Bool) (what : String)
  | requireFalse (condition : σ → Bool) (what : String)
  | requireEqualText (got expected : σ → String) (what : String)
  | requireEqual (got expected : σ → Int) (what : String)
  | requireEqualSize (got expected : σ → Nat) (what : String)
  | requireContains (haystack needle : σ → String) (what : String)

/-- The call of the assertion in the state `s`. -/
def Assertion.check {σ : Type} (s : σ) : Assertion σ → Except TestFailure Unit
  | .require condition what => Test.require (condition s) what
  | .requireFalse condition what => Test.requireFalse (condition s) what
  | .requireEqualText got expected what => Test.requireEqualText (got s) (expected s) what
  | .requireEqual got expected what => Test.requireEqual (got s) (expected s) what
  | .requireEqualSize got expected what => Test.requireEqualSize (got s) (expected s) what
  | .requireContains haystack needle what => Test.requireContains (haystack s) (needle s) what

/-- The code of a test case, or of a function passed to `require_throws`. -/
inductive Body (X : ExceptionTypes) (σ : Type) where
  | done
  | update (f : σ → σ)
  | check (assertion : Assertion σ)
  | throw (exception : σ → Thrown X)
  | seq (first second : Body X σ)
  | branch (condition : σ → Bool) (yes no : Body X σ)
  | requireThrows (T : X.Ty) (what : String) (fn : Body X σ)
  | requireNoThrow (what : String) (fn : Body X σ)

/-- How a body ends. -/
abbrev Outcome (X : ExceptionTypes) : Type := Except (Thrown X) Unit

section Wrappers

variable {X : ExceptionTypes}

/-- An assertion's outcome. -/
def raise (X : ExceptionTypes) : Except TestFailure Unit → Outcome X
  | .ok () => .ok ()
  | .error failure => .error (.failure X failure.message)

/-- `threw` in `require_throws<T>`, after `fn` has ended. -/
def threw (T : X.Ty) : Outcome X → Bool
  | .ok () => false
  | .error e => if X.derives e.type T then true else true

/-- `require_throws<T>(what, fn)`, after `fn` has ended. -/
def requireThrows (T : X.Ty) (what : String) (fn : Outcome X) : Outcome X :=
  raise X (require (threw T fn) (what ++ ": expected an exception but none was thrown"))

/-- `require_no_throw(what, fn)`, after `fn` has ended. -/
def requireNoThrow (what : String) : Outcome X → Outcome X
  | .ok () => .ok ()
  | .error e =>
      if X.derives e.type X.standard then
        .error (.failure X (what ++ ": unexpected exception: " ++ e.what))
      else .error (.failure X (what ++ ": unexpected non-standard exception"))

end Wrappers

/-- The run of a body from the state `s`. -/
def Body.eval {X : ExceptionTypes} {σ : Type} : Body X σ → σ → Outcome X × σ
  | .done, s => (.ok (), s)
  | .update f, s => (.ok (), f s)
  | .check assertion, s => (raise X (assertion.check s), s)
  | .throw exception, s => (.error (exception s), s)
  | .seq first second, s =>
      match first.eval s with
      | (.ok (), s') => second.eval s'
      | (.error e, s') => (.error e, s')
  | .branch condition yes no, s => if condition s then yes.eval s else no.eval s
  | .requireThrows T what fn, s => (Test.requireThrows T what (fn.eval s).1, (fn.eval s).2)
  | .requireNoThrow what fn, s => (Test.requireNoThrow what (fn.eval s).1, (fn.eval s).2)

/-! ## Suite -/

/-- `Suite::Case`. -/
structure Case (X : ExceptionTypes) (σ : Type) where
  description : String
  test : Body X σ

/-- `Suite`. -/
structure Suite (X : ExceptionTypes) (σ : Type) where
  name : String
  cases : List (Case X σ)

/-- A case that was run, and the state in which it was. -/
structure Ran (X : ExceptionTypes) (σ : Type) where
  case : Case X σ
  state : σ

/-- How far the runner has come: its count of failed cases, what it has printed, the state
that the tests share, and the cases that it has run. -/
structure Progress (X : ExceptionTypes) (σ : Type) where
  failed : Nat
  out : String
  state : σ
  ran : List (Ran X σ)

section Running

variable {X : ExceptionTypes} {σ : Type}

/-- What the three catch clauses of `Suite::run` print. -/
def caught (e : Thrown X) : String :=
  if X.derives e.type X.testFailure then
    red ++ "[FAIL]" ++ reset ++ "\n" ++ e.what ++ "\n"
  else if X.derives e.type X.standard then
    yellow ++ "[ERROR]" ++ reset ++ "\n" ++ "       unexpected exception: " ++ e.what ++ "\n"
  else red ++ "[ERROR]" ++ reset ++ "\n" ++ "       unknown exception\n"

/-- One turn of the loop in `Suite::run`. -/
def runCase (p : Progress X σ) (case : Case X σ) : Progress X σ :=
  let out := p.out ++ "  - " ++ case.description ++ " "
  let ran := p.ran ++ [⟨case, p.state⟩]
  match case.test.eval p.state with
  | (.ok (), s) => ⟨p.failed, out ++ green ++ "[PASS]" ++ reset ++ "\n", s, ran⟩
  | (.error e, s) => ⟨p.failed + 1, out ++ caught e, s, ran⟩

namespace Suite

/-- `add(description, test)`. -/
def add (suite : Suite X σ) (description : String) (test : Body X σ) : Suite X σ :=
  { suite with cases := suite.cases ++ [⟨description, test⟩] }

/-- `size()`. -/
def size (suite : Suite X σ) : Nat := suite.cases.length

/-- The title that `run()` prints. -/
def title (suite : Suite X σ) : String :=
  blue ++ "== series: " ++ suite.name ++ " (" ++ suite.size.repr ++ " tests)" ++ reset ++ "\n"

/-- `run()`; it counts from zero. -/
def run (suite : Suite X σ) (p : Progress X σ) : Progress X σ :=
  suite.cases.foldl runCase { p with failed := 0, out := p.out ++ suite.title }

end Suite

/-! ## Runner -/

/-- `Runner`. -/
structure Runner (X : ExceptionTypes) (σ : Type) where
  suites : List (Suite X σ)
  total : Nat
  /-- the number of cases in all suites -/
  total_eq : total = (suites.flatMap Suite.cases).length

/-- What a call of `run_all` has done. -/
structure Finished (X : ExceptionTypes) (σ : Type) extends Progress X σ where
  exit : Int

/-- The two lines that `run_all` ends with. -/
def summary (failed total : Nat) : String :=
  "\n" ++ bold ++
    if failed = 0 then green ++ "ALL " ++ total.repr ++ " TESTS PASSED" ++ reset ++ "\n"
    else red ++ failed.repr ++ "/" ++ total.repr ++ " TESTS FAILED" ++ reset ++ "\n"

/-- One turn of the loop in `run_all`. -/
def runSuite (p : Progress X σ) (suite : Suite X σ) : Progress X σ :=
  { suite.run p with failed := p.failed + (suite.run p).failed }

namespace Runner

/-- A new `Runner`. -/
def empty : Runner X σ := ⟨[], 0, rfl⟩

/-- `add(suite)`. -/
def add (runner : Runner X σ) (suite : Suite X σ) : Runner X σ where
  suites := runner.suites ++ [suite]
  total := runner.total + suite.size
  total_eq := by simp [runner.total_eq, Suite.size]

/-- `run_all()` in the state `s`. -/
def runAll (runner : Runner X σ) (s : σ) : Finished X σ :=
  let p := runner.suites.foldl runSuite ⟨0, "", s, []⟩
  { p with
    out := p.out ++ summary p.failed runner.total
    exit := if p.failed = 0 then 0 else 1 }

end Runner

end Running

/-! ## Incidents -/

/-- A call around an incident. -/
inductive Frame (X : ExceptionTypes) where
  | requireThrows (T : X.Ty)
  | requireNoThrow

/-- Something goes wrong: an assertion fails, something is thrown, or a `require_throws` runs a
function that throws nothing.  It has the type of the exception. -/
structure Incident (X : ExceptionTypes) where
  type : X.Ty
  /-- the calls that it happens inside of -/
  enclosing : List (Frame X)

section Incidents

variable {X : ExceptionTypes} {σ : Type}

/-- The incident happens inside of one more call. -/
def Incident.inside (frame : Frame X) (i : Incident X) : Incident X :=
  { i with enclosing := i.enclosing ++ [frame] }

/-- An incident for an outcome that is one. -/
def incidentIf (type : X.Ty) (wrong : Bool) : List (Incident X) :=
  if wrong then [⟨type, []⟩] else []

/-- The body has returned. -/
def Outcome.returned : Outcome X → Bool
  | .ok () => true
  | .error _ => false

/-- The incidents of the run of a body from the state `s`. -/
def Body.incidents : Body X σ → σ → List (Incident X)
  | .done, _ => []
  | .update _, _ => []
  | .check assertion, s =>
      incidentIf X.testFailure (!(raise X (assertion.check s)).returned)
  | .throw exception, s => [⟨(exception s).type, []⟩]
  | .seq first second, s =>
      first.incidents s ++
        if (first.eval s).1.returned then second.incidents (first.eval s).2 else []
  | .branch condition yes no, s => if condition s then yes.incidents s else no.incidents s
  | .requireThrows T _ fn, s =>
      (fn.incidents s).map (Incident.inside (.requireThrows T)) ++
        incidentIf X.testFailure (fn.eval s).1.returned
  | .requireNoThrow _ fn, s => (fn.incidents s).map (Incident.inside .requireNoThrow)

/-- Whether the call is a `require_throws`, of any type. -/
def Frame.takesAll : Frame X → Bool
  | .requireThrows _ => true
  | .requireNoThrow => false

/-- Whether the call is a `require_throws<T>` for the type or a base of it. -/
def Frame.takes (type : X.Ty) : Frame X → Bool
  | .requireThrows T => X.derives type T
  | .requireNoThrow => false

/-- Some `require_throws` around the incident absorbs it. -/
def Incident.absorbed (i : Incident X) : Bool := i.enclosing.any Frame.takesAll

/-- The same, with each `require_throws<T>` taking only what derives from `T`. -/
def Incident.absorbedByType (i : Incident X) : Bool := i.enclosing.any (Frame.takes i.type)

/-- In the run of the body from `s` something goes wrong that is not absorbed. -/
def Body.fails (body : Body X σ) (s : σ) : Bool :=
  (body.incidents s).any fun i => !i.absorbed

/-- The same, with each `require_throws<T>` taking only what derives from `T`. -/
def Body.failsByType (body : Body X σ) (s : σ) : Bool :=
  (body.incidents s).any fun i => !i.absorbedByType

/-! ## What escapes -/

@[simp] theorem returned_raise (a : Except TestFailure Unit) :
    (raise X a).returned = a.isOk := by
  cases a with
  | ok _ => rfl
  | error _ => rfl

@[simp] theorem threw_eq (T : X.Ty) (fn : Outcome X) : threw T fn = !fn.returned := by
  cases fn with
  | ok _ => rfl
  | error e => simp [threw, Outcome.returned]

theorem returned_requireThrows (T : X.Ty) (what : String) (fn : Outcome X) :
    (requireThrows T what fn).returned = !fn.returned := by
  unfold requireThrows
  rw [threw_eq, returned_raise]
  cases fn.returned with
  | true => rfl
  | false => rfl

/-- `require_no_throw` fails if the function throws. -/
theorem returned_requireNoThrow (what : String) (fn : Outcome X) :
    (requireNoThrow what fn).returned = fn.returned := by
  cases fn with
  | ok _ => rfl
  | error e =>
      simp only [requireNoThrow]
      split <;> rfl

@[simp] theorem absorbed_inside_requireThrows (T : X.Ty) (i : Incident X) :
    (i.inside (.requireThrows T)).absorbed = true := by
  simp [Incident.absorbed, Incident.inside, Frame.takesAll]

@[simp] theorem absorbed_inside_requireNoThrow (i : Incident X) :
    (i.inside .requireNoThrow).absorbed = i.absorbed := by
  simp [Incident.absorbed, Incident.inside, Frame.takesAll]

@[simp] theorem any_incidentIf (type : X.Ty) (wrong : Bool) :
    (incidentIf type wrong).any (fun i => !i.absorbed) = wrong := by
  cases wrong with
  | true => rfl
  | false => rfl

/-- An exception escapes a body if and only if something goes wrong in it that no
`require_throws` absorbs. -/
theorem fails_iff (body : Body X σ) (s : σ) : body.fails s = !(body.eval s).1.returned := by
  induction body generalizing s with
  | done => rfl
  | update f => rfl
  | check assertion => simp [Body.fails, Body.incidents, Body.eval]
  | throw exception => rfl
  | seq first second ihFirst ihSecond =>
      have hfirst : (first.incidents s).any (fun i => !i.absorbed) =
          !(first.eval s).1.returned := ihFirst s
      have hsecond : (second.incidents (first.eval s).2).any (fun i => !i.absorbed) =
          !(second.eval (first.eval s).2).1.returned := ihSecond _
      simp only [Body.fails, Body.incidents, Body.eval, List.any_append, hfirst]
      cases hrun : first.eval s with
      | mk outcome s' =>
          rw [hrun] at hsecond
          cases outcome with
          | ok _ => simpa [Outcome.returned] using hsecond
          | error e => simp [Outcome.returned]
  | branch condition yes no ihYes ihNo =>
      simp only [Body.fails, Body.incidents, Body.eval]
      split
      · exact ihYes s
      · exact ihNo s
  | requireThrows T what fn _ =>
      simp only [Body.fails, Body.incidents, Body.eval, returned_requireThrows, List.any_append,
        List.any_map, any_incidentIf, Bool.not_not]
      simp
  | requireNoThrow what fn ih =>
      simp only [Body.fails, Body.incidents, Body.eval, returned_requireNoThrow, List.any_map]
      rw [← ih s]
      simp [Body.fails, Function.comp_def]

end Incidents

/-! ## The verdict of a run -/

section Verdict

variable {X : ExceptionTypes} {σ : Type}

/-- The case that was run fails. -/
def Ran.fails (r : Ran X σ) : Bool := r.case.test.fails r.state

/-- Cases run one after the other, from the state `s` to the state `s'`. -/
def Threaded : σ → List (Ran X σ) → σ → Prop
  | s, [], s' => s = s'
  | s, r :: rs, s' => r.state = s ∧ Threaded (r.case.test.eval s).2 rs s'

theorem threaded_append {s s' s'' : σ} {rs rs' : List (Ran X σ)} (h : Threaded s rs s')
    (h' : Threaded s' rs' s'') : Threaded s (rs ++ rs') s'' := by
  induction rs generalizing s with
  | nil =>
      cases h
      exact h'
  | cons r rs ih => exact ⟨h.1, ih h.2⟩

/-- What the progress `q` has over `p`, if the cases `cases` have been run in between. -/
def Advances (cases : List (Case X σ)) (p q : Progress X σ) : Prop :=
  ∃ rs, q.ran = p.ran ++ rs ∧ rs.map Ran.case = cases ∧ Threaded p.state rs q.state ∧
    q.failed = p.failed + rs.countP Ran.fails

theorem advances_refl (p : Progress X σ) : Advances [] p p :=
  ⟨[], (List.append_nil _).symm, rfl, rfl, rfl⟩

theorem advances_trans {cases cases' : List (Case X σ)} {p q r : Progress X σ}
    (h : Advances cases p q) (h' : Advances cases' q r) : Advances (cases ++ cases') p r := by
  obtain ⟨rs, hran, hcases, hthread, hfailed⟩ := h
  obtain ⟨rs', hran', hcases', hthread', hfailed'⟩ := h'
  refine ⟨rs ++ rs', ?_, ?_, threaded_append hthread hthread', ?_⟩
  · rw [hran', hran, List.append_assoc]
  · rw [List.map_append, hcases, hcases']
  · rw [hfailed', hfailed, List.countP_append, Nat.add_assoc]

theorem runCase_advances (p : Progress X σ) (case : Case X σ) :
    Advances [case] p (runCase p case) := by
  have hfails : (⟨case, p.state⟩ : Ran X σ).fails = !(case.test.eval p.state).1.returned :=
    fails_iff case.test p.state
  refine ⟨[⟨case, p.state⟩], ?_, rfl, ⟨rfl, ?_⟩, ?_⟩
  · unfold runCase
    split <;> rfl
  · unfold runCase
    split <;> (rename_i h; rw [h]; rfl)
  · rw [List.countP_singleton, hfails]
    unfold runCase
    split <;> (rename_i h; rw [h]; rfl)

/-- The cases of one suite; the count starts again at zero. -/
theorem foldl_runCase_advances (cases : List (Case X σ)) (p : Progress X σ) :
    Advances cases p (cases.foldl runCase p) := by
  induction cases generalizing p with
  | nil => exact advances_refl p
  | cons case cases ih => exact advances_trans (runCase_advances p case) (ih _)

theorem runSuite_advances (p : Progress X σ) (suite : Suite X σ) :
    Advances suite.cases p (runSuite p suite) := by
  obtain ⟨rs, hran, hcases, hthread, hfailed⟩ := foldl_runCase_advances suite.cases
    { p with failed := 0, out := p.out ++ suite.title }
  refine ⟨rs, hran, hcases, hthread, ?_⟩
  rw [Nat.zero_add] at hfailed
  exact congrArg (p.failed + ·) hfailed

theorem foldl_runSuite_advances (suites : List (Suite X σ)) (p : Progress X σ) :
    Advances (suites.flatMap Suite.cases) p (suites.foldl runSuite p) := by
  induction suites generalizing p with
  | nil => exact advances_refl p
  | cons suite suites ih => exact advances_trans (runSuite_advances p suite) (ih _)

theorem foldl_add (suites : List (Suite X σ)) (runner : Runner X σ) :
    (suites.foldl Runner.add runner).suites = runner.suites ++ suites := by
  induction suites generalizing runner with
  | nil => exact (List.append_nil _).symm
  | cons suite suites ih =>
      rw [List.foldl_cons, ih, Runner.add, List.append_assoc]
      rfl

/-- The verdict of `run_all` on suites that were added one after the other: it runs every case
once, in the order of the suites and of the cases in them, each in the state that the one
before has left; it returns 0 if and only if none of them fails; and it reports how many do.
A case fails when something goes wrong in it (an assertion fails, something is thrown, a
`require_throws` runs a function that throws nothing) that no `require_throws` absorbs. -/
theorem verdict_sound (suites : List (Suite X σ)) (s : σ) :
    let finished := (suites.foldl Runner.add Runner.empty).runAll s
    finished.ran.map Ran.case = suites.flatMap Suite.cases ∧
      Threaded s finished.ran finished.state ∧
      (finished.exit = 0 ↔ ∀ r ∈ finished.ran, r.fails = false) ∧
      ∃ before, finished.out = before ++
        summary (finished.ran.countP Ran.fails) (suites.flatMap Suite.cases).length := by
  have hsuites : (suites.foldl Runner.add (Runner.empty : Runner X σ)).suites = suites :=
    foldl_add suites Runner.empty
  have htotal := (suites.foldl Runner.add (Runner.empty : Runner X σ)).total_eq
  rw [hsuites] at htotal
  obtain ⟨rs, hran, hcases, hthread, hfailed⟩ :=
    foldl_runSuite_advances suites (⟨0, "", s, []⟩ : Progress X σ)
  rw [List.nil_append] at hran
  rw [Nat.zero_add, ← hran] at hfailed
  rw [← hran] at hcases hthread
  intro finished
  have hprogress : finished.toProgress =
      { suites.foldl runSuite ⟨0, "", s, []⟩ with out := finished.out } := by
    simp only [finished, Runner.runAll, hsuites]
  have hexit : finished.exit =
      if (suites.foldl runSuite (⟨0, "", s, []⟩ : Progress X σ)).failed = 0 then 0 else 1 := by
    simp only [finished, Runner.runAll, hsuites]
  rw [hprogress]
  refine ⟨hcases, hthread, ?_, (suites.foldl runSuite ⟨0, "", s, []⟩).out, ?_⟩
  · rw [hexit, hfailed]
    constructor
    · intro hzero r hr
      split at hzero
      · rename_i hnone
        simpa using List.countP_eq_zero.mp hnone r hr
      · cases hzero
    · intro hpass
      rw [if_pos]
      apply List.countP_eq_zero.mpr
      intro r hr
      simpa using hpass r hr
  · simp only [finished, Runner.runAll, hsuites, ← hfailed, ← htotal]

end Verdict

/-! ## Unrelated types -/

/-- `TestFailure`, `std::logic_error` and `std::exception`. -/
inductive StdType where
  | exception
  | testFailure
  | logicError
  deriving DecidableEq

/-- Both of the others derive from `std::exception`. -/
def stdTypes : ExceptionTypes where
  Ty := StdType
  derives := fun t b => t = b ∨ b = .exception
  derives_refl := fun _ => decide_eq_true (.inl rfl)
  standard := .exception
  testFailure := .testFailure
  testFailure_standard := by decide

/-- A failing assertion inside `require_throws<std::logic_error>`. -/
def wrongType : Suite stdTypes Unit :=
  (Suite.mk "demo" []).add "an unrelated type"
    (.requireThrows .logicError "throws" (.check (.require (fun _ => false) "holds")))

/-- The run passes, although the failure is not of the type that is expected. -/
theorem wrongType_passes :
    (([wrongType].foldl Runner.add Runner.empty).runAll ()).exit = 0 ∧
      (([wrongType].foldl Runner.add Runner.empty).runAll ()).ran.map
        (fun r => r.case.test.failsByType r.state) = [true] := by
  decide

end Ftl.Test
