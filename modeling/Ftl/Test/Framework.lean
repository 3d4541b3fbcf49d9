/-
  Test/Framework.lean --- `ftest::TestFailure` and the assertions of
  ftest/framework.hpp.

  An assertion returns or throws, so it is an `Except TestFailure Unit`.
-/

set_option autoImplicit false

namespace Ftl.Test

/-- `ftest::TestFailure`. -/
structure TestFailure where
  message : String
  deriving DecidableEq, Repr

/-- `RESET`. -/
def reset : String := "\x1b[0m"

/-- `RED`. -/
def red : String := "\x1b[31m"

/-- `GREEN`. -/
def green : String := "\x1b[32m"

/-- `YELLOW`. -/
def yellow : String := "\x1b[33m"

/-- `BLUE`. -/
def blue : String := "\x1b[34m"

/-- `BOLD`. -/
def bold : String := "\x1b[1m"

/-- `require(condition, what)`. -/
def require (condition : Bool) (what : String) : Except TestFailure Unit :=
  if condition then .ok () else .error ⟨what⟩

/-- `require_false(condition, what)`. -/
def requireFalse (condition : Bool) (what : String) : Except TestFailure Unit :=
  require (!condition) what

/-- `require_equal(got, expected, what)` for two `std::string`. -/
def requireEqualText (got expected what : String) : Except TestFailure Unit :=
  if got ≠ expected then
    .error ⟨what ++
      "\n       " ++ yellow ++ "expected" ++ reset ++ ": [" ++ expected ++ "]" ++
      "\n       " ++ yellow ++ "got     " ++ reset ++ ": [" ++ got ++ "]"⟩
  else .ok ()

/-- `require_equal(got, expected, what)` for two `long long`. -/
def requireEqual (got expected : Int) (what : String) : Except TestFailure Unit :=
  if got ≠ expected then
    .error ⟨what ++
      "\n       " ++ yellow ++ "expected" ++ reset ++ ": " ++ toString expected ++
      "\n       " ++ yellow ++ "got     " ++ reset ++ ": " ++ toString got⟩
  else .ok ()

/-- `require_equal(got, expected, what)` for two `size_t`. -/
def requireEqualSize (got expected : Nat) (what : String) : Except TestFailure Unit :=
  requireEqual (Int.bmod got 18446744073709551616) (Int.bmod expected 18446744073709551616) what

/-- `haystack.find(needle)`; `none` is `npos`. -/
def find (haystack needle : List Char) : Option Nat :=
  (List.range (haystack.length + 1)).find? fun i => needle.isPrefixOf (haystack.drop i)

/-- `require_contains(haystack, needle, what)`. -/
def requireContains (haystack needle what : String) : Except TestFailure Unit :=
  if find haystack.toList needle.toList = none then
    .error ⟨what ++ ": output does not contain \"" ++ needle ++ "\"" ++
      "\n       " ++ yellow ++ "got     " ++ reset ++ ": [" ++ haystack ++ "]"⟩
  else .ok ()

/-! ## What they accept -/

theorem require_eq_ok_iff {condition : Bool} {what : String} :
    require condition what = .ok () ↔ condition = true := by
  unfold require
  split
  · rename_i h
    exact ⟨fun _ => h, fun _ => rfl⟩
  · rename_i h
    exact ⟨fun hok => (by cases hok), fun htrue => (h htrue).elim⟩

theorem requireEqual_eq_ok_iff {got expected : Int} {what : String} :
    requireEqual got expected what = .ok () ↔ got = expected := by
  unfold requireEqual
  split
  · rename_i h
    exact ⟨fun hok => (by cases hok), fun hsame => (h hsame).elim⟩
  · rename_i h
    exact ⟨fun _ => Decidable.not_not.mp h, fun _ => rfl⟩

/-- The second of two assertions is reached when the first one returns. -/
theorem bind_eq_ok_iff {first : Except TestFailure Unit} {next : Unit → Except TestFailure Unit} :
    (first >>= next) = .ok () ↔ first = .ok () ∧ next () = .ok () := by
  cases first with
  | ok _ => exact ⟨fun h => ⟨rfl, h⟩, fun h => h.2⟩
  | error e => exact ⟨fun h => (by cases h), fun h => (by cases h.1)⟩

end Ftl.Test
