/-
  Foundation/Decimal.lean --- decimal numbers inside a text can be read back.

      decimal_append_inj    a number followed by something that is not a digit
      commaList_injective   "n0, n1, ..." determines the numbers
-/
import Mathlib.Data.Nat.Notation

set_option autoImplicit false

namespace Ftl.Foundation

/-- The text does not start with a digit. -/
def NoDigitFirst (cs : List Char) : Prop := ∀ c ∈ cs.head?, c.isDigit = false

theorem isDigit_of_mem_repr {n : Nat} {c : Char} (h : c ∈ n.repr.toList) :
    c.isDigit = true := by
  rw [Nat.toList_repr] at h
  exact Nat.isDigit_of_mem_toDigits (by decide) (by decide) h

theorem takeWhile_decimal {n : Nat} {rest : List Char} (hrest : NoDigitFirst rest) :
    (n.repr.toList ++ rest).takeWhile Char.isDigit = n.repr.toList := by
  rw [List.takeWhile_append_of_pos fun c hc => isDigit_of_mem_repr hc]
  cases rest with
  | nil => simp
  | cons c cs =>
      have hc : c.isDigit = false := hrest c rfl
      simp [hc]

theorem repr_injective {n m : Nat} (h : n.repr = m.repr) : n = m := by
  have hdigits : Nat.toDigits 10 n = Nat.toDigits 10 m := by
    rw [← Nat.toList_repr, ← Nat.toList_repr, h]
  rw [← @Nat.ofDigitChars_toDigits 10 n (by decide) (by decide), hdigits,
    Nat.ofDigitChars_toDigits (by decide) (by decide)]

/-- Where a number ends, it can be told from what follows. -/
theorem decimal_append_inj {n m : Nat} {r s : List Char} (hr : NoDigitFirst r)
    (hs : NoDigitFirst s) (h : n.repr.toList ++ r = m.repr.toList ++ s) : n = m ∧ r = s := by
  have hnumber : n.repr.toList = m.repr.toList := by
    rw [← takeWhile_decimal hr, h, takeWhile_decimal hs]
  rw [hnumber] at h
  exact ⟨repr_injective (String.toList_injective hnumber), List.append_cancel_left h⟩

/-- "n0, n1, ...": every number but the first is preceded by ", ". -/
def commaList : List Nat → String
  | [] => ""
  | n :: ns => n.repr ++ String.join (ns.map fun m => ", " ++ m.repr)

/-- What follows the first number. -/
def commaTail (ns : List Nat) : List Char :=
  ns.flatMap fun m => ',' :: ' ' :: m.repr.toList

theorem noDigitFirst_commaTail (ns : List Nat) : NoDigitFirst (commaTail ns) := by
  cases ns with
  | nil => simp [NoDigitFirst, commaTail]
  | cons m ns =>
      intro c hc
      have hcomma : ',' = c := by simpa [commaTail] using hc
      rw [← hcomma]
      decide

theorem commaTail_injective {ns ms : List Nat} (h : commaTail ns = commaTail ms) :
    ns = ms := by
  induction ns generalizing ms with
  | nil =>
      cases ms with
      | nil => rfl
      | cons m ms => simp [commaTail] at h
  | cons n ns ih =>
      cases ms with
      | nil => simp [commaTail] at h
      | cons m ms =>
          have hrest : n.repr.toList ++ commaTail ns = m.repr.toList ++ commaTail ms := by
            simpa [commaTail] using h
          obtain ⟨hn, htail⟩ := decimal_append_inj (noDigitFirst_commaTail ns)
            (noDigitFirst_commaTail ms) hrest
          rw [hn, ih htail]

theorem toList_commaList_cons (n : Nat) (ns : List Nat) :
    (commaList (n :: ns)).toList = n.repr.toList ++ commaTail ns := by
  rw [commaList, String.toList_append, String.toList_join, commaTail, List.flatMap_map]
  simp

theorem commaList_injective {ns ms : List Nat} (h : commaList ns = commaList ms) :
    ns = ms := by
  have hchars := congrArg String.toList h
  have hnonempty : ∀ k ks, (commaList (k :: ks)).toList ≠ [] := by
    intro k ks
    rw [toList_commaList_cons]
    simp [Nat.toList_repr]
  cases ns with
  | nil =>
      cases ms with
      | nil => rfl
      | cons m ms => exact (hnonempty m ms hchars.symm).elim
  | cons n ns =>
      cases ms with
      | nil => exact (hnonempty n ns hchars).elim
      | cons m ms =>
          rw [toList_commaList_cons, toList_commaList_cons] at hchars
          obtain ⟨hn, htail⟩ := decimal_append_inj (noDigitFirst_commaTail ns)
            (noDigitFirst_commaTail ms) hchars
          rw [hn, commaTail_injective htail]

end Ftl.Foundation
