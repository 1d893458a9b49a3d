import Mathlib.Data.Nat.Digits.Defs
import SwiftMangling.Proofs.TextRun
import SwiftMangling.Render.ParameterName

/-!
# Names of generic parameters can be told apart

A name is a run of capital letters and then a run of decimal digits, so it can be taken apart again
where the letters end. The letters are the digits of the position to the base 26, the lowest first,
and have it as their value (`ofDigits_positionLetters`); the decimal digits have the depth as theirs,
none of them standing for depth 0 (`ofDigitChars_depthText`). Both numbers can so be read back from a
name, and no two parameters share one.
-/

namespace SwiftMangling.Render

/-- The digit to the base 26 that a capital letter stands for. -/
def letterDigit (c : Char) : Nat :=
  c.toNat - 'A'.toNat

/-- The part of a name that tells the depth. -/
def depthText (depth : UInt64) : String :=
  if depth = 0 then "" else depth.toNat.repr

/-- The letter for a digit is a capital letter and stands for that digit. -/
theorem letter_of_digit {k : Nat} (hk : k < 26) :
    letterDigit (Char.ofNat ('A'.toNat + k)) = k ∧
      (Char.ofNat ('A'.toNat + k)).isUpper = true := by
  have hall : ∀ k < 26, letterDigit (Char.ofNat ('A'.toNat + k)) = k ∧
      (Char.ofNat ('A'.toNat + k)).isUpper = true := by decide
  exact hall k hk

/-- The letters for a position are capital letters. -/
theorem isUpper_of_mem_positionLetters {position : Nat} {c : Char}
    (hc : c ∈ positionLetters position) : c.isUpper = true := by
  induction position using positionLetters.induct with
  | case1 position hzero =>
    rw [positionLetters, if_pos hzero, List.mem_singleton] at hc
    rw [hc]
    exact (letter_of_digit (Nat.mod_lt _ (by decide))).2
  | case2 position hzero ih =>
    rw [positionLetters, if_neg hzero, List.mem_cons] at hc
    rcases hc with rfl | hc
    · exact (letter_of_digit (Nat.mod_lt _ (by decide))).2
    · exact ih hc

/-- The value of the letters for a position is the position. -/
theorem ofDigits_positionLetters (position : Nat) :
    Nat.ofDigits 26 ((positionLetters position).map letterDigit) = position := by
  induction position using positionLetters.induct with
  | case1 position hzero =>
    have hdigit := (letter_of_digit (Nat.mod_lt position (by decide : 26 > 0))).1
    rw [positionLetters, if_pos hzero, List.map_singleton, Nat.ofDigits_singleton, hdigit]
    -- a position without a second letter is its only digit
    omega
  | case2 position hzero ih =>
    have hdigit := (letter_of_digit (Nat.mod_lt position (by decide : 26 > 0))).1
    rw [positionLetters, if_neg hzero, List.map_cons, Nat.ofDigits_cons, ih, hdigit]
    exact Nat.mod_add_div position 26

/-- The depth is told in decimal digits. -/
theorem isDigit_of_mem_depthText {depth : UInt64} {c : Char} (hc : c ∈ (depthText depth).toList) :
    c.isDigit = true := by
  unfold depthText at hc
  split at hc
  · cases hc
  · rw [Nat.toList_repr] at hc
    exact Nat.isDigit_of_mem_toDigits (by decide) (Nat.le_refl 10) hc

/-- The value of the digits that tell the depth is the depth. -/
theorem ofDigitChars_depthText (depth : UInt64) :
    Nat.ofDigitChars 10 (depthText depth).toList 0 = depth.toNat := by
  unfold depthText
  split
  next hzero => rw [hzero]; rfl
  next => rw [Nat.toList_repr, Nat.ofDigitChars_ten_toDigits]

/-- A name is the letters for the position and then the digits of the depth. -/
theorem toList_parameterName (depth position : UInt64) :
    (parameterName depth position).toList =
      positionLetters position.toNat ++ (depthText depth).toList := by
  rw [parameterName, String.toList_append, String.toList_ofList, depthText]

/-- Digits come before the capital letters. -/
theorem isUpper_eq_false_of_isDigit {c : Char} (h : c.isDigit = true) : c.isUpper = false := by
  have hle : c.toNat ≤ 57 := (Char.isDigit_iff_toNat.mp h).2
  have hlow : ¬ 'A'.val ≤ c.val := by
    rw [UInt32.le_iff_toNat_le, Char.toNat_val, Char.toNat_val]
    exact Nat.not_le.mpr (Nat.lt_of_le_of_lt hle (by decide))
  exact decide_eq_false fun hupper => hlow hupper.1

/-- The letters end where the digits of the depth begin. -/
theorem takeWhile_depthText (depth : UInt64) :
    (depthText depth).toList.takeWhile Char.isUpper = [] := by
  cases htext : (depthText depth).toList with
  | nil => rfl
  | cons c cs =>
    have hdigit : c.isDigit = true := isDigit_of_mem_depthText (by rw [htext]; exact .head cs)
    rw [List.takeWhile_cons_of_neg]
    rw [isUpper_eq_false_of_isDigit hdigit]
    exact Bool.false_ne_true

/-- No two generic parameters have the same name. -/
theorem parameterName_injective : Function.Injective (Function.uncurry parameterName) := by
  rintro ⟨depth, position⟩ ⟨depth', position'⟩ h
  have hname : positionLetters position.toNat ++ (depthText depth).toList =
      positionLetters position'.toNat ++ (depthText depth').toList := by
    rw [← toList_parameterName, ← toList_parameterName]
    exact congrArg String.toList h
  -- the letters end where the digits start
  obtain ⟨hletters, hdigits⟩ := append_inj_of_run (fun _ => isUpper_of_mem_positionLetters)
    (fun _ => isUpper_of_mem_positionLetters) (takeWhile_depthText depth)
    (takeWhile_depthText depth') hname
  have hposition : position.toNat = position'.toNat := by
    rw [← ofDigits_positionLetters position.toNat, hletters, ofDigits_positionLetters]
  have hdepth : depth.toNat = depth'.toNat := by
    rw [← ofDigitChars_depthText depth, hdigits, ofDigitChars_depthText]
  rw [UInt64.toNat_inj.mp hposition, UInt64.toNat_inj.mp hdepth]

end SwiftMangling.Render
