import Mathlib.Data.Nat.Digits.Defs
import SwiftMangling.Proofs.Cursor

/-!
# How a run of digits is read

A number is read digit by digit, and its value must stay below a bound. The loop carries the number
that the digits read so far spell (`decimalValue`). If the whole run of digits at the cursor spells
a number below the bound, all of it is read (`digits_of_lt`). Otherwise one digit of the run is the
first with which the number reaches the bound (`exists_overflow`), and the loop stops in front of it
(`digits_of_overflow`).
-/

namespace SwiftMangling.Cursor

variable {bound : Nat} {ds fit rest : List UInt8} {d : UInt8}

/-- The digit that a byte stands for. -/
def digitOf (b : UInt8) : Nat :=
  b.toNat - 0x30

/-- The number that digits spell, the highest one first. -/
def decimalValue (ds : List UInt8) : Nat :=
  Nat.ofDigits 10 (ds.reverse.map digitOf)

@[simp] theorem decimalValue_nil : decimalValue [] = 0 :=
  rfl

/-- One more digit makes the number ten times as large and adds the digit. -/
theorem decimalValue_concat (ds : List UInt8) (d : UInt8) :
    decimalValue (ds ++ [d]) = decimalValue ds * 10 + digitOf d := by
  unfold decimalValue
  rw [List.reverse_append, List.reverse_singleton, List.singleton_append, List.map_cons,
    Nat.ofDigits_cons, Nat.mul_comm, Nat.add_comm]

/-- More digits make no smaller number. -/
theorem decimalValue_le_append (ds more : List UInt8) :
    decimalValue ds ≤ decimalValue (ds ++ more) := by
  induction more generalizing ds with
  | nil => rw [List.append_nil]
  | cons d more ih =>
    calc decimalValue ds ≤ decimalValue ds * 10 + digitOf d := by omega
      _ = decimalValue (ds ++ [d]) := (decimalValue_concat ds d).symm
      _ ≤ decimalValue (ds ++ [d] ++ more) := ih (ds ++ [d])
      _ = decimalValue (ds ++ d :: more) := by rw [List.append_cons ds d more]

/-- The digits `fit` spell a number below `bound`, and with the digit `d` behind them they do
not. -/
structure Overflow (bound : Nat) (fit : List UInt8) (d : UInt8) : Prop where
  digits : ∀ b ∈ fit, isDigit b = true
  next : isDigit d = true
  fits : decimalValue fit < bound
  exceeds : bound ≤ decimalValue (fit ++ [d])

/-- One round of the loop. The number that it carries is that of the digits read so far. -/
theorem digits_cons (hd : isDigit d = true) (before : List UInt8) :
    digits bound (decimalValue ds) before (d :: rest) =
      if decimalValue (ds ++ [d]) < bound then
        digits bound (decimalValue (ds ++ [d])) (d :: before) rest
      else (none, ⟨before, d :: rest⟩) := by
  rw [digits, if_pos hd, decimalValue_concat, digitOf]

/-- A run of digits that spells a number below the bound is read to its end. -/
theorem digits_of_lt (ds before : List UInt8)
    (h : decimalValue (ds ++ rest.takeWhile isDigit) < bound) :
    digits bound (decimalValue ds) before rest =
      (some (decimalValue (ds ++ rest.takeWhile isDigit)),
        ⟨(rest.takeWhile isDigit).reverse ++ before, rest.dropWhile isDigit⟩) := by
  induction rest generalizing ds before with
  | nil =>
    rw [List.takeWhile_nil, List.append_nil]
    rfl
  | cons b rest ih =>
    cases hb : isDigit b with
    | false =>
      rw [List.takeWhile_cons_of_neg (by rw [hb]; decide),
        List.dropWhile_cons_of_neg (by rw [hb]; decide), List.append_nil, digits,
        if_neg (by rw [hb]; decide)]
      rfl
    | true =>
      rw [List.takeWhile_cons_of_pos hb, List.append_cons] at h
      -- no number on the way is above the last one
      have hnext : decimalValue (ds ++ [b]) < bound :=
        Nat.lt_of_le_of_lt (decimalValue_le_append _ _) h
      rw [List.takeWhile_cons_of_pos hb, List.dropWhile_cons_of_pos hb, digits_cons hb,
        if_pos hnext, ih (ds ++ [b]) (b :: before) h, List.reverse_cons, List.append_assoc,
        List.append_assoc]
      rfl

/-- The loop stops in front of the digit with which the number reaches the bound. -/
theorem digits_of_overflow (ds before rest : List UInt8)
    (hfit : ∀ b ∈ fit, isDigit b = true) (hd : isDigit d = true)
    (hlt : decimalValue (ds ++ fit) < bound) (hle : bound ≤ decimalValue (ds ++ fit ++ [d])) :
    digits bound (decimalValue ds) before (fit ++ d :: rest) =
      (none, ⟨fit.reverse ++ before, d :: rest⟩) := by
  -- by induction on the digits that fit, with those that have been read in front of them
  induction fit generalizing ds before with
  | nil =>
    rw [List.append_nil] at hle
    rw [List.nil_append, digits_cons hd, if_neg (Nat.not_lt.mpr hle)]
    rfl
  | cons b fit ih =>
    rw [List.forall_mem_cons] at hfit
    rw [List.append_cons ds b fit] at hlt hle
    have hnext : decimalValue (ds ++ [b]) < bound :=
      Nat.lt_of_le_of_lt (decimalValue_le_append _ _) hlt
    rw [List.cons_append, digits_cons hfit.1, if_pos hnext,
      ih (ds ++ [b]) (b :: before) hfit.2 hlt hle, List.reverse_cons, List.append_assoc]
    rfl

/-- A run of digits that does not spell a number below the bound has a first digit with which the
number reaches it. -/
theorem exists_overflow (ds : List UInt8) (hdigits : ∀ b ∈ rest, isDigit b = true)
    (hlt : decimalValue ds < bound) (hle : bound ≤ decimalValue (ds ++ rest)) :
    ∃ fit d more, rest = fit ++ d :: more ∧ decimalValue (ds ++ fit) < bound ∧
      bound ≤ decimalValue (ds ++ fit ++ [d]) := by
  -- by induction on the run: the first digit is the one, or it comes later
  induction rest generalizing ds with
  | nil =>
    rw [List.append_nil] at hle
    exact absurd hlt (Nat.not_lt.mpr hle)
  | cons b rest ih =>
    rw [List.forall_mem_cons] at hdigits
    by_cases hnext : decimalValue (ds ++ [b]) < bound
    · rw [List.append_cons] at hle
      obtain ⟨fit, d, more, hrest, hfits, hexceeds⟩ := ih (ds ++ [b]) hdigits.2 hnext hle
      rw [← List.append_cons] at hfits hexceeds
      refine ⟨b :: fit, d, more, ?_, hfits, hexceeds⟩
      rw [hrest, List.cons_append]
    · refine ⟨[], b, rest, rfl, ?_, ?_⟩
      · rwa [List.append_nil]
      · rw [List.append_nil]
        exact Nat.not_lt.mp hnext

end SwiftMangling.Cursor
