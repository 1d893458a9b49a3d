import Mathlib.Data.List.Induction
import SwiftMangling.Proofs.Cursor.Number

/-!
# Decimal numbers

Lengths, indices and repeat counts are written in decimal. The digits of a number are the run that
is read for it, as long as what follows does not start with a digit (`Clear`), so a number is read
back exactly if it is below the bound (`natural_decimal`).
-/

namespace SwiftMangling

/-- The decimal spelling of a number, without leading zeros. -/
def decimal (n : Nat) : List UInt8 :=
  (Nat.toDigits 10 n).map Char.toUInt8

/-- The input does not start with a byte that satisfies `p`. -/
def Clear (p : UInt8 → Bool) (input : List UInt8) : Prop :=
  ∀ b ∈ input.head?, p b = false

namespace Clear

variable {p q : UInt8 → Bool} {a b : List UInt8}

theorem nil : Clear p [] :=
  nofun

theorem cons {x : UInt8} (h : p x = false := by decide) : Clear p (x :: a) := by
  rintro _ ⟨⟩
  exact h

/-- An empty beginning leaves it to what follows. -/
theorem append (ha : Clear p a) (hb : Clear p b) : Clear p (a ++ b) := by
  cases a with
  | nil => exact hb
  | cons x a => exact ha

theorem append_left (ha : Clear p a) (hne : a ≠ []) : Clear p (a ++ b) := by
  obtain ⟨x, a, rfl⟩ := List.exists_cons_of_ne_nil hne
  exact ha

theorem flatMap {γ : Type} {f : γ → List UInt8} (h : ∀ x, Clear p (f x)) (xs : List γ) :
    Clear p (xs.flatMap f) := by
  induction xs with
  | nil => exact nil
  | cons x xs ih => exact (h x).append ih

theorem mono (h : Clear q a) (hpq : ∀ x, p x = true → q x = true) : Clear p a := by
  intro x hx
  have hq := h x hx
  cases hp : p x with
  | false => rfl
  | true => rw [hpq x hp] at hq; cases hq

/-- A byte that satisfies `p` does not come next. -/
theorem ne (h : Clear p a) {x : UInt8} (hx : p x = true := by decide) : Clear (· == x) a :=
  h.mono fun y hy => by rwa [beq_iff_eq.mp hy]

theorem takeWhile (h : Clear p a) : a.takeWhile p = [] := by
  cases a with
  | nil => rfl
  | cons x a => exact List.takeWhile_cons_of_neg (Bool.not_eq_true _ ▸ h x rfl)

end Clear

namespace Cursor

/-- The byte of a digit. -/
theorem digit_toUInt8 {c : Char} (hc : c.isDigit = true) :
    isDigit c.toUInt8 = true ∧ c.toUInt8.toNat - 0x30 = c.toNat - '0'.toNat := by
  obtain ⟨hlow, hhigh⟩ : 48 ≤ c.toNat ∧ c.toNat ≤ 57 := by
    simpa [Char.isDigit, UInt32.le_iff_toNat_le] using hc
  have hbyte : c.toUInt8.toNat = c.toNat := by
    show c.toNat % 256 = c.toNat
    exact Nat.mod_eq_of_lt (by omega)
  refine ⟨?_, by rw [hbyte]; rfl⟩
  simp [isDigit, UInt8.le_iff_toNat_le, hbyte, hlow, hhigh]

/-- The bytes of digits spell the number that the digits spell. -/
theorem decimalValue_map_toUInt8 {ds : List Char} (hds : ∀ c ∈ ds, c.isDigit = true) :
    decimalValue (ds.map Char.toUInt8) = Nat.ofDigitChars 10 ds 0 := by
  induction ds using List.reverseRecOn with
  | nil => rfl
  | append_singleton ds c ih =>
    rw [List.forall_mem_append, List.forall_mem_singleton] at hds
    rw [List.map_append, List.map_singleton, decimalValue_concat, ih hds.1, digitOf,
      (digit_toUInt8 hds.2).2, Nat.ofDigitChars_append, Nat.ofDigitChars_cons, Nat.mul_comm]
    rfl

theorem isDigit_of_mem_toDigits {n : Nat} {c : Char} (hc : c ∈ Nat.toDigits 10 n) :
    c.isDigit = true :=
  Nat.isDigit_of_mem_toDigits (by decide) (Nat.le_refl 10) hc

/-- A number is spelled with at least one digit. -/
theorem decimal_eq_cons (n : Nat) : ∃ b ds, decimal n = b :: ds ∧ isDigit b = true := by
  obtain ⟨c, ds, hc⟩ := List.exists_cons_of_ne_nil (Nat.toDigits_ne_nil (n := n) (b := 10))
  have hmem : c ∈ Nat.toDigits 10 n := by simp [hc]
  refine ⟨c.toUInt8, ds.map Char.toUInt8, by rw [decimal, hc, List.map_cons], ?_⟩
  exact (digit_toUInt8 (isDigit_of_mem_toDigits hmem)).1

theorem isDigit_of_mem_decimal {n : Nat} {b : UInt8} (hb : b ∈ decimal n) : isDigit b = true := by
  obtain ⟨c, hc, rfl⟩ := List.mem_map.mp hb
  exact (digit_toUInt8 (isDigit_of_mem_toDigits hc)).1

theorem decimalValue_decimal (n : Nat) : decimalValue (decimal n) = n := by
  rw [decimal, decimalValue_map_toUInt8 fun _ => isDigit_of_mem_toDigits]
  exact Nat.ofDigitChars_ten_toDigits

/-- A number is read back from its decimal spelling. -/
theorem natural_decimal {n width : Nat} (hn : n < 1 <<< width) {rest : List UInt8}
    (hrest : Clear isDigit rest) (before : List UInt8) :
    (⟨before, decimal n ++ rest⟩ : Cursor).natural width =
      (some n, ⟨(decimal n).reverse ++ before, rest⟩) := by
  have hrun : (⟨before, decimal n ++ rest⟩ : Cursor).digitRun = decimal n :=
    takeWhile_run (fun _ => isDigit_of_mem_decimal) hrest.takeWhile
  have hne : decimal n ≠ [] := by
    obtain ⟨b, ds, hds, -⟩ := decimal_eq_cons n
    rw [hds]
    exact List.cons_ne_nil b ds
  have hread := @natural_of_lt ⟨before, decimal n ++ rest⟩ width
  rw [hrun, decimalValue_decimal, skip_append, ← Nat.one_shiftLeft] at hread
  exact hread hne hn

end Cursor

end SwiftMangling
