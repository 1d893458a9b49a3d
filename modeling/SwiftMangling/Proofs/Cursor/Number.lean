import Mathlib.Data.List.TakeWhile
import SwiftMangling.Proofs.Cursor.Digits
import SwiftMangling.Proofs.TextRun

/-!
# Numbers and indices are read exactly or refused

The maximal run of digits at the cursor (`digitRun`) decides whether a number is read. If there are
digits, and the number that they spell is below the bound, all of them are read and that number is
the result (`natural_of_lt`), however many zeros it starts with. Otherwise there is no result
(`natural_eq_some_iff`). An index is a number with `_` behind it, or `_` alone (`IndexSpelling`); it
is read where it is spelled and nowhere else (`index_eq_some_iff`).
-/

namespace SwiftMangling.Cursor

variable {c c' : Cursor} {width n : Nat}

/-! ## Numbers -/

/-- The digits that come next, as far as they go. -/
def digitRun (c : Cursor) : List UInt8 :=
  c.rest.takeWhile isDigit

theorem isDigit_of_mem_digitRun {b : UInt8} (hb : b ∈ c.digitRun) : isDigit b = true :=
  List.mem_takeWhile_imp hb

theorem peekDigit_iff : c.peekDigit = true ↔ c.digitRun ≠ [] := by
  obtain ⟨before, _ | ⟨b, rest⟩⟩ := c
  · simp [peekDigit, peek?, digitRun]
  · cases hb : isDigit b <;> simp [peekDigit, peek?, digitRun, hb]

theorem rest_eq_digitRun_append (c : Cursor) :
    c.rest = c.digitRun ++ c.rest.dropWhile isDigit :=
  (List.takeWhile_append_dropWhile ..).symm

theorem skip_digitRun (c : Cursor) :
    c.skip c.digitRun.length = ⟨c.digitRun.reverse ++ c.before, c.rest.dropWhile isDigit⟩ := by
  have hskip := skip_append c.before c.digitRun (c.rest.dropWhile isDigit)
  rwa [← rest_eq_digitRun_append] at hskip

/-- Without a digit nothing is read. -/
theorem natural_of_not_peekDigit (h : c.peekDigit = false) : c.natural width = (none, c) := by
  rw [natural, h]
  rfl

/-- A number that fits is read with all of its digits. -/
theorem natural_of_lt (hne : c.digitRun ≠ []) (h : decimalValue c.digitRun < 2 ^ width) :
    c.natural width = (some (decimalValue c.digitRun), c.skip c.digitRun.length) := by
  have hloop := digits_of_lt [] c.before h
  rw [natural, if_pos (peekDigit_iff.mpr hne), Nat.one_shiftLeft, skip_digitRun]
  exact hloop

/-- A number that does not fit leaves the cursor behind the digits that do. -/
theorem natural_of_overflow {fit rest : List UInt8} {d : UInt8}
    (hrest : c.rest = fit ++ d :: rest) (h : Overflow (2 ^ width) fit d) :
    c.natural width = (none, c.skip fit.length) := by
  obtain ⟨before, input⟩ := c
  subst hrest
  have hdigit : (⟨before, fit ++ d :: rest⟩ : Cursor).peekDigit = true := by
    cases fit with
    | nil => exact h.next
    | cons b fit => exact h.digits b (.head fit)
  have hloop := digits_of_overflow [] before rest h.digits h.next h.fits h.exceeds
  rw [natural, if_pos hdigit, Nat.one_shiftLeft, skip_append]
  exact hloop

/-- Where the digits spell too large a number, one of them is the first with which it is. -/
theorem exists_overflow_of_le (h : 2 ^ width ≤ decimalValue c.digitRun) :
    ∃ fit d rest, c.rest = fit ++ d :: rest ∧ Overflow (2 ^ width) fit d := by
  have hrun : ∀ b ∈ c.digitRun, isDigit b = true := fun b => isDigit_of_mem_digitRun
  obtain ⟨fit, d, more, hsplit, hfits, hexceeds⟩ :=
    exists_overflow [] hrun (Nat.two_pow_pos width) h
  rw [hsplit, List.forall_mem_append, List.forall_mem_cons] at hrun
  refine ⟨fit, d, more ++ c.rest.dropWhile isDigit, ?_, hrun.1, hrun.2.1, hfits, hexceeds⟩
  calc c.rest = c.digitRun ++ c.rest.dropWhile isDigit := rest_eq_digitRun_append c
    _ = fit ++ d :: (more ++ c.rest.dropWhile isDigit) := by
        rw [hsplit, List.append_assoc, List.cons_append]

/-- A number that is there and is not read does not fit. -/
theorem exists_overflow_of_fails (hdigit : c.peekDigit = true) (h : (c.natural width).1 = none) :
    ∃ fit d rest, c.rest = fit ++ d :: rest ∧ Overflow (2 ^ width) fit d := by
  refine exists_overflow_of_le ?_
  by_contra hlt
  rw [natural_of_lt (peekDigit_iff.mp hdigit) (Nat.not_le.mp hlt)] at h
  cases h

/-- A number is read if there are digits and what they spell fits, and then it is that number and
the digits are what is read. -/
theorem natural_eq_some_iff : c.natural width = (some n, c') ↔
    c.digitRun ≠ [] ∧ decimalValue c.digitRun < 2 ^ width ∧ n = decimalValue c.digitRun ∧
      c' = c.skip c.digitRun.length := by
  constructor
  -- without digits, or with a digit too many, there is no number
  · intro h
    have hne : c.digitRun ≠ [] := by
      rw [← peekDigit_iff, ← Bool.not_eq_false]
      intro hdigit
      rw [natural_of_not_peekDigit hdigit] at h
      cases h
    have hlt : decimalValue c.digitRun < 2 ^ width := by
      by_contra hle
      obtain ⟨fit, d, rest, hrest, hover⟩ := exists_overflow_of_le (Nat.not_lt.mp hle)
      rw [natural_of_overflow hrest hover] at h
      cases h
    rw [natural_of_lt hne hlt] at h
    cases h
    exact ⟨hne, hlt, rfl, rfl⟩
  · rintro ⟨hne, hlt, rfl, rfl⟩
    exact natural_of_lt hne hlt

/-! ## Indices -/

/-- How an index may be spelled: 0 is `_`, and any other index is a run of digits for the number
before it, and `_`. -/
inductive IndexSpelling : Nat → List UInt8 → Prop where
  | zero : IndexSpelling 0 ['_'.toUInt8]
  | succ {run : List UInt8} (nonempty : run ≠ []) (digits : ∀ b ∈ run, isDigit b = true) :
    IndexSpelling (decimalValue run + 1) (run ++ ['_'.toUInt8])

/-- What is read for an index is a spelling of it. -/
theorem exists_spelling_of_index (h : c.index = (some n, c')) :
    n < 2 ^ 64 ∧ ∃ spelling, IndexSpelling n spelling ∧ spelling <+: c.rest ∧
      c' = c.skip spelling.length := by
  unfold index at h
  split at h
  next c₁ hzero =>
    cases h
    obtain ⟨rest, hrest, rfl⟩ := nextIf_eq_true hzero
    refine ⟨by decide, ['_'.toUInt8], .zero, ⟨rest, hrest.symm⟩, ?_⟩
    obtain ⟨before, input⟩ := c
    subst hrest
    rfl
  next c₁ hnumber =>
    obtain rfl := (nextIf_eq_false hnumber).1
    split at h
    next => cases h
    next m c₂ hread =>
      obtain ⟨hne, -, rfl, rfl⟩ := natural_eq_some_iff.mp hread
      rw [skip_digitRun] at h
      split at h
      next c₃ hend =>
        obtain ⟨rest, hrest, rfl⟩ := nextIf_eq_true hend
        -- what is read is the run and the mark that ends it
        have hmark : c₁.rest.dropWhile isDigit = ['_'.toUInt8] ++ rest := hrest
        have hinput : c₁.rest = c₁.digitRun ++ ['_'.toUInt8] ++ rest := by
          rw [List.append_assoc, ← hmark]
          exact rest_eq_digitRun_append c₁
        split at h
        next hlt =>
          cases h
          refine ⟨hlt, c₁.digitRun ++ ['_'.toUInt8],
            .succ hne fun b => isDigit_of_mem_digitRun, ⟨rest, hinput.symm⟩, ?_⟩
          have hskip := skip_append c₁.before (c₁.digitRun ++ ['_'.toUInt8]) rest
          rw [← hinput] at hskip
          rw [hskip, List.reverse_append]
          rfl
        next => cases h
      next => cases h

/-- An index is read where it is spelled. -/
theorem index_of_spelling {spelling : List UInt8} (hspelling : IndexSpelling n spelling)
    (hlt : n < 2 ^ 64) (before rest : List UInt8) :
    (⟨before, spelling ++ rest⟩ : Cursor).index =
      (some n, ⟨spelling.reverse ++ before, rest⟩) := by
  cases hspelling with
  | zero => rfl
  | @succ run nonempty digits =>
    let c : Cursor := ⟨before, run ++ '_'.toUInt8 :: rest⟩
    have hinput : (⟨before, run ++ ['_'.toUInt8] ++ rest⟩ : Cursor) = c := by
      rw [List.append_assoc]
      rfl
    -- the mark is no digit, so the run goes just up to it
    have hrun : c.digitRun = run := takeWhile_run digits rfl
    have hstart : c.nextIf 0x5F = (false, c) := by
      obtain ⟨b, ds, rfl⟩ := List.exists_cons_of_ne_nil nonempty
      refine nextIf_of_head rfl ?_
      rintro rfl
      exact absurd (digits _ (.head ds)) (by decide)
    have hnumber : c.natural 64 =
        (some (decimalValue run), ⟨run.reverse ++ before, '_'.toUInt8 :: rest⟩) := by
      rw [natural_of_lt (hrun.symm ▸ nonempty) (hrun.symm ▸ Nat.lt_of_succ_lt hlt), hrun,
        skip_append]
    have hend : (⟨run.reverse ++ before, '_'.toUInt8 :: rest⟩ : Cursor).nextIf 0x5F =
        (true, ⟨'_'.toUInt8 :: (run.reverse ++ before), rest⟩) := rfl
    rw [hinput, index, hstart]
    dsimp only
    rw [hnumber]
    dsimp only
    rw [hend]
    dsimp only
    rw [if_pos (show decimalValue run + 1 < UInt64.size from hlt), List.reverse_append]
    rfl

/-- An index is read where it is spelled, and the spelling is what is read. -/
theorem index_eq_some_iff : c.index = (some n, c') ↔
    n < 2 ^ 64 ∧ ∃ spelling, IndexSpelling n spelling ∧ spelling <+: c.rest ∧
      c' = c.skip spelling.length := by
  refine ⟨exists_spelling_of_index, ?_⟩
  rintro ⟨hlt, spelling, hspelling, ⟨rest, hrest⟩, rfl⟩
  obtain ⟨before, input⟩ := c
  subst hrest
  rw [skip_append]
  exact index_of_spelling hspelling hlt before rest

/-- Numbers and indices are read exactly or refused, wherever the cursor is. A number of any width
is read just if digits come next and all of them together spell a number below `2 ^ width`, and then
the result is that number and the digits are what is read, leading zeros included. An index is read
just if one below `2 ^ 64` is spelled next, and then its spelling is what is read. -/
theorem natural_and_index_eq_some_iff (c : Cursor) :
    (∀ width n c', c.natural width = (some n, c') ↔
      c.digitRun ≠ [] ∧ decimalValue c.digitRun < 2 ^ width ∧ n = decimalValue c.digitRun ∧
        c' = c.skip c.digitRun.length) ∧
    (∀ n c', c.index = (some n, c') ↔
      n < 2 ^ 64 ∧ ∃ spelling, IndexSpelling n spelling ∧ spelling <+: c.rest ∧
        c' = c.skip spelling.length) :=
  ⟨fun _ _ _ => natural_eq_some_iff, fun _ _ => index_eq_some_iff⟩

/-- The largest number of 64 bits is read with any zeros in front of it, and there is no index
behind it. -/
example : ((ofBytes (Utf8.encode "00018446744073709551615_")).natural 64).1 =
      some 18446744073709551615 ∧
    (ofBytes (Utf8.encode "18446744073709551615_")).index.1 = none := by
  decide

end SwiftMangling.Cursor
