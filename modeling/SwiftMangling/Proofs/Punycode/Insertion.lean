import Mathlib.Data.List.Basic
import Mathlib.Tactic.Ring
import SwiftMangling.Text.Punycode

/-!
# The insertions that a text encodes

The part behind the last delimiter is a sequence of variable-length integers, one for each character
to be inserted. Every digit of such an integer has a threshold, which depends on its place and on
the bias, and the first digit below its threshold is the last one (`Spells`). The integer is how far
the decoder goes on to the next insertion, and with it goes the bias of the integer that follows
(`Insertions`). A text is cut into such integers in one way only (`Insertions.unique`), and the
decoder inserts a character for each (`exists_insertions`).
-/

namespace SwiftMangling.Punycode

variable {n i bias count weight k q q' j : Nat} {cs r r' : List Char}

/-- A word is the number itself, which fits into 32 bits. -/
theorem word?_eq_some {m : Nat} (h : word? n = some m) : m = n ∧ n < UInt32.size := by
  unfold word? at h
  split at h
  next hlt => exact ⟨(Option.some.inj h).symm, hlt⟩
  next => cases h

/-! ## Variable-length integers -/

/-- The digits `cs` spell the integer `q` from place `k` on: each but the last is at least the
threshold of its place, and the last one is below its own. -/
inductive Spells (bias : Nat) : Nat → List Char → Nat → Prop where
  | last {k : Nat} {c : Char} {d : Nat} (digit : digitValue? c = some d)
    (below : d < threshold k bias) : Spells bias k [c] d
  | more {k : Nat} {c : Char} {d : Nat} {cs : List Char} {q : Nat} (digit : digitValue? c = some d)
    (above : threshold k bias ≤ d) (rest : Spells bias (k + base) cs q) :
    Spells bias k (c :: cs) (d + q * (base - threshold k bias))

theorem Spells.ne_nil (h : Spells bias k cs q) : cs ≠ [] := by
  cases h <;> exact List.cons_ne_nil _ _

/-- The digits tell where an integer ends, whatever follows it. -/
theorem Spells.append_inj {ds : List Char} (h : Spells bias k cs q) (h' : Spells bias k ds q')
    (heq : cs ++ r = ds ++ r') : cs = ds ∧ q = q' ∧ r = r' := by
  -- by induction on the spelling: a digit below its threshold is the last one, for both
  induction h generalizing ds q' with
  | last digit below =>
    cases h' with
    | last digit' below' =>
      obtain ⟨rfl, rfl⟩ := List.cons_eq_cons.mp heq
      exact ⟨rfl, Option.some.inj (digit.symm.trans digit'), rfl⟩
    | more digit' above' rest' =>
      obtain ⟨rfl, -⟩ := List.cons_eq_cons.mp heq
      obtain rfl := Option.some.inj (digit.symm.trans digit')
      exact absurd above' (Nat.not_le.mpr below)
  | more digit above rest ih =>
    cases h' with
    | last digit' below' =>
      obtain ⟨rfl, -⟩ := List.cons_eq_cons.mp heq
      obtain rfl := Option.some.inj (digit.symm.trans digit')
      exact absurd above (Nat.not_le.mpr below')
    | more digit' above' rest' =>
      obtain ⟨rfl, htail⟩ := List.cons_eq_cons.mp heq
      obtain rfl := Option.some.inj (digit.symm.trans digit')
      obtain ⟨rfl, rfl, rfl⟩ := ih rest' htail
      exact ⟨rfl, rfl, rfl⟩

/-- What is read is the spelling of an integer, which is added at its weight. -/
theorem exists_spells_of_readDelta (h : readDelta bias i weight k cs = some (j, r)) :
    ∃ piece q, cs = piece ++ r ∧ Spells bias k piece q ∧ j = i + q * weight ∧ j < UInt32.size := by
  -- by induction on the letters: what is read adds up, each digit at its weight
  induction cs generalizing i weight k with
  | nil => cases h
  | cons c cs ih =>
    simp only [readDelta, Option.bind_eq_bind, Option.bind_eq_some_iff] at h
    obtain ⟨d, hdigit, step, hstep, i', hi, h⟩ := h
    obtain ⟨rfl, -⟩ := word?_eq_some hstep
    obtain ⟨rfl, hlt⟩ := word?_eq_some hi
    split at h
    next hlast =>
      cases h
      exact ⟨[c], d, rfl, .last hdigit hlast, rfl, hlt⟩
    next hmore =>
      obtain ⟨w, hweight, hread⟩ := Option.bind_eq_some_iff.mp h
      obtain ⟨rfl, -⟩ := word?_eq_some hweight
      obtain ⟨piece, q, rfl, hspells, rfl, hj⟩ := ih hread
      refine ⟨c :: piece, _, rfl, .more hdigit (Nat.not_lt.mp hmore) hspells, ?_, hj⟩
      ring

/-! ## Insertions -/

/-- The pieces spell how far the decoder goes to each insertion, when it stands at `i`, the bias is
`bias` and the text has `count` characters. Each insertion makes the text longer by one. -/
inductive Insertions : Nat → Nat → Nat → List (List Char) → Prop where
  | nil {i bias count : Nat} : Insertions i bias count []
  | cons {i bias count q : Nat} {piece : List Char} {pieces : List (List Char)}
    (integer : Spells bias base piece q)
    (rest : Insertions ((i + q) % (count + 1) + 1) (adapt q (count + 1) (i == 0)) (count + 1)
      pieces) : Insertions i bias count (piece :: pieces)

/-- A text is cut into insertions in one way only. -/
theorem Insertions.unique {pieces pieces' : List (List Char)} (h : Insertions i bias count pieces)
    (h' : Insertions i bias count pieces') (heq : pieces.flatten = pieces'.flatten) :
    pieces = pieces' := by
  -- by induction on the cut; the first integer ends at the same place in both, and sets the next
  -- bias
  induction h generalizing pieces' with
  | nil =>
    cases h' with
    | nil => rfl
    | cons integer' rest' =>
      exact absurd (List.append_eq_nil_iff.mp heq.symm).1 integer'.ne_nil
  | cons integer rest ih =>
    cases h' with
    | nil => exact absurd (List.append_eq_nil_iff.mp heq).1 integer.ne_nil
    | cons integer' rest' =>
      obtain ⟨rfl, rfl, htail⟩ := integer.append_inj integer' heq
      rw [ih rest' htail]

/-- The decoder inserts a character for each integer. -/
theorem exists_insertions {output output' : List Nat}
    (h : insertAll n i bias output cs = some output') :
    ∃ pieces, Insertions i bias output.length pieces ∧ pieces.flatten = cs ∧
      output'.length = output.length + pieces.length := by
  fun_induction insertAll n i bias output cs with
  | case1 n i bias output cs hnil =>
    cases h
    exact ⟨[], .nil, (List.isEmpty_iff.mp hnil).symm, rfl⟩
  | case2 => cases h
  | case3 => cases h
  -- an integer is read, and its code point inserted
  | case4 n i bias output cs hcons j r hread length n' hn hcode ih =>
    obtain ⟨pieces, hpieces, rfl, hlength⟩ := ih h
    obtain ⟨piece, q, rfl, hspells, rfl, -⟩ := exists_spells_of_readDelta hread
    have hposition : (i + q * 1) % length ≤ output.length :=
      Nat.le_of_lt_succ (Nat.mod_lt _ (Nat.succ_pos _))
    rw [List.length_insertIdx_of_le_length hposition, Nat.mul_one, Nat.add_sub_cancel_left]
      at hpieces
    rw [List.length_insertIdx_of_le_length hposition] at hlength
    refine ⟨piece :: pieces, .cons hspells hpieces, rfl, ?_⟩
    rw [hlength, List.length_cons]
    omega
  | case5 => cases h

end SwiftMangling.Punycode
