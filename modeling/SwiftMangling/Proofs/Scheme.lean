import SwiftMangling.Symbol

/-!
# Prefixes of symbols

No prefix of the current scheme is the start of another one, so a symbol has at most one of them
(`prefixLength_eq_length`), and what follows a symbol changes neither its prefix nor where its
labels stand. The prefix decides which decoder reads the symbol.
-/

namespace SwiftMangling

namespace Scheme

variable {symbol : List UInt8}

theorem prefixes_disjoint : ∀ p ∈ currentPrefixes, ∀ q ∈ currentPrefixes,
    p <+: q ∨ q <+: p → p = q := by
  decide

/-- The prefix of the current scheme that a symbol starts with is the one that is found. -/
theorem prefixLength_eq_length {p : List UInt8} (hp : p ∈ currentPrefixes) (h : p <+: symbol) :
    prefixLength symbol = p.length := by
  unfold prefixLength
  split
  next q hq =>
    have hq' : q <+: symbol := List.isPrefixOf_iff_prefix.mp (by simpa using List.find?_some hq)
    rw [prefixes_disjoint p hp q (List.mem_of_find?_eq_some hq)
      (List.prefix_or_prefix_of_prefix h hq')]
  next hnone =>
    rw [List.find?_eq_none] at hnone
    exact absurd (List.isPrefixOf_iff_prefix.mpr h) (hnone p hp)

/-- A symbol whose prefix has a length starts with one of the prefixes. -/
theorem exists_currentPrefix (h : prefixLength symbol ≠ 0) :
    ∃ p ∈ currentPrefixes, p <+: symbol := by
  unfold prefixLength at h
  split at h
  next q hq =>
    exact ⟨q, List.mem_of_find?_eq_some hq,
      List.isPrefixOf_iff_prefix.mp (by simpa using List.find?_some hq)⟩
  next => exact absurd rfl h

theorem prefixLength_append (h : prefixLength symbol ≠ 0) (rest : List UInt8) :
    prefixLength (symbol ++ rest) = prefixLength symbol := by
  obtain ⟨p, hp, hsymbol⟩ := exists_currentPrefix h
  rw [prefixLength_eq_length hp hsymbol,
    prefixLength_eq_length hp (hsymbol.trans (List.prefix_append symbol rest))]

/-- Whether a text is the start of a symbol does not depend on what follows the part that has its
length. -/
theorem isPrefixOf_append {p rest : List UInt8} (h : p.length ≤ symbol.length) :
    p.isPrefixOf (symbol ++ rest) = p.isPrefixOf symbol := by
  rw [Bool.eq_iff_iff, List.isPrefixOf_iff_prefix, List.isPrefixOf_iff_prefix]
  exact ⟨fun hp => List.prefix_of_prefix_length_le hp (List.prefix_append symbol rest) h,
    fun hp => hp.trans (List.prefix_append symbol rest)⟩

theorem two_le_length (h : prefixLength symbol ≠ 0) : 2 ≤ symbol.length := by
  have hall : ∀ p ∈ currentPrefixes, 2 ≤ p.length := by decide
  obtain ⟨p, hp, hsymbol⟩ := exists_currentPrefix h
  exact Nat.le_trans (hall p hp) hsymbol.length_le

theorem hasInlineLabels_append (h : prefixLength symbol ≠ 0) (rest : List UInt8) :
    hasInlineLabels (symbol ++ rest) = hasInlineLabels symbol :=
  isPrefixOf_append (two_le_length h)

/-- A name of the runtime has no prefix of the current scheme. -/
theorem not_runtimePrefix (h : prefixLength symbol ≠ 0) : ¬ Utf8.encode "_Tt" <+: symbol := by
  have hall : ∀ p ∈ currentPrefixes, ¬ (p <+: Utf8.encode "_Tt" ∨ Utf8.encode "_Tt" <+: p) := by
    decide
  intro ht
  obtain ⟨p, hp, hsymbol⟩ := exists_currentPrefix h
  exact hall p hp (List.prefix_or_prefix_of_prefix hsymbol ht)

theorem detect_of_prefixLength (h : prefixLength symbol ≠ 0) :
    detect symbol = some (.current (prefixLength symbol)) := by
  simp [detect, h]

theorem detect_of_legacy (hcurrent : prefixLength symbol = 0) (h : legacyPrefix <+: symbol) :
    detect symbol = some .legacy := by
  simp [detect, hcurrent, List.isPrefixOf_iff_prefix.mpr h]

end Scheme

/-! ## Which decoder reads a symbol -/

section Decode

variable {symbol : List UInt8}

theorem decode_of_current (h : Scheme.prefixLength symbol ≠ 0) :
    decode symbol = (Current.decodeSymbol none symbol).tree := by
  simp [decode, decodeWith, Scheme.detect_of_prefixLength h]

theorem decode_of_legacy (hcurrent : Scheme.prefixLength symbol = 0)
    (h : Scheme.legacyPrefix <+: symbol) : decode symbol = Legacy.decodeSymbol symbol := by
  simp [decode, decodeWith, Scheme.detect_of_legacy hcurrent h]

/-- What is decoded has a prefix. -/
theorem legacyPrefix_of_decode {root : Node} (hcurrent : Scheme.prefixLength symbol = 0)
    (h : decode symbol = some root) : Scheme.legacyPrefix <+: symbol := by
  rw [← List.isPrefixOf_iff_prefix]
  cases hlegacy : Scheme.legacyPrefix.isPrefixOf symbol with
  | true => rfl
  | false => simp [decode, decodeWith, Scheme.detect, hcurrent, hlegacy] at h

end Decode

end SwiftMangling
