import SwiftMangling.Proofs.Current.Local
import SwiftMangling.Proofs.Current.Run

/-!
# Spellings of the prefix

The current scheme has several prefixes, and the operators behind them do not look at which of them
it was. What is decoded depends on the prefix only in so far as it tells where the labels of
parameters stand (`decodeSymbol_append_prefix`), and that is the same for all prefixes with a `$`.
-/

namespace SwiftMangling

namespace Current

open Decoding

/-- The loop over operators leaves the same stack behind any beginning. -/
theorem operators_beside {r : Config} {b b' input : List UInt8} {s s' : State}
    (h : Beside (fun _ => True) b b' input [] s s') :
    (operators r s').1 = (operators r s).1 ∧
      (operators r s').2.stack = (operators r s).2.stack := by
  have hportable : Portable input.length 0 operators := inferInstance
  obtain ⟨hresult, l, -, hend⟩ :=
    hportable.run (r := r) rfl (Nat.le_refl _) (Nat.zero_le _) h
  refine ⟨hresult, ?_⟩
  rw [hend.same]
  rfl

/-- Behind two prefixes that agree on where labels stand, the same symbol is found. -/
theorem decodeSymbol_append_prefix {p q : List UInt8} (hp : p ∈ Scheme.currentPrefixes)
    (hq : q ∈ Scheme.currentPrefixes) (h : Scheme.hasInlineLabels p = Scheme.hasInlineLabels q)
    (input : List UInt8) :
    (decodeSymbol none (p ++ input)).tree = (decodeSymbol none (q ++ input)).tree := by
  have hcurrent : ∀ p ∈ Scheme.currentPrefixes, Scheme.prefixLength p ≠ 0 := by decide
  have hlength (p : List UInt8) (hp : p ∈ Scheme.currentPrefixes) :
      Scheme.prefixLength (p ++ input) ≠ 0 := by
    rw [Scheme.prefixLength_append (hcurrent p hp)]
    exact hcurrent p hp
  rw [decodeSymbol_eq (hlength p hp), decodeSymbol_eq (hlength q hq),
    Scheme.hasInlineLabels_append (hcurrent p hp), Scheme.hasInlineLabels_append (hcurrent q hq), h,
    afterPrefix_append hp, afterPrefix_append hq]
  -- the two runs start in states that differ in what has been read only
  have hstart : Beside (fun _ => True) q.reverse p.reverse input []
      (⟨⟨q.reverse, input⟩, [], #[], [], #[]⟩ : State) ⟨⟨p.reverse, input⟩, [], #[], [], #[]⟩ :=
    ⟨trivial, rfl, rfl, rfl⟩
  obtain ⟨hresult, hstack⟩ := operators_beside (r := ⟨Scheme.hasInlineLabels q, none⟩) hstart
  revert hresult hstack
  rcases operators _ (⟨⟨p.reverse, input⟩, [], #[], [], #[]⟩ : State) with ⟨a, t⟩
  rcases operators _ (⟨⟨q.reverse, input⟩, [], #[], [], #[]⟩ : State) with ⟨a', t'⟩
  rintro ⟨⟩ hstack
  dsimp only at hstack
  cases a with
  | none => rfl
  | some _ => exact congrArg root? hstack

end Current

/-- The prefixes with a `$` are different spellings of the same: what follows decides which tree a
symbol has, and whether it has one. -/
theorem decode_append_prefix (input : List UInt8) :
    decode (Utf8.encode "_$s" ++ input) = decode (Utf8.encode "$s" ++ input) ∧
    decode (Utf8.encode "$S" ++ input) = decode (Utf8.encode "$s" ++ input) ∧
    decode (Utf8.encode "_$S" ++ input) = decode (Utf8.encode "$s" ++ input) := by
  have hspelling : ∀ s ∈ ["$s", "_$s", "$S", "_$S"], Utf8.encode s ∈ Scheme.currentPrefixes ∧
      Scheme.hasInlineLabels (Utf8.encode s) = false ∧
      Scheme.prefixLength (Utf8.encode s) ≠ 0 := by decide
  have hsame (s : String) (hs : s ∈ ["$s", "_$s", "$S", "_$S"]) :
      decode (Utf8.encode s ++ input) = decode (Utf8.encode "$s" ++ input) := by
    obtain ⟨hmem, hlabels, hlength⟩ := hspelling s hs
    obtain ⟨hmem', hlabels', hlength'⟩ := hspelling "$s" (by decide)
    rw [decode_of_current (by rwa [Scheme.prefixLength_append hlength]),
      decode_of_current (by rwa [Scheme.prefixLength_append hlength'])]
    exact Current.decodeSymbol_append_prefix hmem hmem' (hlabels.trans hlabels'.symm) input
  exact ⟨hsame "_$s" (by decide), hsame "$S" (by decide), hsame "_$S" (by decide)⟩

end SwiftMangling
