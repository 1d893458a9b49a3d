import SwiftMangling.Proofs.Current.Symbol
import SwiftMangling.Proofs.Legacy.Symbol
import SwiftMangling.Proofs.Render.Safe.Rule

/-!
# Decoders and printer agree on payloads

The decoders of both schemes build sound trees, and a sound tree is rendered without an error about
a payload. What is left are nodes that lack a child, nodes that stand where they cannot be printed,
and trees that are too high.
-/

namespace SwiftMangling

/-- The root of a symbol is sound, whichever scheme the symbol is written in. -/
theorem sound_of_decode {symbol : List UInt8} {t : Node} (h : decode symbol = some t) :
    t.Sound True ∧ t.kind = .global := by
  unfold decode decodeWith at h
  split at h
  · cases h
  · have hroot := Current.isRoot_of_decodeSymbol h
    exact ⟨hroot.sound, hroot.kind⟩
  · obtain ⟨hsound, hkind, -⟩ := Legacy.sound_of_decodeSymbol h
    exact ⟨hsound, hkind⟩

/-- The root of a symbol is well-formed with the labels of its scheme. -/
theorem formed_of_decode {symbol : List UInt8} {t : Node} (h : decode symbol = some t) :
    ∃ _ : Labelling, t.Formed := by
  unfold decode decodeWith at h
  split at h
  · cases h
  · exact ⟨_, (Current.isRoot_of_decodeSymbol h).formed⟩
  · exact ⟨_, (Legacy.formed_of_decodeSymbol h).1⟩

/-- Every node of a decoded tree carries what the rules of the printer take from it and its
children, so that rendering never fails on a payload, on a function that cannot be differentiated or
for want of room. -/
theorem payloads_of_decode {symbol : List UInt8} {t : Node} (h : decode symbol = some t)
    (options : Options) :
    t.Sound True ∧ (∀ k, render options t ≠ .error (.invalidPayload k)) ∧
      render options t ≠ .error .invalidDifferentiability ∧ render options t ≠ .error .noRoom := by
  obtain ⟨hsound, hkind⟩ := sound_of_decode h
  have htag : t.isTag = false := by simp [Node.isTag, hkind]
  -- the errors that are left are about missing children, unexpected kinds and complexity
  have herror {e : RenderError} (he : render options t = .error e) :
      (∃ k i, e = .missingChild k i) ∨ (∃ k, e = .unexpectedKind k) ∨ e = .tooComplex := by
    rcases render_error_of_sound hsound htag he with hm | hu | ⟨hc, -⟩
    · exact .inl hm
    · exact .inr (.inl hu)
    · exact .inr (.inr hc)
  exact ⟨hsound, fun k he => by simpa using herror he, fun he => by simpa using herror he,
    fun he => by simpa using herror he⟩

/-- The rule for a value witness takes its name from a tag. -/
theorem payloads_of_decode_valueWitness : ∃ t, decode (Utf8.encode "$s4main3FooVwCP") = some t ∧
    t.Sound True ∧ ∀ options, (∀ k, render options t ≠ .error (.invalidPayload k)) ∧
      render options t ≠ .error .invalidDifferentiability ∧ render options t ≠ .error .noRoom := by
  have hsome : (decode (Utf8.encode "$s4main3FooVwCP")).isSome = true := by decide +kernel
  obtain ⟨t, ht⟩ := Option.isSome_iff_exists.mp hsome
  exact ⟨t, ht, (payloads_of_decode ht .full).1, fun options => (payloads_of_decode ht options).2⟩

end SwiftMangling
