import SwiftMangling.Proofs.Legacy.Continuation
import SwiftMangling.Proofs.Legacy.Symbol
import SwiftMangling.Proofs.Render.Safe.Rule

/-!
# How high trees of the legacy scheme get

The limit on nested types and contexts does not bound the height of a tree: an `inout` type is read
without going one level deeper, so a family of symbols has trees of every height. What bounds the
height is the length of the symbol. A tree that is too high is refused when it is rendered, and only
such a tree is, so symbols of up to 256 bytes are never refused for their height.
-/

namespace SwiftMangling.Legacy

open Decoding Node

/-! ## A family of symbols -/

/-- The mangling of the `inout` type of an integer type, `n` times over. -/
def inOutSymbol (n : Nat) : List UInt8 :=
  Utf8.encode "_Tt" ++ (List.replicate n 'R'.toUInt8 ++ Utf8.encode "Si")

theorem length_inOutSymbol (n : Nat) : (inOutSymbol n).length = n + 5 := by
  have htag : (Utf8.encode "_Tt").length = 3 := by decide
  have hint : (Utf8.encode "Si").length = 2 := by decide
  rw [inOutSymbol, List.length_append, List.length_append, List.length_replicate, htag, hint]
  omega

/-- The `inout` type of what is given, `n` times over. -/
def inOuts : Nat → Node → Node
  | 0, t => t
  | n + 1, t => branch .inOut [inOuts n t]

/-- Every `inout` adds one level. -/
theorem height_inOuts (n : Nat) (t : Node) : (inOuts n t).height = t.height + n := by
  induction n with
  | zero => rfl
  | succ n ih =>
    rw [inOuts, height_branch, top_cons, top_nil, ih]
    omega

/-- Reading an `inout` type does not change the depth, so the limit is never reached. -/
theorem parse_content_inOuts (n : Nat) {fuel : Nat} (hfuel : n < fuel) (before : List UInt8)
    (substitutions : Array Node) (depth : Nat) :
    ∃ s, parse fuel .content () ⟨⟨before, List.replicate n 'R'.toUInt8 ++ Utf8.encode "Si"⟩,
      substitutions, depth⟩ = (some (inOuts n (standardNominal .structureType "Int")), s) ∧
        s.cursor.rest = [] ∧ s.depth = depth := by
  obtain ⟨fuel, rfl⟩ : ∃ f, fuel = f + 1 := ⟨fuel - 1, by omega⟩
  -- every `R` is one production inside of the others, on the same level
  induction n generalizing fuel before with
  | zero => exact ⟨_, rfl, rfl, rfl⟩
  | succ n ih =>
    obtain ⟨fuel, rfl⟩ : ∃ f, fuel = f + 1 := ⟨fuel - 1, by omega⟩
    obtain ⟨s, hrun, hs⟩ := ih ('R'.toUInt8 :: before) fuel (by omega)
    refine ⟨s, ?_, hs⟩
    have hstep : parse (fuel + 1 + 1) .content () ⟨⟨before,
        List.replicate (n + 1) 'R'.toUInt8 ++ Utf8.encode "Si"⟩, substitutions, depth⟩ =
        (production .content >>= fun t => pure (branch .inOut [t])) ⟨parse (fuel + 1)⟩
          ⟨⟨'R'.toUInt8 :: before, List.replicate n 'R'.toUInt8 ++ Utf8.encode "Si"⟩,
            substitutions, depth⟩ := rfl
    have hinner : production .content ⟨parse (fuel + 1)⟩ _ = (some _, s) := hrun
    rw [hstep, run_bind, hinner]
    rfl

/-- A type is read one level deeper than what it stands in. -/
theorem parse_type {fuel : Nat} {c : Cursor} {substitutions : Array Node} {n : Node} {s : State}
    (h : parse (fuel + 1) .content () ⟨c, substitutions, 1⟩ = (some n, s)) :
    parse (fuel + 1) .type () ⟨c, substitutions, 0⟩ =
      (some (typeOf n), { s with depth := s.depth - 1 }) := by
  have hcontent : contentRule ⟨parse fuel⟩ ⟨c, substitutions, 1⟩ = (some n, s) := h
  have hnested : nested contentRule ⟨parse fuel⟩ ⟨c, substitutions, 0⟩ =
      (some n, { s with depth := s.depth - 1 }) := by
    rw [nested, if_neg (by decide : ¬ maxDepth ≤ 0)]
    dsimp only
    rw [hcontent]
  show typeRule ⟨parse fuel⟩ ⟨c, substitutions, 0⟩ = _
  rw [typeRule, run_bind, hnested]
  rfl

/-- The tree of a symbol of the family. -/
theorem decodeSymbol_inOutSymbol (n : Nat) :
    decodeSymbol (inOutSymbol n) = some (branch .global [branch .typeMangling
      [typeOf (inOuts n (standardNominal .structureType "Int"))]]) := by
  generalize hfuel : (inOutSymbol n).length = fuel
  have hlt : n < fuel + 1 := by
    rw [← hfuel, length_inOutSymbol]
    omega
  obtain ⟨s, hcontent, hrest, -⟩ :=
    parse_content_inOuts n hlt (Utf8.encode "_Tt").reverse #[] 1
  -- the letters in front are read by computation, the letters of the family by the lemma about them
  have hparts : symbolParts ⟨parse (fuel + 1)⟩ (.start (inOutSymbol n)) =
      (global >>= fun body => pure [body]) ⟨parse (fuel + 1)⟩ ⟨⟨(Utf8.encode "_T").reverse,
        't'.toUInt8 :: (List.replicate n 'R'.toUInt8 ++ Utf8.encode "Si")⟩, #[], 0⟩ := rfl
  have hglobal : global ⟨parse (fuel + 1)⟩ ⟨⟨(Utf8.encode "_T").reverse,
        't'.toUInt8 :: (List.replicate n 'R'.toUInt8 ++ Utf8.encode "Si")⟩, #[], 0⟩ =
      aroundType .typeMangling ⟨parse (fuel + 1)⟩ ⟨⟨(Utf8.encode "_Tt").reverse,
        List.replicate n 'R'.toUInt8 ++ Utf8.encode "Si"⟩, #[], 0⟩ := rfl
  have htype : type ⟨parse (fuel + 1)⟩ ⟨⟨(Utf8.encode "_Tt").reverse,
        List.replicate n 'R'.toUInt8 ++ Utf8.encode "Si"⟩, #[], 0⟩ =
      (some (typeOf (inOuts n (standardNominal .structureType "Int"))),
        { s with depth := s.depth - 1 }) := parse_type hcontent
  refine decodeSymbol_eq_some_iff.mpr ⟨[branch .typeMangling
    [typeOf (inOuts n (standardNominal .structureType "Int"))]],
    { s with depth := s.depth - 1 }, ?_, ?_⟩
  · rw [hfuel, hparts, run_bind, hglobal, aroundType, run_bind, htype]
    rfl
  · rw [if_pos hrest, List.append_nil]

theorem height_inOutSymbol (n : Nat) : (branch .global [branch .typeMangling
    [typeOf (inOuts n (standardNominal .structureType "Int"))]]).height = n + 5 := by
  have hint : (standardNominal .structureType "Int").height = 2 := rfl
  simp [height_inOuts, hint]
  omega

/-! ## Heights and rendering -/

/-- The height of a tree is bounded by the length of its symbol, and rendering refuses exactly the
trees above its own limit. -/
theorem tooComplex_of_decodeSymbol {input : List UInt8} {t : Node}
    (h : decodeSymbol input = some t) (options : Options) :
    t.height ≤ 3 * input.length ∧
      (render options t = .error .tooComplex ↔ maxRenderDepth < t.height) ∧
      (input.length ≤ 256 → render options t ≠ .error .tooComplex) := by
  obtain ⟨hsound, hkind, hheight⟩ := sound_of_decodeSymbol h
  have htag : t.isTag = false := by simp [isTag, hkind]
  have hiff := render_eq_tooComplex_iff hsound (fun _ => htag) options
  refine ⟨hheight, hiff, fun hlength herror => ?_⟩
  have hlt := hiff.mp herror
  have hdepth : maxRenderDepth = 768 := rfl
  omega

theorem tooComplex_of_decodeSymbol_short : ∃ t, decodeSymbol (inOutSymbol 200) = some t ∧
    t.height ≤ 3 * (inOutSymbol 200).length ∧
      ∀ options, render options t ≠ .error .tooComplex := by
  have hlength : (inOutSymbol 200).length ≤ 256 := by
    rw [length_inOutSymbol]
    decide
  refine ⟨_, decodeSymbol_inOutSymbol 200, ?_, fun options => ?_⟩
  · exact (tooComplex_of_decodeSymbol (decodeSymbol_inOutSymbol 200) .full).1
  · exact (tooComplex_of_decodeSymbol (decodeSymbol_inOutSymbol 200) options).2.2 hlength

/-- The limit on nesting does not keep trees below the limit of rendering. -/
theorem decodeSymbol_inOutSymbol_tooComplex : ∃ t, decodeSymbol (inOutSymbol 800) = some t ∧
    maxRenderDepth < t.height ∧ ∀ options, render options t = .error .tooComplex := by
  have hdeep := decodeSymbol_inOutSymbol 800
  obtain ⟨hsound, hkind, -⟩ := sound_of_decodeSymbol hdeep
  have hheight := height_inOutSymbol 800
  generalize branch .global _ = t at hdeep hsound hkind hheight
  have hlt : maxRenderDepth < t.height := by
    rw [hheight]
    decide
  refine ⟨t, hdeep, hlt, fun options => ?_⟩
  exact (render_eq_tooComplex_iff hsound (fun _ => by simp [isTag, hkind]) options).mpr hlt

end SwiftMangling.Legacy
