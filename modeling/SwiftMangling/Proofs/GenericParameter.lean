import SwiftMangling.Legacy.Symbol
import SwiftMangling.Proofs.Current.Reference
import SwiftMangling.Proofs.Legacy.Stable
import SwiftMangling.Proofs.Spelling

/-!
# References to generic parameters

A generic parameter is referred to by its depth and by its position at that depth. Both schemes
spell the first parameter of the outermost depth `x`, the others of that depth by the position
before theirs, and those of any other depth by the depth before theirs and their position. What
stands behind the `q` is read by one decoding in both schemes (`parameterBehind`). The legacy scheme
does not take it for a member of a type, because a type starts neither with `d` nor with an index
(`readsExactly_dependentType`).
-/

namespace SwiftMangling

open Decoding

/-- The spelling of a generic parameter. -/
def spelledParameter : Nat → Nat → List UInt8
  | 0, 0 => ['x'.toUInt8]
  | 0, position + 1 => 'q'.toUInt8 :: spelledIndex position
  | depth + 1, position =>
    'q'.toUInt8 :: 'd'.toUInt8 :: (spelledIndex depth ++ spelledIndex position)

/-- The node of a generic parameter. -/
def parameterNode (depth position : UInt64) : Node :=
  .branch .dependentGenericParamType [.ofIndex .index depth, .ofIndex .index position]

theorem genericParameter_toNat (depth position : UInt64) :
    Node.genericParameter depth.toNat position.toNat = parameterNode depth position := by
  rw [Node.genericParameter, UInt64.ofNat_toNat, UInt64.ofNat_toNat, parameterNode]

/-! ## Behind the letter -/

section Behind

variable {ρ σ : Type} [HasCursor σ] {r : ρ} {s : σ} {depth position : Nat} {rest : List UInt8}

/-- Reads a generic parameter, the first one of the outermost depth from the letter `first`. -/
def parameterBehind (first : Char) : Decoding ρ σ Node := do
  if ← nextIf 'd' then
    let depth ← successor (← index)
    return .genericParameter depth (← index)
  if ← nextIf first then return .genericParameter 0 0
  return .genericParameter 0 (← successor (← index))

theorem current_genericParameterIndex_eq : Current.genericParameterIndex = parameterBehind 'z' :=
  rfl

theorem legacy_genericParameterIndex_eq : Legacy.genericParameterIndex = parameterBehind 'x' :=
  rfl

variable [LawfulCursor σ] {first : Char}

/-- At the outermost depth the position before is spelled. -/
theorem readsExactly_outermost (hfirst : first = 'x' ∨ first = 'z')
    (hposition : position + 1 < UInt64.size) :
    ReadsExactly r s (parameterBehind first) (spelledIndex position) rest
      (.genericParameter 0 (position + 1)) := by
  have hdeep : Clear (· == 'd'.toUInt8) (spelledIndex position ++ rest) :=
    clear_spelledIndex (by decide) (by decide) position rest
  have hother : Clear (· == first.toUInt8) (spelledIndex position ++ rest) := by
    rcases hfirst with rfl | rfl <;> exact clear_spelledIndex (by decide) (by decide) position rest
  refine .step (.nextIf_false hdeep) (.step (.nextIf_false hother) ?_)
  exact .last (.index (Nat.lt_of_succ_lt hposition)) (.step (.successor hposition) .ret)

/-- At any other depth the depth before is spelled, and then the position. -/
theorem readsExactly_deeper (hdepth : depth + 1 < UInt64.size)
    (hposition : position < UInt64.size) :
    ReadsExactly r s (parameterBehind first)
      ('d'.toUInt8 :: (spelledIndex depth ++ spelledIndex position)) rest
      (.genericParameter (depth + 1) position) := by
  refine .bind (p := ['d'.toUInt8]) .nextIf (.bind (.index (Nat.lt_of_succ_lt hdepth)) ?_)
  exact .step (.successor hdepth) (.last (.index hposition) .ret)

end Behind

/-! ## The two decoders -/

namespace Current

variable {r : Config} {s : State} {depth position : Nat} {rest : List UInt8} {stack : List Node}

/-- An operator of the current scheme is a letter and what it introduces. -/
theorem turns_parameter (hdepth : depth < UInt64.size) (hposition : position < UInt64.size) :
    Turns r s operator (spelledParameter depth position) rest stack stack
      (.typeOf (.genericParameter depth position)) := by
  -- the first of all has a letter, the others of its depth a number, and deeper ones two
  match depth, position with
  | 0, 0 => exact turns_operator (by decide) (by decide) .ret
  | 0, position + 1 =>
    have hread : Turns r s genericParameterIndex (spelledIndex position) rest stack stack
        (.genericParameter 0 (position + 1)) := by
      rw [current_genericParameterIndex_eq]
      exact .of_reads fun _ => readsExactly_outermost (.inr rfl) hposition
    exact turns_operator (by decide) (by decide) (.last hread .ret)
  | depth + 1, position =>
    have hread : Turns r s genericParameterIndex
        ('d'.toUInt8 :: (spelledIndex depth ++ spelledIndex position)) rest stack stack
        (.genericParameter (depth + 1) position) := by
      rw [current_genericParameterIndex_eq]
      exact .of_reads fun _ => readsExactly_deeper hdepth hposition
    exact turns_operator (by decide) (by decide) (.last hread .ret)

end Current

namespace Legacy

variable {g : Grammar} {s : State} {depth position : Nat} {p rest : List UInt8} {node : Node}

/-- A `d`, a `_` or a digit starts no type. -/
theorem not_startsType {b : UInt8}
    (hb : b = 'd'.toUInt8 ∨ b = '_'.toUInt8 ∨ Cursor.isDigit b = true) :
    (charOfByte b != 'd' && charOfByte b != '_' && !(charOfByte b).isDigit) = false := by
  rcases hb with rfl | rfl | hb
  · decide
  · decide
  · obtain ⟨d, hd, rfl⟩ := Cursor.isDigit_eq hb
    clear hb
    revert d
    decide

/-- A type that starts like an index of a generic parameter is read as one. -/
theorem readsExactly_dependentType
    (hp : ∃ b bs, p = b :: bs ∧ (b = 'd'.toUInt8 ∨ b = '_'.toUInt8 ∨ Cursor.isDigit b = true))
    (h : ReadsExactly g s genericParameterIndex p rest node) :
    ReadsExactly g s dependentType p rest node := by
  obtain ⟨b, bs, rfl, hb⟩ := hp
  refine .step .peekChar? (.step (.ofOption rfl) ?_)
  rw [not_startsType hb]
  exact h

/-- The shortest spelling of a parameter is read back, with nothing of what follows. -/
theorem readsExactly_contentRule (hdepth : depth < UInt64.size)
    (hposition : position < UInt64.size) :
    ReadsExactly g s contentRule (spelledParameter depth position) rest
      (.genericParameter depth position) := by
  match depth, position with
  | 0, 0 => exact .last .nextChar .ret
  | 0, position + 1 =>
    obtain ⟨b, bs, hspelling, hb⟩ := spelledIndex_eq_cons position
    refine .bind (p := ['q'.toUInt8]) .nextChar ?_
    refine readsExactly_dependentType ⟨b, bs, hspelling, .inr hb⟩ ?_
    rw [legacy_genericParameterIndex_eq]
    exact readsExactly_outermost (.inl rfl) hposition
  | depth + 1, position =>
    refine .bind (p := ['q'.toUInt8]) .nextChar ?_
    refine readsExactly_dependentType ⟨_, _, rfl, .inl rfl⟩ ?_
    rw [legacy_genericParameterIndex_eq]
    exact readsExactly_deeper hdepth hposition

/-- A type is read one level deeper, and not at all if it would be too deep. -/
theorem typeRule_eq (h : ∀ s, ReadsExactly g s contentRule p rest node) (before : List UInt8) :
    typeRule g { s with cursor := ⟨before, p ++ rest⟩ } =
      if maxDepth ≤ s.depth then (none, { s with cursor := ⟨before, p ++ rest⟩ })
      else (some (.typeOf node), { s with cursor := ⟨p.reverse ++ before, rest⟩ }) := by
  by_cases hdeep : maxDepth ≤ s.depth
  · have hnested : nested contentRule g { s with cursor := ⟨before, p ++ rest⟩ } =
        (none, { s with cursor := ⟨before, p ++ rest⟩ }) := if_pos hdeep
    rw [typeRule, run_bind, hnested, if_pos hdeep]
  · have hcontent := h { s with depth := s.depth + 1 } before
    have hnested : nested contentRule g { s with cursor := ⟨before, p ++ rest⟩ } =
        (some node, { s with cursor := ⟨p.reverse ++ before, rest⟩ }) := by
      unfold nested
      rw [if_neg hdeep]
      exact congrArg (fun x : Option Node × State => (x.1, { x.2 with depth := x.2.depth - 1 }))
        hcontent
    rw [typeRule, run_bind_of_eq hnested, if_neg hdeep]
    rfl

end Legacy

/-- Both schemes read a reference to a generic parameter exactly and alike. Whatever the 64-bit
depth and position are and whatever follows, an operator of the current scheme and the type
production of the legacy scheme consume the spelling and return the type of the parameter, and
nothing but the place in the input changes. Only where types are nested as deep as the legacy scheme
allows does it read none, which is never so at the start of an input. -/
theorem genericParameter_read (depth position : UInt64) (before rest : List UInt8) :
    let spelling := spelledParameter depth.toNat position.toNat
    let parameter := Node.typeOf (parameterNode depth position)
    (∀ r (s : Current.State),
      Current.operator r { s with cursor := ⟨before, spelling ++ rest⟩ } =
        (some parameter, { s with cursor := ⟨spelling.reverse ++ before, rest⟩ })) ∧
    (∀ g (s : Legacy.State),
      Legacy.typeRule g { s with cursor := ⟨before, spelling ++ rest⟩ } =
        if Legacy.maxDepth ≤ s.depth then (none, { s with cursor := ⟨before, spelling ++ rest⟩ })
        else (some parameter, { s with cursor := ⟨spelling.reverse ++ before, rest⟩ })) ∧
    Legacy.decodeType (spelling ++ rest) = some parameter := by
  intro spelling parameter
  have hdepth := depth.toNat_lt
  have hposition := position.toNat_lt
  have hparameter : parameter = .typeOf (.genericParameter depth.toNat position.toNat) := by
    rw [genericParameter_toNat]
  have hcontent (g : Legacy.Grammar) (s : Legacy.State) : ReadsExactly g s Legacy.contentRule
      spelling rest (.genericParameter depth.toNat position.toNat) :=
    Legacy.readsExactly_contentRule hdepth hposition
  have htype (g : Legacy.Grammar) (s : Legacy.State) (before : List UInt8) :=
    Legacy.typeRule_eq (s := s) (hcontent g) before
  rw [hparameter]
  refine ⟨fun r s => ?_, fun g s => htype g s before, ?_⟩
  · exact Current.turns_parameter hdepth hposition before
  · exact congrArg Prod.fst (htype ⟨Legacy.parse _⟩ (Legacy.State.start []) [])

example : spelledParameter 0 (UInt64.size - 1) = Utf8.encode "q18446744073709551613_" := by
  decide +kernel

end SwiftMangling
