import SwiftMangling.Proofs.Current.Blind
import SwiftMangling.Proofs.Locality

/-!
# Operators do not look behind themselves

The operators of the current scheme work on the stack, the tables and the input from their place on.
Where a letter turns out to be none of those that an operator knows, it steps back over that letter,
and two of them step back over the letter before it as well. So an operator does the same wherever
it stands, as long as the letter that selects it may be stepped back over.
-/

namespace SwiftMangling.Current

open Decoding

/-- Two runs in the same configuration. -/
def Config.Alike (r r' : Config) : Prop :=
  r' = r

/-- The decoder does not depend on what stands before the input. -/
abbrev Portable {α : Type} (N j : Nat) (d : Decoder α) : Prop :=
  Local Config.Alike (fun _ => True) N j d

/-- The decoder does not depend on what stands before the input, and steps back over at most `k` of
the bytes that have been read. -/
abbrev Retreats {α : Type} (N j k : Nat) (d : Decoder α) : Prop :=
  Paired Config.Alike (fun _ => True) N j k d d

variable {N j : Nat} {k : Kind} {reference : Reference}

instance : Placeless (fun _ : State => True) :=
  ⟨fun _ _ _ => trivial⟩

/-- A decoder that works on the stack and the tables only. -/
instance (priority := low) {α : Type} {d : Decoder α} [h : Inner d] : Portable N j d :=
  h.local (fun hr => congrArg Config.inlineLabels hr) fun _ _ => id

/-! ## Names and references -/

instance : Portable N j numberNode :=
  inferInstanceAs (Portable N j (_ >>= _))

instance {punycoded : Bool} : Portable N j (identifierText punycoded) :=
  inferInstanceAs (Portable N j (_ >>= _))

instance {punycoded wordsFollow : Bool} {n : Nat} {read : String} :
    Portable N j (identifierPieces punycoded n wordsFollow read) := by
  induction n generalizing wordsFollow read with
  | zero => exact inferInstanceAs (Portable N j failure)
  | succ n ih =>
    rw [identifierPieces]
    infer_instance

instance : Portable N j identifier :=
  inferInstanceAs (Portable N j (_ >>= _))

instance : Portable N j operatorName := by
  refine .bind inferInstance fun name => .bind inferInstance fun spelled =>
    .bind inferInstance fun operator => .bind inferInstance fun c => ?_
  dsimp only
  split <;> infer_instance

instance : Portable N j localName := by
  unfold localName
  refine .bind inferInstance fun _ => .ite inferInstance <|
    .bind inferInstance fun _ => .ite inferInstance <| .bind inferInstance fun m => ?_
  split <;> infer_instance

instance {n : Nat} {count : Option Nat} : Portable N j (substitutionsFrom n count) := by
  induction n generalizing j count with
  | zero => exact inferInstanceAs (Portable N j failure)
  | succ n ih =>
    rw [substitutionsFrom]
    exact paired_nextChar fun c => .ite inferInstance <| .ite inferInstance <|
      .ite inferInstance <| paired_pushBack inferInstance

instance : Portable N j substitutionReference :=
  inferInstanceAs (Portable N j (_ >>= _))

instance : Portable N j standardSubstitution := by
  unfold standardSubstitution
  refine paired_nextChar fun c => ?_
  dsimp only
  split
  case h_4 =>
    refine paired_pushBack (.bind inferInstance fun _ =>
      .ite (.bind inferInstance fun count => ?_) (.bind inferInstance fun count => ?_))
    all_goals
      exact .bind inferInstance fun _ =>
        .bind inferInstance fun _ => .ite inferInstance inferInstance
  all_goals infer_instance

instance : Inner (modify fun s => { s with references := s.references.push reference }) :=
  ⟨fun _ _ => rfl, fun _ _ _ _ _ => rfl⟩

/-- A resolver answers by what it is asked only. -/
instance : Portable N j (resolve reference) where
  run {r r' b b' x l s s'} hr hx hl hs := by
    obtain rfl : r' = r := hr
    have hbody : Portable N j (match r'.resolver with
        | none => failure
        | some resolver => do
          modify fun s => { s with references := s.references.push reference }
          ofOption (resolver reference) : Decoder Node) := by
      split <;> infer_instance
    exact hbody.run rfl hx hl hs

instance {control : UInt8} : Portable N j (symbolicReference control) := by
  have htail : Portable N j (look Cursor.rest) := local_look fun _ _ _ => rfl
  unfold symbolicReference
  infer_instance

/-! ## Generics and conformances -/

instance : Portable N j genericParameterIndex :=
  inferInstanceAs (Portable N j (_ >>= _))

instance : Portable N j parameterCount :=
  inferInstanceAs (Portable N j (_ >>= _))

instance {hasCounts : Bool} : Portable N j (genericSignature hasCounts) := by
  unfold genericSignature
  infer_instance

instance {subject : Subject} : Portable N j (requirementSubject subject) := by
  cases subject <;> dsimp only [requirementSubject] <;> infer_instance

instance {subject : Node} : Portable N j (layoutRequirement subject) := by
  unfold layoutRequirement
  refine .bind inferInstance fun c => ?_
  dsimp only
  split <;> infer_instance

instance : Portable N j genericRequirement := by
  have hrest (j : Nat) (form : Constraint × Subject) : Portable N j (do
      let subject ← requirementSubject form.2
      match form.1 with
      | .protocol =>
        return .branch .dependentGenericConformanceRequirement [subject, ← popProtocol]
      | .baseClass =>
        return .branch .dependentGenericConformanceRequirement [subject, ← popKind .type]
      | .sameType =>
        return .branch .dependentGenericSameTypeRequirement [subject, ← popKind .type]
      | .layout => layoutRequirement subject) := by
    refine .bind inferInstance fun subject => ?_
    split <;> infer_instance
  unfold genericRequirement
  refine paired_nextChar fun c => ?_
  dsimp only
  split
  -- a letter for the form, or none and the letter read so far is put back
  · exact (Paired.bind inferInstance fun form => hrest (j + 1) form).weaken
  · exact paired_pushBack (.bind inferInstance fun form => hrest j form)

instance : Portable N j opaqueResult :=
  inferInstanceAs (Portable N j (_ >>= _))

instance : Portable N j archetype := by
  unfold archetype
  refine .bind inferInstance fun c => ?_
  split <;> infer_instance

instance : Portable N j retroactiveConformance :=
  inferInstanceAs (Portable N j (_ >>= _))

instance : Portable N j conformanceIndex :=
  .bind inferInstance fun n => by split <;> infer_instance

instance : Portable N j rootConformance :=
  inferInstanceAs (Portable N j (_ >>= _))

instance : Portable N j inheritedConformance :=
  inferInstanceAs (Portable N j (_ >>= _))

instance : Portable N j associatedConformance :=
  inferInstanceAs (Portable N j (_ >>= _))

/-- What is no conformance is read as an identifier, from the letter that introduced it on. -/
theorem conformance_retreats : Retreats N j 1 conformance := by
  unfold conformance
  refine paired_nextChar fun c => ?_
  split
  case h_7 => exact paired_pushBack (paired_pushBack inferInstance)
  all_goals infer_instance

/-! ## Function types and declarations -/

instance : Portable N j clangType :=
  inferInstanceAs (Portable N j (_ >>= _))

instance {hasClangType : Bool} : Portable N j (popFunctionType k hasClangType) := by
  unfold popFunctionType
  infer_instance

instance : Portable N j plainFunction :=
  inferInstanceAs (Portable N j (_ >>= _))

instance : Portable N j (closure k) :=
  inferInstanceAs (Portable N j (_ >>= _))

instance : Portable N j defaultArgument :=
  inferInstanceAs (Portable N j (_ >>= _))

instance : Portable N j functionEntity := by
  unfold functionEntity
  refine .bind inferInstance fun c => ?_
  split <;> infer_instance

instance {storage : Node} : Portable N j (accessor storage) := by
  unfold accessor
  refine .bind inferInstance fun c => ?_
  split
  case h_9 | h_10 => exact .bind inferInstance fun c => by split <;> infer_instance
  all_goals infer_instance

instance : Portable N j variableEntity :=
  inferInstanceAs (Portable N j (_ >>= _))

instance : Portable N j subscriptEntity :=
  inferInstanceAs (Portable N j (_ >>= _))

/-! ## Built-in and special types -/

instance : Portable N j builtinSize :=
  inferInstanceAs (Portable N j (_ >>= _))

instance : Portable N j builtinType := by
  unfold builtinType
  refine .bind inferInstance fun c => ?_
  split <;> infer_instance

instance : Portable N j metatypeRepresentation :=
  inferInstanceAs (Portable N j (_ >>= _))

instance : Portable N j (representedMetatype k) :=
  inferInstanceAs (Portable N j (_ >>= _))

instance : Portable N j specialType := by
  unfold specialType
  refine .bind inferInstance fun c => ?_
  split
  case h_9 => exact .bind inferInstance fun c => by split <;> infer_instance
  all_goals infer_instance

instance : Portable N j typeMark := by
  unfold typeMark
  refine .bind inferInstance fun c => ?_
  split <;> infer_instance

/-! ## Lowered function types -/

instance : Portable N j loweredSubstitutions := by
  unfold loweredSubstitutions
  dsimp only
  exact .bind inferInstance fun _ => .ite inferInstance inferInstance

instance : Portable N j loweredSignature :=
  .bind inferInstance fun signature => by split <;> infer_instance

instance : Portable N j functionConvention := by
  unfold functionConvention
  refine paired_nextChar fun c => ?_
  split
  case h_3 =>
    -- the second letter decides whether the first one belongs to a convention at all
    refine paired_nextChar fun c => ?_
    split
    case h_3 => exact paired_pushBack (paired_pushBack inferInstance)
    all_goals infer_instance
  case h_8 => exact paired_pushBack inferInstance
  all_goals infer_instance

instance {table : Char → Option String} : Portable N j (itemConvention table) :=
  inferInstanceAs (Portable N j (_ >>= _))

instance {table : Char → Option String} : Portable N j (markedItem k table) :=
  inferInstanceAs (Portable N j (_ >>= _))

instance {n : Nat} : Portable N j (yields n) := by
  induction n with
  | zero => exact inferInstanceAs (Portable N j (pure []))
  | succ n ih =>
    rw [yields]
    infer_instance

instance : Portable N j loweredItems := by
  unfold loweredItems
  exact .bind inferInstance fun _ => .bind inferInstance fun parameters =>
    .bind inferInstance fun _ => .bind inferInstance fun results => .bind inferInstance fun _ =>
    .bind inferInstance fun yielded => inferInstance

instance : Portable N j loweredFunctionType := by
  unfold loweredFunctionType
  dsimp only
  refine .bind inferInstance fun substitutions => .bind inferInstance fun signature =>
    .bind inferInstance fun escaping => .bind inferInstance fun _ =>
    .ite (.bind inferInstance fun _ => .bind inferInstance fun _ => ?_) ?_
  all_goals
    exact .bind inferInstance fun differentiability => .bind inferInstance fun _ =>
      .bind inferInstance fun callee => .bind inferInstance fun convention =>
      .bind inferInstance fun yieldsOnce => .ite inferInstance
        (.bind inferInstance inferInstance)

/-! ## Metadata and witnesses -/

instance : Portable N j contextDescriptor := by
  unfold contextDescriptor
  refine .bind inferInstance fun c => ?_
  split <;> infer_instance

instance : Portable N j metadata := by
  unfold metadata
  refine .bind inferInstance fun c => ?_
  split <;> infer_instance

instance : Portable N j valueWitness :=
  inferInstanceAs (Portable N j (_ >>= _))

instance : Portable N j fieldOffset := by
  unfold fieldOffset
  refine .bind inferInstance fun c => ?_
  dsimp only
  split <;> infer_instance

instance : Portable N j outlinedOperation := by
  unfold outlinedOperation
  refine .bind inferInstance fun c => ?_
  split <;> infer_instance

instance : Portable N j derivativeKind :=
  inferInstanceAs (Portable N j (_ >>= _))

instance : Portable N j indexSubset :=
  inferInstanceAs (Portable N j (_ >>= _))

instance : Portable N j parametersAndResults :=
  inferInstanceAs (Portable N j (_ >>= _))

instance : Portable N j (derivative k) :=
  inferInstanceAs (Portable N j (_ >>= _))

instance : Portable N j subsetParametersThunk :=
  inferInstanceAs (Portable N j (_ >>= _))

instance : Portable N j selfReorderingThunk :=
  inferInstanceAs (Portable N j (_ >>= _))

instance : Portable N j differentiabilityWitness :=
  inferInstanceAs (Portable N j (_ >>= _))

instance : Portable N j witness := by
  unfold witness
  refine .bind inferInstance fun c => ?_
  split <;> infer_instance

/-! ## Specializations and thunks -/

instance : Portable N j specializationHeader :=
  inferInstanceAs (Portable N j (_ >>= _))

instance : Portable N j (genericSpecialization k) :=
  inferInstanceAs (Portable N j (_ >>= _))

instance : Portable N j (partialSpecialization k) :=
  inferInstanceAs (Portable N j (_ >>= _))

instance {c : Char} {o : ParamOption} : Portable N j (optionIf c o) :=
  inferInstanceAs (Portable N j (_ >>= _))

instance {first : ParamOption} {canBeDead : Bool} :
    Portable N j (paramOptions first canBeDead) := by
  unfold paramOptions
  infer_instance

instance {c : ParamChange} : Portable N j (propagatedNumber c) :=
  inferInstanceAs (Portable N j (_ >>= _))

instance : Portable N j propagatedString := by
  unfold propagatedString
  refine .bind inferInstance fun c => ?_
  dsimp only
  split <;> infer_instance

instance : Portable N j paramChange := by
  unfold paramChange
  refine .bind inferInstance fun c => ?_
  split
  case h_3 => exact .bind inferInstance fun c => by split <;> infer_instance
  all_goals infer_instance

instance : Portable N j (paramNode k) :=
  inferInstanceAs (Portable N j (_ >>= _))

instance : Portable N j functionSpecialization := by
  unfold functionSpecialization
  infer_instance

instance : Portable N j (keyPathAccessor k) := by
  unfold keyPathAccessor
  infer_instance

instance : Portable N j (keyPathHash k) := by
  unfold keyPathHash
  refine .bind inferInstance fun serialized => .bind inferInstance fun first => ?_
  dsimp only
  split
  all_goals
    refine .bind inferInstance fun _ => .bind inferInstance fun _ => .bind inferInstance fun _ => ?_
    split <;> infer_instance

instance : Portable N j bridgedArgument :=
  inferInstanceAs (Portable N j (_ >>= _))

instance : Portable N j bridgedMethod := by
  unfold bridgedMethod
  refine .bind inferInstance fun _ => ?_
  dsimp only
  exact .ite (.bind (inferInstanceAs (Portable N j failure)) inferInstance) inferInstance

instance : Portable N j (resumeFunction k) :=
  inferInstanceAs (Portable N j (_ >>= _))

instance : Portable N j (completionHandler k) :=
  inferInstanceAs (Portable N j (_ >>= _))

instance : Portable N j derivativeThunk := by
  refine .bind inferInstance fun m => ?_
  split <;> infer_instance

instance : Portable N j thunk := by
  unfold thunk
  refine .bind inferInstance fun c => ?_
  split <;> infer_instance

/-! ## Operators -/

/-- A suffix starts at its first byte. -/
theorem suffix_retreats : Retreats N j 1 suffix :=
  paired_pushBack inferInstance

/-- An operator puts back no more than one character. -/
theorem operatorOf_retreats (c : Char) : Retreats N j 1 (operatorOf c) := by
  unfold operatorOf
  split
  case h_8 => exact conformance_retreats
  case h_48 => exact suffix_retreats
  case h_49 => exact paired_pushBack inferInstance
  all_goals infer_instance

instance : Portable N j skipPadding :=
  inferInstanceAs (Portable N j (_ >>= _))

instance : Portable N j operator :=
  .bind inferInstance fun _ => paired_nextByte fun b =>
    .ite inferInstance (operatorOf_retreats (charOfByte b))

instance {n : Nat} : Portable N j (operatorsFrom n) := by
  induction n with
  | zero => exact inferInstanceAs (Portable N j failure)
  | succ n ih =>
    rw [operatorsFrom]
    infer_instance

instance : Portable N j operators :=
  inferInstanceAs (Portable N j (_ >>= _))

end SwiftMangling.Current
