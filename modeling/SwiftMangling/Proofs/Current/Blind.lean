import SwiftMangling.Proofs.Continuation
import SwiftMangling.Current.Symbol

/-!
# Productions that work on the stack

Most operators of the current scheme take their operands from the stack and the tables and do not
look at the input. They do the same whatever the input is.
-/

namespace SwiftMangling.Current

open Decoding

instance : LawfulCursor State :=
  ⟨fun _ _ => rfl, fun _ _ _ => rfl⟩

/-- A configuration without a resolver that answers. -/
def Config.Unanswered (r : Config) : Prop :=
  ∀ f ∈ r.resolver, ∀ reference, f reference = none

/-- Two configurations that differ in the resolver only; that of the first does not answer. -/
structure Config.Agrees (r r' : Config) : Prop where
  unanswered : r.Unanswered
  inlineLabels : r'.inlineLabels = r.inlineLabels

/-- Two configurations that differ in the resolver only. -/
def Config.SameLabels (r r' : Config) : Prop :=
  r'.inlineLabels = r.inlineLabels

/-- The decoder works on the stack and the tables only. -/
abbrev Inner {α : Type} (d : Decoder α) : Prop :=
  Blind Config.SameLabels d

instance (priority := low) {α : Type} {d : Decoder α} [h : Inner d] : Blind Config.Agrees d :=
  ⟨h.cursor, fun r r' s c hr => h.run r r' s c hr.inlineLabels⟩

variable {k : Kind} {p : Kind → Bool}

/-! ## The stack and the tables -/

instance {n : Node} : Inner (push n) :=
  ⟨fun _ _ => rfl, fun _ _ _ _ _ => rfl⟩

instance {count : Nat} {n : Node} : Inner (pushCopies count n) :=
  ⟨fun _ _ => rfl, fun _ _ _ _ _ => rfl⟩

instance : Inner (popWhere p) where
  cursor r s := by
    unfold popWhere
    split
    · rfl
    · split <;> rfl
  run r r' s c _ := by
    obtain ⟨cursor, _ | ⟨n, rest⟩, substitutions, words, references⟩ := s
    · rfl
    · by_cases hn : p n.kind <;> simp [popWhere, HasCursor.withCursor, hn]

instance : Inner pop :=
  inferInstanceAs (Inner (popWhere _))

instance : Inner (popKind k) :=
  inferInstanceAs (Inner (popWhere _))

instance : Inner (popKind? k) :=
  inferInstanceAs (Inner (attempt _))

instance : Inner (popMarker k) :=
  inferInstanceAs (Inner (_ >>= _))

instance : Inner popAll :=
  ⟨fun _ _ => rfl, fun _ _ _ _ _ => rfl⟩

instance : Inner stackSize :=
  ⟨fun _ _ => rfl, fun _ _ _ _ _ => rfl⟩

instance : Inner (popRun p) :=
  inferInstanceAs (Inner (_ >>= _))

instance {n : Node} : Inner (addSubstitution n) :=
  ⟨fun _ _ => rfl, fun _ _ _ _ _ => rfl⟩

instance {n : Node} : Inner (remember n) :=
  inferInstanceAs (Inner (_ >>= _))

instance {i : Nat} : Inner (substitution i) :=
  ⟨fun _ _ => rfl, fun _ _ _ _ _ => rfl⟩

instance {count : Option Nat} {i : Nat} : Inner (repeated count i) :=
  inferInstanceAs (Inner (_ >>= _))

instance {c : Char} : Inner (namedWord c) :=
  ⟨fun _ _ => rfl, fun _ _ _ _ _ => rfl⟩

instance {s : String} :
    Inner (modify fun st => { st with words := Word.harvest st.words s } : Decoder Unit) :=
  ⟨fun _ _ => rfl, fun _ _ _ _ _ => rfl⟩

instance : Inner ((·.inlineLabels) <$> read) where
  cursor _ _ := rfl
  run r r' s c h := by
    show (some r'.inlineLabels, HasCursor.withCursor s c) = _
    rw [show r'.inlineLabels = r.inlineLabels from h]
    rfl

instance : Inner popTypeChild :=
  .bind inferInstance fun n => by split <;> infer_instance

instance : Inner popBindable :=
  inferInstanceAs (Inner (_ >>= _))

instance : Inner popModule :=
  .bind inferInstance fun m => by split <;> infer_instance

instance : Inner popContext := by
  refine .bind inferInstance fun m => ?_
  split
  · infer_instance
  · refine .bind inferInstance fun t => ?_
    split
    · split <;> infer_instance
    · infer_instance

instance : Inner popDeclName :=
  inferInstanceAs (Inner (popWhere _))

instance : Inner popEntity :=
  inferInstanceAs (Inner (popWhere _))

instance {element : Decoder Node} [Inner element] {n : Nat} {later : List Node} :
    Inner (popMarkedFrom element n later) := by
  induction n generalizing later with
  | zero => exact inferInstanceAs (Inner failure)
  | succ n ih =>
    rw [popMarkedFrom]
    infer_instance

instance {element : Decoder Node} [Inner element] : Inner (popMarked element) :=
  inferInstanceAs (Inner (_ >>= _))

instance {element : Decoder Node} [Inner element] : Inner (popList element) :=
  inferInstanceAs (Inner (_ >>= _))

instance : Inner popTypeList :=
  inferInstanceAs (Inner (_ >>= _))

instance : Inner (aroundType k) :=
  inferInstanceAs (Inner (_ >>= _))

instance : Inner (aroundNode k) :=
  inferInstanceAs (Inner (_ >>= _))

instance : Inner (aroundEntity k) :=
  inferInstanceAs (Inner (_ >>= _))

instance : Inner (aroundContext k) :=
  inferInstanceAs (Inner (_ >>= _))

/-! ## Generic arguments, protocols and conformances -/

instance : Inner popRetroactiveConformances :=
  .bind inferInstance fun cs => by split <;> infer_instance

instance {n : Nat} : Inner (popArgumentLists n) := by
  induction n with
  | zero => exact inferInstanceAs (Inner failure)
  | succ n ih =>
    rw [popArgumentLists]
    infer_instance

instance : Inner popBoundGenerics :=
  inferInstanceAs (Inner (_ >>= _))

instance : Inner boundGenericType :=
  inferInstanceAs (Inner (_ >>= _))

instance : Inner (nominalType k) :=
  inferInstanceAs (Inner (_ >>= _))

instance : Inner popProtocol := by
  refine .bind inferInstance fun t => ?_
  split
  · infer_instance
  · exact .bind inferInstance fun r => by split <;> infer_instance

instance : Inner (aroundProtocol k) :=
  inferInstanceAs (Inner (_ >>= _))

instance : Inner popProtocolList :=
  inferInstanceAs (Inner (_ >>= _))

instance : Inner genericType :=
  inferInstanceAs (Inner (_ >>= _))

instance : Inner popAssociatedTypeName := by
  refine .bind inferInstance fun t => ?_
  dsimp only
  split <;> infer_instance

instance {base : Option Node} : Inner (typeOrPop base) := by
  cases base
  · exact inferInstanceAs (Inner (popKind _))
  · exact inferInstanceAs (Inner (pure _))

instance {base : Option Node} : Inner (associatedType base) :=
  inferInstanceAs (Inner (_ >>= _))

instance {base : Option Node} : Inner (associatedTypePath base) :=
  inferInstanceAs (Inner (_ >>= _))

instance : Inner popAssociatedTypePath :=
  inferInstanceAs (Inner (_ >>= _))

instance : Inner popConformance := by
  refine .bind inferInstance fun signature => .bind inferInstance fun module =>
    .bind inferInstance fun protocol => .bind inferInstance fun t => ?_
  dsimp only
  split <;> infer_instance

instance : Inner (aroundConformance k) :=
  inferInstanceAs (Inner (_ >>= _))

instance : Inner popConformanceReference := by
  refine .bind inferInstance fun r => ?_
  split
  · infer_instance
  · exact .bind inferInstance fun r => by split <;> infer_instance

instance : Inner concreteConformance :=
  inferInstanceAs (Inner (_ >>= _))

/-! ## Function types and declarations -/

instance {ks : List Kind} : Inner (popMarks ks) := by
  induction ks with
  | nil => exact inferInstanceAs (Inner (pure _))
  | cons k ks ih =>
    rw [popMarks]
    infer_instance

instance : Inner (popParameters k) :=
  inferInstanceAs (Inner (_ >>= _))

instance {n : Nat} {later : List Node} : Inner (popLabelNodes n later) := by
  induction n generalizing later with
  | zero => exact inferInstanceAs (Inner (pure _))
  | succ n ih =>
    rw [popLabelNodes]
    infer_instance

instance {t : Option Node} : Inner (popLabels t) := by
  unfold popLabels
  dsimp only
  refine .bind inferInstance fun inline =>
    .ite (.bind inferInstance fun isEmpty => .ite inferInstance ?_) ?_
  -- what follows is the same whether the marker of an empty list was looked for or not
  all_goals
    split
    · infer_instance
    · split <;> infer_instance

instance : Inner popTupleElement :=
  inferInstanceAs (Inner (_ >>= _))

instance : Inner popTuple :=
  inferInstanceAs (Inner (_ >>= _))

instance : Inner extensionContext :=
  inferInstanceAs (Inner (_ >>= _))

instance : Inner (namedEntity k) :=
  inferInstanceAs (Inner (_ >>= _))

instance : Inner (typedEntity k) :=
  inferInstanceAs (Inner (_ >>= _))

/-! ## Special types, witnesses and thunks -/

instance : Inner (wrapType k) :=
  inferInstanceAs (Inner (_ >>= _))

instance : Inner (wrapTypeChild k) :=
  inferInstanceAs (Inner (_ >>= _))

instance {isGeneric : Bool} : Inner (boxType isGeneric) := by
  unfold boxType
  infer_instance

instance : Inner (lazyWitnessTable k) :=
  inferInstanceAs (Inner (_ >>= _))

instance : Inner (outlined k) :=
  inferInstanceAs (Inner (_ >>= _))

instance {n : Nat} {later : List Node} : Inner (popMarkedNames n later) := by
  induction n generalizing later with
  | zero => exact inferInstanceAs (Inner (pure _))
  | succ n ih =>
    rw [popMarkedNames]
    infer_instance

instance : Inner (onceInitialization k) :=
  inferInstanceAs (Inner (_ >>= _))

instance {c : ParamChange} : Inner (popArgumentTypes c) := by
  unfold popArgumentTypes
  infer_instance

instance {n : Node} : Inner (popParamPayload n) := by
  unfold popParamPayload
  split <;> infer_instance

instance {ps later : List Node} : Inner (popParamPayloads ps later) := by
  induction ps generalizing later with
  | nil => exact inferInstanceAs (Inner (pure _))
  | cons p ps ih =>
    rw [popParamPayloads]
    infer_instance

instance {items : List Item} {later : List Node} : Inner (popItemTypes items later) := by
  induction items generalizing later with
  | nil => exact inferInstanceAs (Inner (pure _))
  | cons i items ih =>
    rw [popItemTypes]
    infer_instance

instance {n : Nat} {types : List Node} : Inner (popTypesAndBase n types) := by
  induction n generalizing types with
  | zero => exact inferInstanceAs (Inner failure)
  | succ n ih =>
    rw [popTypesAndBase]
    infer_instance

instance {count : Nat} : Inner (reabstraction k count) :=
  inferInstanceAs (Inner (_ >>= _))

instance : Inner (associatedRequirement k) :=
  inferInstanceAs (Inner (_ >>= _))

end SwiftMangling.Current
