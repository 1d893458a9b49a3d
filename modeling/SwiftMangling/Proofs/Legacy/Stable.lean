import SwiftMangling.Proofs.Continuation
import SwiftMangling.Legacy.Symbol

/-!
# Legacy productions do not look beyond themselves

No production of the legacy scheme reads a `.` unless it has to, so it finds the same with a suffix
behind the input. The recursion is taken care of by the relation between the two grammars: the one
with the suffix finds what the other one finds. The arguments of a propagated closure are the
exception: they are read as long as there are types, and a type that fails at the end of the input
need not fail with the suffix behind it.
-/

namespace SwiftMangling.Legacy

open Decoding

instance : LawfulCursor State :=
  ⟨fun _ _ => rfl, fun _ _ _ => rfl⟩

/-- What may follow a complete symbol. -/
class Ending (x : List UInt8) : Prop where
  head : ∀ b ∈ x.head?, b = '.'.toUInt8

/-- The recursive productions of `g'` find with `x` behind the input what those of `g` find. -/
def Grammar.Continues (x : List UInt8) (g g' : Grammar) : Prop :=
  ∀ p, Continued (fun _ _ => True) x (g.parse p) (g'.parse p)

/-- What the decoder finds, it finds with `x` behind the input. -/
abbrev Stays {α : Type} (x : List UInt8) (d : Decoder α) : Prop :=
  Stable (Grammar.Continues x) x d

variable {x : List UInt8} [hx : Ending x] {k : Kind}

theorem Ending.not {p : UInt8 → Bool} (hdot : p '.'.toUInt8 = false) :
    ∀ b ∈ x.head?, p b = false :=
  fun b hb => hx.head b hb ▸ hdot

theorem Ending.not_mem_head {b : UInt8} (hdot : b ≠ '.'.toUInt8) : b ∉ x.head? :=
  fun hb => hdot (hx.head b hb)

theorem stays_nextIf (c : Char) (hdot : c.toUInt8 ≠ '.'.toUInt8 := by decide) :
    Stays x (nextIf c) :=
  stable_nextIf (Ending.not_mem_head hdot)

theorem stays_nextIfText (s : String) (hdot : '.'.toUInt8 ∉ Utf8.encode s := by decide) :
    Stays x (nextIfText s) :=
  stable_nextIfText fun b hb => hx.head b hb ▸ hdot

theorem stays_manyUntil {α : Type} (c : Char) {d : Decoder α} [Stays x d]
    (hdot : c.toUInt8 ≠ '.'.toUInt8 := by decide) : Stays x (manyUntil c d) :=
  stable_manyUntil (Ending.not_mem_head hdot)

instance : Stays x natural :=
  stable_natural (Ending.not rfl)

instance : Stays x index :=
  stable_index fun b hb => ⟨Ending.not (p := Cursor.isDigit) rfl b hb,
    fun h => absurd hb (h ▸ Ending.not_mem_head (by decide))⟩

/-! ## Recursion and references -/

omit hx in
instance {p : Production} : Stays x (production p) where
  run _ _ s a t hg h := (hg p).run () () s a t trivial h

omit hx in
instance : Stays x type :=
  inferInstanceAs (Stays x (production _))

omit hx in
instance : Stays x context :=
  inferInstanceAs (Stays x (production _))

omit hx in
/-- A level of nesting is counted in the same way. -/
instance {α : Type} {d : Decoder α} [hd : Stays x d] : Stays x (nested d) where
  run g g' s a t hg h := by
    have hd := fun b u => hd.run g g' { s with depth := s.depth + 1 } b u hg
    unfold nested at h ⊢
    by_cases hdeep : maxDepth ≤ s.depth
    · rw [if_pos hdeep] at h
      cases h
    · rw [if_neg hdeep] at h
      -- the depth does not depend on the input
      have hdeep' : ¬ maxDepth ≤ (extend s x).depth := hdeep
      have hextend : { extend s x with depth := (extend s x).depth + 1 } =
          extend { s with depth := s.depth + 1 } x := rfl
      rw [if_neg hdeep', hextend]
      revert h hd
      rcases d g { s with depth := s.depth + 1 } with ⟨_ | b, u⟩
      · intro h; cases h
      · intro h hd
        rw [hd b u rfl]
        obtain ⟨rfl, rfl⟩ : b = a ∧ { u with depth := u.depth - 1 } = t := by simpa using h
        rfl

instance {C : Grammar → Grammar → Prop} {n : Node} : Blind C (addSubstitution n) :=
  ⟨fun _ _ => rfl, fun _ _ _ _ _ => rfl⟩

instance {C : Grammar → Grammar → Prop} {n : Node} : Blind C (remember n) :=
  inferInstanceAs (Blind C (_ >>= _))

instance {C : Grammar → Grammar → Prop} : Blind C clearSubstitutions :=
  ⟨fun _ _ => rfl, fun _ _ _ _ _ => rfl⟩

instance {C : Grammar → Grammar → Prop} {i : Nat} :
    Blind C (get >>= fun s => ofOption s.substitutions[i]? : Decoder Node) :=
  ⟨fun _ _ => rfl, fun _ _ _ _ _ => rfl⟩

instance : Stays x numberNode :=
  inferInstanceAs (Stays x (_ >>= _))

omit hx in
instance : Stays x (aroundType k) :=
  inferInstanceAs (Stays x (_ >>= _))

/-! ## Names -/

instance : Stays x (operatorKind k) := by
  unfold operatorKind
  refine .bind (stays_nextIf 'o') fun _ => .ite ?_ inferInstance
  refine .bind inferInstance fun _ => .bind inferInstance fun c => ?_
  split <;> infer_instance

instance : Stays x (identifier k) := by
  unfold identifier
  refine .bind (stays_nextIf 'X') fun _ => .bind inferInstance fun operator =>
    .bind inferInstance fun _ => .bind inferInstance fun s => ?_
  dsimp only
  refine .ite ?_ ?_
  all_goals
    refine .bind inferInstance fun s => .bind inferInstance fun _ => ?_
    split <;> infer_instance

instance : Stays x identifierText :=
  inferInstanceAs (Stays x (_ >>= _))

instance : Stays x declName := by
  have hlocal : Stays x (nextIf 'L') := stays_nextIf 'L'
  have hprivate : Stays x (nextIf 'P') := stays_nextIf 'P'
  exact inferInstanceAs (Stays x (_ >>= _))

instance : Stays x substitution := by
  unfold substitution
  have hfound (c : Char) : Stays x (match standardNode? c with
      | some n => nextByte >>= fun _ => pure n
      | none => index >>= fun i => get >>= fun s => ofOption s.substitutions[i]?) := by
    split <;> infer_instance
  infer_instance

instance : Stays x module := by
  have hstandard : Stays x (nextIf 's') := stays_nextIf 's'
  have hreference : Stays x (nextIf 'S') := stays_nextIf 'S'
  exact inferInstanceAs (Stays x (_ >>= _))

instance : Stays x (declaration k) :=
  inferInstanceAs (Stays x (_ >>= _))

instance {c : Node} : Stays x (protocolIn c) :=
  inferInstanceAs (Stays x (_ >>= _))

instance : Stays x protocolNode := by
  have hstandard : Stays x (nextIf 's') := stays_nextIf 's'
  unfold protocolNode
  refine .bind (stays_nextIf 'S') fun _ => .ite (.bind inferInstance fun n => ?_) inferInstance
  split <;> infer_instance

instance : Stays x protocol :=
  inferInstanceAs (Stays x (_ >>= _))

instance : Stays x protocolList := by
  have hprotocols : Stays x (manyUntil '_' protocol) := stays_manyUntil '_'
  exact inferInstanceAs (Stays x (_ >>= _))

instance : Stays x conformance :=
  inferInstanceAs (Stays x (_ >>= _))

instance : Stays x (aroundConformance k) :=
  inferInstanceAs (Stays x (_ >>= _))

/-! ## Generics -/

instance : Stays x genericParameterIndex := by
  have hdepth : Stays x (nextIf 'd') := stays_nextIf 'd'
  have hzero : Stays x (nextIf 'x') := stays_nextIf 'x'
  exact inferInstanceAs (Stays x (_ >>= _))

instance : Stays x associatedTypeReference := by
  have hreference : Stays x (nextIf 'S') := stays_nextIf 'S'
  have hprotocol : Stays x (nextIf 'P') := stays_nextIf 'P'
  unfold associatedTypeReference
  infer_instance

instance {base : Node} : Stays x (memberOf base) :=
  inferInstanceAs (Stays x (_ >>= _))

instance : Stays x associatedType :=
  inferInstanceAs (Stays x (_ >>= _))

instance {base : Node} : Stays x (associatedTypeChain base) :=
  .bind (stays_manyUntil '_') inferInstance

instance : Stays x associatedTypePath :=
  inferInstanceAs (Stays x (_ >>= _))

instance : Stays x dependentType :=
  inferInstanceAs (Stays x (_ >>= _))

instance : Stays x constrainedSubject := by
  have hmember : Stays x (nextIf 'w') := stays_nextIf 'w'
  have hpath : Stays x (nextIf 'W') := stays_nextIf 'W'
  exact inferInstanceAs (Stays x (_ >>= _))

instance : Stays x constrainedType :=
  inferInstanceAs (Stays x (_ >>= _))

instance {c : Char} : Stays x (layoutNumbers c) := by
  unfold layoutNumbers
  split <;> infer_instance

instance : Stays x conformanceConstraint := by
  have hconstraint (c : Char) : Stays x (match c with
      | 'C' => type
      | 'S' => nextByte >>= fun _ => substitution >>= fun n =>
        match n.kind with
        | .protocolType | .classType => pure (.typeOf n)
        | .moduleName => protocolIn n >>= fun p => pure (.typeOf p)
        | _ => failure
      | _ => protocol) := by
    split
    case h_2 =>
      refine .bind inferInstance fun _ => .bind inferInstance fun n => ?_
      split <;> infer_instance
    all_goals infer_instance
  exact inferInstanceAs (Stays x (_ >>= _))

instance : Stays x genericRequirement := by
  have hsame : Stays x (nextIf 'z') := stays_nextIf 'z'
  have hlayout : Stays x (nextIf 'l') := stays_nextIf 'l'
  exact inferInstanceAs (Stays x (_ >>= _))

/-- More counts may be read than without `x`, but no more are there. -/
theorem continued_parameterCounts {n m : Nat} (h : n ≤ m) :
    Continued (Grammar.Continues x) x (parameterCounts n) (parameterCounts m) := by
  induction n generalizing m with
  | zero => exact inferInstanceAs (Continued _ x failure _)
  | succ n ih =>
    obtain ⟨m, rfl⟩ : ∃ k, m = k + 1 := ⟨m - 1, by omega⟩
    have hzero : Stays x (nextIf 'z') := stays_nextIf 'z'
    have hrest := ih (m := m) (by omega)
    rw [parameterCounts, parameterCounts]
    infer_instance

instance : Stays x (signatureOf k) := by
  have hnone : Stays x (nextIf 'r') := stays_nextIf 'r'
  have hrequirements : Stays x (manyUntil 'r' genericRequirement) := stays_manyUntil 'r'
  refine stable_remaining fun n m h => Continued.on ?_
  exact .bind (continued_parameterCounts (Nat.succ_le_succ h)) inferInstance

instance : Stays x genericSignature :=
  inferInstanceAs (Stays x (signatureOf _))

instance : Stays x archetypeRule := by
  unfold archetypeRule
  refine .bind inferInstance fun c => ?_
  split <;> infer_instance

instance : Stays x nominalType := by
  unfold nominalType
  refine .bind inferInstance fun c => ?_
  split <;> infer_instance

omit hx in
instance : Stays x genericArgument :=
  inferInstanceAs (Stays x (_ >>= _))

instance {n : Node} : Stays x (bindOne n) := by
  unfold bindOne
  refine .bind (stays_manyUntil '_') fun arguments => ?_
  split <;> infer_instance

/-- Binding reads its lists up to their end marks, and so nothing behind them. -/
theorem stays_bindArguments (n : Node) : Stays x (bindArguments n) := by
  unfold bindArguments
  split
  · infer_instance
  · rename_i parent parts hchildren
    have hmem : parent ∈ n.children := by simp [hchildren]
    have hparent : Stays x (bindArguments parent) := stays_bindArguments parent
    infer_instance
termination_by sizeOf n
decreasing_by exact Node.sizeOf_lt_of_mem_children hmem

instance : Stays x boundGenericType :=
  .bind inferInstance stays_bindArguments

/-! ## Lowered functions -/

omit hx in
instance {r : Role} : Stays x (convention r) :=
  inferInstanceAs (Stays x (_ >>= _))

instance : Stays x callingConvention := by
  have hgiven : Stays x (nextIf 'C') := stays_nextIf 'C'
  exact inferInstanceAs (Stays x (_ >>= _))

instance : Stays x loweredSignature := by
  have hgeneric : Stays x (nextIf 'G') := stays_nextIf 'G'
  have hpseudogeneric : Stays x (nextIf 'g') := stays_nextIf 'g'
  exact inferInstanceAs (Stays x (_ >>= _))

instance : Stays x loweredParameter := by
  have herror : Stays x (nextIf 'z') := stays_nextIf 'z'
  exact inferInstanceAs (Stays x (_ >>= _))

instance : Stays x loweredResult := by
  have herror : Stays x (nextIf 'z') := stays_nextIf 'z'
  exact inferInstanceAs (Stays x (_ >>= _))

instance : Stays x loweredFunctionType := by
  have hsendable : Stays x (attributeIf 'h' "@Sendable") := .bind (stays_nextIf 'h') inferInstance
  have hasync : Stays x (attributeIf 'H' "@async") := .bind (stays_nextIf 'H') inferInstance
  have hparameters : Stays x (manyUntil '_' loweredParameter) := stays_manyUntil '_'
  have hresults : Stays x (manyUntil '_' loweredResult) := stays_manyUntil '_'
  unfold loweredFunctionType
  refine .bind (stays_nextIf 't') fun _ => ?_
  dsimp only
  exact .ite (.bind inferInstance inferInstance) (.bind inferInstance inferInstance)

/-! ## Types -/

instance : Stays x builtinSize :=
  inferInstanceAs (Stays x (_ >>= _))

instance : Stays x vectorElement := by
  unfold vectorElement
  refine .bind inferInstance fun c => ?_
  split <;> infer_instance

instance : Stays x builtinType := by
  unfold builtinType
  refine .bind inferInstance fun c => ?_
  split <;> infer_instance

/-- At the end of the input there is no name, and neither is there in front of a `.`. -/
instance : Stays x tupleElement := by
  refine continued_peekChar? (fun m => inferInstance) fun b hb => ?_
  obtain rfl := hx.head b hb
  exact inferInstanceAs (Stays x (_ >>= _))

instance {isVariadic : Bool} : Stays x (tuple isVariadic) :=
  .bind (stays_manyUntil '_') inferInstance

instance : Stays x (functionType k) := by
  have hthrows : Stays x (nextIf 'z') := stays_nextIf 'z'
  have hconcurrent : Stays x (nextIf 'y') := stays_nextIf 'y'
  have hasync : Stays x (nextIf 'Z') := stays_nextIf 'Z'
  unfold functionType
  refine .bind inferInstance fun throws => .bind inferInstance fun concurrent =>
    .bind inferInstance fun async => .bind (stays_nextIf 'D') fun _ => ?_
  dsimp only
  exact .ite inferInstance inferInstance

omit hx in
instance : Stays x (representedMetatype k) :=
  inferInstanceAs (Stays x (_ >>= _))

omit hx in
instance : Stays x boxField := by
  unfold boxField
  refine .bind inferInstance fun c => ?_
  split <;> infer_instance

instance : Stays x boxType := by
  have hfields : Stays x (manyUntil '_' boxField) := stays_manyUntil '_'
  have harguments : Stays x (manyUntil '_' type) := stays_manyUntil '_'
  unfold boxType
  refine .bind (stays_nextIf 'G') fun _ => ?_
  dsimp only
  refine .ite ?_ ?_
  all_goals
    refine .bind inferInstance fun signature => .bind inferInstance fun fields => ?_
    split <;> infer_instance

instance : Stays x specialType := by
  have hmetatype : Stays x (nextIf 'M') := stays_nextIf 'M'
  unfold specialType
  refine .bind inferInstance fun c => ?_
  split <;> infer_instance

instance : Stays x contentRule := by
  have herror : Stays x (nextIfText "RR") := stays_nextIfText "RR"
  have hmetatype : Stays x (nextIf 'M') := stays_nextIf 'M'
  have hopaque : Stays x (nextIf 'u') := stays_nextIf 'u'
  unfold contentRule
  refine .bind inferInstance fun c => ?_
  split <;> infer_instance

instance : Stays x typeRule :=
  inferInstanceAs (Stays x (_ >>= _))

/-! ## Declarations -/

omit hx in
instance : Stays x mutableAddressor := by
  unfold mutableAddressor
  refine .bind inferInstance fun c => ?_
  split <;> infer_instance

omit hx in
instance : Stays x addressor := by
  unfold addressor
  refine .bind inferInstance fun c => ?_
  split <;> infer_instance

instance : Stays x (accessorForm k) :=
  inferInstanceAs (Stays x (_ >>= _))

instance : Stays x (form k) := by
  have hargument : Stays x (nextIf 'A') := stays_nextIf 'A'
  unfold form
  refine .bind inferInstance fun c => ?_
  split <;> infer_instance

omit hx in
instance {c name : Node} : Stays x (storage c name) := by
  unfold storage
  infer_instance

omit hx in
instance {c : Node} {f : Form} : Stays x (formNode c f) := by
  cases f <;> rw [formNode] <;> infer_instance

instance : Stays x entity := by
  have hdeclaration (isStatic : Bool) (c : Char) : Stays x (match basicKind? c with
      | none => nominalType
      | some basic => nextByte >>= fun _ => context >>= fun c => form basic >>= fun f =>
        formNode c f >>= fun n => pure (if isStatic then .branch .staticMember [n] else n)) := by
    split <;> infer_instance
  exact .bind (stays_nextIf 'Z') inferInstance

instance : Stays x contextContent := by
  have hcontent (c : Char) : Stays x (match c with
      | 'E' => nextByte >>= fun _ => module >>= fun m => context >>= fun c =>
        pure (.branch .extension [m, c])
      | 'e' => nextByte >>= fun _ => module >>= fun m => genericSignature >>= fun signature =>
        context >>= fun extended => pure (.branch .extension [m, extended, signature])
      | 'S' => nextByte >>= fun _ => substitution
      | 's' => nextByte >>= fun _ => pure (.module Node.standardLibrary)
      | 'G' => nextByte >>= fun _ => boundGenericType
      | _ => if isEntityStart c then entity else module) := by
    split <;> infer_instance
  exact inferInstanceAs (Stays x (_ >>= _))

instance : Stays x contextRule :=
  inferInstanceAs (Stays x (nested _))

/-! ## Specializations -/

instance : Stays x genericParam := by
  have hconformances : Stays x (manyUntil '_' conformance) := stays_manyUntil '_'
  exact inferInstanceAs (Stays x (_ >>= _))

instance : Stays x terminatedIdentifier :=
  inferInstanceAs (Stays x (_ >>= _))

omit hx in
instance : Stays x terminatedText :=
  inferInstanceAs (Stays x (_ >>= _))

instance : Stays x propagatedConstant := by
  unfold propagatedConstant
  refine .bind (stays_nextIfText "fr") fun _ => .ite inferInstance <|
    .bind (stays_nextIf 'g') fun _ => .ite inferInstance <|
    .bind (stays_nextIf 'i') fun _ => .ite inferInstance <|
    .bind (stays_nextIfText "fl") fun _ => .ite inferInstance <|
    .bind (stays_nextIfText "se") fun _ => .ite (.bind (stays_nextIf '0') fun _ => ?_) inferInstance
  dsimp only
  exact .ite inferInstance inferInstance

/-- No code starts with the dot that a suffix starts with. -/
theorem stays_paramOptions {codes : List (Char × ParamOption)}
    (h : ∀ code ∈ codes, code.1.toUInt8 ≠ '.'.toUInt8) : Stays x (paramOptions codes) := by
  induction codes with
  | nil => exact inferInstanceAs (Stays x (pure _))
  | cons code codes ih =>
    have hnext : Stays x (nextIf code.1) := stays_nextIf code.1 (h code List.mem_cons_self)
    have hrest := ih fun c hc => h c (List.mem_cons_of_mem code hc)
    exact inferInstanceAs (Stays x (_ >>= _))

instance : Stays x optionParam :=
  .bind (stays_paramOptions (by decide)) inferInstance

/-! ## Symbols -/

instance : Stays x metadata := by
  have hmetadata (c : Char) : Stays x (match metadataKind? c with
      | some k => nextByte >>= fun _ => aroundType k
      | none =>
        if c == 'p' then nextByte >>= fun _ => protocol >>= fun p =>
          pure (.branch .protocolDescriptor [p])
        else aroundType .typeMetadata) := by
    split <;> infer_instance
  exact inferInstanceAs (Stays x (_ >>= _))

instance : Stays x fieldOffset := by
  unfold fieldOffset
  refine .bind inferInstance fun c => ?_
  split <;> infer_instance

instance : Stays x (lazyWitnessTable k) :=
  inferInstanceAs (Stays x (_ >>= _))

instance : Stays x witness := by
  unfold witness
  refine .bind inferInstance fun c => ?_
  split <;> infer_instance

omit hx in
instance : Stays x valueWitness :=
  inferInstanceAs (Stays x (_ >>= _))

instance : Stays x (reabstraction k) := by
  have hgeneric : Stays x (nextIf 'G') := stays_nextIf 'G'
  exact inferInstanceAs (Stays x (_ >>= _))

instance : Stays x thunk := by
  unfold thunk
  refine .bind inferInstance fun c => ?_
  split <;> infer_instance

instance : Stays x forwarder := by
  have hobjC : Stays x (nextIf 'o') := stays_nextIf 'o'
  have hgiven : Stays x (nextIfText "__T") := stays_nextIfText "__T"
  exact inferInstanceAs (Stays x (_ >>= _))

instance : Stays x global := by
  unfold global
  exact .bind (stays_nextIf 'M') fun _ => .ite inferInstance <|
    .bind (stays_nextIfText "PA") fun _ => .ite inferInstance <|
    .bind (stays_nextIf 't') fun _ => .ite inferInstance <|
    .bind (stays_nextIf 'w') fun _ => .ite inferInstance <|
    .bind (stays_nextIf 'W') fun _ => .ite inferInstance <|
    .bind (stays_nextIf 'T') fun _ => .ite inferInstance inferInstance

/-- No code has the dot that a suffix starts with. -/
theorem stays_symbolAttribute {codes : List (String × Kind)}
    (h : ∀ code ∈ codes, '.'.toUInt8 ∉ Utf8.encode code.1) : Stays x (symbolAttribute codes) := by
  induction codes with
  | nil => exact inferInstanceAs (Stays x (pure _))
  | cons code codes ih =>
    have hnext : Stays x (nextIfText code.1) := stays_nextIfText code.1 (h code List.mem_cons_self)
    have hrest := ih fun c hc => h c (List.mem_cons_of_mem code hc)
    exact inferInstanceAs (Stays x (_ >>= _))

/-! ## Recursion -/

theorem stays_rule (p : Production) : Stays x (rule p) := by
  cases p <;> rw [rule] <;> infer_instance

/-- The productions find with `x` behind the input, and with more of them inside of each other, what
they find without. -/
theorem parse_continues {n m : Nat} (h : n ≤ m) :
    Grammar.Continues x ⟨parse n⟩ ⟨parse m⟩ := by
  induction n generalizing m with
  | zero => exact fun p => inferInstanceAs (Continued _ x failure _)
  | succ n ih =>
    obtain ⟨m, rfl⟩ : ∃ k, m = k + 1 := ⟨m - 1, by omega⟩
    exact fun p => ⟨fun _ _ s a t _ hrun =>
      (stays_rule p).run ⟨parse n⟩ ⟨parse m⟩ s a t (ih (by omega)) hrun⟩

end SwiftMangling.Legacy
