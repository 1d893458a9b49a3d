import SwiftMangling.Proofs.Render.Composed

/-!
# The rules for names and types are composed

Names, types, function types and lowered function types are printed by the shared operations, and
print no nodes but those below the node that the rule is for.
-/

set_option synthInstance.maxSize 100000

namespace SwiftMangling.Render

variable {N : Node → Prop} {n c : Node} {ns : List Node} {m : Option Node} {i : Nat} {s : String}

section Names

variable [Closed N] [Within N n]

instance : Prints N (printExtension n) := by
  unfold printExtension
  dsimp only
  infer_instance

instance : Prints N (printAnonymousContext n) := by
  unfold printAnonymousContext
  cases hc : n.child? 2 with
  | none =>
    dsimp only
    infer_instance
  | some c =>
    have : Within N c := .of_eq hc
    dsimp only
    infer_instance

instance : Prints N (printModule n) := by
  unfold printModule
  infer_instance

instance : Prints N (printLocalName n) := by
  unfold printLocalName
  infer_instance

instance : Prints N (printPrivateName n) := by
  unfold printPrivateName
  cases hc : n.child? 1 with
  | none =>
    dsimp only
    infer_instance
  | some c =>
    have : Within N c := .of_eq hc
    dsimp only
    infer_instance

instance : Prints N (printRelatedName n) := by
  unfold printRelatedName
  infer_instance

end Names

/-! ## Function types -/

instance {d : Differentiability} : Prints N (differentiableAttribute d) := by
  unfold differentiableAttribute
  split <;> infer_instance

instance : Prints N (differentiabilityOf n) := by
  unfold differentiabilityOf
  split <;> infer_instance

instance [Closed N] [Within N n] : Prints N (printConvention s n) := by
  unfold printConvention
  cases hc : n.first? with
  | none =>
    dsimp only
    infer_instance
  | some c =>
    have : Within N c := .of_eq hc
    dsimp only
    infer_instance

instance [Closed N] [Within N n] : Prints N (printFunctionKind n) := by
  unfold printFunctionKind
  split <;> infer_instance

instance {found : Marks} [Within N n] : Prints N (noteMark found n) := by
  unfold noteMark
  split <;> infer_instance

/-- A fold is composed if its steps are, for the nodes that they are taken for. -/
theorem composed_foldlM {σ : Type} {f : σ → Node → Printer σ} {P : σ → Prop} {a : σ} (ha : P a)
    (hf : ∀ a, P a → ∀ n, N n → Composed N (f a n) P) [hns : AllWithin N ns] :
    Composed N (ns.foldlM f a) P := by
  obtain ⟨hns⟩ := hns
  induction ns generalizing a with
  | nil => exact .ret ha
  | cons n ns ih =>
    rw [List.forall_mem_cons] at hns
    rw [List.foldlM_cons]
    exact (hf a ha n hns.1).bind fun b hb => ih hb hns.2

instance {found : Marks} [AllWithin N ns] : Prints N (ns.foldlM noteMark found) :=
  ⟨composed_foldlM trivial fun _ _ n hn =>
    have : Within N n := ⟨hn⟩
    Prints.composed⟩

section Parameters

variable [Closed N]

theorem prints_printLabel {showTypes : Bool} [hm : WithinIfAny N m] :
    Prints N (printLabel m n i showTypes) := by
  unfold printLabel
  cases m with
  | none =>
    dsimp only
    cases n.childOfKind? .tupleElementName <;> infer_instance
  | some ls =>
    have : Within N ls := .of_eq (m := some ls) rfl
    dsimp only
    infer_instance

instance {showTypes : Bool} [WithinIfAny N m] [hns : AllWithin N ns] :
    Prints N (printTupleParameters m showTypes i ns) := by
  obtain ⟨hns⟩ := hns
  induction ns generalizing i with
  | nil => exact inferInstanceAs (Prints N (pure ()))
  | cons n ns ih =>
    rw [List.forall_mem_cons] at hns
    have : Within N n := ⟨hns.1⟩
    have := fun i => ih (i := i) hns.2
    have : Prints N (printLabel m n i showTypes) := prints_printLabel
    rw [printTupleParameters]
    infer_instance

instance {label : Option String} {showTypes : Bool} [Within N n] :
    Prints N (printSingleParameter label n showTypes) := by
  unfold printSingleParameter
  cases label <;> infer_instance

instance {showTypes : Bool} [WithinIfAny N m] [Within N n] :
    Prints N (printParameters m n showTypes) := by
  unfold printParameters
  dsimp only
  infer_instance

instance [WithinIfAny N m] [Within N n] : Prints N (printFunctionType m n) := by
  unfold printFunctionType
  dsimp only
  split
  · infer_instance
  · refine ⟨.after inferInstance fun _ => .after inferInstance fun found => ?_⟩
    split <;> exact Prints.composed

variable [Within N n]

instance : Prints N (printTupleElement n) := by
  unfold printTupleElement
  dsimp only
  cases n.childOfKind? .tupleElementName <;> cases ht : n.childOfKind? .type
  case none.none | some.none => infer_instance
  case none.some t | some.some _ t =>
    have : Within N t := .of_eq ht
    infer_instance

instance : Prints N (printReturnType n) := by
  unfold printReturnType
  split <;> infer_instance

end Parameters

/-! ## Types -/

section Types

variable [Closed N] [Within N n]

instance : Prints N (printWithParens n) := by
  unfold printWithParens
  infer_instance

instance : Prints N (printBoundLong n) := by
  unfold printBoundLong
  infer_instance

instance {short : Sugar} : Prints N (printSugar n short) := by
  cases short <;> (rw [printSugar]; infer_instance)

instance : Prints N (printBoundGeneric n) := by
  unfold printBoundGeneric
  split
  · infer_instance
  · refine ⟨.after inferInstance fun _ => ?_⟩
    split
    · exact Prints.composed
    · split
      · exact Prints.composed
      · split <;> exact Prints.composed

theorem composed_metatypeInstance : Composed N (metatypeInstance n) N := by
  unfold metatypeInstance
  split
  · exact .after inferInstance fun _ => .after inferInstance fun _ => composed_child
  · exact composed_child

instance : Prints N (printMetatype n) := by
  unfold printMetatype
  refine ⟨composed_metatypeInstance.bind fun t ht => ?_⟩
  have : Within N t := ⟨ht⟩
  exact Prints.composed

instance : Prints N (printExistentialMetatype n) := by
  unfold printExistentialMetatype
  refine ⟨composed_metatypeInstance.bind fun t ht => ?_⟩
  have : Within N t := ⟨ht⟩
  exact Prints.composed

instance : Prints N (printAssociatedTypeRef n) := by
  unfold printAssociatedTypeRef
  dsimp only
  infer_instance

instance : Prints N (printProtocolList n) := by
  unfold printProtocolList
  infer_instance

instance : Prints N (printProtocolListWithClass n) := by
  unfold printProtocolListWithClass
  infer_instance

instance : Prints N (printProtocolListWithAnyObject n) := by
  unfold printProtocolListWithAnyObject
  dsimp only
  infer_instance

omit [Closed N] [Within N n] in
instance [hns : AllWithin N ns] : Prints N (printFields i ns) := by
  obtain ⟨hns⟩ := hns
  induction ns generalizing i with
  | nil => exact inferInstanceAs (Prints N (pure ()))
  | cons n ns ih =>
    rw [List.forall_mem_cons] at hns
    have : Within N n := ⟨hns.1⟩
    have := fun i => ih (i := i) hns.2
    rw [printFields]
    infer_instance

instance : Prints N (printBoxLayout n) := by
  unfold printBoxLayout
  infer_instance

instance : Prints N (printBoxType n) := by
  unfold printBoxType
  cases hs : n.child? 1 <;> cases ha : n.child? 2
  case none.none | none.some => infer_instance
  case some.none signature =>
    have : Within N signature := .of_eq hs
    infer_instance
  case some.some signature arguments =>
    have : Within N signature := .of_eq hs
    have : Within N arguments := .of_eq ha
    infer_instance

omit [Closed N] [Within N n] in
instance {depth : Nat} : Prints N (printParameterCounts depth ns) := by
  induction ns generalizing depth with
  | nil => exact inferInstanceAs (Prints N (pure ()))
  | cons n ns ih =>
    rw [printParameterCounts]
    infer_instance

instance : Prints N (printSignature n) := by
  unfold printSignature
  dsimp only
  infer_instance

instance : Prints N (printLayoutRequirement n) := by
  unfold printLayoutRequirement
  dsimp only
  refine ⟨.after inferInstance fun _ => .after inferInstance fun _ => composed_child.bind
    fun layout _ => .after inferInstance fun name => ?_⟩
  split
  · refine .after inferInstance fun _ => ?_
    cases hsize : n.child? 2 with
    | none => exact Prints.composed
    | some size =>
      have : Within N size := .of_eq hsize
      cases halignment : n.child? 3 with
      | none => exact Prints.composed
      | some alignment =>
        have : Within N alignment := .of_eq halignment
        exact Prints.composed
  · exact .fail_bind

instance : Prints N (printGenericParameter n) := by
  unfold printGenericParameter
  infer_instance

instance : Prints N (printGenericType n) := by
  unfold printGenericType
  dsimp only
  infer_instance

instance : Prints N (printAssociatedTypeName n) := by
  unfold printAssociatedTypeName
  cases hp : n.child? 1 with
  | none => infer_instance
  | some protocol =>
    have : Within N protocol := .of_eq hp
    infer_instance

instance : Prints N (printConformance n) := by
  unfold printConformance
  infer_instance

instance : Prints N (printDependentConformance s n) := by
  unfold printDependentConformance
  dsimp only
  refine ⟨.after inferInstance fun _ => composed_child.bind fun c _ => ?_⟩
  cases c.index? <;> exact Prints.composed

end Types

/-! ## Lowered function types -/

/-- The nodes that are kept for the end are nodes of `N`. -/
structure LoweredState.Within (N : Node → Prop) (s : LoweredState) : Prop where
  pattern : WithinIfAny N s.pattern
  invocation : WithinIfAny N s.invocation

section Lowered

variable [Closed N] {state : LoweredState} {target : Section}

theorem prints_enterSection (hs : state.Within N) : Prints N (enterSection state target) := by
  have := hs.pattern
  unfold enterSection
  dsimp only
  cases hp : state.pattern with
  | none => infer_instance
  | some p =>
    have : Within N p := .of_eq hp
    infer_instance

variable [Within N n]

theorem composed_printItem (hs : state.Within N) :
    Composed N (printItem state target n) (LoweredState.Within N) := by
  have : Prints N (enterSection state target) := prints_enterSection hs
  unfold printItem
  dsimp only
  split
  · exact .fail_bind
  · split
    all_goals
      refine .after inferInstance fun _ => .after inferInstance fun _ => ?_
      exact .ret ⟨hs.pattern, hs.invocation⟩

theorem composed_printLoweredPart (hs : state.Within N) :
    Composed N (printLoweredPart state n) (LoweredState.Within N) := by
  unfold printLoweredPart
  split
  · exact composed_printItem hs
  · exact composed_printItem hs
  · exact composed_printItem hs
  · exact composed_printItem hs
  · exact .ret ⟨inferInstance, hs.invocation⟩
  · exact .ret ⟨hs.pattern, inferInstance⟩
  · dsimp only
    split
    · exact .fail_bind
    · exact .after inferInstance fun _ => .after inferInstance fun _ => .ret hs

omit [Within N n] in
instance [WithinIfAny N m] : Prints N (printSubstitutions m i) := by
  unfold printSubstitutions
  cases m with
  | none => infer_instance
  | some c =>
    have : Within N c := .of_eq (m := some c) rfl
    infer_instance

instance : Prints N (printLoweredFunctionType n) := by
  unfold printLoweredFunctionType
  dsimp only
  have hparts : Composed N (n.children.foldlM printLoweredPart ⟨.attributes, none, none⟩)
      (LoweredState.Within N) :=
    composed_foldlM ⟨inferInstance, inferInstance⟩ fun _ hs c hc =>
      have : Within N c := ⟨hc⟩
      composed_printLoweredPart hs
  refine ⟨hparts.bind fun state hs => ?_⟩
  have : Prints N (enterSection state .results) := prints_enterSection hs
  have := hs.pattern
  have := hs.invocation
  exact Prints.composed

instance : Prints N (printLoweredItem n) := by
  unfold printLoweredItem
  dsimp only
  infer_instance

instance : Prints N (printCallingConvention n) := by
  unfold printCallingConvention
  cases ht : n.child? 1 with
  | none => infer_instance
  | some t =>
    have : Within N t := .of_eq ht
    infer_instance

omit [Closed N] [Within N n] in
instance : Prints N (printMark n) := by
  unfold printMark
  infer_instance

end Lowered

end SwiftMangling.Render
