import SwiftMangling.Proofs.Render.Safe.Type

/-!
# Parts of whole symbols are printed safely

The rules for thunks, derivatives, witnesses, specializations and attributes on sound nodes.
-/

set_option synthInstance.maxSize 100000

namespace SwiftMangling.Render

variable {checked : Checks} {d : Nat} {n c : Node}

/-! ## Thunks -/

instance printReabstraction_safe [Below checked d n] : Safe checked d (printReabstraction n) := by
  unfold printReabstraction
  dsimp only
  infer_instance

instance printReabstractionWithSelf_safe [Below checked d n] :
    Safe checked d (printReabstractionWithSelf n) := by
  unfold printReabstractionWithSelf
  dsimp only
  infer_instance

theorem printKeyPathParts_safe {ns : List Node} (h : ∀ c ∈ ns, Printable checked d c) :
    Safe checked d (printKeyPathParts ns) := by
  induction ns with
  | nil =>
    rw [printKeyPathParts]
    infer_instance
  | cons c ns ih =>
    rw [List.forall_mem_cons] at h
    have := print_safe h.1
    have := ih h.2
    rw [printKeyPathParts]
    dsimp only
    infer_instance

instance printKeyPathAccessor_safe [h : Below checked d n] :
    Safe checked d (printKeyPathAccessor n) := by
  have := printKeyPathParts_safe fun c hc => h.child c (List.mem_of_mem_drop (i := 1) hc)
  unfold printKeyPathAccessor
  infer_instance

/-- Both parts of a list without its signature come from the list. -/
theorem mem_of_splitSignature (ns : List Node) :
    (∀ c ∈ (splitSignature ns).1, c ∈ ns) ∧ ∀ c ∈ (splitSignature ns).2, c ∈ ns := by
  unfold splitSignature
  split
  next s hs =>
    split
    · exact ⟨fun c hc => (List.dropLast_sublist _).mem hc,
        fun c hc => by cases hc; exact List.mem_of_getLast? hs⟩
    · exact ⟨fun c hc => hc, fun c hc => by cases hc⟩
  next => exact ⟨fun c hc => hc, fun c hc => by cases hc⟩

theorem printIfAny_safe {m : Option Node} (h : ∀ c ∈ m, Printable checked d c) :
    Safe checked d (printIfAny m) := by
  unfold printIfAny
  cases m with
  | none => infer_instance
  | some c => exact print_safe (h c rfl)

instance printKeyPathHash_safe [h : Below checked d n] : Safe checked d (printKeyPathHash n) := by
  have hmem : ∀ c ∈ (if n.last?.any (·.kind == .isSerialized) then n.children.dropLast
      else n.children), Printable checked d c := by
    intro c hc
    split at hc
    · exact h.child c ((List.dropLast_sublist _).mem hc)
    · exact h.child c hc
  have hsplit := mem_of_splitSignature
    (if n.last?.any (·.kind == .isSerialized) then n.children.dropLast else n.children)
  have := printIfAny_safe fun c hc => hmem c (hsplit.2 c hc)
  have := printSeparated_safe ", " fun c hc => hmem c (hsplit.1 c hc)
  unfold printKeyPathHash
  dsimp only
  infer_instance

theorem derivativeName_safe (h : n.Sound checked.payloads) (hk : n.kind = .autoDiffFunctionKind) :
    Safe checked d (derivativeName n) := by
  have hd : checked.payloads → n.payload.isDerivative = true := fun hch => by
    simpa [hk, Kind.accepts] using h.accepts hch
  unfold derivativeName indexOf Node.index?
  cases hp : n.payload with
  | index code =>
    rw [hp] at hd
    dsimp only
    rw [pure_bind]
    split
    · infer_instance
    split
    · infer_instance
    split
    · infer_instance
    split
    · infer_instance
    -- no other code is accepted
    next h1 h2 h3 h4 =>
      exact safe_throw fun hch => by simp_all [Payload.isDerivative]
  | _ =>
    refine ⟨yields_throw_bind (e := .invalidPayload n.kind) fun hch => ?_⟩
    simpa [hp, Payload.isDerivative] using hd hch

theorem printDerivativeSignature_safe (joint : String) {m : Option Node}
    (h : ∀ c ∈ m, Printable checked d c) :
    Safe checked d (printDerivativeSignature joint m) := by
  unfold printDerivativeSignature
  cases m with
  | none => infer_instance
  | some c =>
    have := print_safe (h c rfl)
    infer_instance

instance printDerivative_safe [h : Below checked d n] : Safe checked d (printDerivative n) := by
  unfold printDerivative
  cases n.children.findIdx? (·.kind == .autoDiffFunctionKind) with
  | none =>
    dsimp only
    infer_instance
  -- the parameters stand in front of the kind, the last of them may be a signature
  | some i =>
    have hmem : ∀ c ∈ n.children.take i, Printable checked d c := fun c hc =>
      h.child c (List.mem_of_mem_take hc)
    have hsplit := mem_of_splitSignature (n.children.take i)
    have := printSeparated_safe "" fun c hc => hmem c (hsplit.1 c hc)
    have := printDerivativeSignature_safe " with " fun c hc => hmem c (hsplit.2 c hc)
    dsimp only
    rw [pure_bind]
    infer_instance

instance printSelfReordering_safe [Below checked d n] : Safe checked d (printSelfReordering n) := by
  unfold printSelfReordering
  cases hs : (n.child? 2).filter (·.kind == .dependentGenericSignature) with
  | none =>
    dsimp only
    infer_instance
  | some s =>
    have : Safe checked d (print s) :=
      print_safe (Below.child? (Option.mem_filter_iff.mp hs).1)
    dsimp only
    infer_instance

instance printSubsetParameters_safe [h : Below checked d n] :
    Safe checked d (printSubsetParameters n) := by
  have hmem : ∀ c ∈ n.children.take (n.count - 4), Printable checked d c := fun c hc =>
    h.child c (List.mem_of_mem_take hc)
  have hsplit := mem_of_splitSignature (n.children.take (n.count - 4))
  have := printSeparated_safe "" fun c hc => hmem c (hsplit.1 c hc)
  have := printDerivativeSignature_safe " of type " fun c hc => hmem c (hsplit.2 c hc)
  unfold printSubsetParameters
  dsimp only
  infer_instance

/-- There is a text for every way to be differentiable. -/
theorem witnessMode_safe {mode : Differentiability}
    (h : checked.payloads → mode ≠ .nonDifferentiable) :
    Safe checked d (witnessMode mode) := by
  unfold witnessMode
  cases mode with
  | nonDifferentiable => exact safe_throw fun hch => h hch rfl
  | _ => infer_instance

/-- The rule of a differentiability witness prints every child but the tag. -/
theorem printDifferentiabilityWitness_safe (h : Printable checked (d + 1) n)
    (hk : n.kind = .differentiabilityWitness) :
    Safe checked d (printDifferentiabilityWitness n) := by
  have : Unlisted checked n := ⟨fun _ => by simp [hk]⟩
  unfold printDifferentiabilityWitness
  cases hi : n.children.findIdx? (·.kind == .index) with
  | none => infer_instance
  | some i =>
    -- the tag separates the children in front of it from those behind it
    obtain ⟨hlt, -, hfirst⟩ := List.findIdx?_eq_some_iff_getElem.mp hi
    have hfit (hch : checked.payloads) := Node.witnessFits_findIdx?
      (by simpa [hk, Node.childrenFit] using h.sound.childrenFit hch) hi
    have hbefore : ∀ c ∈ n.children.take i, Printable checked d c := by
      intro c hc
      refine h.child (List.mem_of_mem_take hc) fun _ => ?_
      obtain ⟨j, hj, rfl⟩ := List.mem_take_iff_getElem.mp hc
      simp [Node.isTag, hfirst j (by omega)]
    have hafter (j : Nat) (hj : i < j) (c : Node) (hc : n.child? j = some c) :
        Printable checked d c :=
      h.child (List.mem_of_getElem? hc) fun hch => (hfit hch).2 j c hj hc
    have hchild (j : Nat) (hj : i < j) : Safe checked d (printChild n j) := by
      unfold printChild
      exact (child_yields n j).bind_safe fun c hc => print_safe (hafter j hj c hc)
    have := hchild (i + 1) (by omega)
    have := hchild (i + 2) (by omega)
    have := printSeparated_safe "" hbefore
    dsimp only
    split
    next mode hm =>
      obtain ⟨tag, htag, hmode⟩ := Option.map_eq_some_iff.mp hm
      have := witnessMode_safe (d := d) fun hch => by
        simpa [hmode, Payload.isDifferentiable] using (hfit hch).1 tag htag
      cases hs : n.child? (i + 3) with
      | none => infer_instance
      | some signature =>
        have := print_safe (hafter (i + 3) (by omega) signature hs)
        infer_instance
    next hne =>
      -- a tag without a mode does not fit
      refine safe_throw fun hch => ?_
      have htag := (hfit hch).1 n.children[i] (List.getElem?_eq_getElem hlt)
      unfold Payload.isDifferentiable at htag
      split at htag
      next mode hmode => exact hne mode (by simp [Node.child?, hlt, hmode])
      next => cases htag

instance printIndexSubset_safe [Safe checked d (textOf n)] :
    Safe checked d (printIndexSubset n) := by
  unfold printIndexSubset
  infer_instance

instance printCompletionHandler_safe [Below checked d n] [Meets checked n 2 .index] :
    Safe checked d (printCompletionHandler n) := by
  have hend (i : UInt64) : Safe checked d
      (match i.toNat with
      | 0 => pure ()
      | 1 => write " nonzero on error "
      | 2 => write " zero on error "
      | _ => write " <invalid error flag>") := by
    split <;> infer_instance
  unfold printCompletionHandler
  dsimp only
  infer_instance

theorem printValueWitness_safe (h : Printable checked (d + 1) n) (hk : n.kind = .valueWitness) :
    Safe checked d (printValueWitness n) := by
  have : Unlisted checked n := ⟨fun _ => by simp [hk]⟩
  have hfit (hch : checked.payloads) : (n.children.head?.all (·.payload.isValueWitness) = true) ∧
      (n.children.drop 1).all (!·.isTag) = true := by
    simpa [hk, Node.childrenFit] using h.sound.childrenFit hch
  have : Safe checked d (printChild n 1) := by
    unfold printChild
    refine (child_yields n 1).bind_safe fun c hc => print_safe ?_
    refine h.child (List.mem_of_getElem? hc) fun hch => ?_
    have hm : c ∈ n.children.drop 1 :=
      List.mem_of_getElem? (i := 0) (by simpa [Node.child?] using hc)
    simpa using List.all_eq_true.mp (hfit hch).2 c hm
  unfold printValueWitness
  refine (child_yields n 0).bind_safe fun tag htag => ?_
  split
  · infer_instance
  next hne =>
    -- only a tag with a value witness fits in first place
    refine safe_throw fun hch => ?_
    have hhead : n.children.head? = some tag := by
      rw [List.head?_eq_getElem?]
      exact htag
    have hw : tag.payload.isValueWitness = true := by simpa [hhead] using (hfit hch).1
    unfold Payload.isValueWitness at hw
    split at hw <;> simp_all

theorem printDirectness_safe (h : n.Sound checked.payloads) (hk : n.kind = .directness) :
    Safe checked d (printDirectness n) := by
  unfold printDirectness
  split
  · infer_instance
  next hne =>
    refine safe_throw fun hch => ?_
    have ha : n.payload.isDirectness = true := by simpa [hk, Kind.accepts] using h.accepts hch
    unfold Payload.isDirectness at ha
    split at ha <;> simp_all

instance printOnceInitialization_safe [Below checked d n] :
    Safe checked d (printOnceInitialization n) := by
  unfold printOnceInitialization
  dsimp only
  infer_instance

instance printOnceVariables_safe [Below checked d n] : Safe checked d (printOnceVariables n) := by
  unfold printOnceVariables
  infer_instance

instance printResumeFunction_safe [Below checked d n] : Safe checked d (printResumeFunction n) := by
  unfold printResumeFunction
  infer_instance

instance printForwarder_safe [Below checked d n] : Safe checked d (printForwarder n) := by
  unfold printForwarder
  dsimp only
  infer_instance

instance printOutlinedVariable_safe [Safe checked d (indexOf n)] :
    Safe checked d (printOutlinedVariable n) := by
  unfold printOutlinedVariable
  infer_instance

instance printBridgedMethod_safe [Safe checked d (textOf n)] :
    Safe checked d (printBridgedMethod n) := by
  unfold printBridgedMethod
  infer_instance

instance printSymbolicReference_safe (what : String) [Safe checked d (indexOf n)] :
    Safe checked d (printSymbolicReference what n) := by
  unfold printSymbolicReference
  infer_instance

instance printSuffix_safe [Safe checked d (textOf n)] :
    Safe checked d (printSuffix n) := by
  unfold printSuffix
  infer_instance

/-! ## Specializations -/

/-- The payload of the kind is one that the parameter can have. -/
theorem printParamKind_safe (h : n.Sound checked.payloads)
    (hk : n.kind = .functionSignatureSpecializationParamKind) :
    Safe checked d (printParamKind n) := by
  have hp : checked.payloads → n.payload.isParamKind = true := fun hch => by
    simpa [hk, Kind.accepts] using h.accepts hch
  unfold printParamKind paramKindOf
  split
  next k hpk =>
    rw [pure_bind]
    dsimp only
    split
    next hempty =>
      split
      · infer_instance
      next hnone =>
        -- a word with neither options nor a change is not accepted
        refine safe_throw fun hch => ?_
        simpa [hpk, Payload.isParamKind, hempty, hnone] using hp hch
    next => infer_instance
  next hne =>
    refine ⟨yields_throw_bind (e := .invalidPayload n.kind) fun hch => ?_⟩
    have hp := hp hch
    unfold Payload.isParamKind at hp
    split at hp <;> simp_all

instance {value : Printer Unit} [Safe checked d value] [Below checked d n] :
    Safe checked d (printChange n value) := by
  unfold printChange
  infer_instance

theorem printStringConstant_safe (h1 : Meets checked n 1 .text) (h2 : Meets checked n 2 .text) :
    Safe checked d (printStringConstant n) := by
  unfold printStringConstant
  cases hc : n.child? 2 with
  | none =>
    dsimp only
    infer_instance
  | some c =>
    have := textOf_safe (d := d) fun hch => h2.meets hch c hc
    dsimp only
    infer_instance

instance printKeyPathConstant_safe [h : Below checked d n] :
    Safe checked d (printKeyPathConstant n) := by
  have := printSeparated_safe "," fun c hc => h.child c (List.mem_of_mem_drop (i := 2) hc)
  unfold printKeyPathConstant
  infer_instance

instance printClosureConstant_safe [h : Below checked d n] :
    Safe checked d (printClosureConstant n) := by
  have hmem : ∀ c ∈ (n.children.drop 2).takeWhile (·.kind == .type), Printable checked d c :=
    fun c hc => h.child c (List.mem_of_mem_drop ((List.takeWhile_sublist _).mem hc))
  have := printSeparated_safe ", " hmem
  unfold printClosureConstant
  infer_instance

/-- A specialized parameter says what happened to it, and its constants carry their texts. -/
theorem printParam_safe (h : Printable checked (d + 1) n)
    (hk : n.kind = .functionSignatureSpecializationParam ∨
      n.kind = .functionSignatureSpecializationReturn) : Safe checked d (printParam n) := by
  have := h.below (by rcases hk with hk | hk <;> rw [hk] <;> rfl)
  have hfit (hch : checked.payloads) : Node.paramFits n.children = true := by
    have := h.sound.childrenFit hch
    rcases hk with hk | hk <;> simp_all [Node.childrenFit]
  unfold printParam paramKindOf
  refine (child_yields n 0).bind_safe fun c hc => ?_
  have hhead : n.children.head? = some c := by
    rw [List.head?_eq_getElem?]
    exact hc
  split
  next w hw =>
    rw [pure_bind]
    have htext (i : Nat) (hi : checked.payloads → (n.children[i]?.all (·.payload.isText)) = true) :
        Meets checked n i .text :=
      ⟨fun hch a ha => by
        have : n.children[i]? = some a := ha
        simpa [this, Node.meets] using hi hch⟩
    split
    -- a function and a global are shown by their names, which are texts
    case h_3 hchange | h_4 hchange =>
      have := htext 1 fun hch => by simpa [Node.paramFits, hhead, hw, hchange] using hfit hch
      infer_instance
    -- a string is shown by its encoding and its text
    case h_5 hchange =>
      have hboth (hch : checked.payloads) : (n.children[1]?.all (·.payload.isText)) = true ∧
          (n.children[2]?.all (·.payload.isText)) = true := by
        simpa [Node.paramFits, hhead, hw, hchange] using hfit hch
      have : Safe checked d (printStringConstant n) :=
        printStringConstant_safe (htext 1 fun hch => (hboth hch).1)
          (htext 2 fun hch => (hboth hch).2)
      infer_instance
    all_goals infer_instance
  -- without a change the parameter does not fit
  next hne =>
    refine ⟨yields_throw_bind (e := .invalidPayload c.kind) fun hch => ?_⟩
    simpa [Node.paramFits, hhead] using hfit hch

/-- The parts of a specialization are numbered as they are printed. -/
theorem printSpecializationParts_safe (start : String) (separated : Bool) (number : Nat)
    {items : List Node} (h : ∀ c ∈ items, Printable checked d c) :
    Safe checked d (printSpecializationParts start separated number items) := by
  -- by induction on the parts, of which only the parameters are shown
  induction items generalizing separated number with
  | nil =>
    rw [printSpecializationParts]
    infer_instance
  | cons item items ih =>
    rw [List.forall_mem_cons] at h
    have := print_safe h.1
    have ih := fun separated number => ih separated number h.2
    rw [printSpecializationParts]
    dsimp only
    split
    · infer_instance
    · infer_instance
    split
    · infer_instance
    refine Safe.bind_safe inferInstance fun _ => ?_
    split
    next hk =>
      have := printParam_safe (h.1.mono (Nat.le_succ d)) (.inl hk)
      infer_instance
    next hk =>
      have := printParam_safe (h.1.mono (Nat.le_succ d)) (.inr hk)
      infer_instance
    next => infer_instance

instance printSpecialization_safe (description start : String) [h : Below checked d n] :
    Safe checked d (printSpecialization n description start) := by
  have := printSpecializationParts_safe start false 0 h.child
  unfold printSpecialization
  infer_instance

theorem printConformances_safe (joint : String) {cs : List Node}
    (h : ∀ c ∈ cs, Printable checked d c) : Safe checked d (printConformances joint cs) := by
  induction cs generalizing joint with
  | nil =>
    rw [printConformances]
    infer_instance
  | cons c cs ih =>
    rw [List.forall_mem_cons] at h
    have := print_safe h.1
    have := ih " and " h.2
    rw [printConformances]
    infer_instance

instance printGenericParam_safe [h : Below checked d n] : Safe checked d (printGenericParam n) := by
  have := printConformances_safe " with " fun c hc => h.child c (List.mem_of_mem_drop (i := 1) hc)
  unfold printGenericParam
  infer_instance

instance printParamPayload_safe [Safe checked d (textOf n)] :
    Safe checked d (printParamPayload n) := by
  unfold printParamPayload
  infer_instance

end SwiftMangling.Render
