import SwiftMangling.Proofs.Render.Safe

/-!
# Types are printed safely

The rules for names, types, function types and lowered function types on sound nodes.
-/

set_option synthInstance.maxSize 100000

namespace SwiftMangling.Render

variable {checked : Checks} {d : Nat} {n c : Node}

/-- A node of a text kind carries a text. -/
theorem textOf_safe_of_kind (h : n.Sound checked.payloads) (hk : ∀ p, n.kind.accepts p = p.isText) :
    Safe checked d (textOf n) :=
  textOf_safe fun hch => by rw [← hk]; exact h.accepts hch

/-- A node of a number kind carries a number. -/
theorem indexOf_safe_of_kind (h : n.Sound checked.payloads)
    (hk : ∀ p, n.kind.accepts p = p.isIndex) :
    Safe checked d (indexOf n) :=
  indexOf_safe fun hch => by rw [← hk]; exact h.accepts hch

/-! ## Names -/

instance printExtension_safe [Below checked d n] : Safe checked d (printExtension n) := by
  unfold printExtension
  dsimp only
  infer_instance

instance printAnonymousContext_safe [Below checked d n] :
    Safe checked d (printAnonymousContext n) := by
  unfold printAnonymousContext
  cases hc : n.child? 2 with
  | none =>
    dsimp only
    infer_instance
  | some c =>
    have : Safe checked d (print c) := print_safe (Below.child? hc)
    dsimp only
    infer_instance

instance printModule_safe [Safe checked d (textOf n)] :
    Safe checked d (printModule n) := by
  unfold printModule
  infer_instance

instance printLocalName_safe [Below checked d n] [Meets checked n 0 .index] :
    Safe checked d (printLocalName n) := by
  unfold printLocalName
  infer_instance

instance printPrivateName_safe [Below checked d n] [Meets checked n 0 .text] :
    Safe checked d (printPrivateName n) := by
  unfold printPrivateName
  cases hc : n.child? 1 with
  | none =>
    dsimp only
    infer_instance
  | some c =>
    have : Safe checked d (print c) := print_safe (Below.child? hc)
    dsimp only
    infer_instance

instance printRelatedName_safe [Below checked d n] [Meets checked n 0 .text] :
    Safe checked d (printRelatedName n) := by
  unfold printRelatedName
  infer_instance

/-! ## Function types -/

instance printConvention_safe (name : String) [Below checked d n] :
    Safe checked d (printConvention name n) := by
  unfold printConvention
  cases hc : n.first? with
  | none =>
    dsimp only
    infer_instance
  | some c =>
    have : Safe checked d (print c) := print_safe (Below.child c (List.mem_of_mem_head? hc))
    dsimp only
    infer_instance

instance printFunctionKind_safe [Below checked d n] : Safe checked d (printFunctionKind n) := by
  unfold printFunctionKind
  split <;> infer_instance

theorem differentiabilityOf_yields
    (h : checked.payloads → n.payload.isDifferentiable = true) :
    Yields checked d (differentiabilityOf n) fun a => checked.payloads → a ≠ .nonDifferentiable := by
  unfold differentiabilityOf
  split
  next a ha =>
    refine yields_pure fun hch => ?_
    simpa [ha, Payload.isDifferentiable] using h hch
  next hne =>
    refine yields_throw fun hch => ?_
    have := h hch
    unfold Payload.isDifferentiable at this
    split at this <;> simp_all

theorem differentiableAttribute_safe {a : Differentiability}
    (h : checked.payloads → a ≠ .nonDifferentiable) :
    Safe checked d (differentiableAttribute a) := by
  unfold differentiableAttribute
  cases a with
  | nonDifferentiable => exact safe_throw fun hch => h hch rfl
  | _ => infer_instance

theorem noteMark_safe (found : Marks) (h : Printable checked d n) :
    Safe checked d (noteMark found n) := by
  unfold noteMark
  split
  case h_1 =>
    have := print_safe h
    infer_instance
  case h_2 hk =>
    have hd : checked.payloads → n.payload.isDifferentiable = true := fun hch => by
      simpa [hk, Kind.accepts] using h.sound.accepts hch
    have := (differentiabilityOf_yields (d := d) hd).safe
    infer_instance
  all_goals infer_instance

theorem foldlM_noteMark_safe {ns : List Node} (found : Marks)
    (h : ∀ c ∈ ns, Printable checked d c) : Safe checked d (ns.foldlM noteMark found) := by
  induction ns generalizing found with
  | nil =>
    rw [List.foldlM_nil]
    infer_instance
  | cons c ns ih =>
    rw [List.forall_mem_cons] at h
    rw [List.foldlM_cons]
    have := noteMark_safe found h.1
    have := fun found => ih found h.2
    infer_instance

theorem childOfKind?_sound {k : Kind} (h : n.Sound checked.payloads)
    (hc : n.childOfKind? k = some c) :
    c.Sound checked.payloads ∧ c.kind = k := by
  refine ⟨h.child (List.mem_of_find?_eq_some hc), ?_⟩
  simpa using List.find?_some hc

/-- There is a label at every position that is asked for. -/
theorem printLabel_safe {labels : Option Node} (i : Nat) (showTypes : Bool)
    (hl : ∀ ls ∈ labels, ls.Sound checked.payloads ∧ (checked.labels → i < ls.count))
    (hp : n.Sound checked.payloads) :
    Safe checked d (printLabel labels n i showTypes) := by
  unfold printLabel
  cases labels with
  -- the given labels have precedence over the names of the elements
  | some ls =>
    refine (child_yields_of_lt (hl ls rfl).2).bind_safe fun label hc => ?_
    have hlabel : label.Sound checked.payloads := (hl ls rfl).1.child (List.mem_of_getElem? hc)
    dsimp only
    split
    next hk =>
      have := textOf_safe_of_kind (d := d) hlabel (by simp_all [Kind.accepts])
      infer_instance
    next => infer_instance
  | none =>
    dsimp only
    cases hc : n.childOfKind? .tupleElementName with
    | none =>
      dsimp only
      infer_instance
    | some name =>
      obtain ⟨hname, hk⟩ := childOfKind?_sound hp hc
      have := textOf_safe_of_kind (d := d) hname (by simp [hk, Kind.accepts])
      dsimp only
      infer_instance

/-- Labels are looked up at the positions of the parameters, of which there are no more than labels.
-/
theorem printTupleParameters_safe {labels : Option Node} (showTypes : Bool) (i : Nat)
    {ps : List Node} (hl : ∀ ls ∈ labels, ls.Sound checked.payloads ∧
      (checked.labels → i + ps.length ≤ ls.count))
    (hp : ∀ p ∈ ps, Printable checked d p) :
    Safe checked d (printTupleParameters labels showTypes i ps) := by
  -- by induction on the parameters: the labels reach from the position of the first one to the last
  induction ps generalizing i with
  | nil =>
    rw [printTupleParameters]
    infer_instance
  | cons p ps ih =>
    rw [List.forall_mem_cons] at hp
    rw [List.length_cons] at hl
    have := printLabel_safe (d := d) i showTypes
      (fun ls hls => (hl ls hls).imp_right fun hcount hch => by have := hcount hch; omega)
      hp.1.sound
    have := print_safe hp.1
    have := ih (i + 1)
      (fun ls hls => (hl ls hls).imp_right fun hcount hch => by have := hcount hch; omega) hp.2
    rw [printTupleParameters]
    dsimp only
    infer_instance

theorem printSingleParameter_safe (label : Option String) (showTypes : Bool)
    (h : Printable checked d n) : Safe checked d (printSingleParameter label n showTypes) := by
  have := print_safe h
  unfold printSingleParameter
  cases label <;> dsimp only <;> infer_instance

/-- The labels cover the parameters of a function, which are a tuple or a single one. -/
theorem printParameters_safe {labels : Option Node} (showTypes : Bool)
    (hl : ∀ ls ∈ labels, ls.Sound checked.payloads ∧
      (checked.labels → n.kind = .argumentTuple → ls.Covers n))
    (h : Printable checked (d + 1) n) :
    Safe checked d (printParameters labels n showTypes) := by
  unfold printParameters
  dsimp only
  split
  · infer_instance
  next hk =>
    have hk : n.kind = .argumentTuple := by simpa using hk
    have := h.through fun _ => by rw [hk]; rfl
    refine Yields.bind_safe (child_yields n 0) fun a ha => ?_
    have hb : Below checked d a := Through.child? ha
    refine Yields.bind_safe (child_yields a 0) fun parameters hc => ?_
    have hp : Printable checked d parameters := Below.child? hc
    split
    -- several parameters: there is a label for each, unless the list is empty and stands for no
    -- labels
    next ht =>
      have hfilter : ∀ ls ∈ labels.filter (·.count != 0), ls.Sound checked.payloads ∧
          (checked.labels → 0 + parameters.children.length ≤ ls.count) := by
        intro ls hls
        obtain ⟨hls, hcount⟩ := Option.mem_filter_iff.mp hls
        refine (hl ls hls).imp_right fun hcovers hch => ?_
        rw [Nat.zero_add]
        exact hcovers hch hk a parameters ha hc (by simpa using ht) (by simpa using hcount)
      have := (hp.mono (Nat.le_succ d)).below (by simp_all [Kind.hidesChildren, Kind.isWitness])
      have := printTupleParameters_safe showTypes 0 hfilter this.child
      infer_instance
    -- a single parameter needs no label
    next =>
      have := fun label => printSingleParameter_safe label showTypes hp
      infer_instance

/-- The labels of a function reach its parameters. -/
theorem printFunctionType_safe {labels : Option Node}
    (hl : ∀ ls ∈ labels, ls.Sound checked.payloads ∧ (checked.labels → ls.Reaches n))
    [h : Below checked d n] : Safe checked d (printFunctionType labels n) := by
  -- parameters and result are the last two children, and what is in front are marks
  have := fun found => foldlM_noteMark_safe found
    fun c hc => h.child c (List.mem_of_mem_take (i := n.count - 2) hc)
  have (showTypes : Bool) (f : Unit → Printer Unit) [∀ u, Safe checked d (f u)] :
      Safe checked d (child n (n.count - 2) >>= fun c => printParameters labels c showTypes >>= f) :=
    (child_yields n (n.count - 2)).bind_safe fun c hc =>
      have := printParameters_safe showTypes
        (fun ls hls => (hl ls hls).imp_right fun hreaches hch => hreaches hch c hc)
        ((Below.child? hc).mono (Nat.le_succ d))
      inferInstance
  unfold printFunctionType
  dsimp only
  split
  · infer_instance
  refine Safe.bind_safe inferInstance fun _ => Safe.bind_safe inferInstance fun found => ?_
  split
  case h_1 => infer_instance
  case h_2 => infer_instance
  case h_3 mode hmode _ =>
    have : Safe checked d (differentiableAttribute mode) :=
      differentiableAttribute_safe fun _ => hmode
    infer_instance

theorem printTupleElement_safe (h : Printable checked (d + 1) n)
    (hk : n.kind = .tupleElement) : Safe checked d (printTupleElement n) := by
  have hb := h.below (by rw [hk]; rfl)
  have hend : Safe checked d (if (n.childOfKind? .variadicMarker).isSome = true then write "..."
      else pure ()) := inferInstance
  unfold printTupleElement
  dsimp only
  split
  -- a name is printed from its text, a type as a node
  next label hc =>
    obtain ⟨hlabel, hlk⟩ := childOfKind?_sound h.sound hc
    have := textOf_safe_of_kind (d := d) hlabel (by simp [hlk, Kind.accepts])
    split
    next t ht =>
      have : Safe checked d (print t) := print_safe (hb.child t (List.mem_of_find?_eq_some ht))
      infer_instance
    next => infer_instance
  next =>
    split
    next t ht =>
      have : Safe checked d (print t) := print_safe (hb.child t (List.mem_of_find?_eq_some ht))
      infer_instance
    next => infer_instance

instance printReturnType_safe [Below checked d n] : Safe checked d (printReturnType n) := by
  unfold printReturnType
  refine Safe.bind_safe inferInstance fun _ => ?_
  split <;> infer_instance

/-! ## Bound generic types, metatypes and existential types -/

instance printWithParens_safe {c : { c : Node // Printable checked d c }} :
    Safe checked d (printWithParens c.val) := by
  unfold printWithParens
  infer_instance

instance printBoundLong_safe [Below checked d n] [Through checked d n] :
    Safe checked d (printBoundLong n) := by
  unfold printBoundLong
  infer_instance

instance printSugar_safe (s : Sugar) [Below checked d n] : Safe checked d (printSugar n s) := by
  unfold printSugar
  cases s <;> dsimp only <;> infer_instance

instance printBoundGeneric_safe [Below checked d n] [Through checked d n] :
    Safe checked d (printBoundGeneric n) := by
  unfold printBoundGeneric
  cases sugar? n <;> dsimp only <;> infer_instance

theorem metatypeInstance_yields [Below checked d n] :
    Yields checked d (metatypeInstance n) fun c => c ∈ n.children := by
  have hchild (i : Nat) : Yields checked d (child n i) fun c => c ∈ n.children :=
    (child_yields n i).mono fun _ hc => List.mem_of_getElem? hc
  unfold metatypeInstance
  split
  · exact Safe.bind_yields inferInstance fun _ => Safe.bind_yields inferInstance fun _ => hchild 1
  · exact hchild 0

instance printMetatype_safe [Below checked d n] [h : Through checked d n] :
    Safe checked d (printMetatype n) := by
  unfold printMetatype
  refine metatypeInstance_yields.bind_safe fun c hc => ?_
  have := h.below c hc
  infer_instance

instance printExistentialMetatype_safe [h : Below checked d n] :
    Safe checked d (printExistentialMetatype n) := by
  unfold printExistentialMetatype
  refine metatypeInstance_yields.bind_safe fun c hc => ?_
  have := print_safe (h.child c hc)
  infer_instance

instance printAssociatedTypeRef_safe [Below checked d n] [Meets checked n 1 .text] :
    Safe checked d (printAssociatedTypeRef n) := by
  unfold printAssociatedTypeRef
  dsimp only
  infer_instance

instance printProtocolList_safe [Through checked d n] : Safe checked d (printProtocolList n) := by
  unfold printProtocolList
  infer_instance

/-- The protocols of a composition with a class can be printed. -/
theorem protocols_yields (h : Printable checked (d + 1) n)
    (hw : n.kind.hidesChildren = false) (hn : (0, .kind .protocolList) ∈ n.kind.needs) :
    Yields checked d (child n 0 >>= fun c => child c 0) (Below checked d) := by
  have := h.below hw
  refine (child_yields n 0).bind fun c hc => ?_
  have hp : Printable checked (d + 1) c := (Below.child? hc).mono (Nat.le_succ d)
  have := hp.through fun hch => by
    have hk : c.kind = .protocolList := by simpa [Node.meets] using h.sound.meets hch hn hc
    rw [hk]
    rfl
  exact (child_yields c 0).mono fun ps hps => Through.child? hps

theorem printProtocolListWithClass_safe (h : Printable checked (d + 1) n)
    (hk : n.kind = .protocolListWithClass) : Safe checked d (printProtocolListWithClass n) := by
  have hw : n.kind.hidesChildren = false := by rw [hk]; rfl
  have hy := protocols_yields h hw (by rw [hk]; decide)
  have := h.below hw
  unfold printProtocolListWithClass
  refine Safe.bind_safe inferInstance fun _ => Safe.bind_safe inferInstance fun _ => ?_
  rw [← bind_assoc]
  exact hy.bind_safe fun ps hps => inferInstance

theorem printProtocolListWithAnyObject_safe (h : Printable checked (d + 1) n)
    (hk : n.kind = .protocolListWithAnyObject) :
    Safe checked d (printProtocolListWithAnyObject n) := by
  have hy := protocols_yields h (by rw [hk]; rfl) (by rw [hk]; decide)
  unfold printProtocolListWithAnyObject
  dsimp only
  rw [← bind_assoc]
  exact hy.bind_safe fun ps hps => inferInstance

/-! ## Boxes and generic signatures -/

theorem printFields_safe {fs : List Node} (i : Nat) (h : ∀ f ∈ fs, Printable checked d f) :
    Safe checked d (printFields i fs) := by
  induction fs generalizing i with
  | nil =>
    rw [printFields]
    infer_instance
  | cons f fs ih =>
    rw [List.forall_mem_cons] at h
    have := print_safe h.1
    have := ih (i + 1) h.2
    rw [printFields]
    dsimp only
    infer_instance

instance printBoxLayout_safe [h : Below checked d n] : Safe checked d (printBoxLayout n) := by
  have := printFields_safe 0 h.child
  unfold printBoxLayout
  infer_instance

instance printBoxType_safe [Below checked d n] [Through checked d n] :
    Safe checked d (printBoxType n) := by
  unfold printBoxType
  cases hs : n.child? 1 with
  | none =>
    dsimp only
    exact (child_yields n 0).bind_safe fun c hc => print_safe (Below.child? hc)
  | some signature =>
    have : Safe checked d (print signature) := print_safe (Below.child? hs)
    cases ha : n.child? 2 with
    | none =>
      dsimp only
      exact (child_yields n 0).bind_safe fun c hc =>
        have : Safe checked d (print c) := print_safe (Below.child? hc)
        inferInstance
    -- the arguments are taken apart, so they need depth of their own
    | some arguments =>
      have : Below checked d arguments := Through.child? ha
      dsimp only
      exact (child_yields n 0).bind_safe fun c hc =>
        have : Safe checked d (print c) := print_safe (Below.child? hc)
        inferInstance

/-- Each count is a number, and the names come from depths and positions. -/
theorem printParameterCounts_safe {cs : List Node} (depth : Nat)
    (h : ∀ c ∈ cs, c.Sound checked.payloads ∧ c.kind = .dependentGenericParamCount) :
    Safe checked d (printParameterCounts depth cs) := by
  -- by induction on the counts, one for each depth
  induction cs generalizing depth with
  | nil =>
    rw [printParameterCounts]
    infer_instance
  | cons c cs ih =>
    rw [List.forall_mem_cons] at h
    have := indexOf_safe_of_kind (d := d) h.1.1 (by simp [h.1.2, Kind.accepts])
    have := ih (depth + 1) h.2
    rw [printParameterCounts]
    dsimp only
    infer_instance

instance printSignature_safe [h : Below checked d n] : Safe checked d (printSignature n) := by
  let isCount := fun c : Node => c.kind == .dependentGenericParamCount
  have hcounts : ∀ c ∈ n.children.takeWhile isCount,
      c.Sound checked.payloads ∧ c.kind = .dependentGenericParamCount := fun c hc =>
    ⟨(h.child c ((List.takeWhile_sublist _).mem hc)).sound,
      by simpa [isCount] using List.all_eq_true.mp List.all_takeWhile c hc⟩
  have hrest : ∀ c ∈ n.children.dropWhile isCount, Printable checked d c := fun c hc =>
    h.child c ((List.dropWhile_sublist _).mem hc)
  have := printParameterCounts_safe (d := d) 0 hcounts
  have := printSeparated_safe ", " hrest
  unfold printSignature
  infer_instance

instance printLayoutRequirement_safe [Below checked d n] [hn : Meets checked n 1 .layout] :
    Safe checked d (printLayoutRequirement n) := by
  have hend : Safe checked d
      (match n.child? 2 with
      | some size => do
        write "("
        print size
        match n.child? 3 with
        | some alignment => do
          write ", "
          print alignment
          write ")"
        | none => write ")"
      | none => pure ()) := by
    cases hs : n.child? 2 with
    | none => infer_instance
    | some size =>
      have : Safe checked d (print size) := print_safe (Below.child? hs)
      cases ha : n.child? 3 with
      | none => infer_instance
      | some alignment =>
        have : Safe checked d (print alignment) := print_safe (Below.child? ha)
        infer_instance
  unfold printLayoutRequirement
  dsimp only
  refine Safe.bind_safe inferInstance fun _ => Safe.bind_safe inferInstance fun _ =>
    (child_yields n 1).bind_safe fun layout hc => ?_
  -- a letter that fits has a name
  have hl : checked.payloads → (layout.text?.bind layoutName?).isSome = true := fun hch =>
    hn.meets hch layout hc
  unfold textOf
  cases ht : layout.text? with
  | none =>
    refine ⟨yields_throw_bind (e := .invalidPayload layout.kind) fun hch => ?_⟩
    simpa [ht] using hl hch
  | some s =>
    rw [pure_bind]
    cases hname : layoutName? s with
    | none =>
      refine ⟨yields_throw_bind (e := .invalidPayload layout.kind) fun hch => ?_⟩
      simpa [ht, hname] using hl hch
    | some name => exact Safe.bind_safe inferInstance fun _ => hend

instance printGenericParameter_safe [Meets checked n 0 .index] [Meets checked n 1 .index] :
    Safe checked d (printGenericParameter n) := by
  unfold printGenericParameter
  infer_instance

instance printGenericType_safe [Below checked d n] : Safe checked d (printGenericType n) := by
  unfold printGenericType
  dsimp only
  infer_instance

instance printAssociatedTypeName_safe [Below checked d n] :
    Safe checked d (printAssociatedTypeName n) := by
  unfold printAssociatedTypeName
  cases hc : n.child? 1 with
  | none =>
    dsimp only
    infer_instance
  | some c =>
    have : Safe checked d (print c) := print_safe (Below.child? hc)
    dsimp only
    infer_instance

instance printConformance_safe [Below checked d n] : Safe checked d (printConformance n) := by
  unfold printConformance
  infer_instance

instance printDependentConformance_safe (description : String) [Below checked d n] :
    Safe checked d (printDependentConformance description n) := by
  unfold printDependentConformance
  refine Safe.bind_safe inferInstance fun _ => Safe.bind_safe inferInstance fun c => ?_
  cases c.index? <;> dsimp only <;> infer_instance

/-! ## Lowered function types -/

/-- The substitutions noted in a state can be printed. -/
structure LoweredState.Safe (checked : Checks) (d : Nat) (s : LoweredState) : Prop where
  pattern : ∀ p ∈ s.pattern, Below checked d p ∧ Through checked d p
  invocation : ∀ p ∈ s.invocation, Through checked d p

theorem enterSection_safe {s : LoweredState} (target : Section)
    (hs : s.Safe checked d) : Safe checked d (enterSection s target) := by
  unfold enterSection
  cases hp : s.pattern with
  | none =>
    dsimp only
    infer_instance
  | some p =>
    have := (hs.pattern p hp).1
    dsimp only
    infer_instance

theorem printItem_yields {s : LoweredState} (target : Section)
    (hs : s.Safe checked d) (h : Printable checked d n) :
    Yields checked d (printItem s target n) (LoweredState.Safe checked d) := by
  have := print_safe h
  have := enterSection_safe target hs
  have hend : Yields checked d (print n >>= fun _ => pure { s with current := target })
      (LoweredState.Safe checked d) :=
    Safe.bind_yields inferInstance fun _ => yields_pure ⟨hs.pattern, hs.invocation⟩
  unfold printItem
  dsimp only
  split
  -- an item of an earlier section is refused, and sound or not the error is tolerated
  · exact yields_throw_bind (e := .unexpectedKind _) trivial
  · split
    · exact Safe.bind_yields inferInstance fun _ => hend
    · exact Safe.bind_yields inferInstance fun _ => hend

/-- A part leaves a state whose substitutions can be printed. -/
theorem printLoweredPart_yields {s : LoweredState} (hs : s.Safe checked d)
    (h : Printable checked d n) :
    Yields checked d (printLoweredPart s n) (LoweredState.Safe checked d) := by
  have hitem := fun target => printItem_yields target hs h
  have := print_safe h
  have h' := h.mono (Nat.le_succ d)
  unfold printLoweredPart
  split
  -- substitutions are kept for the end, where they are taken apart
  case h_5 hk =>
    have hb := h'.below (by rw [hk]; rfl)
    have ht := h'.through fun _ => by rw [hk]; rfl
    exact yields_pure ⟨fun p hp => by cases hp; exact ⟨hb, ht⟩, hs.invocation⟩
  case h_6 hk =>
    have ht := h'.through fun _ => by rw [hk]; rfl
    exact yields_pure ⟨hs.pattern, fun p hp => by cases hp; exact ht⟩
  -- an attribute behind the first parenthesis is refused
  case h_7 =>
    dsimp only
    split
    · exact yields_throw_bind (e := .unexpectedKind _) trivial
    · exact Safe.bind_yields inferInstance fun _ =>
        Safe.bind_yields inferInstance fun _ => yields_pure hs
  all_goals exact hitem _

theorem foldlM_printLoweredPart_yields {ns : List Node} {s : LoweredState}
    (hs : s.Safe checked d) (h : ∀ c ∈ ns, Printable checked d c) :
    Yields checked d (ns.foldlM printLoweredPart s) (LoweredState.Safe checked d) := by
  induction ns generalizing s with
  | nil => exact yields_pure hs
  | cons c ns ih =>
    rw [List.forall_mem_cons] at h
    rw [List.foldlM_cons]
    exact (printLoweredPart_yields hs h.1).bind fun s' hs' => ih hs' h.2

theorem printSubstitutions_safe {substitutions : Option Node} (i : Nat)
    (h : ∀ p ∈ substitutions, Through checked d p) :
    Safe checked d (printSubstitutions substitutions i) := by
  unfold printSubstitutions
  cases substitutions with
  | none => infer_instance
  | some p =>
    have := h p rfl
    infer_instance

instance printLoweredFunctionType_safe [h : Below checked d n] :
    Safe checked d (printLoweredFunctionType n) := by
  unfold printLoweredFunctionType
  dsimp only
  refine (foldlM_printLoweredPart_yields ⟨by simp, by simp⟩ h.child).bind_safe fun s hs => ?_
  have := enterSection_safe .results hs
  have := printSubstitutions_safe 1 fun p hp => (hs.pattern p hp).2
  have := printSubstitutions_safe 0 hs.invocation
  infer_instance

instance printLoweredItem_safe [Below checked d n] : Safe checked d (printLoweredItem n) := by
  unfold printLoweredItem
  dsimp only
  infer_instance

instance printCallingConvention_safe [Below checked d n] [Meets checked n 0 .text] :
    Safe checked d (printCallingConvention n) := by
  unfold printCallingConvention
  cases hc : n.child? 1 with
  | none =>
    dsimp only
    infer_instance
  | some c =>
    have : Safe checked d (print c) := print_safe (Below.child? hc)
    dsimp only
    infer_instance

instance printMark_safe [Safe checked d (textOf n)] :
    Safe checked d (printMark n) := by
  unfold printMark
  infer_instance

end SwiftMangling.Render
