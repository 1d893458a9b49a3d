import SwiftMangling.Proofs.Current.Type

/-!
# Declarations and conformances keep the state sound

Functions, variables, subscripts and their accessors, conformances of types to protocols, and the
metadata of types and declarations.
-/

namespace SwiftMangling.Current

open Decoding Node

variable {H : Nat} {k : Kind}

/-! ## Conformances -/

/-- A signature is put around what the type consists of, and the result is a type again. -/
theorem open_withSignature {signature : Option Node} {t : Node} (hs : ∀ s ∈ signature, s.Open)
    (ht : t.Open ∧ t.kind = .type) : (withSignature signature t).Open := by
  cases signature with
  | none => exact ht.1
  | some s =>
    refine open_typeOf (open_through rfl (by simpa using ⟨hs s rfl, ht.1⟩) ?_)
    simp [Kind.needs, meets, ht.2]

theorem kind_withSignature {signature : Option Node} {t : Node} (ht : t.kind = .type) :
    (withSignature signature t).kind = .type := by
  cases signature with
  | none => exact ht
  | some s => rfl

/-- A signature around a function type leaves it the same parameters. -/
theorem IsLabelList.withSignature {signature : Option Node} {t l : Node} (h : IsLabelList t l)
    (ht : IsTypeOf (· = .functionType) t) : IsLabelList (withSignature signature t) l := by
  refine ⟨h.formed, h.kind, fun hne => ?_⟩
  obtain ⟨hkinds, p, ⟨f, hf, hfp⟩, hcount⟩ := h.fit hne
  refine ⟨hkinds, p, ⟨f, ?_, hfp⟩, hcount⟩
  cases signature with
  | none => exact hf
  | some s =>
    -- the content of the type is no generic type itself
    obtain ⟨c, hc, hcf⟩ := Option.bind_eq_some_iff.mp hf
    have hck := ht.content c hc
    simp only [hck, beq_iff_eq, reduceCtorEq, if_false] at hcf
    obtain rfl := Option.some.inj hcf
    exact hc

theorem popSignature_holds :
    Holds H (popKind? .dependentGenericSignature) fun m => ∀ s ∈ m, s.Open :=
  popKind?_holds.mono fun _ hm s hs => open_of_kind (hm s hs) rfl

theorem popConformance_holds : Holds H popConformance Open := by
  unfold popConformance
  refine popSignature_holds.bind fun signature hs => popModule_holds.bind fun module hm =>
    popProtocol_holds.bind fun protocol hp => popKind?_holds.bind fun found hf => ?_
  -- the conforming type comes with the name it is declared under, or without
  have hend (t : Node) (name : Option Node) (ht : t.Open ∧ t.kind = .type)
      (hn : ∀ n ∈ name, n.Part) : (branch .protocolConformance
        ([withSignature signature t, protocol, module] ++ name.toList)).Open := by
    refine open_branch rfl ?_
    simpa using ⟨(open_withSignature hs ht).child, hp.child, hm.child, fun n h => (hn n h).child⟩
  cases found with
  | some t =>
    have ht := hf t rfl
    exact .ret (hend t none ⟨open_of_kind ht rfl, ht.2⟩ (by simp))
  | none =>
    exact popKind?_holds.bind fun name hn => popType_holds.bind fun t ht =>
      .ret (hend t name ht fun n h => (hn n h).1)

theorem aroundConformance_holds (hk : k.isPlain = true) : Holds H (aroundConformance k) Open :=
  popConformance_holds.bind fun _ h => .ret (open_branch hk (by simpa using h.child))

theorem retroactiveConformance_holds : Holds H retroactiveConformance Open :=
  numberNode_holds.bind fun _ hi => popWhere_holds.bind fun _ hc =>
    .ret (open_branch rfl (by simpa using ⟨hi.1.child, hc.1.child⟩))

/-- A reference into the module of the type or of the protocol, or else to a protocol in any other
module. -/
theorem popConformanceReference_holds : Holds H popConformanceReference Part := by
  unfold popConformanceReference
  refine popKind?_holds.bind fun m hm => ?_
  cases m with
  | some r => exact .ret (hm r rfl).1
  | none =>
    refine popKind?_holds.bind fun m hm => ?_
    cases m with
    | some r => exact .ret (hm r rfl).1
    | none =>
      exact popModule_holds.bind fun _ hm => popProtocol_holds.bind fun _ hp =>
        .ret (open_branch rfl (by simpa using ⟨hp.child, hm.child⟩)).part

theorem concreteConformance_holds : Holds H concreteConformance Open := by
  unfold concreteConformance
  refine (popList_holds popWhere_holds).bind fun conditions hc =>
    popConformanceReference_holds.bind fun _ hr => popType_holds.bind fun _ ht =>
    .ret (open_branch rfl ?_)
  have hlist : (branch .anyProtocolConformanceList conditions).Open :=
    open_branch rfl fun c h => (hc c h).1.child
  simpa using ⟨ht.1.child, hr.child, hlist.child⟩

/-- The number of a dependent conformance, or the mark of an unknown one. -/
theorem conformanceIndex_holds : Holds H conformanceIndex Child := by
  unfold conformanceIndex
  refine Keeps.index.bind fun n _ => ?_
  split
  · exact .fail
  · exact .ret (part_leaf rfl (by decide)).child
  · exact .ret (child_index _)

theorem rootConformance_holds : Holds H rootConformance Open :=
  conformanceIndex_holds.bind fun _ hi => popProtocol_holds.bind fun _ hp =>
    popType_holds.bind fun _ ht =>
    .ret (open_branch rfl (by simpa using ⟨ht.1.child, hp.child, hi⟩))

theorem inheritedConformance_holds : Holds H inheritedConformance Open :=
  conformanceIndex_holds.bind fun _ hi => popProtocol_holds.bind fun _ hp =>
    popWhere_holds.bind fun _ hn =>
    .ret (open_branch rfl (by simpa using ⟨hn.1.child, hp.child, hi⟩))

theorem associatedConformance_holds : Holds H associatedConformance Open := by
  unfold associatedConformance
  refine conformanceIndex_holds.bind fun _ hi => popProtocol_holds.bind fun p hp =>
    popType_holds.bind fun t ht => popWhere_holds.bind fun _ hn => .ret (open_branch rfl ?_)
  have hsubject : (branch .dependentAssociatedConformance [t, p]).Open :=
    open_branch rfl (by simpa using ⟨ht.1.child, hp.child⟩)
  simpa using ⟨hn.1.child, hsubject.child, hi⟩

/-! ## Declarations -/

theorem extensionContext_holds : Holds H extensionContext Open :=
  popSignature_holds.bind fun _ hs => popModule_holds.bind fun _ hm =>
    popBindable_holds.bind fun _ he => .ret (open_branch rfl (by
      simpa using ⟨hm.child, he.1.child, fun s h => (hs s h).child⟩))

theorem popTypeIfAny_holds :
    Holds H (popKind? .type) fun m => ∀ t ∈ m, t.Open ∧ t.kind = .type :=
  popType_holds.attempt

theorem isTypeOf_of_open {t : Node} (h : t.Open ∧ t.kind = .type) : IsTypeOf (fun _ => True) t :=
  ⟨h.1, h.2, fun _ _ => trivial⟩

/-- Neither contexts nor names of declarations are types. -/
theorem ne_type_of_isContext (h : k.isContext = true ∨ k.isDeclName = true) : k ≠ .type := by
  rintro rfl
  rcases h with h | h <;> cases h

/-- A declaration with the labels that belong to its type. -/
theorem open_labelled {cs : List Node} (before after : List Node) {labels : Option Node} {t : Node}
    (hk : k.isPlain = true) (hl : k.isLabelled = true)
    (hcs : cs = before ++ labels.toList ++ t :: after) (hne : before ≠ [])
    (hb : ∀ c ∈ before ++ after, c.Part ∧ c.kind ≠ .type) (ht : t.Open ∧ t.kind = .type)
    (hlabels : ∀ l ∈ labels, IsLabelList t l) :
    (branch k cs).Open := by
  subst hcs
  have hplain (c : Node) (hc : c ∈ before ++ t :: after) : c.Child := by
    rcases List.mem_append.mp hc with hc | hc
    · exact (hb c (List.mem_append_left _ hc)).1.child
    rcases List.mem_cons.mp hc with rfl | hc
    · exact ht.1.child
    · exact (hb c (List.mem_append_right _ hc)).1.child
  cases labels with
  | none => exact open_branch hk (by simpa using hplain)
  | some l =>
    have hlist := hlabels l rfl
    have hmem {c : Node} (hc : c ∈ before ++ [l] ++ t :: after) :
        c = l ∨ c ∈ before ++ t :: after := by
      simp only [List.mem_append, List.mem_cons, List.not_mem_nil, or_false] at hc ⊢
      grind
    -- only the list of labels is no child of the usual sort, and its frame is the type behind it
    refine open_branch_of_framed (isOrdinary_of_isFree (isFree_of_isPlain hk)) (fun c hc => ?_) ?_ ?_
    · rcases hmem hc with rfl | hc
      · exact hlist.formed
      · exact (hplain c hc).formed
    · rw [childrenFit_of_takesAny (takesAny_of_isPlain hk), List.all_eq_true]
      intro c hc
      rcases hmem hc with rfl | hc
      · simp [isTag, hlist.kind]
      · simp [(hplain c hc).isTag]
    · refine framed_of_labels (isLoose_of_isFree (isFree_of_isPlain hk))
        (.inr ⟨trivial, hl, before, l, t, after, by simp, hne, hlist.kind, ht.2, ?_, hlist.fit⟩)
      exact fun c hc => ⟨(hb c hc).1.ne_labelList, (hb c hc).2⟩

/-- The labels come off the type before the signature is put around it. -/
theorem plainFunction_holds : Holds H plainFunction Open := by
  unfold plainFunction
  refine popSignature_holds.bind fun signature hs =>
    (popFunctionType_holds (k := .functionType) rfl (by decide) false).bind fun t ht =>
    (popLabels_holds (by simpa using ht)).bind ?_
  rintro ⟨labels, t'⟩ ht'
  refine Keeps.ofOption.bind fun t htt => popDeclName_kind.bind fun name hn =>
    popContext_kind.bind fun context hc => .ret ?_
  obtain ⟨htype, hlabels⟩ := ht' t htt
  refine open_labelled [context, name] [] rfl rfl rfl (by simp) ?_
    ⟨open_withSignature hs ⟨htype.toOpen, htype.kind⟩, kind_withSignature htype.kind⟩
    fun l hl => (hlabels l hl).withSignature htype
  simpa using ⟨⟨hc.1.part, ne_type_of_isContext (.inl hc.2)⟩, hn.1, ne_type_of_isContext (.inr hn.2)⟩

/-- An entity whose name is a declaration of its own. -/
theorem namedEntity_holds (hk : k.isPlain = true) (hl : k.isLabelled = true) :
    Holds H (namedEntity k) Open := by
  unfold namedEntity
  refine popTypeIfAny_holds.bind fun t ht =>
    (popLabels_holds fun n hn => isTypeOf_of_open (ht n hn)).bind ?_
  rintro ⟨labels, t'⟩ ht'
  refine popDeclName_kind.bind fun name hn => popContext_kind.bind fun context hc =>
    Keeps.ofOption.bind fun t htt => .ret ?_
  obtain ⟨htype, hlabels⟩ := ht' t htt
  refine open_labelled [context, name] [] hk hl rfl (by simp) ?_
    ⟨htype.toOpen, htype.kind⟩ hlabels
  simpa using ⟨⟨hc.1.part, ne_type_of_isContext (.inl hc.2)⟩, hn.1, ne_type_of_isContext (.inr hn.2)⟩

/-- An entity known by its context and type, with the private name behind them if there is one. -/
theorem typedEntity_holds (hk : k.isPlain = true) (hl : k.isLabelled = true) :
    Holds H (typedEntity k) Open := by
  unfold typedEntity
  refine popKind?_holds.bind fun privateName hn => popTypeIfAny_holds.bind fun t ht =>
    (popLabels_holds fun n hn => isTypeOf_of_open (ht n hn)).bind ?_
  -- the labels fit the type as it is without the names in its parameters
  rintro ⟨labels, t'⟩ ht'
  refine popContext_kind.bind fun context hc => Keeps.ofOption.bind fun t htt => .ret ?_
  obtain ⟨htype, hlabels⟩ := ht' t htt
  refine open_labelled [context] privateName.toList hk hl (by simp)
    (by simp) ?_ ⟨htype.toOpen, htype.kind⟩ hlabels
  simp only [List.mem_append, List.mem_singleton, Option.mem_toList]
  rintro c (rfl | hc')
  · exact ⟨hc.1.part, ne_type_of_isContext (.inl hc.2)⟩
  · exact ⟨(hn c hc').1, by simp [(hn c hc').2]⟩

theorem closure_holds (hk : k.isFree = true) (hl : k.looksThrough = false)
    (hn : k.needs = [(1, .index)]) : Holds H (closure k) Open := by
  unfold closure
  refine numberNode_holds.bind fun number hi => popTypeIfAny_holds.bind fun t ht =>
    popContext_holds.bind fun context hc => Keeps.ofOption.bind fun t htt =>
    .ret (open_branch_of_needs hk hl ?_ ?_)
  · simpa using ⟨hc.child, hi.1.child, (ht t htt).1.child⟩
  · simpa [hn, meets] using hi.2

theorem defaultArgument_holds : Holds H defaultArgument Open := by
  unfold defaultArgument
  refine numberNode_holds.bind fun number hi => popContext_holds.bind fun context hc =>
    .ret (open_branch_of_needs rfl rfl ?_ ?_)
  · simpa using ⟨hc.child, hi.1.child⟩
  · simpa [Kind.needs, meets] using hi.2

theorem functionEntity_holds : Holds H functionEntity Open := by
  unfold functionEntity
  refine Keeps.nextChar.bind fun c _ => ?_
  split
  all_goals
    first
    | with_reducible refine aroundContext_holds ?_
    | with_reducible refine typedEntity_holds ?_ ?_
    | with_reducible refine closure_holds ?_ ?_ ?_
    | with_reducible refine namedEntity_holds ?_ ?_
    | with_reducible exact defaultArgument_holds
    | exact .fail
  all_goals rfl

theorem accessor_holds {storage : Node} (h : storage.Open) : Holds H (accessor storage) Open := by
  have haround {k : Kind} (hk : k.isPlain = true) : Holds H (pure (branch k [storage])) Open :=
    .ret (open_branch hk (by simpa using h.child))
  unfold accessor
  refine Keeps.nextChar.bind fun c _ => ?_
  split
  case h_9 | h_10 =>
    refine Keeps.nextChar.bind fun c _ => ?_
    split
    all_goals first | exact haround rfl | exact .fail
  case h_11 => exact .ret h
  all_goals first | exact haround rfl | exact .fail

theorem variableEntity_holds : Holds H variableEntity Open :=
  (namedEntity_holds rfl rfl).bind fun _ h => accessor_holds h

theorem subscriptEntity_holds : Holds H subscriptEntity Open :=
  (typedEntity_holds rfl rfl).bind fun _ h => accessor_holds h

end SwiftMangling.Current
