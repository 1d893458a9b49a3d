import SwiftMangling.Proofs.Current.Entity

/-!
# Specializations, witnesses and thunks keep the state sound

The tags of witnesses are the only tags that the decoder builds, and they stand where the rules of
the witnesses look for them. What happened to a specialized parameter is written as options or as
one change, and a constant comes with the texts that its change needs.
-/

namespace SwiftMangling.Current

open Decoding Node

variable {H : Nat} {k : Kind}

/-! ## Specialized parameters -/

theorem optionIf_holds (c : Char) (o : ParamOption) : Holds H (optionIf c o) fun _ => True :=
  Keeps.nextIf.bind fun _ _ => .ite (fun _ => .ret trivial) fun _ => .ret trivial

theorem paramOptions_holds (first : ParamOption) (canBeDead : Bool) :
    Holds H (paramOptions first canBeDead) fun n => ParamParts [n] := by
  have hend (dead : List ParamOption) : Holds H
      (optionIf 'G' .ownedToGuaranteed >>= fun guaranteed =>
        optionIf 'O' .guaranteedToOwned >>= fun owned => optionIf 'X' .exploded >>= fun exploded =>
        pure (paramKind (.ofOptions (first :: dead ++ guaranteed ++ owned ++ exploded))))
      fun n => ParamParts [n] :=
    (optionIf_holds _ _).bind fun guaranteed _ => (optionIf_holds _ _).bind fun owned _ =>
      (optionIf_holds _ _).bind fun exploded _ =>
        .ret (paramParts_ofOptions first (dead ++ guaranteed ++ owned ++ exploded))
  unfold paramOptions
  dsimp only
  split
  · exact (optionIf_holds _ _).bind fun dead _ => hend dead
  · exact hend []

theorem propagatedNumber_holds (c : ParamChange) : Holds H (propagatedNumber c) ParamParts :=
  Keeps.takeWhile.bind fun _ _ => Keeps.require.bind fun _ _ => .ret (paramParts_ofChange c [_])

theorem propagatedString_holds : Holds H propagatedString ParamParts := by
  unfold propagatedString
  refine Keeps.nextChar.bind fun c _ => ?_
  dsimp only
  split
  case h_4 => exact .fail
  all_goals exact .ret (paramParts_ofChange _ [_])

theorem paramChange_holds : Holds H paramChange ParamParts := by
  unfold paramChange
  refine Keeps.nextChar.bind fun c _ => ?_
  split
  · exact .ret ⟨by simp, rfl⟩
  · exact .ret (paramParts_ofChange _ [])
  · refine Keeps.nextChar.bind fun c _ => ?_
    split
    iterate 2 exact .ret (paramParts_ofChange _ [])
    iterate 2 exact propagatedNumber_holds _
    · exact propagatedString_holds
    · exact .fail
  iterate 2 exact (paramOptions_holds _ _).bind fun _ h => .ret h
  iterate 2 exact (optionIf_holds _ _).bind fun _ _ => .ret (paramParts_ofOptions _ _)
  · exact .ret (paramParts_ofOptions _ _)
  iterate 3 exact .ret (paramParts_ofChange _ [])
  · exact .fail

theorem paramNode_holds (h : k = .functionSignatureSpecializationParam ∨
    k = .functionSignatureSpecializationReturn) : Holds H (paramNode k) IsParam :=
  paramChange_holds.bind fun _ hcs => .ret (isParam_branch h hcs)

/-- Only a closure comes with the types of its arguments. -/
theorem popArgumentTypes_holds (c : ParamChange) :
    Holds H (popArgumentTypes c) fun ts => (∀ t ∈ ts, t.Part) ∧ (c ≠ .closure → ts = []) := by
  unfold popArgumentTypes
  refine .ite (fun hc => popRun_holds.mono fun ts hts => ?_) fun hc => ?_
  · exact ⟨fun t ht => (hts t ht).1, fun hne => absurd (beq_iff_eq.mp hc) hne⟩
  · exact popMarker_holds.bind fun _ _ => Keeps.require.bind fun _ _ =>
      .ret ⟨by simp, fun _ => rfl⟩

/-- The constants that leave their name on the stack need no text but for a string, which needs
texts only. -/
theorem paramFits_append {p : Node} {c : ParamChange} {s : String} {types : List Node}
    (hf : paramFits p.children = true) (hc : stackedChange? p = some c)
    (ht : c ≠ .closure → types = []) :
    paramFits (p.children ++ paramPayload s :: types) = true := by
  unfold stackedChange? at hc
  split at hc
  next kind hfirst =>
    obtain ⟨tag, htag, hpayload⟩ := Option.map_eq_some_iff.mp hfirst
    obtain ⟨hchange, hstacked⟩ := Option.filter_eq_some_iff.mp hc
    have hhead : p.children.head? = some tag := htag
    unfold paramFits at hf ⊢
    rw [hhead] at hf
    rw [List.head?_append, hhead, Option.some_or]
    simp only [Option.all_some, hpayload, hchange] at hf ⊢
    -- of the changes whose text is on the stack only a string has a second text
    cases c with
    | constantString =>
      obtain rfl := ht (by decide)
      dsimp only at hf ⊢
      rw [Bool.and_eq_true] at hf ⊢
      have htext (i : Nat) (hi : p.children[i]?.all (·.payload.isText) = true) :
          (p.children ++ [paramPayload s])[i]?.all (·.payload.isText) = true := by
        rw [List.getElem?_append]
        split
        · exact hi
        · cases i - p.children.length <;> rfl
      exact ⟨htext 1 hf.1, htext 2 hf.2⟩
    | constantFunction | constantGlobal | closure => rfl
    | constantInteger | constantFloat | boxToValue | boxToStack | inOutToOut | constantKeyPath =>
      cases hstacked
  next => cases hc

/-- The name and the types that belong to a parameter are added to it. -/
theorem popParamPayload_holds {p : Node} (h : IsParam p) : Holds H (popParamPayload p) IsParam := by
  unfold popParamPayload
  split
  next => exact .ret h
  next c hc =>
    refine (popArgumentTypes_holds c).bind fun types ht => popKind_holds.bind fun name hn =>
      Keeps.ofOption.bind fun s _ => .ret ?_
    have hfit := h.sound.childrenFit trivial
    rw [childrenFit_param h.kind, Bool.and_eq_true] at hfit
    have hnew : ∀ a ∈ paramPayload (constantName c s) :: types, a.Part := by
      simpa using ⟨part_paramPayload _, ht.1⟩
    have hkind : p.kind.isLabelled = false ∧ p.kind.isRigid = false := by
      rcases h.kind with hk | hk <;> (rw [hk]; exact ⟨rfl, rfl⟩)
    refine ⟨⟨formed_addChildren h.formed (fun a ha => (hnew a ha).formed) ?_ ?_, ?_, ?_⟩, ?_⟩
    · rw [childrenFit_param h.kind, paramFits_append hfit.2 hc ht.2, List.all_append, hfit.1,
        all_not_isTag fun a ha => (hnew a ha).child]
      rfl
    · exact h.formed.neat.here.framed.append hkind.2 hkind.1 fun a ha => (hnew a ha).ne_labelList
    · rw [kind_addChildren]
      exact h.isSealed
    · rw [kind_addChildren]
      exact h.ne_labelList
    · rw [kind_addChildren]
      exact h.kind

/-- What belongs to the parameters comes from the stack, for the last one first. -/
theorem popParamPayloads_holds {ps : List Node} (h : ∀ p ∈ ps, IsParam p) {later : List Node}
    (hl : ∀ p ∈ later, IsParam p) :
    Holds H (popParamPayloads ps later) fun ps => ∀ p ∈ ps, IsParam p := by
  induction ps generalizing later with
  | nil => exact .ret hl
  | cons p ps ih =>
    rw [List.forall_mem_cons] at h
    rw [popParamPayloads]
    exact (popParamPayload_holds h.1).bind fun p hp => ih h.2 (by simpa using ⟨hp, hl⟩)

/-! ## Specializations -/

theorem specializationHeader_holds :
    Holds H specializationHeader fun ns => ∀ n ∈ ns, n.Part := by
  unfold specializationHeader
  refine Keeps.nextIf.bind fun serialized _ => Keeps.nextChar.bind fun c _ =>
    Keeps.require.bind fun _ _ => .ret fun n hn => ?_
  rcases List.mem_append.mp hn with hn | hn
  · split at hn
    · obtain rfl := List.mem_singleton.mp hn
      exact part_leaf rfl (by decide)
    · cases hn
  · obtain rfl := List.mem_singleton.mp hn
    exact part_ofIndex rfl (by decide)

theorem genericSpecialization_holds (hk : k.isPlain = true) :
    Holds H (genericSpecialization k) Open := by
  unfold genericSpecialization
  refine specializationHeader_holds.bind fun header hh => popTypeList_holds.bind fun types ht =>
    .ret (open_branch hk fun c hc => ?_)
  rcases List.mem_append.mp hc with hc | hc
  · exact (hh c hc).child
  · obtain ⟨t, htm, rfl⟩ := List.mem_map.mp hc
    exact (open_branch rfl (by simpa using (ht.2 t htm).1.child)).child

theorem partialSpecialization_holds (hk : k.isPlain = true) :
    Holds H (partialSpecialization k) Open := by
  unfold partialSpecialization
  refine specializationHeader_holds.bind fun header hh =>
    (aroundType_holds rfl (by decide)).bind fun p hp => .ret (open_branch hk fun c hc => ?_)
  rcases List.mem_append.mp hc with hc | hc
  · exact (hh c hc).child
  · obtain rfl := List.mem_singleton.mp hc
    exact hp.child

theorem functionSpecialization_holds : Holds H functionSpecialization Open := by
  have hend (header params result : List Node) (hh : ∀ n ∈ header, n.Part)
      (hp : ∀ p ∈ params, IsParam p) (hr : ∀ p ∈ result, IsParam p) : Holds H
      (popParamPayloads params.reverse [] >>= fun params =>
        pure (branch .functionSignatureSpecialization (header ++ params ++ result))) Open := by
    refine (popParamPayloads_holds (by simpa using hp) (by simp)).bind fun params hp =>
      .ret (open_branch rfl fun c hc => ?_)
    simp only [List.mem_append] at hc
    rcases hc with (hc | hc) | hc
    · exact (hh c hc).child
    · exact (hp c hc).child
    · exact (hr c hc).child
  unfold functionSpecialization
  refine specializationHeader_holds.bind fun header hh =>
    (paramNode_holds (.inl rfl)).manyUntil.bind fun params hp => Keeps.nextIf.bind fun _ _ => ?_
  dsimp only
  refine .ite (fun _ => hend header params [] hh hp (by simp)) fun _ => ?_
  exact (paramNode_holds (.inr rfl)).bind fun result hr =>
    hend header params [result] hh hp (by simpa using hr)

/-! ## Derivatives -/

theorem derivativeKind_holds : Holds H derivativeKind Part := by
  unfold derivativeKind
  refine Keeps.nextChar.bind fun c _ => Keeps.require.bind fun _ hc => .ret ?_
  refine part_ofIndex ?_ (by decide)
  unfold isDerivativeCode at hc
  split at hc
  case h_5 => cases hc
  all_goals rfl

theorem indexSubset_holds : Holds H indexSubset Part :=
  Keeps.takeWhile.bind fun _ _ => Keeps.require.bind fun _ _ => .ret (part_ofText rfl (by decide))

theorem parametersAndResults_holds :
    Holds H parametersAndResults fun ns => ∀ n ∈ ns, n.Part :=
  indexSubset_holds.bind fun _ h1 => Keeps.expect.bind fun _ _ => indexSubset_holds.bind
    fun _ h2 => Keeps.expect.bind fun _ _ => .ret (by simpa using ⟨h1, h2⟩)

theorem derivative_holds (hk : k.isPlain = true) : Holds H (derivative k) Open := by
  unfold derivative
  refine popAll_holds.bind fun base hb => derivativeKind_holds.bind fun kind hd =>
    parametersAndResults_holds.bind fun subsets hs => .ret (open_branch hk fun c hc => ?_)
  simp only [List.mem_append, List.mem_cons] at hc
  rcases hc with hc | rfl | hc
  · exact (hb c hc).child
  · exact hd.child
  · exact (hs c hc).child

/-- The subsets of parameters are leaves behind the base. -/
theorem subsetParametersThunk_holds : Holds H subsetParametersThunk Open := by
  unfold subsetParametersThunk
  refine popAll_holds.bind fun base hb => derivativeKind_holds.bind fun kind hd =>
    parametersAndResults_holds.bind fun subsets hs => indexSubset_holds.bind fun target ht =>
    Keeps.expect.bind fun _ _ => .ret (open_branch rfl fun c hc => ?_)
  simp only [List.mem_append, List.mem_cons, List.not_mem_nil, or_false] at hc
  rcases hc with (hc | rfl | hc) | rfl
  · exact (hb c hc).child
  · exact hd.child
  · exact (hs c hc).child
  · exact ht.child

theorem selfReorderingThunk_holds : Holds H selfReorderingThunk Open := by
  unfold selfReorderingThunk
  refine popSignature_holds.bind fun signature hs => popType_holds.bind fun target ht =>
    popType_holds.bind fun source hsrc => derivativeKind_holds.bind fun kind hd =>
    .ret (open_branch rfl fun c hc => ?_)
  simp only [List.mem_append, List.mem_cons, List.not_mem_nil, or_false, Option.mem_toList] at hc
  rcases hc with ((rfl | rfl) | hc) | rfl
  · exact hsrc.1.child
  · exact ht.1.child
  · exact (hs c hc).child
  · exact hd.child

/-- The tag of a differentiability witness is the first child of kind `index`. -/
theorem witnessFits_append {base rest : List Node} {tag : Node} (hb : ∀ n ∈ base, n.Part)
    (hk : tag.kind = .index) (ht : tag.payload.isDifferentiable = true)
    (hr : ∀ n ∈ rest, n.Part) : witnessFits (base ++ tag :: rest) = true := by
  have hdrop : (base ++ tag :: rest).dropWhile (·.kind != .index) = tag :: rest := by
    rw [List.dropWhile_append_of_pos fun n hn => by simpa using (hb n hn).ne_index,
      List.dropWhile_cons_of_neg (by simp [hk])]
  unfold witnessFits
  rw [hdrop]
  dsimp only
  rw [ht, all_not_isTag fun n hn => (hr n hn).child]
  rfl

/-- The tag is the first index, since the parts that are taken from the stack are none. -/
theorem differentiabilityWitness_holds : Holds H differentiabilityWitness Part := by
  unfold differentiabilityWitness
  refine popSignature_holds.bind fun signature hs => popAll_holds.bind fun base hb =>
    Keeps.nextChar.bind fun _ _ => Keeps.ofOption.bind fun d hd =>
    parametersAndResults_holds.bind fun subsets hsub => .ret ?_
  have hpayload := isDifferentiable_ofCode? hd
  have hrest : ∀ n ∈ subsets ++ signature.toList, n.Part := by
    intro n hn
    rcases List.mem_append.mp hn with hn | hn
    · exact hsub n hn
    · exact (hs n (by simpa using hn)).part
  have hchild : ∀ c ∈ base ++ ofPayload .index (.differentiability d) ::
      (subsets ++ signature.toList), c.Formed ∧ c.kind ≠ .labelList := by
    intro c hc
    simp only [List.mem_append (s := base), List.mem_cons] at hc
    rcases hc with hc | rfl | hc
    · exact ⟨(hb c hc).formed, (hb c hc).ne_labelList⟩
    · exact ⟨formed_ofPayload (by simp [Kind.accepts, hpayload]) rfl, by simp [ofPayload]⟩
    · exact ⟨(hrest c hc).formed, (hrest c hc).ne_labelList⟩
  rw [List.append_assoc, List.cons_append]
  exact ⟨formed_branch rfl (witnessFits_append hb rfl hpayload hrest)
    (framed_of_isLoose rfl fun c hc => (hchild c hc).2) fun c hc => (hchild c hc).1,
    by simp [branch], by simp [branch]⟩

/-! ## Metadata and witnesses -/

theorem contextDescriptor_holds : Holds H contextDescriptor Open := by
  unfold contextDescriptor
  refine Keeps.nextChar.bind fun c _ => ?_
  split
  · exact aroundContext_holds rfl
  · exact popModule_holds.bind fun _ h => .ret (open_branch rfl (by simpa using h.child))
  · exact pop_holds.bind fun _ hd => popContext_holds.bind fun _ hc =>
      .ret (open_branch rfl (by simpa using ⟨hd.child, hc.child⟩))
  · exact aroundContext_holds rfl
  · exact .fail

theorem metadata_holds : Holds H metadata Open := by
  unfold metadata
  refine Keeps.nextChar.bind fun c _ => ?_
  split
  case h_6 =>
    exact popBindable_holds.bind fun _ h => .ret (open_branch rfl (by simpa using h.1.child))
  all_goals
    first
    | with_reducible refine aroundType_holds ?_ ?_
    | with_reducible refine aroundConformance_holds ?_
    | with_reducible refine aroundNode_holds ?_
    | with_reducible refine aroundProtocol_holds ?_
    | with_reducible refine aroundEntity_holds ?_
    | with_reducible exact contextDescriptor_holds
    | exact .fail
  all_goals first | rfl | decide

theorem valueWitness_holds : Holds H valueWitness Part := by
  unfold valueWitness
  exact Keeps.nextByte.bind fun _ _ => Keeps.nextByte.bind fun _ _ =>
    Keeps.ofOption.bind fun _ _ => popType_holds.bind fun _ ht => .ret (part_valueWitness ht.1)

theorem fieldOffset_holds : Holds H fieldOffset Open := by
  have hend (d : Directness) : Holds H (popEntity >>= fun entity =>
      pure (branch .fieldOffset [ofPayload .directness (.directness d), entity])) Open :=
    popEntity_holds.bind fun _ he => .ret (open_branch rfl (by
      simpa using ⟨(part_ofPayload rfl (by decide)).child, he.child⟩))
  unfold fieldOffset
  refine Keeps.nextChar.bind fun c _ => ?_
  dsimp only
  split
  · exact hend .direct
  · exact hend .indirect
  · exact .fail

theorem lazyWitnessTable_holds (hk : k.isPlain = true) : Holds H (lazyWitnessTable k) Open :=
  popConformance_holds.bind fun _ hc => popType_holds.bind fun _ ht =>
    .ret (open_branch hk (by simpa using ⟨ht.1.child, hc.child⟩))

theorem outlined_holds (hk : k.isPlain = true) : Holds H (outlined k) Open :=
  popSignature_holds.bind fun _ hs => popType_holds.bind fun _ ht =>
    .ret (open_branch hk (by simpa using ⟨ht.1.child, fun s h => (hs s h).child⟩))

theorem outlinedOperation_holds : Holds H outlinedOperation Open := by
  unfold outlinedOperation
  refine Keeps.nextChar.bind fun c _ => ?_
  split
  case h_10 => exact .fail
  all_goals exact outlined_holds rfl

theorem popMarkedNames_holds (n : Nat) {later : List Node} (h : ∀ a ∈ later, a.Part) :
    Holds H (popMarkedNames n later) fun names => ∀ a ∈ names, a.Part := by
  induction n generalizing later with
  | zero => exact .ret h
  | succ n ih =>
    rw [popMarkedNames]
    refine popMarker_holds.bind fun _ _ => .ite (fun _ => ?_) fun _ => .ret h
    exact popDeclName_holds.bind fun name hn => ih (by simpa using ⟨hn, h⟩)

theorem onceInitialization_holds (hk : k.isPlain = true) : Holds H (onceInitialization k) Open := by
  unfold onceInitialization
  refine stackSize_holds.bind fun _ _ => (popMarkedNames_holds _ (by simp)).bind fun names hn =>
    popContext_holds.bind fun _ hc => .ret (open_branch hk ?_)
  have hlist : (branch .globalVariableOnceDeclList names).Open :=
    open_branch rfl fun a h => (hn a h).child
  simpa using ⟨hc.child, hlist.child⟩

theorem witness_holds : Holds H witness Part := by
  unfold witness
  refine Keeps.nextChar.bind fun c _ => ?_
  split
  case h_1 => exact Holds.part (aroundEntity_holds rfl)
  case h_2 => exact Holds.part (aroundType_holds rfl (by decide))
  case h_3 => exact Holds.part fieldOffset_holds
  case h_4 => exact Holds.part (aroundProtocol_holds rfl)
  case h_10 | h_11 => exact Holds.part (lazyWitnessTable_holds rfl)
  case h_13 =>
    exact Holds.part (popDeclName_holds.bind fun _ hn => popConformance_holds.bind fun _ hc =>
      .ret (open_branch rfl (by simpa using ⟨hc.child, hn.child⟩)))
  case h_14 =>
    exact Holds.part (popType_holds.bind fun _ hp => popAssociatedTypePath_holds.bind fun _ ha =>
      popConformance_holds.bind fun _ hc =>
      .ret (open_branch rfl (by simpa using ⟨hc.child, ha.child, hp.1.child⟩)))
  case h_15 =>
    exact Holds.part (popType_holds.bind fun _ hp => popConformance_holds.bind fun _ hc =>
      .ret (open_branch rfl (by simpa using ⟨hc.child, hp.1.child⟩)))
  case h_16 => exact Holds.part outlinedOperation_holds
  case h_17 | h_18 => exact Holds.part (onceInitialization_holds rfl)
  case h_19 => exact differentiabilityWitness_holds
  case h_20 => exact .fail
  all_goals exact Holds.part (aroundConformance_holds rfl)

/-! ## Thunks -/

theorem serializedMark_part {serialized : Bool} {n : Node} (h : n ∈ serializedMark serialized) :
    n.Part := by
  unfold serializedMark at h
  split at h
  · obtain rfl := List.mem_singleton.mp h
    exact part_leaf rfl (by decide)
  · cases h

/-- The types down to the first node that is none, and that node. -/
theorem popTypesAndBase_holds (n : Nat) {types : List Node} (h : ∀ t ∈ types, t.Part) :
    Holds H (popTypesAndBase n types) fun (types, base) => (∀ t ∈ types, t.Part) ∧ base.Part := by
  induction n generalizing types with
  | zero => exact .fail
  | succ n ih =>
    rw [popTypesAndBase]
    exact pop_holds.bind fun next hn =>
      .ite (fun _ => ih (by simpa using ⟨hn, h⟩)) fun _ => .ret ⟨h, hn⟩

theorem keyPathAccessor_holds (hk : k.isPlain = true) : Holds H (keyPathAccessor k) Open := by
  have hend (front types : List Node) (serialized : Bool) (hf : ∀ n ∈ front, n.Part)
      (ht : ∀ n ∈ types, n.Part) :
      (branch k (front ++ types ++ serializedMark serialized)).Open := by
    refine open_branch hk fun c hc => ?_
    simp only [List.mem_append] at hc
    rcases hc with (hc | hc) | hc
    · exact (hf c hc).child
    · exact (ht c hc).child
    · exact (serializedMark_part hc).child
  unfold keyPathAccessor
  refine Keeps.nextIf.bind fun serialized _ => popType_holds.bind fun t ht =>
    stackSize_holds.bind fun _ _ =>
    (popTypesAndBase_holds _ (by simpa using ht.1.part)).bind ?_
  rintro ⟨types, base⟩ ⟨htypes, hb⟩
  dsimp only
  refine .ite (fun _ => pop_holds.bind fun first hf => .ret ?_) fun _ => .ret ?_
  · exact hend [first, base] types serialized (by simpa using ⟨hf, hb⟩) htypes
  · exact hend [base] types serialized (by simpa using hb) htypes

/-- The types of a key path's hash, which are all that is left below its signature. -/
theorem keyPathTypes_holds (hk : k.isPlain = true) (signature last : List Node)
    (serialized : Bool) (hs : ∀ n ∈ signature, n.Part) (hl : ∀ n ∈ last, n.Part) :
    Holds H (popRun (· == .type) >>= fun types =>
      attempt pop >>= fun m =>
        match m with
        | some _ => failure
        | none =>
          pure (branch k (types ++ last ++ signature ++ serializedMark serialized))) Open := by
  refine popRun_holds.bind fun types ht => pop_holds.attempt.bind fun m _ => ?_
  cases m with
  | some _ => exact .fail
  | none =>
    refine .ret (open_branch hk fun c hc => ?_)
    simp only [List.mem_append] at hc
    rcases hc with ((hc | hc) | hc) | hc
    · exact (ht c hc).1.child
    · exact (hl c hc).child
    · exact (hs c hc).child
    · exact (serializedMark_part hc).child

theorem keyPathHash_holds (hk : k.isPlain = true) : Holds H (keyPathHash k) Open := by
  unfold keyPathHash
  refine Keeps.nextIf.bind fun serialized _ => pop_holds.bind fun first hf => ?_
  dsimp only
  split
  · exact keyPathTypes_holds hk [first] [] serialized (by simpa using hf) (by simp)
  · exact keyPathTypes_holds hk [] [first] serialized (by simp) (by simpa using hf)
  · exact .fail

theorem bridgedMethod_holds : Holds H bridgedMethod Part := by
  have hargument : Holds H bridgedArgument fun _ => True :=
    Keeps.nextChar.bind fun _ _ => Keeps.require.bind fun _ _ => .ret trivial
  unfold bridgedMethod
  refine Keeps.nextIf.bind fun _ _ => ?_
  dsimp only
  refine .ite (fun _ => .fail) fun _ => ?_
  exact Keeps.nextChar.bind fun _ _ => Keeps.require.bind fun _ _ =>
    hargument.manyUntil.bind fun _ _ => .ret (part_ofText rfl (by decide))

theorem resumeFunction_holds (hk : k.isPlain = true) : Holds H (resumeFunction k) Open :=
  numberNode_holds.bind fun _ hi => .ret (open_branch hk (by simpa using hi.1.child))

/-- The number of a completion handler comes third. -/
theorem completionHandler_holds (hk : k.isFree = true) (hl : k.looksThrough = false)
    (hn : k.needs = [(2, .index)]) : Holds H (completionHandler k) Open := by
  unfold completionHandler
  refine numberNode_holds.bind fun mode hm => popSignature_holds.bind fun signature hs =>
    popType_holds.bind fun result hr => popType_holds.bind fun implementation hi =>
    .ret (open_branch_of_needs hk hl ?_ ?_)
  · simpa using ⟨hi.1.child, hr.1.child, hm.1.child, fun s h => (hs s h).child⟩
  · simpa [hn, meets] using hm.2

theorem reabstraction_holds (hk : k.isPlain = true) (types : Nat) :
    Holds H (reabstraction k types) Open := by
  unfold reabstraction
  refine popSignature_holds.bind fun signature hs =>
    (Keeps.mapM _ fun _ _ => popType_holds).bind fun ts hts => .ret (open_branch hk fun c hc => ?_)
  rcases List.mem_append.mp hc with hc | hc
  · exact (hs c (by simpa using hc)).child
  · exact (hts c hc).1.child

theorem associatedRequirement_holds (hk : k.isPlain = true) :
    Holds H (associatedRequirement k) Open :=
  popProtocol_holds.bind fun _ hr => popAssociatedTypePath_holds.bind fun _ ha =>
    popType_holds.bind fun _ hp =>
    .ret (open_branch hk (by simpa using ⟨hp.1.child, ha.child, hr.child⟩))

theorem derivativeThunk_holds : Holds H derivativeThunk Open := by
  unfold derivativeThunk
  refine Keeps.look.bind fun m _ => ?_
  split
  · exact .fail
  · exact Keeps.nextByte.bind fun _ _ => subsetParametersThunk_holds
  · exact Keeps.nextByte.bind fun _ _ => selfReorderingThunk_holds
  · exact Keeps.nextByte.bind fun _ _ => derivative_holds rfl
  · exact derivative_holds rfl

theorem thunk_holds : Holds H thunk Part := by
  unfold thunk
  refine Keeps.nextChar.bind fun c _ => ?_
  split
  case h_14 | h_15 => exact Holds.part (resumeFunction_holds rfl)
  case h_16 => exact Holds.part (aroundType_holds rfl (by decide))
  case h_17 | h_18 => exact Holds.part (completionHandler_holds rfl rfl rfl)
  case h_19 =>
    exact Holds.part (popEntity_holds.bind fun _ hb => popEntity_holds.bind fun _ hd =>
      .ret (open_branch rfl (by simpa using ⟨hd.child, hb.child⟩)))
  case h_20 =>
    exact Holds.part (popEntity_holds.bind fun _ he => popConformance_holds.bind fun _ hc =>
      .ret (open_branch rfl (by simpa using ⟨hc.child, he.child⟩)))
  case h_22 | h_23 | h_24 => exact Holds.part (reabstraction_holds rfl _)
  case h_25 | h_26 | h_27 | h_28 | h_29 => exact Holds.part (genericSpecialization_holds rfl)
  case h_30 | h_31 => exact Holds.part (partialSpecialization_holds rfl)
  case h_32 => exact Holds.part functionSpecialization_holds
  case h_33 | h_34 => exact Holds.part (keyPathAccessor_holds rfl)
  case h_35 | h_37 =>
    exact Holds.part (popAssociatedTypeName_holds.bind fun _ h =>
      .ret (open_branch rfl (by simpa using h.child)))
  case h_36 => exact Holds.part (aroundProtocol_holds rfl)
  case h_38 | h_39 => exact Holds.part (associatedRequirement_holds rfl)
  case h_40 =>
    exact Holds.part (popProtocol_holds.bind fun _ hr => popType_holds.bind fun _ hp =>
      .ret (open_branch rfl (by simpa using ⟨hp.1.child, hr.child⟩)))
  case h_41 | h_42 => exact Holds.part (keyPathHash_holds rfl)
  case h_43 => exact Keeps.index.bind fun _ _ => .ret (part_ofIndex rfl (by decide))
  case h_44 => exact bridgedMethod_holds
  case h_46 => exact Holds.part derivativeThunk_holds
  case h_47 => exact .fail
  case h_1 | h_2 | h_3 | h_21 => exact Holds.part (aroundEntity_holds rfl)
  all_goals exact holds_leaf rfl (by decide)

end SwiftMangling.Current
