import SwiftMangling.Proofs.Legacy.Type
import SwiftMangling.Proofs.Legacy.Entity

/-!
# Trees of the legacy scheme

Every production of the legacy scheme keeps to the budget, by induction on the number of productions
inside of each other (`recursive_parse`). The tree of a whole symbol is then sound, and no higher
than three times the length of the symbol (`formed_of_decodeSymbol`).
-/

namespace SwiftMangling.Legacy

open Decoding Node

variable {M h k m : Nat}

/-! ## Specializations -/

theorem genericParam_reads : Reads 3 (fun n => n.height - 0) Open genericParam := by
  refine fun M h => type_reads.bind fun t ht => (manyUntil_reads 0 conformance_reads).bind
    fun cs hcs => .ret (open_branch rfl fun c hc => ?_) (by omega) (by simp; omega)
  rcases List.mem_cons.mp hc with rfl | hc
  · exact ht.1.child
  · exact (hcs c hc).child

theorem terminatedIdentifier_reads :
    Reads 3 (fun _ => 0) (fun _ => True) terminatedIdentifier :=
  fun M h => identifierText_reads.bind fun _ _ => (Advances.expect '_').always fun _ =>
    .ret trivial (by omega) (by omega)

theorem terminatedText_reads : Reads 3 (fun _ => 0) (fun _ => True) terminatedText :=
  fun M h => (Advances.takeBytesWhile _).never fun _ => (Advances.expect '_').always fun _ =>
    Advances.ofOption.runs (by omega)

/-- A change is a mark and texts, all of them leaves. -/
theorem top_changeNodes_le (c : ParamChange) (payloads : List String) :
    top (changeNodes c payloads) ≤ 1 := by
  have hmap : top (payloads.map paramPayload) ≤ 1 := by
    induction payloads with
    | nil => simp
    | cons s ss ih =>
      rw [List.map_cons, top_cons]
      exact Nat.max_le.mpr ⟨Nat.le_refl 1, ih⟩
  rw [changeNodes, top_cons]
  exact Nat.max_le.mpr ⟨Nat.le_refl 1, hmap⟩

/-- What happened to a parameter is read by at least one byte and fits into a parameter. -/
abbrev ReadsChange (d : Decoder (List Node)) : Prop :=
  Reads 3 (fun ns => top ns + 1) ParamParts d

theorem changeNodes_runs {c : ParamChange} {payloads : List String} (hm : h + 3 ≤ m + 3 * k) :
    Runs M h k m (pure (changeNodes c payloads))
      (Left M h 3 (fun ns => top ns + 1) ParamParts) := by
  have := top_changeNodes_le c payloads
  exact .ret (paramParts_ofChange c payloads) hm (by omega)

theorem propagatedConstant_reads : ReadsChange propagatedConstant := by
  intro M h
  unfold propagatedConstant
  refine (Advances.nextIfText (by decide)).ifTrue ?_ <| (Advances.nextIf 'g').ifTrue ?_ <|
    (Advances.nextIf 'i').ifTrue ?_ <| (Advances.nextIfText (by decide)).ifTrue ?_ <|
    (Advances.nextIfText (by decide)).ifTrue ?_ .fail
  -- a function and a global have a name, a number has its text, and a string its encoding as well
  iterate 2
    exact terminatedIdentifier_reads.bind fun _ _ => changeNodes_runs (by omega)
  iterate 2
    exact terminatedText_reads.bind fun _ _ => changeNodes_runs (by omega)
  · refine (Advances.nextIf '0').ifTrue ?_ ((Advances.expect '1').always fun _ => ?_)
    all_goals
      exact (Advances.expect 'v').always fun _ => terminatedIdentifier_reads.bind fun _ _ =>
        changeNodes_runs (by omega)

/-- The types that a closure takes, as many as there are. -/
theorem closureTypes_reads (n : Nat) :
    Reads 0 top (fun ts => ∀ t ∈ ts, t.Part) (closureTypes n) := by
  induction n with
  | zero => exact fun _ _ => .ret (by simp) (by omega) (by simp)
  | succ n ih =>
    intro M h
    rw [closureTypes]
    refine Advances.look.never fun _ => ?_
    split
    · exact .ret (by simp) (by omega) (by simp)
    · refine type_reads.attempt (fun t ht => ih.bind fun ts hts => ?_) ?_
      · exact .ret (by simpa using ⟨ht.1.part, hts⟩) (by omega) (by simp)
      · exact .ret (by simp) (by omega) (by simp)

theorem propagatedClosure_reads : ReadsChange propagatedClosure := by
  intro M h
  unfold propagatedClosure
  refine identifierText_reads.bind fun name _ => Advances.look.never fun n =>
    (closureTypes_reads _).bind fun ts hts => (Advances.expect '_').always fun _ => ?_
  have htop := top_changeNodes_le .closure [name]
  refine .ret ⟨fun c hc => ?_, rfl⟩ (by omega) (by simp; omega)
  rcases List.mem_append.mp hc with hc | hc
  · exact (paramParts_ofChange .closure [name]).1 c hc
  · exact hts c hc

theorem paramOptions_reads (codes : List (Char × ParamOption)) :
    Reads 0 (fun _ => 0) (fun _ => True) (paramOptions codes) := by
  induction codes with
  | nil => exact fun _ _ => .ret trivial (by omega) (by omega)
  | cons code codes ih =>
    exact fun M h => ((Advances.nextIf _).weaken (S := fun _ => False) (by simp)).never fun _ =>
      ih.bind fun _ _ => .ret trivial (by omega) (by omega)

theorem optionParam_reads : ReadsChange optionParam := by
  intro M h
  unfold optionParam
  refine (paramOptions_reads _).bind fun options _ => (Advances.expect '_').always fun _ => ?_
  cases options with
  | nil => exact .fail
  | cons o os =>
    exact Advances.require.never fun _ =>
      .ret (paramParts_ofOptions o os) (by omega) (by simp [paramKind])

theorem paramChange_reads : ReadsChange paramChange := by
  intro M h
  have hweaken {d : Decoder (List Node)} (hd : ReadsChange d) :
      Runs M h 1 h d (Left M h 3 (fun ns => top ns + 1) ParamParts) :=
    Runs.weaken (hd M h) (by omega) (by omega)
  unfold paramChange
  refine (Advances.nextIfText (by decide)).ifTrue (.ret ⟨by simp, rfl⟩ (by omega) (by simp)) <|
    (Advances.nextIfText (by decide)).ifTrue (hweaken propagatedConstant_reads) <|
    (Advances.nextIfText (by decide)).ifTrue (hweaken propagatedClosure_reads) <|
    (Advances.nextIfText (by decide)).ifTrue (changeNodes_runs (by omega)) <|
    (Advances.nextIfText (by decide)).ifTrue (changeNodes_runs (by omega)) <|
    (Advances.nextIfText (by decide)).ifTrue (changeNodes_runs (by omega)) ?_
  exact optionParam_reads M h

theorem signatureParam_reads : Reads 3 (fun n => n.height - 0) Open signatureParam :=
  fun M h => paramChange_reads.bind fun _ hcs =>
    .ret (isParam_branch (.inl rfl) hcs).toOpen (by omega) (by simp)

theorem specialization_reads : Reads 3 Node.height Open specialization := by
  intro M h
  -- the letter of the kind pays for the node, and the list pays for its parameters
  have hrest {kind : Kind} (hk : kind.isPlain = true) : Runs M h 1 h (do
      let serialized ← nextIf 'q'
      let pass ← nextChar
      require ('0' ≤ pass)
      let param := if kind == .functionSignatureSpecialization then signatureParam else genericParam
      let params ← manyUntil '_' param
      return .branch kind
        ((if serialized then [.leaf .isSerialized] else []) ++
          .ofIndex .specializationPassID (UInt64.ofNat (pass.toNat - '0'.toNat)) :: params))
      (Left M h 3 Node.height Open) := by
    have hparam : Reads 3 (fun n => n.height - 0) Open
        (if kind == .functionSignatureSpecialization then signatureParam else genericParam) := by
      split
      · exact signatureParam_reads
      · exact genericParam_reads
    refine ((Advances.nextIf 'q').weaken (S := fun _ => False) (by simp)).never fun serialized =>
      Advances.nextChar.always fun pass => Advances.require.never fun _ =>
      (manyUntil_reads 0 hparam).bind fun params hparams => ?_
    have hmark : (leaf .isSerialized).Part := part_leaf rfl (by decide)
    have hpass (i : UInt64) : (ofIndex .specializationPassID i).Part :=
      part_ofIndex rfl (by decide)
    refine .ret (open_branch hk ?_) (by omega) ?_
    · simp only [List.forall_mem_append, List.forall_mem_cons]
      refine ⟨?_, (hpass _).child, fun c hc => (hparams c hc).child⟩
      cases serialized with
      | true => simpa using hmark.child
      | false => simp
    · cases serialized <;> simp <;> omega
  unfold specialization
  refine Advances.nextChar.always fun c => ?_
  split
  · exact hrest rfl
  · exact hrest rfl
  · exact hrest rfl
  · exact .fail

/-- One header after the other, each of which pays for its own height. -/
theorem specializations_reads (n : Nat) :
    Reads 3 top (fun ns => ∀ a ∈ ns, a.Open) (specializations n) := by
  induction n with
  | zero => exact fun _ _ => .fail
  | succ n ih =>
    intro M h
    rw [specializations]
    refine specialization_reads.bind fun s hs => Runs.clear <|
      (Advances.nextIfText (by decide)).ifTrue (ih.bind fun ss hss => ?_) ?_
    · exact .ret (by simpa using ⟨hs, hss⟩) (by omega) (by simp; omega)
    · exact .ret (by simpa using hs) (by omega) (by simp)

/-! ## Metadata, witnesses and thunks -/

theorem metadata_follows : Follows Open metadata := by
  -- no metadata needs anything of its type
  have hkind {k : Kind} {c : Char} (h : metadataKind? c = some k) :
      k.isFree = true ∧ ∀ x ∈ k.needs, x.1 ≠ 0 := by
    unfold metadataKind? at h
    split at h
    case h_7 => cases h
    all_goals
      cases h
      exact ⟨rfl, by decide⟩
  unfold metadata
  refine .read Advances.look fun _ => .read Advances.ofOption fun c => ?_
  split
  · rename_i k hk
    exact .read Advances.nextByte fun _ => aroundType_follows (hkind hk).1 (hkind hk).2
  · split
    · exact .read Advances.nextByte fun _ M h => protocol_reads.bind fun p hp =>
        .ret (open_branch rfl (by simpa using hp.1.child)) (by omega) (by simp; omega)
    · exact aroundType_follows rfl (by decide)

theorem fieldOffset_follows : Follows Open fieldOffset := by
  have hrest (d : Directness) : Follows Open (entity >>= fun n =>
      pure (branch .fieldOffset [ofPayload .directness (.directness d), n])) := by
    refine fun M h => entity_reads.bind fun n hn =>
      .ret (open_branch rfl ?_) (by omega) (by simp; omega)
    have hd : (ofPayload .directness (.directness d)).Part := part_ofPayload rfl (by decide)
    simpa using ⟨hd.child, hn.child⟩
  unfold fieldOffset
  refine .read Advances.nextChar fun c => ?_
  split
  · exact hrest .direct
  · exact hrest .indirect
  · exact .fail

theorem lazyWitnessTable_follows {k : Kind} (hk : k.isPlain = true) :
    Follows Open (lazyWitnessTable k) :=
  fun M h => type_reads.bind fun t ht => conformance_reads.bind fun c hc =>
    .ret (open_branch hk (by simpa using ⟨ht.1.child, hc.child⟩)) (by omega) (by simp; omega)

theorem witness_follows : Follows Open witness := by
  refine .read Advances.nextChar fun c => ?_
  split
  · exact aroundType_follows rfl (by decide)
  · exact fieldOffset_follows
  · exact aroundConformance_follows rfl
  · exact aroundConformance_follows rfl
  · exact aroundConformance_follows rfl
  · exact lazyWitnessTable_follows rfl
  · exact lazyWitnessTable_follows rfl
  · exact aroundConformance_follows rfl
  -- an accessor of an associated type, and one of its conformance to a protocol
  · exact fun M h => conformance_reads.bind fun c hc => declName_reads.bind fun n hn =>
      .ret (open_branch rfl (by simpa using ⟨hc.child, hn.child⟩)) (by omega) (by simp; omega)
  · exact fun M h => conformance_reads.bind fun c hc => declName_reads.bind fun n hn =>
      protocol_reads.bind fun p hp =>
      .ret (open_branch rfl (by simpa using ⟨hc.child, hn.child, hp.1.child⟩)) (by omega)
        (by simp; omega)
  · exact .fail

theorem valueWitness_follows : Follows Node.Part valueWitness :=
  .read Advances.nextByte fun _ => .read Advances.nextByte fun _ => .read Advances.ofOption
    fun _ M h => type_reads.bind fun _ ht =>
    .ret (part_valueWitness ht.1) (by omega) (by simp; omega)

/-- Two types between which a thunk converts, with a signature in front if they are generic. -/
theorem reabstraction_follows {k : Kind} (hk : k.isPlain = true) :
    Follows Open (reabstraction k) := by
  intro M h
  -- the signature is held while the two types are read
  have hrest {k' m : Nat} {signature : List Node} (hs : ∀ n ∈ signature, n.Child) (hk' : 1 ≤ k')
      (hh : h ≤ m) (htop : top signature ≤ m) : Runs M h k' m (do
        let source ← type
        let target ← type
        return .branch k (signature ++ [source, target]))
        (Left M h 3 (fun n => n.height + 1) Open) := by
    refine type_reads.bind fun source hsource => type_reads.bind fun target htarget =>
      .ret (open_branch hk ?_) (by omega) (by simp; omega)
    simp only [List.forall_mem_append, List.forall_mem_cons]
    exact ⟨hs, hsource.1.child, htarget.1.child, by simp⟩
  unfold reabstraction
  refine (Advances.nextIf 'G').ifTrue (genericSignature_reads.bind fun s hs => ?_) ?_
  · exact hrest (by simpa using hs.child) (by omega) (by omega) (by simp)
  · exact hrest (by simp) (by omega) (by omega) (by simp)

theorem thunk_follows : Follows Open thunk := by
  refine .read Advances.nextChar fun c => ?_
  split
  · exact reabstraction_follows rfl
  · exact reabstraction_follows rfl
  · exact fun M h => conformance_reads.bind fun c hc => entity_reads.bind fun n hn =>
      .ret (open_branch rfl (by simpa using ⟨hc.child, hn.child⟩)) (by omega) (by simp; omega)
  · exact .fail

/-! ## Whole symbols -/

theorem forwarder_follows : Follows Node.Part forwarder := by
  have hkind (isObjC : Bool) : Kind.isPlain
      (if isObjC then .partialApplyObjCForwarder else .partialApplyForwarder) = true := by
    cases isObjC <;> rfl
  unfold forwarder
  refine .read (Advances.nextIf 'o') fun isObjC => .read (Advances.nextIfText (by decide))
    fun isGiven => ?_
  cases isGiven with
  -- the symbol that is forwarded to is a production of its own
  | true =>
    refine fun M h => (production_reads .global).bind fun n hn => ?_
    have hn : n.Part := hn
    exact .ret (open_branch (hkind isObjC) (by simpa using hn.child)).part (by omega)
      (by simp [slack]; omega)
  | false => exact .ret (open_branch (hkind isObjC) (by simp)).part (by simp)

theorem Follows.part {d : Decoder Node} (hd : Follows Open d) : Follows Node.Part d :=
  fun M h => (hd M h).post fun _ _ hn => ⟨hn.1.part, hn.2⟩

/-- What a symbol stands for, whichever letter it starts with. -/
theorem global_reads : Reads 3 (fun n => n.height + 1) Node.Part global := by
  intro M h
  have hletter {d : Decoder Node} (hd : Follows Node.Part d) :
      Runs M h 1 h d (Left M h 3 (fun n => n.height + 1) Node.Part) :=
    hd M h
  unfold global
  refine (Advances.nextIf 'M').ifTrue (hletter metadata_follows.part) <|
    (Advances.nextIfText (by decide)).ifTrue (hletter forwarder_follows) <|
    (Advances.nextIf 't').ifTrue (hletter (aroundType_follows rfl (by decide)).part) <|
    (Advances.nextIf 'w').ifTrue (hletter valueWitness_follows) <|
    (Advances.nextIf 'W').ifTrue (hletter witness_follows.part) <|
    (Advances.nextIf 'T').ifTrue (hletter thunk_follows.part) ?_
  exact (entity_reads M h).post fun _ _ hn => ⟨hn.1.part, hn.2⟩

/-- Every production builds a sound node within the budget that its bytes give. -/
theorem rule_reads (p : Production) :
    Reads 3 (fun n => n.height + slack p) (Result p) (rule p) := by
  cases p with
  | type => exact typeRule_reads
  | content => exact contentRule_reads
  | context => exact contextRule_reads
  | archetype => exact archetypeRule_reads
  | global => exact global_reads.nested.mono (Nat.le_refl _) (fun _ => Nat.le_succ _) fun _ hn => hn

/-- However deep they are nested, the recursive productions keep to every budget. -/
theorem recursive_parse (n : Nat) : Recursive ⟨parse n⟩ := by
  induction n with
  | zero => exact fun p M h => Triple.fail fun _ hs => hs.failed
  | succ n ih => exact fun p M h => ⟨fun _ s _ hs => (rule_reads p M h).run ⟨parse n⟩ s ih hs⟩

theorem symbolAttribute_reads {codes : List (String × Kind)}
    (h : ∀ c ∈ codes, Utf8.encode c.1 ≠ [] ∧ c.2.accepts .none = true ∧ c.2.standsAlone = true) :
    Reads 0 top (fun ns => ∀ n ∈ ns, n.Child) (symbolAttribute codes) := by
  induction codes with
  | nil => exact fun M h => .ret (by simp) (by omega) (by simp)
  | cons code codes ih =>
    intro M h'
    rw [symbolAttribute]
    obtain ⟨htext, ha, hk⟩ := h code (List.mem_cons_self ..)
    refine (Advances.nextIfText htext).ifTrue ?_
      (ih (fun c hc => h c (List.mem_cons_of_mem _ hc)) M h')
    exact .ret (by simpa using (part_leaf ha hk).child) (by omega) (by simp)

theorem symbol_reads : Reads 0 Node.height (fun n => n.Open ∧ n.kind = .global) symbol := by
  intro M h
  -- a suffix is a leaf, and the prefix pays for the root
  have hend {k m : Nat} {front suffix : List Node} {body : Node} (hf : ∀ n ∈ front, n.Child)
      (hb : body.Part) (hk : 1 ≤ k) (hh : h ≤ m) (hm : max (top front) body.height ≤ m)
      (hs : (∀ n ∈ suffix, n.Child) ∧ top suffix ≤ 1) : Runs M h k m
        (pure (branch .global (front ++ body :: suffix)))
        (Left M h 0 Node.height fun n => n.Open ∧ n.kind = .global) := by
    refine .ret ⟨open_branch rfl ?_, rfl⟩ (by omega) (by simp; omega)
    simp only [List.forall_mem_append, List.forall_mem_cons]
    exact ⟨hf, hb.child, hs.1⟩
  have hbody {k m : Nat} {front : List Node} (hf : ∀ n ∈ front, n.Child) (hk : 1 ≤ k) (hh : h ≤ m)
      (hm : top front ≤ m) : Runs M h k m (do
        let body ← global
        let suffix ←
          if ← atEnd then pure []
          else do pure [.ofText .suffix (Utf8.lossy (← takeRest))]
        return .branch .global (front ++ body :: suffix))
        (Left M h 0 Node.height fun n => n.Open ∧ n.kind = .global) := by
    refine global_reads.bind fun body hb => Advances.look.never fun isEnd => ?_
    cases isEnd with
    | true => exact hend hf hb hk (by omega) (by omega) (by simp)
    | false =>
      have hsuffix (s : String) : (ofText .suffix s).Part := part_ofText rfl (by decide)
      exact Advances.takeRest.never fun bytes =>
        hend hf hb hk (by omega) (by omega) (by simpa using (hsuffix _).child)
  unfold symbol
  refine (Advances.nextIfText (by decide)).ifTrue (Runs.require fun _ => ?_) (Runs.require (by simp))
  refine (Advances.nextIfText (by decide)).ifTrue ?_ ?_
  · refine Advances.look.never fun n => (specializations_reads _).bind fun headers hheaders =>
      (Advances.nextIfText (by decide)).ifTrue (Runs.require fun _ => ?_) (Runs.require (by simp))
    exact hbody (fun n hn => (hheaders n hn).child) (by omega) (by omega) (by omega)
  · have hattributes : ∀ c ∈ attributes,
        Utf8.encode c.1 ≠ [] ∧ c.2.accepts .none = true ∧ c.2.standsAlone = true := by decide
    exact (symbolAttribute_reads hattributes).bind fun front hf =>
      hbody hf (by omega) (by omega) (by omega)

/-- A tree of the legacy scheme is well-formed and no higher than three times the length of its
symbol. -/
theorem formed_of_decodeSymbol {input : List UInt8} {t : Node} (h : decodeSymbol input = some t) :
    t.Formed ∧ t.kind = .global ∧ t.height ≤ 3 * input.length := by
  have hstart : At (3 * input.length) 0 0 0 (State.start input) :=
    ⟨by simp [State.left, State.start, Cursor.ofBytes], by simp [State.start]⟩
  have hrun := (symbol_reads _ 0).run _ _ (recursive_parse (input.length + 1)) hstart
  unfold decodeSymbol run at h
  revert h hrun
  rcases symbol ⟨parse (input.length + 1)⟩ (State.start input) with ⟨_ | n, s⟩
  · intro h _; cases h
  · intro h hn
    obtain rfl := Option.some.inj h
    have := hn.2.held
    exact ⟨hn.1.1.formed, hn.1.2, by omega⟩

/-- A tree of the legacy scheme carries what the rules of the printer take from it. -/
theorem sound_of_decodeSymbol {input : List UInt8} {t : Node} (h : decodeSymbol input = some t) :
    t.Sound True ∧ t.kind = .global ∧ t.height ≤ 3 * input.length := by
  obtain ⟨hformed, hrest⟩ := formed_of_decodeSymbol h
  exact ⟨hformed.sound, hrest⟩

end SwiftMangling.Legacy
