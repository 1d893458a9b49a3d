import SwiftMangling.Proofs.Legacy.Generic

/-!
# Types of the legacy scheme keep to the budget

The letter that starts a type pays for the nodes around its parts. Elements of tuples and parameters
of lowered functions have no letter of their own: each is one level higher than what its bytes pay
for, and the list that it stands in settles the loan for all of them.
-/

namespace SwiftMangling.Legacy

open Decoding Node

variable {M h k m : Nat}

/-! ## Lowered functions -/

theorem convention_reads (r : Role) : Reads 3 (fun n => n.height + 2) Node.Part (convention r) :=
  fun M h => Advances.nextChar.always fun _ => Advances.ofOption.never fun _ =>
    .ret (part_ofText rfl (by decide)) (by omega) (by simp)

/-- The decoder reads marks that are put beside each other. -/
abbrev ReadsMarks (d : Decoder (List Node)) : Prop :=
  Reads 0 top (fun ns => ∀ n ∈ ns, n.Child) d

theorem callingConvention_reads : ReadsMarks callingConvention := by
  intro M h
  unfold callingConvention
  refine (Advances.nextIf 'C').ifTrue ?_ (.ret (by simp) (by omega) (by simp))
  refine Advances.nextChar.always fun _ => Advances.ofOption.never fun s =>
    .ret ?_ (by omega) (by simp)
  have hname : (ofText .implFunctionConventionName s).Part := part_ofText rfl (by decide)
  simpa using (open_branch_of_needs rfl rfl (by simpa using hname.child) rfl).child

theorem attributeIf_reads (c : Char) (s : String) : ReadsMarks (attributeIf c s) := by
  intro M h
  unfold attributeIf
  refine (Advances.nextIf c).ifTrue (.ret ?_ (by omega) (by simp))
    (.ret (by simp) (by omega) (by simp))
  simpa using (part_ofText rfl (by decide)).child

theorem loweredSignature_reads : ReadsMarks loweredSignature := by
  have hend {k : Kind} (hk : k.isPlain = true) (M h : Nat) : Runs M h 1 h
      (signatureOf k >>= fun n => pure [n]) (Left M h 0 top fun ns => ∀ n ∈ ns, n.Child) :=
    (signatureOf_reads hk).bind fun n hn =>
      .ret (by simpa using hn.child) (by omega) (by simp; omega)
  intro M h
  unfold loweredSignature
  exact (Advances.nextIf 'G').ifTrue (hend rfl M h)
    ((Advances.nextIf 'g').ifTrue (hend rfl M h) (.ret (by simp) (by omega) (by simp)))

theorem loweredParameter_reads :
    Reads 3 (fun n => n.height - 1) Node.Open loweredParameter := by
  intro M h
  unfold loweredParameter
  refine (Advances.nextIf 'z').ifTrue .fail ?_
  exact (convention_reads _).bind fun c hc => type_reads.bind fun t ht =>
    .ret (open_branch rfl (by simpa using ⟨hc.child, ht.1.child⟩)) (by omega) (by simp; omega)

theorem loweredResult_reads : Reads 3 (fun n => n.height - 1) Node.Open loweredResult := by
  intro M h
  unfold loweredResult
  refine ((Advances.nextIf 'z').weaken (S := fun _ => False) (by simp)).never fun isError =>
    (convention_reads _).bind fun c hc => type_reads.bind fun t ht =>
    .ret (open_branch ?_ (by simpa using ⟨hc.child, ht.1.child⟩)) (by omega) (by simp; omega)
  cases isError <;> rfl

theorem loweredFunctionType_follows : Follows Open loweredFunctionType := by
  intro M h
  -- the marks are held while the lists are read
  have hlists {k m : Nat} {marks : List Node} (hmarks : ∀ n ∈ marks, n.Child) (hk : 1 ≤ k)
      (hh : h ≤ m) (hm : top marks ≤ m) : Runs M h k m (do
        expect '_'
        let parameters ← manyUntil '_' loweredParameter
        let results ← manyUntil '_' loweredResult
        return .branch .implFunctionType (marks ++ parameters ++ results))
        (Left M h 3 (fun n => n.height + 1) Open) := by
    refine (Advances.expect '_').always fun _ =>
      (manyUntil_reads 1 loweredParameter_reads).bind fun parameters hparameters =>
      (manyUntil_reads 1 loweredResult_reads).bind fun results hresults =>
      .ret (open_branch rfl ?_) (by omega) (by simp; omega)
    simp only [List.forall_mem_append]
    exact ⟨⟨hmarks, fun c hc => (hparameters c hc).child⟩, fun c hc => (hresults c hc).child⟩
  have hmarks {k m : Nat} {callee : Node} (hcallee : callee.Part) (hk : 1 ≤ k) (hh : h ≤ m)
      (hm : callee.height ≤ m) : Runs M h k m (do
        let calling ← callingConvention
        let sendable ← attributeIf 'h' "@Sendable"
        let async ← attributeIf 'H' "@async"
        let signature ← loweredSignature
        expect '_'
        let parameters ← manyUntil '_' loweredParameter
        let results ← manyUntil '_' loweredResult
        return .branch .implFunctionType
          (callee :: calling ++ sendable ++ async ++ signature ++ parameters ++ results))
        (Left M h 3 (fun n => n.height + 1) Open) := by
    refine callingConvention_reads.bind fun calling hcalling =>
      (attributeIf_reads _ _).bind fun sendable hsendable =>
      (attributeIf_reads _ _).bind fun async hasync =>
      loweredSignature_reads.bind fun signature hsignature =>
      hlists ?_ hk (by omega) (by simp; omega)
    simp only [List.forall_mem_append, List.forall_mem_cons]
    exact ⟨⟨⟨⟨hcallee.child, hcalling⟩, hsendable⟩, hasync⟩, hsignature⟩
  unfold loweredFunctionType
  refine (Advances.nextIf 't').ifTrue ?_ ((convention_reads _).bind fun callee hcallee => ?_)
  · refine Runs.weaken (i := 1) (j := h + 3) ?_ (by omega) (by omega)
    exact hmarks (part_ofText rfl (by decide)) (by omega) (by omega) (by simp)
  · exact hmarks hcallee (by omega) (by omega) (by omega)

/-! ## Built-in types and tuples -/

theorem open_builtin (s : String) : (builtin s).Open :=
  (part_ofText rfl (by decide)).open rfl

theorem builtinSize_advances : Advances (fun _ => True) builtinSize :=
  Advances.natural.seq_first fun _ => (Advances.expect '_').seq_second fun _ => .ret

theorem vectorElement_advances : Advances (fun _ => True) vectorElement := by
  refine Advances.nextChar.seq_first (S := fun _ => False) fun c => ?_
  split
  · exact builtinSize_advances.seq_second fun _ => .ret
  · exact builtinSize_advances.seq_second fun _ => .ret
  · exact .ret
  · exact .fail

theorem builtinType_follows : Follows Open builtinType := by
  have hleaf (s : String) : Follows Open (pure (builtin s)) :=
    .ret (open_builtin s) (by simp [builtin])
  refine (Follows.letter (f := fun c => _) fun c => ?_).follows fun _ => by omega
  split
  case h_3 | h_4 => exact .read builtinSize_advances fun _ => hleaf _
  case h_5 =>
    exact .read Advances.natural fun _ => .read (Advances.expect 'B') fun _ =>
      .read vectorElement_advances fun _ => hleaf _
  case h_11 => exact .fail
  all_goals exact hleaf _

theorem tupleElement_reads :
    Reads 3 (fun n => n.height - 1) (fun n => n.Open ∧ n.kind = .tupleElement) tupleElement := by
  intro M h
  -- the name is held while the type is read
  have hend {m : Nat} {name : List Node} (hname : ∀ n ∈ name, n.Child) (hh : h ≤ m)
      (hm : top name ≤ m) : Runs M h 0 m (type >>= fun t =>
        pure (branch .tupleElement (name ++ [t])))
        (Left M h 3 (fun n => n.height - 1) fun n => n.Open ∧ n.kind = .tupleElement) := by
    refine type_reads.bind fun t ht => .ret ⟨open_unframed rfl rfl fun c hc => ?_, rfl⟩ (by omega)
      (by simp; omega)
    rcases List.mem_append.mp hc with hc | hc
    · exact hname c hc
    · exact (List.mem_singleton.mp hc) ▸ ht.1.child
  unfold tupleElement
  refine Advances.look.never fun c => ?_
  dsimp only
  split
  · exact (identifier_reads (fun _ => rfl) rfl).bind fun n hn =>
      hend (by simpa using hn.child) (by omega) (by simp)
  · exact hend (by simp) (by omega) (by simp)

/-- The marker of a variadic tuple goes into its last element. -/
theorem markLastVariadic_spec {es : List Node} (h : ∀ e ∈ es, e.Open ∧ e.kind = .tupleElement) :
    (∀ e ∈ markLastVariadic es, e.Open ∧ e.kind = .tupleElement) ∧
      top (markLastVariadic es) ≤ max (top es) 2 := by
  unfold markLastVariadic
  split
  · simp
  · rename_i last before hes
    -- the marker goes into the last element only
    have hes : es = before.reverse ++ [last] := by
      rw [← List.reverse_reverse es, hes, List.reverse_cons]
    have hlast := h last (by simp [hes])
    have hmark : (leaf .variadicMarker).Part := part_leaf rfl (by decide)
    rw [List.reverse_cons]
    refine ⟨fun e he => ?_, ?_⟩
    · rcases List.mem_append.mp he with he | he
      · exact h e (by simp_all)
      · rw [List.mem_singleton.mp he, kind_insertChild]
        refine ⟨open_insertChild hlast.1 (hlast.2 ▸ rfl) (hlast.2 ▸ rfl) hmark.child fun _ => ?_,
          hlast.2⟩
        rw [List.insertIdx_zero]
        refine framed_of_isUnframed (hlast.2 ▸ rfl)
          (List.forall_mem_cons.mpr ⟨hmark.ne_labelList, ?_⟩)
        exact fun c hc => hlast.1.formed.ne_labelList (hlast.2 ▸ rfl) hc
    · have hle : (last.insertChild 0 (leaf .variadicMarker)).height ≤ max last.height 2 :=
        height_insertChild_le
      rw [hes, top_append, top_append, top_cons, top_cons]
      omega

theorem tuple_follows (isVariadic : Bool) : Follows Open (tuple isVariadic) := by
  intro M h
  unfold tuple
  refine (manyUntil_reads 1 tupleElement_reads).bind fun es hes => ?_
  cases isVariadic with
  | true =>
    obtain ⟨hopen, htop⟩ := markLastVariadic_spec hes
    exact .ret (open_tuple hopen) (by omega) (by simp; omega)
  | false => exact .ret (open_tuple hes) (by omega) (by simp; omega)

/-! ## Functions, metatypes and boxes -/

/-- A mark is a leaf or missing. -/
theorem child_leafIf {b : Bool} {k : Kind} (ha : k.accepts .none = true)
    (hk : k.standsAlone = true) :
    (∀ n ∈ leafIf b k, n.Child) ∧ top (leafIf b k) ≤ 1 := by
  cases b with
  | true => exact ⟨by simpa [leafIf] using (part_leaf ha hk).child, by simp [leafIf]⟩
  | false => exact ⟨by simp [leafIf], by simp [leafIf]⟩

/-- The marks of a function type, with what else stands in front of its types. -/
theorem functionMarks_spec {throws async concurrent : Bool} {ds : List Node}
    (hds : (∀ n ∈ ds, n.Child) ∧ top ds ≤ 1) :
    (∀ n ∈ leafIf throws .throwsMark ++ leafIf async .asyncMark ++
      leafIf concurrent .concurrentFunctionType ++ ds, n.Child) ∧
    top (leafIf throws .throwsMark ++ leafIf async .asyncMark ++
      leafIf concurrent .concurrentFunctionType ++ ds) ≤ 1 := by
  have hthrows := child_leafIf (b := throws) (k := .throwsMark) rfl (by decide)
  have hasync := child_leafIf (b := async) (k := .asyncMark) rfl (by decide)
  have hconcurrent := child_leafIf (b := concurrent) (k := .concurrentFunctionType) rfl (by decide)
  simp only [List.forall_mem_append, top_append]
  exact ⟨⟨⟨⟨hthrows.1, hasync.1⟩, hconcurrent.1⟩, hds.1⟩, by omega⟩

/-- The marks are leaves, so the two types decide about the height. -/
theorem markedFunction_follows {k : Kind} {marks : List Node} (hk : k.takesAny = true)
    (hu : isUnframed k = true) (hmarks : (∀ n ∈ marks, n.Child) ∧ top marks ≤ 1) :
    Follows Open (do
      let arguments ← type
      let result ← type
      return .branch k
        (marks ++ [.branch .argumentTuple [arguments], .branch .returnType [result]])) := by
  refine fun M h => type_reads.bind fun arguments ha => type_reads.bind fun result hr =>
    .ret (open_unframed hk hu ?_) (by omega) (by simp; omega)
  have harguments : (branch .argumentTuple [arguments]).Open :=
    open_through_of_framed rfl (by simpa using ha.1) rfl (framed_of_isUnframed rfl (by simp [ha.2]))
  have hresult : (branch .returnType [result]).Open := open_around rfl (by decide) hr.1
  simp only [List.forall_mem_append, List.forall_mem_cons]
  exact ⟨hmarks.1, harguments.child, hresult.child, by simp⟩

theorem functionType_follows {k : Kind} (hk : k.takesAny = true) (hu : isUnframed k = true) :
    Follows Open (functionType k) := by
  unfold functionType
  refine .read (Advances.nextIf 'z') fun throws => .read (Advances.nextIf 'y') fun concurrent =>
    .read (Advances.nextIf 'Z') fun async => .read (Advances.nextIf 'D') fun isDifferentiable => ?_
  cases isDifferentiable with
  | false => exact markedFunction_follows hk hu (functionMarks_spec (by simp))
  | true =>
    refine .read Advances.nextChar fun c M h => Runs.ofOption fun d hd => ?_
    have hpart : (ofPayload .differentiableFunctionType (.differentiability d)).Part :=
      part_ofPayload (isDifferentiable_ofCode? hd) (by decide)
    exact markedFunction_follows hk hu (functionMarks_spec (by simpa using hpart.child)) M h

theorem representedMetatype_follows {k : Kind} (hk : k.isFree = true) (hn : k.needs = []) :
    Follows Open (representedMetatype k) := by
  refine .read Advances.nextChar fun c => .read Advances.ofOption fun s M h =>
    type_reads.bind fun t ht => .ret (open_through hk ?_ (by rw [hn]; rfl)) (by omega)
      (by simp; omega)
  have hs : (ofText .metatypeRepresentation s).Part := part_ofText rfl (by decide)
  simpa using ⟨hs.open rfl, ht.1⟩

theorem boxField_reads : Reads 3 (fun n => n.height - 0) Open boxField := by
  have hfield : Reads 3 (fun n => n.height + 1) Open boxField := by
    refine Follows.letter fun c => ?_
    split
    · exact aroundType_follows rfl (by decide)
    · exact aroundType_follows rfl (by decide)
    · exact .fail
  exact hfield.mono (Nat.le_refl _) (fun _ => by omega) fun _ hn => hn

theorem boxType_follows : Follows Open boxType := by
  intro M h
  unfold boxType
  refine (Advances.nextIf 'G').ifTrue ?_ ?_
  · dsimp only
    rw [if_pos rfl, map_eq_pure_bind, bind_assoc]
    refine genericSignature_reads.bind fun signature hs =>
      (manyUntil_reads 0 boxField_reads).bind fun fields hf =>
      (manyUntil_reads 0 (type_reads.mono (Nat.le_refl _) (fun _ => by omega) fun _ h => h)).bind
        fun arguments ha => .ret (open_through rfl ?_ rfl) (by omega) (by simp; omega)
    have hlayout : (branch .silBoxLayout fields).Open := open_branch rfl fun c hc => (hf c hc).child
    have hlist : (branch .typeList arguments).Open :=
      open_branch rfl fun a h => (ha a h).1.child
    simpa using ⟨hlayout, hs, hlist⟩
  · refine (manyUntil_reads 0 boxField_reads).bind fun fields hf =>
      .ret (open_through rfl ?_ rfl) (by omega) (by simp; omega)
    have hlayout : (branch .silBoxLayout fields).Open := open_branch rfl fun c hc => (hf c hc).child
    simpa using hlayout

theorem protocolList_follows : Follows Open protocolList :=
  (protocolList_reads.mono (Nat.le_refl _) (fun _ => Nat.le_refl _) fun _ h => h.1).follows
    fun _ => by omega

theorem specialType_follows : Follows Open specialType := by
  refine (Follows.letter (f := fun c => _) fun c => ?_).follows fun _ => by omega
  split
  · exact aroundType_follows rfl (by decide)
  · exact boxType_follows
  · exact representedMetatype_follows rfl rfl
  -- the metatype of an existential, or else a list of protocols
  · refine .read (Advances.nextIf 'M') fun isMetatype => ?_
    split
    · exact representedMetatype_follows rfl rfl
    · exact protocolList_follows
  · exact functionType_follows rfl rfl
  · exact aroundType_follows rfl (by decide)
  · exact aroundType_follows rfl (by decide)
  · exact aroundType_follows rfl (by decide)
  · exact loweredFunctionType_follows
  · exact .fail

theorem aroundContent_follows {k : Kind} (hk : k.isFree = true) (hn : ∀ x ∈ k.needs, x.1 ≠ 0) :
    Follows Open (production .content >>= fun n => pure (branch k [n])) :=
  fun M h => (production_reads .content).bind fun _ hn' =>
    .ret (open_around hk hn hn') (by omega) (by simp [slack]; omega)

/-- The content of a type, by the letter that it starts with. -/
theorem contentRule_reads : Reads 3 (fun n => n.height + 1) Open contentRule := by
  have hleaf {k : Kind} (hk : k.isFree = true) (hn : k.needs = []) : Follows Open (pure (leaf k)) :=
    .ret (open_through hk (by simp) (by rw [hn]; rfl)) (by simp)
  refine Follows.letter fun c => ?_
  split
  · exact builtinType_follows
  · exact (declaration_reads rfl).follows fun _ => by omega
  · exact functionType_follows rfl rfl
  · exact functionType_follows rfl rfl
  · exact aroundType_follows rfl (by decide)
  · exact .read (Advances.nextIfText (by decide)) fun _ => .read Advances.require fun _ =>
      hleaf rfl rfl
  · exact functionType_follows rfl rfl
  · exact functionType_follows rfl rfl
  · exact boundGenericType_reads.follows fun _ => by omega
  · exact functionType_follows rfl rfl
  · exact aroundType_follows rfl (by decide)
  · refine .read (Advances.nextIf 'M') fun isMetatype => ?_
    split
    · exact aroundType_follows rfl (by decide)
    · exact protocolList_follows
  -- an opaque result, or else an archetype
  · refine .read (Advances.nextIf 'u') fun isResult => ?_
    split
    · exact hleaf rfl rfl
    · exact (production_reads .archetype).follows fun _ => by simp [slack]
  · exact dependentType_follows
  · exact .ret (open_genericParameter 0 0) (by simp)
  · exact associatedType_follows
  · exact associatedTypePath_reads.follows fun _ => by omega
  · exact aroundContent_follows rfl (by decide)
  · exact aroundContent_follows rfl (by decide)
  · exact substitution_reads.follows fun _ => by omega
  · exact tuple_follows false
  · exact tuple_follows true
  · intro M h
    refine genericSignature_reads.bind fun signature hs => type_reads.bind fun t ht =>
      .ret (open_through rfl (by simpa using ⟨hs, ht.1⟩) ?_) (by omega) (by simp; omega)
    simp [Kind.needs, meets, ht.2]
  · exact specialType_follows
  · exact (declaration_reads rfl).follows fun _ => by omega
  · exact (declaration_reads rfl).follows fun _ => by omega
  · exact (declaration_reads rfl).follows fun _ => by omega
  · exact .fail

theorem typeRule_reads : Reads 3 Node.height (fun n => n.Open ∧ n.kind = .type) typeRule :=
  fun M h => contentRule_reads.nested.bind fun _ hn =>
    .ret ⟨open_typeOf hn, rfl⟩ (by omega) (by simp)

end SwiftMangling.Legacy
