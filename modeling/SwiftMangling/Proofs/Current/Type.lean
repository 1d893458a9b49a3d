import SwiftMangling.Proofs.Current.Generic
import SwiftMangling.Proofs.Current.Label

/-!
# Types keep the state sound

Function types, tuples, built-in and special types, and lowered function types.
-/

namespace SwiftMangling.Current

open Decoding Node

variable {H : Nat}

/-! ## Function types -/

theorem clangType_holds : Holds H clangType fun n => n.Part ∧ n.kind = .clangType :=
  Keeps.positive.bind fun _ _ => Keeps.text.bind fun _ _ =>
    .ret ⟨part_ofText rfl (by decide), rfl⟩

/-- The marks of a function type in their order, as far as they are there. -/
theorem popMarks_holds (marks : List Kind) :
    Holds H (popMarks marks) fun ns => ∀ n ∈ ns, n.Part ∧ n.kind ∈ marks := by
  induction marks with
  | nil => exact .ret (by simp)
  | cons k ks ih =>
    rw [popMarks]
    refine popKind?_holds.bind fun found hf => ih.bind fun later hl => .ret fun n hn => ?_
    rcases List.mem_append.mp hn with hn | hn
    · obtain ⟨hp, hk⟩ := hf n (by simpa using hn)
      exact ⟨hp, by simp [hk]⟩
    · exact ⟨(hl n hn).1, List.mem_cons_of_mem _ (hl n hn).2⟩

theorem open_emptyTuple : (typeOf (leaf .tuple)).Open :=
  open_typeOf ((part_leaf rfl (by decide)).open rfl)

/-- The parameters or the result of a function stand above one type. -/
theorem popParameters_holds {k : Kind} (hk : k.isOrdinary = true) (hn : k.needs = [])
    (hr : ∀ t : Node, t.kind = .type → Framed k [t]) :
    Holds H (popParameters k) fun n => n.Open ∧ n.kind = k := by
  have haround {t : Node} (ht : t.Open) (htk : t.kind = .type) :
      (branch k [t]).Open ∧ (branch k [t]).kind = k :=
    ⟨open_through_of_framed hk (by simpa using ht) (by rw [hn]; rfl) (hr t htk), rfl⟩
  unfold popParameters
  refine popMarker_holds.bind fun _ _ => .ite (fun _ => .ret (haround open_emptyTuple rfl)) fun _ => ?_
  exact popType_holds.bind fun t ht => .ret (haround ht.1 ht.2)

theorem framed_argumentTuple {t : Node} (ht : t.kind = .type) : Framed .argumentTuple [t] :=
  framed_of_isRigid rfl (by simp) (by simp [ht]) (by simp) (by simp) (by simp [ht])

theorem framed_returnType {t : Node} (ht : t.kind = .type) : Framed .returnType [t] :=
  framed_of_isLoose rfl (by simp [ht])

/-- Function types that can be declared have their parts in a frame, the others do not. -/
theorem framed_function {k : Kind} {marks : List Node} {parameters result : Node}
    (hk : k.isLoose = true ∨ k = .functionType ∨ k = .noEscapeFunctionType)
    (hm : ∀ n ∈ marks, n.kind ≠ .labelList ∧ n.kind ≠ .argumentTuple)
    (hp : parameters.kind = .argumentTuple) (hr : result.kind = .returnType) :
    Framed k (marks ++ [parameters, result]) := by
  have hlabels : ∀ c ∈ marks ++ [parameters, result], c.kind ≠ .labelList := by
    intro c hc
    simp only [List.mem_append, List.mem_cons, List.not_mem_nil, or_false] at hc
    rcases hc with hc | rfl | rfl
    · exact (hm c hc).1
    · simp [hp]
    · simp [hr]
  -- the arguments come right before the result, and no mark is a list of arguments
  have hframe : IsFunctionFrame ((marks ++ [parameters, result]).map kind) := by
    refine ⟨marks.map kind, by simp [hp, hr], fun hmem => ?_⟩
    obtain ⟨m, hmm, hmk⟩ := List.mem_map.mp hmem
    exact (hm m hmm).2 hmk
  rcases hk with hk | rfl | rfl
  · exact framed_of_isLoose hk hlabels
  · exact framed_of_isRigid rfl (by simp) hlabels (by simp) (fun _ _ => hframe) (by simp)
  · exact framed_of_isRigid rfl (by simp) hlabels (by simp) (fun _ _ => hframe) (by simp)

/-- A function type in its frame: marks, parameters and result. -/
theorem popFunctionType_holds {k : Kind} (hk : k.takesAny = true)
    (hr : k.isLoose = true ∨ k = .functionType ∨ k = .noEscapeFunctionType) (hasClangType : Bool) :
    Holds H (popFunctionType k hasClangType) (IsTypeOf (· = k)) := by
  -- what follows the foreign type, if there is one
  have hend (foreign : List Node) (hf : ∀ n ∈ foreign, n.Part ∧ n.kind = .clangType) : Holds H
      (popMarks functionMarks >>= fun marks => popParameters .argumentTuple >>= fun parameters =>
        popParameters .returnType >>= fun result =>
          pure (typeOf (branch k (foreign ++ marks ++ [parameters, result]))))
      (IsTypeOf (· = k)) := by
    refine (popMarks_holds _).bind fun marks hm =>
      (popParameters_holds rfl rfl fun _ => framed_argumentTuple).bind fun parameters hp =>
      (popParameters_holds rfl rfl fun _ => framed_returnType).bind fun result hres => .ret ?_
    have hfront : ∀ n ∈ foreign ++ marks, n.Part ∧ n.kind ≠ .argumentTuple := by
      intro n hn
      rcases List.mem_append.mp hn with hn | hn
      · exact ⟨(hf n hn).1, by simp [(hf n hn).2]⟩
      · refine ⟨(hm n hn).1, fun hk => ?_⟩
        have := (hm n hn).2
        simp [hk, functionMarks] at this
    refine ⟨open_typeOf (open_branch_of_takesAny hk (fun c hc => ?_) (framed_function hr
      (fun n hn => ⟨(hfront n hn).1.ne_labelList, (hfront n hn).2⟩) hp.2 hres.2)), rfl, ?_⟩
    · rcases List.mem_append.mp hc with hc | hc
      · exact (hfront c hc).1.child
      · simp only [List.mem_cons, List.not_mem_nil, or_false] at hc
        rcases hc with rfl | rfl
        · exact hp.1.child
        · exact hres.1.child
    · rintro c hc
      obtain rfl := Option.some.inj hc
      rfl
  unfold popFunctionType
  dsimp only
  split
  · exact clangType_holds.bind fun foreign hf => hend [foreign] (by simpa using hf)
  · exact hend [] (by simp)

theorem popFunctionType_builds {k : Kind} {hasClangType : Bool} (hk : k.takesAny = true)
    (hr : k.isLoose = true ∨ k = .functionType ∨ k = .noEscapeFunctionType) :
    Builds (popFunctionType k hasClangType) :=
  .of_holds (popFunctionType_holds hk hr _) fun _ h => h.toOpen.part

/-! ## Tuples -/

/-- A tuple element stands in its frame whether it has a marker and a name or not. -/
theorem popTupleElement_holds :
    Holds H popTupleElement fun n => n.Open ∧ n.kind = .tupleElement := by
  unfold popTupleElement
  refine popKind?_holds.bind fun variadic hv => popKind?_holds.bind fun name hn =>
    popType_holds.bind fun t ht => .ret ⟨?_, rfl⟩
  -- the name was an identifier, whose text it keeps
  have hname : ∀ n ∈ name.map (·.withKind .tupleElementName),
      n.Part ∧ n.kind = .tupleElementName := by
    intro n hm
    obtain ⟨m, hsome, rfl⟩ := Option.map_eq_some_iff.mp (Option.mem_def.mp hm)
    have hp := hn m hsome
    exact ⟨part_withKind_of_isText hp.1 (identifier_isText hp) (fun _ => rfl) (by decide), rfl⟩
  have hparts : ∀ c ∈ variadic.toList ++ (name.map (·.withKind .tupleElementName)).toList ++ [t],
      c.Part := by
    intro c hc
    simp only [List.mem_append, Option.mem_toList, List.mem_singleton] at hc
    rcases hc with (hc | hc) | rfl
    · exact (hv c hc).1
    · exact (hname c hc).1
    · exact ht.1.part
  refine open_branch_of_takesAny rfl (fun c hc => (hparts c hc).child) (framed_of_isRigid rfl
    (by simp) (fun c hc => (hparts c hc).ne_labelList) (fun _ _ => ?_) (by simp) (by simp))
  -- with or without a marker, with or without a name: each of the four is a frame
  cases variadic <;> cases hm : name.map (·.withKind .tupleElementName) <;>
    simp_all [elementFrames]

theorem popTuple_holds : Holds H popTuple Open :=
  (popList_holds popTupleElement_holds).bind fun _ hes => .ret (open_typeOf (open_tuple hes))

/-! ## Built-in types -/

theorem open_builtin (s : String) : (builtin s).Open :=
  open_typeOf ((part_ofText rfl (by decide)).open rfl)

theorem builtinSize_holds : Holds H builtinSize fun _ => True :=
  Keeps.index.bind fun _ _ => Keeps.require.bind fun _ _ => .ret trivial

theorem builtinType_holds : Holds H builtinType Open := by
  unfold builtinType
  refine Keeps.nextChar.bind fun c _ => ?_
  split
  case h_7 =>
    exact builtinSize_holds.bind fun _ _ => popTypeChild_holds.bind fun _ _ =>
      Keeps.require.bind fun _ _ => Keeps.ofOption.bind fun _ _ => .ret (open_builtin _)
  all_goals
    first
    | exact .ret (open_builtin _)
    | exact builtinSize_holds.bind fun _ _ => .ret (open_builtin _)
    | exact .fail

/-! ## Special types -/

theorem wrapType_holds {k : Kind} (hk : k.isFree = true) (hn : ∀ x ∈ k.needs, x.1 ≠ 0) :
    Holds H (wrapType k) Open :=
  (aroundType_holds hk hn).bind fun _ h => .ret (open_typeOf h)

theorem wrapTypeChild_holds {k : Kind} (hk : k.isFree = true) (hn : ∀ x ∈ k.needs, x.1 ≠ 0) :
    Holds H (wrapTypeChild k) Open :=
  popTypeChild_holds.bind fun _ h => .ret (open_typeOf (open_around hk hn h))

theorem representedMetatype_holds {k : Kind} (hk : k.isFree = true) (hn : k.needs = []) :
    Holds H (representedMetatype k) Open := by
  unfold representedMetatype metatypeRepresentation
  refine Keeps.bind (Q := Open) ?_ fun representation hr => popType_holds.bind fun t ht =>
    .ret (open_typeOf (open_through hk ?_ (by rw [hn]; rfl)))
  · exact Keeps.nextChar.bind fun _ _ => Keeps.ofOption.bind fun _ _ =>
      .ret ((part_ofText rfl (by decide)).open rfl)
  · simpa using ⟨hr, ht.1⟩

/-- The type of a mutable field is taken out of an `inout` type. -/
theorem boxField?_open {t field : Node} (ht : t.Open ∧ t.kind = .type)
    (hf : boxField? t = some field) : field.Open := by
  obtain ⟨inner, hi, hf⟩ := Option.bind_eq_some_iff.mp hf
  have hinner : inner.Open :=
    ht.1.formed.open_child (by rw [ht.2]; rfl) (List.mem_of_head? hi)
  split at hf
  -- a mutable field loses its `inout`
  next hk =>
    obtain ⟨content, hc, hf⟩ := Option.bind_eq_some_iff.mp hf
    have hcontent : content.Open :=
      hinner.formed.open_child (by rw [beq_iff_eq.mp hk]; rfl) (List.mem_of_head? hc)
    obtain rfl := Option.some.inj hf
    exact open_branch rfl (by simpa using (open_typeOf hcontent).child)
  next =>
    obtain rfl := Option.some.inj hf
    exact open_branch rfl (by simpa using ht.1.child)

theorem boxType_holds (isGeneric : Bool) : Holds H (boxType isGeneric) Open := by
  -- the fields come from the stack, whether the layout is generic or not
  have hend (generics : List Node) (hg : ∀ g ∈ generics, g.Open) : Holds H
      (popTypeList >>= fun types => ofOption (types.children.mapM boxField?) >>= fun fields =>
        pure (typeOf (branch .silBoxTypeWithLayout (branch .silBoxLayout fields :: generics))))
      Open := by
    refine popTypeList_holds.bind fun types ht => Keeps.ofOption.bind fun fields hf =>
      .ret (open_typeOf (open_through rfl ?_ rfl))
    have hfields : (branch .silBoxLayout fields).Open := by
      refine open_branch rfl fun field hm => ?_
      obtain ⟨t, htm, hft⟩ := exists_of_mem_mapM hf hm
      exact (boxField?_open (ht.2 t htm) hft).child
    simpa using ⟨hfields, hg⟩
  unfold boxType
  dsimp only
  split
  · exact popKind_holds.bind fun signature hs => popTypeList_holds.bind fun arguments ha =>
      hend _ (by simpa using ⟨open_of_kind hs rfl, ha.1⟩)
  · exact hend [] (by simp)

theorem specialType_builds : Builds specialType := by
  unfold specialType
  refine .bind Keeps.nextChar fun c _ => ?_
  split
  iterate 8 exact popFunctionType_builds rfl (by decide)
  -- blocks and pointers that carry their foreign type have a letter more
  · refine .bind Keeps.nextChar fun c _ => ?_
    split
    iterate 2 exact popFunctionType_builds rfl (by decide)
    exact .fail
  iterate 5 exact .of_open (wrapType_holds rfl (by decide))
  iterate 2 exact .of_open (representedMetatype_holds rfl rfl)
  · exact .of_open (wrapType_holds rfl (by decide))
  · refine .of_open (popType_holds.bind fun t ht => popProtocolList_holds.bind fun ps hps =>
      .ret (open_typeOf (open_branch_of_needs rfl rfl ?_ ?_)))
    · simpa using ⟨hps.1.child, ht.1.child⟩
    · simp [Kind.needs, meets, hps.2]
  · refine .of_open (popProtocolList_holds.bind fun ps hps =>
      .ret (open_typeOf (open_branch_of_needs rfl rfl ?_ ?_)))
    · simpa using hps.1.child
    · simp [Kind.needs, meets, hps.2]
  · exact .of_open (boxType_holds true)
  · exact .of_open (boxType_holds false)
  · exact nominalType_builds rfl
  · exact .of_open (.ret (open_typeOf ((part_leaf rfl (by decide)).open rfl)))
  · exact .fail

theorem typeMark_holds : Holds H typeMark Part := by
  unfold typeMark
  refine Keeps.nextChar.bind fun c _ => ?_
  split
  iterate 2 exact .ret (part_leaf rfl (by decide))
  · exact popTypeChild_holds.bind fun _ h => .ret (open_around rfl (by decide) h).part
  · exact (wrapTypeChild_holds rfl (by decide)).part
  · exact Keeps.nextChar.bind fun _ _ => Keeps.ofOption.bind fun d hd =>
      .ret (part_ofPayload (isDifferentiable_ofCode? hd) (by decide))
  · exact (wrapTypeChild_holds rfl (by decide)).part
  · exact .fail

/-! ## Lowered function types -/

/-- The only one of a list is in it. -/
theorem mem_of_single? {ns : List Node} {n : Node} (h : single? ns = some n) : n ∈ ns := by
  unfold single? at h
  split at h
  next => simpa using h.symm
  next => cases h

theorem loweredSubstitutions_holds :
    Holds H loweredSubstitutions fun ns => ∀ n ∈ ns, n.Open := by
  -- the substitutions of the invocation follow those of the pattern
  have hinvocation (pattern : List Node) (hp : ∀ n ∈ pattern, n.Open) : Holds H
      (nextIf 'I' >>= fun b => if b = true then popBoundGenerics >>= fun x =>
          ofOption (single? x.1) >>= fun list => pure (pattern ++
            [branch .implInvocationSubstitutions (list :: x.2.toList)])
        else pure (pattern ++ [])) fun ns => ∀ n ∈ ns, n.Open := by
    refine Keeps.nextIf.bind fun _ _ => .ite (fun _ => popBoundGenerics_holds.bind ?_) fun _ =>
      .ret (by simpa using hp)
    rintro ⟨lists, conformances⟩ ⟨hl, hc⟩
    refine Keeps.ofOption.bind fun list hlist => .ret fun n hn => ?_
    rcases List.mem_append.mp hn with hn | hn
    · exact hp n hn
    · obtain rfl := List.mem_singleton.mp hn
      exact open_through rfl (by simpa using ⟨hl list (mem_of_single? hlist), hc⟩) rfl
  unfold loweredSubstitutions
  refine Keeps.nextIf.bind fun _ _ => ?_
  dsimp only
  refine .ite (fun _ => popBoundGenerics_holds.bind ?_) fun _ => hinvocation [] (by simp)
  rintro ⟨lists, conformances⟩ ⟨hl, hc⟩
  refine popKind_holds.bind fun signature hs => Keeps.ofOption.bind fun list hlist =>
    hinvocation _ ?_
  simp only [List.forall_mem_singleton]
  refine open_through rfl ?_ rfl
  simpa using ⟨open_of_kind hs rfl, hl list (mem_of_single? hlist), hc⟩

/-- The mark of a pseudogeneric signature changes only its kind. -/
theorem loweredSignature_holds : Holds H loweredSignature fun m => ∀ n ∈ m, n.Part := by
  unfold loweredSignature
  refine popKind?_holds.bind fun m hm => ?_
  cases m with
  | none => exact .ret (by simp)
  | some signature =>
    have hs : signature.Open := open_of_kind (hm signature rfl) rfl
    have hk : signature.kind.isLabelled = false := by
      rw [(hm signature rfl).2]
      rfl
    refine Keeps.nextIf.bind fun _ _ => .ite (fun _ => .ret ?_) fun _ => .ret ?_
    · simpa using (open_withKind hs hk rfl fun _ => rfl).part
    · simpa using hs.part

theorem open_conventionNode (name : String) {foreign : Option Node} (h : ∀ n ∈ foreign, n.Part) :
    (conventionNode name foreign).Open := by
  have hname : (ofText .implFunctionConventionName name).Part := part_ofText rfl (by decide)
  refine open_branch_of_needs rfl rfl ?_ rfl
  simpa using ⟨hname.child, fun n hn => (h n hn).child⟩

theorem functionConvention_holds : Holds H functionConvention fun m => ∀ n ∈ m, n.Open := by
  have hplain (name : String) : ∀ n ∈ some (conventionNode name none), n.Open := by
    simpa using open_conventionNode name (by simp)
  have hforeign (name : String) : Holds H (clangType >>= fun foreign =>
      pure (some (conventionNode name (some foreign)))) fun m => ∀ n ∈ m, n.Open :=
    clangType_holds.bind fun foreign hf =>
      .ret (by simpa using open_conventionNode name (by simpa using hf.1))
  unfold functionConvention
  refine Keeps.nextChar.bind fun c _ => ?_
  split
  -- a foreign convention can come with its type; any other letter is put back with the one before
  -- it
  case h_3 =>
    refine Keeps.nextChar.bind fun c _ => ?_
    split
    iterate 2 exact hforeign _
    exact Keeps.pushBack.bind fun _ _ => Keeps.pushBack.bind fun _ _ => .ret (by simp)
  case h_8 => exact Keeps.pushBack.bind fun _ _ => .ret (by simp)
  all_goals exact .ret (hplain _)

theorem itemConvention_holds (table : Char → Option String) : Holds H (itemConvention table) Part :=
  Keeps.look.bind fun _ _ => Keeps.ofOption.bind fun _ _ => Keeps.nextByte.bind fun _ _ =>
    .ret (part_ofText rfl (by decide))

/-- The kind and the parts of an item can stand in a lowered function type. -/
def Item.Fits (i : Item) : Prop :=
  i.kind.isPlain = true ∧ ∀ n ∈ i.parts, n.Part

/-- An item is a convention, with or without a mark for how it can be differentiated. -/
theorem markedItem_holds {k : Kind} (hk : k.isPlain = true) (table : Char → Option String) :
    Holds H (markedItem k table) Item.Fits := by
  unfold markedItem
  refine (itemConvention_holds table).bind fun convention hc => Keeps.nextIf.bind fun _ _ => ?_
  dsimp only
  refine .ite (fun _ => .ret ⟨hk, ?_⟩) fun _ => .ret ⟨hk, by simpa using hc⟩
  simpa using ⟨hc, part_ofText rfl (by decide)⟩

/-- The results that a coroutine yields. -/
theorem yields_holds (n : Nat) : Holds H (yields n) fun is => ∀ i ∈ is, Item.Fits i := by
  induction n with
  | zero => exact .ret (by simp)
  | succ n ih =>
    rw [yields]
    refine Keeps.nextIf.bind fun _ _ => .ite (fun _ => ?_) fun _ => .ret (by simp)
    refine (itemConvention_holds _).bind fun convention hc => ih.bind fun is his => .ret ?_
    rw [List.forall_mem_cons]
    exact ⟨⟨rfl, by simpa using hc⟩, his⟩

theorem loweredItems_holds : Holds H loweredItems fun is => ∀ i ∈ is, Item.Fits i := by
  unfold loweredItems
  refine Keeps.look.bind fun _ _ => (markedItem_holds rfl _).many.bind fun parameters hp =>
    Keeps.look.bind fun _ _ => (markedItem_holds rfl _).many.bind fun results hr =>
    Keeps.look.bind fun _ _ => (yields_holds _).bind fun yielded hy =>
    Keeps.nextIf.bind fun _ _ => ?_
  dsimp only
  -- an error is the last result
  refine .ite (fun _ => (itemConvention_holds _).bind fun convention hc => .ret fun i hi => ?_)
    fun _ => .ret fun i hi => ?_
  all_goals
    simp only [List.mem_append, List.mem_singleton, List.not_mem_nil, or_false] at hi
  · rcases hi with ((hi | hi) | hi) | rfl
    · exact hp i hi
    · exact hr i hi
    · exact hy i hi
    · exact ⟨rfl, by simpa using hc⟩
  · rcases hi with (hi | hi) | hi
    · exact hp i hi
    · exact hr i hi
    · exact hy i hi

/-- The items get their types from the stack. -/
theorem popItemTypes_holds {is : List Item} (h : ∀ i ∈ is, Item.Fits i) {later : List Node}
    (hl : ∀ n ∈ later, n.Part) : Holds H (popItemTypes is later) fun ns => ∀ n ∈ ns, n.Part := by
  -- by induction on the items, each of which takes its type from the top of the stack
  induction is generalizing later with
  | nil => exact .ret hl
  | cons i is ih =>
    rw [List.forall_mem_cons] at h
    rw [popItemTypes]
    refine popType_holds.bind fun t ht => ih h.2 ?_
    rw [List.forall_mem_cons]
    refine ⟨(open_branch h.1.1 fun c hc => ?_).part, hl⟩
    rcases List.mem_append.mp hc with hc | hc
    · exact (h.1.2 c hc).child
    · obtain rfl := List.mem_singleton.mp hc
      exact ht.1.child

theorem attributeIf_part {isPresent : Bool} {s : String} {n : Node}
    (h : n ∈ attributeIf isPresent s) : n.Part := by
  unfold attributeIf at h
  split at h
  · obtain rfl := List.mem_singleton.mp h
    exact part_ofText rfl (by decide)
  · cases h

/-- All that a lowered function type consists of is a part: attributes, conventions and items. -/
theorem loweredFunctionType_holds : Holds H loweredFunctionType Open := by
  unfold loweredFunctionType
  refine loweredSubstitutions_holds.bind fun substitutions hsub =>
    loweredSignature_holds.bind fun signature hsig => Keeps.nextIf.bind fun escaping _ =>
    Keeps.nextIf.bind fun differentiable _ => ?_
  dsimp only
  let Q : List Node → Prop := fun ns => ∀ n ∈ ns, n.Part
  refine .ite (fun _ => Keeps.nextChar.bind fun _ _ => Keeps.ofOption.bind fun d hd =>
    Keeps.bind (Q := Q) (.ret ?_) fun differentiability hdiff => ?_)
    fun _ => Keeps.bind (Q := Q) (.ret ?_) fun differentiability hdiff => ?_
  · exact List.forall_mem_singleton.mpr (part_ofPayload (isDifferentiable_ofCode? hd) (by decide))
  rotate_left
  · simp [Q]
  all_goals
    refine Keeps.nextChar.bind fun _ _ => Keeps.ofOption.bind fun callee _ =>
      functionConvention_holds.bind fun convention hconv => Keeps.nextIf.bind fun yieldsOnce _ => ?_
    refine .ite (fun _ => Keeps.bind (Q := fun _ => True) (.ret trivial) fun yieldsMany _ => ?_)
      fun _ => Keeps.nextIf.bind fun yieldsMany _ => ?_
    all_goals
      refine Keeps.nextIf.bind fun sendable _ => Keeps.nextIf.bind fun async _ =>
        loweredItems_holds.bind fun items hitems => Keeps.expect.bind fun _ _ =>
        (popItemTypes_holds (by simpa using hitems) (by simp)).bind fun typed htyped =>
          .ret (open_typeOf (open_branch rfl fun c hc => ?_))
      -- the parts in their order
      simp only [List.mem_append, Option.mem_toList, List.mem_singleton] at hc
      rcases hc with ((((((((((hc | hc) | hc) | rfl) | hc) | hc) | hc) | hc) | hc) | hc) | hc)
      · exact (hsub c hc).child
      · split at hc
        · obtain rfl := List.mem_singleton.mp hc
          exact (part_leaf rfl (by decide)).child
        · cases hc
      · exact (hdiff c hc).child
      · exact (part_ofText rfl (by decide)).child
      · exact (hconv c hc).child
      iterate 4 exact (attributeIf_part hc).child
      · exact (hsig c hc).child
      · exact (htyped c hc).child

end SwiftMangling.Current
