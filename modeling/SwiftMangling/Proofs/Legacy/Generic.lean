import SwiftMangling.Proofs.Legacy.Name

/-!
# Generics of the legacy scheme keep to the budget

The members of a chain add two levels each and are paid for by their names. A bound generic type is
rebuilt from the outside in, and the end of each list of arguments pays for the node around it.
-/

namespace SwiftMangling.Legacy

open Decoding Node

variable {M h k m : Nat}

/-! ## Generic parameters and their members -/

theorem genericParameterIndex_reads :
    Reads 3 (fun n => n.height + 1) Open genericParameterIndex := by
  intro M h
  unfold genericParameterIndex
  refine (Advances.nextIf 'd').ifTrue ?_ ((Advances.nextIf 'x').ifTrue ?_ ?_)
  · exact Advances.index.always fun _ => (Advances.successor _).never fun _ =>
      Advances.index.always fun _ => .ret (open_genericParameter _ _) (by omega) (by simp)
  · exact .ret (open_genericParameter _ _) (by omega) (by simp)
  · exact Advances.index.always fun _ => (Advances.successor _).never fun _ =>
      .ret (open_genericParameter _ _) (by omega) (by simp)

theorem associatedTypeReference_reads :
    Reads 3 (fun n => n.height + 1) Open associatedTypeReference := by
  intro M h
  -- a protocol in front of the name is held while the name is read
  have hend {k m : Nat} (p : Option Node) (hp : ∀ a ∈ p, a.Open) (hm : h ≤ m)
      (htop : top p.toList ≤ m) : Runs M h k m (identifier .identifier >>= fun name =>
        remember (branch .dependentAssociatedTypeRef (name :: p.toList)))
        (Left M h 3 (fun n => n.height + 1) Open) := by
    refine (identifier_reads (fun _ => rfl) rfl).bind fun name hn => ?_
    have hopen : (branch .dependentAssociatedTypeRef (name :: p.toList)).Open :=
      open_branch rfl (by simpa using ⟨hn.child, fun a ha => (hp a ha).child⟩)
    exact .remember hopen hopen (by omega) (by simp only [height_branch, top_cons]; omega)
  unfold associatedTypeReference
  simp only [map_eq_pure_bind, bind_assoc, pure_bind]
  refine (Advances.nextIf 'S').ifTrue ?_ ?_
  · exact substitution_reads.bind fun n hn => Advances.require.never fun _ =>
      .ret hn (by omega) (by omega)
  · refine (Advances.nextIf 'P').ifTrue ?_ ?_
    · exact protocol_reads.bind fun p hp =>
        hend (some p) (by simpa using hp.1) (by omega) (by simp)
    · exact hend none (by simp) (Nat.le_refl h) (by simp)

/-- A member of a type that is held. -/
theorem memberOf_runs {base : Node} (hb : base.Open) (hh : h ≤ m) (hm : base.height ≤ m)
    (hk : 1 ≤ k) : Runs M h k m (memberOf base) (Left M h 3 (fun n => n.height + 1) Open) := by
  refine associatedTypeReference_reads.bind fun n hn => .ret ?_ (by omega) (by simp; omega)
  exact open_branch rfl (by simpa using ⟨hb.child, hn.child⟩)

theorem associatedType_follows : Follows Open associatedType :=
  fun M h => genericParameterIndex_reads.bind fun _ hn =>
    memberOf_runs (open_typeOf hn) (by omega) (by simp) (by omega)

/-- The node at the end of a chain of members. -/
theorem foldl_member_spec {names : List Node} (hn : ∀ n ∈ names, n.Open) {base : Node}
    (hb : base.Open) :
    (names.foldl (fun b n => branch .dependentMemberType [.typeOf b, n]) base).Open ∧
      (names.foldl (fun b n => branch .dependentMemberType [.typeOf b, n]) base).height ≤
        max (base.height + 2 * names.length) (cost 0 names + 1) := by
  induction names generalizing base with
  | nil =>
    refine ⟨hb, ?_⟩
    show base.height ≤ _
    omega
  | cons n names ih =>
    -- every name puts two levels around the base
    rw [List.forall_mem_cons] at hn
    have hmember : (branch .dependentMemberType [.typeOf base, n]).Open :=
      open_branch rfl (by simpa using ⟨(open_typeOf hb).child, hn.1.child⟩)
    obtain ⟨hopen, hle⟩ := ih hn.2 hmember
    refine ⟨hopen, Nat.le_trans hle ?_⟩
    rw [cost, List.length_cons]
    simp only [height_branch, top_cons, top_nil, height_typeOf]
    omega

/-- Every name of the path puts a member around the base, and its own bytes pay for it. -/
theorem associatedTypeChain_runs {base : Node} (hb : base.Open) (hh : h ≤ m)
    (hm : base.height ≤ m) :
    Runs M h k m (associatedTypeChain base) (Left M h 3 (fun n => n.height + 1) Open) := by
  have hx : Reads 3 (fun n => n.height - 0) Open associatedTypeReference :=
    associatedTypeReference_reads.mono (Nat.le_refl _) (fun _ => by omega) fun _ hn => hn
  refine Triple.bind (manyUntil_runs hx) fun names =>
    Triple.intro_pre (fun _ hs => hs.1) fun hn => ?_
  obtain ⟨hopen, hle⟩ := foldl_member_spec hn hb
  exact (Runs.ret hopen (by omega) (by omega)).pre fun _ hs => hs.2

theorem associatedTypePath_reads : Reads 3 (fun n => n.height + 1) Open associatedTypePath :=
  fun M h => genericParameterIndex_reads.bind fun _ hn =>
    associatedTypeChain_runs hn (by omega) (by omega)

theorem dependentType_follows : Follows Open dependentType := by
  intro M h
  unfold dependentType
  refine Advances.look.never fun _ => Advances.ofOption.never fun c => ?_
  split
  · exact type_reads.bind fun t ht => memberOf_runs ht.1 (by omega) (by omega) (by omega)
  · exact genericParameterIndex_reads.follows (fun _ => by omega) M h

/-! ## Signatures -/

theorem constrainedType_reads :
    Reads 3 Node.height (fun n => n.Open ∧ n.kind = .type) constrainedType := by
  have hsubject : Reads 3 (fun n => n.height + 1) Open constrainedSubject := by
    intro M h
    unfold constrainedSubject
    refine (Advances.nextIf 'w').ifTrue (associatedType_follows M h)
      ((Advances.nextIf 'W').ifTrue ?_ (genericParameterIndex_reads M h))
    exact associatedTypePath_reads.follows (fun _ => by omega) M h
  exact fun M h => hsubject.bind fun _ hn =>
    .ret ⟨open_typeOf hn, rfl⟩ (by omega) (by simp)

/-- The numbers of a layout. A letter that has numbers, or none, has a name. -/
theorem layoutNumbers_reads (c : Char) : Reads 0 top (fun ns => (∀ n ∈ ns, n.Part) ∧
    (Render.layoutName? c.toString).isSome = true) (layoutNumbers c) := by
  have hnumber (i : UInt64) : (ofIndex .number i).Part := part_ofIndex rfl (by decide)
  intro M h
  unfold layoutNumbers
  split
  -- four letters stand alone, two come with a size and an alignment, two with a size
  iterate 4 exact .ret ⟨by simp, rfl⟩ (by omega) (by simp)
  iterate 2
    exact Advances.natural.always fun _ => (Advances.expect '_').always fun _ =>
      Advances.natural.always fun _ =>
        .ret ⟨by simpa using ⟨hnumber _, hnumber _⟩, rfl⟩ (by omega) (by simp)
  iterate 2
    exact Advances.natural.always fun _ =>
      .ret ⟨by simpa using hnumber _, rfl⟩ (by omega) (by simp)
  exact .fail

theorem conformanceConstraint_reads : Reads 3 Node.height Open conformanceConstraint := by
  intro M h
  unfold conformanceConstraint
  refine Advances.look.never fun _ => Advances.ofOption.never fun c => ?_
  split
  · exact type_reads.mono (Nat.le_refl _) (fun _ => Nat.le_refl _) (fun _ hn => hn.1) M h
  -- a reference is to a type, to a protocol, or to a module in which the protocol is named
  · refine Advances.nextByte.always fun _ => substitution_reads.bind fun n hn => ?_
    split
    iterate 2 exact .ret (open_typeOf hn) (by omega) (by simp; omega)
    · refine Triple.bind (protocolIn_runs hn (by omega) (by omega)) fun p =>
        Triple.intro_pre (fun _ hs => hs.1) fun hp => ?_
      exact (Runs.ret (k := 0) (open_typeOf hp) (by omega) (by simp)).pre fun _ hs => hs.2
    · exact .fail
  · exact protocol_reads.mono (Nat.le_refl _) (fun _ => Nat.le_refl _) (fun _ hn => hn.1) M h

/-- A requirement is read on a loan of one level, which the end of its signature pays back. -/
theorem genericRequirement_reads :
    Reads 3 (fun n => n.height - 1) Open genericRequirement := by
  intro M h
  unfold genericRequirement
  refine constrainedType_reads.bind fun subject hs =>
    (Advances.nextIf 'z').ifTrue ?_ ((Advances.nextIf 'l').ifTrue ?_ ?_)
  -- the same type, a layout, or a conformance
  · exact type_reads.bind fun t ht => .ret
      (open_branch rfl (by simpa using ⟨hs.1.child, ht.1.child⟩)) (by omega) (by simp; omega)
  · refine Advances.nextChar.always fun c => (layoutNumbers_reads c).bind fun ns hns =>
      .ret (open_branch_of_needs rfl rfl ?_ ?_) (by omega) (by simp; omega)
    · simpa using ⟨hs.1.child, (part_identifier _).child, fun n hn => (hns.1 n hn).child⟩
    · simpa [Kind.needs, meets, Node.identifier, Node.ofText, Node.ofPayload, Node.text?]
        using hns.2
  · exact conformanceConstraint_reads.bind fun c hc => .ret
      (open_branch rfl (by simpa using ⟨hs.1.child, hc.child⟩)) (by omega) (by simp; omega)

theorem part_paramCount (i : UInt64) : (ofIndex .dependentGenericParamCount i).Part :=
  part_ofIndex rfl (by decide)

/-- The counts up to the end mark are leaves, for which their own bytes pay. -/
theorem parameterCounts_reads (n : Nat) :
    Reads 0 top (fun ns => ∀ a ∈ ns, a.Part) (parameterCounts n) := by
  -- by induction on the fuel; each count is a leaf, which costs a byte
  induction n with
  | zero => exact fun _ _ => .fail
  | succ n ih =>
    intro M h
    have hend {k : Nat} (count : Nat) (hk : 1 ≤ k) : Runs M h k h (parameterCounts n >>= fun more =>
        pure (ofIndex .dependentGenericParamCount (UInt64.ofNat count) :: more))
        (Left M h 0 top fun ns => ∀ a ∈ ns, a.Part) :=
      ih.bind fun more hmore =>
        .ret (by simpa using ⟨part_paramCount _, hmore⟩) (by omega) (by simp; omega)
    rw [parameterCounts]
    refine Advances.look.never fun _ => Advances.ofOption.never fun c => ?_
    dsimp only
    split
    · exact .ret (by simp) (by omega) (by simp)
    · refine (Advances.nextIf 'z').ifTrue (hend 0 (by omega)) ?_
      exact Advances.index.always fun _ => (Advances.successor _).never fun count =>
        hend count (by omega)

theorem signatureOf_reads {k : Kind} (hk : k.isPlain = true) :
    Reads 3 (fun n => n.height + 1) Open (signatureOf k) := by
  intro M h
  unfold signatureOf
  refine Advances.look.never fun n => (parameterCounts_reads _).bind fun counts hcounts => ?_
  dsimp only
  -- without counts the node of a single parameter stands in their place
  generalize hcs : (if counts.isEmpty = true then [ofIndex .dependentGenericParamCount 1]
    else counts) = cs
  have hcs' : (∀ c ∈ cs, c.Part) ∧ top cs ≤ max 1 (top counts) := by
    rw [← hcs]
    split
    · exact ⟨by simpa using part_paramCount 1, by simp⟩
    · exact ⟨hcounts, by omega⟩
  refine (Advances.nextIf 'r').ifTrue ?_ ((Advances.expect 'R').always fun _ => ?_)
  · exact .ret (open_branch hk fun c hc => (hcs'.1 c hc).child) (by omega) (by simp; omega)
  · refine (manyUntil_reads 1 genericRequirement_reads).bind fun rs hrs =>
      .ret (open_branch hk fun c hc => ?_) (by omega) (by simp; omega)
    rcases List.mem_append.mp hc with hc | hc
    · exact (hcs'.1 c hc).child
    · exact (hrs c hc).child

theorem genericSignature_reads : Reads 3 (fun n => n.height + 1) Open genericSignature :=
  signatureOf_reads rfl

/-! ## Archetypes and nominal types -/

theorem archetypeRule_reads : Reads 3 (fun n => n.height) Open archetypeRule := by
  intro M h
  -- a name is looked up in what comes before it: an archetype, a substitution or a module
  have hend {root : Node} (hr : root.Open) {k m : Nat} (hm : root.height ≤ m) (hh : h ≤ m) :
      Runs M h k m (identifier .identifier >>= fun name =>
        remember (branch .associatedTypeRef [root, name]))
        (Left M h 3 (fun n => n.height) Open) := by
    refine (identifier_reads (fun _ => rfl) rfl).bind fun name hn => ?_
    have hopen : (branch .associatedTypeRef [root, name]).Open := by
      refine open_branch_of_needs rfl rfl (by simpa using ⟨hr.child, hn.child⟩) ?_
      simpa [Kind.needs, meets] using hn.text
    exact .remember hopen hopen (by omega) (by simp; omega)
  unfold archetypeRule
  refine Advances.nextChar.always fun c => ?_
  dsimp only
  split
  · exact (production_reads .archetype).bind fun root hr =>
      hend hr (by simp [slack]) (by omega)
  · exact substitution_reads.bind fun root hr => hend hr (by omega) (by omega)
  · refine Runs.weaken (i := 0) (j := h + 3) ?_ (by omega) (by omega)
    exact hend (open_module _) (by simp) (by omega)
  · exact .fail

theorem nominalType_reads : Reads 3 (fun n => n.height + 1) Open nominalType := by
  refine Follows.letter fun c => ?_
  split
  · exact substitution_reads.follows fun _ => by omega
  iterate 4 exact (declaration_reads rfl).follows fun _ => by omega
  · exact .fail

/-! ## Bound generic types -/

/-- Only contexts are bound by a type with arguments, and a function is not among them. -/
theorem boundKind?_spec {k bound : Kind} (h : boundKind? k = some bound) :
    isBoundKind bound = true ∧ bound ≠ .boundGenericFunction ∧ k.isContext = true := by
  unfold boundKind? at h
  split at h
  case h_4 => cases h
  all_goals
    cases h
    exact ⟨rfl, by decide, rfl⟩

theorem genericArgument_reads : Reads 3 (fun n => n.height - 0) Open genericArgument :=
  fun M h => type_reads.bind fun _ ht => Advances.look.never fun _ =>
    Advances.require.never fun _ => .ret ht.1 (by omega) (by omega)

/-- The end of a list of arguments pays for the nodes that bind a declaration to it. -/
theorem bindOne_reads {n : Node} (hn : n.Formed) (hp : n.payload = .none) :
    ReadsAbove n.height 3 (fun b => b.height + 1) (StandsFor · n) (bindOne n) := by
  intro M h hle
  unfold bindOne
  refine (manyUntil_reads 0 genericArgument_reads).bind fun arguments ha => ?_
  split
  -- without arguments the declaration stays as it is
  · exact .ret ⟨hn, hp, hp, .inl rfl⟩ (by omega) (by omega)
  · refine Runs.ofOption fun bound hbound => ?_
    obtain ⟨hkb, -, hkc⟩ := boundKind?_spec hbound
    have hopen : n.Open := by
      refine ⟨hn, isSealed_of_isContext hkc, fun hk => ?_⟩
      simp [hk, Kind.isContext] at hkc
    have hlist : (branch .typeList arguments).Open :=
      open_branch rfl fun a h => (ha a h).child
    exact .ret (standsFor_bound hkb hkc hp (by simpa using ⟨open_typeOf hopen, hlist⟩) (.inr rfl))
      (by omega) (by simp; omega)

/-- A declaration with another first child and without all but its name. -/
theorem standsFor_renamed {n b c name : Node} {more : List Node} (h : n.Formed)
    (hcs : n.children = c :: name :: more) (hb : StandsFor b c) :
    StandsFor (branch n.kind [b, name]) n := by
  have hfull := standsFor_branch h hcs hb
  refine ⟨formed_branch ?_ ?_ ?_ ?_, rfl, hfull.bare', .inl rfl⟩
  · exact hfull.formed.sound.accepts trivial
  · exact childrenFit_take 2 (hfull.formed.sound.childrenFit trivial)
  · exact hfull.formed.neat.here.framed.take_two id
  · exact fun a ha => hfull.formed.child (List.mem_of_mem_take (i := 2) (l := b :: name :: more) ha)

/-- A bound declaration can stand where the declaration stood, whatever levels are rebuilt. -/
theorem bindArguments_reads {n : Node} (hn : n.Formed) :
    ReadsAbove n.height 3 (fun b => b.height + 1) (StandsFor · n) (bindArguments n) := by
  intro M h hle
  unfold bindArguments
  split
  · exact .fail
  · rename_i parent parts hcs
    have hp : n.payload = .none := payload_eq_none hn.sound (by simp [hcs])
    have hparent : parent ∈ n.children := by simp [hcs]
    have hlower := hn.sound.lower hparent
    split
    · exact bindOne_reads hn hp M h hle
    -- the parent is bound first and takes the place that it had
    · refine (bindArguments_reads (hn.child hparent)).bind (by omega) fun bound hb =>
        Runs.ofOption fun name hname => ?_
      obtain ⟨more, hmore⟩ := List.head?_eq_some_iff.mp hname
      have hname : name.height < n.height := hn.sound.lower (by simp [hcs, hmore])
      have hren := standsFor_renamed hn (hmore ▸ hcs) hb
      refine Triple.post ((bindOne_reads hren.formed rfl).runs (by simp; omega)) ?_
      exact fun b s hs => ⟨hs.1.trans hren rfl, hs.2.mono (by omega) (by dsimp only; omega)⟩
termination_by sizeOf n
decreasing_by exact sizeOf_lt_of_mem_children hparent

theorem boundGenericType_reads : Reads 3 (fun n => n.height + 1) Open boundGenericType := by
  refine fun M h => nominalType_reads.bind fun n hn => ?_
  refine Triple.post ((bindArguments_reads hn.formed).runs (by omega)) fun b s hs => ?_
  exact ⟨hs.1.isOpen hn, hs.2.mono (by omega) (by dsimp only; omega)⟩

end SwiftMangling.Legacy
