import SwiftMangling.Proofs.Current.Binding
import SwiftMangling.Proofs.Current.Name

/-!
# Bound generic types and signatures keep the state sound

Binding a declaration to arguments rebuilds it and the declarations around it. Every node that is
rebuilt keeps its kind, or is a context and becomes a bound generic declaration, so that it can
stand where it stood before.
-/

namespace SwiftMangling.Current

open Decoding Node

variable {H : Nat}

/-! ## Binding arguments -/

/-- A declaration with arguments can stand where the declaration stood. -/
theorem bindOne?_standsFor {n arguments b : Node} (h : n.Formed) (hp : n.payload = .none)
    (ha : arguments.Open) (hb : bindOne? n arguments = some b) : StandsFor b n := by
  have hopen (hk : n.kind.isContext = true) : n.Open :=
    ⟨h, isSealed_of_isContext hk, fun hl => by simp [hl, Kind.isContext] at hk⟩
  unfold bindOne? at hb
  split at hb
  case h_3 k _ _ =>
    obtain ⟨bound, hbound, rfl⟩ := Option.map_eq_some_iff.mp hb
    obtain ⟨hkb, -, hkc⟩ := boundKind?_spec hbound
    exact standsFor_bound hkb hkc hp (by simpa using ⟨open_typeOf (hopen hkc), ha⟩) (.inr rfl)
  -- functions and constructors are bound without a type around them
  all_goals
    rename_i hk
    obtain rfl := Option.some.inj hb
    have hkc : n.kind.isContext = true := by rw [hk]; rfl
    exact standsFor_bound rfl hkc hp (by simpa using ⟨hopen hkc, ha⟩) (.inl rfl)

/-- The context of a declaration after binding, given what binding does to smaller trees: an
extension binds the type that it extends. -/
theorem boundContext_standsFor {context x : Node} {lists : List Node} (h : context.Formed)
    (hbind : ∀ {m b : Node}, sizeOf m ≤ sizeOf context → m.Formed →
      bindArguments m lists = some b → StandsFor b m)
    (hx : boundContext context lists = some x) : StandsFor x context := by
  unfold boundContext at hx
  split at hx
  next hk =>
    split at hx
    next m extended more hce =>
      obtain ⟨e, he, rfl⟩ := Option.map_eq_some_iff.mp hx
      have hlt : sizeOf extended < sizeOf context := sizeOf_lt_of_mem_children (by simp [hce])
      refine standsFor_extension h (by simpa using hk) hce ?_
      exact hbind (by omega) (h.child (by simp [hce])) he
    next => cases hx
  next => exact hbind (Nat.le_refl _) h hx

/-- A declaration keeps its kind when only its context takes arguments. -/
theorem rebuilt_standsFor {n context r : Node} {parts lists : List Node} (h : n.Formed)
    (hcs : n.children = context :: parts)
    (hcontext : ∀ x, boundContext context lists = some x → StandsFor x context)
    (hr : rebuilt n context parts lists = some r) : StandsFor r n ∧ r.kind = n.kind := by
  have hp : n.payload = .none := payload_eq_none h.sound (by simp [hcs])
  unfold rebuilt at hr
  split at hr
  · obtain rfl := Option.some.inj hr
    exact ⟨⟨h, hp, hp, .inl rfl⟩, rfl⟩
  · obtain ⟨x, hx, rfl⟩ := Option.map_eq_some_iff.mp hr
    exact ⟨standsFor_branch h hcs (hcontext x hx), rfl⟩

/-- What binding returns can stand where the declaration stood. -/
theorem bindArguments_standsFor {n b : Node} {lists : List Node} (h : n.Formed)
    (hl : ∀ l ∈ lists, l.Open) (hb : bindArguments n lists = some b) : StandsFor b n := by
  induction hsize : sizeOf n using Nat.strongRecOn generalizing n b lists with
  | _ size ih =>
  subst hsize
  -- without a resolver there are no symbolic references
  have hk : n.kind ≠ .typeSymbolicReference ∧ n.kind ≠ .protocolSymbolicReference := by
    have haccepts := h.sound.accepts trivial
    refine ⟨fun hk => ?_, fun hk => ?_⟩ <;> simp [hk, Kind.accepts] at haccepts
  cases lists with
  | nil => simp at hb
  | cons arguments outer =>
  cases hcs : n.children with
  | nil => simp [bindArguments_leaf hk hcs] at hb
  | cons context parts =>
  have hrebuilt {left : List Node} (hl : ∀ l ∈ left, l.Open) {r : Node}
      (hr : rebuilt n context parts left = some r) : StandsFor r n ∧ r.kind = n.kind := by
    have hlt : sizeOf context < sizeOf n := sizeOf_lt_of_mem_children (by simp [hcs])
    refine rebuilt_standsFor h hcs (fun x hx => ?_) hr
    exact boundContext_standsFor (h.child (by simp [hcs]))
      (fun hle hm hb => ih _ (by omega) hm hl hb rfl) hx
  have houter : ∀ l ∈ outer, l.Open := fun l hm => hl l (List.mem_cons_of_mem _ hm)
  rw [bindArguments_cons hk hcs] at hb
  split at hb
  next => exact (hrebuilt hl hb).1
  split at hb
  next => exact (hrebuilt houter hb).1
  next =>
    obtain ⟨r, hr, hb⟩ := Option.bind_eq_some_iff.mp hb
    obtain ⟨hs, hkind⟩ := hrebuilt houter hr
    exact (bindOne?_standsFor hs.formed hs.bare (hl arguments (by simp)) hb).trans hs hkind

theorem popRetroactiveConformances_holds :
    Holds H popRetroactiveConformances fun m => ∀ n ∈ m, n.Open := by
  unfold popRetroactiveConformances
  refine popRun_holds.bind fun cs hcs => ?_
  split
  · exact .ret (by simp)
  · exact .ret (by simpa using open_branch rfl fun c hc => (hcs c hc).1.child)

theorem popArgumentLists_holds (n : Nat) :
    Holds H (popArgumentLists n) fun lists => ∀ l ∈ lists, l.Open := by
  induction n with
  | zero => exact .fail
  | succ n ih =>
    rw [popArgumentLists]
    refine popRun_holds.bind fun types htypes => popMarker_holds.bind fun _ _ => ?_
    have hlist : (branch .typeList types).Open :=
      open_branch rfl fun t ht => (htypes t ht).1.child
    refine .ite (fun _ => .ret (by simpa using hlist)) fun _ => ?_
    exact popKind_holds.bind fun _ _ => ih.bind fun lists hlists =>
      .ret (by simpa using ⟨hlist, hlists⟩)

/-- The lists of arguments and the retroactive conformances that come with them. -/
theorem popBoundGenerics_holds : Holds H popBoundGenerics fun (lists, conformances) =>
    (∀ l ∈ lists, l.Open) ∧ ∀ c ∈ conformances, c.Open :=
  popRetroactiveConformances_holds.bind fun _ hc => stackSize_holds.bind fun _ _ =>
    (popArgumentLists_holds _).bind fun _ hl => .ret ⟨hl, hc⟩

theorem boundGenericType_builds : Builds boundGenericType := by
  unfold boundGenericType
  refine .bind popBoundGenerics_holds ?_
  rintro ⟨lists, conformances⟩ ⟨hl, hc⟩
  refine .bind popBindable_holds fun n hn => .bind Keeps.ofOption fun b hb => ?_
  have hs := bindArguments_standsFor hn.1.formed hl hb
  refine builds_remember (open_typeOf ?_).part (.inr rfl)
  cases conformances with
  | none => exact hs.isOpen hn.1
  | some c => exact hs.open_addChild hn.1 hn.2 (hc c rfl)

/-! ## Protocols and generic parameters -/

theorem nominalType_builds {k : Kind} (hk : k.isNominal = true) : Builds (nominalType k) :=
  .bind popDeclName_holds fun _ hn => .bind popContext_holds fun _ hc =>
    builds_remember (open_typeOf (open_nominal hk hc.child hn.child)).part (.inr rfl)

theorem popProtocol_holds : Holds H popProtocol Open := by
  unfold popProtocol
  refine popKind?_holds.bind fun m hm => ?_
  cases m with
  | some t => exact Keeps.require.bind fun _ _ => .ret (open_of_kind (hm t rfl) rfl)
  | none =>
    refine popKind?_holds.bind fun m hm => ?_
    cases m with
    | some r => exact .ret (open_of_kind (hm r rfl) rfl)
    | none =>
      exact popDeclName_holds.bind fun _ hn => popContext_holds.bind fun _ hc =>
        .ret (open_typeOf (open_nominal rfl hc.child hn.child))

theorem aroundProtocol_holds {k : Kind} (hk : k.isPlain = true) :
    Holds H (aroundProtocol k) Open :=
  popProtocol_holds.bind fun _ hp => .ret (open_branch hk (by simpa using hp.child))

theorem popProtocolList_holds :
    Holds H popProtocolList fun n => n.Open ∧ n.kind = .protocolList := by
  unfold popProtocolList
  refine (popList_holds popProtocol_holds).bind fun ps hps => .ret ⟨?_, rfl⟩
  have hlist : (branch .typeList ps).Open := open_branch rfl fun p hp => (hps p hp).child
  exact open_through rfl (by simpa using hlist) rfl

theorem genericParameterIndex_holds : Holds H genericParameterIndex Open := by
  unfold genericParameterIndex
  refine Keeps.nextIf.bind fun _ _ => .ite (fun _ => ?_) fun _ => Keeps.nextIf.bind fun _ _ =>
    .ite (fun _ => ?_) fun _ => ?_
  · exact Keeps.index.bind fun _ _ => Keeps.successor.bind fun _ _ => Keeps.index.bind fun _ _ =>
      .ret (open_genericParameter _ _)
  · exact .ret (open_genericParameter _ _)
  · exact Keeps.index.bind fun _ _ => Keeps.successor.bind fun _ _ =>
      .ret (open_genericParameter _ _)

/-! ## Signatures -/

theorem parameterCount_holds : Holds H parameterCount fun n => n.Open := by
  have hend (count : Nat) :
      (ofIndex .dependentGenericParamCount (UInt64.ofNat count)).Open :=
    (part_ofIndex rfl (by decide)).open rfl
  unfold parameterCount
  refine Keeps.nextIf.bind fun _ _ => ?_
  dsimp only
  split
  · exact .ret (hend 0)
  · exact Keeps.index.bind fun _ _ => Keeps.successor.bind fun count _ => .ret (hend count)

theorem genericSignature_holds (hasCounts : Bool) : Holds H (genericSignature hasCounts) Open := by
  have hend (counts : List Node) (hc : ∀ c ∈ counts, c.Open) : Holds H
      (popRun Kind.isRequirement >>= fun requirements =>
        pure (.branch .dependentGenericSignature (counts ++ requirements))) Open := by
    refine popRun_holds.bind fun requirements hr => .ret (open_branch rfl fun c hm => ?_)
    rcases List.mem_append.mp hm with hm | hm
    · exact (hc c hm).child
    · exact (hr c hm).1.child
  unfold genericSignature
  dsimp only
  split
  · exact parameterCount_holds.manyUntil.bind fun counts hc => hend counts hc
  · exact hend _ (by simpa using (part_ofIndex rfl (by decide)).open rfl)

theorem genericType_holds : Holds H genericType Open := by
  unfold genericType
  refine popKind_holds.bind fun _ hs => popType_holds.bind fun t ht => .ret (open_typeOf ?_)
  refine open_through rfl (by simpa using ⟨open_of_kind hs rfl, ht.1⟩) ?_
  simp [Kind.needs, meets, ht.2]

theorem popAssociatedTypeName_holds : Holds H popAssociatedTypeName Open := by
  have hend (protocol : Option Node) (hp : ∀ p ∈ protocol, p.Part) : Holds H
      (popKind .identifier >>= fun name =>
        pure (branch .dependentAssociatedTypeRef (name :: protocol.toList))) Open := by
    refine popKind_holds.bind fun name hn => .ret (open_branch rfl ?_)
    simpa using ⟨hn.1.child, fun p h => (hp p h).child⟩
  unfold popAssociatedTypeName
  refine popKind?_holds.bind fun m hm => ?_
  cases m with
  | some t => exact Keeps.require.bind fun _ _ => hend _ (by simpa using (hm t rfl).1)
  | none => exact popKind?_holds.bind fun m hm => hend m fun p hp => (hm p hp).1

/-- The type that was read, or else the one on the stack. -/
theorem typeOrPop_holds {base : Option Node} (h : ∀ b ∈ base, b.Open) :
    Holds H (typeOrPop base) fun n => n.Open ∧ n.kind = .type := by
  cases base with
  | some b => exact .ret ⟨open_typeOf (h b rfl), rfl⟩
  | none => exact popType_holds

theorem open_memberType {base name : Node} (hb : base.Open) (hn : name.Open) :
    (memberType base name).Open ∧ (memberType base name).kind = .type :=
  ⟨open_typeOf (open_branch rfl (by simpa using ⟨hb.child, hn.child⟩)), rfl⟩

/-- A path of associated types from a type on is a type. -/
theorem open_foldl_memberType {names : List Node} (hn : ∀ n ∈ names, n.Open) {base : Node}
    (hb : base.Open ∧ base.kind = .type) :
    (names.foldl memberType base).Open ∧ (names.foldl memberType base).kind = .type := by
  induction names generalizing base with
  | nil => exact hb
  | cons n names ih =>
    rw [List.forall_mem_cons] at hn
    exact ih hn.2 (open_memberType hb.1 hn.1)

theorem associatedType_holds {base : Option Node} (h : ∀ b ∈ base, b.Open) :
    Holds H (associatedType base) fun n => n.Open ∧ n.kind = .type :=
  popAssociatedTypeName_holds.bind fun _ hn => (typeOrPop_holds h).bind fun _ hb =>
    .ret (open_memberType hb.1 hn)

theorem associatedTypePath_holds {base : Option Node} (h : ∀ b ∈ base, b.Open) :
    Holds H (associatedTypePath base) fun n => n.Open ∧ n.kind = .type :=
  (popMarked_holds popAssociatedTypeName_holds).bind fun _ hn =>
    (typeOrPop_holds h).bind fun _ hb => .ret (open_foldl_memberType hn hb)

theorem popAssociatedTypePath_holds : Holds H popAssociatedTypePath Open :=
  (popMarked_holds popAssociatedTypeName_holds).bind fun _ hn =>
    .ret (open_branch rfl fun n h => (hn n h).child)

/-- An associated type that is remembered. -/
theorem builds_remembered {d : Decoder Node}
    (h : Holds maxHeight d fun n => n.Open ∧ n.kind = .type) : Builds (d >>= remember) :=
  .bind h fun _ hn => builds_remember hn.1.part (.inr hn.2)

/-! ## Requirements -/

theorem requirementSubject_builds (form : Subject) : Builds (requirementSubject form) := by
  cases form with
  | parameter =>
    refine .of_open ?_
    exact genericParameterIndex_holds.bind fun _ hp => .ret (open_typeOf hp)
  | member =>
    exact .bind genericParameterIndex_holds fun p hp =>
      builds_remembered (associatedType_holds (by simpa using hp))
  | memberPath =>
    exact .bind genericParameterIndex_holds fun p hp =>
      builds_remembered (associatedTypePath_holds (by simpa using hp))
  | substitution => exact .of_holds popKind_holds fun _ h => h.1

/-- A requirement stands above its subject. -/
theorem requirement_above {k : Kind} {subject : Node} {cs : List Node} (hk : k.isPlain = true)
    (hs : subject.Part) (hc : ∀ c ∈ cs, c.Part) :
    (branch k (subject :: cs)).Part ∧ subject.height ≤ (branch k (subject :: cs)).height := by
  refine ⟨(open_branch hk ?_).part, Nat.le_of_lt (height_lt_heightAbove (by simp))⟩
  simpa using ⟨hs.child, fun c h => (hc c h).child⟩

/-- The subject comes before the layout, so it decides about the height. -/
theorem layoutRequirement_holds {subject : Node} (hs : subject.Part) :
    Holds H (layoutRequirement subject) fun n => n.Part ∧ subject.height ≤ n.height := by
  -- whatever its numbers are, a layout with a name stands above its subject
  have hend (c : Char) (numbers : List Node) (hl : (Render.layoutName? c.toString).isSome = true)
      (hn : ∀ n ∈ numbers, n.Part) : (branch .dependentGenericLayoutRequirement
        (subject :: .identifier c.toString :: numbers)).Part ∧ subject.height ≤
          (branch .dependentGenericLayoutRequirement
            (subject :: .identifier c.toString :: numbers)).height := by
    refine ⟨(open_branch_of_needs rfl rfl ?_ ?_).part,
      Nat.le_of_lt (height_lt_heightAbove (by simp))⟩
    · simpa using ⟨hs.child, (part_identifier _).child, fun n h => (hn n h).child⟩
    · simpa [Kind.needs, meets, Node.identifier, Node.ofText, Node.ofPayload, Node.text?] using hl
  unfold layoutRequirement
  refine Keeps.nextChar.bind fun c _ => ?_
  dsimp only
  split
  iterate 6 exact .ret (hend _ [] rfl (by simp))
  iterate 2
    exact numberNode_holds.bind fun _ h1 => numberNode_holds.bind fun _ h2 =>
      .ret (hend _ _ rfl (by simpa using ⟨h1.1, h2.1⟩))
  iterate 2 exact numberNode_holds.bind fun _ h1 => .ret (hend _ _ rfl (by simpa using h1.1))
  exact .fail

/-- What a requirement of each form takes after its subject. -/
theorem requirementRest_builds (constraint : Constraint) (form : Subject) :
    Builds (requirementSubject form >>= fun subject =>
      match constraint with
      | .protocol => popProtocol >>= fun p =>
          pure (.branch .dependentGenericConformanceRequirement [subject, p])
      | .baseClass => popKind .type >>= fun t =>
          pure (.branch .dependentGenericConformanceRequirement [subject, t])
      | .sameType => popKind .type >>= fun t =>
          pure (.branch .dependentGenericSameTypeRequirement [subject, t])
      | .layout => layoutRequirement subject) := by
  refine (requirementSubject_builds form).wrap fun H subject hs => ?_
  -- a protocol, a class or a type follows the subject, or a layout
  cases constraint with
  | protocol =>
    exact popProtocol_holds.bind fun p hp =>
      .ret (requirement_above rfl hs (by simpa using hp.part))
  | baseClass =>
    exact popType_holds.bind fun t ht =>
      .ret (requirement_above rfl hs (by simpa using ht.1.part))
  | sameType =>
    exact popType_holds.bind fun t ht =>
      .ret (requirement_above rfl hs (by simpa using ht.1.part))
  | layout => exact layoutRequirement_holds hs

theorem genericRequirement_builds : Builds genericRequirement := by
  unfold genericRequirement
  refine .bind Keeps.nextChar fun c _ => ?_
  dsimp only
  split
  · exact requirementRest_builds _ _
  · refine .bind Keeps.pushBack fun _ _ => ?_
    rw [pure_bind]
    exact requirementRest_builds .protocol .parameter

/-! ## Archetypes -/

theorem opaqueResult_builds : Builds opaqueResult := by
  unfold opaqueResult
  refine .bind Keeps.index fun position _ => .bind popBoundGenerics_holds ?_
  rintro ⟨lists, conformances⟩ ⟨hl, hc⟩
  refine .bind pop_holds fun name hn => builds_remember (open_typeOf (open_branch rfl ?_)).part (.inr rfl)
  have hlist : (branch .typeList lists.reverse).Open :=
    open_branch rfl fun l h => (hl l (List.mem_reverse.mp h)).child
  simpa using ⟨hn.child, child_index _, hlist.child, fun c h => (hc c h).child⟩

theorem archetype_builds : Builds archetype := by
  unfold archetype
  refine .bind Keeps.nextChar fun c _ => ?_
  -- a type by its name, three forms by themselves, and the associated types of each sort of
  -- parameter
  split
  · refine .bind popKind_holds fun name hn => .bind popTypeChild_holds fun base hb =>
      builds_remember (open_typeOf (open_branch_of_needs rfl rfl ?_ ?_)).part (.inr rfl)
    · simpa using ⟨hb.child, hn.1.child⟩
    · simpa [Kind.needs, meets] using identifier_isText hn
  · exact .of_open (aroundContext_holds rfl)
  · exact opaqueResult_builds
  · exact .of_open (.ret (open_typeOf ((part_leaf rfl (by decide)).open rfl)))
  · exact builds_remembered (associatedType_holds (by simp))
  · exact builds_remembered (associatedTypePath_holds (by simp))
  · exact .bind genericParameterIndex_holds fun p hp =>
      builds_remembered (associatedType_holds (by simpa using hp))
  · exact .bind genericParameterIndex_holds fun p hp =>
      builds_remembered (associatedTypePath_holds (by simpa using hp))
  · exact builds_remembered (associatedType_holds (by simpa using open_genericParameter 0 0))
  · exact builds_remembered (associatedTypePath_holds (by simpa using open_genericParameter 0 0))
  · exact .fail

end SwiftMangling.Current
