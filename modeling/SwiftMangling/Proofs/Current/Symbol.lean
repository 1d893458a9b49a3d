import SwiftMangling.Proofs.Current.Thunk

/-!
# Symbols of the current scheme are sound

Every operator builds a part, and only parts that are no higher than `maxHeight` stay on the stack.
The root of a symbol is built from these parts. It is one higher than the highest of them, and
every forwarder that encloses them adds one more.
-/

namespace SwiftMangling

/-- The type of a class or a protocol, without the node around it. -/
def typeContent (isProtocol : Bool) (m name : Node) : Node :=
  if isProtocol then
    .branch .protocolList [.branch .typeList [.typeOf (.branch .protocolType [m, name])]]
  else .branch .classType [m, name]

/-- The tree of a class or a protocol. -/
def typeTree (isProtocol : Bool) (m name : Node) : Node :=
  .branch .global [.branch .typeMangling [.typeOf (typeContent isProtocol m name)]]

end SwiftMangling

namespace SwiftMangling.Current

open Decoding Node

variable {H : Nat} {k : Kind}

/-! ## Operators -/

theorem conformance_builds : Builds conformance := by
  unfold conformance
  refine .bind Keeps.nextChar fun c _ => ?_
  split
  · exact .of_open associatedConformance_holds
  · exact .of_open concreteConformance_holds
  · exact .of_open rootConformance_holds
  · exact .of_open inheritedConformance_holds
  · exact .of_open (aroundProtocol_holds rfl)
  · exact .of_open (aroundProtocol_holds rfl)
  · exact .bind Keeps.pushBack fun _ _ => .bind Keeps.pushBack fun _ _ => identifier_builds

theorem suffix_holds : Holds H suffix Part := by
  unfold suffix
  exact Keeps.pushBack.bind fun _ _ => Keeps.move.bind fun _ _ =>
    .ret (part_ofText rfl (by decide))

/-- Every operator builds a part, and leaves the tables as they should be. -/
theorem operatorOf_builds (c : Char) : Builds (operatorOf c) := by
  unfold operatorOf
  split
  · exact .of_part substitutionReference_holds
  · exact .of_open builtinType_holds
  · exact nominalType_builds rfl
  · exact .of_open (aroundType_holds rfl (by decide))
  · exact .of_open extensionContext_holds
  · exact .of_open plainFunction_holds
  · exact boundGenericType_builds
  · exact conformance_builds
  · exact .of_open loweredFunctionType_holds
  · exact .of_part (holds_leaf rfl (by decide))
  · exact .of_open localName_holds
  · exact .of_open metadata_holds
  · exact .of_open (aroundType_holds rfl (by decide))
  · exact nominalType_builds rfl
  · exact nominalType_builds rfl
  · exact archetype_builds
  · exact genericRequirement_builds
  · exact standardSubstitution_builds
  · exact .of_part thunk_holds
  · exact nominalType_builds rfl
  · exact .of_part witness_holds
  · exact specialType_builds
  · exact .of_part typeMark_holds
  · exact .of_open (aroundEntity_holds rfl)
  · exact nominalType_builds rfl
  · exact popFunctionType_builds rfl (by decide)
  · exact .of_part (holds_leaf rfl (by decide))
  · exact .of_open functionEntity_holds
  · exact .of_open retroactiveConformance_holds
  · exact .of_open (wrapTypeChild_holds rfl (by decide))
  · exact .of_open subscriptEntity_holds
  · exact .of_open (genericSignature_holds false)
  · exact .of_open (wrapType_holds rfl (by decide))
  · exact .of_open (wrapTypeChild_holds rfl (by decide))
  · exact .of_part operatorName_holds
  · exact .of_open (popProtocolList_holds.bind fun _ h => .ret (open_typeOf h.1))
  · exact .of_open (genericParameterIndex_holds.bind fun _ h => .ret (open_typeOf h))
  · exact .of_open (genericSignature_holds true)
  · exact .of_open (.ret (open_module _))
  · exact .of_open popTuple_holds
  · exact .of_open genericType_holds
  · exact .of_open variableEntity_holds
  · exact .of_part valueWitness_holds
  · exact .of_open (.ret (open_typeOf (open_genericParameter 0 0)))
  · exact .of_part (holds_leaf rfl (by decide))
  · exact .of_open (wrapTypeChild_holds rfl (by decide))
  · exact .of_part (holds_leaf rfl (by decide))
  · exact .of_part suffix_holds
  · exact .bind Keeps.pushBack fun _ _ => identifier_builds

/-- Without a resolver a symbolic reference is refused. -/
theorem symbolicReference_builds (control : UInt8) : Builds (symbolicReference control) := by
  have hresolve (r : Reference) : Holds maxHeight (resolve r) fun _ => False := by
    unfold resolve
    refine Keeps.read.bind fun config hc => ?_
    rw [show config.resolver = none from hc]
    exact .fail
  unfold symbolicReference
  exact .bind Keeps.look fun tail _ => .bind Keeps.scan fun _ _ =>
    .bind Keeps.ofOption fun x _ => .bind (hresolve _) fun _ h => h.elim

theorem operator_builds : Builds operator := by
  unfold operator skipPadding
  refine .bind (Q := fun _ => True) (Keeps.takeWhile.bind fun _ _ => .ret trivial) fun _ _ =>
    .bind Keeps.nextByte fun b _ => ?_
  split
  · exact symbolicReference_builds b
  · exact operatorOf_builds _

/-! ## The loop over operators -/

/-- One round of the loop over operators. -/
def round : Decoder Unit := do
  let node ← operator
  require (node.height ≤ maxHeight)
  push node

/-- One operator is read and pushed, and then the others. -/
theorem operatorsFrom_succ (n : Nat) :
    operatorsFrom (n + 1) = (do
      if ← atEnd then return ()
      round
      operatorsFrom n) := by
  rw [operatorsFrom, round]
  simp only [bind_assoc]

/-- A round keeps the state sound. If it fails, only the heights in the table are out of bounds. -/
theorem round_spec :
    Triple Unresolved (State.Sound maxHeight) round (fun _ s => s.Sound maxHeight)
      fun s => ∃ H, s.Sound H := by
  refine Triple.bind operator_builds fun node =>
    Triple.intro_pre (fun _ hs => hs.1) fun hnode => ?_
  -- only the new node can be above the limit, and it is checked
  refine Triple.pre (P := State.Sound (max maxHeight node.height)) ?_ fun _ hs => hs.2
  refine Keeps.require.bind_triple (fun _ hs => ⟨_, hs⟩) fun _ hle => ?_
  replace hle : node.height ≤ maxHeight := by simpa using hle
  rw [Nat.max_eq_left hle]
  exact Triple.mono (push_holds hnode hle) (fun _ hs => hs) (fun _ _ hs => hs.2) fun _ hs => ⟨_, hs⟩

/-- A run keeps the stack and the tables sound; where it fails they are only no longer bounded. -/
theorem operatorsFrom_spec (n : Nat) :
    Triple Unresolved (State.Sound maxHeight) (operatorsFrom n) (fun _ s => s.Sound maxHeight)
      fun s => ∃ H, s.Sound H := by
  induction n with
  | zero => exact Triple.fail fun _ hs => ⟨_, hs⟩
  | succ n ih =>
    rw [operatorsFrom_succ]
    refine Keeps.look.bind_triple (fun _ hs => ⟨_, hs⟩) fun atEnd _ => ?_
    split
    · exact Triple.ret fun _ hs => hs
    · exact Triple.bind round_spec fun _ => ih

theorem operators_spec :
    Triple Unresolved (State.Sound maxHeight) operators (fun _ s => s.Sound maxHeight)
      fun s => ∃ H, s.Sound H :=
  Keeps.look.bind_triple (fun _ hs => ⟨_, hs⟩) fun _ _ => operatorsFrom_spec _

/-! ## The root -/

/-- The root of a symbol with the given attributes, the last one first: a forwarder encloses what
comes after it. -/
def enclose (level : Node) (parts : List Node) : List Node → Node
  | [] => level.addChildren parts
  | a :: as =>
    if isForwarder a.kind then level.addChild (enclose a parts as)
    else enclose (level.addChild a) parts as

/-- Sorting attributes into levels and closing the levels from the inside is `enclose`. -/
theorem foldl_attributeLevels (level : Node) (outer parts as : List Node) :
    (attributeLevels level outer as).2.foldl (fun inner level => level.addChild inner)
        ((attributeLevels level outer as).1.addChildren parts) =
      outer.foldl (fun inner level => level.addChild inner) (enclose level parts as) := by
  induction as generalizing level outer with
  | nil => rfl
  | cons a as ih =>
    rw [attributeLevels, enclose]
    split
    · rw [ih, List.foldl_cons]
    · exact ih _ _

/-- The number of forwarders that enclose each other, each the last child of the one around it. -/
def forwarderDepth (n : Node) : Nat :=
  match _h : n.last? with
  | none => 0
  | some c => if isForwarder c.kind then forwarderDepth c + 1 else 0
termination_by sizeOf n
decreasing_by exact sizeOf_lt_of_mem_children (List.mem_of_getLast? _h)

theorem forwarderDepth_of_last? {n c : Node} (h : n.last? = some c)
    (hk : isForwarder c.kind = true) : forwarderDepth n = forwarderDepth c + 1 := by
  rw [forwarderDepth.eq_def]
  split
  next hn => simp [hn] at h
  next d hd =>
    obtain rfl : d = c := by simpa [hd] using h
    rw [if_pos hk]

/-- The kinds of roots take any parts. -/
theorem isPlain_of_isForwarder (h : isForwarder k = true) :
    k.isPlain = true ∧ k.isLabelled = false := by
  unfold isForwarder at h
  split at h
  case h_3 => cases h
  all_goals exact ⟨rfl, rfl⟩

/-- A lower child leaves a node as high as it was allowed to be. -/
theorem height_addChild_le {n c : Node} {m : Nat} (hn : n.height ≤ m) (hc : c.height < m) :
    (n.addChild c).height ≤ m := by
  unfold addChild
  split
  · exact Nat.max_le.mpr ⟨hn, hc⟩
  · exact hn

/-- Children that are low enough leave a node low enough. -/
theorem height_addChildren_le {n : Node} {cs : List Node} {m : Nat} (h : n.Sound True)
    (hn : n.height ≤ m + 1) (hc : ∀ c ∈ cs, c.height ≤ m) : (n.addChildren cs).height ≤ m + 1 := by
  unfold addChildren
  split
  · refine heightAbove_le fun c hm => ?_
    rcases List.mem_append.mp hm with hm | hm
    · have := h.lower hm
      omega
    · exact hc c hm
  · exact hn

/-- A forwarder adds one to the height that it may reach. -/
theorem height_addChild_forwarder {n c : Node} {m : Nat} (hn : n.height ≤ m)
    (hc : c.height ≤ m + forwarderDepth c) (hk : isForwarder c.kind = true) :
    (n.addChild c).height ≤ m + forwarderDepth (n.addChild c) := by
  unfold addChild
  split
  next ha =>
    have hlast : Node.last? { n with
        children := n.children ++ [c], height := max n.height (c.height + 1) } = some c := by
      simp [Node.last?]
    rw [forwarderDepth_of_last? hlast hk]
    show max n.height (c.height + 1) ≤ _
    omega
  next => omega

/-- The root is sound, and only the forwarders in it raise it above the nodes of the stack. -/
theorem enclose_spec {as parts : List Node} (hparts : ∀ p ∈ parts, p.Child ∧ p.height ≤ maxHeight)
    (has : ∀ a ∈ as, a.Part ∧ a.height ≤ maxHeight) {level : Node} (h : level.Open)
    (hk : level.kind.isPlain = true ∧ level.kind.isLabelled = false)
    (hle : level.height ≤ maxHeight + 1) :
    (enclose level parts as).Open ∧ (enclose level parts as).kind = level.kind ∧
      (enclose level parts as).height ≤
        maxHeight + 1 + forwarderDepth (enclose level parts as) := by
  induction as generalizing level with
  | nil =>
    rw [enclose]
    refine ⟨open_addChildren h hk.1 hk.2 fun p hp => (hparts p hp).1, kind_addChildren, ?_⟩
    have := height_addChildren_le h.sound hle fun p hp => (hparts p hp).2
    omega
  | cons a as ih =>
    rw [List.forall_mem_cons] at has
    obtain ⟨⟨ha, hal⟩, has⟩ := has
    rw [enclose]
    split
    next hf =>
      -- a forwarder opens a level of its own
      have hap := isPlain_of_isForwarder hf
      have hao : a.Open := ⟨ha.formed, isSealed_of_isPlain hap.1, ha.ne_labelList⟩
      obtain ⟨hopen, hkind, hheight⟩ := ih has hao hap (by omega)
      refine ⟨open_addChild h hk.1 hk.2 hopen.child, kind_addChild, ?_⟩
      exact height_addChild_forwarder hle hheight (by rw [hkind]; exact hf)
    next =>
      -- any other attribute is a child of this level
      obtain ⟨hopen, hkind, hheight⟩ := ih has (open_addChild h hk.1 hk.2 ha.child)
        (by rw [kind_addChild]; exact hk) (height_addChild_le hle (by omega))
      exact ⟨hopen, by rw [hkind, kind_addChild], hheight⟩

/-- A type stands for its content. -/
theorem part?_spec {n p : Node} (h : n.Part ∧ n.height ≤ maxHeight) (hp : part? n = some p) :
    p.Child ∧ p.height ≤ maxHeight := by
  unfold part? at hp
  split at hp
  next hk =>
    have hm : p ∈ n.children := List.mem_of_head? hp
    have := h.1.sound.lower hm
    exact ⟨(h.1.formed.open_child (by rw [beq_iff_eq.mp hk]; rfl) hm).child, by omega⟩
  next =>
    obtain rfl := Option.some.inj hp
    exact ⟨h.1.child, h.2⟩

/-- The root of a symbol of the current scheme. -/
structure IsRoot (n : Node) : Prop where
  formed : n.Formed
  kind : n.kind = .global
  height : n.height ≤ maxHeight + 1 + forwarderDepth n

theorem IsRoot.sound {n : Node} (h : IsRoot n) : n.Sound True :=
  h.formed.sound

theorem symbolRoot_holds : Holds maxHeight symbolRoot IsRoot := by
  unfold symbolRoot
  refine stackSize_holds.bind fun _ _ => popWhere_low.many.bind fun attributes ha => ?_
  dsimp only
  refine popAll_low.bind fun nodes hn => Keeps.ofOption.bind fun parts hp =>
    Keeps.require.bind fun _ _ => .ret ?_
  rw [foldl_attributeLevels, List.foldl_nil]
  -- every part is a node of the stack, or what a type node of the stack holds
  have hparts : ∀ p ∈ parts, p.Child ∧ p.height ≤ maxHeight := by
    intro p hm
    obtain ⟨n, hnm, hpn⟩ := exists_of_mem_mapM hp hm
    exact part?_spec (hn n hnm) hpn
  have hglobal : (leaf .global).Open := (part_leaf rfl (by decide)).open rfl
  obtain ⟨hopen, hkind, hheight⟩ :=
    enclose_spec hparts (fun a h => (ha a h).1) hglobal ⟨rfl, rfl⟩ (by decide)
  exact ⟨hopen.formed, hkind, hheight⟩

/-! ## Names of the runtime -/

/-- Reads the module of a runtime type name. -/
def runtimeModule : Decoder Node := do
  if ← nextIf 's' then return .module Node.standardLibrary
  return (← identifier).withKind .moduleName

/-- Reads a runtime type name behind its first letter. -/
def runtimeType (isProtocol : Bool) : Decoder Node := do
  let m ← runtimeModule
  let name ← identifier
  if isProtocol then expect '_'
  require (← atEnd)
  return typeTree isProtocol m name

theorem runtimeTypeName_eq :
    runtimeTypeName = nextIf 'C' >>= fun isClass =>
      if isClass then runtimeType false else expect 'P' >>= fun _ => runtimeType true := by
  have hmodule (f : Node → Decoder Node) : (runtimeModule >>= f) =
      nextIf 's' >>= fun isStandard => if isStandard then f (.module Node.standardLibrary)
        else identifier >>= fun m => f (m.withKind .moduleName) := by
    rw [runtimeModule, bind_assoc]
    refine bind_congr fun isStandard => ?_
    split <;> simp only [bind_assoc, pure_bind]
  unfold runtimeTypeName runtimeType
  refine bind_congr fun isClass => ?_
  simp only [hmodule, pure_bind]
  rfl

/-- A name of the runtime is a symbol that mangles a class or a protocol. -/
theorem isRoot_typeTree (isProtocol : Bool) {m n : Node} (hm : m.Open ∧ m.height = 1)
    (hn : ∃ s, n = .identifier s) : IsRoot (typeTree isProtocol m n) := by
  obtain ⟨s, rfl⟩ := hn
  have hnominal {k : Kind} (hk : k.isNominal = true) : (branch k [m, .identifier s]).Open :=
    open_nominal hk hm.1.child (part_identifier s).child
  -- these trees are far below the limit
  have hroot {t : Node} (ht : t.Open) (hle : t.height ≤ 6) :
      IsRoot (branch .global [branch .typeMangling [t]]) := by
    have hmangling : (branch .typeMangling [t]).Open := open_around rfl (by decide) ht
    have hle' : (branch .typeMangling [t]).height ≤ 7 := heightAbove_le (by simpa using hle)
    have hle'' : (branch .global [branch .typeMangling [t]]).height ≤ 8 :=
      heightAbove_le (by simpa using hle')
    refine ⟨(open_branch rfl (by simpa using hmangling.child)).formed, rfl, ?_⟩
    unfold maxHeight
    omega
  cases isProtocol with
  | true =>
    have hprotocol : (typeOf (branch .protocolType [m, .identifier s])).Open :=
      open_typeOf (hnominal rfl)
    have hlist : (branch .typeList [typeOf (branch .protocolType [m, .identifier s])]).Open :=
      open_branch rfl (by simpa using hprotocol.child)
    refine hroot (t := typeOf (typeContent true m (.identifier s)))
      (open_typeOf (open_around rfl (by decide) hlist)) ?_
    simp [typeContent, typeOf, branch, heightAbove, hm.2, Node.identifier, ofText, ofPayload]
  | false =>
    refine hroot (t := typeOf (typeContent false m (.identifier s)))
      (open_typeOf (hnominal rfl)) ?_
    simp [typeContent, typeOf, branch, heightAbove, hm.2, Node.identifier, ofText, ofPayload]

theorem runtimeModule_holds :
    Holds maxHeight runtimeModule fun m => m.Open ∧ m.height = 1 := by
  unfold runtimeModule
  refine Keeps.nextIf.bind fun _ _ => .ite (fun _ => .ret ⟨open_module _, rfl⟩) fun _ =>
    (identifier_holds (by decide)).bind fun n hn => .ret ?_
  obtain ⟨s, rfl⟩ := hn
  exact ⟨open_module s, rfl⟩

theorem runtimeType_holds (isProtocol : Bool) :
    Holds maxHeight (runtimeType isProtocol) IsRoot := by
  unfold runtimeType
  refine runtimeModule_holds.bind fun m hm => (identifier_holds (by decide)).bind fun name hname => ?_
  dsimp only
  refine .ite (fun _ => Keeps.expect.bind fun _ _ => ?_) fun _ => ?_
  all_goals
    exact Keeps.look.bind fun _ _ => Keeps.require.bind fun _ _ =>
      .ret (isRoot_typeTree isProtocol hm hname)

theorem runtimeTypeName_holds : Holds maxHeight runtimeTypeName IsRoot := by
  rw [runtimeTypeName_eq]
  exact Keeps.nextIf.bind fun _ _ => .ite (fun _ => runtimeType_holds false) fun _ =>
    Keeps.expect.bind fun _ _ => runtimeType_holds true

/-! ## Symbols -/

/-- A symbol is decoded into a root, and no references are kept beyond it. -/
theorem symbol_spec :
    Triple Unresolved (State.Sound maxHeight) symbol (fun n s => IsRoot n ∧ s.references = #[])
      fun s => s.references = #[] := by
  unfold symbol
  refine Keeps.bind_triple (Q := fun _ => True) Keeps.move (fun _ hs => hs.unasked) fun _ _ => ?_
  split
  · exact Triple.mono runtimeTypeName_holds (fun _ hs => hs) (fun _ _ h => ⟨h.1, h.2.unasked⟩)
      fun _ hs => hs.unasked
  · refine Keeps.look.bind_triple (fun _ hs => hs.unasked) fun length _ =>
      Keeps.require.bind_triple (fun _ hs => hs.unasked) fun _ _ =>
      Keeps.bind_triple (Q := fun _ => True) Keeps.move (fun _ hs => hs.unasked) fun _ _ => ?_
    refine Triple.bind (Triple.mono operators_spec (fun _ hs => hs) (fun _ _ hs => hs)
      fun _ ⟨_, hs⟩ => hs.unasked) fun _ => ?_
    exact Triple.mono symbolRoot_holds (fun _ hs => hs) (fun _ _ h => ⟨h.1, h.2.unasked⟩)
      fun _ hs => hs.unasked

/-- Every tree that the stack decoder returns without a resolver is a sound root. -/
theorem isRoot_of_decodeSymbol {input : List UInt8} {t : Node}
    (h : (decodeSymbol none input).tree = some t) : IsRoot t := by
  have hspec := symbol_spec.run ⟨Scheme.hasInlineLabels input, none⟩ (State.start input) rfl
    (sound_start input)
  unfold decodeSymbol run at h
  revert hspec h
  rcases symbol ⟨Scheme.hasInlineLabels input, none⟩ (State.start input) with ⟨_ | n, s⟩
  · intro h _; cases h
  · rintro ⟨⟩ hroot
    exact hroot.1

/-- Where there is no resolver, no reference is handed to one. -/
theorem references_symbol (inlineLabels : Bool) (input : List UInt8) :
    (symbol ⟨inlineLabels, none⟩ (State.start input)).2.references = #[] := by
  have hspec := symbol_spec.run ⟨inlineLabels, none⟩ (State.start input) rfl (sound_start input)
  revert hspec
  rcases symbol ⟨inlineLabels, none⟩ (State.start input) with ⟨_ | n, s⟩
  · exact id
  · exact And.right

end SwiftMangling.Current
