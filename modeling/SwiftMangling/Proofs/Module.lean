import SwiftMangling.Symbol.Facts
import SwiftMangling.Proofs.Node.Unbound
import SwiftMangling.Proofs.Payload

/-!
# The module of a declaration

The way from a declaration to its module leads outward through types, bound declarations and
contexts. Asking a symbol for its module follows this way, but takes all arguments off a specialized
declaration at once and goes on from what is left. Both come to the same module, unless the way
passes an anonymous context or a protocol stands inside of a specialized declaration
(`Symbol.module?_of_declaringModule?`).
-/

namespace SwiftMangling.Node

variable {n m c p : Node} {k : Kind} {s : String}

/-! ## The way outward -/

/-- The next node on the way from a node to the module that declares it. -/
def contextOf? (n : Node) : Option Node :=
  match n.kind with
  | .moduleName => none
  | .typeMangling | .type => n.first?
  | .anonymousContext => n.child? 1
  | k => if isBoundKind k then n.bound? else if k.isContext then n.first? else none

/-- The context of a node is a smaller tree, so the way outward ends. -/
theorem sizeOf_lt_of_contextOf? (h : n.contextOf? = some c) : sizeOf c < sizeOf n := by
  unfold contextOf? at h
  split at h
  case h_1 => cases h
  case h_4 => exact sizeOf_lt_of_child? h
  case h_5 =>
    split at h
    · exact sizeOf_lt_of_bound? h
    · split at h
      · exact sizeOf_lt_of_mem_children (List.mem_of_head? h)
      · cases h
  all_goals exact sizeOf_lt_of_mem_children (List.mem_of_head? h)

/-- The nodes on the way from a node to the module that declares it. -/
def wayOut (n : Node) : List Node :=
  match _h : n.contextOf? with
  | none => [n]
  | some c => n :: c.wayOut
termination_by sizeOf n
decreasing_by exact sizeOf_lt_of_contextOf? _h

/-- The name of the module at the end of the way outward. -/
def declaringModule? (n : Node) : Option String :=
  n.wayOut.getLast?.bind fun m => if m.kind == .moduleName then m.text? else none

/-- The next node whose arguments are taken away with those of `n`. -/
def stripped? (n : Node) : Option Node :=
  if isDeclaration n.kind || isBoundKind n.kind || n.kind == .extension then n.outward? else none

/-- The way without arguments goes outward, to a smaller tree. -/
theorem sizeOf_lt_of_stripped? (h : n.stripped? = some c) : sizeOf c < sizeOf n := by
  unfold stripped? at h
  split at h
  · exact sizeOf_lt_of_outward? h
  · cases h

/-- Whether taking the arguments of `n` away comes to a protocol inside of something specialized. -/
def hidesProtocol (n : Node) : Bool :=
  if n.kind == .protocolType then n.first?.any isSpecialized
  else
    match _h : n.stripped? with
    | none => false
    | some c => c.hidesProtocol
termination_by sizeOf n
decreasing_by exact sizeOf_lt_of_stripped? _h

/-- The way from a node to the module `s` passes no anonymous context, and no protocol is hidden in
anything on it. -/
inductive LeadsTo (s : String) : Node → Prop where
  | module {n : Node} (kind : n.kind = .moduleName) (text : n.text? = some s) : LeadsTo s n
  | outward {n c : Node} (kind : n.kind ≠ .anonymousContext) (free : n.hidesProtocol = false)
      (next : n.contextOf? = some c) (rest : LeadsTo s c) : LeadsTo s n

theorem wayOut_ne_nil (n : Node) : n.wayOut ≠ [] := by
  rw [wayOut.eq_def]
  split <;> simp

/-- The way outward leads to the declaring module if no context on it is anonymous or hides a
protocol. -/
theorem leadsTo_of_declaringModule? (h : n.declaringModule? = some s)
    (ha : ∀ m ∈ n.wayOut, m.kind ≠ .anonymousContext ∧ m.hidesProtocol = false) : LeadsTo s n := by
  unfold declaringModule? at h
  fun_induction wayOut n with
  | case1 n hn =>
    rw [List.getLast?_singleton, Option.bind_some] at h
    split at h
    · exact .module (by simp_all) h
    · cases h
  | case2 n c hc ih =>
    rw [List.forall_mem_cons] at ha
    rw [List.getLast?_cons_of_ne_nil c.wayOut_ne_nil] at h
    exact .outward ha.1.1 ha.1.2 hc (ih h ha.2)

/-! ## Nodes that can be restored -/

/-- A node that has what is taken from it on the way outward. -/
structure Restorable (n : Node) : Prop where
  lower : ∀ c ∈ n.children, c.height < n.height
  type : n.kind = .type → n.children ≠ []
  nominal : n.kind.isNominal = true → 2 ≤ n.count
  bound : isBoundKind n.kind = true →
    ∃ c ∈ n.first?, n.kind = .boundGenericFunction ∨ c.kind = .type

theorem Formed.restorable [Labelling] (h : n.Formed) : n.Everywhere Restorable := by
  induction h.neat with
  | @intro n here below ih =>
    have hframe := here.framed
    refine .intro ⟨fun c hc => h.sound.lower hc, fun hk hnil => ?_, hframe.nominal, hframe.bound⟩
      fun c hc => ih c hc (h.child hc)
    have := hframe.type hk
    simp [hnil] at this

/-- A nominal type has more than a parent. -/
theorem Restorable.rest_ne_nil {rest : List Node} (h : n.Restorable) (hcs : n.children = p :: rest)
    (hn : n.kind.isNominal = true) : rest ≠ [] := by
  have := h.nominal hn
  rintro rfl
  simp [count, hcs] at this

theorem isNominal_of_isRebuiltNominal (h : isRebuiltNominal k = true) : k.isNominal = true :=
  Kind.of_check h (by decide +kernel)

/-- The ways in which something can be specialized. -/
theorem isSpecialized_cases (h : n.isSpecialized = true) :
    isBoundKind n.kind = true ∨
      (∃ p rest, n.children = p :: rest ∧ p.isSpecialized = true ∧
        (isDeclaration n.kind = true ∨ n.kind = .protocolType)) ∨
      ∃ c p rest, n.children = c :: p :: rest ∧ p.isSpecialized = true ∧ n.kind = .extension := by
  have hfollows {k : Kind} (hk : followsParent k = true) :
      isDeclaration k = true ∨ k = .protocolType := by
    simp only [followsParent, isDeclaration, Bool.or_eq_true, beq_iff_eq] at hk ⊢
    exact hk.imp_left Or.symm
  obtain ⟨k, payload, cs, height⟩ := n
  rcases cs with _ | ⟨p, _ | ⟨q, rest⟩⟩
  · exact .inl h
  · simp only [isSpecialized, Bool.or_eq_true, Bool.and_eq_true] at h
    rcases h with h | ⟨hk, hp⟩
    · exact .inl h
    · exact .inr (.inl ⟨p, [], rfl, hp, hfollows hk⟩)
  · simp only [isSpecialized, Bool.or_eq_true, Bool.and_eq_true, beq_iff_eq] at h
    rcases h with (h | ⟨hk, hp⟩) | ⟨hk, hp⟩
    · exact .inl h
    · exact .inr (.inl ⟨p, q :: rest, rfl, hp, hfollows hk⟩)
    · exact .inr (.inr ⟨p, q, rest, rfl, hp, hk⟩)

/-- A node with arguments is asked for the context of what it binds. -/
theorem contextOf?_bound (h : isBoundKind n.kind = true) : n.contextOf? = n.bound? := by
  unfold contextOf?
  split
  case h_5 => rw [if_pos h]
  all_goals
    rename_i hk
    rw [hk] at h
    cases h

/-- The context of a declaration is its first child. -/
theorem contextOf?_context (h : n.kind.isContext = true) (hb : isBoundKind n.kind = false)
    (hm : n.kind ≠ .moduleName) (ha : n.kind ≠ .anonymousContext) : n.contextOf? = n.first? := by
  unfold contextOf?
  split
  case h_1 hk => exact absurd hk hm
  case h_4 hk => exact absurd hk ha
  case h_5 => rw [hb, if_neg (by decide), if_pos h]
  all_goals rfl

/-- On the way from a declaration stands its parent. -/
theorem contextOf?_declaration (h : isDeclaration n.kind = true) : n.contextOf? = n.first? := by
  obtain ⟨hb, -, -, hc⟩ := isDeclaration_spec h
  refine contextOf?_context hc hb ?_ ?_ <;> (intro hk; rw [hk] at h; cases h)

/-- On the way from an extension stands its module. -/
theorem contextOf?_extension (h : n.kind = .extension) : n.contextOf? = n.first? := by
  refine contextOf?_context ?_ ?_ ?_ ?_ <;> rw [h] <;> decide

/-- The way from a node that is no module goes on at the next node. -/
theorem LeadsTo.next (h : LeadsTo s n) (hk : n.kind ≠ .moduleName) (hc : n.contextOf? = some c) :
    LeadsTo s c := by
  cases h with
  | module kind => exact absurd kind hk
  | outward _ _ next rest =>
    obtain rfl := Option.some.inj (next.symm.trans hc)
    exact rest

/-- A restorable node that binds something binds a restorable node below it. -/
theorem exists_bound? (h : n.Everywhere Restorable) (hb : isBoundKind n.kind = true) :
    ∃ u, n.bound? = some u ∧ u.Everywhere Restorable ∧ u.height < n.height := by
  obtain ⟨c, hc, hck⟩ := h.here.bound hb
  have hmem : c ∈ n.children := List.mem_of_head? hc
  have hlower := h.here.lower c hmem
  unfold bound?
  split
  next => exact ⟨c, hc, h.child hmem, hlower⟩
  next hf =>
    have ht : c.kind = .type := hck.resolve_left (by simpa using hf)
    obtain ⟨u, rest, hcs⟩ := List.exists_cons_of_ne_nil ((h.child hmem).here.type ht)
    have humem : u ∈ c.children := by simp [hcs]
    refine ⟨u, ?_, (h.child hmem).child humem, ?_⟩
    · rw [hc, Option.bind_some, first?, hcs]
      rfl
    · have := (h.child hmem).here.lower u humem
      omega

/-- What is hidden in the next node is hidden in the node. -/
theorem hidesProtocol_eq (h : n.stripped? = some p) : n.hidesProtocol = p.hidesProtocol := by
  have hk : n.kind ≠ .protocolType := fun hk => by
    have hplain : isDeclaration .protocolType = false ∧ isBoundKind .protocolType = false :=
      ⟨rfl, rfl⟩
    simp [stripped?, hk, hplain] at h
  rw [hidesProtocol, if_neg (by simpa using hk)]
  split
  next hn => cases hn.symm.trans h
  next hc => rw [Option.some.inj (hc.symm.trans h)]

theorem stripped?_declaration (h : isDeclaration n.kind = true) : n.stripped? = n.first? := by
  obtain ⟨hb, he, -⟩ := isDeclaration_spec h
  simp [stripped?, outward?, h, hb, he, first?_eq_child?]

theorem stripped?_bound (h : isBoundKind n.kind = true) : n.stripped? = n.bound? := by
  simp [stripped?, outward?, h]

theorem stripped?_extension (h : n.kind = .extension) : n.stripped? = n.child? 1 := by
  simp [stripped?, outward?, h, isBoundKind]

/-- What is specialized further on is specialized. -/
theorem isSpecialized_of_stripped? (h : n.stripped? = some p) (hp : p.isSpecialized = true) :
    n.isSpecialized = true := by
  have hkind : (isDeclaration n.kind = true ∨ isBoundKind n.kind = true) ∨ n.kind = .extension := by
    unfold stripped? at h
    split at h
    next hk => simpa using hk
    next => cases h
  rcases hkind with (hk | hk) | hk
  -- the first child of a declaration, anything at all below a bound one, the second of an extension
  · obtain ⟨rest, hcs⟩ := List.head?_eq_some_iff.mp ((stripped?_declaration hk).symm.trans h)
    rwa [isSpecialized_declaration hk hcs]
  · exact isSpecialized_of_isBoundKind hk
  · have hsecond : n.children[1]? = some p := (stripped?_extension hk).symm.trans h
    rcases hn : n.children with _ | ⟨c, _ | ⟨q, rest⟩⟩
    · simp [hn] at hsecond
    · simp [hn] at hsecond
    · obtain rfl : q = p := by simpa [hn] using hsecond
      rwa [isSpecialized_extension hk hn]

/-- In what is not specialized, no protocol is hidden. -/
theorem not_hidesProtocol (h : n.isSpecialized = false) : n.hidesProtocol = false := by
  fun_induction hidesProtocol n with
  -- a protocol is specialized exactly if its parent is
  | case1 n hk =>
    obtain ⟨k, payload, cs, height⟩ := n
    obtain rfl : k = .protocolType := by simpa using hk
    have hfollows : followsParent .protocolType = true := rfl
    rcases cs with _ | ⟨p, _ | ⟨q, rest⟩⟩
    · rfl
    · simp_all [Node.isSpecialized, first?]
    · simp_all [Node.isSpecialized, first?]
  | case2 => rfl
  | case3 n hk c hc ih =>
    refine ih (Bool.eq_false_iff.mpr fun hs => ?_)
    simp [isSpecialized_of_stripped? hc hs] at h

/-- A node that is rebuilt around other children is as restorable as they are, and no higher than a
node that is above all of them. -/
theorem restorable_branch {q : Node} {cs : List Node} {height : Nat}
    (hcs : ∀ c ∈ q :: cs, c.Everywhere Restorable ∧ c.height < height) (hb : isBoundKind k = false)
    (hk : k ≠ .type) (hn : k.isNominal = true → cs ≠ []) :
    (branch k (q :: cs)).Everywhere Restorable ∧ (branch k (q :: cs)).height ≤ height := by
  -- the frame of a nominal type wants a name; the other frames are about kinds that `k` is not
  refine ⟨.intro ⟨fun c hc => height_lt_heightAbove hc, fun ht => absurd ht hk, fun hnominal => ?_,
    fun hb' => ?_⟩ fun c hc => (hcs c hc).1, ?_⟩
  · have := List.length_pos_iff.mpr (hn hnominal)
    show 2 ≤ (q :: cs).length
    rw [List.length_cons]
    omega
  · rw [show (branch k (q :: cs)).kind = k from rfl, hb] at hb'
    cases hb'
  · have hq := (hcs q (List.mem_cons_self ..)).2
    have hle : heightAbove (q :: cs) ≤ (height - 1) + 1 :=
      heightAbove_le fun c hc => Nat.le_sub_one_of_lt (hcs c hc).2
    show heightAbove (q :: cs) ≤ height
    omega

/-! ## What is left of a declaration -/

/-- What is left of a node without arguments stands in for it on the way outward. -/
structure BareOf (m n : Node) : Prop where
  restorable : m.Everywhere Restorable
  height_le : m.height ≤ n.height
  plain : m.isSpecialized = false
  leads : ∀ s, LeadsTo s n → LeadsTo s m

/-- A rebuilt declaration stands for the declaration, if its parent does for the parent. -/
theorem BareOf.declaration {q : Node} {rest : List Node} (hq : BareOf q p)
    (h : n.Everywhere Restorable) (hk : isDeclaration n.kind = true) (hcs : n.children = p :: rest) :
    BareOf (branch n.kind (q :: if isMember n.kind then rest else rest.take 1)) n := by
  obtain ⟨hb, -, -, -⟩ := isDeclaration_spec hk
  have hmem : p ∈ n.children := by simp [hcs]
  have hlower := h.here.lower p hmem
  have hle := hq.height_le
  have hkinds : n.kind ≠ .type ∧ n.kind ≠ .moduleName ∧ n.kind ≠ .anonymousContext := by
    refine ⟨?_, ?_, ?_⟩ <;> (intro hkind; rw [hkind] at hk; cases hk)
  -- whatever is kept beside the parent was there before
  have hkept {a : Node} (ha : a ∈ if isMember n.kind then rest else rest.take 1) :
      a ∈ n.children := by
    rw [hcs]
    split at ha
    · exact List.mem_cons_of_mem _ ha
    · exact List.mem_cons_of_mem _ (List.mem_of_mem_take ha)
  have hparts (a : Node) (ha : a ∈ q :: if isMember n.kind then rest else rest.take 1) :
      a.Everywhere Restorable ∧ a.height < n.height := by
    rcases List.mem_cons.mp ha with rfl | ha
    · exact ⟨hq.restorable, by omega⟩
    · exact ⟨h.child (hkept ha), h.here.lower a (hkept ha)⟩
  have hbranch := restorable_branch hparts hb hkinds.1 fun hn => by
    have := h.here.rest_ne_nil hcs hn
    split <;> simpa
  -- without a specialized parent there is nothing to take away, and no protocol in the way
  have hplain : (branch n.kind (q :: if isMember n.kind then rest else rest.take 1)).isSpecialized
      = false := (isSpecialized_declaration (n := branch n.kind _) hk rfl).trans hq.plain
  refine ⟨hbranch.1, hbranch.2, hplain, fun s hn => ?_⟩
  have hnext : n.contextOf? = some p := by simp [contextOf?_declaration hk, first?, hcs]
  exact .outward hkinds.2.2 (not_hidesProtocol hplain)
    (contextOf?_declaration (n := branch n.kind _) hk) (hq.leads s (hn.next hkinds.2.1 hnext))

/-- A rebuilt extension stands for the extension. -/
theorem BareOf.extension {q : Node} {rest : List Node} (hq : BareOf q p)
    (h : n.Everywhere Restorable) (hk : n.kind = .extension) (hcs : n.children = c :: p :: rest) :
    BareOf (branch .extension (c :: q :: rest.take 1)) n := by
  have hlower := h.here.lower p (by simp [hcs])
  have hle := hq.height_le
  have hparts (a : Node) (ha : a ∈ c :: q :: rest.take 1) :
      a.Everywhere Restorable ∧ a.height < n.height := by
    have hkept (ha : a ∈ n.children) : a.Everywhere Restorable ∧ a.height < n.height :=
      ⟨h.child ha, h.here.lower a ha⟩
    rcases List.mem_cons.mp ha with rfl | ha
    · exact hkept (by simp [hcs])
    rcases List.mem_cons.mp ha with rfl | ha
    · exact ⟨hq.restorable, by omega⟩
    · exact hkept (by simp [hcs, List.mem_of_mem_take ha])
  have hbranch := restorable_branch (k := .extension) hparts rfl (by decide) (by simp)
  have hplain : (branch .extension (c :: q :: rest.take 1)).isSpecialized = false := by
    rw [isSpecialized_extension rfl rfl, hq.plain]
  -- the module of an extension is where the extension stands, not where the type does
  refine ⟨hbranch.1, hbranch.2, hplain, fun s hn => ?_⟩
  have hnext : n.contextOf? = some c := by simp [contextOf?_extension hk, first?, hcs]
  exact .outward (by simp [branch]) (not_hidesProtocol hplain) (contextOf?_extension rfl)
    (hn.next (by simp [hk]) hnext)

/-- What stands for a declaration stands for it with arguments, too. -/
theorem BareOf.bound (hm : BareOf m p) (hb : isBoundKind n.kind = true)
    (hp : n.bound? = some p) (hlower : p.height < n.height) : BareOf m n where
  restorable := hm.restorable
  height_le := Nat.le_trans hm.height_le (Nat.le_of_lt hlower)
  plain := hm.plain
  leads s hn := by
    refine hm.leads s (hn.next (fun hk => ?_) (contextOf?_bound hb ▸ hp))
    simp [hk, isBoundKind] at hb

/-- The arguments of everything that hides no protocol can be taken away. -/
theorem exists_unbound? (h : n.Everywhere Restorable) (hp : n.hidesProtocol = false) :
    ∃ m, n.unbound? = some m ∧ BareOf m n := by
  -- by induction on the size: what is next on the way outward is smaller and hides no protocol
  -- either
  induction hsize : sizeOf n using Nat.strongRecOn generalizing n with
  | _ size ih =>
  subst hsize
  cases hs : n.isSpecialized with
  | false => exact ⟨n, unbound?_of_not hs, h, Nat.le_refl _, hs, fun _ hn => hn⟩
  | true =>
  have hstripped {c : Node} (hc : n.stripped? = some c) (h : c.Everywhere Restorable) :
      ∃ m, c.unbound? = some m ∧ BareOf m c :=
    ih _ (sizeOf_lt_of_stripped? hc) h (hidesProtocol_eq hc ▸ hp) rfl
  rw [unbound?_of_isSpecialized hs]
  rcases isSpecialized_cases hs with hb | ⟨p, rest, hcs, hps, hk⟩ | ⟨c, p, rest, hcs, hps, hk⟩
  · obtain ⟨u, hu, hrestorable, hlower⟩ := exists_bound? h hb
    obtain ⟨m, hm, hbare⟩ := hstripped (stripped?_bound hb ▸ hu) hrestorable
    have htype : n.kind = .boundGenericFunction ∨ ∀ t ∈ n.first?, t.kind = .type := by
      obtain ⟨c, hc, hck⟩ := h.here.bound hb
      refine hck.imp_right fun hck t ht => ?_
      rwa [Option.mem_unique ht hc]
    refine ⟨m, ?_, hbare.bound hb hu hlower⟩
    rw [unspecialized?_bound hb htype, hu, Option.bind_some, hm]
  · have hmem : p ∈ n.children := by simp [hcs]
    have hfirst : n.first? = some p := by simp [first?, hcs]
    rcases hk with hk | hk
    · obtain ⟨q, hq, hbare⟩ := hstripped (stripped?_declaration hk ▸ hfirst) (h.child hmem)
      have hname (hr : isRebuiltNominal n.kind = true) : rest ≠ [] :=
        h.here.rest_ne_nil hcs (isNominal_of_isRebuiltNominal hr)
      refine ⟨_, ?_, hbare.declaration h hk hcs⟩
      rw [unspecialized?_declaration hk hcs hname, hq, Option.map_some]
    -- a protocol inside of something specialized is what `hp` rules out
    · rw [hidesProtocol, hk, hfirst] at hp
      simp [hps] at hp
  · have hsecond : n.child? 1 = some p := by simp [child?, hcs]
    obtain ⟨q, hq, hbare⟩ := hstripped (stripped?_extension hk ▸ hsecond) (h.child (by simp [hcs]))
    refine ⟨_, ?_, hbare.extension h hk hcs⟩
    rw [unspecialized?_extension hk hcs hps, hq, Option.map_some]

end SwiftMangling.Node

namespace SwiftMangling.Symbol

open Node

variable {n part t : Node} {s symbol : String}

/-! ## The walk -/

/-- What the walk does at a node on the way outward: it takes the arguments away, or goes on at the
next node. -/
theorem moduleFrom_succ {c : Node} (hk : n.kind ≠ .anonymousContext) (hc : n.contextOf? = some c)
    (fuel : Nat) :
    (n.isSpecialized = true ∧ moduleFrom (fuel + 1) n = n.unspecialized?.bind (moduleFrom fuel)) ∨
      c ∈ n.children ∧ moduleFrom (fuel + 1) n = moduleFrom fuel c := by
  have hfirst (hf : n.first? = some c) : c ∈ n.children ∧ n.first?.bind (moduleFrom fuel) =
      moduleFrom fuel c := ⟨List.mem_of_head? hf, by rw [hf, Option.bind_some]⟩
  have hkind : n.kind ≠ .moduleName ∧ n.kind ≠ .global := by
    constructor <;> (intro hkind; simp [contextOf?, hkind, isBoundKind, Kind.isContext] at hc)
  simp only [moduleFrom]
  split
  case h_1 hm => exact absurd hm hkind.1
  case h_4 hg => exact absurd hg hkind.2
  -- any other kind: the arguments are taken away first, and a plain node leads to its context
  case h_5 =>
    cases hs : n.isSpecialized with
    | true => exact .inl ⟨rfl, rfl⟩
    | false =>
      have hb : isBoundKind n.kind = false := by
        cases hb : isBoundKind n.kind with
        | false => rfl
        | true => simp [isSpecialized_of_isBoundKind hb] at hs
      cases hcontext : n.kind.isContext with
      | true => exact .inr (hfirst (contextOf?_context hcontext hb hkind.1 hk ▸ hc))
      | false =>
        unfold contextOf? at hc
        split at hc <;> simp_all
  -- a type, or the mangling of one, leads to what it holds
  all_goals
    rename_i hk
    exact .inr (hfirst (by simpa [contextOf?, hk] using hc))

/-- The walk finds the module that the way outward leads to, in two steps for each level of the
tree. -/
theorem moduleFrom_of_leadsTo {fuel : Nat} (h : n.Everywhere Restorable) (hn : LeadsTo s n)
    (hfuel : 2 * n.height + (if n.isSpecialized then 1 else 0) < fuel) :
    moduleFrom fuel n = some s := by
  -- by induction on the fuel; each level costs a step, and a specialized one a second step
  induction fuel generalizing n with
  | zero => omega
  | succ fuel ih =>
    cases hn with
    | module kind text => rw [moduleFrom, kind, text]
    | @outward _ c kind free next rest =>
      rcases moduleFrom_succ kind next fuel with ⟨hs, heq⟩ | ⟨hmem, heq⟩
      · -- taking the arguments away costs a step, but leaves nothing specialized
        obtain ⟨m, hm, hbare⟩ := exists_unbound? h free
        rw [heq, ← unbound?_of_isSpecialized hs, hm, Option.bind_some]
        have hle := hbare.height_le
        refine ih hbare.restorable (hbare.leads s (.outward kind free next rest)) ?_
        rw [hs, if_pos rfl] at hfuel
        rw [hbare.plain, if_neg (by decide)]
        omega
      · rw [heq]
        have hlower := h.here.lower c hmem
        refine ih (h.child hmem) rest ?_
        split <;> omega

/-- A symbol tells the module at the end of the way outward from its first part that is no
attribute, if no anonymous context stands on the way, which has its context second, and no protocol
inside of something specialized, which cannot be taken apart. -/
theorem module?_of_declaringModule? (h : decode (Utf8.encode symbol) = some t)
    (hp : mainPart? t = some part) (hm : part.declaringModule? = some s)
    (hway : ∀ n ∈ part.wayOut, n.kind ≠ .anonymousContext ∧ n.hidesProtocol = false) :
    module? symbol = some s := by
  have hkind := (sound_of_decode h).2
  obtain ⟨_, hformed⟩ := formed_of_decode h
  have hrestorable := hformed.restorable
  have hmem : part ∈ t.children := List.mem_of_find?_eq_some hp
  have hlower := hrestorable.here.lower part hmem
  have hwalk : moduleFrom (2 * t.height + 1) part = some s := by
    refine moduleFrom_of_leadsTo (hrestorable.child hmem) (leadsTo_of_declaringModule? hm hway) ?_
    split <;> omega
  rw [module?, h, Option.bind_some, moduleFrom, hkind]
  simp [hp, hwalk]

/-- A structure inside of another one, both with arguments. -/
theorem module?_of_declaringModule?_nested :
    ∃ t part, decode (Utf8.encode "$s4main3FooV3BarVySi_SiGD") = some t ∧ mainPart? t = some part ∧
      part.declaringModule? = some "main" ∧
      (∀ n ∈ part.wayOut, n.kind ≠ .anonymousContext ∧ n.hidesProtocol = false) ∧
      module? "$s4main3FooV3BarVySi_SiGD" = some "main" := by
  have hcheck : ((decode (Utf8.encode "$s4main3FooV3BarVySi_SiGD")).bind mainPart?).any (fun part =>
      part.declaringModule? = some "main" ∧
        part.wayOut.all fun n => n.kind != .anonymousContext && !n.hidesProtocol) = true := by
    decide +kernel
  obtain ⟨part, hbind, hpart⟩ := (Option.any_eq_true ..).mp hcheck
  obtain ⟨t, ht, hp⟩ := Option.bind_eq_some_iff.mp hbind
  obtain ⟨hm, hall⟩ := of_decide_eq_true hpart
  have hway : ∀ n ∈ part.wayOut, n.kind ≠ .anonymousContext ∧ n.hidesProtocol = false := by
    simpa using hall
  exact ⟨t, part, ht, hp, hm, hway, module?_of_declaringModule? ht hp hm hway⟩

/-- The walk goes from an anonymous context to its discriminator, and gets stuck at a protocol inside
of a structure with arguments. -/
theorem module?_ne_declaringModule? :
    (((decode (Utf8.encode "$s4main3fooMXY")).bind mainPart?).bind declaringModule? = some "main" ∧
      module? "$s4main3fooMXY" = none) ∧
    ((decode (Utf8.encode "$s4main3FooV1PPySi_SiGD")).bind mainPart?).bind declaringModule? =
      some "main" ∧ module? "$s4main3FooV1PPySi_SiGD" = none := by
  decide +kernel

end SwiftMangling.Symbol
