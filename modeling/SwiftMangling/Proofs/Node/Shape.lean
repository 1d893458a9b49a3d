import SwiftMangling.Node.Unbound
import SwiftMangling.Proofs.Node.Part

/-!
# Shapes that both decoders build

Generic parameters, nominal types and tuples, declarations that are bound to generic arguments, and
specialized parameters.
-/

namespace SwiftMangling.Node

variable {n : Node} {k : Kind}

/-! ## Kinds, payloads and children -/

/-- The letters of function types never stand for a function that cannot be differentiated. -/
theorem isDifferentiable_ofCode? {c : Char} {d : Differentiability}
    (h : Differentiability.ofCode? c = some d) :
    (Payload.differentiability d).isDifferentiable = true := by
  unfold Differentiability.ofCode? at h
  split at h
  case h_5 => cases h
  all_goals
    cases h
    rfl

theorem takesAny_of_isNominal (h : k.isNominal = true) :
    k.takesAny = true ∧ k.isRigid = false ∧ k.isLabelled = false := by
  have hk := Kind.of_check h (q := fun k => k.takesAny && !k.isRigid && !k.isLabelled)
    (by decide +kernel)
  simpa [and_assoc] using hk

/-- Bound generic declarations are looked through, and no more. -/
theorem isOrdinary_of_isBoundKind (h : isBoundKind k = true) :
    k.isOrdinary = true ∧ k.needs = [] ∧ k.isRigid = false ∧ k.isLabelled = false := by
  have hk := Kind.of_check h
    (q := fun k => k.isOrdinary && k.needs.isEmpty && !k.isRigid && !k.isLabelled)
    (by decide +kernel)
  simpa [and_assoc] using hk

/-- Kinds that can be bound are nominal types, but for symbolic references. -/
theorem isNominal_of_isBindable {p : Payload} (h : k.isBindable = true)
    (ha : k.accepts p = true) : k.isNominal = true := by
  have hk := Kind.of_check h
    (q := fun k => k.isNominal || k == .protocolSymbolicReference || k == .typeSymbolicReference)
    (by decide +kernel)
  simp only [Bool.or_eq_true, beq_iff_eq] at hk
  obtain (hk | rfl) | rfl := hk
  · exact hk
  · cases ha
  · cases ha

theorem isSealed_of_isContext (h : k.isContext = true) : k.isSealed = false := by
  simpa using Kind.of_check h (q := (!·.isSealed)) (by decide +kernel)

theorem payload_eq_none (h : n.Sound True) (hcs : n.children ≠ []) :
    n.payload = .none :=
  Decidable.byContradiction fun hp => hcs (h.bare trivial hp)

/-- A node without payload meets no need but for a kind, and a context not even that one. -/
theorem not_meets {need : Need} {i : Nat} (hp : n.payload = .none)
    (hk : n.kind.isContext = true) (hn : (i, need) ∈ k.needs) : n.meets need = false := by
  cases need with
  | text => simp [meets, hp, Payload.isText]
  | index => simp [meets, hp, Payload.isIndex]
  | layout => simp [meets, Node.text?, hp]
  | kind m =>
    -- only types and lists of protocols are asked for
    have hm : m = .type ∨ m = .protocolList := by
      have hneeds := Kind.of_check (k := k) (p := fun _ => true) rfl
        (q := fun k => k.needs.all fun x => x.2.kind?.all fun m => m == .type || m == .protocolList)
        (by decide +kernel)
      simpa [Need.kind?] using List.all_eq_true.mp hneeds _ hn
    rw [meets, beq_eq_false_iff_ne]
    rintro rfl
    rcases hm with hm | hm <;> (rw [hm] at hk; cases hk)

theorem paramFits_take {cs : List Node} (i : Nat) (h : paramFits cs = true) :
    paramFits (cs.take i) = true := by
  -- what is cut off is missing, and a text that is missing fits
  have hget {j : Nat} (hf : cs[j]?.all (·.payload.isText) = true) :
      (cs.take i)[j]?.all (·.payload.isText) = true := by
    rw [List.getElem?_take]
    split
    · exact hf
    · rfl
  cases i with
  | zero => rfl
  | succ i =>
    cases cs with
    | nil => rfl
    | cons c cs =>
      simp only [paramFits, List.take_succ_cons, List.head?_cons, Option.all_some] at h hget ⊢
      split at h
      · split at h
        · exact hget h
        · exact hget h
        · rw [Bool.and_eq_true] at h ⊢
          exact h.imp hget hget
        · rfl
      · cases h

theorem witnessFits_take {cs : List Node} (i : Nat) (h : witnessFits cs = true) :
    witnessFits (cs.take i) = true := by
  induction cs generalizing i with
  | nil => simp [witnessFits]
  | cons c cs ih =>
    cases i with
    | zero => rfl
    | succ i =>
      unfold witnessFits at h ih ⊢
      rw [List.take_succ_cons]
      -- only the nodes from the tag on are checked
      by_cases hc : (c.kind != .index) = true
      · rw [List.dropWhile_cons_of_pos (by exact hc)] at h ⊢
        exact ih i h
      · rw [List.dropWhile_cons_of_neg (by exact hc)] at h ⊢
        rw [Bool.and_eq_true] at h ⊢
        refine ⟨h.1, List.all_eq_true.mpr fun a ha => ?_⟩
        exact List.all_eq_true.mp h.2 a (List.mem_of_mem_take ha)

/-- Children still fit if some of them are missing at the end. -/
theorem childrenFit_take {cs : List Node} (i : Nat) (h : childrenFit k cs = true) :
    childrenFit k (cs.take i) = true := by
  have hall {f : Node → Bool} {l : List Node} {j : Nat} (hf : l.all f = true) :
      (l.take j).all f = true :=
    List.all_eq_true.mpr fun c hc => List.all_eq_true.mp hf c (List.mem_of_mem_take hc)
  unfold childrenFit at h ⊢
  split at h
  · rw [Bool.and_eq_true] at h ⊢
    refine ⟨?_, by rw [List.drop_take]; exact hall h.2⟩
    rw [List.head?_take]
    split
    · rfl
    · exact h.1
  · exact witnessFits_take i h
  iterate 2
    · rw [Bool.and_eq_true] at h ⊢
      exact h.imp hall (paramFits_take i)
  · exact hall h
  -- ordinary kinds: no tags, nothing sealed, and the needs, which a missing child meets
  · rw [Bool.and_eq_true, Bool.and_eq_true, Bool.or_eq_true] at h ⊢
    obtain ⟨⟨htags, hsealed⟩, hneeds⟩ := h
    refine ⟨⟨hall htags, hsealed.imp_right hall⟩, ?_⟩
    rw [List.all_eq_true] at hneeds ⊢
    rintro ⟨j, need⟩ hj
    have := hneeds _ hj
    simp only [List.getElem?_take]
    split
    · exact this
    · rfl

theorem childrenFit_param {cs : List Node} (h : k = .functionSignatureSpecializationParam ∨
    k = .functionSignatureSpecializationReturn) :
    childrenFit k cs = (cs.all (!·.isTag) && paramFits cs) := by
  rcases h with rfl | rfl <;> rfl

theorem and_eq_of_or {a b m : UInt64} (h : a &&& m = m) : (a ||| b) &&& m = m := by
  apply UInt64.toBitVec_inj.mp
  apply BitVec.eq_of_getLsbD_eq
  intro i hi
  have hbit := congrArg (fun x => x.toBitVec.getLsbD i) h
  simp only [UInt64.toBitVec_and, BitVec.getLsbD_and] at hbit
  simp only [UInt64.toBitVec_and, UInt64.toBitVec_or, BitVec.getLsbD_and, BitVec.getLsbD_or]
  grind

/-- The bit of an option stays set when more options are added. -/
theorem foldl_mask_and (os : List ParamOption) {bits m : UInt64} (h : bits &&& m = m) :
    os.foldl (fun bits o => bits ||| o.mask) bits &&& m = m := by
  induction os generalizing bits with
  | nil => exact h
  | cons o os ih => exact ih (and_eq_of_or h)

/-! ## Nodes of both schemes -/

variable [Labelling]

/-- A node of a kind other than a witness may be taken apart. -/
theorem open_of_kind {n : Node} (h : n.Part ∧ n.kind = k) (hk : k.isWitness = false) : n.Open :=
  h.1.open (by rw [h.2]; exact hk)

/-- A kind that needs nothing of its first child can stand above any node that may be taken
apart. -/
theorem open_around {n : Node} (hk : k.isFree = true) (hn : ∀ x ∈ k.needs, x.1 ≠ 0)
    (h : n.Open) : (branch k [n]).Open := by
  refine open_through hk (by simpa using h) (List.all_eq_true.mpr fun x hx => ?_)
  obtain ⟨i, hi⟩ : ∃ i, x.1 = i + 1 := ⟨x.1 - 1, by have := hn x hx; omega⟩
  simp [hi]

/-- A nominal type is a context with a name. -/
theorem open_nominal {context name : Node} (hk : k.isNominal = true)
    (hc : context.Child) (hn : name.Child) : (branch k [context, name]).Open :=
  open_branch_of_takesAny (takesAny_of_isNominal hk).1 (by simpa using ⟨hc, hn⟩)
    (framed_nominal hk hc.ne_labelList hn.ne_labelList)

theorem open_genericParameter (depth position : Nat) : (genericParameter depth position).Open :=
  open_branch_of_needs rfl rfl (by simpa using ⟨child_index _, child_index _⟩) rfl

/-- A tuple consists of tuple elements only. -/
theorem open_tuple {es : List Node} (h : ∀ e ∈ es, e.Open ∧ e.kind = .tupleElement) :
    (branch .tuple es).Open := by
  refine ⟨formed_branch rfl ?_ (framed_of_isLoose rfl fun e he => (h e he).1.ne_labelList)
    fun e he => (h e he).1.formed, rfl, by simp [branch]⟩
  exact List.all_eq_true.mpr fun e he => by simp [(h e he).2]

/-- A value witness holds its tag, and so it may not be taken apart. -/
theorem part_valueWitness {w : ValueWitness} {t : Node} (ht : t.Open) :
    (branch .valueWitness [ofPayload .index (.valueWitness w), t]).Part := by
  refine ⟨formed_branch rfl ?_ ?_ ?_, by simp [branch], by simp [branch]⟩
  · simp [childrenFit, ofPayload, Payload.isValueWitness, ht.child.isTag]
  · exact framed_of_isLoose rfl (by simpa [ofPayload] using ht.ne_labelList)
  · have htag : (ofPayload .index (.valueWitness w)).Formed := formed_ofPayload rfl rfl
    simpa using ⟨htag, ht.formed⟩

/-! ## Declarations bound to arguments

Binding a declaration to arguments rebuilds it and the declarations around it. Every node that is
rebuilt keeps its kind, or is a context and becomes a bound generic declaration. -/

/-- The node `b` can stand in the place of `n`: it looks like `n`, or `n` is a context and `b` is
bound to arguments. -/
structure StandsFor (b n : Node) : Prop where
  formed : b.Formed
  bare : b.payload = .none
  bare' : n.payload = .none
  kind : KindStands b.kind n.kind

theorem StandsFor.label {b n : Node} (h : StandsFor b n) (hk : b.kind = n.kind) :
    b.label = n.label := by
  rw [Node.label, Node.label, hk, h.bare, h.bare']

/-- Children still fit with the first of them replaced by what can stand for it. -/
theorem StandsFor.childrenFit {b c : Node} {k : Kind} {cs : List Node} (h : StandsFor b c)
    (hf : childrenFit k (c :: cs) = true) : childrenFit k (b :: cs) = true := by
  rcases h.kind with hk | ⟨hb, hc⟩
  · have hmap : (b :: cs).map Node.label = (c :: cs).map Node.label := by simp [h.label hk]
    rw [childrenFit_congr hmap]
    exact hf
  -- neither a bound declaration nor the context that it stands for is a tag
  have hs : b.kind.isSealed = false := isSealed_of_isOrdinary (isOrdinary_of_isBoundKind hb).1
  have hbi : b.kind ≠ .index := by
    intro hk
    simp [hk, Kind.isSealed] at hs
  have hci : c.kind ≠ .index := by
    intro hk
    rw [hk] at hc
    cases hc
  unfold Node.childrenFit at hf ⊢
  split at hf
  · simp [h.bare', Payload.isValueWitness] at hf
  · unfold witnessFits at hf ⊢
    rw [List.dropWhile_cons_of_pos (by simpa using hci)] at hf
    rw [List.dropWhile_cons_of_pos (by simpa using hbi)]
    exact hf
  · simp [paramFits, h.bare'] at hf
  · simp [paramFits, h.bare'] at hf
  · rw [List.all_cons, Bool.and_eq_true, beq_iff_eq] at hf
    rw [hf.1] at hc
    cases hc
  · rw [Bool.and_eq_true, Bool.and_eq_true] at hf ⊢
    obtain ⟨⟨htags, hsealed⟩, hneeds⟩ := hf
    refine ⟨⟨?_, ?_⟩, ?_⟩
    · rw [List.all_cons, Bool.and_eq_true] at htags ⊢
      exact ⟨by simp [isTag, hbi], htags.2⟩
    · rw [List.all_cons, Bool.or_eq_true, Bool.and_eq_true] at hsealed ⊢
      exact hsealed.imp_right fun h => ⟨by simp [hs], h.2⟩
    · rw [List.all_eq_true] at hneeds ⊢
      rintro ⟨i, need⟩ hn
      have := hneeds _ hn
      -- a context meets no need of the first child, so there is none
      cases i with
      | zero => simp [not_meets h.bare' hc hn] at this
      | succ i => simpa using this

/-- A bound declaration above parts that may be taken apart. -/
theorem standsFor_bound {n c : Node} {k : Kind} {cs : List Node} (hb : isBoundKind k = true)
    (hk : n.kind.isContext = true) (hp : n.payload = .none) (hc : ∀ a ∈ c :: cs, a.Open)
    (ht : k = .boundGenericFunction ∨ c.kind = .type) : StandsFor (branch k (c :: cs)) n where
  formed := by
    obtain ⟨ho, hn, -⟩ := isOrdinary_of_isBoundKind hb
    exact (open_through_of_framed ho hc (by rw [hn]; rfl)
      (framed_bound hb (fun a ha => (hc a ha).ne_labelList) ht)).formed
  bare := rfl
  bare' := hp
  kind := .inr ⟨hb, hk⟩

/-- The node with another first child that stands for the old one. -/
theorem standsFor_branch {n b c : Node} {cs : List Node} (h : n.Formed)
    (hcs : n.children = c :: cs) (hb : StandsFor b c) : StandsFor (branch n.kind (b :: cs)) n := by
  have hp : n.payload = .none := payload_eq_none h.sound (by simp [hcs])
  have hf : childrenFit n.kind (b :: cs) = true := by
    refine hb.childrenFit ?_
    rw [← hcs]
    exact h.sound.childrenFit trivial
  have hr : Framed n.kind (b :: cs) := by
    have := h.neat.here.framed
    rw [hcs] at this
    exact this.replaceHead hb.kind
  refine ⟨formed_branch ?_ hf hr ?_, rfl, hp, .inl rfl⟩
  · rw [← hp]
    exact h.sound.accepts trivial
  · intro a ha
    rcases List.mem_cons.mp ha with rfl | ha
    · exact hb.formed
    · exact h.child (by simp [hcs, ha])

theorem StandsFor.trans {a b c : Node} (hab : StandsFor a b) (hbc : StandsFor b c)
    (hk : b.kind = c.kind) : StandsFor a c :=
  ⟨hab.formed, hab.bare, hbc.bare', hk ▸ hab.kind⟩

/-- What stands for a node that may be taken apart may be taken apart. -/
theorem StandsFor.isOpen {b n : Node} (h : StandsFor b n) (hn : n.Open) : b.Open := by
  refine ⟨h.formed, ?_, h.kind.ne hn.ne_labelList rfl⟩
  rcases h.kind with hk | ⟨hk, -⟩
  · exact hk ▸ hn.isSealed
  · exact isSealed_of_isOrdinary (isOrdinary_of_isBoundKind hk).1

/-- The node that stands for an extension once the type that it extends is bound. -/
theorem standsFor_extension {n b m extended : Node} {more : List Node} (h : n.Formed)
    (hk : n.kind = .extension) (hcs : n.children = m :: extended :: more)
    (hb : StandsFor b extended) :
    StandsFor (branch .extension (m :: b :: more.take 1)) n := by
  have hp : n.payload = .none := payload_eq_none h.sound (by simp [hcs])
  have hchild (c : Node) (hc : c ∈ n.children) : c.Child :=
    (open_of_kind ⟨⟨h, by simp [hk], by simp [hk]⟩, hk⟩ rfl).child_of_mem (by rw [hk]; rfl) hc
  -- what stands for the extended declaration is no more of a tag than that is
  have hbc : b.Child := by
    refine ⟨hb.formed, ?_, hb.kind.ne (hchild extended (by simp [hcs])).ne_labelList rfl⟩
    rcases hb.kind with hkb | ⟨hkb, -⟩
    · have := (hchild extended (by simp [hcs])).isTag
      rwa [isTag, hb.bare', ← hkb, ← hb.bare] at this
    · have := isSealed_of_isOrdinary (isOrdinary_of_isBoundKind hkb).1
      simp only [Kind.isSealed, Bool.or_eq_false_iff] at this
      simp [isTag, this.1]
  refine ⟨(open_branch rfl ?_).formed, rfl, hp, .inl hk.symm⟩
  intro c hc
  rcases List.mem_cons.mp hc with rfl | hc
  · exact hchild c (by simp [hcs])
  rcases List.mem_cons.mp hc with rfl | hc
  · exact hbc
  · exact hchild c (by simp [hcs, List.mem_of_mem_take hc])

/-- What stands for a declaration that can be bound takes the conformances that come with its
arguments. -/
theorem StandsFor.open_addChild {b n c : Node} (h : StandsFor b n) (hn : n.Open)
    (hk : n.kind.isBindable = true) (hc : c.Open) : (b.addChild c).Open := by
  -- whether it is bound or not, it takes any child in addition
  have hb : b.kind.isOrdinary = true ∧ b.kind.needs = [] ∧ b.kind.isRigid = false ∧
      b.kind.isLabelled = false := by
    rcases h.kind with hkb | ⟨hkb, -⟩
    · have hnominal : b.kind.isNominal = true := by
        rw [hkb]
        exact isNominal_of_isBindable hk (hn.sound.accepts trivial)
      obtain ⟨hany, hrest⟩ := takesAny_of_isNominal hnominal
      simp only [Kind.takesAny, Bool.and_eq_true, List.isEmpty_iff] at hany
      exact ⟨hany.1.1, hany.2, hrest⟩
    · exact isOrdinary_of_isBoundKind hkb
  obtain ⟨hordinary, hneeds, hrigid, hlabelled⟩ := hb
  have hopen := h.isOpen hn
  refine ⟨formed_addChild h.formed hc.formed ?_ ?_,
    by rw [kind_addChild]; exact hopen.isSealed, by rw [kind_addChild]; exact hopen.ne_labelList⟩
  · exact childrenFit_append_open hordinary hneeds (h.formed.sound.childrenFit trivial)
      (by simpa using hc)
  · exact h.formed.neat.here.framed.append hrigid hlabelled (by simpa using hc.ne_labelList)

/-! ## Specialized parameters -/

/-- A set with an option in it is a payload that its kind accepts. -/
theorem part_paramKind_ofOptions (first : ParamOption) (os : List ParamOption) :
    (paramKind (.ofOptions (first :: os))).Part := by
  refine part_ofPayload ?_ (by decide)
  have hbit : (ParamKind.ofOptions (first :: os)).raw &&& first.mask = first.mask :=
    foldl_mask_and os (by cases first <;> rfl)
  have hmem : first ∈ (ParamKind.ofOptions (first :: os)).options := by
    refine List.mem_filter.mpr ⟨by cases first <;> decide, ?_⟩
    rw [hbit]
    cases first <;> rfl
  show (Payload.specialization (.ofOptions (first :: os))).isParamKind = true
  simp only [Payload.isParamKind, Bool.or_eq_true, Bool.not_eq_true', List.isEmpty_eq_false_iff]
  exact .inl (List.ne_nil_of_mem hmem)

theorem part_paramKind_ofChange (c : ParamChange) : (paramKind (.ofChange c)).Part :=
  part_ofPayload (by cases c <;> rfl) (by decide)

theorem part_paramPayload (s : String) : (paramPayload s).Part :=
  part_ofText rfl (by decide)

/-- The children of a specialized parameter. -/
def ParamParts (cs : List Node) : Prop :=
  (∀ c ∈ cs, c.Part) ∧ paramFits cs = true

theorem paramParts_ofOptions (first : ParamOption) (os : List ParamOption) :
    ParamParts [paramKind (.ofOptions (first :: os))] := by
  refine ⟨by simpa using part_paramKind_ofOptions first os, ?_⟩
  unfold paramFits
  simp only [List.head?_cons, Option.all_some, paramKind, ofPayload]
  split <;> rfl

/-- All payloads of a change are texts. -/
theorem paramParts_ofChange (c : ParamChange) (payloads : List String) :
    ParamParts (paramKind (.ofChange c) :: payloads.map paramPayload) := by
  have htext (i : Nat) : (payloads.map paramPayload)[i]?.all (·.payload.isText) = true := by
    rw [List.getElem?_map]
    cases payloads[i]? <;> rfl
  refine ⟨?_, ?_⟩
  · simpa using ⟨part_paramKind_ofChange c, fun s _ => part_paramPayload s⟩
  · simp only [paramFits, List.head?_cons, Option.all_some, paramKind, ofPayload,
      List.getElem?_cons_succ, htext]
    split <;> rfl

/-- A specialized parameter, or a specialized result. -/
structure IsParam (n : Node) : Prop extends Open n where
  kind : n.kind = .functionSignatureSpecializationParam ∨
    n.kind = .functionSignatureSpecializationReturn

/-- The parts of a parameter or of a result make one. -/
theorem isParam_branch {cs : List Node} (h : k = .functionSignatureSpecializationParam ∨
    k = .functionSignatureSpecializationReturn) (hcs : ParamParts cs) : IsParam (branch k cs) := by
  refine ⟨⟨formed_branch ?_ ?_ ?_ fun c hc => (hcs.1 c hc).formed, ?_, ?_⟩, h⟩
  · rcases h with rfl | rfl <;> rfl
  · rw [childrenFit_param h, hcs.2, all_not_isTag fun c hc => (hcs.1 c hc).child]
    rfl
  · refine framed_of_isLoose ?_ fun c hc => (hcs.1 c hc).ne_labelList
    rcases h with rfl | rfl <;> rfl
  · rcases h with rfl | rfl <;> rfl
  · rcases h with rfl | rfl <;> simp [branch]

end SwiftMangling.Node
