import SwiftMangling.Proofs.Node.Neat

/-!
# Building sound trees

The decoders put nodes together from parts. A part is a sound and neat node that is neither a number
nor a list of labels, so that it can stand anywhere; an open part may also be taken apart again. The
kinds without rules of their own about children are called plain: a plain node above parts is a
part.
-/

namespace SwiftMangling

/-- Kinds whose children have to fit only in being looked through and in single needs. -/
def Kind.isOrdinary (k : Kind) : Bool :=
  k.accepts .none && !k.isSealed && k != .functionSignatureSpecializationParam &&
    k != .functionSignatureSpecializationReturn && k != .tuple && k != .labelList

/-- Ordinary kinds whose children stand in no frame. -/
def Kind.isFree (k : Kind) : Bool :=
  k.isOrdinary && k.isLoose

/-- Ordinary kinds that ask nothing of their children, a frame apart. -/
def Kind.takesAny (k : Kind) : Bool :=
  k.isOrdinary && !k.looksThrough && k.needs.isEmpty

/-- Kinds that take any parts as children. -/
def Kind.isPlain (k : Kind) : Bool :=
  k.takesAny && k.isLoose

/-- Kinds of nodes that can be parts without children. -/
def Kind.standsAlone (k : Kind) : Bool :=
  k.isLoose && k != .index && k != .labelList

namespace Node

variable {n c : Node} {k : Kind} {cs ds : List Node} {p : Payload}

/-! ## Kinds -/

theorem isSealed_of_isOrdinary (hk : k.isOrdinary = true) : k.isSealed = false := by
  simp only [Kind.isOrdinary, Bool.and_eq_true, Bool.not_eq_true'] at hk
  exact hk.1.1.1.1.2

/-- The children of an ordinary kind fit if none is a tag or is sealed, and the needs are met. -/
theorem childrenFit_of_isOrdinary (hk : k.isOrdinary = true) :
    childrenFit k cs =
      (cs.all (!·.isTag) && (!k.looksThrough || cs.all (!·.kind.isSealed)) &&
        k.needs.all fun (i, need) => cs[i]?.all (·.meets need)) := by
  unfold childrenFit
  split
  iterate 5 cases hk
  rfl

theorem isOrdinary_of_isFree (hk : k.isFree = true) : k.isOrdinary = true := by
  simp only [Kind.isFree, Bool.and_eq_true] at hk
  exact hk.1

theorem isLoose_of_isFree (hk : k.isFree = true) : k.isLoose = true := by
  simp only [Kind.isFree, Bool.and_eq_true] at hk
  exact hk.2

theorem takesAny_of_isPlain (hk : k.isPlain = true) : k.takesAny = true := by
  simp only [Kind.isPlain, Bool.and_eq_true] at hk
  exact hk.1

theorem isOrdinary_of_takesAny (hk : k.takesAny = true) : k.isOrdinary = true := by
  simp only [Kind.takesAny, Bool.and_eq_true] at hk
  exact hk.1.1

theorem isFree_of_isPlain (hk : k.isPlain = true) : k.isFree = true := by
  simp only [Kind.isPlain, Kind.isFree, Bool.and_eq_true] at hk ⊢
  exact ⟨isOrdinary_of_takesAny hk.1, hk.2⟩

theorem childrenFit_of_takesAny (hk : k.takesAny = true) :
    childrenFit k cs = cs.all (!·.isTag) := by
  rw [childrenFit_of_isOrdinary (isOrdinary_of_takesAny hk)]
  simp only [Kind.takesAny, Bool.and_eq_true, Bool.not_eq_true', List.isEmpty_iff] at hk
  simp [hk]

theorem isSealed_of_isPlain (hk : k.isPlain = true) : k.isSealed = false :=
  isSealed_of_isOrdinary (isOrdinary_of_isFree (isFree_of_isPlain hk))

/-- What is looked through has no list of labels. -/
theorem isLabelled_of_looksThrough (hk : k.looksThrough = true) : k.isLabelled = false := by
  simpa using Kind.of_check hk (q := (!·.isLabelled)) (by decide +kernel)

@[simp] theorem kind_addChild : (n.addChild c).kind = n.kind := by
  unfold addChild
  split <;> rfl

@[simp] theorem kind_insertChild {i : Nat} : (n.insertChild i c).kind = n.kind := by
  unfold insertChild
  split <;> rfl

@[simp] theorem kind_addChildren : (n.addChildren cs).kind = n.kind := by
  unfold addChildren
  split <;> rfl

theorem height_insertChild_le {i : Nat} :
    (n.insertChild i c).height ≤ max n.height (c.height + 1) := by
  unfold insertChild
  split
  · exact Nat.le_refl _
  · exact Nat.le_max_left ..

/-! ## Kinds and payloads -/

/-- The node with its kind and payload only. -/
def label (n : Node) : Node :=
  ofPayload n.kind n.payload

theorem all_map_label {f : Node → Bool} (hf : ∀ n, f (label n) = f n) :
    (cs.map label).all f = cs.all f := by
  rw [List.all_map]
  exact congrArg cs.all (funext hf)

theorem getElem?_map_label {f : Node → Bool} (hf : ∀ n, f (label n) = f n) (i : Nat) :
    (cs.map label)[i]?.all f = cs[i]?.all f := by
  rw [List.getElem?_map]
  cases cs[i]? with
  | none => rfl
  | some c => exact hf c

theorem head?_map_label {f : Node → Bool} (hf : ∀ n, f (label n) = f n) :
    (cs.map label).head?.all f = cs.head?.all f := by
  rw [List.head?_eq_getElem?, List.head?_eq_getElem?]
  exact getElem?_map_label hf 0

theorem paramFits_map_label : paramFits (cs.map label) = paramFits cs := by
  have htext (i : Nat) : (cs.map label)[i]?.all (·.payload.isText) =
      cs[i]?.all (·.payload.isText) := getElem?_map_label (fun _ => rfl) i
  unfold paramFits
  rw [htext, htext]
  exact head?_map_label fun _ => rfl

theorem witnessFits_map_label : witnessFits (cs.map label) = witnessFits cs := by
  -- the tag is found by its kind, which the label keeps
  have hdrop : (cs.map label).dropWhile (·.kind != .index) =
      (cs.dropWhile (·.kind != .index)).map label := by
    rw [List.dropWhile_map]
    rfl
  unfold witnessFits
  rw [hdrop]
  cases cs.dropWhile (·.kind != .index) with
  | nil => rfl
  | cons tag rest =>
    have htags : (rest.map label).all (!·.isTag) = rest.all (!·.isTag) :=
      all_map_label fun _ => rfl
    rw [List.map_cons]
    dsimp only
    rw [htags]
    rfl

/-- Whether children fit depends on their kinds and payloads only. -/
theorem childrenFit_map_label : childrenFit k (cs.map label) = childrenFit k cs := by
  have htags (ds : List Node) : (ds.map label).all (!·.isTag) = ds.all (!·.isTag) :=
    all_map_label fun _ => rfl
  have hsealed : (cs.map label).all (!·.kind.isSealed) = cs.all (!·.kind.isSealed) :=
    all_map_label fun _ => rfl
  have hwitness : (cs.map label).head?.all (·.payload.isValueWitness) =
      cs.head?.all (·.payload.isValueWitness) := head?_map_label fun _ => rfl
  have hneeds (needs : List (Nat × Need)) :
      (needs.all fun (i, need) => (cs.map label)[i]?.all (·.meets need)) =
        needs.all fun (i, need) => cs[i]?.all (·.meets need) :=
    congrArg needs.all (funext fun x => getElem?_map_label (fun _ => rfl) x.1)
  -- every condition asks for kinds and payloads only
  unfold childrenFit
  split
  · rw [hwitness, ← List.map_drop, htags]
  · exact witnessFits_map_label
  · rw [htags, paramFits_map_label]
  · rw [htags, paramFits_map_label]
  · exact all_map_label fun _ => rfl
  · rw [htags, hsealed, hneeds]

theorem childrenFit_congr (h : cs.map label = ds.map label) :
    childrenFit k cs = childrenFit k ds := by
  rw [← childrenFit_map_label, h, childrenFit_map_label]

/-! ## Parts -/

variable [Labelling]

/-- A well-formed node that is neither a number nor a list of labels. -/
structure Part (n : Node) : Prop where
  formed : n.Formed
  ne_index : n.kind ≠ .index
  ne_labelList : n.kind ≠ .labelList

/-- A well-formed node that may be taken apart. -/
structure Open (n : Node) : Prop where
  formed : n.Formed
  isSealed : n.kind.isSealed = false
  ne_labelList : n.kind ≠ .labelList

/-- A well-formed node that is neither a tag nor a list of labels. -/
structure Child (n : Node) : Prop where
  formed : n.Formed
  isTag : n.isTag = false
  ne_labelList : n.kind ≠ .labelList

theorem Part.sound (h : n.Part) : n.Sound True :=
  h.formed.sound

theorem Open.sound (h : n.Open) : n.Sound True :=
  h.formed.sound

/-- A node that may be taken apart is no number, since numbers are sealed. -/
theorem Open.part (h : n.Open) : n.Part where
  formed := h.formed
  ne_index hk := by
    have := h.isSealed
    simp [hk, Kind.isSealed] at this
  ne_labelList := h.ne_labelList

theorem Part.child (h : n.Part) : n.Child where
  formed := h.formed
  isTag := by simp [isTag, h.ne_index]
  ne_labelList := h.ne_labelList

theorem Open.child (h : n.Open) : n.Child :=
  h.part.child

theorem Part.open (h : n.Part) (hk : n.kind.isWitness = false) : n.Open where
  formed := h.formed
  isSealed := by simp [Kind.isSealed, hk, h.ne_index]
  ne_labelList := h.ne_labelList

/-! ## Leaves -/

/-- A payload that its kind accepts makes a part if the kind stands alone. -/
theorem part_ofPayload (h : k.accepts p = true) (hk : k.standsAlone = true) :
    (ofPayload k p).Part := by
  simp only [Kind.standsAlone, Bool.and_eq_true, bne_iff_ne] at hk
  exact ⟨formed_ofPayload h hk.1.1, hk.1.2, hk.2⟩

theorem part_leaf (h : k.accepts .none = true) (hk : k.standsAlone = true) : (leaf k).Part :=
  part_ofPayload h hk

theorem part_ofText {s : String} (h : k.accepts (.text s) = true) (hk : k.standsAlone = true) :
    (ofText k s).Part :=
  part_ofPayload h hk

theorem part_ofIndex {i : UInt64} (h : k.accepts (.index i) = true)
    (hk : k.standsAlone = true) : (ofIndex k i).Part :=
  part_ofPayload h hk

theorem part_identifier (s : String) : (identifier s).Part :=
  part_ofText rfl (by decide)

theorem open_module (s : String) : (module s).Open :=
  (part_ofText rfl (by decide)).open rfl

theorem child_index (i : UInt64) : (ofIndex .index i).Child :=
  ⟨formed_ofPayload rfl rfl, rfl, by simp [ofIndex, ofPayload]⟩

/-! ## Branches -/

theorem all_not_isTag (h : ∀ c ∈ cs, c.Child) : cs.all (!·.isTag) = true := by
  rw [List.all_eq_true]
  intro c hc
  simp [(h c hc).isTag]

theorem all_not_isSealed (h : ∀ c ∈ cs, c.Open) : cs.all (!·.kind.isSealed) = true := by
  rw [List.all_eq_true]
  intro c hc
  simp [(h c hc).isSealed]

/-- A node whose children fit and stand in their frame. -/
theorem open_branch_of_framed (hk : k.isOrdinary = true) (h : ∀ c ∈ cs, c.Formed)
    (hf : childrenFit k cs = true) (hr : Framed k cs) : (branch k cs).Open := by
  have hs := isSealed_of_isOrdinary hk
  simp only [Kind.isOrdinary, Bool.and_eq_true, bne_iff_ne] at hk
  exact ⟨formed_branch hk.1.1.1.1.1 hf hr h, hs, hk.2⟩

theorem framed_of_isFree (hk : k.isFree = true) (h : ∀ c ∈ cs, c.Child) : Framed k cs :=
  framed_of_isLoose (isLoose_of_isFree hk) fun c hc => (h c hc).ne_labelList

theorem open_branch_of_fit (hk : k.isFree = true) (h : ∀ c ∈ cs, c.Child)
    (hf : childrenFit k cs = true) : (branch k cs).Open :=
  open_branch_of_framed (isOrdinary_of_isFree hk) (fun c hc => (h c hc).formed) hf
    (framed_of_isFree hk h)

/-- A node of a kind that takes any children and has a frame. -/
theorem open_branch_of_takesAny (hk : k.takesAny = true) (h : ∀ c ∈ cs, c.Child)
    (hr : Framed k cs) : (branch k cs).Open := by
  refine open_branch_of_framed (isOrdinary_of_takesAny hk) (fun c hc => (h c hc).formed) ?_ hr
  rw [childrenFit_of_takesAny hk]
  exact all_not_isTag h

theorem open_branch (hk : k.isPlain = true) (h : ∀ c ∈ cs, c.Child) : (branch k cs).Open :=
  open_branch_of_takesAny (takesAny_of_isPlain hk) h (framed_of_isFree (isFree_of_isPlain hk) h)

/-- A node of a kind that takes something from its children. -/
theorem open_branch_of_needs (hk : k.isFree = true) (hl : k.looksThrough = false)
    (h : ∀ c ∈ cs, c.Child)
    (hn : k.needs.all (fun (i, need) => cs[i]?.all (·.meets need)) = true) :
    (branch k cs).Open := by
  refine open_branch_of_fit hk h ?_
  rw [childrenFit_of_isOrdinary (isOrdinary_of_isFree hk), all_not_isTag h, hl, hn]
  rfl

/-- A node of a kind that is looked through and has a frame. -/
theorem open_through_of_framed (hk : k.isOrdinary = true) (h : ∀ c ∈ cs, c.Open)
    (hn : k.needs.all (fun (i, need) => cs[i]?.all (·.meets need)) = true) (hr : Framed k cs) :
    (branch k cs).Open := by
  refine open_branch_of_framed hk (fun c hc => (h c hc).formed) ?_ hr
  rw [childrenFit_of_isOrdinary hk, all_not_isTag fun c hc => (h c hc).child, all_not_isSealed h,
    hn, Bool.or_true]
  rfl

/-- A node of a kind that is looked through. -/
theorem open_through (hk : k.isFree = true) (h : ∀ c ∈ cs, c.Open)
    (hn : k.needs.all (fun (i, need) => cs[i]?.all (·.meets need)) = true) :
    (branch k cs).Open :=
  open_through_of_framed (isOrdinary_of_isFree hk) h hn
    (framed_of_isFree hk fun c hc => (h c hc).child)

theorem open_typeOf (h : n.Open) : (typeOf n).Open :=
  open_through_of_framed rfl (by simpa using h) rfl (framed_type h.ne_labelList)

/-! ## Taking nodes apart -/

/-- The children of a node that is looked through may be taken apart. -/
theorem Formed.open_child (h : n.Formed) (hk : n.kind.looksThrough = true)
    (hc : c ∈ n.children) : c.Open :=
  ⟨h.child hc, h.sound.isSealed_child trivial hk hc,
    h.ne_labelList (isLabelled_of_looksThrough hk) hc⟩

/-- The children of a node that may be taken apart are no tags. -/
theorem Open.child_of_mem (h : n.Open) (hk : n.kind.isLabelled = false) (hc : c ∈ n.children) :
    c.Child := by
  refine ⟨h.formed.child hc, h.sound.isTag_child trivial ?_ hc, h.formed.ne_labelList hk hc⟩
  have := h.isSealed
  simp only [Kind.isSealed, Bool.or_eq_false_iff] at this
  exact this.2

theorem Part.payload_isText (h : n.Part) (hk : ∀ p, n.kind.accepts p = p.isText) :
    n.payload.isText = true := by
  rw [← hk]
  exact h.sound.accepts trivial

/-! ## Edits -/

/-- A leaf can change between kinds that accept its payload. -/
theorem part_withKind_of_isText (h : n.Part) (ht : n.payload.isText = true)
    (ha : ∀ p, k.accepts p = p.isText) (hk : k.standsAlone = true) : (n.withKind k).Part := by
  have hbare : n.children = [] := h.sound.bare trivial fun hp => by simp [hp, Payload.isText] at ht
  simp only [Kind.standsAlone, Bool.and_eq_true, bne_iff_ne] at hk
  refine ⟨formed_mk (by rw [ha, ht]) (fun _ => hbare) h.formed.neat.here.height ?_ ?_ ?_,
    hk.1.2, hk.2⟩
  · rw [hbare]
    exact childrenFit_nil
  · rw [hbare]
    exact framed_of_isLoose hk.1.1 (by simp)
  · simp [hbare]

/-- A plain node can change between plain kinds that accept any payload. -/
theorem open_withKind (h : n.Open) (hl : n.kind.isLabelled = false) (hk : k.isPlain = true)
    (ha : ∀ p, k.accepts p = true) : (n.withKind k).Open := by
  have hchild (c : Node) (hc : c ∈ n.children) : c.Child := h.child_of_mem hl hc
  refine ⟨formed_mk (ha _) (h.sound.bare trivial) h.formed.neat.here.height ?_
    (framed_of_isFree (isFree_of_isPlain hk) hchild) fun c hc => h.formed.child hc,
    isSealed_of_isPlain hk, ?_⟩
  · rw [childrenFit_of_takesAny (takesAny_of_isPlain hk)]
    exact all_not_isTag hchild
  · rintro rfl
    cases hk

theorem formed_addChild (h : n.Formed) (hc : c.Formed)
    (hf : childrenFit n.kind (n.children ++ [c]) = true) (hr : Framed n.kind (n.children ++ [c])) :
    (n.addChild c).Formed := by
  unfold addChild
  split
  next ha =>
    have hp : n.payload = .none := by simpa [acceptsChildren] using ha
    refine formed_mk (h.sound.accepts trivial) (fun hne => absurd hp hne) ?_ hf hr ?_
    · have hheight : n.height = top n.children + 1 := h.neat.here.height
      show max n.height (c.height + 1) = top (n.children ++ [c]) + 1
      rw [hheight, top_append, top_cons, top_nil]
      omega
    · intro a ha
      rcases List.mem_append.mp ha with ha | ha
      · exact h.child ha
      · obtain rfl := List.mem_singleton.mp ha
        exact hc
  next => exact h

/-- A node that takes any children takes more of them. -/
theorem childrenFit_append (hk : k.takesAny = true) (hn : childrenFit k cs = true)
    (hc : ∀ c ∈ ds, c.Child) : childrenFit k (cs ++ ds) = true := by
  rw [childrenFit_of_takesAny hk] at hn ⊢
  rw [List.all_append, hn, Bool.true_and]
  exact all_not_isTag hc

/-- A kind that needs nothing of its children takes more of them. -/
theorem childrenFit_append_open (hk : k.isOrdinary = true) (hn : k.needs = [])
    (hf : childrenFit k cs = true) (hd : ∀ d ∈ ds, d.Open) : childrenFit k (cs ++ ds) = true := by
  have htags : ds.all (!·.isTag) = true := all_not_isTag fun d h => (hd d h).child
  rw [childrenFit_of_isOrdinary hk] at hf ⊢
  simpa [hn, List.all_append, htags, all_not_isSealed hd] using hf

/-- A plain kind takes more children. -/
theorem framed_append (hk : k.isPlain = true) (hl : k.isLabelled = false) (hr : Framed k cs)
    (hd : ∀ d ∈ ds, d.Child) : Framed k (cs ++ ds) := by
  refine hr.append ?_ hl fun d h => (hd d h).ne_labelList
  have := isLoose_of_isFree (isFree_of_isPlain hk)
  simp only [Kind.isLoose, Bool.and_eq_true, Bool.not_eq_true'] at this
  exact this.1.1

theorem open_addChild (h : n.Open) (hk : n.kind.isPlain = true) (hl : n.kind.isLabelled = false)
    (hc : c.Child) : (n.addChild c).Open := by
  have hone : ∀ d ∈ [c], d.Child := by simpa using hc
  refine ⟨formed_addChild h.formed hc.formed ?_ ?_, by rw [kind_addChild]; exact h.isSealed,
    by rw [kind_addChild]; exact h.ne_labelList⟩
  · exact childrenFit_append (takesAny_of_isPlain hk) (h.sound.childrenFit trivial) hone
  · exact framed_append hk hl h.formed.neat.here.framed hone

theorem formed_addChildren (h : n.Formed) (hc : ∀ c ∈ cs, c.Formed)
    (hf : childrenFit n.kind (n.children ++ cs) = true) (hr : Framed n.kind (n.children ++ cs)) :
    (n.addChildren cs).Formed := by
  unfold addChildren
  split
  next ha =>
    have hp : n.payload = .none := by simpa [acceptsChildren] using ha
    refine formed_mk (h.sound.accepts trivial) (fun hne => absurd hp hne) rfl hf hr fun a ha => ?_
    rcases List.mem_append.mp ha with ha | ha
    · exact h.child ha
    · exact hc a ha
  next => exact h

theorem open_addChildren (h : n.Open) (hk : n.kind.isPlain = true)
    (hl : n.kind.isLabelled = false) (hc : ∀ c ∈ cs, c.Child) : (n.addChildren cs).Open := by
  refine ⟨formed_addChildren h.formed (fun c hcs => (hc c hcs).formed) ?_ ?_,
    by rw [kind_addChildren]; exact h.isSealed, by rw [kind_addChildren]; exact h.ne_labelList⟩
  · exact childrenFit_append (takesAny_of_isPlain hk) (h.sound.childrenFit trivial) hc
  · exact framed_append hk hl h.formed.neat.here.framed hc

/-- A child can be put into a node that takes any, if its frame leaves room for it. -/
theorem open_insertChild {i : Nat} (h : n.Open) (hk : n.kind.takesAny = true)
    (hl : n.kind.isLabelled = false) (hc : c.Child)
    (hr : i ≤ n.count → Framed n.kind (n.children.insertIdx i c)) : (n.insertChild i c).Open := by
  refine ⟨?_, by rw [kind_insertChild]; exact h.isSealed,
    by rw [kind_insertChild]; exact h.ne_labelList⟩
  unfold insertChild
  split
  next hi =>
    rw [Bool.and_eq_true, decide_eq_true_eq] at hi
    have hp : n.payload = .none := by simpa [acceptsChildren] using hi.1
    have hmem : ∀ a ∈ n.children.insertIdx i c, a.Child := by
      intro a ha
      rcases (List.mem_insertIdx hi.2).mp ha with rfl | ha
      · exact hc
      · exact h.child_of_mem hl ha
    refine formed_mk (h.sound.accepts trivial) (fun hne => absurd hp hne) ?_ ?_ (hr hi.2)
      fun a ha => (hmem a ha).formed
    · have hheight : n.height = top n.children + 1 := h.formed.neat.here.height
      show max n.height (c.height + 1) = top (n.children.insertIdx i c) + 1
      rw [hheight, top_insertIdx hi.2]
      omega
    · rw [childrenFit_of_takesAny hk]
      exact all_not_isTag hmem
  next => exact h.formed

/-- A child can be taken from a node that takes any, if its frame does not ask for it. -/
theorem open_removeChildAt {i : Nat} (h : n.Open) (hk : n.kind.takesAny = true)
    (hl : n.kind.isLabelled = false) (hr : Framed n.kind (n.children.eraseIdx i)) :
    (n.removeChildAt i).Open := by
  have hmem : ∀ c ∈ n.children.eraseIdx i, c ∈ n.children := fun c hc => List.mem_of_mem_eraseIdx hc
  refine ⟨formed_mk (h.sound.accepts trivial) (fun hp => ?_) rfl ?_ hr
    fun c hc => h.formed.child (hmem c hc), h.isSealed, h.ne_labelList⟩
  · rw [h.sound.bare trivial hp]
    rfl
  · rw [childrenFit_of_takesAny hk]
    exact all_not_isTag fun c hc => h.child_of_mem hl (hmem c hc)

/-! ## Changes deep inside of a tree -/

/-- Whether a well-formed node may be taken apart depends on its kind only. -/
theorem Open.of_label (h : n.Open) (hc : c.Formed) (hl : c.label = n.label) :
    c.Open ∧ c.kind = n.kind := by
  have hk : c.label.kind = n.label.kind := by rw [hl]
  replace hk : c.kind = n.kind := hk
  exact ⟨⟨hc, by rw [hk]; exact h.isSealed, by rw [hk]; exact h.ne_labelList⟩, hk⟩

/-- No node on the way down a path, the last one apart, can be labelled. -/
def Unlabelled (n : Node) : List Nat → Prop
  | [] => True
  | i :: path => n.kind.isLabelled = false ∧ ∀ c, n.child? i = some c → c.Unlabelled path

/-- A change at the end of a path that keeps kind, payload and height leaves the whole tree
well-formed, with its own kind, payload and height. -/
theorem formed_modifyAt {f : Node → Node} {m : Node} {path : List Nat} (h : n.Formed)
    (hp : n.Unlabelled path) (hm : n.follow? path = some m) (hf : (f m).Formed)
    (hl : (f m).label = m.label) (hh : (f m).height = m.height) :
    (n.modifyAt f path).Formed ∧ (n.modifyAt f path).label = n.label ∧
      (n.modifyAt f path).height = n.height := by
  induction path generalizing n with
  | nil =>
    obtain rfl : n = m := by simpa [follow?] using hm
    exact ⟨hf, hl, hh⟩
  | cons i path ih =>
    rw [follow?] at hm
    rw [modifyAt]
    split at hm
    next c hc =>
      obtain ⟨hi, rfl⟩ := List.getElem?_eq_some_iff.mp hc
      have hcm : n.children[i] ∈ n.children := List.getElem_mem hi
      obtain ⟨hs, hlabel, hheight⟩ := ih (h.child hcm) (hp.2 _ hc) hm
      -- the child that is changed keeps its height and its label
      have hmap : (n.children.set i (n.children[i].modifyAt f path)).map label =
          n.children.map label := by
        rw [List.map_set, hlabel, ← List.map_set, List.set_getElem_self]
      have hkinds : (n.children.set i (n.children[i].modifyAt f path)).map kind =
          n.children.map kind := by
        have hkind : (n.children[i].modifyAt f path).kind = n.children[i].kind := by
          have := congrArg kind hlabel
          exact this
        rw [List.map_set, hkind, ← List.map_set, List.set_getElem_self]
      refine ⟨formed_mk (h.sound.accepts trivial) (fun hp => ?_) ?_ ?_
        (h.neat.here.framed.congr hp.1 hkinds) fun a ha => ?_, rfl, rfl⟩
      · have := List.ne_nil_of_mem hcm
        exact absurd (h.sound.bare trivial hp) this
      · rw [h.neat.here.height]
        exact congrArg (· + 1) (top_set hi hheight).symm
      · rw [childrenFit_congr hmap]
        exact h.sound.childrenFit trivial
      · rcases List.mem_or_eq_of_mem_set ha with ha | rfl
        · exact h.child ha
        · exact hs
    next => cases hm

end Node

end SwiftMangling
