import SwiftMangling.Node.Unbound
import SwiftMangling.Proofs.Kind
import SwiftMangling.Proofs.Node.Height
import SwiftMangling.Proofs.Node.Sound

/-!
# Neat trees

What the decoders guarantee of their trees beyond what the printing rules need. Every node of a neat
tree stores its exact height, and the children of some kinds of nodes stand in a fixed frame. In the
current scheme a declaration can have a list of labels, which then stands right in front of its type
and has a label for each parameter; the legacy scheme has no such lists.
-/

namespace SwiftMangling

/-- Whether declarations can have lists of labels, which only one of the schemes has. -/
class Labelling where
  hasLists : Prop

namespace Kind

/-- Declarations that can have a list of labels. -/
def isLabelled : Kind → Bool
  | .function | .variableDecl | .subscript | .allocator | .constructor | .genericTypeParamDecl =>
    true
  | _ => false

/-- Kinds whose children stand in a frame that leaves no room for more of them. -/
def isRigid : Kind → Bool
  | .type | .tupleElement | .functionType | .noEscapeFunctionType | .argumentTuple => true
  | _ => false

/-- Kinds whose children can be any nodes but lists of labels. -/
def isLoose (k : Kind) : Bool :=
  !k.isRigid && !k.isNominal && !Node.isBoundKind k

theorem isNominal_of_isBoundKind {k : Kind} (h : Node.isBoundKind k = true) :
    k.isNominal = false := by
  simpa using of_check h (q := (!·.isNominal)) (by decide +kernel)

theorem not_isNominal_of_isRigid {k : Kind} (h : k.isRigid = true) :
    k.isNominal = false ∧ Node.isBoundKind k = false := by
  simpa using of_check h (q := fun k => !k.isNominal && !Node.isBoundKind k) (by decide +kernel)

end Kind

namespace Node

variable {n b c : Node} {k : Kind} {cs ds : List Node}

/-! ## Properties of all nodes of a tree -/

/-- Every node of a tree satisfies `P`. -/
inductive Everywhere (P : Node → Prop) : Node → Prop where
  | intro {n : Node} (here : P n) (below : ∀ c ∈ n.children, Everywhere P c) : Everywhere P n

theorem Everywhere.here {P : Node → Prop} (h : n.Everywhere P) : P n := by
  cases h with
  | intro here => exact here

theorem Everywhere.child {P : Node → Prop} (h : n.Everywhere P) (hc : c ∈ n.children) :
    c.Everywhere P := by
  cases h with
  | intro _ below => exact below c hc

theorem Everywhere.mono {P Q : Node → Prop} (h : n.Everywhere P) (hPQ : ∀ n, P n → Q n) :
    n.Everywhere Q := by
  induction h with
  | intro here _ ih => exact .intro (hPQ _ here) ih

/-- If every node is one higher than its children, the stored heights are the depths. -/
theorem height_eq_depth (h : n.Everywhere fun m => m.height = heightAbove m.children) :
    n.height = n.depth := by
  induction h with
  | intro here _ ih =>
    rw [here, depth_eq, depths_eq_top ih]
    rfl

/-! ## Labels -/

theorem first?_eq_child? (n : Node) : n.first? = n.child? 0 :=
  List.head?_eq_getElem? ..

/-- The function type that a type stands for, which may be generic. -/
def function? (t : Node) : Option Node :=
  t.first?.bind fun n =>
    if n.kind == .dependentGenericType then (n.child? 1).bind first? else some n

/-- The functions of type `t` take the parameters `p`. -/
def Takes (t p : Node) : Prop :=
  ∃ f, t.function? = some f ∧ (f.kind = .functionType ∨ f.kind = .noEscapeFunctionType) ∧
    ∃ a ∈ f.children, a.kind = .argumentTuple ∧ a.first?.bind first? = some p

/-- The list `l` has a label for each parameter of the functions of type `t`. -/
def LabelsFit (l t : Node) : Prop :=
  (∀ x ∈ l.children, x.kind = .identifier ∨ x.kind = .firstElementMarker) ∧
    ∃ p, Takes t p ∧ l.count = if p.kind = .tuple then p.count else 1

/-- The children of a declaration with a list of labels. -/
structure LabelParts (cs before : List Node) (l t : Node) (after : List Node) : Prop where
  eq : cs = before ++ l :: t :: after
  ne_nil : before ≠ []
  list : l.kind = .labelList
  type : t.kind = .type
  others : ∀ x ∈ before ++ after, x.kind ≠ .labelList ∧ x.kind ≠ .type
  fit : l.children ≠ [] → LabelsFit l t

/-! ## Frames -/

/-- The kinds of the parts of a tuple element. -/
def elementFrames : List (List Kind) :=
  [[.type], [.tupleElementName, .type], [.variadicMarker, .type],
   [.variadicMarker, .tupleElementName, .type]]

/-- The kinds of the parts of a function type: marks, the parameters and the result. -/
def IsFunctionFrame (ks : List Kind) : Prop :=
  ∃ marks, ks = marks ++ [.argumentTuple, .returnType] ∧ .argumentTuple ∉ marks

/-- The children of a node of kind `k` stand in the frame that the kind has. -/
structure Framed [Labelling] (k : Kind) (cs : List Node) : Prop where
  type : k = .type → cs.length = 1
  nominal : k.isNominal = true → 2 ≤ cs.length
  bound : isBoundKind k = true → ∃ c ∈ cs.head?, k = .boundGenericFunction ∨ c.kind = .type
  element : Labelling.hasLists → k = .tupleElement → cs.map kind ∈ elementFrames
  function : Labelling.hasLists → k = .functionType ∨ k = .noEscapeFunctionType →
    IsFunctionFrame (cs.map kind)
  arguments : Labelling.hasLists → k = .argumentTuple → cs.map kind = [.type]
  labels : (∀ c ∈ cs, c.kind ≠ .labelList) ∨ Labelling.hasLists ∧ k.isLabelled = true ∧
    ∃ before l t after, LabelParts cs before l t after

/-- A child can give way to one of the same kind, and a context to a bound declaration. -/
def KindStands (b c : Kind) : Prop :=
  b = c ∨ isBoundKind b = true ∧ c.isContext = true

/-- No kind but a bound one comes in the place of another. -/
theorem KindStands.ne {x y : Kind} (h : KindStands x y) (hy : y ≠ k)
    (hk : isBoundKind k = false) : x ≠ k := by
  rintro rfl
  rcases h with h | ⟨h, -⟩
  · exact hy h.symm
  · simp [hk] at h

/-- Only a context changes its kind. -/
theorem KindStands.eq {x y : Kind} (h : KindStands x y) (hy : y.isContext = false) : x = y := by
  rcases h with h | ⟨-, h⟩
  · exact h
  · simp [hy] at h

/-! What a frame asks for by kind is no context, and so it stays when the first child gives way. -/

/-- A tuple element starts with a marker, a name or a type. -/
theorem not_isContext_of_elementFrames {ks : List Kind} (h : k :: ks ∈ elementFrames) :
    k.isContext = false := by
  simp only [elementFrames, List.mem_cons, List.cons.injEq, List.not_mem_nil, or_false] at h
  rcases h with ⟨hk, -⟩ | ⟨hk, -⟩ | ⟨hk, -⟩ | ⟨hk, -⟩ <;> (rw [hk]; rfl)

theorem IsFunctionFrame.replaceHead {x y : Kind} {ks : List Kind} (h : IsFunctionFrame (y :: ks))
    (hx : KindStands x y) : IsFunctionFrame (x :: ks) := by
  obtain ⟨marks, heq, hmarks⟩ := h
  cases marks with
  | nil =>
    -- the parameters are no context
    obtain ⟨rfl, hks⟩ := List.cons.inj heq
    exact ⟨[], by rw [hx.eq rfl, hks]; rfl, hmarks⟩
  | cons m marks =>
    obtain ⟨rfl, hks⟩ := List.cons.inj heq
    rw [List.mem_cons, not_or] at hmarks
    refine ⟨x :: marks, by rw [hks]; rfl, ?_⟩
    rw [List.mem_cons, not_or]
    exact ⟨(hx.ne (Ne.symm hmarks.1) rfl).symm, hmarks.2⟩

/-- A list of labels does not come first. -/
theorem LabelParts.replaceHead {before after : List Node} {l t : Node}
    (h : LabelParts (c :: cs) before l t after) (hb : KindStands b.kind c.kind) :
    ∃ before, LabelParts (b :: cs) before l t after := by
  obtain ⟨x, before, rfl⟩ := List.exists_cons_of_ne_nil h.ne_nil
  obtain ⟨rfl, hcs⟩ := List.cons.inj h.eq
  have hothers := h.others
  rw [List.cons_append, List.forall_mem_cons] at hothers
  refine ⟨b :: before, by rw [hcs]; rfl, by simp, h.list, h.type, ?_, h.fit⟩
  rw [List.cons_append, List.forall_mem_cons]
  exact ⟨⟨hb.ne hothers.1.1 rfl, hb.ne hothers.1.2 rfl⟩, hothers.2⟩

variable [Labelling]

/-- Children of a loose kind have to fit only in their labels. -/
theorem framed_of_labels (hk : k.isLoose = true)
    (h : (∀ c ∈ cs, c.kind ≠ .labelList) ∨ Labelling.hasLists ∧ k.isLabelled = true ∧
      ∃ before l t after, LabelParts cs before l t after) : Framed k cs := by
  simp only [Kind.isLoose, Bool.and_eq_true, Bool.not_eq_true'] at hk
  obtain ⟨⟨hrigid, hnominal⟩, hbound⟩ := hk
  refine ⟨?_, by simp [hnominal], by simp [hbound], ?_, ?_, ?_, h⟩
  · rintro rfl
    cases hrigid
  · rintro - rfl
    cases hrigid
  · rintro - (rfl | rfl) <;> cases hrigid
  · rintro - rfl
    cases hrigid

theorem framed_of_isLoose (hk : k.isLoose = true) (h : ∀ c ∈ cs, c.kind ≠ .labelList) :
    Framed k cs :=
  framed_of_labels hk (.inl h)

/-- A type has one child. -/
theorem framed_type (h : c.kind ≠ .labelList) : Framed .type [c] where
  type _ := rfl
  nominal hk := by cases hk
  bound hk := by cases hk
  element _ hk := by cases hk
  function _ hk := by rcases hk with hk | hk <;> cases hk
  arguments _ hk := by cases hk
  labels := .inl (by simpa using h)

theorem framed_nominal (hk : k.isNominal = true) (hb : b.kind ≠ .labelList)
    (hc : c.kind ≠ .labelList) : Framed k [b, c] where
  type h := by rw [h] at hk; cases hk
  nominal _ := Nat.le_refl 2
  bound h := by simp [Kind.isNominal_of_isBoundKind h] at hk
  element _ h := by rw [h] at hk; cases hk
  function _ h := by rcases h with h | h <;> (rw [h] at hk; cases hk)
  arguments _ h := by rw [h] at hk; cases hk
  labels := .inl (by simpa using ⟨hb, hc⟩)

theorem framed_bound (hk : isBoundKind k = true) (h : ∀ a ∈ c :: cs, a.kind ≠ .labelList)
    (hc : k = .boundGenericFunction ∨ c.kind = .type) : Framed k (c :: cs) where
  type h := by rw [h] at hk; cases hk
  nominal h := by simp [Kind.isNominal_of_isBoundKind hk] at h
  bound _ := ⟨c, rfl, hc⟩
  element _ h := by rw [h] at hk; cases hk
  function _ h := by rcases h with h | h <;> (rw [h] at hk; cases hk)
  arguments _ h := by rw [h] at hk; cases hk
  labels := .inl h

/-- A frame of the current scheme only. -/
theorem framed_of_isRigid (hk : k.isRigid = true) (ht : k ≠ .type)
    (h : ∀ c ∈ cs, c.kind ≠ .labelList)
    (he : Labelling.hasLists → k = .tupleElement → cs.map kind ∈ elementFrames)
    (hf : Labelling.hasLists → k = .functionType ∨ k = .noEscapeFunctionType →
      IsFunctionFrame (cs.map kind))
    (ha : Labelling.hasLists → k = .argumentTuple → cs.map kind = [.type]) : Framed k cs where
  type h := absurd h ht
  nominal h := by simp [(Kind.not_isNominal_of_isRigid hk).1] at h
  bound h := by simp [(Kind.not_isNominal_of_isRigid hk).2] at h
  element := he
  function := hf
  arguments := ha
  labels := .inl h

/-- Only a declaration that can be labelled has a list of labels. -/
theorem Framed.ne_labelList (h : Framed k cs) (hk : k.isLabelled = false) (hc : c ∈ cs) :
    c.kind ≠ .labelList := by
  rcases h.labels with hl | ⟨-, hl, -⟩
  · exact hl c hc
  · rw [hk] at hl
    cases hl

/-- A frame that leaves room for more children. -/
theorem Framed.append (h : Framed k cs) (hr : k.isRigid = false) (hl : k.isLabelled = false)
    (hd : ∀ d ∈ ds, d.kind ≠ .labelList) : Framed k (cs ++ ds) where
  type hk := by rw [hk] at hr; cases hr
  nominal hk := by
    have := h.nominal hk
    rw [List.length_append]
    omega
  bound hk := by
    obtain ⟨c, hc, hck⟩ := h.bound hk
    exact ⟨c, by simp_all, hck⟩
  element _ hk := by rw [hk] at hr; cases hr
  function _ hk := by rcases hk with hk | hk <;> (rw [hk] at hr; cases hr)
  arguments _ hk := by rw [hk] at hr; cases hr
  -- nothing that is added is a list of labels, and there was none before
  labels := by
    refine .inl fun c hc => ?_
    rcases List.mem_append.mp hc with hc | hc
    · exact h.ne_labelList hl hc
    · exact hd c hc

/-- Without labels the frame depends on the kinds of the children only. -/
theorem Framed.congr (h : Framed k cs) (hl : k.isLabelled = false)
    (hkinds : ds.map kind = cs.map kind) : Framed k ds where
  type hk := by rw [← List.length_map (f := kind), hkinds, List.length_map]; exact h.type hk
  nominal hk := by rw [← List.length_map (f := kind), hkinds, List.length_map]; exact h.nominal hk
  bound hk := by
    obtain ⟨c, hc, hck⟩ := h.bound hk
    have hhead : (ds.map kind).head? = some c.kind := by
      rw [hkinds, List.head?_map, hc]
      rfl
    obtain ⟨d, hd, hdk⟩ := Option.map_eq_some_iff.mp ((List.head?_map ..).symm.trans hhead)
    exact ⟨d, hd, by rw [hdk]; exact hck⟩
  element hg hk := hkinds ▸ h.element hg hk
  function hg hk := hkinds ▸ h.function hg hk
  arguments hg hk := hkinds ▸ h.arguments hg hk
  labels := by
    refine .inl fun d hd => ?_
    have hmem : d.kind ∈ cs.map kind := hkinds ▸ List.mem_map_of_mem hd
    obtain ⟨c, hc, hck⟩ := List.mem_map.mp hmem
    exact hck ▸ h.ne_labelList hl hc

/-- The frame holds with something else in the place of the first child that can stand there. -/
theorem Framed.replaceHead (h : Framed k (c :: cs)) (hb : KindStands b.kind c.kind) :
    Framed k (b :: cs) where
  type := h.type
  nominal := h.nominal
  bound hk := by
    obtain ⟨x, hx, hxk⟩ := h.bound hk
    obtain rfl : c = x := by simpa using hx
    exact ⟨b, rfl, hxk.imp_right fun hck => (hb.eq (by rw [hck]; rfl)).trans hck⟩
  element hg hk := by
    have hframe := h.element hg hk
    rw [List.map_cons] at hframe ⊢
    rwa [hb.eq (not_isContext_of_elementFrames hframe)]
  function hg hk := (h.function hg hk).replaceHead hb
  arguments hg hk := by
    obtain ⟨hck, hcs⟩ := List.cons.inj (h.arguments hg hk)
    rw [List.map_cons, hb.eq (by rw [hck]; rfl), hck, hcs]
  labels := by
    rcases h.labels with hl | ⟨hg, hk, before, l, t, after, hl⟩
    · rw [List.forall_mem_cons] at hl
      exact .inl (List.forall_mem_cons.mpr ⟨hb.ne hl.1 rfl, hl.2⟩)
    · obtain ⟨before, hparts⟩ := hl.replaceHead hb
      exact .inr ⟨hg, hk, before, l, t, after, hparts⟩

/-- Without labels nothing but the first two children is framed. -/
theorem Framed.take_two (hg : ¬Labelling.hasLists) (h : Framed k (b :: c :: cs)) :
    Framed k [b, c] where
  type hk := by
    have := h.type hk
    simp at this
  nominal _ := Nat.le_refl 2
  bound := h.bound
  element hg' := absurd hg' hg
  function hg' := absurd hg' hg
  arguments hg' := absurd hg' hg
  labels := by
    rcases h.labels with hl | ⟨hg', -⟩
    · exact .inl (by simpa using ⟨hl b (by simp), hl c (by simp)⟩)
    · exact absurd hg' hg

/-! ## Neat trees -/

/-- A node stores its exact height, and its children stand in their frame. -/
structure Regular (n : Node) : Prop where
  height : n.height = heightAbove n.children
  framed : Framed n.kind n.children

/-- Every node of the tree is regular. -/
abbrev Neat (n : Node) : Prop :=
  n.Everywhere Regular

/-- A sound and neat tree. -/
structure Formed (n : Node) : Prop where
  sound : n.Sound True
  neat : n.Neat

theorem Formed.child (h : n.Formed) (hc : c ∈ n.children) : c.Formed :=
  ⟨h.sound.child hc, h.neat.child hc⟩

theorem Formed.ne_labelList (h : n.Formed) (hk : n.kind.isLabelled = false)
    (hc : c ∈ n.children) : c.kind ≠ .labelList :=
  h.neat.here.framed.ne_labelList hk hc

/-- A node is well-formed if its children are, fit, stand in their frame and give it its height. -/
theorem formed_mk {p : Payload} {height : Nat} (ha : k.accepts p = true) (hp : p ≠ .none → cs = [])
    (hh : height = heightAbove cs) (hf : childrenFit k cs = true) (hr : Framed k cs)
    (h : ∀ c ∈ cs, c.Formed) : Formed ⟨k, p, cs, height⟩ where
  sound := by
    refine .intro (fun _ => fits_iff.mpr ⟨ha, hp, hf⟩) ?_ (fun c hc => ?_) fun c hc => (h c hc).sound
    · rw [hh]
      exact Nat.succ_pos _
    · rw [hh]
      exact height_lt_heightAbove hc
  neat := .intro ⟨hh, hr⟩ fun c hc => (h c hc).neat

theorem formed_ofPayload {p : Payload} (ha : k.accepts p = true) (hk : k.isLoose = true) :
    (ofPayload k p).Formed :=
  formed_mk ha (fun _ => rfl) rfl childrenFit_nil (framed_of_isLoose hk (by simp)) (by simp)

theorem formed_branch (ha : k.accepts .none = true) (hf : childrenFit k cs = true)
    (hr : Framed k cs) (h : ∀ c ∈ cs, c.Formed) : (branch k cs).Formed :=
  formed_mk ha (fun hp => absurd rfl hp) rfl hf hr h

end Node

end SwiftMangling
