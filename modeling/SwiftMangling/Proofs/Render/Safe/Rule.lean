import SwiftMangling.Proofs.Render.Safe.Entity
import SwiftMangling.Proofs.Render.Safe.Symbol

/-!
# Sound trees are rendered or lack a child

Every rule is safe on a sound node, so by induction on the depth a sound tree of height at most
`maxRenderDepth` is rendered, or a child is missing, or a kind stands where it has no rule. A higher
tree is refused before anything is printed.
-/

set_option synthInstance.maxSize 100000

namespace SwiftMangling.Render

variable {checked : Checks} {d : Nat} {n c : Node}

instance printPieces_safe (ps : List Piece) [Below checked d n] :
    Safe checked d (printPieces n ps) := by
  induction ps with
  | nil =>
    rw [printPieces]
    infer_instance
  | cons p ps ih =>
    have : Safe checked d (printPiece n p) := by
      unfold printPiece
      split <;> infer_instance
    rw [printPieces]
    infer_instance

theorem printTypeMangling_safe (h : Printable checked (d + 1) n) (hk : n.kind = .typeMangling) :
    Safe checked d (printTypeMangling n) := by
  have hb := h.below (by rw [hk]; rfl)
  unfold printTypeMangling
  refine (child_yields n 0).bind_safe fun first hc => ?_
  have hp : Printable checked d first := hb.child? hc
  have := print_safe hp
  split
  next hlist =>
    refine (child_yields n 1).bind_safe fun t ht => ?_
    have htype : checked.payloads → t.kind = .type := fun hch => by
      have : t.meets (.kind .type) = true := h.sound.meets hch (by rw [hk]; decide) ht
      simpa [Node.meets] using this
    have : Unlisted checked t := ⟨fun hch => by simp [htype (checked.payloads_of_labels hch)]⟩
    refine (child_yields t 0).bind_safe fun f hf => ?_
    have := ((hb.child? ht).typeChild htype hf).2
    refine printFunctionType_safe fun ls hls => ?_
    obtain rfl : first = ls := Option.some.inj hls
    -- where labels are checked, the first child is no list of them
    refine ⟨hp.sound, fun hch => absurd (by simpa using hlist) ?_⟩
    exact (h.labels hch).here.ne_labelList (by rw [hk]; rfl) (List.mem_of_getElem? hc)
  next => infer_instance

instance printOperator_safe (place : String) [Safe checked d (textOf n)] :
    Safe checked d (printOperator n place) := by
  unfold printOperator
  infer_instance

instance [Below checked d n] : Safe checked d (printFunctionType none n) :=
  printFunctionType_safe fun ls hls => by cases hls

theorem printActor_safe (hb : Below checked d n) :
    Safe checked d (match n.first? with
      | some actor => do
        write "@"
        print actor
        write " "
      | none => pure ()) := by
  cases hc : n.first? with
  | none => infer_instance
  | some c =>
    have : Safe checked d (print c) := print_safe (Below.child c (List.mem_of_mem_head? hc))
    infer_instance

/-- A payload that says how a function can be differentiated has a text for it. -/
theorem differentiable_safe (h : n.Sound checked.payloads)
    (hk : ∀ p, n.kind.accepts p = p.isDifferentiable) {f : String → Printer Unit}
    [∀ s, Safe checked d (f s)] :
    Safe checked d (differentiabilityOf n >>= fun a => differentiableAttribute a >>= f) := by
  have hy := differentiabilityOf_yields (d := d) fun hch => by rw [← hk]; exact h.accepts hch
  refine hy.bind_safe fun a ha => ?_
  have := differentiableAttribute_safe (d := d) ha
  infer_instance

/-- A number that is no tag carries an index. -/
theorem indexOf_safe_of_index (h : Printable checked (d + 1) n) (hk : n.kind = .index) :
    Safe checked d (indexOf n) := by
  refine indexOf_safe fun hch => ?_
  simpa [Node.isTag, hk] using h.isTag hch

/-- A node of a kind that accepts no payload is not sound as far as payloads are checked. -/
theorem indexOf_safe_of_refused (h : n.Sound checked.payloads)
    (hk : ∀ p, n.kind.accepts p = false) :
    Safe checked d (indexOf n) := by
  refine indexOf_safe fun hch => ?_
  have ha := h.accepts hch
  rw [hk] at ha
  cases ha

/-- A kind hides no children if a table has an entry for it and none for the kinds that do. -/
theorem hidesChildren_of_entry {α : Type} {f : Kind → Option α} {k : Kind} {a : α}
    (h : f k = some a) (hv : f .valueWitness = none) (hd : f .differentiabilityWitness = none)
    (hl : f .labelList = none) : k.hidesChildren = false := by
  cases hk : k.hidesChildren with
  | false => rfl
  | true => rcases Kind.hidesChildren_cases hk with rfl | rfl | rfl <;> simp_all

/-- Every rule for names, numbers and types is safe on a sound node. -/
theorem printTypeNode?_safe (h : Printable checked (d + 1) n) {p : Printer Unit}
    (hp : printTypeNode? n = some p) : Safe checked d p := by
  have hs := h.sound
  have hneed (i : Nat) (need : Need) (hn : (i, need) ∈ n.kind.needs) := h.meets hn
  unfold printTypeNode? at hp
  split at hp
  all_goals
    rename_i hk
    cases hp
  all_goals have hb := h.below (by rw [hk]; rfl)
  -- Most rules print children; the others read the node's payload, look through a child, or take
  -- something from one.
  all_goals try infer_instance
  all_goals try
    have := textOf_safe_of_kind (d := d) hs fun _ => by rw [hk]; rfl
    infer_instance
  all_goals try
    have := indexOf_safe_of_kind (d := d) hs fun _ => by rw [hk]; rfl
    infer_instance
  all_goals try
    have := h.through fun _ => by rw [hk]; rfl
    infer_instance
  all_goals try
    have := hneed 0 .text (by rw [hk]; decide)
    infer_instance
  all_goals first
    | have := indexOf_safe_of_refused (d := d) hs fun _ => by rw [hk]; rfl
      infer_instance
    | exact printTypeMangling_safe h hk
    | exact printActor_safe hb
    | exact Safe.bind_safe inferInstance fun b => printParameters_safe b (by simp) h
    | exact printTupleElement_safe h hk
    | exact printProtocolListWithClass_safe h hk
    | exact printProtocolListWithAnyObject_safe h hk
    | exact differentiable_safe hs fun _ => by rw [hk]; rfl
    | have := indexOf_safe_of_index h hk
      infer_instance
    | have := hneed 0 .index (by rw [hk]; decide)
      infer_instance
    | have := hneed 1 .text (by rw [hk]; decide)
      infer_instance
    | have := hneed 1 .layout (by rw [hk]; decide)
      infer_instance
    | have := hneed 0 .index (by rw [hk]; decide)
      have := hneed 1 .index (by rw [hk]; decide)
      infer_instance

/-- Every rule for the parts of whole symbols is safe on a sound node. -/
theorem printSymbolNode?_safe (h : Printable checked (d + 1) n) {p : Printer Unit}
    (hp : printSymbolNode? n = some p) : Safe checked d p := by
  have hs := h.sound
  unfold printSymbolNode? at hp
  split at hp
  -- the kinds that are a text in front of their children
  case h_32 =>
    obtain ⟨⟨description, start⟩, hk, rfl⟩ := Option.map_eq_some_iff.mp hp
    have := h.below (hidesChildren_of_entry hk rfl rfl rfl)
    infer_instance
  all_goals
    rename_i hk
    cases hp
  -- what is left prints children only, or a text of its own, or has a lemma of its own
  all_goals try
    have := h.below (by rw [hk]; rfl)
    infer_instance
  all_goals try
    have := textOf_safe_of_kind (d := d) hs fun _ => by rw [hk]; rfl
    infer_instance
  all_goals first
    | exact printParamKind_safe hs hk
    | exact printDirectness_safe hs hk
    | exact printValueWitness_safe h hk
    | exact printDifferentiabilityWitness_safe h hk
    | have := derivativeName_safe (d := d) hs hk
      infer_instance
    | have := indexOf_safe_of_kind (d := d) hs fun _ => by rw [hk]; rfl
      infer_instance
    | have := h.below (by rw [hk]; rfl)
      have : Meets checked n 2 .index := h.meets (by rw [hk]; decide)
      infer_instance

/-- Kinds without a style: by template, by the rules for types or by those for symbols. -/
theorem printPlain_safe (h : Printable checked (d + 1) n) : Safe checked d (printPlain n) := by
  unfold printPlain
  split
  next pieces hk =>
    cases hh : n.kind.hidesChildren with
    | false =>
      have := h.below hh
      infer_instance
    | true =>
      -- of the kinds that hide their children, only lists of labels have a template: the empty one
      obtain rfl : pieces = [] := by
        rcases Kind.hidesChildren_cases hh with h | h | h <;> rw [h] at hk <;> cases hk
        rfl
      exact inferInstanceAs (Safe checked d (pure ()))
  next =>
    cases ht : printTypeNode? n with
    | some p => exact printTypeNode?_safe h ht
    | none =>
      cases hs : printSymbolNode? n with
      | some p => exact printSymbolNode?_safe h hs
      | none => exact safe_throw trivial

/-- The rule for a sound node of height at most `d + 1` needs nodes of height at most `d`. -/
theorem rule_yields (asContext : Bool) (h : Printable checked (d + 1) n) :
    Yields checked d (rule n asContext) (Postponed checked (d + 1)) := by
  have hplain : Yields checked d (printPlain n >>= fun _ => pure none)
      (Postponed checked (d + 1)) :=
    Safe.bind_yields (printPlain_safe h) fun _ => yields_pure fun c hc => by cases hc
  unfold rule
  split
  next name hname =>
    have := h.below (hidesChildren_of_entry hname rfl rfl rfl)
    refine (child_yields n 0).bind fun c hc => ?_
    exact printAccessor_yields asContext name ((Below.child? hc).mono (Nat.le_succ d))
  next =>
    cases hh : n.kind.hidesChildren with
    | false =>
      refine Safe.bind_yields (entityStyle?_safe h) fun style => ?_
      cases style with
      | none => exact hplain
      | some style => exact printEntity_yields asContext style h hh
    | true =>
      -- kinds that hide their children have no style, so they are printed plainly
      have hstyle : entityStyle? n = pure none := by
        unfold entityStyle?
        rcases Kind.hidesChildren_cases hh with hk | hk | hk <;> rw [hk] <;> rfl
      rw [hstyle, pure_bind]
      exact hplain

/-- By induction on the height: a printable node ends in a text or in an error that is allowed. -/
theorem printNode_ends (options : Options) (embedded : String → String) (asContext : Bool)
    (o : Output) (h : Printable checked d n) :
    Ends checked (Postponed checked d) (printNode options embedded d n asContext o) := by
  induction d generalizing n asContext o with
  | zero =>
    have := h.sound.positive
    have := h.height
    omega
  | succ d ih =>
    rw [printNode]
    exact rule_yields asContext h _ (fun n b o hn => ih b o hn) o

/-- Rendering a sound tree of height at most `maxRenderDepth` causes only tolerated errors. -/
theorem renderWith_tolerated (embedded : String → String) (options : Options) {e : RenderError}
    (h : Printable checked maxRenderDepth n) (he : renderWith embedded options n = .error e) :
    Tolerated checked e := by
  unfold renderWith at he
  rw [if_neg (Nat.not_lt.mpr h.height)] at he
  have hends := printNode_ends options embedded false ⟨"", false⟩ h
  split at he
  · cases he
  next hp =>
    rw [hp] at hends
    cases he
    exact hends

end SwiftMangling.Render

namespace SwiftMangling

open Render

/-- A tree is refused as too complex exactly if it is higher than the renderer goes. -/
theorem render_eq_tooComplex_iff {checked : Prop} {t : Node} (h : t.Sound checked)
    (ht : checked → t.isTag = false) (options : Options) :
    render options t = .error .tooComplex ↔ maxRenderDepth < t.height := by
  constructor
  · intro he
    refine Nat.lt_of_not_le fun hle => ?_
    have hp : Printable ⟨checked, False, False.elim⟩ maxRenderDepth t := ⟨h, ht, False.elim, hle⟩
    exact renderWith_tolerated _ options hp he
  · intro hlt
    unfold render renderWith
    rw [if_pos hlt]

/-- A sound tree is rendered without an error about payloads, differentiability or room. -/
theorem render_error_of_sound {t : Node} (h : t.Sound True) (ht : t.isTag = false)
    {options : Options} {e : RenderError} (he : render options t = .error e) :
    (∃ k i, e = .missingChild k i) ∨ (∃ k, e = .unexpectedKind k) ∨
      (e = .tooComplex ∧ maxRenderDepth < t.height) := by
  -- up to the limit a sound tree fails only with what is tolerated
  by_cases hle : t.height ≤ maxRenderDepth
  · have hp : Printable ⟨True, False, False.elim⟩ maxRenderDepth t :=
      ⟨h, fun _ => ht, False.elim, hle⟩
    have := renderWith_tolerated _ options hp he
    cases e with
    | missingChild k i => exact .inl ⟨k, i, rfl⟩
    | unexpectedKind k => exact .inr (.inl ⟨k, rfl⟩)
    | invalidDifferentiability => exact absurd trivial this
    | invalidPayload k => exact absurd trivial this
    | tooComplex => exact this.elim
    | noRoom => exact this.elim
  · have hlt : maxRenderDepth < t.height := by omega
    rw [(render_eq_tooComplex_iff h (fun _ => ht) options).mpr hlt] at he
    cases he
    exact .inr (.inr ⟨rfl, hlt⟩)

/-- If the labels of a sound tree reach for the parameters that they are printed with, none of them
is missing. -/
theorem render_ne_missing_label {t : Node} (h : t.Sound True) (ht : t.isTag = false)
    (hl : t.Everywhere Node.PrintsLabels) (options : Options) (i : Nat) :
    render options t ≠ .error (.missingChild .labelList i) := by
  intro he
  by_cases hle : t.height ≤ maxRenderDepth
  · have hp : Printable ⟨True, True, id⟩ maxRenderDepth t := ⟨h, fun _ => ht, fun _ => hl, hle⟩
    exact renderWith_tolerated _ options hp he trivial rfl
  · rw [(render_eq_tooComplex_iff h (fun _ => ht) options).mpr (by omega)] at he
    cases he

end SwiftMangling
