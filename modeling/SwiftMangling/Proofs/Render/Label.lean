import SwiftMangling.Proofs.Node.Neat

/-!
# Labels as they are printed

The decoders put a list of labels in front of the type of a declaration. The printer takes the first
list and the first type among the children of the declaration, and looks for the parameters next to
the end of the function type. In a neat tree it finds the parameters that the labels were made for.
-/

namespace SwiftMangling.Node

variable {n l t f a : Node} {cs : List Node}

/-- The list `l` is empty or has a label for each element of the tuple that `a` holds. -/
def Covers (l a : Node) : Prop :=
  ∀ t p, a.child? 0 = some t → t.child? 0 = some p → p.kind = .tuple → l.count ≠ 0 →
    p.count ≤ l.count

/-- The list `l` covers the parameters that are printed for the function type `f`. -/
def Reaches (l f : Node) : Prop :=
  ∀ a, f.child? (f.count - 2) = some a → a.kind = .argumentTuple → l.Covers a

/-- The labels of a declaration reach for the parameters that they are printed with. -/
structure PrintsLabels (n : Node) : Prop where
  isLabelled : ∀ c ∈ n.children, c.kind = .labelList → n.kind.isLabelled = true
  reaches : ∀ l t f, n.childOfKind? .labelList = some l → n.childOfKind? .type = some t →
    t.function? = some f → l.Reaches f

/-- Something that has no labels has no list of them. -/
theorem PrintsLabels.ne_labelList {c : Node} (h : n.PrintsLabels) (hk : n.kind.isLabelled = false)
    (hc : c ∈ n.children) : c.kind ≠ .labelList := fun hck => by
  have := h.isLabelled c hc hck
  simp [hk] at this

theorem Everywhere.function? {P : Node → Prop} (h : t.Everywhere P) (hf : t.function? = some f) :
    f.Everywhere P := by
  unfold Node.function? at hf
  obtain ⟨g, hg, hf⟩ := Option.bind_eq_some_iff.mp hf
  have hgeverywhere := h.child (List.mem_of_head? hg)
  split at hf
  · obtain ⟨u, hu, hf⟩ := Option.bind_eq_some_iff.mp hf
    exact (hgeverywhere.child (List.mem_of_getElem? hu)).child (List.mem_of_head? hf)
  · exact Option.some.inj hf ▸ hgeverywhere

/-- In the frame of a function type the parameters come right before the result. -/
theorem IsFunctionFrame.getElem? (h : IsFunctionFrame (cs.map kind)) (ha : a ∈ cs)
    (hk : a.kind = .argumentTuple) : cs[cs.length - 2]? = some a := by
  obtain ⟨marks, heq, hmarks⟩ := h
  obtain ⟨ms, rest, rfl, rfl, hrest⟩ := List.map_eq_append_iff.mp heq
  obtain ⟨b, rest, rfl, -, hrest⟩ := List.map_eq_cons_iff.mp hrest
  obtain ⟨r, rest, rfl, hr, hrest⟩ := List.map_eq_cons_iff.mp hrest
  obtain rfl := List.map_eq_nil_iff.mp hrest
  -- the arguments are no mark and no result
  obtain rfl : a = b := by
    rcases List.mem_append.mp ha with ha | ha
    · exact absurd (hk ▸ List.mem_map_of_mem ha) hmarks
    rcases List.mem_cons.mp ha with ha | ha
    · exact ha
    · obtain rfl : a = r := by simpa using ha
      simp [hk] at hr
  simp

/-- The first child of a kind among children that have no other one of it. -/
theorem find?_kind {k : Kind} {before after : List Node} (hn : n.kind = k)
    (hb : ∀ x ∈ before, x.kind ≠ k) :
    (before ++ n :: after).find? (·.kind == k) = some n := by
  rw [List.find?_append, List.find?_eq_none.mpr fun x hx => by simpa using hb x hx, Option.none_or,
    List.find?_cons_of_pos (by simpa using hn)]

/-- The list in front of a type has a label for each parameter of the function that the type is. -/
theorem LabelParts.reaches [Labelling] {before after : List Node} (hl : Labelling.hasLists)
    (h : LabelParts n.children before l t after) (ht : t.Neat) (hf : t.function? = some f) :
    l.Reaches f := by
  intro a ha hak u p hu hp hpk hcount
  have hne : l.children ≠ [] := fun hnil => hcount (by simp [count, hnil])
  obtain ⟨-, p', ⟨f', hf', hfk, a', ha', hak', hp'⟩, hfit⟩ := h.fit hne
  obtain rfl : f = f' := Option.some.inj (hf.symm.trans hf')
  -- the type has one list of arguments, which is the one that the labels fit
  have hframe := (ht.function? hf).here.framed.function hl hfk
  obtain rfl : a = a' := Option.some.inj (ha.symm.trans (hframe.getElem? ha' hak'))
  obtain rfl : p = p' := by
    rw [first?_eq_child?, hu, Option.bind_some, first?_eq_child?, hp] at hp'
    exact Option.some.inj hp'
  rw [if_pos hpk] at hfit
  exact Nat.le_of_eq hfit.symm

theorem Neat.printsLabels {_ : Labelling} (h : n.Neat) : n.Everywhere PrintsLabels := by
  induction h with
  | @intro n here below ih =>
    refine .intro ?_ ih
    rcases here.framed.labels with hl | ⟨hg, hk, before, l, t, after, hl⟩
    · refine ⟨fun c hc hck => absurd hck (hl c hc), fun l t f hfind => ?_⟩
      exact absurd (by simpa using List.find?_some hfind) (hl _ (List.mem_of_find?_eq_some hfind))
    · refine ⟨fun _ _ _ => hk, fun l' t' f hl' ht' hf => ?_⟩
      -- there is only one list, and only one type
      have hlist : n.childOfKind? .labelList = some l := by
        rw [childOfKind?, hl.eq]
        exact find?_kind hl.list fun x hx => (hl.others x (by simp [hx])).1
      have htype : n.childOfKind? .type = some t := by
        rw [childOfKind?, hl.eq, ← List.singleton_append, ← List.append_assoc]
        refine find?_kind hl.type fun x hx => ?_
        rcases List.mem_append.mp hx with hx | hx
        · exact (hl.others x (by simp [hx])).2
        · obtain rfl : x = l := by simpa using hx
          simp [hl.list]
      obtain rfl : l = l' := Option.some.inj (hlist.symm.trans hl')
      obtain rfl : t = t' := Option.some.inj (htype.symm.trans ht')
      exact hl.reaches hg (below t (List.mem_of_find?_eq_some htype)) hf

end SwiftMangling.Node
