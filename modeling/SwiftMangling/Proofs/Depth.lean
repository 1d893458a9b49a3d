import SwiftMangling.Proofs.Render.Safe.Rule

/-!
# How deep a tree may be

Trees come from the constructors and edits of `Node` and from nowhere else. Each of these leaves the
stored height of a node above the heights of its children, exactly one above at first and by more
once something below has been taken out in place. The renderer goes down by one level whenever it
goes down to a child, so it runs out of depth on no tree that it accepts at the start: a tree is too
complex exactly if its stored height is above `maxRenderDepth`.
-/

namespace SwiftMangling

namespace Node

/-- The trees that constructors and edits build. -/
inductive Built : Node → Prop where
  | ofPayload (kind : Kind) (payload : Payload) : Built (.ofPayload kind payload)
  | branch (kind : Kind) {children : List Node} (hcs : ∀ c ∈ children, Built c) :
    Built (.branch kind children)
  | child {n c : Node} (hn : Built n) (hc : c ∈ n.children) : Built c
  | addChild {n c : Node} (hn : Built n) (hc : Built c) : Built (n.addChild c)
  | addChildren {n : Node} {cs : List Node} (hn : Built n) (hcs : ∀ c ∈ cs, Built c) :
    Built (n.addChildren cs)
  | insertChild {n c : Node} (i : Nat) (hn : Built n) (hc : Built c) : Built (n.insertChild i c)
  | removeChildAt {n : Node} (i : Nat) (hn : Built n) : Built (n.removeChildAt i)
  | reverseChildren {n : Node} (hn : Built n) : Built n.reverseChildren
  | reverseChildrenFrom {n : Node} (i : Nat) (hn : Built n) : Built (n.reverseChildrenFrom i)
  | replaceLastChild {n c : Node} (hn : Built n) (hc : Built c) : Built (n.replaceLastChild c)
  | withKind {n : Node} (kind : Kind) (hn : Built n) : Built (n.withKind kind)
  /-- Takes a child of a descendant out where it stands. The heights above stay as they are. -/
  | removeBelow {n : Node} (path : List Nat) (i : Nat) (hn : Built n) :
    Built (n.modifyAt (·.removeChildAt i) path)

variable {n c : Node} {cs : List Node}

theorem sound_restoreHeight (hcs : ∀ c ∈ n.children, c.Sound False) :
    n.restoreHeight.Sound False :=
  .intro False.elim (Nat.succ_pos _) (fun _ hc => height_lt_heightAbove hc) hcs

/-- A node may take in children as long as its height stays above theirs. -/
theorem Sound.grow (hn : n.Sound False) (hc : c.Sound False)
    (hcs : ∀ d ∈ cs, d ∈ n.children ∨ d = c) :
    Sound False { n with children := cs, height := max n.height (c.height + 1) } := by
  refine .intro False.elim ?_ (fun d hd => ?_) fun d hd => ?_
  · have := hn.positive
    simp only
    omega
  · rcases hcs d hd with hd | rfl
    · have := hn.lower hd
      simp only
      omega
    · simp only
      omega
  · rcases hcs d hd with hd | rfl
    · exact hn.child hd
    · exact hc

/-- A node may lose children and have them in another order. -/
theorem Sound.shrink (hn : n.Sound False) (hcs : ∀ d ∈ cs, d ∈ n.children) :
    Sound False { n with children := cs } :=
  .intro False.elim hn.positive (fun d hd => hn.lower (hcs d hd)) fun d hd => hn.child (hcs d hd)

theorem Sound.removeChildAt (hn : n.Sound False) (i : Nat) : (n.removeChildAt i).Sound False :=
  sound_restoreHeight fun _ hc => hn.child (List.mem_of_mem_eraseIdx hc)

/-- A child less never makes a node higher. -/
theorem height_removeChildAt_le (hn : n.Sound False) (i : Nat) :
    (n.removeChildAt i).height ≤ n.height := by
  have hpos := hn.positive
  have hle : ∀ c ∈ n.children.eraseIdx i, c.height ≤ n.height - 1 := fun c hc => by
    have := hn.lower (List.mem_of_mem_eraseIdx hc)
    omega
  have := heightAbove_le hle
  simp only [Node.removeChildAt, restoreHeight]
  omega

/-- A change in place that builds a sound node no higher than before keeps the whole tree sound and
no higher than before. -/
theorem Sound.modifyAt {f : Node → Node}
    (hf : ∀ m : Node, m.Sound False → (f m).Sound False ∧ (f m).height ≤ m.height)
    (hn : n.Sound False) (path : List Nat) :
    (n.modifyAt f path).Sound False ∧ (n.modifyAt f path).height ≤ n.height := by
  -- by induction on the path: the changed child is as low as the old one, so the node keeps its
  -- height
  induction path generalizing n with
  | nil => exact hf n hn
  | cons i path ih =>
    rw [Node.modifyAt]
    split
    next c hc =>
      have hmem : c ∈ n.children := List.mem_of_getElem? hc
      obtain ⟨hs, hle⟩ := ih (hn.child hmem)
      refine ⟨.intro False.elim hn.positive (fun d hd => ?_) fun d hd => ?_, Nat.le_refl _⟩
      · rcases List.mem_or_eq_of_mem_set hd with hd | rfl
        · exact hn.lower hd
        · exact Nat.lt_of_le_of_lt hle (hn.lower hmem)
      · rcases List.mem_or_eq_of_mem_set hd with hd | rfl
        · exact hn.child hd
        · exact hs
    next => exact ⟨hn, Nat.le_refl _⟩

/-- Every tree that can be built stores heights above those of its children. -/
theorem Built.sound (h : n.Built) : n.Sound False := by
  -- what is refused leaves the node as it is; the rest grows, shrinks or has its height restored
  induction h with
  | ofPayload kind payload =>
    exact .intro False.elim Nat.zero_lt_one (fun _ hc => nomatch hc) fun _ hc => nomatch hc
  | branch kind _ ih =>
    exact .intro False.elim (Nat.succ_pos _) (fun _ hc => height_lt_heightAbove hc) ih
  | child _ hc ih => exact ih.child hc
  | addChild _ _ ihn ihc =>
    unfold Node.addChild
    split
    · exact ihn.grow ihc fun d hd => by simpa using hd
    · exact ihn
  | addChildren _ _ ihn ihcs =>
    unfold Node.addChildren
    split
    · refine sound_restoreHeight fun d hd => ?_
      rcases List.mem_append.mp hd with hd | hd
      · exact ihn.child hd
      · exact ihcs d hd
    · exact ihn
  | insertChild i _ _ ihn ihc =>
    unfold Node.insertChild
    split
    next hi =>
      have hi : i ≤ _ := of_decide_eq_true (Bool.and_eq_true_iff.mp hi).2
      exact ihn.grow ihc fun d hd => ((List.mem_insertIdx hi).mp hd).symm
    next => exact ihn
  | removeChildAt i _ ih => exact ih.removeChildAt i
  | reverseChildren _ ih => exact ih.shrink fun d hd => List.mem_reverse.mp hd
  | reverseChildrenFrom i _ ih =>
    refine ih.shrink fun d hd => ?_
    rcases List.mem_append.mp hd with hd | hd
    · exact List.mem_of_mem_take hd
    · exact List.mem_of_mem_drop (List.mem_reverse.mp hd)
  | replaceLastChild _ _ ihn ihc =>
    unfold Node.replaceLastChild
    split
    · exact ihn
    · refine sound_restoreHeight fun d hd => ?_
      rcases List.mem_append.mp hd with hd | hd
      · exact ihn.child (List.dropLast_subset _ hd)
      · rw [List.mem_singleton.mp hd]
        exact ihc
  | withKind kind _ ih =>
    exact .intro False.elim ih.positive (fun _ hc => ih.lower hc) fun _ hc => ih.child hc
  | removeBelow path i _ ih =>
    exact (ih.modifyAt (fun m hm => ⟨hm.removeChildAt i, height_removeChildAt_le hm i⟩) path).1

end Node

open Render

/-- A type inside of `k` further ones. -/
def Node.tower : Nat → Node
  | 0 => .leaf .errorType
  | k + 1 => .typeOf (tower k)

/-- A tower is built from the top down, one level at a time. -/
theorem Node.built_tower (k : Nat) : (tower k).Built := by
  induction k with
  | zero => exact .ofPayload .errorType .none
  | succ k ih =>
    refine .branch .type fun c hc => ?_
    rw [List.mem_singleton.mp hc]
    exact ih

/-- Whatever tree is built and whatever the options are, the tree is too complex to be rendered
exactly if it is higher than `maxRenderDepth`. It is the look at the whole tree that finds this: with
as many levels to go down as the tree is high, printing it does not run out of them. -/
theorem tooComplex_iff_of_built {t : Node} (h : t.Built) (options : Options) :
    (render options t = .error .tooComplex ↔ maxRenderDepth < t.height) ∧
      ∀ (embedded : String → String) (depth : Nat) (asContext : Bool) (o : Output),
        t.height ≤ depth →
          printNode options embedded depth t asContext o ≠ .error .tooComplex := by
  refine ⟨render_eq_tooComplex_iff h.sound False.elim options, ?_⟩
  intro embedded depth asContext o hle he
  have hp : Printable ⟨False, False, id⟩ depth t := ⟨h.sound, False.elim, False.elim, hle⟩
  have hends := printNode_ends options embedded asContext o hp
  rw [he] at hends
  exact hends

theorem tooComplex_iff_of_built_tower : (Node.tower maxRenderDepth).Built ∧
    render .full (Node.tower maxRenderDepth) = .error .tooComplex :=
  ⟨Node.built_tower _,
    (tooComplex_iff_of_built (Node.built_tower maxRenderDepth) .full).1.mpr (by decide +kernel)⟩

end SwiftMangling
