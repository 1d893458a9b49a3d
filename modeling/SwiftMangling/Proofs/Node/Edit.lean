import Mathlib.Algebra.Order.Group.Multiset
import SwiftMangling.Node.Edit
import SwiftMangling.Proofs.Node.Neat
import SwiftMangling.Proofs.Node.Same

/-!
# Edited nodes keep their heights

A node stores its height, which every edit has to keep in step with the children. One edit is a step
of one of three sorts (`step_apply`): the height stays, or is raised for one more child, or is
computed anew. In each the children after it and those removed are the children before it and those
added (`Step.balance`), and the height is one more than the largest height of a child if it was so
before (`Step.height_eq`). So nodes that are made by a constructor and then edited, with nodes of
this sort as arguments, store the heights that they have, all through the tree
(`consistent_of_edited`).
-/

namespace SwiftMangling.Node

/-- The height that a node stores is one more than the largest height of a child, and 1 without
children, and a node with a payload has no children. -/
structure Consistent (n : Node) : Prop where
  leaf : n.children = [] → n.height = 1
  attained : n.children ≠ [] → ∃ c ∈ n.children, n.height = c.height + 1
  above : ∀ c ∈ n.children, c.height + 1 ≤ n.height
  bare : n.payload ≠ .none → n.children = []

/-- One edit of a node. -/
inductive Edit where
  | addChild (c : Node)
  | addChildren (cs : List Node)
  | insertChild (i : Nat) (c : Node)
  | removeChild (isIt : Nat → Bool)
  | removeChildAt (i : Nat)
  | reverseChildren
  | reverseChildrenFrom (i : Nat)
  | replaceLastChild (c : Node)
  | withKind (kind : Kind)
  | copy

/-- The edited node. -/
def Edit.apply (n : Node) : Edit → Node
  | .addChild c => n.addChild c
  | .addChildren cs => n.addChildren cs
  | .insertChild i c => n.insertChild i c
  | .removeChild isIt => (n.removeChild isIt).2
  | .removeChildAt i => n.removeChildAt i
  | .reverseChildren => n.reverseChildren
  | .reverseChildrenFrom i => n.reverseChildrenFrom i
  | .replaceLastChild c => n.replaceLastChild c
  | .withKind kind => n.withKind kind
  | .copy => n.copy

/-- The nodes that are given to an edit as new children. -/
def Edit.arguments : Edit → List Node
  | .addChild c | .insertChild _ c | .replaceLastChild c => [c]
  | .addChildren cs => cs
  | _ => []

/-- The nodes that an edit puts below `n`. Only a node without a payload takes children in, and only
a last child that is there is replaced. -/
def Edit.added (n : Node) : Edit → List Node
  | .addChild c => if n.payload = .none then [c] else []
  | .addChildren cs => if n.payload = .none then cs else []
  | .insertChild i c => if n.payload = .none ∧ i ≤ n.count then [c] else []
  | .replaceLastChild c => if n.children = [] then [] else [c]
  | _ => []

/-- The nodes that an edit takes from below `n`. -/
def Edit.removed (n : Node) : Edit → List Node
  | .removeChild isIt => (((List.range n.count).find? isIt).bind n.child?).toList
  | .removeChildAt i => (n.child? i).toList
  | .replaceLastChild _ => n.last?.toList
  | _ => []

variable {n m c : Node} {cs added removed : List Node}

/-! ## What the edits do -/

mutual

/-- A copy is equal to what it was made from, in its heights, too. -/
theorem copy_eq : (n : Node) → n.copy = n
  | ⟨kind, payload, children, height⟩ => by rw [copy, copyList_eq children]

theorem copyList_eq : (ns : List Node) → copyList ns = ns
  | [] => rfl
  | n :: ns => by rw [copyList, copy_eq n, copyList_eq ns]

end

theorem acceptsChildren_iff : n.acceptsChildren = true ↔ n.payload = .none :=
  beq_iff_eq

/-! ## Lists of children -/

/-- Without the child at a position, a list lacks just this child. -/
theorem coe_eraseIdx (cs : List Node) (i : Nat) :
    (cs.eraseIdx i : Multiset Node) + cs[i]?.toList = cs := by
  rw [Multiset.coe_add, Multiset.coe_eq_coe]
  by_cases hi : i < cs.length
  · rw [List.getElem?_eq_getElem hi]
    exact (List.perm_append_singleton _ _).trans (List.getElem_cons_eraseIdx_perm hi)
  · rw [List.eraseIdx_of_length_le (Nat.not_lt.mp hi), List.getElem?_eq_none (Nat.not_lt.mp hi)]
    exact .of_eq (List.append_nil cs)

/-- With another last child, a list lacks its last child and has the other one. -/
theorem coe_replaceLast (hne : cs ≠ []) (c : Node) :
    ((cs.dropLast ++ [c] : List Node) : Multiset Node) + cs.getLast?.toList =
      cs + ([c] : List Node) := by
  have hlast : cs.getLast?.toList = [cs.getLast hne] := by
    rw [List.getLast?_eq_some_getLast hne]
    rfl
  have hsplit : (cs : Multiset Node) = cs.dropLast + ([cs.getLast hne] : List Node) := by
    rw [Multiset.coe_add, List.dropLast_concat_getLast hne]
  rw [hlast, hsplit, ← Multiset.coe_add]
  exact add_right_comm _ _ _

/-- The order from a position on does not matter. -/
theorem perm_reverseFrom (cs : List Node) (i : Nat) :
    (cs.take i ++ (cs.drop i).reverse).Perm cs := by
  have hdrop := (List.reverse_perm (cs.drop i)).append_left (cs.take i)
  rwa [List.take_append_drop] at hdrop

/-! ## One edit -/

/-- What one edit can do to `n`. It leaves the height alone if it only changes the kind or the order
of the children, raises it for one more child, or computes it anew. -/
inductive Step (n : Node) : Node → List Node → List Node → Prop where
  | reordered (kind : Kind) (cs : List Node) (hcs : cs.Perm n.children) :
    Step n ⟨kind, n.payload, cs, n.height⟩ [] []
  | raised (cs : List Node) (c : Node) (hp : n.payload = .none)
    (hcs : cs.Perm (n.children ++ [c])) :
    Step n ⟨n.kind, n.payload, cs, max n.height (c.height + 1)⟩ [c] []
  | computed (cs added removed : List Node)
    (hadded : n.payload ≠ .none → n.children = [] → added = [])
    (hcs : (cs : Multiset Node) + removed = n.children + added) :
    Step n ⟨n.kind, n.payload, cs, heightAbove cs⟩ added removed

theorem Step.refl (n : Node) : Step n n [] [] := by
  obtain ⟨kind, payload, children, height⟩ := n
  exact .reordered kind children (.refl _)

theorem Step.removeChildAt (n : Node) (i : Nat) :
    Step n (n.removeChildAt i) [] (n.child? i).toList :=
  .computed _ _ _ (fun _ _ => rfl) ((coe_eraseIdx n.children i).trans (add_zero _).symm)

/-- Every edit is a step that adds and removes what it should. -/
theorem step_apply (n : Node) (e : Edit) : Step n (e.apply n) (e.added n) (e.removed n) := by
  -- an edit that is refused, or finds nothing to remove or replace, is a step that changes nothing
  cases e with
  | addChild c =>
    simp only [Edit.apply, Edit.removed, Edit.added, addChild, acceptsChildren_iff]
    split
    · next hp => exact .raised _ c hp (.refl _)
    · exact .refl n
  | addChildren cs =>
    simp only [Edit.apply, Edit.removed, Edit.added, addChildren, acceptsChildren_iff]
    split
    · next hp =>
      refine .computed _ cs [] (fun hne => absurd hp hne) ?_
      exact (add_zero _).trans (Multiset.coe_add _ _).symm
    · exact .refl n
  | insertChild i c =>
    simp only [Edit.apply, Edit.removed, Edit.added, insertChild, Bool.and_eq_true,
      acceptsChildren_iff, decide_eq_true_eq]
    split
    · next h =>
      refine .raised _ c h.1 ?_
      exact (List.perm_insertIdx c n.children h.2).trans (List.perm_append_singleton c _).symm
    · exact .refl n
  | removeChild isIt =>
    show Step n (n.removeChild isIt).2 [] (((List.range n.count).find? isIt).bind n.child?).toList
    unfold removeChild
    cases (List.range n.count).find? isIt with
    | some i => exact .removeChildAt n i
    | none => exact .refl n
  | removeChildAt i => exact .removeChildAt n i
  | reverseChildren => exact .reordered n.kind _ (List.reverse_perm _)
  | reverseChildrenFrom i => exact .reordered n.kind _ (perm_reverseFrom n.children i)
  | replaceLastChild c =>
    simp only [Edit.apply, Edit.removed, Edit.added, replaceLastChild, List.isEmpty_iff]
    split
    · next hnil =>
      rw [last?, hnil]
      exact .refl n
    · next hne => exact .computed _ [c] _ (fun _ hnil => absurd hnil hne) (coe_replaceLast hne c)
  | withKind kind => exact .reordered kind n.children (.refl _)
  | copy =>
    rw [Edit.apply, copy_eq]
    exact .refl n

/-- What is below a node after a step and what the step has removed is what was below it and what
the step has added. -/
theorem Step.balance (h : Step n m added removed) :
    (m.children : Multiset Node) + removed = n.children + added := by
  cases h with
  | reordered kind cs hcs => exact congrArg (· + 0) (Multiset.coe_eq_coe.mpr hcs)
  | raised cs c hp hcs =>
    calc (cs : Multiset Node) + 0
      _ = cs := add_zero _
      _ = (n.children ++ [c] : List Node) := Multiset.coe_eq_coe.mpr hcs
      _ = n.children + ([c] : List Node) := (Multiset.coe_add _ _).symm
  | computed cs added removed hadded hcs => exact hcs

theorem Step.payload_eq (h : Step n m added removed) : m.payload = n.payload := by
  cases h <;> rfl

/-- Below a node with a payload a step adds nothing, if nothing is there. -/
theorem Step.added_eq_nil (h : Step n m added removed) (hp : n.payload ≠ .none)
    (hnil : n.children = []) : added = [] := by
  cases h with
  | reordered => rfl
  | raised cs c hnone => exact absurd hnone hp
  | computed cs added removed hadded => exact hadded hp hnil

/-- A step leaves the height one above the largest height of a child. -/
theorem Step.height_eq (h : Step n m added removed) (hn : n.height = top n.children + 1) :
    m.height = top m.children + 1 := by
  cases h with
  | reordered kind cs hcs =>
    show n.height = top cs + 1
    rw [top_perm hcs, hn]
  | raised cs c hp hcs =>
    -- one more child cannot make the largest height smaller
    show max n.height (c.height + 1) = top cs + 1
    rw [top_perm hcs, top_append, top_cons, top_nil, hn]
    omega
  | computed => rfl

/-- What an edit removes was there. -/
theorem removed_le (n : Node) (e : Edit) : (e.removed n : Multiset Node) ≤ n.children := by
  have hremoveAt (i : Nat) : ((n.child? i).toList : Multiset Node) ≤ n.children := by
    rw [← coe_eraseIdx n.children i]
    exact Multiset.le_add_left _ _
  cases e with
  | removeChild isIt =>
    show ((((List.range n.count).find? isIt).bind n.child?).toList : Multiset Node) ≤ n.children
    cases (List.range n.count).find? isIt with
    | some i => exact hremoveAt i
    | none => exact Multiset.zero_le _
  | removeChildAt i => exact hremoveAt i
  | replaceLastChild c =>
    -- the last child is the one at the last position
    have hlast : n.last? = n.child? (n.children.length - 1) := List.getLast?_eq_getElem?
    show (n.last?.toList : Multiset Node) ≤ n.children
    rw [hlast]
    exact hremoveAt _
  | addChild | addChildren | insertChild => exact Multiset.zero_le _
  | reverseChildren | reverseChildrenFrom | withKind | copy => exact Multiset.zero_le _

/-- What an edit adds is given to it. -/
theorem added_subset (n : Node) (e : Edit) : e.added n ⊆ e.arguments := by
  cases e with
  | addChild c | addChildren cs | insertChild i c =>
    rw [Edit.added]
    split
    · exact List.Subset.refl _
    · exact List.nil_subset _
  | replaceLastChild c =>
    rw [Edit.added]
    split
    · exact List.nil_subset _
    · exact List.Subset.refl _
  | removeChild | removeChildAt | reverseChildren | reverseChildrenFrom | withKind | copy =>
    exact List.nil_subset _

/-- A child of an edited node was one before or is given to the edit. -/
theorem mem_children_apply {e : Edit} (hc : c ∈ (e.apply n).children) :
    c ∈ n.children ∨ c ∈ e.arguments := by
  have hmem : c ∈ ((e.apply n).children : Multiset Node) + e.removed n :=
    Multiset.mem_add.mpr (.inl hc)
  rw [(step_apply n e).balance, Multiset.mem_add] at hmem
  exact hmem.imp_right fun hadded => added_subset n e hadded

/-! ## Consistent nodes -/

/-- A node is consistent if its height is that of its children and one, and a payload excludes
children. -/
theorem consistent_iff :
    n.Consistent ↔ n.height = top n.children + 1 ∧ (n.payload ≠ .none → n.children = []) := by
  constructor
  · intro h
    refine ⟨?_, h.bare⟩
    by_cases hnil : n.children = []
    · rw [h.leaf hnil, hnil, top_nil]
    · obtain ⟨c, hc, hheight⟩ := h.attained hnil
      obtain ⟨d, hd, htop⟩ := exists_height_eq_top hnil
      have hcle := height_le_top hc
      have hdle := h.above d hd
      omega
  · intro ⟨hheight, hbare⟩
    refine ⟨fun hnil => ?_, fun hne => ?_, fun c hc => ?_, hbare⟩
    · rw [hheight, hnil, top_nil]
    · obtain ⟨c, hc, htop⟩ := exists_height_eq_top hne
      exact ⟨c, hc, by rw [hheight, htop]⟩
    · rw [hheight]
      exact Nat.succ_le_succ (height_le_top hc)

/-- A step keeps a node consistent, whatever it adds. -/
theorem Step.consistent (h : Step n m added removed) (hn : n.Consistent) : m.Consistent := by
  rw [consistent_iff] at hn ⊢
  refine ⟨h.height_eq hn.1, fun hp => ?_⟩
  rw [h.payload_eq] at hp
  -- nothing was there and nothing is added, so nothing can be left
  have hbalance : (m.children : Multiset Node) + removed = 0 := by
    rw [h.balance, h.added_eq_nil hp (hn.2 hp), hn.2 hp]
    rfl
  have hle : (m.children : Multiset Node) ≤ 0 := hbalance ▸ Multiset.le_add_right _ _
  exact (Multiset.coe_eq_zero _).mp (Multiset.le_zero.mp hle)

/-- An edit keeps a tree consistent everywhere if what it puts in is so. -/
theorem everywhere_apply {e : Edit} (h : n.Everywhere Consistent)
    (hargs : ∀ c ∈ e.arguments, c.Everywhere Consistent) : (e.apply n).Everywhere Consistent := by
  refine .intro ((step_apply n e).consistent h.here) fun c hc => ?_
  rcases mem_children_apply hc with hc | hc
  · exact h.child hc
  · exact hargs c hc

mutual

theorem depth_eq_of_same : (n m : Node) → n.same m = true → n.depth = m.depth
  | ⟨_, _, cs, _⟩, ⟨_, _, ds, _⟩, h => by
    rw [same, Bool.and_eq_true] at h
    rw [depth, depth, depths_eq_of_same cs ds h.2]

theorem depths_eq_of_same : (cs ds : List Node) → sameList cs ds = true → depths cs = depths ds
  | [], [], _ => rfl
  | c :: cs, d :: ds, h => by
    rw [sameList, Bool.and_eq_true] at h
    rw [depths, depths, depth_eq_of_same c d h.1, depths_eq_of_same cs ds h.2]

end

/-- Consistent nodes that are the same have the same height. -/
theorem height_eq_of_same (hn : n.Everywhere Consistent) (hm : m.Everywhere Consistent)
    (h : n.same m = true) : n.height = m.height := by
  have hexact {n : Node} (hn : n.Everywhere Consistent) : n.height = n.depth :=
    height_eq_depth (hn.mono fun _ hhere => (consistent_iff.mp hhere).1)
  rw [hexact hn, hexact hm, depth_eq_of_same n m h]

/-- A node that is made by a constructor and then edited. The nodes given to the constructor and to
the edits are consistent all through. -/
inductive Edited : Node → Prop where
  | ofPayload (kind : Kind) (p : Payload) : Edited (ofPayload kind p)
  | branch (kind : Kind) (cs : List Node) (hcs : ∀ c ∈ cs, c.Everywhere Consistent) :
    Edited (branch kind cs)
  | apply (n : Node) (e : Edit) (hn : Edited n)
    (hargs : ∀ c ∈ e.arguments, c.Everywhere Consistent) : Edited (e.apply n)

/-- No edit makes a tree inconsistent. -/
theorem Edited.everywhere (h : n.Edited) : n.Everywhere Consistent := by
  induction h with
  | ofPayload kind p =>
    refine .intro (consistent_iff.mpr ⟨rfl, fun _ => rfl⟩) fun c hc => ?_
    exact absurd hc List.not_mem_nil
  | branch kind cs hcs =>
    exact .intro (consistent_iff.mpr ⟨rfl, fun hp => absurd rfl hp⟩) hcs
  | apply n e _ hargs ih => exact everywhere_apply ih hargs

/-- An edited node and all nodes below it are consistent, so nodes like it have its height, and one
more edit changes its children by what it adds and what it removes. -/
theorem consistent_of_edited (h : n.Edited) :
    n.Everywhere Consistent ∧
      (∀ m : Node, m.Everywhere Consistent → n.same m = true → n.height = m.height) ∧
      ∀ e : Edit, (e.removed n : Multiset Node) ≤ n.children ∧
        ((e.apply n).children : Multiset Node) + e.removed n = n.children + e.added n := by
  have hall := h.everywhere
  exact ⟨hall, fun _ hm hsame => height_eq_of_same hall hm hsame,
    fun e => ⟨removed_le n e, (step_apply n e).balance⟩⟩

/-- A tuple that loses its deepest child and takes in a name, which has refused a child itself. -/
def trimmedTuple : Node :=
  let name := Edit.apply (identifier "x") (.addChild (leaf .emptyList))
  let tuple := branch .tuple [typeOf (leaf .emptyList), identifier "y"]
  (tuple.removeChild (· == 0)).2.addChild name

theorem edited_trimmedTuple : trimmedTuple.Edited := by
  have hleaf : (leaf .emptyList).Edited := .ofPayload _ _
  have hname : (Edit.apply (identifier "x") (.addChild (leaf .emptyList))).Edited := by
    refine .apply _ _ (.ofPayload _ _) fun c hc => ?_
    rw [List.mem_singleton.mp hc]
    exact hleaf.everywhere
  have htype : (typeOf (leaf .emptyList)).Edited := by
    refine .branch _ _ fun c hc => ?_
    rw [List.mem_singleton.mp hc]
    exact hleaf.everywhere
  have htuple : (branch .tuple [typeOf (leaf .emptyList), identifier "y"]).Edited := by
    refine .branch _ _ fun c hc => ?_
    rcases List.mem_pair.mp hc with rfl | rfl
    · exact htype.everywhere
    · exact (Edited.ofPayload _ _).everywhere
  have htrimmed := htuple.apply _ (.removeChild (· == 0)) fun c hc => absurd hc List.not_mem_nil
  refine htrimmed.apply _ (.addChild _) fun c hc => ?_
  rw [List.mem_singleton.mp hc]
  exact hname.everywhere

theorem consistent_of_edited_trimmedTuple :
    trimmedTuple.Edited ∧ trimmedTuple.height = 2 ∧ trimmedTuple.Everywhere Consistent ∧
      (∀ m : Node, m.Everywhere Consistent → trimmedTuple.same m = true → 2 = m.height) ∧
      ((Edit.removeChildAt 1).removed trimmedTuple = [identifier "x"] ∧
        ((trimmedTuple.removeChildAt 1).children : Multiset Node) + ([identifier "x"] : List Node) =
          trimmedTuple.children) := by
  obtain ⟨hall, hheight, hedit⟩ := consistent_of_edited edited_trimmedTuple
  exact ⟨edited_trimmedTuple, rfl, hall, hheight, rfl, (hedit (.removeChildAt 1)).2⟩

end SwiftMangling.Node
