import SwiftMangling.Node

/-!
# Heights

The heights of nodes in terms of the largest height among their children, and the depths that they
stand for.
-/

namespace SwiftMangling.Node

/-- The largest height in a list. -/
def top (ns : List Node) : Nat :=
  ns.foldl (fun h c => max h c.height) 0

@[simp] theorem top_nil : top [] = 0 :=
  rfl

theorem foldl_max_height (ns : List Node) (a : Nat) :
    ns.foldl (fun h c => max h c.height) a = max a (top ns) := by
  induction ns generalizing a with
  | nil => simp [top]
  | cons n ns ih =>
    have htop : top (n :: ns) = max (max 0 n.height) (top ns) := ih _
    rw [List.foldl_cons, ih, htop]
    omega

@[simp] theorem top_cons (n : Node) (ns : List Node) : top (n :: ns) = max n.height (top ns) := by
  rw [top, List.foldl_cons, foldl_max_height]
  omega

@[simp] theorem top_append (ns ms : List Node) : top (ns ++ ms) = max (top ns) (top ms) := by
  induction ns with
  | nil => simp
  | cons n ns ih =>
    rw [List.cons_append, top_cons, top_cons, ih]
    omega

/-- The largest height depends on the heights only. -/
theorem top_congr {ns ms : List Node} (h : ns.map height = ms.map height) : top ns = top ms := by
  have hmap (ns : List Node) : top ns = (ns.map height).foldl max 0 := (List.foldl_map ..).symm
  rw [hmap, hmap, h]

theorem top_set {ns : List Node} {i : Nat} {m : Node} (hi : i < ns.length)
    (hm : m.height = ns[i].height) : top (ns.set i m) = top ns := by
  refine top_congr ?_
  rw [List.map_set, hm, ← List.map_set, List.set_getElem_self]

theorem top_insertIdx {ns : List Node} {i : Nat} {m : Node} (hi : i ≤ ns.length) :
    top (ns.insertIdx i m) = max (top ns) m.height := by
  induction ns generalizing i with
  | nil =>
    obtain rfl : i = 0 := by simpa using hi
    simp
  | cons n ns ih =>
    cases i with
    | zero =>
      rw [List.insertIdx_zero, top_cons]
      omega
    | succ i =>
      rw [List.insertIdx_succ_cons, top_cons, top_cons, ih (by simpa using hi)]
      omega

/-- The largest height does not depend on the order. -/
theorem top_perm {ns ms : List Node} (h : ns.Perm ms) : top ns = top ms := by
  induction h with
  | nil => rfl
  | cons n _ ih => rw [top_cons, top_cons, ih]
  | swap n m ns =>
    simp only [top_cons]
    omega
  | trans _ _ ih ih' => exact ih.trans ih'

/-- No node of a list is higher than the list. -/
theorem height_le_top {n : Node} {ns : List Node} (h : n ∈ ns) : n.height ≤ top ns := by
  induction h with
  | head =>
    rw [top_cons]
    omega
  | tail _ _ ih =>
    rw [top_cons]
    omega

/-- The largest height is that of an element. -/
theorem exists_height_eq_top {ns : List Node} (h : ns ≠ []) : ∃ n ∈ ns, n.height = top ns := by
  induction ns with
  | nil => exact absurd rfl h
  | cons n ns ih =>
    rw [top_cons]
    by_cases hle : top ns ≤ n.height
    · exact ⟨n, List.mem_cons_self, (Nat.max_eq_left hle).symm⟩
    · have hne : ns ≠ [] := by
        rintro rfl
        exact hle (Nat.zero_le _)
      obtain ⟨m, hm, hmtop⟩ := ih hne
      exact ⟨m, List.mem_cons_of_mem n hm, by omega⟩

@[simp] theorem height_branch (k : Kind) (cs : List Node) : (branch k cs).height = top cs + 1 :=
  rfl

@[simp] theorem height_typeOf (n : Node) : (typeOf n).height = n.height + 1 := by
  rw [typeOf, height_branch, top_cons, top_nil, Nat.max_zero]

@[simp] theorem height_ofPayload (k : Kind) (p : Payload) : (ofPayload k p).height = 1 :=
  rfl

@[simp] theorem height_ofText (k : Kind) (s : String) : (ofText k s).height = 1 :=
  rfl

@[simp] theorem height_ofIndex (k : Kind) (i : UInt64) : (ofIndex k i).height = 1 :=
  rfl

@[simp] theorem height_leaf (k : Kind) : (leaf k).height = 1 :=
  rfl

@[simp] theorem height_module (s : String) : (module s).height = 1 :=
  rfl

@[simp] theorem height_identifier (s : String) : (identifier s).height = 1 :=
  rfl

@[simp] theorem height_genericParameter (depth position : Nat) :
    (genericParameter depth position).height = 2 :=
  rfl

/-! ## Depths -/

mutual

/-- The number of nodes on the longest path down to a leaf. -/
def depth : Node → Nat
  | ⟨_, _, cs, _⟩ => depths cs + 1

/-- The largest depth in a list. -/
def depths : List Node → Nat
  | [] => 0
  | c :: cs => max (depth c) (depths cs)

end

theorem depth_eq (n : Node) : n.depth = depths n.children + 1 := by
  cases n
  rw [depth]

/-- Nodes that store their depths are as high together as they are deep. -/
theorem depths_eq_top {cs : List Node} (h : ∀ c ∈ cs, c.height = c.depth) : depths cs = top cs := by
  induction cs with
  | nil => rw [depths, top_nil]
  | cons c cs ih =>
    rw [List.forall_mem_cons] at h
    rw [depths, top_cons, ih h.2, h.1]

theorem depths_le_iff {cs : List Node} {m : Nat} : depths cs ≤ m ↔ ∀ c ∈ cs, c.depth ≤ m := by
  induction cs with
  | nil => simp [depths]
  | cons c cs ih => rw [depths, Nat.max_le, ih, List.forall_mem_cons]

/-- A child is less deep than its parent. -/
theorem depth_lt_of_mem_children {c n : Node} (h : c ∈ n.children) : c.depth < n.depth := by
  rw [depth_eq n]
  exact Nat.lt_succ_of_le (depths_le_iff.mp (Nat.le_refl _) c h)

end SwiftMangling.Node
