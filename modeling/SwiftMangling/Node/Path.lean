import SwiftMangling.Node

/-!
# Paths

The nodes below a node, reached by the positions of children.
-/

namespace SwiftMangling.Node

/-- The node that a path of child positions leads to. -/
def follow? (n : Node) : List Nat → Option Node
  | [] => some n
  | i :: path =>
    match n.child? i with
    | some c => c.follow? path
    | none => none

/-- Changes the node that a path of child positions leads to. The heights stored along the path
stay as they are. -/
def modifyAt (n : Node) (f : Node → Node) : List Nat → Node
  | [] => f n
  | i :: path =>
    match n.child? i with
    | some c => { n with children := n.children.set i (c.modifyAt f path) }
    | none => n

/-- A child is smaller than its parent. -/
theorem sizeOf_lt_of_mem_children {c n : Node} (h : c ∈ n.children) : sizeOf c < sizeOf n := by
  have := List.sizeOf_lt_of_mem h
  cases n
  simp only [Node.mk.sizeOf_spec] at *
  omega

/-- The child at a position is smaller than its parent. -/
theorem sizeOf_lt_of_child? {c n : Node} {i : Nat} (h : n.child? i = some c) :
    sizeOf c < sizeOf n :=
  sizeOf_lt_of_mem_children (List.mem_of_getElem? h)

end SwiftMangling.Node
