import SwiftMangling.Node

/-!
# Editing nodes

Operations that change the children or the kind of a node and keep its stored height in step with
the heights that its children store.
-/

namespace SwiftMangling.Node

/-- Stores the height that belongs to the present children. -/
def restoreHeight (n : Node) : Node :=
  { n with height := heightAbove n.children }

/-- Appends a child. A node with a payload stays as it is. -/
def addChild (n : Node) (c : Node) : Node :=
  if n.acceptsChildren then
    { n with children := n.children ++ [c], height := max n.height (c.height + 1) }
  else n

/-- Appends several children. A node with a payload stays as it is. -/
def addChildren (n : Node) (cs : List Node) : Node :=
  if n.acceptsChildren then restoreHeight { n with children := n.children ++ cs } else n

/-- Puts a child at position `i`. A node with a payload and one with fewer than `i` children stay
as they are. -/
def insertChild (n : Node) (i : Nat) (c : Node) : Node :=
  if n.acceptsChildren && i ≤ n.count then
    { n with children := n.children.insertIdx i c, height := max n.height (c.height + 1) }
  else n

/-- Removes the child at position `i`, if there is one. -/
def removeChildAt (n : Node) (i : Nat) : Node :=
  restoreHeight { n with children := n.children.eraseIdx i }

/-- Removes the first child that is a given node, and tells whether there is one. That a child is
this node, and not only equal to it, does not show in its value: `isIt` tells it of every
position. -/
def removeChild (n : Node) (isIt : Nat → Bool) : Bool × Node :=
  match (List.range n.count).find? isIt with
  | some i => (true, n.removeChildAt i)
  | none => (false, n)

/-- Turns the order of the children around. -/
def reverseChildren (n : Node) : Node :=
  { n with children := n.children.reverse }

/-- Turns the order of the children from position `i` on around. -/
def reverseChildrenFrom (n : Node) (i : Nat) : Node :=
  { n with children := n.children.take i ++ (n.children.drop i).reverse }

/-- Puts `c` in the place of the last child, if there is one. -/
def replaceLastChild (n : Node) (c : Node) : Node :=
  if n.children.isEmpty then n
  else restoreHeight { n with children := n.children.dropLast ++ [c] }

/-- The same node under another kind. -/
def withKind (n : Node) (kind : Kind) : Node :=
  { n with kind := kind }

mutual

/-- A copy of the whole tree, with the heights that it stores. -/
def copy : Node → Node
  | ⟨kind, payload, children, height⟩ => ⟨kind, payload, copyList children, height⟩

/-- Copies of several trees. -/
def copyList : List Node → List Node
  | [] => []
  | n :: ns => copy n :: copyList ns

end

end SwiftMangling.Node
