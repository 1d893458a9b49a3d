import SwiftMangling.Node.Path

/-!
# Specialized declarations

A declaration is specialized if it, or something around it, is bound to generic arguments.
`unspecialized?` rebuilds a declaration without them.
-/

namespace SwiftMangling.Node

/-- Declarations bound to generic arguments. -/
def isBoundKind : Kind → Bool
  | .boundGenericStructure | .boundGenericEnum | .boundGenericClass
  | .boundGenericOtherNominalType | .boundGenericTypeAlias | .boundGenericProtocol
  | .boundGenericFunction => true
  | _ => false

/-- Nominal types that can be rebuilt from a parent and a name. -/
def isRebuiltNominal : Kind → Bool
  | .structureType | .enumType | .classType | .typeAlias | .otherNominalType => true
  | _ => false

/-- Declarations that can be rebuilt with another parent. -/
def isMember : Kind → Bool
  | .function | .allocator | .constructor | .destructor | .variableDecl | .subscript
  | .explicitClosure | .implicitClosure | .initializer | .propertyWrapperBackingInitializer
  | .propertyWrapperInitFromProjectedValue | .defaultArgumentInitializer | .getter | .setter
  | .willSet | .didSet | .readAccessor | .modifyAccessor | .unsafeAddressor
  | .unsafeMutableAddressor => true
  | _ => false

/-- Declarations that are specialized if their parent is. -/
def followsParent (k : Kind) : Bool :=
  isRebuiltNominal k || isMember k || k == .protocolType

/-- Whether a declaration, or something around it, is bound to generic arguments. -/
def isSpecialized : Node → Bool
  | ⟨k, _, [], _⟩ => isBoundKind k
  | ⟨k, _, [parent], _⟩ => isBoundKind k || (followsParent k && isSpecialized parent)
  | ⟨k, _, parent :: second :: _, _⟩ =>
    isBoundKind k || (followsParent k && isSpecialized parent) ||
      (k == .extension && isSpecialized second)

/-- A declaration without the generic arguments that it, or something around it, is bound to. -/
def unspecialized? (n : Node) : Option Node :=
  match _h : n.children with
  | [] => none
  | parent :: rest =>
    if isMember n.kind then do
      let p ← if isSpecialized parent then unspecialized? parent else some parent
      return branch n.kind (p :: rest)
    else if isRebuiltNominal n.kind then do
      let name ← rest.head?
      let p ← if isSpecialized parent then unspecialized? parent else some parent
      return branch n.kind [p, name]
    else if n.kind == .boundGenericFunction then
      if isSpecialized parent then unspecialized? parent else some parent
    else if isBoundKind n.kind then
      if parent.kind != .type then none
      else
        match _hp : parent.children with
        | [] => none
        | unbound :: _ => if isSpecialized unbound then unspecialized? unbound else some unbound
    else if n.kind == .extension then
      match _hr : rest with
      | [] => none
      | extended :: more =>
        if isSpecialized extended then
          (unspecialized? extended).map fun e => branch .extension (parent :: e :: more.take 1)
        else some n
    else none
termination_by sizeOf n
decreasing_by
  · exact sizeOf_lt_of_mem_children (by simp [_h])
  · exact sizeOf_lt_of_mem_children (by simp [_h])
  · exact sizeOf_lt_of_mem_children (by simp [_h])
  · have h1 := sizeOf_lt_of_mem_children (c := parent) (n := n) (by simp [_h])
    have h2 := sizeOf_lt_of_mem_children (c := unbound) (n := parent) (by simp [_hp])
    omega
  · exact sizeOf_lt_of_mem_children (by simp [_h])

end SwiftMangling.Node
