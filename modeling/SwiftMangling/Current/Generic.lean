import SwiftMangling.Current.BoundGeneric

/-!
# Protocols, generic parameters and signatures

Generic parameters are numbered by depth and position. A signature counts the parameters at each
depth and takes its requirements from the stack.
-/

namespace SwiftMangling.Current

open Decoding

/-- Whether a node is a protocol, or a type around one. -/
def isProtocol : Node → Bool
  | ⟨.type, _, c :: _, _⟩ => isProtocol c
  | ⟨.protocolType, _, _, _⟩ => true
  | ⟨.protocolSymbolicReference, _, _, _⟩ => true
  | _ => false

/-- Takes a declaration of a nominal type: a name and its context. -/
def nominalType (k : Kind) : Decoder Node := do
  let name ← popDeclName
  let context ← popContext
  remember (.typeOf (.branch k [context, name]))

/-- Takes a protocol. -/
def popProtocol : Decoder Node := do
  match ← popKind? .type with
  | some t =>
    require (isProtocol t)
    return t
  | none =>
    match ← popKind? .protocolSymbolicReference with
    | some r => return r
    | none =>
      let name ← popDeclName
      let context ← popContext
      return .typeOf (.branch .protocolType [context, name])

/-- A node of the given kind around the protocol on top of the stack. -/
def aroundProtocol (k : Kind) : Decoder Node := do
  return .branch k [← popProtocol]

/-- Takes a list of protocols. -/
def popProtocolList : Decoder Node := do
  return .branch .protocolList [.branch .typeList (← popList popProtocol)]

/-- Reads a generic parameter. -/
def genericParameterIndex : Decoder Node := do
  if ← nextIf 'd' then
    let depth ← successor (← index)
    let position ← index
    return .genericParameter depth position
  if ← nextIf 'z' then return .genericParameter 0 0
  return .genericParameter 0 (← successor (← index))

/-- Reads the number of parameters at one depth. -/
def parameterCount : Decoder Node := do
  let count ← if ← nextIf 'z' then pure 0 else successor (← index)
  return .ofIndex .dependentGenericParamCount (UInt64.ofNat count)

/-- Reads a generic signature and takes its requirements. A signature without counts has one
parameter. -/
def genericSignature (hasCounts : Bool) : Decoder Node := do
  let counts ←
    if hasCounts then manyUntil 'l' parameterCount
    else pure [.ofIndex .dependentGenericParamCount 1]
  let requirements ← popRun Kind.isRequirement
  return .branch .dependentGenericSignature (counts ++ requirements)

/-- Takes a generic signature and the type that it makes generic. -/
def genericType : Decoder Node := do
  let signature ← popKind .dependentGenericSignature
  let t ← popKind .type
  return .typeOf (.branch .dependentGenericType [signature, t])

/-- Takes the name of an associated type, with its protocol if that is given. -/
def popAssociatedTypeName : Decoder Node := do
  let protocol ←
    match ← popKind? .type with
    | some t =>
      require (isProtocol t)
      pure (some t)
    | none => popKind? .protocolSymbolicReference
  let name ← popKind .identifier
  return .branch .dependentAssociatedTypeRef (name :: protocol.toList)

/-- The given node as a type, or the type on top of the stack. -/
def typeOrPop : Option Node → Decoder Node
  | some n => return .typeOf n
  | none => popKind .type

/-- Member `name` of a type. -/
def memberType (base name : Node) : Node :=
  .typeOf (.branch .dependentMemberType [base, name])

/-- Takes a member of `base`, or of the type below the member's name. -/
def associatedType (base : Option Node) : Decoder Node := do
  let name ← popAssociatedTypeName
  return memberType (← typeOrPop base) name

/-- Takes a chain of members of `base`, or of the type below the members' names. -/
def associatedTypePath (base : Option Node) : Decoder Node := do
  let names ← popMarked popAssociatedTypeName
  return names.foldl memberType (← typeOrPop base)

/-- Takes the names of nested associated types. -/
def popAssociatedTypePath : Decoder Node := do
  return .branch .assocTypePath (← popMarked popAssociatedTypeName)

/-- What a requirement demands of its subject. -/
inductive Constraint where
  | protocol
  | baseClass
  | sameType
  | layout

/-- How the subject of a requirement is given. -/
inductive Subject where
  | parameter
  | member
  | memberPath
  | substitution

/-- The constraint and the subject that a letter stands for. Without such a letter a parameter has
to conform to a protocol. -/
def requirementForm? : Char → Option (Constraint × Subject)
  | 'c' => some (.baseClass, .member)
  | 'C' => some (.baseClass, .memberPath)
  | 'b' => some (.baseClass, .parameter)
  | 'B' => some (.baseClass, .substitution)
  | 't' => some (.sameType, .member)
  | 'T' => some (.sameType, .memberPath)
  | 's' => some (.sameType, .parameter)
  | 'S' => some (.sameType, .substitution)
  | 'm' => some (.layout, .member)
  | 'M' => some (.layout, .memberPath)
  | 'l' => some (.layout, .parameter)
  | 'L' => some (.layout, .substitution)
  | 'p' => some (.protocol, .member)
  | 'P' => some (.protocol, .memberPath)
  | 'Q' => some (.protocol, .substitution)
  | _ => none

/-- Reads or takes the subject of a requirement. -/
def requirementSubject : Subject → Decoder Node
  | .parameter => do return .typeOf (← genericParameterIndex)
  | .member => do remember (← associatedType (some (← genericParameterIndex)))
  | .memberPath => do remember (← associatedTypePath (some (← genericParameterIndex)))
  | .substitution => popKind .type

/-- Reads a layout that `subject` has to have. -/
def layoutRequirement (subject : Node) : Decoder Node := do
  let c ← nextChar
  let numbers ←
    match c with
    | 'U' | 'R' | 'N' | 'C' | 'D' | 'T' => pure []
    | 'E' | 'M' => do
      let size ← numberNode
      let alignment ← numberNode
      pure [size, alignment]
    | 'e' | 'm' => do pure [← numberNode]
    | _ => failure
  return .branch .dependentGenericLayoutRequirement (subject :: .identifier c.toString :: numbers)

/-- Reads a requirement of a generic signature. -/
def genericRequirement : Decoder Node := do
  let (constraint, form) ←
    match requirementForm? (← nextChar) with
    | some form => pure form
    | none => do
      pushBack
      pure (.protocol, .parameter)
  let subject ← requirementSubject form
  match constraint with
  | .protocol =>
    return .branch .dependentGenericConformanceRequirement [subject, ← popProtocol]
  | .baseClass =>
    return .branch .dependentGenericConformanceRequirement [subject, ← popKind .type]
  | .sameType =>
    return .branch .dependentGenericSameTypeRequirement [subject, ← popKind .type]
  | .layout => layoutRequirement subject

/-- Takes an opaque type with its generic arguments. -/
def opaqueResult : Decoder Node := do
  let position ← index
  let (lists, conformances) ← popBoundGenerics
  let name ← pop
  remember (.typeOf (.branch .opaqueType
    ([name, .ofIndex .index (UInt64.ofNat position), .branch .typeList lists.reverse] ++
      conformances.toList)))

/-- Reads an archetype, an associated type or an opaque type. -/
def archetype : Decoder Node := do
  match ← nextChar with
  | 'a' =>
    let name ← popKind .identifier
    let base ← popTypeChild
    remember (.typeOf (.branch .associatedTypeRef [base, name]))
  | 'O' => aroundContext .opaqueReturnTypeOf
  | 'o' => opaqueResult
  | 'r' => return .typeOf (.leaf .opaqueReturnType)
  | 'x' => do remember (← associatedType none)
  | 'X' => do remember (← associatedTypePath none)
  | 'y' => do remember (← associatedType (some (← genericParameterIndex)))
  | 'Y' => do remember (← associatedTypePath (some (← genericParameterIndex)))
  | 'z' => do remember (← associatedType (some (.genericParameter 0 0)))
  | 'Z' => do remember (← associatedTypePath (some (.genericParameter 0 0)))
  | _ => failure

end SwiftMangling.Current
