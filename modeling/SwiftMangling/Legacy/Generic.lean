import SwiftMangling.Legacy.Name
import SwiftMangling.Node.Path

/-!
# Generics of the legacy scheme

Generic parameters and signatures, members of generic parameters, archetypes and bound generic
types.
-/

namespace SwiftMangling.Legacy

open Decoding

/-- Reads a generic parameter. -/
def genericParameterIndex : Decoder Node := do
  if ← nextIf 'd' then
    let depth ← successor (← index)
    return .genericParameter depth (← index)
  if ← nextIf 'x' then return .genericParameter 0 0
  return .genericParameter 0 (← successor (← index))

/-- Reads a reference to the name of an associated type. -/
def associatedTypeReference : Decoder Node := do
  if ← nextIf 'S' then
    let n ← substitution
    require (n.kind == .dependentAssociatedTypeRef)
    return n
  let p ← if ← nextIf 'P' then some <$> protocol else pure none
  let name ← identifier .identifier
  remember (.branch .dependentAssociatedTypeRef (name :: p.toList))

/-- Reads a member of `base`. -/
def memberOf (base : Node) : Decoder Node := do
  return .branch .dependentMemberType [base, ← associatedTypeReference]

/-- Reads a generic parameter and a member of it. -/
def associatedType : Decoder Node := do
  memberOf (.typeOf (← genericParameterIndex))

/-- Reads members of members of `base` up to `_`. -/
def associatedTypeChain (base : Node) : Decoder Node := do
  let names ← manyUntil '_' associatedTypeReference
  return names.foldl (fun b n => .branch .dependentMemberType [.typeOf b, n]) base

/-- Reads a generic parameter and a chain of members of it. -/
def associatedTypePath : Decoder Node := do
  associatedTypeChain (← genericParameterIndex)

/-- Reads a generic parameter, or a member of a type. -/
def dependentType : Decoder Node := do
  let c ← ofOption (← peekChar?)
  if c != 'd' && c != '_' && !c.isDigit then memberOf (← type)
  else genericParameterIndex

/-- Reads a generic parameter or an associated type of one. -/
def constrainedSubject : Decoder Node := do
  if ← nextIf 'w' then associatedType
  else if ← nextIf 'W' then associatedTypePath
  else genericParameterIndex

/-- Reads the subject of a requirement. -/
def constrainedType : Decoder Node := do
  return .typeOf (← constrainedSubject)

/-- Reads the numbers of a layout with the given letter. -/
def layoutNumbers : Char → Decoder (List Node)
  | 'U' | 'R' | 'N' | 'T' => return []
  | 'E' | 'M' => do
    let size ← natural
    expect '_'
    let alignment ← natural
    return [.ofIndex .number (UInt64.ofNat size), .ofIndex .number (UInt64.ofNat alignment)]
  | 'e' | 'm' => do return [.ofIndex .number (UInt64.ofNat (← natural))]
  | _ => failure

/-- Reads the protocol or class that a subject has to conform to or to inherit from. -/
def conformanceConstraint : Decoder Node := do
  let c ← ofOption (← peekChar?)
  match c with
  | 'C' => type
  | 'S' =>
    let _ ← nextByte
    let n ← substitution
    match n.kind with
    | .protocolType | .classType => return .typeOf n
    | .moduleName => return .typeOf (← protocolIn n)
    | _ => failure
  | _ => protocol

/-- Reads a requirement of a generic signature. -/
def genericRequirement : Decoder Node := do
  let subject ← constrainedType
  if ← nextIf 'z' then
    return .branch .dependentGenericSameTypeRequirement [subject, ← type]
  if ← nextIf 'l' then
    let c ← nextChar
    return .branch .dependentGenericLayoutRequirement
      (subject :: .identifier c.toString :: (← layoutNumbers c))
  return .branch .dependentGenericConformanceRequirement [subject, ← conformanceConstraint]

/-- Reads the numbers of parameters at each depth, at most `n` of them, up to an `R` or `r`, which
stays unread. -/
def parameterCounts : Nat → Decoder (List Node)
  | 0 => failure
  | n + 1 => do
    let c ← ofOption (← peekChar?)
    if c == 'R' || c == 'r' then return []
    let count ← if ← nextIf 'z' then pure 0 else successor (← index)
    return .ofIndex .dependentGenericParamCount (UInt64.ofNat count) :: (← parameterCounts n)

/-- Reads a generic signature of the given kind. Without counts there is one parameter. -/
def signatureOf (k : Kind) : Decoder Node := do
  let counts ← parameterCounts ((← remaining) + 1)
  let counts := if counts.isEmpty then [.ofIndex .dependentGenericParamCount 1] else counts
  if ← nextIf 'r' then return .branch k counts
  expect 'R'
  return .branch k (counts ++ (← manyUntil 'r' genericRequirement))

/-- Reads a generic signature. -/
def genericSignature : Decoder Node :=
  signatureOf .dependentGenericSignature

/-- Reads a chain of archetypes. -/
def archetypeRule : Decoder Node := do
  let root ←
    match ← nextChar with
    | 'Q' => production .archetype
    | 'S' => substitution
    | 's' => pure (.module Node.standardLibrary)
    | _ => failure
  remember (.branch .associatedTypeRef [root, ← identifier .identifier])

/-- Reads a nominal type. -/
def nominalType : Decoder Node := do
  match ← nextChar with
  | 'S' => substitution
  | 'V' => declaration .structureType
  | 'O' => declaration .enumType
  | 'C' => declaration .classType
  | 'P' => declaration .protocolType
  | _ => failure

/-- The kind of a bound generic type of the given kind. -/
def boundKind? : Kind → Option Kind
  | .classType => some .boundGenericClass
  | .structureType => some .boundGenericStructure
  | .enumType => some .boundGenericEnum
  | _ => none

/-- Whether a context takes no generic arguments. -/
def isUnboundContext : Kind → Bool
  | .moduleName | .function | .extension => true
  | _ => false

/-- Reads an argument of a bound generic type, after which something has to follow. -/
def genericArgument : Decoder Node := do
  let t ← type
  require !(← atEnd)
  return t

/-- Reads the arguments of a nominal type up to `_` and binds it to them. -/
def bindOne (n : Node) : Decoder Node := do
  match ← manyUntil '_' genericArgument with
  | [] => return n
  | arguments =>
    let k ← ofOption (boundKind? n.kind)
    return .branch k [.typeOf n, .branch .typeList arguments]

/-- Reads the arguments of a nominal type and of the types around it, those of the outermost type
first. -/
def bindArguments (n : Node) : Decoder Node :=
  match _h : n.children with
  | [] => failure
  | parent :: parts =>
    if isUnboundContext parent.kind then bindOne n
    else do
      let bound ← bindArguments parent
      let name ← ofOption parts.head?
      bindOne (.branch n.kind [bound, name])
termination_by sizeOf n
decreasing_by exact Node.sizeOf_lt_of_mem_children (by simp [_h])

/-- Reads a bound generic type. -/
def boundGenericType : Decoder Node := do
  bindArguments (← nominalType)

end SwiftMangling.Legacy
