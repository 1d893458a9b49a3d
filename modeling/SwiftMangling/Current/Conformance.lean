import SwiftMangling.Current.Generic

/-!
# Protocol conformances

Conformances of types to protocols, and the references to conformances that generic arguments
depend on.
-/

namespace SwiftMangling.Current

open Decoding

/-- Puts a generic signature around a type, if there is one. -/
def withSignature (signature : Option Node) (t : Node) : Node :=
  match signature with
  | some s => .typeOf (.branch .dependentGenericType [s, t])
  | none => t

/-- Takes a conformance: a type, a protocol and the module that declares the conformance. -/
def popConformance : Decoder Node := do
  let signature ← popKind? .dependentGenericSignature
  let module ← popModule
  let protocol ← popProtocol
  let (t, name) ←
    match ← popKind? .type with
    | some t => pure (t, none)
    | none => do
      let name ← popKind? .identifier
      let t ← popKind .type
      pure (t, name)
  return .branch .protocolConformance
    ([withSignature signature t, protocol, module] ++ name.toList)

/-- A node of the given kind around the conformance on top of the stack. -/
def aroundConformance (k : Kind) : Decoder Node := do
  return .branch k [← popConformance]

/-- Conformances that depend on generic arguments. -/
def isDependentConformance : Kind → Bool
  | .dependentProtocolConformanceRoot | .dependentProtocolConformanceInherited
  | .dependentProtocolConformanceAssociated => true
  | _ => false

/-- Concrete and dependent conformances. -/
def isAnyConformance (k : Kind) : Bool :=
  k == .concreteProtocolConformance || isDependentConformance k

/-- Reads the number of a retroactive conformance and takes the conformance. -/
def retroactiveConformance : Decoder Node := do
  let number ← numberNode
  let conformance ← popWhere isAnyConformance
  return .branch .retroactiveConformance [number, conformance]

/-- Takes a reference to a conformance; one to another module is spelled out. -/
def popConformanceReference : Decoder Node := do
  match ← popKind? .protocolConformanceRefInTypeModule with
  | some r => return r
  | none =>
    match ← popKind? .protocolConformanceRefInProtocolModule with
    | some r => return r
    | none =>
      let module ← popModule
      let protocol ← popProtocol
      return .branch .protocolConformanceRefInOtherModule [protocol, module]

/-- Takes a concrete conformance with the conformances that it depends on. -/
def concreteConformance : Decoder Node := do
  let conditions ← popList (popWhere isAnyConformance)
  let reference ← popConformanceReference
  let t ← popKind .type
  return .branch .concreteProtocolConformance
    [t, reference, .branch .anyProtocolConformanceList conditions]

/-- Reads the number of a dependent conformance, which can be unknown. -/
def conformanceIndex : Decoder Node := do
  match ← index with
  | 0 => failure
  | 1 => return .leaf .unknownIndex
  | n + 2 => return .ofIndex .index (UInt64.ofNat n)

/-- Takes the conformance that a generic signature states. -/
def rootConformance : Decoder Node := do
  let number ← conformanceIndex
  let protocol ← popProtocol
  let t ← popKind .type
  return .branch .dependentProtocolConformanceRoot [t, protocol, number]

/-- Takes a conformance that follows from the conformance to a refining protocol. -/
def inheritedConformance : Decoder Node := do
  let number ← conformanceIndex
  let protocol ← popProtocol
  let nested ← popWhere isDependentConformance
  return .branch .dependentProtocolConformanceInherited [nested, protocol, number]

/-- Takes the conformance of an associated type. -/
def associatedConformance : Decoder Node := do
  let number ← conformanceIndex
  let protocol ← popProtocol
  let t ← popKind .type
  let nested ← popWhere isDependentConformance
  return .branch .dependentProtocolConformanceAssociated
    [nested, .branch .dependentAssociatedConformance [t, protocol], number]

end SwiftMangling.Current
