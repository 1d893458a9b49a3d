import SwiftMangling.Current.Entity
import SwiftMangling.Current.Differentiation

/-!
# Metadata and witnesses

Runtime metadata of types and descriptors of declarations, value witnesses, and the tables and
accessors of protocol witnesses.
-/

namespace SwiftMangling.Current

open Decoding

/-- Reads a descriptor of a context. -/
def contextDescriptor : Decoder Node := do
  match ← nextChar with
  | 'E' => aroundContext .extensionDescriptor
  | 'M' => return .branch .moduleDescriptor [← popModule]
  | 'Y' =>
    let discriminator ← pop
    let context ← popContext
    return .branch .anonymousContext [discriminator, context]
  | 'X' => aroundContext .anonymousDescriptor
  | _ => failure

/-- Reads a piece of metadata or a descriptor. -/
def metadata : Decoder Node := do
  match ← nextChar with
  | 'a' => aroundType .typeMetadataAccessFunction
  | 'A' => aroundConformance .reflectionMetadataAssocTypeDescriptor
  | 'b' => aroundType .canonicalSpecializedGenericTypeMetadataAccessFunction
  | 'B' => aroundType .reflectionMetadataBuiltinDescriptor
  | 'c' => aroundConformance .protocolConformanceDescriptor
  | 'C' => return .branch .reflectionMetadataSuperclassDescriptor [← popBindable]
  | 'D' => aroundType .typeMetadataDemanglingCache
  | 'f' => aroundType .fullTypeMetadata
  | 'F' => aroundType .reflectionMetadataFieldDescriptor
  | 'g' => aroundNode .opaqueTypeDescriptorAccessor
  | 'h' => aroundNode .opaqueTypeDescriptorAccessorImpl
  | 'i' => aroundType .typeMetadataInstantiationFunction
  | 'I' => aroundType .typeMetadataInstantiationCache
  | 'j' => aroundNode .opaqueTypeDescriptorAccessorKey
  | 'J' => aroundNode .noncanonicalSpecializedGenericTypeMetadataCache
  | 'k' => aroundNode .opaqueTypeDescriptorAccessorVar
  | 'K' => aroundNode .metadataInstantiationCache
  | 'l' => aroundType .typeMetadataSingletonInitializationCache
  | 'L' => aroundType .typeMetadataLazyCache
  | 'm' => aroundType .metaclass
  | 'M' => aroundType .canonicalSpecializedGenericMetaclass
  | 'n' => aroundType .nominalTypeDescriptor
  | 'N' => aroundType .noncanonicalSpecializedGenericTypeMetadata
  | 'o' => aroundType .classMetadataBaseOffset
  | 'p' => aroundProtocol .protocolDescriptor
  | 'P' => aroundType .genericTypeMetadataPattern
  | 'Q' => aroundNode .opaqueTypeDescriptor
  | 'r' => aroundType .typeMetadataCompletionFunction
  | 's' => aroundType .objCResilientClassStub
  | 'S' => aroundProtocol .protocolSelfConformanceDescriptor
  | 't' => aroundType .fullObjCResilientClassStub
  | 'u' => aroundType .methodLookupFunction
  | 'U' => aroundType .objCMetadataUpdateFunction
  | 'V' => aroundEntity .propertyDescriptor
  | 'X' => contextDescriptor
  | 'z' => aroundType .canonicalPrespecializedGenericTypeCachingOnceToken
  | _ => failure

/-- Reads the code of a value witness and takes its type. -/
def valueWitness : Decoder Node := do
  let a ← nextByte
  let b ← nextByte
  let w ← ofOption (ValueWitness.ofCode? a b)
  let t ← popKind .type
  return .branch .valueWitness [.ofPayload .index (.valueWitness w), t]

/-- Reads how a field's offset is reached and takes the field. -/
def fieldOffset : Decoder Node := do
  let d : Directness ←
    match ← nextChar with
    | 'd' => pure .direct
    | 'i' => pure .indirect
    | _ => failure
  let entity ← popEntity
  return .branch .fieldOffset [.ofPayload .directness (.directness d), entity]

/-- Takes a conformance and the type that a lazy witness table belongs to. -/
def lazyWitnessTable (k : Kind) : Decoder Node := do
  let conformance ← popConformance
  let t ← popKind .type
  return .branch k [t, conformance]

/-- Takes a type, and the generic signature of an outlined operation on it. -/
def outlined (k : Kind) : Decoder Node := do
  let signature ← popKind? .dependentGenericSignature
  let t ← popKind .type
  return .branch k (t :: signature.toList)

/-- Reads which outlined operation is meant. -/
def outlinedOperation : Decoder Node := do
  match ← nextChar with
  | 'y' => outlined .outlinedCopy
  | 'e' => outlined .outlinedConsume
  | 'r' => outlined .outlinedRetain
  | 's' => outlined .outlinedRelease
  | 'b' => outlined .outlinedInitializeWithTake
  | 'c' => outlined .outlinedInitializeWithCopy
  | 'd' => outlined .outlinedAssignWithTake
  | 'f' => outlined .outlinedAssignWithCopy
  | 'h' => outlined .outlinedDestroy
  | _ => failure

/-- Takes names, each of them below a marker, at most `n`; `later` are the names taken before. -/
def popMarkedNames : Nat → List Node → Decoder (List Node)
  | 0, later => return later
  | n + 1, later => do
    if ← popMarker .firstElementMarker then
      let name ← popDeclName
      popMarkedNames n (name :: later)
    else return later

/-- Takes the variables that are initialized together. -/
def onceInitialization (k : Kind) : Decoder Node := do
  let names ← popMarkedNames ((← stackSize) + 1) []
  let context ← popContext
  return .branch k [context, .branch .globalVariableOnceDeclList names]

/-- Reads a witness, a witness table or an operation on them. -/
def witness : Decoder Node := do
  match ← nextChar with
  | 'C' => aroundEntity .enumCase
  | 'V' => aroundType .valueWitnessTable
  | 'v' => fieldOffset
  | 'S' => aroundProtocol .protocolSelfConformanceWitnessTable
  | 'P' => aroundConformance .protocolWitnessTable
  | 'p' => aroundConformance .protocolWitnessTablePattern
  | 'G' => aroundConformance .genericProtocolWitnessTable
  | 'I' => aroundConformance .genericProtocolWitnessTableInstantiationFunction
  | 'r' => aroundConformance .resilientProtocolWitnessTable
  | 'l' => lazyWitnessTable .lazyProtocolWitnessTableAccessor
  | 'L' => lazyWitnessTable .lazyProtocolWitnessTableCacheVariable
  | 'a' => aroundConformance .protocolWitnessTableAccessor
  | 't' =>
    let name ← popDeclName
    let conformance ← popConformance
    return .branch .associatedTypeMetadataAccessor [conformance, name]
  | 'T' =>
    let protocol ← popKind .type
    let path ← popAssociatedTypePath
    let conformance ← popConformance
    return .branch .associatedTypeWitnessTableAccessor [conformance, path, protocol]
  | 'b' =>
    let protocol ← popKind .type
    let conformance ← popConformance
    return .branch .baseWitnessTableAccessor [conformance, protocol]
  | 'O' => outlinedOperation
  | 'Z' => onceInitialization .globalVariableOnceFunction
  | 'z' => onceInitialization .globalVariableOnceToken
  | 'J' => differentiabilityWitness
  | _ => failure

end SwiftMangling.Current
