import SwiftMangling.Current.Specialization
import SwiftMangling.Current.Conformance
import SwiftMangling.Current.Differentiation

/-!
# Thunks

Thunks, the attributes of whole symbols, and the functions that the compiler derives from
declarations.
-/

namespace SwiftMangling.Current

open Decoding

/-- A node that says whether a thunk was serialized. -/
def serializedMark (serialized : Bool) : List Node :=
  if serialized then [.leaf .isSerialized] else []

/-- Takes types and the node below them, at most `n` steps; `types` are the types taken before, the
oldest first. -/
def popTypesAndBase : Nat → List Node → Decoder (List Node × Node)
  | 0, _ => failure
  | n + 1, types => do
    let next ← pop
    if next.kind == .type then popTypesAndBase n (next :: types) else return (types, next)

/-- Reads the getter or setter of a key path component. -/
def keyPathAccessor (k : Kind) : Decoder Node := do
  let serialized ← nextIf 'q'
  let t ← popKind .type
  let (types, base) ← popTypesAndBase ((← stackSize) + 1) [t]
  let front ←
    if base.kind == .dependentGenericSignature then do pure [← pop, base] else pure [base]
  return .branch k (front ++ types ++ serializedMark serialized)

/-- Reads the equality or hash function of a key path's indices: everything on the stack. -/
def keyPathHash (k : Kind) : Decoder Node := do
  let serialized ← nextIf 'q'
  let first ← pop
  let (signature, last) ←
    match first.kind with
    | .dependentGenericSignature => pure ([first], [])
    | .type => pure ([], [first])
    | _ => failure
  let types ← popRun (· == .type)
  match ← attempt pop with
  | some _ => failure
  | none => return .branch k (types ++ last ++ signature ++ serializedMark serialized)

/-- Reads how a bridged method passes an argument. -/
def bridgedArgument : Decoder Char := do
  let c ← nextChar
  require (c == 'n' || c == 'b' || c == 'g')
  return c

/-- Reads how an outlined bridged method passes its arguments. -/
def bridgedMethod : Decoder Node := do
  if ← nextIf '_' then failure
  let c ← nextChar
  require (c == 'p' || c == 'a' || c == 'm')
  let arguments ← manyUntil '_' bridgedArgument
  return .ofText .outlinedBridgedMethod (String.ofList (c :: arguments))

/-- Reads the number of a piece of an asynchronous function. -/
def resumeFunction (k : Kind) : Decoder Node := do
  return .branch k [← numberNode]

/-- Reads the implementation of a completion handler. -/
def completionHandler (k : Kind) : Decoder Node := do
  let mode ← numberNode
  let signature ← popKind? .dependentGenericSignature
  let result ← popKind .type
  let implementation ← popKind .type
  return .branch k ([implementation, result, mode] ++ signature.toList)

/-- Takes the types between which a thunk converts; one with a `self` has the type of it, too. -/
def reabstraction (k : Kind) (types : Nat) : Decoder Node := do
  let signature ← popKind? .dependentGenericSignature
  let ts ← (List.replicate types ()).mapM fun _ => popKind .type
  return .branch k (signature.toList ++ ts)

/-- Takes a requirement, the path to an associated type and a protocol. -/
def associatedRequirement (k : Kind) : Decoder Node := do
  let requirement ← popProtocol
  let path ← popAssociatedTypePath
  let protocol ← popKind .type
  return .branch k [protocol, path, requirement]

/-- Reads a derivative or a thunk for one. -/
def derivativeThunk : Decoder Node := do
  match ← peekChar? with
  | none => failure
  | some 'S' => do
    let _ ← nextByte
    subsetParametersThunk
  | some 'O' => do
    let _ ← nextByte
    selfReorderingThunk
  | some 'V' => do
    let _ ← nextByte
    derivative .autoDiffDerivativeVTableThunk
  | some _ => derivative .autoDiffFunction

/-- Reads a thunk, a specialization or an attribute of the whole symbol. -/
def thunk : Decoder Node := do
  match ← nextChar with
  | 'c' => aroundEntity .curryThunk
  | 'j' => aroundEntity .dispatchThunk
  | 'q' => aroundEntity .methodDescriptor
  | 'o' => return .leaf .objCAttribute
  | 'O' => return .leaf .nonObjCAttribute
  | 'D' => return .leaf .dynamicAttribute
  | 'd' => return .leaf .directMethodReferenceAttribute
  | 'a' => return .leaf .partialApplyObjCForwarder
  | 'A' => return .leaf .partialApplyForwarder
  | 'm' => return .leaf .mergedFunction
  | 'X' => return .leaf .dynamicallyReplaceableFunctionVar
  | 'x' => return .leaf .dynamicallyReplaceableFunctionKey
  | 'I' => return .leaf .dynamicallyReplaceableFunctionImpl
  | 'Y' => resumeFunction .asyncSuspendResumePartialFunction
  | 'Q' => resumeFunction .asyncAwaitResumePartialFunction
  | 'C' => aroundType .coroutineContinuationPrototype
  | 'z' => completionHandler .objCAsyncCompletionHandlerImpl
  | 'Z' => completionHandler .predefinedObjCAsyncCompletionHandlerImpl
  | 'V' =>
    let base ← popEntity
    let derived ← popEntity
    return .branch .vtableThunk [derived, base]
  | 'W' =>
    let entity ← popEntity
    let conformance ← popConformance
    return .branch .protocolWitness [conformance, entity]
  | 'S' => aroundEntity .protocolSelfConformanceWitness
  | 'R' => reabstraction .reabstractionThunkHelper 2
  | 'r' => reabstraction .reabstractionThunk 2
  | 'y' => reabstraction .reabstractionThunkHelperWithSelf 3
  | 'g' => genericSpecialization .genericSpecialization
  | 'G' => genericSpecialization .genericSpecializationNotReAbstracted
  | 'B' => genericSpecialization .genericSpecializationInResilienceDomain
  | 's' => genericSpecialization .genericSpecializationPrespecialized
  | 'i' => genericSpecialization .inlinedGenericFunction
  | 'p' => partialSpecialization .genericPartialSpecialization
  | 'P' => partialSpecialization .genericPartialSpecializationNotReAbstracted
  | 'f' => functionSpecialization
  | 'K' => keyPathAccessor .keyPathGetterThunkHelper
  | 'k' => keyPathAccessor .keyPathSetterThunkHelper
  | 'l' => return .branch .associatedTypeDescriptor [← popAssociatedTypeName]
  | 'L' => aroundProtocol .protocolRequirementsBaseDescriptor
  | 'M' => return .branch .defaultAssociatedTypeMetadataAccessor [← popAssociatedTypeName]
  | 'n' => associatedRequirement .associatedConformanceDescriptor
  | 'N' => associatedRequirement .defaultAssociatedConformanceAccessor
  | 'b' =>
    let requirement ← popProtocol
    let protocol ← popKind .type
    return .branch .baseConformanceDescriptor [protocol, requirement]
  | 'H' => keyPathHash .keyPathEqualsThunkHelper
  | 'h' => keyPathHash .keyPathHashThunkHelper
  | 'v' => return .ofIndex .outlinedVariable (UInt64.ofNat (← index))
  | 'e' => bridgedMethod
  | 'u' => return .leaf .asyncFunctionPointer
  | 'J' => derivativeThunk
  | _ => failure

end SwiftMangling.Current
