import SwiftMangling.Legacy.Type
import SwiftMangling.Legacy.Entity
import SwiftMangling.Legacy.Specialization

/-!
# Symbols of the legacy scheme

A whole symbol is the prefix `_T`, headers or an attribute, and one entity, metadata or thunk. What
follows it is a suffix that is not mangled.
-/

namespace SwiftMangling.Legacy

open Decoding

/-- The metadata of a type with the given letter. -/
def metadataKind? : Char → Option Kind
  | 'P' => some .genericTypeMetadataPattern
  | 'a' => some .typeMetadataAccessFunction
  | 'L' => some .typeMetadataLazyCache
  | 'm' => some .metaclass
  | 'n' => some .nominalTypeDescriptor
  | 'f' => some .fullTypeMetadata
  | _ => none

/-- Reads metadata of a type or the descriptor of a protocol. -/
def metadata : Decoder Node := do
  let c ← ofOption (← peekChar?)
  match metadataKind? c with
  | some k =>
    let _ ← nextByte
    aroundType k
  | none =>
    if c == 'p' then
      let _ ← nextByte
      return .branch .protocolDescriptor [← protocol]
    else aroundType .typeMetadata

/-- Reads how a field's offset is reached and the field. -/
def fieldOffset : Decoder Node := do
  let d : Directness ←
    match ← nextChar with
    | 'd' => pure .direct
    | 'i' => pure .indirect
    | _ => failure
  return .branch .fieldOffset [.ofPayload .directness (.directness d), ← entity]

/-- Reads a type and the conformance that a lazy witness table is for. -/
def lazyWitnessTable (k : Kind) : Decoder Node := do
  let t ← type
  return .branch k [t, ← conformance]

/-- Reads a witness table or an operation on one. -/
def witness : Decoder Node := do
  match ← nextChar with
  | 'V' => aroundType .valueWitnessTable
  | 'v' => fieldOffset
  | 'P' => aroundConformance .protocolWitnessTable
  | 'G' => aroundConformance .genericProtocolWitnessTable
  | 'I' => aroundConformance .genericProtocolWitnessTableInstantiationFunction
  | 'l' => lazyWitnessTable .lazyProtocolWitnessTableAccessor
  | 'L' => lazyWitnessTable .lazyProtocolWitnessTableCacheVariable
  | 'a' => aroundConformance .protocolWitnessTableAccessor
  | 't' =>
    let c ← conformance
    return .branch .associatedTypeMetadataAccessor [c, ← declName]
  | 'T' =>
    let c ← conformance
    let name ← declName
    return .branch .associatedTypeWitnessTableAccessor [c, name, ← protocol]
  | _ => failure

/-- Reads the code of a value witness and its type. -/
def valueWitness : Decoder Node := do
  let a ← nextByte
  let b ← nextByte
  let w ← ofOption (ValueWitness.ofCode? a b)
  return .branch .valueWitness [.ofPayload .index (.valueWitness w), ← type]

/-- Reads the types between which a thunk converts. -/
def reabstraction (k : Kind) : Decoder Node := do
  let signature ← if ← nextIf 'G' then do pure [← genericSignature] else pure []
  let source ← type
  let target ← type
  return .branch k (signature ++ [source, target])

/-- Reads a thunk. -/
def thunk : Decoder Node := do
  match ← nextChar with
  | 'R' => reabstraction .reabstractionThunkHelper
  | 'r' => reabstraction .reabstractionThunk
  | 'W' =>
    let c ← conformance
    return .branch .protocolWitness [c, ← entity]
  | _ => failure

/-- Reads a forwarder and the symbol that it encloses, if it is given. -/
def forwarder : Decoder Node := do
  let isObjC ← nextIf 'o'
  let k : Kind := if isObjC then .partialApplyObjCForwarder else .partialApplyForwarder
  if ← nextIfText "__T" then return .branch k [← production .global]
  return .leaf k

/-- Reads a symbol without its prefix. -/
def global : Decoder Node := do
  if ← nextIf 'M' then metadata
  else if ← nextIfText "PA" then forwarder
  else if ← nextIf 't' then aroundType .typeMangling
  else if ← nextIf 'w' then valueWitness
  else if ← nextIf 'W' then witness
  else if ← nextIf 'T' then thunk
  else entity

/-- The attributes of whole symbols, each with its letters. -/
def attributes : List (String × Kind) :=
  [("To", .objCAttribute), ("TO", .nonObjCAttribute), ("TD", .dynamicAttribute),
   ("Td", .directMethodReferenceAttribute), ("TV", .vtableAttribute)]

/-- Reads the first of the given attributes that comes next, if there is one. -/
def symbolAttribute : List (String × Kind) → Decoder (List Node)
  | [] => return []
  | (s, k) :: rest => do
    if ← nextIfText s then return [.leaf k] else symbolAttribute rest

/-- Reads a whole symbol. -/
def symbol : Decoder Node := do
  require (← nextIfText "_T")
  let front ←
    if ← nextIfText "TS" then
      let headers ← specializations ((← remaining) + 1)
      require (← nextIfText "_T")
      pure headers
    else symbolAttribute attributes
  let body ← global
  let suffix ←
    if ← atEnd then pure []
    else do pure [.ofText .suffix (Utf8.lossy (← takeRest))]
  return .branch .global (front ++ body :: suffix)

/-- The rule of each recursive production. -/
def rule : Production → Decoder Node
  | .type => typeRule
  | .content => contentRule
  | .context => contextRule
  | .archetype => archetypeRule
  | .global => nested global

/-- Reads a recursive production with at most `n` more of them inside of each other. Each of them
reads a byte before it reads another one. -/
def parse : Nat → Production → Decoding Unit State Node
  | 0, _ => failure
  | n + 1, p => fun _ s => rule p ⟨parse n⟩ s

/-- Runs a decoder on an input. -/
def run (d : Decoder Node) (input : List UInt8) : Option Node :=
  (d ⟨parse (input.length + 1)⟩ (State.start input)).1

/-- Decodes a symbol of the legacy scheme. -/
def decodeSymbol (input : List UInt8) : Option Node :=
  run symbol input

/-- Decodes a type without a prefix. -/
def decodeType (input : List UInt8) : Option Node :=
  run type input

end SwiftMangling.Legacy
