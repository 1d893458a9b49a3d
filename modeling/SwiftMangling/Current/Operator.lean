import SwiftMangling.Current.Identifier
import SwiftMangling.Current.Substitution
import SwiftMangling.Current.SpecialType
import SwiftMangling.Current.LoweredFunction
import SwiftMangling.Current.Metadata
import SwiftMangling.Current.Thunk

/-!
# Operators

One operator of the current scheme: a letter, what follows it in the input, and the operands that
it takes from the stack. What starts with no operator is an identifier.
-/

namespace SwiftMangling.Current

open Decoding

/-- The byte that fills up space in front of an operator. -/
def padding : UInt8 := 0xFF

/-- Skips the padding in front of an operator. -/
def skipPadding : Decoder Unit := do
  let _ ← takeWhile (· == padding)

/-- Reads a conformance; what is none is left to be read as an identifier. -/
def conformance : Decoder Node := do
  match ← nextChar with
  | 'A' => associatedConformance
  | 'C' => concreteConformance
  | 'D' => rootConformance
  | 'I' => inheritedConformance
  | 'P' => aroundProtocol .protocolConformanceRefInTypeModule
  | 'p' => aroundProtocol .protocolConformanceRefInProtocolModule
  | _ =>
    pushBack
    pushBack
    identifier

/-- Reads the rest of the input as a suffix that is not mangled. -/
def suffix : Decoder Node := do
  pushBack
  return .ofText .suffix (Utf8.lossy (← takeRest))

/-- Reads what the letter `c` introduces. -/
def operatorOf (c : Char) : Decoder Node :=
  match c with
  | 'A' => substitutionReference
  | 'B' => builtinType
  | 'C' => nominalType .classType
  | 'D' => aroundType .typeMangling
  | 'E' => extensionContext
  | 'F' => plainFunction
  | 'G' => boundGenericType
  | 'H' => conformance
  | 'I' => loweredFunctionType
  | 'K' => return .leaf .throwsMark
  | 'L' => localName
  | 'M' => metadata
  | 'N' => aroundType .typeMetadata
  | 'O' => nominalType .enumType
  | 'P' => nominalType .protocolType
  | 'Q' => archetype
  | 'R' => genericRequirement
  | 'S' => standardSubstitution
  | 'T' => thunk
  | 'V' => nominalType .structureType
  | 'W' => witness
  | 'X' => specialType
  | 'Y' => typeMark
  | 'Z' => aroundEntity .staticMember
  | 'a' => nominalType .typeAlias
  | 'c' => popFunctionType .functionType false
  | 'd' => return .leaf .variadicMarker
  | 'f' => functionEntity
  | 'g' => retroactiveConformance
  | 'h' => wrapTypeChild .shared
  | 'i' => subscriptEntity
  | 'l' => genericSignature false
  | 'm' => wrapType .metatype
  | 'n' => wrapTypeChild .owned
  | 'o' => operatorName
  | 'p' => do return .typeOf (← popProtocolList)
  | 'q' => do return .typeOf (← genericParameterIndex)
  | 'r' => genericSignature true
  | 's' => return .module Node.standardLibrary
  | 't' => popTuple
  | 'u' => genericType
  | 'v' => variableEntity
  | 'w' => valueWitness
  | 'x' => return .typeOf (.genericParameter 0 0)
  | 'y' => return .leaf .emptyList
  | 'z' => wrapTypeChild .inOut
  | '_' => return .leaf .firstElementMarker
  | '.' => suffix
  | _ => do
    pushBack
    identifier

/-- Reads one operator. The bytes 1 to 12 introduce a symbolic reference. -/
def operator : Decoder Node := do
  skipPadding
  let b ← nextByte
  if 1 ≤ b && b ≤ 12 then symbolicReference b else operatorOf (charOfByte b)

end SwiftMangling.Current
