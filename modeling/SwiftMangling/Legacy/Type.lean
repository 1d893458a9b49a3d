import SwiftMangling.Legacy.LoweredFunction
import SwiftMangling.Code.Metatype

/-!
# Types of the legacy scheme

Built-in types, tuples, function types, metatypes and boxes.
-/

namespace SwiftMangling.Legacy

open Decoding

/-- Reads the size of a built-in type. -/
def builtinSize : Decoder Nat := do
  let n ← natural
  expect '_'
  return n

/-- Reads the element type of a built-in vector. -/
def vectorElement : Decoder String := do
  match ← nextChar with
  | 'i' => return "Int" ++ (← builtinSize).repr
  | 'f' => return "FPIEEE" ++ (← builtinSize).repr
  | 'p' => return "RawPointer"
  | _ => failure

/-- Reads a built-in type. -/
def builtinType : Decoder Node := do
  match ← nextChar with
  | 'b' => return .builtin "BridgeObject"
  | 'B' => return .builtin "UnsafeValueBuffer"
  | 'f' => return .builtin ("FPIEEE" ++ (← builtinSize).repr)
  | 'i' => return .builtin ("Int" ++ (← builtinSize).repr)
  | 'v' =>
    let count ← natural
    expect 'B'
    return .builtin ("Vec" ++ count.repr ++ "x" ++ (← vectorElement))
  | 'O' => return .builtin "UnknownObject"
  | 'o' => return .builtin "NativeObject"
  | 'p' => return .builtin "RawPointer"
  | 't' => return .builtin "SILToken"
  | 'w' => return .builtin "Word"
  | _ => failure

/-- Reads an element of a tuple: a type with a name in front of it if it has one. -/
def tupleElement : Decoder Node := do
  let name ←
    if (← peekChar?).any fun c => c.isDigit || c == 'o' then do
      pure [← identifier .tupleElementName]
    else pure []
  return .branch .tupleElement (name ++ [← type])

/-- Puts a variadic marker into the last of the given elements. -/
def markLastVariadic (elements : List Node) : List Node :=
  match elements.reverse with
  | [] => []
  | last :: before => (last.insertChild 0 (.leaf .variadicMarker) :: before).reverse

/-- Reads a tuple, the last element of which can be variadic. -/
def tuple (isVariadic : Bool) : Decoder Node := do
  let elements ← manyUntil '_' tupleElement
  return .branch .tuple (if isVariadic then markLastVariadic elements else elements)

/-- A leaf of the given kind, if `b` holds. -/
def leafIf (b : Bool) (k : Kind) : List Node :=
  if b then [.leaf k] else []

/-- Reads a function type of the given kind. -/
def functionType (k : Kind) : Decoder Node := do
  let throws ← nextIf 'z'
  let concurrent ← nextIf 'y'
  let async ← nextIf 'Z'
  let differentiability ←
    if ← nextIf 'D' then
      let d ← ofOption (Differentiability.ofCode? (← nextChar))
      pure [Node.ofPayload .differentiableFunctionType (.differentiability d)]
    else pure []
  let arguments ← type
  let result ← type
  return .branch k
    (leafIf throws .throwsMark ++ leafIf async .asyncMark ++
      leafIf concurrent .concurrentFunctionType ++ differentiability ++
      [.branch .argumentTuple [arguments], .branch .returnType [result]])

/-- Reads a metatype with its representation. -/
def representedMetatype (k : Kind) : Decoder Node := do
  let s ← ofOption (Metatype.representation? (← nextChar))
  return .branch k [.ofText .metatypeRepresentation s, ← type]

/-- Reads a field of a box. -/
def boxField : Decoder Node := do
  match ← nextChar with
  | 'm' => aroundType .silBoxMutableField
  | 'i' => aroundType .silBoxImmutableField
  | _ => failure

/-- Reads the type of a box with a layout, and the generic arguments of the layout if it is
generic. -/
def boxType : Decoder Node := do
  let signature ← if ← nextIf 'G' then some <$> genericSignature else pure none
  let fields ← manyUntil '_' boxField
  let layout := Node.branch .silBoxLayout fields
  match signature with
  | none => return .branch .silBoxTypeWithLayout [layout]
  | some signature =>
    let arguments ← manyUntil '_' type
    return .branch .silBoxTypeWithLayout [layout, signature, .branch .typeList arguments]

/-- Reads a special type. -/
def specialType : Decoder Node := do
  match ← nextChar with
  | 'b' => aroundType .silBoxType
  | 'B' => boxType
  | 'M' => representedMetatype .metatype
  | 'P' => if ← nextIf 'M' then representedMetatype .existentialMetatype else protocolList
  | 'f' => functionType .thinFunctionType
  | 'o' => aroundType .unowned
  | 'u' => aroundType .unmanaged
  | 'w' => aroundType .weak
  | 'F' => loweredFunctionType
  | _ => failure

/-- Reads a type, without the node around it. -/
def contentRule : Decoder Node := do
  match ← nextChar with
  | 'B' => builtinType
  | 'a' => declaration .typeAlias
  | 'b' => functionType .objCBlock
  | 'c' => functionType .cFunctionPointer
  | 'D' => aroundType .dynamicSelf
  | 'E' =>
    require (← nextIfText "RR")
    return .leaf .errorType
  | 'F' => functionType .functionType
  | 'f' => functionType .uncurriedFunctionType
  | 'G' => boundGenericType
  | 'K' => functionType .autoClosureType
  | 'M' => aroundType .metatype
  | 'P' => if ← nextIf 'M' then aroundType .existentialMetatype else protocolList
  | 'Q' => if ← nextIf 'u' then return .leaf .opaqueReturnType else production .archetype
  | 'q' => dependentType
  | 'x' => return .genericParameter 0 0
  | 'w' => associatedType
  | 'W' => associatedTypePath
  | 'R' => return .branch .inOut [← production .content]
  | 'k' => return .branch .noDerivative [← production .content]
  | 'S' => substitution
  | 'T' => tuple false
  | 't' => tuple true
  | 'u' =>
    let signature ← genericSignature
    return .branch .dependentGenericType [signature, ← type]
  | 'X' => specialType
  | 'C' => declaration .classType
  | 'V' => declaration .structureType
  | 'O' => declaration .enumType
  | _ => failure

/-- Reads a type one level deeper. -/
def typeRule : Decoder Node := do
  return .typeOf (← nested contentRule)

end SwiftMangling.Legacy
