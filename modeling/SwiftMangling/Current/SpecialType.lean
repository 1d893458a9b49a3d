import SwiftMangling.Current.Generic
import SwiftMangling.Current.FunctionType
import SwiftMangling.Code.Metatype

/-!
# Built-in and special types

Types of the built-in module, function types with special conventions, metatypes, existential
types, boxes, and the marks of types.
-/

namespace SwiftMangling.Current

open Decoding

/-- The largest size of a built-in type. -/
def maxBuiltinSize : Nat := 4096

/-- A built-in type. -/
def builtin (s : String) : Node :=
  .typeOf (.builtin s)

/-- Reads the size of a built-in type, which is one less than the index that spells it. -/
def builtinSize : Decoder Nat := do
  let n ← index
  require (2 ≤ n && n - 1 ≤ maxBuiltinSize)
  return n - 1

/-- The name of a built-in type after `Builtin.`. -/
def builtinSuffix? (name : String) : Option String :=
  let start := (Node.builtinName "").toList
  if start.isPrefixOf name.toList then some (String.ofList (name.toList.drop start.length)) else none

/-- Reads a built-in type. -/
def builtinType : Decoder Node := do
  match ← nextChar with
  | 'b' => return builtin "BridgeObject"
  | 'B' => return builtin "UnsafeValueBuffer"
  | 'e' => return builtin "Executor"
  | 'f' => return builtin ("FPIEEE" ++ (← builtinSize).repr)
  | 'i' => return builtin ("Int" ++ (← builtinSize).repr)
  | 'I' => return builtin "IntLiteral"
  | 'v' =>
    let count ← builtinSize
    let element ← popTypeChild
    require (element.kind == .builtinTypeName)
    let name ← ofOption (element.text?.bind builtinSuffix?)
    return builtin ("Vec" ++ count.repr ++ "x" ++ name)
  | 'O' => return builtin "UnknownObject"
  | 'o' => return builtin "NativeObject"
  | 'p' => return builtin "RawPointer"
  | 't' => return builtin "SILToken"
  | 'w' => return builtin "Word"
  | 'c' => return builtin "RawUnsafeContinuation"
  | 'D' => return builtin "DefaultActorStorage"
  | 'j' => return builtin "Job"
  | _ => failure

/-- A type of the given kind around the type on top of the stack. -/
def wrapType (k : Kind) : Decoder Node := do
  return .typeOf (← aroundType k)

/-- A type of the given kind around the content of the type on top of the stack. -/
def wrapTypeChild (k : Kind) : Decoder Node := do
  return .typeOf (.branch k [← popTypeChild])

/-- Reads the representation of a metatype. -/
def metatypeRepresentation : Decoder Node := do
  return .ofText .metatypeRepresentation (← ofOption (Metatype.representation? (← nextChar)))

/-- Reads a metatype with its representation. -/
def representedMetatype (k : Kind) : Decoder Node := do
  let representation ← metatypeRepresentation
  let instanceType ← popKind .type
  return .typeOf (.branch k [representation, instanceType])

/-- A field of a box: mutable if its type is an `inout` type. -/
def boxField? (t : Node) : Option Node := do
  let inner ← t.first?
  if inner.kind == .inOut then
    return .branch .silBoxMutableField [.typeOf (← inner.first?)]
  else return .branch .silBoxImmutableField [t]

/-- Takes the type of a box with a layout, and the generic signature of the layout if it has
one. -/
def boxType (isGeneric : Bool) : Decoder Node := do
  let generics ←
    if isGeneric then
      let signature ← popKind .dependentGenericSignature
      let arguments ← popTypeList
      pure [signature, arguments]
    else pure []
  let types ← popTypeList
  let fields ← ofOption (types.children.mapM boxField?)
  return .typeOf (.branch .silBoxTypeWithLayout (.branch .silBoxLayout fields :: generics))

/-- Reads a special type. -/
def specialType : Decoder Node := do
  match ← nextChar with
  | 'E' => popFunctionType .noEscapeFunctionType false
  | 'A' => popFunctionType .escapingAutoClosureType false
  | 'f' => popFunctionType .thinFunctionType false
  | 'K' => popFunctionType .autoClosureType false
  | 'U' => popFunctionType .uncurriedFunctionType false
  | 'L' => popFunctionType .escapingObjCBlock false
  | 'B' => popFunctionType .objCBlock false
  | 'C' => popFunctionType .cFunctionPointer false
  | 'z' =>
    match ← nextChar with
    | 'B' => popFunctionType .objCBlock true
    | 'C' => popFunctionType .cFunctionPointer true
    | _ => failure
  | 'o' => wrapType .unowned
  | 'u' => wrapType .unmanaged
  | 'w' => wrapType .weak
  | 'b' => wrapType .silBoxType
  | 'D' => wrapType .dynamicSelf
  | 'M' => representedMetatype .metatype
  | 'm' => representedMetatype .existentialMetatype
  | 'p' => wrapType .existentialMetatype
  | 'c' =>
    let superclass ← popKind .type
    let protocols ← popProtocolList
    return .typeOf (.branch .protocolListWithClass [protocols, superclass])
  | 'l' => return .typeOf (.branch .protocolListWithAnyObject [← popProtocolList])
  | 'X' => boxType true
  | 'x' => boxType false
  | 'Y' => nominalType .otherNominalType
  | 'e' => return .typeOf (.leaf .errorType)
  | _ => failure

/-- Reads an annotation of a type. -/
def typeMark : Decoder Node := do
  match ← nextChar with
  | 'a' => return .leaf .asyncMark
  | 'b' => return .leaf .concurrentFunctionType
  | 'c' => return .branch .globalActorFunctionType [← popTypeChild]
  | 'i' => wrapTypeChild .isolated
  | 'j' =>
    let d ← ofOption (Differentiability.ofCode? (← nextChar))
    return .ofPayload .differentiableFunctionType (.differentiability d)
  | 'k' => wrapTypeChild .noDerivative
  | _ => failure

end SwiftMangling.Current
