import SwiftMangling.Current.Conformance
import SwiftMangling.Current.FunctionType

/-!
# Declarations

Functions, variables, subscripts and their accessors, initializers, closures and extensions.
-/

namespace SwiftMangling.Current

open Decoding

/-- Takes an extension: the module it stands in and the type it extends. -/
def extensionContext : Decoder Node := do
  let signature ← popKind? .dependentGenericSignature
  let module ← popModule
  let extended ← popBindable
  return .branch .extension ([module, extended] ++ signature.toList)

/-- Takes a function. -/
def plainFunction : Decoder Node := do
  let signature ← popKind? .dependentGenericSignature
  let t ← popFunctionType .functionType false
  let (labels, t) ← popLabels (some t)
  let t ← ofOption t
  let name ← popDeclName
  let context ← popContext
  return .branch .function ([context, name] ++ labels.toList ++ [withSignature signature t])

/-- Takes a declaration with a name and a type. -/
def namedEntity (k : Kind) : Decoder Node := do
  let t ← popKind? .type
  let (labels, t) ← popLabels t
  let name ← popDeclName
  let context ← popContext
  let t ← ofOption t
  return .branch k ([context, name] ++ labels.toList ++ [t])

/-- Takes a declaration with a type and perhaps a private name. -/
def typedEntity (k : Kind) : Decoder Node := do
  let privateName ← popKind? .privateDeclName
  let t ← popKind? .type
  let (labels, t) ← popLabels t
  let context ← popContext
  let t ← ofOption t
  return .branch k (context :: labels.toList ++ [t] ++ privateName.toList)

/-- Reads the number of a closure and takes its type and its context. -/
def closure (k : Kind) : Decoder Node := do
  let number ← numberNode
  let t ← popKind? .type
  let context ← popContext
  return .branch k [context, number, ← ofOption t]

/-- Reads the number of a default argument and takes its function. -/
def defaultArgument : Decoder Node := do
  let number ← numberNode
  return .branch .defaultArgumentInitializer [← popContext, number]

/-- Reads a declaration that has no name of its own. -/
def functionEntity : Decoder Node := do
  match ← nextChar with
  | 'D' => aroundContext .deallocator
  | 'd' => aroundContext .destructor
  | 'E' => aroundContext .ivarDestroyer
  | 'e' => aroundContext .ivarInitializer
  | 'i' => aroundContext .initializer
  | 'C' => typedEntity .allocator
  | 'c' => typedEntity .constructor
  | 'U' => closure .explicitClosure
  | 'u' => closure .implicitClosure
  | 'A' => defaultArgument
  | 'p' => namedEntity .genericTypeParamDecl
  | 'P' => aroundContext .propertyWrapperBackingInitializer
  | 'W' => aroundContext .propertyWrapperInitFromProjectedValue
  | _ => failure

/-- Reads which accessor of `storage` is meant, or that the storage itself is. -/
def accessor (storage : Node) : Decoder Node := do
  match ← nextChar with
  | 'm' => return .branch .materializeForSet [storage]
  | 's' => return .branch .setter [storage]
  | 'g' => return .branch .getter [storage]
  | 'G' => return .branch .globalGetter [storage]
  | 'w' => return .branch .willSet [storage]
  | 'W' => return .branch .didSet [storage]
  | 'r' => return .branch .readAccessor [storage]
  | 'M' => return .branch .modifyAccessor [storage]
  | 'a' =>
    match ← nextChar with
    | 'O' => return .branch .owningMutableAddressor [storage]
    | 'o' => return .branch .nativeOwningMutableAddressor [storage]
    | 'p' => return .branch .nativePinningMutableAddressor [storage]
    | 'u' => return .branch .unsafeMutableAddressor [storage]
    | _ => failure
  | 'l' =>
    match ← nextChar with
    | 'O' => return .branch .owningAddressor [storage]
    | 'o' => return .branch .nativeOwningAddressor [storage]
    | 'p' => return .branch .nativePinningAddressor [storage]
    | 'u' => return .branch .unsafeAddressor [storage]
    | _ => failure
  | 'p' => return storage
  | _ => failure

/-- Reads a variable or one of its accessors. -/
def variableEntity : Decoder Node := do
  accessor (← namedEntity .variableDecl)

/-- Reads a subscript or one of its accessors. -/
def subscriptEntity : Decoder Node := do
  accessor (← typedEntity .subscript)

end SwiftMangling.Current
