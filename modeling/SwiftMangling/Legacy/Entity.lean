import SwiftMangling.Legacy.Generic

/-!
# Declarations of the legacy scheme

Functions, variables and subscripts with their accessors, initializers and closures, and the
contexts in which declarations stand.
-/

namespace SwiftMangling.Legacy

open Decoding

/-- The kind of declaration that a letter introduces; any other letter introduces a nominal
type. -/
def basicKind? : Char → Option Kind
  | 'F' => some .function
  | 'v' => some .variableDecl
  | 'I' => some .initializer
  | 'i' => some .subscript
  | _ => none

/-- What follows the context of a declaration. -/
inductive Form where
  /-- A declaration without name and type. -/
  | plain (k : Kind)
  /-- A declaration with a type and perhaps a name or a number. -/
  | typed (k : Kind) (name : Option Node)
  /-- A default argument with its number. -/
  | numbered (k : Kind) (number : Node)
  /-- An accessor of the storage with the given name. -/
  | accessor (k : Kind) (name : Node)

/-- Reads which mutable addressor is meant. -/
def mutableAddressor : Decoder Kind := do
  match ← nextChar with
  | 'O' => return .owningMutableAddressor
  | 'o' => return .nativeOwningMutableAddressor
  | 'p' => return .nativePinningMutableAddressor
  | 'u' => return .unsafeMutableAddressor
  | _ => failure

/-- Reads which addressor is meant. -/
def addressor : Decoder Kind := do
  match ← nextChar with
  | 'O' => return .owningAddressor
  | 'o' => return .nativeOwningAddressor
  | 'p' => return .nativePinningAddressor
  | 'u' => return .unsafeAddressor
  | _ => failure

/-- Reads the name of the storage of an accessor. -/
def accessorForm (k : Kind) : Decoder Form := do
  return .accessor k (← declName)

/-- Reads what follows the context of a declaration of the given basic kind. -/
def form (basic : Kind) : Decoder Form := do
  match ← nextChar with
  | 'D' => return .plain .deallocator
  | 'd' => return .plain .destructor
  | 'e' => return .plain .ivarInitializer
  | 'E' => return .plain .ivarDestroyer
  | 'C' => return .typed .allocator none
  | 'c' => return .typed .constructor none
  | 'a' => accessorForm (← mutableAddressor)
  | 'l' => accessorForm (← addressor)
  | 'g' => accessorForm .getter
  | 'G' => accessorForm .globalGetter
  | 's' => accessorForm .setter
  | 'm' => accessorForm .materializeForSet
  | 'w' => accessorForm .willSet
  | 'W' => accessorForm .didSet
  | 'U' => return .typed .explicitClosure (some (← numberNode))
  | 'u' => return .typed .implicitClosure (some (← numberNode))
  | _ =>
    pushBack
    if basic == .initializer then
      if ← nextIf 'A' then return .numbered .defaultArgumentInitializer (← numberNode)
      expect 'i'
      return .plain .initializer
    else return .typed basic (some (← declName))

/-- The name under which the legacy scheme mentions a subscript. -/
def subscriptName : String :=
  "subscript"

/-- Reads the type of the storage of an accessor. Storage named `subscript` is a subscript: that
name is dropped, and the discriminator of a private one stands after the type. -/
def storage (c name : Node) : Decoder Node := do
  if name.kind == .identifier && name.text? == some subscriptName then
    return .branch .subscript [c, ← type]
  else if name.kind == .privateDeclName
      && (name.child? 1).bind Node.text? == some subscriptName then
    let discriminator ← ofOption name.first?
    let t ← type
    return .branch .subscript [c, t, .branch .privateDeclName [discriminator]]
  else
    return .branch .variableDecl [c, name, ← type]

/-- Reads the rest of a declaration that stands in `c`. -/
def formNode (c : Node) : Form → Decoder Node
  | .plain k => return .branch k [c]
  | .numbered k number => return .branch k [c, number]
  | .typed k name => do return .branch k (c :: name.toList ++ [← type])
  | .accessor k name => do return .branch k [← storage c name]

/-- Reads a declaration. -/
def entity : Decoder Node := do
  let isStatic ← nextIf 'Z'
  let first ← ofOption (← peekChar?)
  match basicKind? first with
  | none => nominalType
  | some basic =>
    let _ ← nextByte
    let c ← context
    let f ← form basic
    let n ← formNode c f
    return if isStatic then .branch .staticMember [n] else n

/-- The letters that start a declaration. -/
def isEntityStart : Char → Bool
  | 'F' | 'I' | 'v' | 'P' | 's' | 'Z' | 'C' | 'V' | 'O' => true
  | _ => false

/-- Reads what a declaration stands in: an extension, a module, a type or another declaration. -/
def contextContent : Decoder Node := do
  let c ← ofOption (← peekChar?)
  match c with
  | 'E' =>
    let _ ← nextByte
    let m ← module
    return .branch .extension [m, ← context]
  | 'e' =>
    let _ ← nextByte
    let m ← module
    let signature ← genericSignature
    let extended ← context
    return .branch .extension [m, extended, signature]
  | 'S' =>
    let _ ← nextByte
    substitution
  | 's' =>
    let _ ← nextByte
    return .module Node.standardLibrary
  | 'G' =>
    let _ ← nextByte
    boundGenericType
  | _ => if isEntityStart c then entity else module

/-- Reads what a declaration stands in, one level deeper. -/
def contextRule : Decoder Node :=
  nested contextContent

end SwiftMangling.Legacy
