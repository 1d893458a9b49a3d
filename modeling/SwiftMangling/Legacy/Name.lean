import SwiftMangling.Legacy.State
import SwiftMangling.Text.Operator
import SwiftMangling.Text.Punycode

/-!
# Names and references of the legacy scheme

Identifiers, the names of declarations, references to nodes seen before, modules and protocols.
-/

namespace SwiftMangling.Legacy

open Decoding

/-- Reads which kind of operator an identifier names, if it names one. -/
def operatorKind (k : Kind) : Decoder (Option Kind) := do
  if ← nextIf 'o' then
    require (k == .identifier)
    match ← nextChar with
    | 'p' => return some .prefixOperator
    | 'P' => return some .postfixOperator
    | 'i' => return some .infixOperator
    | _ => failure
  else return none

/-- Reads an identifier as a node of kind `k`: a length and a text of that many bytes, after `X` in
Punycode. Only a plain identifier can be an operator. -/
def identifier (k : Kind) : Decoder Node := do
  let punycoded ← nextIf 'X'
  let operator ← operatorKind k
  let s ← text (← natural)
  let s ← if punycoded then ofOption (Punycode.decode? s) else pure s
  require !s.isEmpty
  match operator with
  | none => return .ofText k s
  | some k => return .ofText k (← ofOption (OperatorName.decode? s))

/-- Reads the text of an identifier. -/
def identifierText : Decoder String := do
  ofOption (← identifier .identifier).text?

/-- Reads the name of a declaration, which can be local or private. -/
def declName : Decoder Node := do
  if ← nextIf 'L' then
    let discriminator ← numberNode
    return .branch .localDeclName [discriminator, ← identifier .identifier]
  if ← nextIf 'P' then
    let discriminator ← identifier .identifier
    return .branch .privateDeclName [discriminator, ← identifier .identifier]
  identifier .identifier

/-- A nominal type of the standard library. -/
def standardNominal (k : Kind) (name : String) : Node :=
  .branch k [.module Node.standardLibrary, .identifier name]

/-- The nodes that a single letter stands for. -/
def standardNode? : Char → Option Node
  | 'o' => some (.module Node.importedModule)
  | 'C' => some (.module "__C_Synthesized")
  | 'a' => some (standardNominal .structureType "Array")
  | 'b' => some (standardNominal .structureType "Bool")
  | 'c' => some (standardNominal .structureType "UnicodeScalar")
  | 'd' => some (standardNominal .structureType "Double")
  | 'f' => some (standardNominal .structureType "Float")
  | 'i' => some (standardNominal .structureType "Int")
  | 'V' => some (standardNominal .structureType "UnsafeRawPointer")
  | 'v' => some (standardNominal .structureType "UnsafeMutableRawPointer")
  | 'P' => some (standardNominal .structureType "UnsafePointer")
  | 'p' => some (standardNominal .structureType "UnsafeMutablePointer")
  | 'q' => some (standardNominal .enumType "Optional")
  | 'Q' => some (standardNominal .enumType "ImplicitlyUnwrappedOptional")
  | 'R' => some (standardNominal .structureType "UnsafeBufferPointer")
  | 'r' => some (standardNominal .structureType "UnsafeMutableBufferPointer")
  | 'S' => some (standardNominal .structureType "String")
  | 'u' => some (standardNominal .structureType "UInt")
  | _ => none

/-- Reads a reference to the standard library or to a node seen before. -/
def substitution : Decoder Node := do
  let c ← ofOption (← peekChar?)
  match standardNode? c with
  | some n =>
    let _ ← nextByte
    return n
  | none =>
    let i ← index
    ofOption (← get).substitutions[i]?

/-- Reads a module. -/
def module : Decoder Node := do
  if ← nextIf 's' then return .module Node.standardLibrary
  if ← nextIf 'S' then
    let n ← substitution
    require (n.kind == .moduleName)
    return n
  remember (← identifier .moduleName)

/-- Reads a declaration of the given kind: its context and its name. -/
def declaration (k : Kind) : Decoder Node := do
  let c ← context
  let name ← declName
  remember (.branch k [c, name])

/-- Reads the name of a protocol that stands in `c`. -/
def protocolIn (c : Node) : Decoder Node := do
  remember (.branch .protocolType [c, ← declName])

/-- Reads a protocol. A reference names the protocol itself or its module. -/
def protocolNode : Decoder Node := do
  if ← nextIf 'S' then
    let n ← substitution
    match n.kind with
    | .protocolType => return n
    | .moduleName => protocolIn n
    | _ => failure
  else if ← nextIf 's' then protocolIn (.module Node.standardLibrary)
  else declaration .protocolType

/-- Reads a protocol as a type. -/
def protocol : Decoder Node := do
  return .typeOf (← protocolNode)

/-- Reads a list of protocols. -/
def protocolList : Decoder Node := do
  return .branch .protocolList [.branch .typeList (← manyUntil '_' protocol)]

/-- Reads a conformance: a type, a protocol and the context of the conformance. -/
def conformance : Decoder Node := do
  let t ← type
  let p ← protocol
  let c ← context
  return .branch .protocolConformance [t, p, c]

/-- A node of the given kind around a conformance. -/
def aroundConformance (k : Kind) : Decoder Node := do
  return .branch k [← conformance]

end SwiftMangling.Legacy
