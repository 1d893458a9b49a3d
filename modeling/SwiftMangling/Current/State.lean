import SwiftMangling.Decoding
import SwiftMangling.Node.Edit

/-!
# The stack decoder

The current scheme is written in postfix order. The decoder reads one operator after the other and
keeps the nodes built so far on a stack; most operators take their operands from that stack. It
also keeps a table of the nodes that later references can name, and a table of the words that later
identifiers can name.
-/

namespace SwiftMangling

/-- A reference inside a symbol to something outside of it. -/
structure Reference where
  /-- What it refers to. -/
  target : ReferenceTarget
  /-- How it refers to it. -/
  directness : Directness
  /-- The signed 32-bit offset of the target. -/
  offset : Int
  /-- The input from the four offset bytes on. -/
  tail : List UInt8
  deriving DecidableEq

/-- Finds the node that a reference refers to. -/
abbrev Resolver := Reference → Option Node

namespace Current

/-- What stays the same while a symbol is decoded. -/
structure Config where
  /-- Whether the labels of function parameters stand inside the types of the parameters. -/
  inlineLabels : Bool
  /-- How symbolic references are resolved; without a resolver they are refused. -/
  resolver : Option Resolver

/-- The state of the decoder. -/
structure State where
  /-- The place in the input. -/
  cursor : Cursor
  /-- The nodes built so far, the top of the stack first. -/
  stack : List Node
  /-- The nodes that references can name. -/
  substitutions : Array Node
  /-- The words that identifiers can name. -/
  words : List String
  /-- The references handed to the resolver so far. -/
  references : Array Reference

instance : HasCursor State where
  cursor := State.cursor
  withCursor s c := { s with cursor := c }

/-- The state before anything is read. -/
def State.start (input : List UInt8) : State :=
  ⟨Cursor.ofBytes input, [], #[], [], #[]⟩

/-- A step of the stack decoder. -/
abbrev Decoder (α : Type) := Decoding Config State α

open Decoding

/-- Puts a node on the stack. -/
def push (n : Node) : Decoder Unit :=
  modify fun s => { s with stack := n :: s.stack }

/-- Puts `count` copies of a node on the stack. -/
def pushCopies (count : Nat) (n : Node) : Decoder Unit :=
  modify fun s => { s with stack := List.replicate count n ++ s.stack }

/-- Takes the node on top of the stack if its kind satisfies `p`. -/
def popWhere (p : Kind → Bool) : Decoder Node :=
  fun _ s =>
    match s.stack with
    | [] => (none, s)
    | n :: rest => if p n.kind then (some n, { s with stack := rest }) else (none, s)

/-- Takes the node on top of the stack. -/
def pop : Decoder Node :=
  popWhere fun _ => true

/-- Takes the node on top of the stack if it has the given kind. -/
def popKind (k : Kind) : Decoder Node :=
  popWhere (· == k)

/-- The node on top of the stack, taken if it has the given kind. -/
def popKind? (k : Kind) : Decoder (Option Node) :=
  attempt (popKind k)

/-- Takes the node on top of the stack if it has the given kind, and tells whether it did. -/
def popMarker (k : Kind) : Decoder Bool := do
  return (← popKind? k).isSome

/-- Takes all nodes, the oldest first. -/
def popAll : Decoder (List Node) :=
  modifyGet fun s => (s.stack.reverse, { s with stack := [] })

/-- The number of nodes on the stack. -/
def stackSize : Decoder Nat :=
  return (← get).stack.length

/-- Takes nodes of the given kind as long as there are any; the oldest is first in the result. -/
def popRun (p : Kind → Bool) : Decoder (List Node) := do
  return (← many (← stackSize) (popWhere p)).reverse

/-- Makes a node available to later references. -/
def addSubstitution (n : Node) : Decoder Unit :=
  modify fun s => { s with substitutions := s.substitutions.push n }

/-- Makes a node available to later references and returns it. -/
def remember (n : Node) : Decoder Node := do
  addSubstitution n
  return n

/-- Takes a type and returns its only child. -/
def popTypeChild : Decoder Node := do
  match (← popKind .type).children with
  | [c] => return c
  | _ => failure

/-- Takes a type and returns its only child, which can be bound to generic arguments. -/
def popBindable : Decoder Node := do
  let n ← popTypeChild
  require n.kind.isBindable
  return n

/-- Takes a module; an identifier names one. -/
def popModule : Decoder Node := do
  match ← popKind? .identifier with
  | some n => return n.withKind .moduleName
  | none => popKind .moduleName

/-- Takes the context of a declaration: a module, a type or another declaration. -/
def popContext : Decoder Node := do
  match ← attempt popModule with
  | some n => return n
  | none =>
    match ← popKind? .type with
    | some n =>
      match n.children with
      | [c] =>
        require c.kind.isContext
        return c
      | _ => failure
    | none => popWhere Kind.isContext

/-- Takes the name of a declaration. -/
def popDeclName : Decoder Node :=
  popWhere Kind.isDeclName

/-- Takes a declaration or a type. -/
def popEntity : Decoder Node :=
  popWhere Kind.isEntity

/-- Takes elements until one was marked as the first, at most `n` of them; `later` are the elements
taken before. -/
def popMarkedFrom (element : Decoder Node) (n : Nat) (later : List Node) : Decoder (List Node) :=
  match n with
  | 0 => failure
  | n + 1 => do
    let isFirst ← popMarker .firstElementMarker
    let e ← element
    if isFirst then return e :: later else popMarkedFrom element n (e :: later)

/-- Takes a list whose first element is marked. -/
def popMarked (element : Decoder Node) : Decoder (List Node) := do
  popMarkedFrom element ((← stackSize) + 1) []

/-- Takes a list: an empty one has a marker of its own, any other one has its first element
marked. -/
def popList (element : Decoder Node) : Decoder (List Node) := do
  if ← popMarker .emptyList then return [] else popMarked element

/-- Takes a list of types. -/
def popTypeList : Decoder Node := do
  return .branch .typeList (← popList (popKind .type))

/-- A node of the given kind around the type on top of the stack. -/
def aroundType (k : Kind) : Decoder Node := do
  return .branch k [← popKind .type]

/-- A node of the given kind around the node on top of the stack. -/
def aroundNode (k : Kind) : Decoder Node := do
  return .branch k [← pop]

/-- A node of the given kind around the declaration or type on top of the stack. -/
def aroundEntity (k : Kind) : Decoder Node := do
  return .branch k [← popEntity]

/-- A node of the given kind around the context on top of the stack. -/
def aroundContext (k : Kind) : Decoder Node := do
  return .branch k [← popContext]

/-- Reads an index as a `Number` node. -/
def numberNode : Decoder Node := do
  return .ofIndex .number (UInt64.ofNat (← index))

end Current

end SwiftMangling
