import SwiftMangling.Decoding
import SwiftMangling.Node.Edit

/-!
# The descent decoder

The legacy scheme is written in prefix order and decoded by recursive descent. The recursion goes
through a few productions, `Production`; the rules of the grammar are written against a `Grammar`
that says how these are read, so that no rule is recursive by itself. How deep types and contexts
may be nested is limited.
-/

namespace SwiftMangling.Legacy

/-- The state of the decoder. -/
structure State where
  /-- The place in the input. -/
  cursor : Cursor
  /-- The nodes that references can name. -/
  substitutions : Array Node
  /-- How many types, contexts and enclosed symbols are being read. -/
  depth : Nat

instance : HasCursor State where
  cursor := State.cursor
  withCursor s c := { s with cursor := c }

/-- The state before anything is read. -/
def State.start (input : List UInt8) : State :=
  ⟨Cursor.ofBytes input, #[], 0⟩

/-- The productions through which the grammar is recursive. -/
inductive Production where
  /-- A type. -/
  | type
  /-- A type without the node around it. -/
  | content
  /-- What a declaration stands in. -/
  | context
  /-- An associated type of a chain of archetypes. -/
  | archetype
  /-- A symbol without its prefix. -/
  | global

/-- How the recursive productions are read. -/
structure Grammar where
  parse : Production → Decoding Unit State Node

/-- A step of the descent decoder. -/
abbrev Decoder (α : Type) := Decoding Grammar State α

open Decoding

/-- Reads a recursive production. -/
def production (p : Production) : Decoder Node :=
  fun g s => g.parse p () s

/-- How deep types, contexts and enclosed symbols may be nested. -/
def maxDepth : Nat := 64

/-- Runs `x` one level deeper. The level is left again whether `x` succeeds or not. -/
def nested {α : Type} (x : Decoder α) : Decoder α :=
  fun g s =>
    if maxDepth ≤ s.depth then (none, s)
    else
      let (a, s') := x g { s with depth := s.depth + 1 }
      (a, { s' with depth := s'.depth - 1 })

/-- Makes a node available to later references. -/
def addSubstitution (n : Node) : Decoder Unit :=
  modify fun s => { s with substitutions := s.substitutions.push n }

/-- Makes a node available to later references and returns it. -/
def remember (n : Node) : Decoder Node := do
  addSubstitution n
  return n

/-- Forgets the nodes that references can name. -/
def clearSubstitutions : Decoder Unit :=
  modify fun s => { s with substitutions := #[] }

/-- Reads a type. -/
def type : Decoder Node :=
  production .type

/-- Reads what a declaration stands in. -/
def context : Decoder Node :=
  production .context

/-- Reads an index as a `Number` node. -/
def numberNode : Decoder Node := do
  return .ofIndex .number (UInt64.ofNat (← index))

/-- A node of the given kind around a type. -/
def aroundType (k : Kind) : Decoder Node := do
  return .branch k [← type]

end SwiftMangling.Legacy
