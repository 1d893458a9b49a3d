import SwiftMangling.Current.State

/-!
# Substitutions and references

Nodes seen before are named by their position in the table of substitutions, common types of the
standard library by a letter, and things outside of the symbol by a symbolic reference.
-/

namespace SwiftMangling.Current

open Decoding

/-- How often a single reference can repeat a node. -/
def maxRepeatCount : Nat := 2048

/-- The node at position `i` of the table. -/
def substitution (i : Nat) : Decoder Node := do
  ofOption (← get).substitutions[i]?

/-- The node at position `i`; a repeat count puts all of its copies but one on the stack. -/
def repeated (count : Option Nat) (i : Nat) : Decoder Node := do
  let n ← substitution i
  let count := count.getD 0
  require (count ≤ maxRepeatCount)
  pushCopies (count - 1) n
  return n

/-- Reads references to the table, at most `n` steps of them. A small letter names a node and goes
on, a capital letter names the last one, and a number is the repeat count of what follows, or a
position from 27 on if `_` follows. -/
def substitutionsFrom (n : Nat) (count : Option Nat) : Decoder Node :=
  match n with
  | 0 => failure
  | n + 1 => do
    let c ← nextChar
    if c.isLower then
      push (← repeated count (c.toNat - 'a'.toNat))
      substitutionsFrom n none
    else if c.isUpper then
      repeated count (c.toNat - 'A'.toNat)
    else if c == '_' then
      substitution (count.elim 26 (· + 27))
    else
      pushBack
      substitutionsFrom n (some (← natural))

/-- Reads references to the table. -/
def substitutionReference : Decoder Node := do
  substitutionsFrom ((← remaining) + 1) none

/-- An optional of the given type. -/
def optionalOf (wrapped : Node) : Node :=
  .typeOf (.branch .boundGenericEnum
    [.standardType .enumType "Optional", .branch .typeList [wrapped]])

/-- Reads a reference to the standard library. -/
def standardSubstitution : Decoder Node := do
  match ← nextChar with
  | 'o' => return .module Node.importedModule
  | 'C' => return .module "__C_Synthesized"
  | 'g' =>
    let wrapped ← popKind .type
    remember (optionalOf wrapped)
  | _ =>
    pushBack
    let count ← if ← peekDigit then natural else pure 0
    require (count ≤ maxRepeatCount)
    let found ←
      if ← nextIf 'c' then pure (StandardType.lookupConcurrency? (← nextChar))
      else pure (StandardType.lookup? (← nextChar))
    let t ← ofOption found
    let n := Node.standardType t.kind t.name
    pushCopies (count - 1) n
    return n

/-- The signed number that four bytes spell, the lowest first. -/
def signedOfBytes (bs : List UInt8) : Int :=
  Int.bmod (bs.foldr (fun b n => b.toNat + 256 * n) 0 : Nat) UInt32.size

/-- Hands a reference to the resolver, if there is one. -/
def resolve (r : Reference) : Decoder Node := do
  match (← read).resolver with
  | none => failure
  | some resolver =>
    modify fun s => { s with references := s.references.push r }
    ofOption (resolver r)

/-- Reads a symbolic reference that the byte `control` introduces. A resolved context becomes
available to later references, unless it describes an opaque type. -/
def symbolicReference (control : UInt8) : Decoder Node := do
  let tail ← look Cursor.rest
  let offset := signedOfBytes (← slice 4)
  let (target, directness) ← ofOption (ReferenceTarget.ofControlByte? control)
  let n ← resolve ⟨target, directness, offset, tail⟩
  if target == .context && n.kind != .opaqueTypeDescriptorSymbolicReference
      && n.kind != .opaqueReturnTypeOf then
    addSubstitution n
  return n

end SwiftMangling.Current
