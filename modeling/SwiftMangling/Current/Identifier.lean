import SwiftMangling.Current.State
import SwiftMangling.Current.Word
import SwiftMangling.Text.Operator
import SwiftMangling.Text.Punycode

/-!
# Identifiers

An identifier is a length and a text of that many bytes. After a `0` it may also name words of
earlier identifiers, a letter for each, with a capital letter for the last word; after `00` its
text is in Punycode.
-/

namespace SwiftMangling.Current

open Decoding

/-- The word that a letter names. -/
def namedWord (c : Char) : Decoder String := do
  let number := if c.isLower then c.toNat - 'a'.toNat else c.toNat - 'A'.toNat
  ofOption (← get).words[number]?

/-- Reads a text with its length in front of it, and adds its words to the table unless it is in
Punycode. -/
def identifierText (punycoded : Bool) : Decoder String := do
  let length ← positive
  if punycoded then
    let _ ← nextIf '_'
    let s ← text length
    ofOption (Punycode.decode? s)
  else
    let s ← text length
    modify fun st => { st with words := Word.harvest st.words s }
    return s

/-- Reads the pieces of an identifier after `read`, at most `n` of them. A letter names a word as
long as `wordsFollow`, and a piece is the last one unless words may follow it. -/
def identifierPieces (punycoded : Bool) (n : Nat) (wordsFollow : Bool) (read : String) :
    Decoder String :=
  match n with
  | 0 => failure
  | n + 1 => do
    if wordsFollow && (← peekChar?).any Char.isAlpha then
      let c ← nextChar
      let word ← namedWord c
      identifierPieces punycoded n c.isLower (read ++ word)
    else if ← nextIf '0' then
      return read
    else
      let piece ← identifierText punycoded
      if wordsFollow then identifierPieces punycoded n true (read ++ piece)
      else return read ++ piece

/-- Reads an identifier and makes it available to later references. -/
def identifier : Decoder Node := do
  require (← peekDigit)
  let hasMark ← nextIf '0'
  let punycoded ← if hasMark then nextIf '0' else pure false
  let s ← identifierPieces punycoded ((← remaining) + 1) (hasMark && !punycoded) ""
  require !s.isEmpty
  remember (.identifier s)

/-- Turns the identifier on top of the stack into the operator that it spells. -/
def operatorName : Decoder Node := do
  let name ← popKind .identifier
  let spelled ← ofOption name.text?
  let operator ← ofOption (OperatorName.decode? spelled)
  let kind : Kind ←
    match ← nextChar with
    | 'i' => pure .infixOperator
    | 'p' => pure .prefixOperator
    | 'P' => pure .postfixOperator
    | _ => failure
  return .ofText kind operator

/-- The letters that mark a declaration as derived from another one. -/
def isRelatedMark (c : Char) : Bool :=
  ('a' ≤ c && c ≤ 'j') || ('A' ≤ c && c ≤ 'J')

/-- Turns the name on top of the stack into a private, related or local one. -/
def localName : Decoder Node := do
  if ← nextIf 'L' then
    let discriminator ← popKind .identifier
    let name ← popDeclName
    return .branch .privateDeclName [discriminator, name]
  if ← nextIf 'l' then
    return .branch .privateDeclName [← popKind .identifier]
  match (← peekChar?).filter isRelatedMark with
  | some c =>
    let _ ← nextByte
    let name ← pop
    return .branch .relatedEntityDeclName [.identifier c.toString, name]
  | none =>
    let discriminator ← numberNode
    let name ← popDeclName
    return .branch .localDeclName [discriminator, name]

end SwiftMangling.Current
