import SwiftMangling.Text.Utf8

/-!
# Byte cursors

A cursor is a byte string with a place in it: the bytes already read, last first, and the bytes
still to come. Every operation returns its result together with the cursor that it leaves behind,
because some operations move the cursor although they fail.

Places are numbers of 64 bits. A distance is added to a place modulo `2 ^ 64`, so a distance close
to `2 ^ 64` leads back.
-/

namespace SwiftMangling

/-- A byte string and a place in it. -/
structure Cursor where
  /-- The bytes already read, the last one first. -/
  before : List UInt8
  /-- The bytes still to come. -/
  rest : List UInt8
  deriving DecidableEq, Inhabited

namespace Cursor

/-- The cursor at the start of `bytes`. -/
def ofBytes (bytes : List UInt8) : Cursor :=
  ⟨[], bytes⟩

/-- The whole byte string, read or not. -/
def bytes (c : Cursor) : List UInt8 :=
  c.before.reverse ++ c.rest

/-- How many bytes have been read. -/
def position (c : Cursor) : Nat :=
  c.before.length

/-- Whether nothing is left to read. -/
def isAtEnd (c : Cursor) : Bool :=
  c.rest.isEmpty

/-- Moves over `n` bytes, or to the end if there are fewer. -/
def skip (c : Cursor) : Nat → Cursor
  | 0 => c
  | n + 1 =>
    match c.rest with
    | [] => c
    | b :: r => skip ⟨b :: c.before, r⟩ n

/-- The place at the distance `n`, modulo `2 ^ 64`. -/
def placeAt (c : Cursor) (n : Nat) : Nat :=
  (c.position + n) % UInt64.size

/-- Moves to a place, or to the end if the place is beyond it. -/
def moveTo (c : Cursor) (place : Nat) : Cursor :=
  ⟨(c.bytes.take place).reverse, c.bytes.drop place⟩

/-- Moves to the place at the distance `n`, or to the end if that place is beyond it. -/
def advance (c : Cursor) (n : Nat) : Cursor :=
  c.moveTo (c.placeAt n)

/-- The next byte, which stays unread. -/
def peek? (c : Cursor) : Option UInt8 :=
  c.rest.head?

/-- The byte at the distance `n`, without moving. -/
def peekAt? (c : Cursor) (n : Nat) : Option UInt8 :=
  c.bytes[c.placeAt n]?

/-- Reads one byte. -/
def next (c : Cursor) : Option UInt8 × Cursor :=
  match c.rest with
  | [] => (none, c)
  | b :: r => (some b, ⟨b :: c.before, r⟩)

/-- Reads one byte if it satisfies `p`. -/
def nextWhere (c : Cursor) (p : UInt8 → Bool) : Option UInt8 × Cursor :=
  match c.rest with
  | [] => (none, c)
  | b :: r => if p b then (some b, ⟨b :: c.before, r⟩) else (none, c)

/-- Reads `b` if it comes next. -/
def nextIf (c : Cursor) (b : UInt8) : Bool × Cursor :=
  let (found, c) := c.nextWhere (· == b)
  (found.isSome, c)

/-- Reads one byte if it is among `candidates`. -/
def nextIfAny (c : Cursor) (candidates : List UInt8) : Option UInt8 × Cursor :=
  c.nextWhere candidates.contains

/-- Reads `s` if the bytes still to come start with it. -/
def nextIfBytes (c : Cursor) (s : List UInt8) : Bool × Cursor :=
  if s.isPrefixOf c.rest then (true, c.skip s.length) else (false, c)

/-- Steps back over the byte read last. -/
def pushBack (c : Cursor) : Bool × Cursor :=
  match c.before with
  | [] => (false, c)
  | b :: l => (true, ⟨l, b :: c.rest⟩)

/-- Reads everything that is left. -/
def takeRest (c : Cursor) : List UInt8 × Cursor :=
  (c.rest, c.skip c.rest.length)

/-- Reads exactly `n` bytes. -/
def slice (c : Cursor) (n : Nat) : Option (List UInt8) × Cursor :=
  if n ≤ c.rest.length then (some (c.rest.take n), c.skip n) else (none, c)

/-- Reads exactly `n` bytes of well-formed text. -/
def text (c : Cursor) (n : Nat) : Option String × Cursor :=
  match c.slice n with
  | (some b, c') =>
    match Utf8.decode? b with
    | some s => (some s, c')
    | none => (none, c)
  | (none, c') => (none, c')

/-- The bytes `0` to `9`. -/
def isDigit (b : UInt8) : Bool :=
  0x30 ≤ b && b ≤ 0x39

/-- Whether a digit comes next. -/
def peekDigit (c : Cursor) : Bool :=
  c.peek?.any isDigit

/-- Reads digits as long as the value, which starts at `value`, stays below `bound`. A digit that
would reach `bound` stays unread. -/
def digits (bound : Nat) (value : Nat) (before : List UInt8) : List UInt8 → Option Nat × Cursor
  | [] => (some value, ⟨before, []⟩)
  | b :: r =>
    if isDigit b then
      let value := value * 10 + (b.toNat - 0x30)
      if value < bound then digits bound value (b :: before) r else (none, ⟨before, b :: r⟩)
    else (some value, ⟨before, b :: r⟩)

/-- Reads a decimal number below `2 ^ width`, of at least one digit. -/
def natural (c : Cursor) (width : Nat) : Option Nat × Cursor :=
  if c.peekDigit then digits (1 <<< width) 0 c.before c.rest else (none, c)

/-- Reads an index: `_` is 0, and a decimal number followed by `_` is that number plus 1. The index
itself is below `2 ^ 64`. -/
def index (c : Cursor) : Option Nat × Cursor :=
  match c.nextIf 0x5F with
  | (true, c) => (some 0, c)
  | (false, c) =>
    match c.natural 64 with
    | (none, c) => (none, c)
    | (some n, c) =>
      match c.nextIf 0x5F with
      | (true, c) => (if n + 1 < UInt64.size then some (n + 1) else none, c)
      | (false, c) => (none, c)

/-- Runs `f` and returns to where it started if it fails. -/
def attempt {α : Type} (c : Cursor) (f : Cursor → Option α × Cursor) : Option α × Cursor :=
  match f c with
  | (some a, c') => (some a, c')
  | (none, _) => (none, c)

end Cursor

end SwiftMangling
