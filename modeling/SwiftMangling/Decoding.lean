import SwiftMangling.Cursor

/-!
# Decodings

A decoding has a context, changes a state and may fail. A failing one keeps the state that it has
reached, because what a failed decoder leaves behind can still be looked at. The states of the
decoders hold a cursor, and the readings below are the cursor's operations on it.
-/

namespace SwiftMangling

/-- A computation with a context `ρ` and a state `σ` that may fail. -/
def Decoding (ρ σ α : Type) : Type :=
  ρ → σ → Option α × σ

namespace Decoding

variable {ρ σ α β : Type}

instance : Monad (Decoding ρ σ) where
  pure a := fun _ s => (some a, s)
  bind x f := fun r s =>
    match x r s with
    | (some a, s) => f a r s
    | (none, s) => (none, s)

instance : LawfulMonad (Decoding ρ σ) :=
  LawfulMonad.mk' (Decoding ρ σ)
    (fun x => funext fun r => funext fun s => by
      simp only [Functor.map]
      rcases x r s with ⟨_ | _, _⟩ <;> rfl)
    (fun _ _ => rfl)
    (fun x _ _ => funext fun r => funext fun s => by
      simp only [bind]
      rcases x r s with ⟨_ | _, _⟩ <;> rfl)

/-- The decoding that fails. -/
def fail : Decoding ρ σ α :=
  fun _ s => (none, s)

/-- Runs `x`, and runs `y` in the state that `x` leaves behind if it fails. -/
def orElse (x : Decoding ρ σ α) (y : Unit → Decoding ρ σ α) : Decoding ρ σ α :=
  fun r s =>
    match x r s with
    | (some a, s) => (some a, s)
    | (none, s) => y () r s

instance : Alternative (Decoding ρ σ) where
  failure := fail
  orElse := orElse

instance : MonadStateOf σ (Decoding ρ σ) where
  get := fun _ s => (some s, s)
  set s := fun _ _ => (some (), s)
  modifyGet f := fun _ s =>
    let (a, s) := f s
    (some a, s)

instance : MonadReaderOf ρ (Decoding ρ σ) where
  read := fun r s => (some r, s)

/-- Runs `x`, which counts as done even if it fails. -/
def attempt (x : Decoding ρ σ α) : Decoding ρ σ (Option α) :=
  fun r s =>
    let (a, s) := x r s
    (some a, s)

/-- The value of `a`, or failure. -/
def ofOption (a : Option α) : Decoding ρ σ α :=
  fun _ s => (a, s)

/-- Fails unless `b` holds. -/
def require (b : Bool) : Decoding ρ σ Unit :=
  if b then pure () else fail

/-- Runs `x` as long as it succeeds, at most `n` times, and collects the results. -/
def many (n : Nat) (x : Decoding ρ σ α) : Decoding ρ σ (List α) :=
  match n with
  | 0 => pure []
  | n + 1 => do
    match ← attempt x with
    | none => return []
    | some a => return a :: (← many n x)

end Decoding

/-- States with a cursor. -/
class HasCursor (σ : Type) where
  /-- The cursor of a state. -/
  cursor : σ → Cursor
  /-- The state with another cursor. -/
  withCursor : σ → Cursor → σ

namespace Decoding

variable {ρ σ α : Type} [HasCursor σ]

/-- Performs a cursor operation that may fail. -/
def scan (f : Cursor → Option α × Cursor) : Decoding ρ σ α :=
  fun _ s =>
    let (a, c) := f (HasCursor.cursor s)
    (a, HasCursor.withCursor s c)

/-- Performs a cursor operation that cannot fail. -/
def move (f : Cursor → α × Cursor) : Decoding ρ σ α :=
  scan fun c =>
    let (a, c) := f c
    (some a, c)

/-- Looks at the cursor. -/
def look (f : Cursor → α) : Decoding ρ σ α :=
  fun _ s => (some (f (HasCursor.cursor s)), s)

/-- The character whose number is the value of a byte. -/
def charOfByte (b : UInt8) : Char :=
  Char.ofNat b.toNat

/-- Reads one byte. -/
def nextByte : Decoding ρ σ UInt8 :=
  scan Cursor.next

/-- Reads one byte as a character. -/
def nextChar : Decoding ρ σ Char :=
  do return charOfByte (← nextByte)

/-- The next byte as a character, which stays unread. -/
def peekChar? : Decoding ρ σ (Option Char) :=
  look fun c => c.peek?.map charOfByte

/-- Whether a digit comes next. -/
def peekDigit : Decoding ρ σ Bool :=
  look Cursor.peekDigit

/-- Whether nothing is left to read. -/
def atEnd : Decoding ρ σ Bool :=
  look Cursor.isAtEnd

/-- How many bytes are left to read. -/
def remaining : Decoding ρ σ Nat :=
  look fun c => c.rest.length

/-- Reads `c` if it comes next. -/
def nextIf (c : Char) : Decoding ρ σ Bool :=
  move fun cur => cur.nextIf c.toUInt8

/-- Reads `s` if it comes next. -/
def nextIfText (s : String) : Decoding ρ σ Bool :=
  move fun cur => cur.nextIfBytes (Utf8.encode s)

/-- Reads `c`, or fails. -/
def expect (c : Char) : Decoding ρ σ Unit := do
  require (← nextIf c)

/-- Steps back over the byte read last. -/
def pushBack : Decoding ρ σ Unit :=
  move fun c => ((), c.pushBack.2)

/-- Reads everything that is left. -/
def takeRest : Decoding ρ σ (List UInt8) :=
  move Cursor.takeRest

/-- Reads `n` bytes. -/
def slice (n : Nat) : Decoding ρ σ (List UInt8) :=
  scan (·.slice n)

/-- Reads a text of `n` bytes. -/
def text (n : Nat) : Decoding ρ σ String :=
  scan (·.text n)

/-- Reads a 64-bit decimal number. -/
def natural : Decoding ρ σ Nat :=
  scan (·.natural 64)

/-- Reads a 64-bit decimal number other than 0. -/
def positive : Decoding ρ σ Nat := do
  let n ← natural
  require (n != 0)
  return n

/-- Reads an index. -/
def index : Decoding ρ σ Nat :=
  scan Cursor.index

/-- `n + 1`, if it fits into 64 bits. -/
def successor (n : Nat) : Decoding ρ σ Nat := do
  require (n + 1 < UInt64.size)
  return n + 1

/-- Reads the bytes that satisfy `p`, up to the first that does not. -/
def takeBytesWhile (p : UInt8 → Bool) : Decoding ρ σ (List UInt8) :=
  move fun c =>
    let run := c.rest.takeWhile p
    (run, c.skip run.length)

/-- Reads the bytes that satisfy `p`, up to the first that does not, as characters. -/
def takeWhile (p : UInt8 → Bool) : Decoding ρ σ (List Char) := do
  return (← takeBytesWhile p).map charOfByte

/-- Runs `x` until `c` comes next, which is then read, at most `n` times. -/
def manyUntilFrom (n : Nat) (c : Char) (x : Decoding ρ σ α) : Decoding ρ σ (List α) :=
  match n with
  | 0 => fail
  | n + 1 => do
    if ← nextIf c then return []
    let a ← x
    return a :: (← manyUntilFrom n c x)

/-- Runs `x` until `c` comes next, which is then read. Every run of `x` that succeeds has to read
something. -/
def manyUntil (c : Char) (x : Decoding ρ σ α) : Decoding ρ σ (List α) := do
  manyUntilFrom ((← remaining) + 1) c x

end Decoding

end SwiftMangling
