import SwiftMangling.Node
import SwiftMangling.Options
import SwiftMangling.Render.Error

/-!
# Printers

A printer writes text and may fail. Its setting holds the options, how a symbol inside a payload is
shown, and how a node is printed, so that the rules for single kinds of nodes need not be recursive.
-/

namespace SwiftMangling

namespace Render

/-- What has been written so far. -/
structure Output where
  text : String
  /-- Whether the word `specialized` stands for all specializations of the symbol. -/
  saidSpecialized : Bool

/-- A computation that writes text. -/
abbrev Emit := StateT Output (Except RenderError)

/-- What a rule can refer to. -/
structure Setting where
  /-- The options of the rendering. -/
  options : Options
  /-- How a text that may be a symbol is shown. -/
  embedded : String → String
  /-- Prints a node, as the context of a declaration or by itself. The result is a context that
  still has to be printed after the declaration. -/
  node : Node → Bool → Emit (Option Node)

/-- A rule for printing something. -/
abbrev Printer := ReaderT Setting Emit

/-- Writes a text. -/
def write (s : String) : Printer Unit :=
  modify fun o => { o with text := o.text ++ s }

/-- Writes a number. -/
def writeNumber (n : Nat) : Printer Unit :=
  write n.repr

/-- Whether a flag is on. -/
def flag (f : Flag) : Printer Bool :=
  return (← read).options.has f

/-- How many bytes have been written. -/
def written : Printer Nat :=
  return (← get).text.utf8ByteSize

/-- Prints a node as the context of a declaration. -/
def printContext (n : Node) : Printer (Option Node) :=
  fun s => s.node n true

/-- Prints a node. -/
def print (n : Node) : Printer Unit := do
  let _ ← fun s : Setting => s.node n false

/-- The child at position `i`. -/
def child (n : Node) (i : Nat) : Printer Node :=
  match n.child? i with
  | some c => return c
  | none => throw (.missing n.kind i)

/-- The text that a node carries. -/
def textOf (n : Node) : Printer String :=
  match n.text? with
  | some s => return s
  | none => throw (.invalidPayload n.kind)

/-- The number that a node carries. -/
def indexOf (n : Node) : Printer UInt64 :=
  match n.index? with
  | some i => return i
  | none => throw (.invalidPayload n.kind)

/-- `n + 1`, or `n` if there is no larger 64-bit number. -/
def nextNumber (n : UInt64) : Nat :=
  min (n.toNat + 1) (UInt64.size - 1)

/-- Prints the child at position `i`. -/
def printChild (n : Node) (i : Nat) : Printer Unit := do
  print (← child n i)

/-- Prints the child at position `i` if there is one. -/
def printChildIfAny (n : Node) (i : Nat) : Printer Unit :=
  match n.child? i with
  | some c => print c
  | none => pure ()

/-- Prints nodes with `separator` between them. -/
def printSeparated (separator : String) : List Node → Printer Unit
  | [] => pure ()
  | [n] => print n
  | n :: ns => do
    print n
    write separator
    printSeparated separator ns

/-- Prints the children of a node with `separator` between them. -/
def printChildren (n : Node) (separator : String) : Printer Unit :=
  printSeparated separator n.children

end Render

end SwiftMangling
