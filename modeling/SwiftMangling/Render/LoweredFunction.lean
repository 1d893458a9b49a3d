import SwiftMangling.Render.FunctionType

/-!
# Lowered function types

A lowered function type is printed in three sections: attributes, parameters and results. Items
that would go back to an earlier section are refused.
-/

namespace SwiftMangling.Render

/-- The sections of a lowered function type. -/
inductive Section where
  | attributes
  | inputs
  | results
  deriving DecidableEq

/-- The place of a section. -/
def Section.number : Section → Nat
  | .attributes => 0
  | .inputs => 1
  | .results => 2

/-- How far a lowered function type has been printed. -/
structure LoweredState where
  current : Section
  pattern : Option Node
  invocation : Option Node

/-- Writes what stands between the section reached so far and `target`. -/
def enterSection (s : LoweredState) (target : Section) : Printer Unit := do
  if s.current == .attributes then
    match s.pattern with
    | some p =>
      write "@substituted "
      printChild p 0
      write " "
    | none => pure ()
    write "("
  if target == .results then write ") -> ("

/-- Prints a parameter or a result. -/
def printItem (s : LoweredState) (target : Section) (item : Node) : Printer LoweredState := do
  if target.number < s.current.number then throw (.unexpectedKind item.kind)
  if target == s.current then write ", " else enterSection s target
  print item
  return { s with current := target }

/-- Prints one part of a lowered function type; substitutions are kept for the end. -/
def printLoweredPart (s : LoweredState) (item : Node) : Printer LoweredState := do
  match item.kind with
  | .implParameter => printItem s .inputs item
  | .implResult | .implYield | .implErrorResult => printItem s .results item
  | .implPatternSubstitutions => return { s with pattern := some item }
  | .implInvocationSubstitutions => return { s with invocation := some item }
  | k =>
    if s.current != .attributes then throw (.unexpectedKind k)
    print item
    write " "
    return s

/-- Prints the types in the child at position `i` of substitutions, if there are any. -/
def printSubstitutions (substitutions : Option Node) (i : Nat) : Printer Unit :=
  match substitutions with
  | some n => do
    write " for <"
    printChildren (← child n i) ", "
    write ">"
  | none => pure ()

/-- Prints a lowered function type. -/
def printLoweredFunctionType (n : Node) : Printer Unit := do
  let s ← n.children.foldlM printLoweredPart ⟨.attributes, none, none⟩
  if s.current != .results then enterSection s .results
  write ")"
  printSubstitutions s.pattern 1
  printSubstitutions s.invocation 0

/-- Prints a parameter or result: convention, mark and type. -/
def printLoweredItem (n : Node) : Printer Unit := do
  printChild n 0
  write " "
  if n.count == 3 then printChild n 1
  printChild n (n.count - 1)

/-- Prints a calling convention. -/
def printCallingConvention (n : Node) : Printer Unit := do
  write "@convention("
  write (← textOf (← child n 0))
  match n.child? 1 with
  | some t =>
    write ", mangledCType: \""
    print t
    write "\""
  | none => pure ()
  write ")"

/-- Prints the mark of a parameter or result, with a space after it. -/
def printMark (n : Node) : Printer Unit := do
  let s ← textOf n
  if !s.isEmpty then write (s ++ " ")

end SwiftMangling.Render
