import SwiftMangling.Render.Printer

/-!
# Function types

Function types are printed with their conventions and marks in front, then the parameters,
with the labels of a declared function, and then effects and result.
-/

namespace SwiftMangling.Render

/-- The attribute of a differentiable function type. -/
def differentiableAttribute : Differentiability → Printer String
  | .forward => return "@differentiable(_forward)"
  | .reverse => return "@differentiable(reverse)"
  | .linear => return "@differentiable(_linear)"
  | .normal => return "@differentiable"
  | .nonDifferentiable => throw .invalidDifferentiability

/-- The differentiability that a node carries. -/
def differentiabilityOf (n : Node) : Printer Differentiability :=
  match n.payload with
  | .differentiability d => return d
  | _ => throw (.invalidPayload n.kind)

/-- Prints a convention, with the spelling of a foreign type if the first child is one. -/
def printConvention (name : String) (f : Node) : Printer Unit := do
  write ("@convention(" ++ name)
  match f.first? with
  | some c =>
    if c.kind == .clangType then
      write ", mangledCType: \""
      print c
      write "\""
  | none => pure ()
  write ") "

/-- Prints what the kind of a function type puts in front of it. -/
def printFunctionKind (f : Node) : Printer Unit :=
  match f.kind with
  | .autoClosureType | .escapingAutoClosureType => write "@autoclosure "
  | .thinFunctionType => write "@convention(thin) "
  | .cFunctionPointer => printConvention "c" f
  | .escapingObjCBlock => do
    write "@escaping "
    printConvention "block" f
  | .objCBlock => printConvention "block" f
  | _ => pure ()

/-- The marks found on a function type. -/
structure Marks where
  differentiability : Option Differentiability
  isSendable : Bool
  isAsync : Bool
  isThrowing : Bool

/-- Takes note of an annotation; a global actor is printed at once. -/
def noteMark (found : Marks) (n : Node) : Printer Marks := do
  match n.kind with
  | .globalActorFunctionType =>
    print n
    return found
  | .differentiableFunctionType =>
    return { found with differentiability := some (← differentiabilityOf n) }
  | .concurrentFunctionType => return { found with isSendable := true }
  | .asyncMark => return { found with isAsync := true }
  | .throwsMark => return { found with isThrowing := true }
  | _ => return found

/-- Writes the label of the parameter at position `i` of a tuple. -/
def printLabel (labels : Option Node) (parameter : Node) (i : Nat) (showTypes : Bool) :
    Printer Unit := do
  match labels with
  | some ls =>
    let label ← child ls i
    if label.kind == .identifier then write (← textOf label) else write "_"
    write ":"
    if showTypes then write " "
  | none =>
    if !showTypes then
      match parameter.childOfKind? .tupleElementName with
      | some name =>
        write (← textOf name)
        write ":"
      | none => write "_:"

/-- Prints the parameters of a tuple from position `i` on. -/
def printTupleParameters (labels : Option Node) (showTypes : Bool) (i : Nat) :
    List Node → Printer Unit
  | [] => pure ()
  | p :: ps => do
    if i != 0 && showTypes then write ", "
    printLabel labels p i showTypes
    if showTypes then print p
    printTupleParameters labels showTypes (i + 1) ps

/-- Prints a single parameter that is no tuple. -/
def printSingleParameter (label : Option String) (parameter : Node) (showTypes : Bool) :
    Printer Unit := do
  if showTypes then
    match label with
    | some s => write (s ++ ": ")
    | none => pure ()
    print parameter
  else write (label.getD "_" ++ ":")

/-- Prints the parameters of a function, with the given labels if there are any. -/
def printParameters (labels : Option Node) (arguments : Node) (showTypes : Bool) : Printer Unit := do
  if arguments.kind != .argumentTuple then throw (.unexpectedKind arguments.kind)
  let parameters ← child (← child arguments 0) 0
  let labels := labels.filter (·.count != 0)
  write "("
  if parameters.kind == .tuple then
    printTupleParameters labels showTypes 0 parameters.children
  else
    printSingleParameter ((labels.bind Node.first?).bind Node.text?) parameters showTypes
  write ")"

/-- Prints a function type, with the labels of a declared function if it has any. -/
def printFunctionType (labels : Option Node) (f : Node) : Printer Unit := do
  let count := f.count
  if count < 2 then throw (.missing f.kind count)
  printFunctionKind f
  let found ← (f.children.take (count - 2)).foldlM noteMark ⟨none, false, false, false⟩
  match found.differentiability with
  | some .nonDifferentiable | none => pure ()
  | some d => write ((← differentiableAttribute d) ++ " ")
  if found.isSendable then write "@Sendable "
  let showTypes ← flag .functionArgumentTypes
  printParameters labels (← child f (count - 2)) showTypes
  if showTypes then
    if found.isAsync then write " async"
    if found.isThrowing then write " throws"
    printChild f (count - 1)

/-- Prints an element of a tuple. -/
def printTupleElement (n : Node) : Printer Unit := do
  match n.childOfKind? .tupleElementName with
  | some label =>
    write (← textOf label)
    write ": "
  | none => pure ()
  match n.childOfKind? .type with
  | some t => print t
  | none => throw (.missing n.kind n.count)
  if (n.childOfKind? .variadicMarker).isSome then write "..."

/-- Prints the result of a function. -/
def printReturnType (n : Node) : Printer Unit := do
  write " -> "
  match n.payload, n.children with
  | .text s, [] => write s
  | _, _ => printChildren n ""

end SwiftMangling.Render
