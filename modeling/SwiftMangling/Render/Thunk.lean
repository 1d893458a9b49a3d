import SwiftMangling.Render.Name
import SwiftMangling.Render.FunctionType
import SwiftMangling.Text.Utf8

/-!
# Thunks

Thunks, derivatives, pieces of asynchronous functions, and the parts of symbols that are printed by
rules of their own.
-/

namespace SwiftMangling.Render

/-- Prints a thunk between two function types. -/
def printReabstraction (n : Node) : Printer Unit := do
  if ← flag .shortThunk then
    write "thunk for "
    printChild n (n.count - 1)
  else
    write "reabstraction thunk "
    if n.kind == .reabstractionThunkHelper then write "helper "
    let first := if n.count == 3 then 1 else 0
    if n.count == 3 then
      printChild n 0
      write " "
    write "from "
    printChild n (first + 1)
    write " to "
    printChild n first

/-- Prints a thunk between two function types with a `self`. -/
def printReabstractionWithSelf (n : Node) : Printer Unit := do
  write "reabstraction thunk "
  let first := if n.count == 4 then 1 else 0
  if n.count == 4 then
    printChild n 0
    write " "
  write "from "
  printChild n (first + 2)
  write " to "
  printChild n (first + 1)
  write " self "
  printChild n first

/-- Prints nodes one after the other, with a comma before a mark that something is serialized. -/
def printKeyPathParts : List Node → Printer Unit
  | [] => pure ()
  | n :: ns => do
    if n.kind == .isSerialized then write ", "
    print n
    printKeyPathParts ns

/-- Prints the getter or setter of a key path component. -/
def printKeyPathAccessor (n : Node) : Printer Unit := do
  write (if n.kind == .keyPathGetterThunkHelper then "key path getter for "
    else "key path setter for ")
  printChild n 0
  write " : "
  printKeyPathParts (n.children.drop 1)

/-- Takes a generic signature off the end of a list. -/
def splitSignature (ns : List Node) : List Node × Option Node :=
  match ns.getLast? with
  | some s => if s.kind == .dependentGenericSignature then (ns.dropLast, some s) else (ns, none)
  | none => (ns, none)

/-- Prints a node if there is one. -/
def printIfAny (n : Option Node) : Printer Unit :=
  match n with
  | some n => print n
  | none => pure ()

/-- Prints the equality or hash function of the indices of a key path. -/
def printKeyPathHash (n : Node) : Printer Unit := do
  write (if n.kind == .keyPathEqualsThunkHelper then "key path index equality operator for "
    else "key path index hash operator for ")
  let isSerialized := n.last?.any (·.kind == .isSerialized)
  let (types, signature) :=
    splitSignature (if isSerialized then n.children.dropLast else n.children)
  printIfAny signature
  write "("
  printSeparated ", " types
  write ")"
  if isSerialized then write ", serialized"

/-- The name of a derivative. -/
def derivativeName (n : Node) : Printer String := do
  let code ← indexOf n
  if code == UInt64.ofNat 'f'.toNat then return "forward-mode derivative"
  else if code == UInt64.ofNat 'r'.toNat then return "reverse-mode derivative"
  else if code == UInt64.ofNat 'd'.toNat then return "differential"
  else if code == UInt64.ofNat 'p'.toNat then return "pullback"
  else throw (.invalidPayload n.kind)

/-- Prints the signature of a derivative after `joint`, if where clauses are shown. -/
def printDerivativeSignature (joint : String) (signature : Option Node) : Printer Unit := do
  match signature with
  | some s =>
    if ← flag .whereClauses then
      write joint
      print s
  | none => pure ()

/-- Prints a derivative. -/
def printDerivative (n : Node) : Printer Unit := do
  let i ←
    match n.children.findIdx? (·.kind == .autoDiffFunctionKind) with
    | some i => pure i
    | none => throw (.missing n.kind n.count)
  if n.kind == .autoDiffDerivativeVTableThunk then write "vtable thunk for "
  printChild n i
  write " of "
  let (base, signature) := splitSignature (n.children.take i)
  printSeparated "" base
  if !(← flag .shortThunk) then
    write " with respect to parameters "
    printChild n (i + 1)
    write " and results "
    printChild n (i + 2)
    printDerivativeSignature " with " signature

/-- Prints a thunk that moves the `self` parameter of a derivative. -/
def printSelfReordering (n : Node) : Printer Unit := do
  write "autodiff self-reordering reabstraction thunk "
  let source ← child n 0
  let target ← child n 1
  write "for "
  if ← flag .shortThunk then print source
  else
    match (n.child? 2).filter (·.kind == .dependentGenericSignature) with
    | some signature =>
      printChild n 3
      print signature
      write " "
    | none => printChild n 2
    write " from "
    print source
    write " to "
    print target

/-- Prints a thunk that passes a subset of the parameters to a derivative. -/
def printSubsetParameters (n : Node) : Printer Unit := do
  write "autodiff subset parameters thunk for "
  if n.count < 5 then throw (.missing n.kind n.count)
  let i := n.count - 4
  let (base, signature) := splitSignature (n.children.take i)
  printChild n i
  write " from "
  printSeparated "" base
  if !(← flag .shortThunk) then
    write " with respect to parameters "
    printChild n (i + 1)
    write " and results "
    printChild n (i + 2)
    write " to parameters "
    printChild n (i + 3)
    printDerivativeSignature " of type " signature

/-- The word for the differentiability of a witness. -/
def witnessMode : Differentiability → Printer String
  | .forward => return "forward-mode"
  | .reverse => return "reverse-mode"
  | .normal => return "normal"
  | .linear => return "linear"
  | .nonDifferentiable => throw .invalidDifferentiability

/-- Prints a differentiability witness. -/
def printDifferentiabilityWitness (n : Node) : Printer Unit := do
  match n.children.findIdx? (·.kind == .index) with
  | none => throw (.missing n.kind n.count)
  | some i =>
    match (n.child? i).map Node.payload with
    | some (.differentiability d) =>
      write (← witnessMode d)
      write " differentiability witness for "
      printSeparated "" (n.children.take i)
      write " with respect to parameters "
      printChild n (i + 1)
      write " and results "
      printChild n (i + 2)
      match n.child? (i + 3) with
      | some signature =>
        write " with "
        print signature
      | none => pure ()
    | _ => throw (.invalidPayload n.kind)

/-- The positions of the bytes `S` of a text. -/
def subsetPositions (s : String) : List Nat :=
  ((Utf8.encode s).zipIdx.filter fun p => p.1 == 'S'.toUInt8).map (·.2)

/-- Prints a subset of parameters or results. -/
def printIndexSubset (n : Node) : Printer Unit := do
  let s ← textOf n
  write ("\x7b" ++ ", ".intercalate ((subsetPositions s).map Nat.repr) ++ "\x7d")

/-- Prints the implementation of a completion handler. -/
def printCompletionHandler (n : Node) : Printer Unit := do
  if n.kind == .predefinedObjCAsyncCompletionHandlerImpl then write "predefined "
  write "@objc completion handler block implementation for "
  printChildIfAny n 3
  printChild n 0
  write " with result type "
  printChild n 1
  match (← indexOf (← child n 2)).toNat with
  | 0 => pure ()
  | 1 => write " nonzero on error "
  | 2 => write " zero on error "
  | _ => write " <invalid error flag>"

/-- Prints a value witness. -/
def printValueWitness (n : Node) : Printer Unit := do
  match (← child n 0).payload with
  | .valueWitness w =>
    write w.name
    write (if ← flag .shortValueWitness then " for " else " value witness for ")
    printChild n 1
  | _ => throw (.invalidPayload n.kind)

/-- Prints a directness. -/
def printDirectness (n : Node) : Printer Unit :=
  match n.payload with
  | .directness d => write (d.name ++ " ")
  | _ => throw (.invalidPayload n.kind)

/-- Prints the one-time initialization of variables. -/
def printOnceInitialization (n : Node) : Printer Unit := do
  write (if n.kind == .globalVariableOnceToken then "one-time initialization token for "
    else "one-time initialization function for ")
  let context ← child n 0
  if showsContext (← read).options context then print context
  printChild n 1

/-- Prints the variables that are initialized together. -/
def printOnceVariables (n : Node) : Printer Unit := do
  if n.count == 1 then printChild n 0
  else
    write "("
    printChildren n ", "
    write ")"

/-- Prints a piece of an asynchronous function. -/
def printResumeFunction (n : Node) : Printer Unit := do
  if ← flag .asyncResumePartial then
    write "("
    printChild n 0
    write ")"
    write (if n.kind == .asyncAwaitResumePartialFunction then
      " await resume partial function for " else " suspend resume partial function for ")

/-- Prints a forwarder and what it encloses. -/
def printForwarder (n : Node) : Printer Unit := do
  if ← flag .shortPartialApply then write "partial apply"
  else
    write (if n.kind == .partialApplyForwarder then "partial apply forwarder"
      else "partial apply ObjC forwarder")
  if n.count != 0 then
    write " for "
    printChildren n ""

/-- Prints the number of an outlined variable. -/
def printOutlinedVariable (n : Node) : Printer Unit := do
  write "outlined variable #"
  writeNumber (← indexOf n).toNat
  write " of "

/-- Prints how an outlined bridged method passes its arguments. -/
def printBridgedMethod (n : Node) : Printer Unit := do
  write "outlined bridged method ("
  write (← textOf n)
  write ") of "

/-- The hexadecimal digits of a number, with capital letters. -/
def hexDigits (n : Nat) : String :=
  String.ofList ((Nat.toDigits 16 n).map Char.toUpper)

/-- Prints a symbolic reference. -/
def printSymbolicReference (what : String) (n : Node) : Printer Unit := do
  write (what ++ " symbolic reference 0x" ++ hexDigits (← indexOf n).toNat)

/-- A character inside of quotation marks. -/
def quotedChar (c : Char) : String :=
  match c with
  | '\\' => "\\\\"
  | '"' => "\\\""
  | '\n' => "\\n"
  | '\r' => "\\r"
  | '\t' => "\\t"
  | '\x00' => "\\0"
  | _ =>
    if c.toNat < 16 then "\\x0" ++ hexDigits c.toNat
    else if c.toNat < 32 || c.toNat == 127 then "\\x" ++ hexDigits c.toNat
    else c.toString

/-- A text in quotation marks. -/
def quoted (s : String) : String :=
  "\"" ++ String.join (s.toList.map quotedChar) ++ "\""

/-- Prints a suffix that is not mangled. -/
def printSuffix (n : Node) : Printer Unit := do
  if ← flag .unmangledSuffix then
    write (" with unmangled suffix " ++ quoted (← textOf n))

end SwiftMangling.Render
