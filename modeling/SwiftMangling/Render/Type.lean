import SwiftMangling.Render.FunctionType
import SwiftMangling.Render.ParameterName

/-!
# Types

Bound generic types with their sugar, metatypes, existential types, boxes and generic signatures.
-/

namespace SwiftMangling.Render

/-- Whether a type needs no parentheses in front of a `?`, `!` or `.Type`. -/
def isSimpleType : Node → Bool
  | ⟨.type, _, c :: _, _⟩ => isSimpleType c
  | ⟨.type, _, [], _⟩ => false
  | ⟨.protocolList, _, cs, _⟩ => cs.head?.any (·.count ≤ 1)
  | ⟨.protocolListWithAnyObject, _, cs, _⟩ => (cs.head?.bind Node.first?).any (·.count == 0)
  | ⟨k, _, _, _⟩ => k.isSimpleType

/-- Whether a space stands between a name or a signature and the type after it. -/
def needsSpaceBefore : Node → Bool
  | ⟨.type, _, c :: _, _⟩ => needsSpaceBefore c
  | ⟨.functionType, _, _, _⟩ | ⟨.noEscapeFunctionType, _, _, _⟩
  | ⟨.uncurriedFunctionType, _, _, _⟩ | ⟨.dependentGenericType, _, _, _⟩ => false
  | _ => true

/-- Existential types, whose metatypes are called protocols. -/
def isExistentialType : Kind → Bool
  | .existentialMetatype | .protocolList | .protocolListWithClass | .protocolListWithAnyObject =>
    true
  | _ => false

/-- Prints a type, in parentheses if it needs them. -/
def printWithParens (t : Node) : Printer Unit := do
  if isSimpleType t then print t
  else
    write "("
    print t
    write ")"

/-- The short forms of bound generic types. -/
inductive Sugar where
  | optional
  | implicitlyUnwrappedOptional
  | array
  | dictionary

/-- The short form of a type of the standard library with the given kind, name and number of
arguments. -/
def sugarOf? (k : Kind) (name : String) (arguments : Nat) : Option Sugar :=
  match k with
  | .boundGenericEnum =>
    if name == "Optional" && arguments == 1 then some .optional
    else if name == "ImplicitlyUnwrappedOptional" && arguments == 1 then
      some .implicitlyUnwrappedOptional
    else none
  | .boundGenericStructure =>
    if name == "Array" && arguments == 1 then some .array
    else if name == "Dictionary" && arguments == 2 then some .dictionary
    else none
  | _ => none

/-- The short form of a bound generic type, if it has one. -/
def sugar? (n : Node) : Option Sugar := do
  let unbound ← n.first?.bind Node.first?
  let arguments ← n.child? 1
  let module ← unbound.first?
  if module.kind == .moduleName && module.text? == some Node.standardLibrary then
    let name ← unbound.child? 1
    if name.kind == .identifier then sugarOf? n.kind (← name.text?) arguments.count else none
  else none

/-- Prints a bound generic type in its long form. -/
def printBoundLong (n : Node) : Printer Unit := do
  printChild n 0
  write "<"
  printChildren (← child n 1) ", "
  write ">"

/-- Prints the arguments of a bound generic type in its short form. -/
def printSugar (arguments : Node) : Sugar → Printer Unit
  | .optional => do
    printWithParens (← child arguments 0)
    write "?"
  | .implicitlyUnwrappedOptional => do
    printWithParens (← child arguments 0)
    write "!"
  | .array => do
    write "["
    printChild arguments 0
    write "]"
  | .dictionary => do
    write "["
    printChild arguments 0
    write " : "
    printChild arguments 1
    write "]"

/-- Prints a bound generic type. -/
def printBoundGeneric (n : Node) : Printer Unit := do
  if n.count < 2 then return ()
  let sugared ← flag .sugaredTypes
  if n.count != 2 || !sugared || n.kind == .boundGenericClass then printBoundLong n
  else if n.kind == .boundGenericProtocol then
    printChildren (← child n 1) ""
    write " as "
    printChild n 0
  else
    match sugar? n with
    | some s => printSugar (← child n 1) s
    | none => printBoundLong n

/-- Prints the representation of a metatype, if there is one, and returns the instance type. -/
def metatypeInstance (n : Node) : Printer Node := do
  if n.count == 2 then
    printChild n 0
    write " "
    child n 1
  else child n 0

/-- Prints a metatype. -/
def printMetatype (n : Node) : Printer Unit := do
  let t ← child (← metatypeInstance n) 0
  printWithParens t
  write (if isExistentialType t.kind then ".Protocol" else ".Type")

/-- Prints the metatype of an existential type. -/
def printExistentialMetatype (n : Node) : Printer Unit := do
  print (← metatypeInstance n)
  write ".Type"

/-- Prints an associated type of an archetype. -/
def printAssociatedTypeRef (n : Node) : Printer Unit := do
  if !(← flag .shortArchetype) then
    printChild n 0
    write "."
  write (← textOf (← child n 1))

/-- Prints a composition of protocols. -/
def printProtocolList (n : Node) : Printer Unit := do
  let protocols ← child n 0
  if protocols.count == 0 then write "Any" else printChildren protocols " & "

/-- Prints a composition of a class and protocols. -/
def printProtocolListWithClass (n : Node) : Printer Unit := do
  printChild n 1
  write " & "
  printChildren (← child (← child n 0) 0) " & "

/-- Prints a composition of protocols that only classes conform to. -/
def printProtocolListWithAnyObject (n : Node) : Printer Unit := do
  let protocols ← child (← child n 0) 0
  if protocols.count != 0 then
    printChildren protocols " & "
    write " & "
  if (← flag .qualifiedEntities) && (← flag .standardLibraryModule) then
    write (Node.standardLibrary ++ ".")
  write "AnyObject"

/-- Prints the fields of a box from position `i` on. -/
def printFields (i : Nat) : List Node → Printer Unit
  | [] => pure ()
  | f :: fs => do
    if i != 0 then write ","
    write " "
    print f
    printFields (i + 1) fs

/-- Prints the layout of a box. -/
def printBoxLayout (n : Node) : Printer Unit := do
  write "\x7b"
  printFields 0 n.children
  write " \x7d"

/-- Prints the type of a box with its generic signature and arguments. -/
def printBoxType (n : Node) : Printer Unit := do
  let layout ← child n 0
  match n.child? 1 with
  | some signature =>
    print signature
    write " "
    print layout
    match n.child? 2 with
    | some arguments =>
      write " <"
      printChildren arguments ", "
      write ">"
    | none => pure ()
  | none => print layout

/-- How many generic parameters are shown at one depth. -/
def maxShownParameters : Nat := 128

/-- The names of the first `count` generic parameters at a depth, separated by commas. -/
def parameterNames (depth : Nat) (count : Nat) : String :=
  let shown := (List.range (min count maxShownParameters)).map fun i =>
    parameterName (UInt64.ofNat depth) (UInt64.ofNat i)
  ", ".intercalate (shown ++ (if maxShownParameters < count then ["..."] else []))

/-- Prints the generic parameters of each depth from `depth` on. -/
def printParameterCounts (depth : Nat) : List Node → Printer Unit
  | [] => pure ()
  | c :: cs => do
    if depth != 0 then write "><"
    write (parameterNames depth (← indexOf c).toNat)
    printParameterCounts (depth + 1) cs

/-- Prints a generic signature with its requirements. -/
def printSignature (n : Node) : Printer Unit := do
  let isCount := fun c : Node => c.kind == .dependentGenericParamCount
  write "<"
  printParameterCounts 0 (n.children.takeWhile isCount)
  let requirements := n.children.dropWhile isCount
  if !requirements.isEmpty && (← flag .whereClauses) then
    write " where "
    printSeparated ", " requirements
  write ">"

/-- The name of the layout with the given letter. -/
def layoutName? : String → Option String
  | "U" => some "_UnknownLayout"
  | "R" => some "_RefCountedObject"
  | "N" => some "_NativeRefCountedObject"
  | "C" => some "AnyObject"
  | "D" => some "_NativeClass"
  | "T" | "E" | "e" => some "_Trivial"
  | "M" | "m" => some "_TrivialAtMost"
  | _ => none

/-- Prints a requirement on the layout of a type. -/
def printLayoutRequirement (n : Node) : Printer Unit := do
  printChild n 0
  write ": "
  let layout ← child n 1
  match layoutName? (← textOf layout) with
  | some name => write name
  | none => throw (.invalidPayload layout.kind)
  match n.child? 2 with
  | some size =>
    write "("
    print size
    match n.child? 3 with
    | some alignment =>
      write ", "
      print alignment
    | none => pure ()
    write ")"
  | none => pure ()

/-- Prints a generic parameter. -/
def printGenericParameter (n : Node) : Printer Unit := do
  let depth ← indexOf (← child n 0)
  let position ← indexOf (← child n 1)
  write (parameterName depth position)

/-- Prints a type with its generic signature. -/
def printGenericType (n : Node) : Printer Unit := do
  let t ← child n 1
  printChild n 0
  if needsSpaceBefore t then write " "
  print t

/-- Prints the name of an associated type, with its protocol in front if that is given. -/
def printAssociatedTypeName (n : Node) : Printer Unit := do
  match n.child? 1 with
  | some protocol =>
    print protocol
    write "."
  | none => pure ()
  printChild n 0

/-- Prints a conformance. -/
def printConformance (n : Node) : Printer Unit := do
  printChild n 0
  if ← flag .protocolConformances then
    write " : "
    printChild n 1
    write " in "
    printChild n 2

/-- Prints a conformance that depends on generic arguments. -/
def printDependentConformance (description : String) (n : Node) : Printer Unit := do
  write description
  match (← child n 2).index? with
  | some i => write ("#" ++ i.toNat.repr ++ " ")
  | none => pure ()
  printChild n 0
  printChild n 1

end SwiftMangling.Render
