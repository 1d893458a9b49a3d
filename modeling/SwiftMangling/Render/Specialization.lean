import SwiftMangling.Render.Printer

/-!
# Specializations

The headers of specialized symbols describe each parameter that was changed. If specializations are
not shown, the word `specialized` stands for all of them.
-/

namespace SwiftMangling.Render

/-- The options of a parameter in the order in which they are printed. -/
def printedOptions : List ParamOption :=
  [.existentialToGeneric, .dead, .ownedToGuaranteed, .guaranteedToOwned, .exploded]

/-- What a node says about a parameter. -/
def paramKindOf (n : Node) : Printer ParamKind :=
  match n.payload with
  | .specialization k => return k
  | _ => throw (.invalidPayload n.kind)

/-- Prints what happened to a parameter. -/
def printParamKind (n : Node) : Printer Unit := do
  let k ← paramKindOf n
  let options := k.options
  if options.isEmpty then
    match k.change? with
    | some c => write c.description
    | none => throw (.invalidPayload n.kind)
  else
    write (" and ".intercalate ((printedOptions.filter options.contains).map (·.description)))

/-- Writes the change to a parameter and what it was changed to. -/
def printChange (p : Node) (value : Printer Unit) : Printer Unit := do
  write "["
  printChild p 0
  write " : "
  value
  write "]"

/-- Prints a propagated string with its encoding. -/
def printStringConstant (p : Node) : Printer Unit := do
  write (← textOf (← child p 1))
  write "'"
  match p.child? 2 with
  | some s => write (← textOf s)
  | none => pure ()
  write "'"

/-- Prints a propagated key path. -/
def printKeyPathConstant (p : Node) : Printer Unit := do
  printChild p 1
  write "<"
  printSeparated "," (p.children.drop 2)
  write ">"

/-- Prints a propagated closure with the types of its arguments. -/
def printClosureConstant (p : Node) : Printer Unit := do
  printChild p 1
  write ", Argument Types : ["
  printSeparated ", " ((p.children.drop 2).takeWhile (·.kind == .type))
  write "]"

/-- Prints a specialized parameter. -/
def printParam (p : Node) : Printer Unit := do
  let k ← paramKindOf (← child p 0)
  match k.change? with
  | some .constantFunction | some .constantGlobal => printChange p (printChild p 1)
  | some .constantInteger | some .constantFloat =>
    printChange p do write (← textOf (← child p 1))
  | some .constantString => printChange p (printStringConstant p)
  | some .constantKeyPath => printChange p (printKeyPathConstant p)
  | some .closure => printChange p (printClosureConstant p)
  | some .boxToValue | some .boxToStack | some .inOutToOut | none => printChild p 0

/-- Prints the parts of a specialization. `separated` tells whether one has been printed before, and
`number` counts the parameters. -/
def printSpecializationParts (start : String) (separated : Bool) (number : Nat) :
    List Node → Printer Unit
  | [] => pure ()
  | item :: items => do
    let separator := if separated then ", " else ""
    match item.kind with
    | .specializationPassID => printSpecializationParts start separated number items
    | .isSerialized =>
      write separator
      print item
      printSpecializationParts start true number items
    | k =>
      if item.count == 0 then printSpecializationParts start separated (number + 1) items
      else
        write (separator ++ start)
        match k with
        | .functionSignatureSpecializationParam =>
          write ("Arg[" ++ number.repr ++ "] = ")
          printParam item
        | .functionSignatureSpecializationReturn =>
          write "Return = "
          printParam item
        | _ => print item
        printSpecializationParts start true (number + 1) items

/-- Prints the header of a specialized symbol. -/
def printSpecialization (n : Node) (description start : String) : Printer Unit := do
  if ← flag .genericSpecializations then
    write (description ++ " <")
    printSpecializationParts start false 0 n.children
    write "> of "
  else if !(← get).saidSpecialized then
    write "specialized "
    modify fun o => { o with saidSpecialized := true }

/-- How a kind of specialization is described, and what stands in front of each of its parts. -/
def specializationText? : Kind → Option (String × String)
  | .genericSpecialization | .genericSpecializationInResilienceDomain =>
    some ("generic specialization", "")
  | .genericSpecializationPrespecialized => some ("generic pre-specialization", "")
  | .genericSpecializationNotReAbstracted =>
    some ("generic not re-abstracted specialization", "")
  | .inlinedGenericFunction => some ("inlined generic function", "")
  | .genericPartialSpecialization => some ("generic partial specialization", "Signature = ")
  | .genericPartialSpecializationNotReAbstracted =>
    some ("generic not re-abstracted partial specialization", "Signature = ")
  | .functionSignatureSpecialization => some ("function signature specialization", "")
  | _ => none

/-- Prints the conformances of a generic argument, joined by `with` and `and`. -/
def printConformances (joint : String) : List Node → Printer Unit
  | [] => pure ()
  | c :: cs => do
    write joint
    print c
    printConformances " and " cs

/-- Prints a generic argument with its conformances. -/
def printGenericParam (n : Node) : Printer Unit := do
  printChild n 0
  printConformances " with " (n.children.drop 1)

/-- Prints a text that may be a symbol. -/
def printParamPayload (n : Node) : Printer Unit := do
  let s ← textOf n
  write ((← read).embedded s)

end SwiftMangling.Render
