import SwiftMangling.Render.Printer

/-!
# Names and contexts

How modules, extensions and the names of declarations are printed, and when the context of a
declaration is shown at all.
-/

namespace SwiftMangling.Render

/-- What the names of the modules start with that a debugger generates. -/
def debuggerModule : String :=
  "lldb_expr"

/-- Whether `s` starts with `start`. -/
def startsWith (s start : String) : Bool :=
  start.toList.isPrefixOf s.toList

/-- Whether the options show the module named `m` in front of a declaration. -/
def showsModule (o : Options) (m : String) : Bool :=
  if m == Node.standardLibrary then o.has .standardLibraryModule
  else if m == Node.importedModule then o.has .importedModule
  else if o.isHidden m then false
  else if startsWith m debuggerModule then o.has .debuggerModules
  else true

/-- Whether the options show the given context in front of a declaration. -/
def showsContext (o : Options) (c : Node) : Bool :=
  o.has .qualifiedEntities &&
    match c.kind, c.text? with
    | .moduleName, some m => showsModule o m
    | _, _ => true

/-- Prints an extension: where it is declared, and what it extends. -/
def printExtension (n : Node) : Printer Unit := do
  if (← flag .qualifiedEntities) && (← flag .extensionContexts) then
    write "(extension in "
    let _ ← printContext (← child n 0)
    write "):"
  printChild n 1
  if !(← flag .forTypeName) then printChildIfAny n 2

/-- Prints a context without a name. -/
def printAnonymousContext (n : Node) : Printer Unit := do
  if (← flag .qualifiedEntities) && (← flag .extensionContexts) then
    printChild n 1
    write ".(unknown context at "
    printChild n 0
    write ")"
    match n.child? 2 with
    | some arguments =>
      if arguments.count != 0 then
        write "<"
        print arguments
        write ">"
    | none => pure ()

/-- Prints the name of a module. -/
def printModule (n : Node) : Printer Unit := do
  if ← flag .moduleNames then write (← textOf n)

/-- Prints the name of a local declaration with its number. -/
def printLocalName (n : Node) : Printer Unit := do
  printChild n 1
  if ← flag .localNameContexts then
    write " #"
    writeNumber (nextNumber (← indexOf (← child n 0)))

/-- Prints the name of a private declaration with its discriminator. -/
def printPrivateName (n : Node) : Printer Unit := do
  let shows ← flag .privateDiscriminators
  let discriminator ← textOf (← child n 0)
  match n.child? 1 with
  | some name =>
    if shows then write "("
    print name
    if shows then write (" in " ++ discriminator ++ ")")
  | none =>
    if shows then write ("(in " ++ discriminator ++ ")")

/-- Prints the name of a declaration that is derived from another one. -/
def printRelatedName (n : Node) : Printer Unit := do
  write "related decl '"
  write (← textOf (← child n 0))
  write "' for "
  printChild n 1

end SwiftMangling.Render
