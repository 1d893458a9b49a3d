import SwiftMangling.Node.Path
import SwiftMangling.Render.Name
import SwiftMangling.Render.Type

/-!
# Declarations

A declaration is printed with its context in front of its name (`main.Foo.bar`), or after it if the
name has several words (`closure #1 in main.foo()`). A context that cannot stand in front is handed
on, so that the outermost declaration prints it after its own name.
-/

namespace SwiftMangling.Render

/-- How the type of a declaration is printed after its name. -/
inductive TypeStyle where
  | hidden
  | withColon
  | function
  deriving DecidableEq

/-- How a declaration is printed. -/
structure Style where
  /-- How the type is printed. -/
  typeStyle : TypeStyle
  /-- Whether the declaration has a name of its own. -/
  hasName : Bool := false
  /-- A word or a description after the name. -/
  extra : String := ""
  /-- A number after the description. -/
  extraNumber : Option Nat := none
  /-- A text in place of the name. -/
  overwrite : String := ""

namespace Style

/-- The style of a declaration with a name. -/
def named (t : TypeStyle) : Style :=
  { typeStyle := t, hasName := true }

/-- The style of a declaration that a description stands for. -/
def described (t : TypeStyle) (s : String) : Style :=
  { typeStyle := t, extra := s }

/-- The style of a declaration that a description and a number stand for. -/
def numbered (t : TypeStyle) (s : String) (n : Nat) : Style :=
  { typeStyle := t, extra := s, extraNumber := some n }

/-- The text of the description with its number. -/
def extraText (s : Style) : String :=
  s.extra ++ (s.extraNumber.map Nat.repr).getD ""

end Style

/-- The type inside of generic types. -/
def innermostType (n : Node) : Except RenderError Node :=
  if n.kind == .dependentGenericType then
    match _h : n.child? 1 with
    | none => .error (.missing n.kind 1)
    | some c =>
      match _hc : c.child? 0 with
      | none => .error (.missing c.kind 0)
      | some t => innermostType t
  else .ok n
termination_by sizeOf n
decreasing_by
  have h1 := Node.sizeOf_lt_of_child? _h
  have h2 := Node.sizeOf_lt_of_child? _hc
  omega

/-- The function types that can follow the name of a function directly. -/
def isDirectFunction : Kind → Bool
  | .functionType | .noEscapeFunctionType | .uncurriedFunctionType | .cFunctionPointer
  | .thinFunctionType => true
  | _ => false

/-- Prints the type of a declaration with its labels and generic arguments. -/
def printEntityType (entity t : Node) (arguments : Option Node) : Printer Unit := do
  let labels := entity.childOfKind? .labelList
  if labels.isNone && arguments.isNone then print t
  else
    match arguments with
    | some as =>
      write "<"
      printChildren as ", "
      write ">"
    | none => pure ()
    if t.kind == .dependentGenericType then
      if arguments.isNone then printChild t 0
      let dependent ← child t 1
      if needsSpaceBefore dependent then write " "
      printFunctionType labels (← child dependent 0)
    else printFunctionType labels t

/-- Whether the name of a declaration has several words, which keeps its context from standing in
front of it. -/
def isMultiWord (o : Options) (entity : Node) (style : Style) : Bool :=
  style.extra.toList.contains ' ' ||
    (o.has .localNameContexts && style.hasName &&
      (entity.child? 1).any (·.kind == .localDeclName))

/-- Prints the context of a declaration in front of it, if it can stand there. The result is the
context that has to be printed after the declaration. -/
def printLeadingContext (c : Node) (multiWord : Bool) : Printer (Option Node) := do
  if showsContext (← read).options c then
    if multiWord then return some c
    let before ← written
    let postponed ← printContext c
    if (← written) != before then write "."
    return postponed
  else return none

/-- Prints the name of a declaration itself. -/
def printOwnName (entity : Node) (style : Style) : Printer Unit := do
  if style.overwrite.isEmpty then
    let name ← child entity 1
    if name.kind != .privateDeclName then print name
    match entity.childOfKind? .privateDeclName with
    | some p => print p
    | none => pure ()
  else write style.overwrite

/-- Prints the name of a declaration with the description that belongs to it. -/
def printName (entity : Node) (style : Style) (multiWord : Bool) : Printer Unit := do
  let hasExtra := !style.extra.isEmpty
  if style.hasName || !style.overwrite.isEmpty then
    if hasExtra && multiWord then
      write (style.extraText ++ " of ")
      printOwnName entity style
    else
      let before ← written
      printOwnName entity style
      if hasExtra then
        if (← written) != before then write "."
        write style.extraText
  else if hasExtra then write style.extraText

/-- Prints the type of a declaration in the given style. -/
def printTypePart (entity : Node) (style : TypeStyle) (multiWord : Bool) (arguments : Option Node) :
    Printer Unit := do
  if style == .hidden then return ()
  let holder ←
    match entity.childOfKind? .type with
    | some t => pure t
    | none => throw (.missing entity.kind entity.count)
  let t ← child holder 0
  let isFunction ←
    if style == .function then
      pure (isDirectFunction (← (innermostType t : Except RenderError Node)).kind)
    else pure false
  if isFunction then
    if multiWord || needsSpaceBefore t then write " "
    printEntityType entity t arguments
  else if ← flag .entityTypes then
    write " : "
    printEntityType entity t arguments

/-- What stands between a declaration and the context after it. -/
def contextJoint : Kind → String
  | .defaultArgumentInitializer | .initializer | .propertyWrapperBackingInitializer
  | .propertyWrapperInitFromProjectedValue => " of "
  | _ => " in "

/-- Prints a declaration. A declaration that cannot stand in front of another one is not printed as
a context, but returned; otherwise the result is a context that has to be printed after it. -/
def printEntity (n : Node) (asContext : Bool) (style : Style) : Printer (Option Node) := do
  let (entity, arguments) ←
    if n.kind == .boundGenericFunction then do
      let f ← child n 0
      pure (f, some (← child n 1))
    else pure (n, none)
  let multiWord := isMultiWord (← read).options entity style
  if asContext && (style.typeStyle != .hidden || multiWord) then return some entity
  let postponed ← printLeadingContext (← child entity 0) multiWord
  printName entity style multiWord
  printTypePart entity style.typeStyle multiWord arguments
  match asContext, postponed with
  | false, some c =>
    write (contextJoint entity.kind)
    print c
    return none
  | _, _ => return postponed

/-- The names of accessors, which are printed after the storage that they belong to. -/
def accessorName? : Kind → Option String
  | .owningAddressor => some "owningAddressor"
  | .owningMutableAddressor => some "owningMutableAddressor"
  | .nativeOwningAddressor => some "nativeOwningAddressor"
  | .nativeOwningMutableAddressor => some "nativeOwningMutableAddressor"
  | .nativePinningAddressor => some "nativePinningAddressor"
  | .nativePinningMutableAddressor => some "nativePinningMutableAddressor"
  | .unsafeAddressor => some "unsafeAddressor"
  | .unsafeMutableAddressor => some "unsafeMutableAddressor"
  | .globalGetter | .getter => some "getter"
  | .setter => some "setter"
  | .materializeForSet => some "materializeForSet"
  | .willSet => some "willset"
  | .didSet => some "didset"
  | .readAccessor => some "read"
  | .modifyAccessor => some "modify"
  | _ => none

/-- Prints the accessor `name` of a variable or subscript. -/
def printAccessor (storage : Node) (asContext : Bool) (name : String) : Printer (Option Node) :=
  match storage.kind with
  | .variableDecl => printEntity storage asContext { Style.named .withColon with extra := name }
  | .subscript =>
    printEntity storage asContext
      { typeStyle := .withColon, extra := name, overwrite := "subscript" }
  | k => throw (.unexpectedKind k)

/-- The style of the declarations that have a fixed one. -/
def fixedStyle? : Kind → Option Style
  | .variableDecl => some (.named .withColon)
  | .function | .boundGenericFunction => some (.named .function)
  | .subscript => some { typeStyle := .function, overwrite := "subscript" }
  | .genericTypeParamDecl | .classType | .structureType | .enumType | .protocolType | .typeAlias
  | .otherNominalType => some (.named .hidden)
  | .initializer => some (.described .hidden "variable initialization expression")
  | .propertyWrapperBackingInitializer =>
    some (.described .hidden "property wrapper backing initializer")
  | .propertyWrapperInitFromProjectedValue =>
    some (.described .hidden "property wrapper init from projected value")
  | .destructor => some (.described .hidden "deinit")
  | .ivarInitializer => some (.described .hidden "__ivar_initializer")
  | .ivarDestroyer => some (.described .hidden "__ivar_destroyer")
  | _ => none

/-- The style of a closure, whose number is one more than the stored one. -/
def closureStyle (n : Node) (description : String) : Printer Style := do
  let number ← indexOf (← child n 1)
  let t := if ← flag .functionArgumentTypes then TypeStyle.function else .hidden
  return .numbered t description (nextNumber number)

/-- The style of a member that classes name differently. -/
def memberStyle (n : Node) (t : TypeStyle) (inClass other : String) : Printer Style := do
  return .described t (if (← child n 0).kind == .classType then inClass else other)

/-- The style of a declaration, if the node is one. -/
def entityStyle? (n : Node) : Printer (Option Style) := do
  match n.kind with
  | .explicitClosure => return some (← closureStyle n "closure #")
  | .implicitClosure => return some (← closureStyle n "implicit closure #")
  | .defaultArgumentInitializer =>
    return some (.numbered .hidden "default argument " (← indexOf (← child n 1)).toNat)
  | .allocator => return some (← memberStyle n .function "__allocating_init" "init")
  | .constructor => return some { Style.described .function "init" with hasName := 2 < n.count }
  | .deallocator => return some (← memberStyle n .hidden "__deallocating_deinit" "deinit")
  | k => return fixedStyle? k

end SwiftMangling.Render
