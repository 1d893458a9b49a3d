import SwiftMangling.Symbol
import SwiftMangling.Node.Unbound

/-!
# Questions about symbols

What can be said about a symbol from its text and the top of its tree: whether it is a thunk and
for what, how it is called, and which module declares it.
-/

namespace SwiftMangling.Symbol

/-- Whether a text is a symbol of either scheme. -/
def isMangled (symbol : String) : Bool :=
  Scheme.isMangled (Utf8.encode symbol)

/-- Whether a text has a prefix of the current scheme. -/
def isCurrent (symbol : String) : Bool :=
  Scheme.prefixLength (Utf8.encode symbol) != 0

/-- Whether a text starts with another one. -/
def startsWith (text start : String) : Bool :=
  start.toList.isPrefixOf text.toList

/-- Whether a text ends with another one. -/
def endsWith (text last : String) : Bool :=
  last.toList.isSuffixOf text.toList

/-- A text without its first `n` characters. -/
def dropFirst (text : String) (n : Nat) : String :=
  String.ofList (text.toList.drop n)

/-- A text without its last `n` characters. -/
def dropLast (text : String) (n : Nat) : String :=
  String.ofList (text.toList.take (text.toList.length - n))

/-- Whether a symbol names an imported declaration. -/
def isImported (symbol : String) : Bool :=
  let body := dropFirst symbol (Scheme.prefixLength (Utf8.encode symbol))
  startsWith body "So" || startsWith body "SC"

/-- The tree of a symbol, if it is a root with something below it. -/
def root? (symbol : String) : Option Node :=
  (decode (Utf8.encode symbol)).filter fun n => n.kind == .global && n.count != 0

/-- The endings of symbols of the current scheme that can be thunks. -/
def thunkEndings : List String :=
  ["TA", "Ta", "To", "TO", "TR", "Tr", "TW", "fC"]

/-- What the root of a thunk starts with. -/
def isThunkKind : Kind → Bool
  | .objCAttribute | .nonObjCAttribute | .partialApplyObjCForwarder | .partialApplyForwarder
  | .reabstractionThunkHelper | .reabstractionThunk | .protocolWitness | .allocator => true
  | _ => false

/-- What legacy thunks start with, after the prefix of the scheme. -/
def legacyThunkMarks : List String :=
  ["To", "TO", "PA_", "PAo_"]

/-- Whether a symbol is a thunk. The ending of a symbol of the current scheme has to be confirmed by
its tree. -/
def isThunk (symbol : String) : Bool :=
  if isCurrent symbol then
    thunkEndings.any (endsWith symbol) &&
      ((root? symbol).bind Node.first?).any (isThunkKind ·.kind)
  else
    startsWith symbol "_T" && legacyThunkMarks.any (startsWith (dropFirst symbol 2))

/-- The symbol that a thunk forwards to, or nothing if the symbol is no thunk or does not tell. -/
def thunkTarget (symbol : String) : String :=
  if !isThunk symbol then ""
  else if isCurrent symbol then
    if ["TR", "Tr", "TW"].any (endsWith symbol) then ""
    else if endsWith symbol "fC" then dropLast symbol 2 ++ "fc"
    else dropLast symbol 2
  else
    let rest := dropFirst symbol 2
    if startsWith rest "PA_" then dropFirst rest 3
    else if startsWith rest "PAo_" then dropFirst rest 4
    else "_T" ++ dropFirst rest 2

/-- Functions of the runtime, which are not called like other functions. -/
def isRuntimeFunction : Kind → Bool
  | .typeMetadataAccessFunction | .valueWitness | .protocolWitnessTableAccessor
  | .genericProtocolWitnessTableInstantiationFunction | .lazyProtocolWitnessTableAccessor
  | .associatedTypeMetadataAccessor | .associatedTypeWitnessTableAccessor
  | .baseWitnessTableAccessor => true
  | _ => false

/-- The first part of a symbol that is no attribute. -/
def mainPart? (root : Node) : Option Node :=
  root.children.find? (!·.kind.isFunctionAttribute)

/-- Whether the function that a symbol names has the native calling convention. -/
def isNativelyCalled (symbol : String) : Bool :=
  match root? symbol with
  | none => false
  | some root =>
    !(root.first?.any (·.kind == .objCAttribute)) &&
      !((mainPart? root).any (isRuntimeFunction ·.kind))

/-- Walks from a node to the module that declares it, in at most `n` steps. -/
def moduleFrom : Nat → Node → Option String
  | 0, _ => none
  | n + 1, node =>
    match node.kind with
    | .moduleName => node.text?
    | .typeMangling | .type => node.first?.bind (moduleFrom n)
    | .global => (mainPart? node).bind (moduleFrom n)
    | k =>
      if node.isSpecialized then node.unspecialized?.bind (moduleFrom n)
      else if k.isContext then node.first?.bind (moduleFrom n)
      else none

/-- The name of the module that declares what a symbol names. Every step of the walk goes down in
the tree, or removes all generic arguments on the way. -/
def module? (symbol : String) : Option String :=
  (decode (Utf8.encode symbol)).bind fun tree => moduleFrom (2 * tree.height + 2) tree

/-- The tags of a symbol: `N` if it is not mangled, `T` and a target for a thunk, `C` for another
calling convention. -/
def tags (symbol : String) : List String :=
  (if isMangled symbol then [] else ["N"]) ++
    (if isThunk symbol then ["T:" ++ thunkTarget symbol] else []) ++
    (if (root? symbol).isSome && !isNativelyCalled symbol then ["C"] else [])

/-- The tags of a symbol as a text, if there are any. -/
def tagText? (symbol : String) : Option String :=
  match tags symbol with
  | [] => none
  | ts => some ("\x7b" ++ ",".intercalate ts ++ "\x7d")

/-- The kinds of the parts of a symbol, one a line. -/
def describeParts (symbol : String) : String :=
  match root? symbol with
  | none => ""
  | some root => String.join (root.children.map fun c => c.kind.name ++ "\n")

end SwiftMangling.Symbol
