import SwiftMangling.Current.State
import SwiftMangling.Node.Path

/-!
# Function types, tuples and labels

A function type takes its marks, its parameters and its result from the stack. The labels of
a declared function stand below its type, one for each parameter; in symbols with inline labels
they are the names of the elements of the parameter tuple.
-/

namespace SwiftMangling.Current

open Decoding

/-- Reads a text with its length in front of it as the spelling of a foreign type. -/
def clangType : Decoder Node := do
  return .ofText .clangType (← text (← positive))

/-- The marks of a function type, in the order in which they are taken from the stack. -/
def functionMarks : List Kind :=
  [.globalActorFunctionType, .differentiableFunctionType, .throwsMark,
   .concurrentFunctionType, .asyncMark]

/-- Takes those of the given marks that are on top of the stack, in this order. -/
def popMarks : List Kind → Decoder (List Node)
  | [] => return []
  | k :: ks => do
    let found ← popKind? k
    return found.toList ++ (← popMarks ks)

/-- Takes the parameters or the result of a function. -/
def popParameters (k : Kind) : Decoder Node := do
  if ← popMarker .emptyList then return .branch k [.typeOf (.leaf .tuple)]
  else aroundType k

/-- Takes the parts of a function type of the given kind, after reading its foreign spelling if it
has one. -/
def popFunctionType (k : Kind) (hasClangType : Bool) : Decoder Node := do
  let foreign ← if hasClangType then pure [← clangType] else pure []
  let marks ← popMarks functionMarks
  let parameters ← popParameters .argumentTuple
  let result ← popParameters .returnType
  return .typeOf (.branch k (foreign ++ marks ++ [parameters, result]))

/-- Skips the given marks, in this order, among the children of `n` from position `i` on. -/
def skipMarks (n : Node) (i : Nat) : List Kind → Option Nat
  | [] => some i
  | k :: ks => do
    let c ← n.child? i
    skipMarks n (if c.kind == k then i + 1 else i) ks

/-- The path from a type to the function type in it, which may be generic. -/
def functionTypePath (t : Node) : Option (List Nat) := do
  let n ← t.first?
  if n.kind == .dependentGenericType then some [0, 1, 0] else some [0]

/-- The path from a function type to the type of its parameters. -/
def parameterPath (t : Node) : Option (List Nat) := do
  let path ← functionTypePath t
  let function ← t.follow? path
  if function.kind != .functionType && function.kind != .noEscapeFunctionType then none
  else
    let i ← skipMarks function 0 functionMarks
    let parameters ← function.child? i
    if parameters.kind == .argumentTuple then some (path ++ [i, 0, 0]) else none

/-- The list of the given labels, which is empty if no parameter has one. -/
def labelList (labels : List Node) : Node :=
  if labels.all (·.kind == .firstElementMarker) then .leaf .labelList else .branch .labelList labels

/-- Separates a tuple element from its name. The label is the name, or a marker if there is none;
there is no label if the name carries no text. -/
def splitLabel (element : Node) : Option Node × Node :=
  match element.children.findIdx? (·.kind == .tupleElementName) with
  | none => (some (.leaf .firstElementMarker), element)
  | some i =>
    (((element.child? i).bind Node.text?).map Node.identifier, element.removeChildAt i)

/-- Separates tuple elements from their names, up to the first one whose name carries no text. -/
def splitLabels : List Node → Option (List Node) × List Node
  | [] => (some [], [])
  | e :: es =>
    match splitLabel e with
    | (none, e) => (none, e :: es)
    | (some l, e) =>
      let (ls, es) := splitLabels es
      (ls.map (l :: ·), e :: es)

/-- Takes one label for each of `n` parameters. -/
def popLabelNodes : Nat → List Node → Decoder (List Node)
  | 0, later => return later
  | n + 1, later => do
    let l ← pop
    require (l.kind == .identifier || l.kind == .firstElementMarker)
    popLabelNodes n (l :: later)

/-- Takes the labels that belong to the parameters of type `t`. Inline labels are removed from the
type, which is why the type is part of the result. -/
def popLabels (t : Option Node) : Decoder (Option Node × Option Node) := do
  let inline ← (·.inlineLabels) <$> read
  if !inline then
    if ← popMarker .emptyList then return (some (.leaf .labelList), t)
  match t.filter (·.kind == .type) with
  | none => return (none, t)
  | some ty =>
    match (parameterPath ty).bind fun path => (ty.follow? path).map ((path, ·)) with
    | none => return (none, t)
    | some (path, parameters) =>
      let count := if parameters.kind == .tuple then parameters.count else 1
      if count == 0 then return (none, t)
      else if inline then
        if parameters.kind != .tuple then return (some (.leaf .labelList), t)
        else
          let (labels, elements) := splitLabels parameters.children
          return (labels.map labelList,
            some (ty.modifyAt (fun p => { p with children := elements }) path))
      else
        return ((← attempt (popLabelNodes count [])).map labelList, t)

/-- Takes an element of a tuple: a type, with a name and a variadic marker above it. -/
def popTupleElement : Decoder Node := do
  let variadic ← popKind? .variadicMarker
  let name ← popKind? .identifier
  let ty ← popKind .type
  return .branch .tupleElement
    (variadic.toList ++ (name.map (·.withKind .tupleElementName)).toList ++ [ty])

/-- Takes a tuple. -/
def popTuple : Decoder Node := do
  return .typeOf (.branch .tuple (← popList popTupleElement))

end SwiftMangling.Current
