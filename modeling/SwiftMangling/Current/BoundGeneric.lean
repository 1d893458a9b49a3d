import SwiftMangling.Current.State
import SwiftMangling.Node.Path

/-!
# Bound generic types

A bound generic type has one list of arguments for the type itself and one for each of the
declarations around it that take arguments, the innermost first. `bindArguments` attaches the
lists to the declarations they belong to.
-/

namespace SwiftMangling.Current

open Decoding

/-- The kind of a bound generic type of the given kind. -/
def boundKind? : Kind → Option Kind
  | .classType => some .boundGenericClass
  | .structureType => some .boundGenericStructure
  | .enumType => some .boundGenericEnum
  | .protocolType => some .boundGenericProtocol
  | .otherNominalType => some .boundGenericOtherNominalType
  | .typeAlias => some .boundGenericTypeAlias
  | _ => none

/-- Binds a declaration to a list of arguments. -/
def bindOne? (n arguments : Node) : Option Node :=
  match n.kind with
  | .function | .constructor => some (.branch .boundGenericFunction [n, arguments])
  | k => (boundKind? k).map fun k => .branch k [.typeOf n, arguments]

/-- Declarations that take no generic arguments of their own. -/
def takesNoArguments : Kind → Bool
  | .variableDecl | .explicitClosure | .subscript => true
  | _ => false

/-- Attaches argument lists, the innermost first, to a declaration and to those around it. An empty
list binds nothing, and a symbolic reference takes all that are left. -/
def bindArguments (n : Node) (lists : List Node) : Option Node :=
  match lists with
  | [] => none
  | arguments :: outer =>
    if n.kind == .typeSymbolicReference || n.kind == .protocolSymbolicReference then
      some (.branch .boundGenericOtherNominalType
        [.typeOf n, .branch .typeList (lists.reverse.flatMap Node.children)])
    else
      match _h : n.children with
      | [] => none
      | context :: parts =>
        let consumes := !takesNoArguments n.kind
        let left := if consumes then outer else lists
        let rebuilt :=
          if left.isEmpty then some n
          else
            let bound :=
              if context.kind == .extension then
                match _he : context.children with
                | m :: extended :: more =>
                  (bindArguments extended left).map fun b =>
                    .branch .extension (m :: b :: more.take 1)
                | _ => none
              else bindArguments context left
            bound.map fun b => .branch n.kind (b :: parts)
        if !consumes || arguments.count == 0 then rebuilt
        else rebuilt.bind (bindOne? · arguments)
termination_by sizeOf n
decreasing_by
  · have h1 := Node.sizeOf_lt_of_mem_children (c := context) (n := n) (by simp [_h])
    have h2 := Node.sizeOf_lt_of_mem_children (c := extended) (n := context) (by simp [_he])
    omega
  · exact Node.sizeOf_lt_of_mem_children (by simp [_h])

/-- Takes the retroactive conformances on top of the stack as a list, if there are any. -/
def popRetroactiveConformances : Decoder (Option Node) := do
  match ← popRun (· == .retroactiveConformance) with
  | [] => return none
  | cs => return some (.branch .typeList cs)

/-- Takes argument lists, at most `n` of them: types down to a marker, which is the marker of the
empty list below the outermost ones. -/
def popArgumentLists : Nat → Decoder (List Node)
  | 0 => failure
  | n + 1 => do
    let types ← popRun (· == .type)
    let list := Node.branch .typeList types
    if ← popMarker .emptyList then return [list]
    let _ ← popKind .firstElementMarker
    return list :: (← popArgumentLists n)

/-- Takes the argument lists of a bound generic type, the innermost first, and its retroactive
conformances. -/
def popBoundGenerics : Decoder (List Node × Option Node) := do
  let conformances ← popRetroactiveConformances
  return (← popArgumentLists ((← stackSize) + 1), conformances)

/-- Takes a bound generic type. -/
def boundGenericType : Decoder Node := do
  let (lists, conformances) ← popBoundGenerics
  let n ← popBindable
  let bound ← ofOption (bindArguments n lists)
  remember (.typeOf (conformances.elim bound bound.addChild))

end SwiftMangling.Current
