import SwiftMangling.Current.Generic
import SwiftMangling.Current.FunctionType

/-!
# Lowered function types

A lowered function type spells the convention of the callee and of each parameter, result and
yield. The types of these items are on the stack, in the same order.
-/

namespace SwiftMangling.Current

open Decoding

/-- The only element of a list. -/
def single? : List Node → Option Node
  | [n] => some n
  | _ => none

/-- Reads the substitutions of a lowered function type for its pattern and for its invocation. -/
def loweredSubstitutions : Decoder (List Node) := do
  let pattern ←
    if ← nextIf 's' then
      let (lists, conformances) ← popBoundGenerics
      let signature ← popKind .dependentGenericSignature
      let list ← ofOption (single? lists)
      pure [Node.branch .implPatternSubstitutions ([signature, list] ++ conformances.toList)]
    else pure []
  let invocation ←
    if ← nextIf 'I' then
      let (lists, conformances) ← popBoundGenerics
      let list ← ofOption (single? lists)
      pure [Node.branch .implInvocationSubstitutions (list :: conformances.toList)]
    else pure []
  return pattern ++ invocation

/-- Takes the generic signature of a lowered function type, which `P` makes a pseudogeneric one. -/
def loweredSignature : Decoder (Option Node) := do
  match ← popKind? .dependentGenericSignature with
  | none => return none
  | some signature =>
    if ← nextIf 'P' then return some (signature.withKind .dependentPseudogenericSignature)
    else return some signature

/-- The text of the callee's convention. -/
def calleeConvention? : Char → Option String
  | 'y' => some "@callee_unowned"
  | 'g' => some "@callee_guaranteed"
  | 'x' => some "@callee_owned"
  | 't' => some "@convention(thin)"
  | _ => none

/-- A calling convention, with the spelling of a foreign type if there is one. -/
def conventionNode (name : String) (foreign : Option Node) : Node :=
  .branch .implFunctionConvention (.ofText .implFunctionConventionName name :: foreign.toList)

/-- Reads the calling convention of a function, if one is given. -/
def functionConvention : Decoder (Option Node) := do
  match ← nextChar with
  | 'B' => return some (conventionNode "block" none)
  | 'C' => return some (conventionNode "c" none)
  | 'z' =>
    match ← nextChar with
    | 'B' => return some (conventionNode "block" (some (← clangType)))
    | 'C' => return some (conventionNode "c" (some (← clangType)))
    | _ =>
      pushBack
      pushBack
      return none
  | 'M' => return some (conventionNode "method" none)
  | 'O' => return some (conventionNode "objc_method" none)
  | 'K' => return some (conventionNode "closure" none)
  | 'W' => return some (conventionNode "witness_method" none)
  | _ =>
    pushBack
    return none

/-- The text of a parameter's convention. -/
def parameterConvention? : Char → Option String
  | 'i' => some "@in"
  | 'c' => some "@in_constant"
  | 'l' => some "@inout"
  | 'b' => some "@inout_aliasable"
  | 'n' => some "@in_guaranteed"
  | 'x' => some "@owned"
  | 'g' => some "@guaranteed"
  | 'e' => some "@deallocating"
  | 'y' => some "@unowned"
  | _ => none

/-- The text of a result's convention. -/
def resultConvention? : Char → Option String
  | 'r' => some "@out"
  | 'o' => some "@owned"
  | 'd' => some "@unowned"
  | 'u' => some "@unowned_inner_pointer"
  | 'a' => some "@autoreleased"
  | _ => none

/-- Reads a convention, which stays unread if `table` does not know it. -/
def itemConvention (table : Char → Option String) : Decoder Node := do
  let convention ← ofOption ((← peekChar?).bind table)
  let _ ← nextByte
  return .ofText .implConvention convention

/-- An item of a lowered function type without its type. -/
structure Item where
  kind : Kind
  /-- The convention, and a mark if the item is not differentiated. -/
  parts : List Node

/-- Reads an item that can carry a mark. -/
def markedItem (k : Kind) (table : Char → Option String) : Decoder Item := do
  let convention ← itemConvention table
  let mark ←
    if ← nextIf 'w' then pure [.ofText .implParameterResultDifferentiability "@noDerivative"]
    else pure []
  return ⟨k, convention :: mark⟩

/-- Reads yields, at most `n` of them. -/
def yields : Nat → Decoder (List Item)
  | 0 => return []
  | n + 1 => do
    if ← nextIf 'Y' then
      let item := ⟨.implYield, [← itemConvention parameterConvention?]⟩
      return item :: (← yields n)
    else return []

/-- Reads the items of a lowered function type: parameters, results, yields and the error result. -/
def loweredItems : Decoder (List Item) := do
  let parameters ← many (← remaining) (markedItem .implParameter parameterConvention?)
  let results ← many (← remaining) (markedItem .implResult resultConvention?)
  let yielded ← yields (← remaining)
  let error ←
    if ← nextIf 'z' then pure [⟨.implErrorResult, [← itemConvention resultConvention?]⟩]
    else pure []
  return parameters ++ results ++ yielded ++ error

/-- Takes the types of items, which are given last first; `later` are the items after them. -/
def popItemTypes : List Item → List Node → Decoder (List Node)
  | [], later => return later
  | i :: is, later => do
    let t ← popKind .type
    popItemTypes is (.branch i.kind (i.parts ++ [t]) :: later)

/-- An attribute with the given text, if it is present. -/
def attributeIf (isPresent : Bool) (s : String) : List Node :=
  if isPresent then [.ofText .implFunctionAttribute s] else []

/-- Reads a lowered function type. -/
def loweredFunctionType : Decoder Node := do
  let substitutions ← loweredSubstitutions
  let signature ← loweredSignature
  let escaping ← nextIf 'e'
  let differentiability ←
    if ← nextIf 'd' then
      let d ← ofOption (Differentiability.ofCode? (← nextChar))
      pure [Node.ofPayload .implDifferentiability (.differentiability d)]
    else pure []
  let callee ← ofOption (calleeConvention? (← nextChar))
  let convention ← functionConvention
  let yieldsOnce ← nextIf 'A'
  let yieldsMany ← if yieldsOnce then pure false else nextIf 'G'
  let sendable ← nextIf 'h'
  let async ← nextIf 'H'
  let items ← loweredItems
  expect '_'
  let typed ← popItemTypes items.reverse []
  return .typeOf (.branch .implFunctionType
    (substitutions ++ (if escaping then [.leaf .implEscaping] else []) ++ differentiability ++
      [.ofText .implConvention callee] ++ convention.toList ++
      attributeIf yieldsOnce "@yield_once" ++ attributeIf yieldsMany "@yield_many" ++
      attributeIf sendable "@Sendable" ++ attributeIf async "@async" ++ signature.toList ++ typed))

end SwiftMangling.Current
