import SwiftMangling.Legacy.Generic

/-!
# Lowered function types of the legacy scheme

A lowered function type lists its parameters and results, each with its convention and its type.
-/

namespace SwiftMangling.Legacy

open Decoding

/-- What a convention is about. -/
inductive Role where
  | callee
  | parameter
  | result

/-- The text of a convention. -/
def convention? : Char → Role → Option String
  | 'a', .result => some "@autoreleased"
  | 'd', .callee => some "@callee_unowned"
  | 'd', _ => some "@unowned"
  | 'D', .result => some "@unowned_inner_pointer"
  | 'g', .callee => some "@callee_guaranteed"
  | 'g', .parameter => some "@guaranteed"
  | 'e', .parameter => some "@deallocating"
  | 'i', .parameter => some "@in"
  | 'i', .result => some "@out"
  | 'j', .parameter => some "@in_guaranteed"
  | 'k', .parameter => some "@in_constant"
  | 'l', .parameter => some "@inout"
  | 'o', .callee => some "@callee_owned"
  | 'o', _ => some "@owned"
  | _, _ => none

/-- Reads a convention. -/
def convention (r : Role) : Decoder Node := do
  return .ofText .implConvention (← ofOption (convention? (← nextChar) r))

/-- The name of a calling convention. -/
def callingConvention? : Char → Option String
  | 'b' => some "block"
  | 'c' => some "c"
  | 'm' => some "method"
  | 'O' => some "objc_method"
  | 'w' => some "witness_method"
  | _ => none

/-- Reads a calling convention, if one is given. -/
def callingConvention : Decoder (List Node) := do
  if ← nextIf 'C' then
    let name ← ofOption (callingConvention? (← nextChar))
    return [.branch .implFunctionConvention [.ofText .implFunctionConventionName name]]
  else return []

/-- Reads a letter that stands for an attribute of the function. -/
def attributeIf (c : Char) (s : String) : Decoder (List Node) := do
  if ← nextIf c then return [.ofText .implFunctionAttribute s] else return []

/-- Reads the generic signature of a lowered function type, if one is given. -/
def loweredSignature : Decoder (List Node) := do
  if ← nextIf 'G' then return [← genericSignature]
  else if ← nextIf 'g' then return [← signatureOf .dependentPseudogenericSignature]
  else return []

/-- Reads a parameter. -/
def loweredParameter : Decoder Node := do
  if ← nextIf 'z' then failure
  let c ← convention .parameter
  return .branch .implParameter [c, ← type]

/-- Reads a result or the error result. -/
def loweredResult : Decoder Node := do
  let isError ← nextIf 'z'
  let c ← convention .result
  return .branch (if isError then .implErrorResult else .implResult) [c, ← type]

/-- Reads a lowered function type. -/
def loweredFunctionType : Decoder Node := do
  let callee ←
    if ← nextIf 't' then pure (Node.ofText .implConvention "@convention(thin)")
    else convention .callee
  let calling ← callingConvention
  let sendable ← attributeIf 'h' "@Sendable"
  let async ← attributeIf 'H' "@async"
  let signature ← loweredSignature
  expect '_'
  let parameters ← manyUntil '_' loweredParameter
  let results ← manyUntil '_' loweredResult
  return .branch .implFunctionType
    (callee :: calling ++ sendable ++ async ++ signature ++ parameters ++ results)

end SwiftMangling.Legacy
