import SwiftMangling.Current.State

/-!
# Derivatives

Derivatives of functions name the parameters and results with respect to which they are taken by
strings of `S` (in the subset) and `U` (not in it).
-/

namespace SwiftMangling.Current

open Decoding

/-- The letters of the derivatives. -/
def isDerivativeCode : Char → Bool
  | 'f' | 'r' | 'd' | 'p' => true
  | _ => false

/-- Reads which derivative is meant. -/
def derivativeKind : Decoder Node := do
  let c ← nextChar
  require (isDerivativeCode c)
  return .ofIndex .autoDiffFunctionKind (UInt64.ofNat c.toNat)

/-- Reads a subset of parameters or results. -/
def indexSubset : Decoder Node := do
  let run ← takeWhile fun b => b == 'S'.toUInt8 || b == 'U'.toUInt8
  require !run.isEmpty
  return .ofText .indexSubset (String.ofList run)

/-- Reads a subset of parameters and one of results. -/
def parametersAndResults : Decoder (List Node) := do
  let parameters ← indexSubset
  expect 'p'
  let results ← indexSubset
  expect 'r'
  return [parameters, results]

/-- Reads a derivative of what is on the stack. -/
def derivative (k : Kind) : Decoder Node := do
  let base ← popAll
  let kind ← derivativeKind
  return .branch k (base ++ kind :: (← parametersAndResults))

/-- Reads a thunk that passes a subset of the parameters to a derivative. -/
def subsetParametersThunk : Decoder Node := do
  let base ← popAll
  let kind ← derivativeKind
  let subsets ← parametersAndResults
  let target ← indexSubset
  expect 'P'
  return .branch .autoDiffSubsetParametersThunk (base ++ kind :: subsets ++ [target])

/-- Reads a thunk that moves the `self` parameter of a derivative. -/
def selfReorderingThunk : Decoder Node := do
  let signature ← popKind? .dependentGenericSignature
  let target ← popKind .type
  let source ← popKind .type
  let kind ← derivativeKind
  return .branch .autoDiffSelfReorderingReabstractionThunk
    ([source, target] ++ signature.toList ++ [kind])

/-- Reads a differentiability witness. -/
def differentiabilityWitness : Decoder Node := do
  let signature ← popKind? .dependentGenericSignature
  let base ← popAll
  let d ← ofOption (Differentiability.ofCode? (← nextChar))
  let subsets ← parametersAndResults
  return .branch .differentiabilityWitness
    (base ++ .ofPayload .index (.differentiability d) :: subsets ++ signature.toList)

end SwiftMangling.Current
