import SwiftMangling.Legacy.Name

/-!
# Specializations of the legacy scheme

Headers in front of a symbol say how the function was specialized.
-/

namespace SwiftMangling.Legacy

open Decoding

/-- Reads a type and the conformances that it brings along. -/
def genericParam : Decoder Node := do
  let t ← type
  return .branch .genericSpecializationParam (t :: (← manyUntil '_' conformance))

/-- Reads an identifier that `_` ends. -/
def terminatedIdentifier : Decoder String := do
  let s ← identifierText
  expect '_'
  return s

/-- Reads a text that `_` ends. -/
def terminatedText : Decoder String := do
  let run ← takeBytesWhile (· != '_'.toUInt8)
  expect '_'
  ofOption (Utf8.decode? run)

/-- What a specialization did to a parameter, with the texts that belong to it. -/
def changeNodes (c : ParamChange) (payloads : List String) : List Node :=
  .paramKind (.ofChange c) :: payloads.map .paramPayload

/-- Reads a propagated constant. -/
def propagatedConstant : Decoder (List Node) := do
  if ← nextIfText "fr" then return changeNodes .constantFunction [← terminatedIdentifier]
  else if ← nextIf 'g' then return changeNodes .constantGlobal [← terminatedIdentifier]
  else if ← nextIf 'i' then return changeNodes .constantInteger [← terminatedText]
  else if ← nextIfText "fl" then return changeNodes .constantFloat [← terminatedText]
  else if ← nextIfText "se" then
    let encoding ←
      if ← nextIf '0' then pure "u8"
      else do
        expect '1'
        pure "u16"
    expect 'v'
    return changeNodes .constantString [encoding, ← terminatedIdentifier]
  else failure

/-- Reads types up to a `_` or up to what is no type, at most `n` of them. -/
def closureTypes : Nat → Decoder (List Node)
  | 0 => return []
  | n + 1 => do
    if (← peekChar?) == some '_' then return []
    match ← attempt type with
    | none => return []
    | some t => return t :: (← closureTypes n)

/-- Reads a propagated closure: its name and the types of its arguments. -/
def propagatedClosure : Decoder (List Node) := do
  let name ← identifierText
  let types ← closureTypes ((← remaining) + 1)
  expect '_'
  return changeNodes .closure [name] ++ types

/-- The letters of the options of a parameter, in the order in which they are read. -/
def paramOptionCodes : List (Char × ParamOption) :=
  [('d', .dead), ('g', .ownedToGuaranteed), ('o', .guaranteedToOwned), ('s', .exploded)]

/-- Reads those of the given letters that come next, in this order. -/
def paramOptions : List (Char × ParamOption) → Decoder (List ParamOption)
  | [] => return []
  | (c, o) :: rest => do
    let found ← nextIf c
    let more ← paramOptions rest
    return if found then o :: more else more

/-- Reads the options of a parameter, of which there is at least one. -/
def optionParam : Decoder (List Node) := do
  let options ← paramOptions paramOptionCodes
  expect '_'
  require !options.isEmpty
  return [.paramKind (.ofOptions options)]

/-- Reads what happened to a parameter; nothing if it is unchanged. -/
def paramChange : Decoder (List Node) := do
  if ← nextIfText "n_" then return []
  else if ← nextIfText "cp" then propagatedConstant
  else if ← nextIfText "cl" then propagatedClosure
  else if ← nextIfText "i_" then return changeNodes .boxToValue []
  else if ← nextIfText "k_" then return changeNodes .boxToStack []
  else if ← nextIfText "r_" then return changeNodes .inOutToOut []
  else optionParam

/-- Reads a parameter of a function signature specialization. -/
def signatureParam : Decoder Node := do
  return .branch .functionSignatureSpecializationParam (← paramChange)

/-- Reads a specialization. Any byte from `0` on names a pass. -/
def specialization : Decoder Node := do
  let kind : Kind ←
    match ← nextChar with
    | 'g' => pure .genericSpecialization
    | 'r' => pure .genericSpecializationNotReAbstracted
    | 'f' => pure .functionSignatureSpecialization
    | _ => failure
  let serialized ← nextIf 'q'
  let pass ← nextChar
  require ('0' ≤ pass)
  let param := if kind == .functionSignatureSpecialization then signatureParam else genericParam
  let params ← manyUntil '_' param
  return .branch kind
    ((if serialized then [.leaf .isSerialized] else []) ++
      .ofIndex .specializationPassID (UInt64.ofNat (pass.toNat - '0'.toNat)) :: params)

/-- Reads the headers of a specialized symbol, at most `n` of them. Each of them has its own
references. -/
def specializations : Nat → Decoder (List Node)
  | 0 => failure
  | n + 1 => do
    let s ← specialization
    clearSubstitutions
    if ← nextIfText "_TTS" then return s :: (← specializations n)
    return [s]

end SwiftMangling.Legacy
