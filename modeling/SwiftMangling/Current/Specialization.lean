import SwiftMangling.Current.State

/-!
# Specializations

A specialization names the pass that made it and what it did: the types it put in place of generic
parameters, or the changes it made to the parameters of a function. Constants and closures that
were propagated into a function are on the stack, in the order of the parameters.
-/

namespace SwiftMangling.Current

open Decoding

/-- Reads whether the function was serialized, and the pass. -/
def specializationHeader : Decoder (List Node) := do
  let serialized ← nextIf 'q'
  let c ← nextChar
  require c.isDigit
  return (if serialized then [.leaf .isSerialized] else []) ++
    [.ofIndex .specializationPassID (UInt64.ofNat (c.toNat - '0'.toNat))]

/-- Reads a specialization for the types on the stack. -/
def genericSpecialization (k : Kind) : Decoder Node := do
  let header ← specializationHeader
  let types ← popTypeList
  return .branch k
    (header ++ types.children.map fun t => .branch .genericSpecializationParam [t])

/-- Reads a specialization of some of the generic parameters. -/
def partialSpecialization (k : Kind) : Decoder Node := do
  let header ← specializationHeader
  return .branch k (header ++ [← aroundType .genericSpecializationParam])

/-- Reads a letter that adds `o` to the options of a parameter. -/
def optionIf (c : Char) (o : ParamOption) : Decoder (List ParamOption) := do
  if ← nextIf c then return [o] else return []

/-- Reads the letters that add options after `first`; a parameter that is not dead yet can be
so. -/
def paramOptions (first : ParamOption) (canBeDead : Bool) : Decoder Node := do
  let dead ← if canBeDead then optionIf 'D' .dead else pure []
  let guaranteed ← optionIf 'G' .ownedToGuaranteed
  let owned ← optionIf 'O' .guaranteedToOwned
  let exploded ← optionIf 'X' .exploded
  return .paramKind (.ofOptions (first :: dead ++ guaranteed ++ owned ++ exploded))

/-- Reads the digits of a propagated number. -/
def propagatedNumber (c : ParamChange) : Decoder (List Node) := do
  let run ← takeWhile Cursor.isDigit
  require !run.isEmpty
  return [.paramKind (.ofChange c), .paramPayload (String.ofList run)]

/-- Reads the encoding of a propagated string. -/
def propagatedString : Decoder (List Node) := do
  let encoding ←
    match ← nextChar with
    | 'b' => pure "u8"
    | 'w' => pure "u16"
    | 'c' => pure "objc"
    | _ => failure
  return [.paramKind (.ofChange .constantString), .paramPayload encoding]

/-- Reads what happened to a parameter; nothing if it is unchanged. -/
def paramChange : Decoder (List Node) := do
  match ← nextChar with
  | 'n' => return []
  | 'c' => return [.paramKind (.ofChange .closure)]
  | 'p' =>
    match ← nextChar with
    | 'f' => return [.paramKind (.ofChange .constantFunction)]
    | 'g' => return [.paramKind (.ofChange .constantGlobal)]
    | 'i' => propagatedNumber .constantInteger
    | 'd' => propagatedNumber .constantFloat
    | 's' => propagatedString
    | _ => failure
  | 'e' => return [← paramOptions .existentialToGeneric true]
  | 'd' => return [← paramOptions .dead false]
  | 'g' =>
    return [.paramKind (.ofOptions (.ownedToGuaranteed :: (← optionIf 'X' .exploded)))]
  | 'o' =>
    return [.paramKind (.ofOptions (.guaranteedToOwned :: (← optionIf 'X' .exploded)))]
  | 'x' => return [.paramKind (.ofOptions [.exploded])]
  | 'i' => return [.paramKind (.ofChange .boxToValue)]
  | 's' => return [.paramKind (.ofChange .boxToStack)]
  | 'r' => return [.paramKind (.ofChange .inOutToOut)]
  | _ => failure

/-- Reads what happened to a parameter as a node of the given kind. -/
def paramNode (k : Kind) : Decoder Node := do
  return .branch k (← paramChange)

/-- The change to a parameter, if it has one that leaves something on the stack. -/
def stackedChange? (p : Node) : Option ParamChange :=
  match p.first?.map Node.payload with
  | some (.specialization k) =>
    k.change?.filter fun
      | .constantFunction | .constantGlobal | .constantString | .closure => true
      | _ => false
  | _ => none

/-- The name of a propagated constant; the name of a string may have an underscore in front of
it. -/
def constantName (c : ParamChange) (s : String) : String :=
  match c, s.toList with
  | .constantString, '_' :: rest => String.ofList rest
  | _, _ => s

/-- Takes the types of the arguments of a closure; other constants must have none. -/
def popArgumentTypes (c : ParamChange) : Decoder (List Node) := do
  if c == .closure then popRun (· == .type)
  else
    require !(← popMarker .type)
    return []

/-- Takes what belongs to a parameter: its name, and the types of the arguments of a closure. -/
def popParamPayload (p : Node) : Decoder Node := do
  match stackedChange? p with
  | none => return p
  | some c =>
    let types ← popArgumentTypes c
    let name ← popKind .identifier
    let s ← ofOption name.text?
    return p.addChildren (.paramPayload (constantName c s) :: types)

/-- Takes what belongs to parameters, which are given last first; `later` are those after them. -/
def popParamPayloads : List Node → List Node → Decoder (List Node)
  | [], later => return later
  | p :: ps, later => do
    let p ← popParamPayload p
    popParamPayloads ps (p :: later)

/-- Reads a function signature specialization. -/
def functionSpecialization : Decoder Node := do
  let header ← specializationHeader
  let params ← manyUntil '_' (paramNode .functionSignatureSpecializationParam)
  let result ←
    if ← nextIf 'n' then pure []
    else do pure [← paramNode .functionSignatureSpecializationReturn]
  let params ← popParamPayloads params.reverse []
  return .branch .functionSignatureSpecialization (header ++ params ++ result)

end SwiftMangling.Current
