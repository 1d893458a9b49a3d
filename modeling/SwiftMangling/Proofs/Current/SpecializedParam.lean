import Mathlib.Data.List.Induction
import SwiftMangling.Current.Specialization
import SwiftMangling.Proofs.Current.Operand

/-!
# Function signature specializations

The codes of the parameters are read from the first to the last. What belongs to constants and
closures stands on the stack in the same order, so it is taken for the last parameter first. A
`SpecializedParam` says what happened to one parameter and what it has on the stack; its code is
read without regard to the others (`turns_paramChange`), and it takes exactly its own operands
(`turns_popParamPayload`). So each parameter gets what is its own, whatever the others are
(`functionSpecialization_params`).
-/

namespace SwiftMangling.Current

open Decoding Node

/-! ## Parameters -/

/-- The digits of a number, as they are written. -/
structure Digits where
  bytes : List UInt8
  nonempty : bytes ≠ []
  isDigit : ∀ b ∈ bytes, Cursor.isDigit b = true

/-- The digits as a text. -/
def Digits.text (n : Digits) : String :=
  String.ofList (n.bytes.map charOfByte)

/-- An identifier with a text. -/
structure NameNode where
  node : NodeOf .identifier
  text : String
  hasText : node.val.text? = some text

/-- The encoding of a string. -/
inductive StringEncoding where
  | utf8
  | utf16
  | objectiveC

/-- The letter of an encoding. -/
def StringEncoding.letter : StringEncoding → Char
  | .utf8 => 'b'
  | .utf16 => 'w'
  | .objectiveC => 'c'

/-- The text of an encoding. -/
def StringEncoding.text : StringEncoding → String
  | .utf8 => "u8"
  | .utf16 => "u16"
  | .objectiveC => "objc"

/-- What happened to a parameter, with what it has on the stack. -/
inductive SpecializedParam where
  | unchanged
  | existentialToGeneric (dead guaranteed owned exploded : Bool)
  | dead (guaranteed owned exploded : Bool)
  | ownedToGuaranteed (exploded : Bool)
  | guaranteedToOwned (exploded : Bool)
  | exploded
  | boxToValue
  | boxToStack
  | inOutToOut
  | integer (digits : Digits)
  | float (digits : Digits)
  | function (name : NameNode)
  | global (name : NameNode)
  | string (encoding : StringEncoding) (name : NameNode)
  | closure (name : NameNode) (types : List (NodeOf .type))

/-- An option if it is chosen. -/
def chosen (b : Bool) (o : ParamOption) : List ParamOption :=
  if b then [o] else []

/-- A text without an underscore in front of it. -/
def withoutUnderscore (s : String) : String :=
  if s.toList.head? = some '_' then String.ofList s.toList.tail else s

namespace SpecializedParam

/-- The code of a parameter. -/
def spelling : SpecializedParam → List UInt8
  | .unchanged => ['n'.toUInt8]
  | .existentialToGeneric d g o x =>
    'e'.toUInt8 :: (optional d 'D' ++ (optional g 'G' ++ (optional o 'O' ++ optional x 'X')))
  | .dead g o x => 'd'.toUInt8 :: (optional g 'G' ++ (optional o 'O' ++ optional x 'X'))
  | .ownedToGuaranteed x => 'g'.toUInt8 :: optional x 'X'
  | .guaranteedToOwned x => 'o'.toUInt8 :: optional x 'X'
  | .exploded => ['x'.toUInt8]
  | .boxToValue => ['i'.toUInt8]
  | .boxToStack => ['s'.toUInt8]
  | .inOutToOut => ['r'.toUInt8]
  | .integer n => 'p'.toUInt8 :: 'i'.toUInt8 :: n.bytes
  | .float n => 'p'.toUInt8 :: 'd'.toUInt8 :: n.bytes
  | .function _ => ['p'.toUInt8, 'f'.toUInt8]
  | .global _ => ['p'.toUInt8, 'g'.toUInt8]
  | .string e _ => ['p'.toUInt8, 's'.toUInt8, e.letter.toUInt8]
  | .closure _ _ => ['c'.toUInt8]

/-- What a parameter has on the stack, the oldest node first. -/
def operands : SpecializedParam → List Node
  | .function name | .global name | .string _ name => [name.node]
  | .closure name types => name.node :: types.map Subtype.val
  | _ => []

/-- What the code of a parameter says. -/
def codeParts : SpecializedParam → List Node
  | .unchanged => []
  | .existentialToGeneric d g o x =>
    [.paramKind (.ofOptions (.existentialToGeneric :: chosen d .dead ++
      chosen g .ownedToGuaranteed ++ chosen o .guaranteedToOwned ++ chosen x .exploded))]
  | .dead g o x =>
    [.paramKind (.ofOptions (.dead :: chosen g .ownedToGuaranteed ++
      chosen o .guaranteedToOwned ++ chosen x .exploded))]
  | .ownedToGuaranteed x => [.paramKind (.ofOptions (.ownedToGuaranteed :: chosen x .exploded))]
  | .guaranteedToOwned x => [.paramKind (.ofOptions (.guaranteedToOwned :: chosen x .exploded))]
  | .exploded => [.paramKind (.ofOptions [.exploded])]
  | .boxToValue => [.paramKind (.ofChange .boxToValue)]
  | .boxToStack => [.paramKind (.ofChange .boxToStack)]
  | .inOutToOut => [.paramKind (.ofChange .inOutToOut)]
  | .integer n => [.paramKind (.ofChange .constantInteger), .paramPayload n.text]
  | .float n => [.paramKind (.ofChange .constantFloat), .paramPayload n.text]
  | .function _ => [.paramKind (.ofChange .constantFunction)]
  | .global _ => [.paramKind (.ofChange .constantGlobal)]
  | .string e _ => [.paramKind (.ofChange .constantString), .paramPayload e.text]
  | .closure _ _ => [.paramKind (.ofChange .closure)]

/-- What the operands of a parameter say: the name of a constant or a closure, and the types of the
arguments of a closure. -/
def operandParts : SpecializedParam → List Node
  | .function name | .global name => [.paramPayload name.text]
  | .string _ name => [.paramPayload (withoutUnderscore name.text)]
  | .closure name types => .paramPayload name.text :: types.map Subtype.val
  | _ => []

/-- The node of a parameter before its operands are taken. -/
def codeNode (p : SpecializedParam) : Node :=
  .branch .functionSignatureSpecializationParam p.codeParts

/-- The node of a parameter. -/
def node (p : SpecializedParam) : Node :=
  .branch .functionSignatureSpecializationParam (p.codeParts ++ p.operandParts)

end SpecializedParam

/-! ## Codes -/

variable {r : Config} {s : State} {rest : List UInt8} {stack below : List Node}

/-- The bytes that would go on with the code of a parameter. -/
def extendsCode (b : UInt8) : Bool :=
  Cursor.isDigit b || oneOf ['D', 'G', 'O', 'X'] b

/-- An option is found exactly if its letter is there. -/
theorem turns_optionIf {c : Char} {o : ParamOption} {b : Bool} (h : Clear (· == c.toUInt8) rest) :
    Turns r s (optionIf c o) (optional b c) rest stack stack (chosen b o) := by
  refine .last (.nextIf_optional h) ?_
  cases b <;> exact .ret

/-- Only a parameter that is not dead yet has the letter for it. -/
theorem turns_deadIf {canBeDead d : Bool} (hd : (d && !canBeDead) = false)
    (h : Clear (· == 'D'.toUInt8) rest) :
    Turns r s (if canBeDead then optionIf 'D' .dead else pure []) (optional d 'D') rest stack stack
      (chosen d .dead) := by
  cases canBeDead with
  | true => exact turns_optionIf h
  | false =>
    obtain rfl : d = false := by simpa using hd
    exact .ret

/-- The options stand in one order, each with its letter or left out. -/
theorem turns_paramOptions {first : ParamOption} {canBeDead d g o x : Bool}
    (hd : (d && !canBeDead) = false) (h : Clear extendsCode rest) :
    Turns r s (paramOptions first canBeDead)
      (optional d 'D' ++ (optional g 'G' ++ (optional o 'O' ++ optional x 'X'))) rest stack stack
      (.paramKind (.ofOptions (first :: chosen d .dead ++ chosen g .ownedToGuaranteed ++
        chosen o .guaranteedToOwned ++ chosen x .exploded))) := by
  refine .bind_ite (turns_deadIf hd ?_) (.bind (turns_optionIf ?_) (.bind (turns_optionIf ?_)
    (.last (turns_optionIf h.ne) .ret)))
  · exact (Clear.append clear_optional (Clear.append clear_optional clear_optional)).append h.ne
  · exact (Clear.append clear_optional clear_optional).append h.ne
  · exact Clear.append clear_optional h.ne

theorem turns_propagatedNumber (c : ParamChange) (n : Digits) (h : Clear extendsCode rest) :
    Turns r s (propagatedNumber c) n.bytes rest stack stack
      [.paramKind (.ofChange c), .paramPayload n.text] := by
  have hend : Clear Cursor.isDigit rest := h.mono fun x hx => by simp [extendsCode, hx]
  refine .last (.takeWhile n.isDigit hend) (.step (.require ?_) .ret)
  simpa using n.nonempty

/-- What a specialized parameter says of itself is read back from its code. -/
theorem turns_paramChange (p : SpecializedParam) (h : Clear extendsCode rest) :
    Turns r s paramChange p.spelling rest stack stack p.codeParts := by
  unfold paramChange
  -- one letter or two for each form, and the letters of its options
  cases p with
  | unchanged => exact .last .nextChar .ret
  | existentialToGeneric d g o x =>
    exact .bind (p := [_]) .nextChar (.last (turns_paramOptions (Bool.and_false d) h) .ret)
  | dead g o x =>
    exact .bind (p := [_]) .nextChar (.last (turns_paramOptions (d := false) rfl h) .ret)
  | ownedToGuaranteed x => exact .bind (p := [_]) .nextChar (.last (turns_optionIf h.ne) .ret)
  | guaranteedToOwned x => exact .bind (p := [_]) .nextChar (.last (turns_optionIf h.ne) .ret)
  | exploded => exact .last .nextChar .ret
  | boxToValue => exact .last .nextChar .ret
  | boxToStack => exact .last .nextChar .ret
  | inOutToOut => exact .last .nextChar .ret
  | integer n =>
    exact .bind (p := [_]) .nextChar
      (.bind (p := [_]) .nextChar (turns_propagatedNumber _ n h))
  | float n =>
    exact .bind (p := [_]) .nextChar
      (.bind (p := [_]) .nextChar (turns_propagatedNumber _ n h))
  | function name => exact .bind (p := [_]) .nextChar (.last .nextChar .ret)
  | global name => exact .bind (p := [_]) .nextChar (.last .nextChar .ret)
  | string e name =>
    cases e <;>
      exact .bind (p := [_]) .nextChar (.bind (p := [_]) .nextChar (.last .nextChar .ret))
  | closure name types => exact .last .nextChar .ret

theorem readsEach_paramNode : ReadsEach r s (paramNode .functionSignatureSpecializationParam)
    SpecializedParam.spelling SpecializedParam.codeNode extendsCode where
  reads p _ _ h := .last (turns_paramChange p h) .ret
  nonempty p := by cases p <;> exact List.cons_ne_nil _ _
  clear p := by cases p <;> exact .cons

/-! ## Operands -/

theorem constantName_string (s : String) :
    constantName .constantString s = withoutUnderscore s := by
  unfold constantName withoutUnderscore
  split
  next tail htail => simp [htail]
  next hother =>
    rw [if_neg]
    intro hhead
    obtain ⟨tail, htail⟩ := List.head?_eq_some_iff.mp hhead
    exact hother tail rfl htail

section Payload

variable {n : Node} {c : ParamChange}

/-- A change without a payload on the stack takes nothing. -/
theorem turns_popNothing (h : stackedChange? n = none) :
    Turns r s (popParamPayload n) [] rest stack stack n := by
  unfold popParamPayload
  rw [h]
  exact .ret

/-- A constant takes its name, and finds no type on top of it. -/
theorem turns_popConstant (h : stackedChange? n = some c) (hc : (c == .closure) = false)
    (name : NameNode) :
    Turns r s (popParamPayload n) [] rest (name.node :: below) below
      (n.addChildren [.paramPayload (constantName c name.text)]) := by
  have hbare : Bare .type (name.node.val :: below) := .cons (by rw [name.node.property]; decide)
  have htypes : Turns r s (popArgumentTypes c) [] rest (name.node :: below) (name.node :: below)
      [] := by
    unfold popArgumentTypes
    rw [hc]
    exact .step (.popMarker_false hbare) (.step (.require rfl) .ret)
  unfold popParamPayload
  rw [h]
  exact .step htypes (.step (.popKind name.node.property) (.step (.ofOption name.hasText) .ret))

/-- A closure takes all types down to its name. -/
theorem turns_popClosure (h : stackedChange? n = some .closure) (name : NameNode)
    (types : List (NodeOf .type)) :
    Turns r s (popParamPayload n) [] rest
      ((name.node.val :: types.map Subtype.val).reverse ++ below) below
      (n.addChildren (.paramPayload name.text :: types.map Subtype.val)) := by
  -- the identifier below the types ends the run of them
  have hbare : Bare .type (name.node.val :: below) := .cons (by rw [name.node.property]; decide)
  have hkind : ∀ t ∈ types.map Subtype.val, t.kind = .type := by
    intro t ht
    obtain ⟨t, -, rfl⟩ := List.mem_map.mp ht
    exact t.property
  unfold popParamPayload
  rw [h, List.reverse_cons, List.append_assoc]
  exact .step (.popRun hkind hbare)
    (.step (.popKind name.node.property) (.step (.ofOption name.hasText) .ret))

end Payload

/-- A parameter takes exactly its operands, whatever is below them. -/
theorem turns_popParamPayload (p : SpecializedParam) :
    Turns r s (popParamPayload p.codeNode) [] rest (p.operands.reverse ++ below) below p.node := by
  -- only constants and closures take operands
  cases p with
  | unchanged => exact turns_popNothing rfl
  | existentialToGeneric d g o x =>
    cases d <;> cases g <;> cases o <;> cases x <;> exact turns_popNothing rfl
  | dead g o x => cases g <;> cases o <;> cases x <;> exact turns_popNothing rfl
  | ownedToGuaranteed x => cases x <;> exact turns_popNothing rfl
  | guaranteedToOwned x => cases x <;> exact turns_popNothing rfl
  | exploded => exact turns_popNothing rfl
  | boxToValue => exact turns_popNothing rfl
  | boxToStack => exact turns_popNothing rfl
  | inOutToOut => exact turns_popNothing rfl
  | integer n => exact turns_popNothing rfl
  | float n => exact turns_popNothing rfl
  | function name => exact turns_popConstant (c := .constantFunction) rfl rfl name
  | global name => exact turns_popConstant (c := .constantGlobal) rfl rfl name
  | string e name =>
    have h : Turns r s (popParamPayload (SpecializedParam.string e name).codeNode) [] rest
        (name.node :: below) below ((SpecializedParam.string e name).codeNode.addChildren
          [.paramPayload (constantName .constantString name.text)]) :=
      turns_popConstant rfl rfl name
    rwa [constantName_string] at h
  | closure name types => exact turns_popClosure rfl name types

/-- Parameters take their operands from the last to the first, so each finds its own on top. -/
theorem turns_popParamPayloads (ps : List SpecializedParam) (later : List Node) :
    Turns r s (popParamPayloads (ps.map SpecializedParam.codeNode).reverse later) [] rest
      ((ps.flatMap SpecializedParam.operands).reverse ++ below) below
      (ps.map SpecializedParam.node ++ later) := by
  induction ps using List.reverseRecOn generalizing later with
  | nil => exact .ret
  | append_singleton ps p ih =>
    simp only [List.map_append, List.map_cons, List.map_nil, List.reverse_append,
      List.reverse_singleton, List.flatMap_append, List.flatMap_singleton, List.append_assoc,
      List.singleton_append]
    exact .step (turns_popParamPayload p) (ih (p.node :: later))

/-! ## The whole specialization -/

/-- The pass that made a specialization, and whether the function was serialized. -/
def passSpelling (serialized : Bool) (pass : Fin 10) : List UInt8 :=
  optional serialized 'q' ++ [letterFrom '0' pass]

/-- The nodes of the pass. -/
def passParts (serialized : Bool) (pass : Fin 10) : List Node :=
  (if serialized then [.leaf .isSerialized] else []) ++
    [.ofIndex .specializationPassID (UInt64.ofNat pass)]

theorem turns_specializationHeader (serialized : Bool) (pass : Fin 10) :
    Turns r s specializationHeader (passSpelling serialized pass) rest stack stack
      (passParts serialized pass) := by
  obtain ⟨hdigit, hvalue, hclear⟩ : (charOfByte (letterFrom '0' pass)).isDigit = true ∧
      (charOfByte (letterFrom '0' pass)).toNat - '0'.toNat = pass ∧
      (letterFrom '0' pass == 'q'.toUInt8) = false := by
    revert pass
    decide
  refine .bind (.nextIf_optional (.cons hclear)) (.last .nextChar (.step (.require hdigit) ?_))
  rw [hvalue]
  exact .ret

/-- The spelling of a specialization that changes nothing about the result. -/
def specializationSpelling (serialized : Bool) (pass : Fin 10) (ps : List SpecializedParam) :
    List UInt8 :=
  passSpelling serialized pass ++
    (ps.flatMap SpecializedParam.spelling ++ ['_'.toUInt8] ++ ['n'.toUInt8])

/-- Every parameter of a function signature specialization gets the payload and the types that are
its own, whatever the parameters around it have, and nothing below them is taken. -/
theorem functionSpecialization_params (r : Config) (s : State) (serialized : Bool) (pass : Fin 10)
    (ps : List SpecializedParam) (before rest : List UInt8) :
    functionSpecialization r
        { s with
          cursor := ⟨before, specializationSpelling serialized pass ps ++ rest⟩
          stack := (ps.flatMap SpecializedParam.operands).reverse ++ s.stack } =
      (some (.branch .functionSignatureSpecialization
          (passParts serialized pass ++ ps.map SpecializedParam.node)),
        { s with
          cursor := ⟨(specializationSpelling serialized pass ps).reverse ++ before, rest⟩ }) := by
  -- no code starts with the byte that ends the codes
  have hstop (p : SpecializedParam) : Clear (· == '_'.toUInt8) p.spelling := by
    cases p <;> exact .cons
  have hread : Turns r s functionSpecialization (specializationSpelling serialized pass ps) rest
      ((ps.flatMap SpecializedParam.operands).reverse ++ s.stack) s.stack
      (.branch .functionSignatureSpecialization
        (passParts serialized pass ++ ps.map SpecializedParam.node)) := by
    have hpop : Turns r s (popParamPayloads (ps.map SpecializedParam.codeNode).reverse []) [] rest
        ((ps.flatMap SpecializedParam.operands).reverse ++ s.stack) s.stack
        (ps.map SpecializedParam.node ++ []) := turns_popParamPayloads ps []
    rw [List.append_nil] at hpop
    refine .bind (turns_specializationHeader serialized pass)
      (.bind (readsEach_paramNode.manyUntil rfl hstop ps)
        (.last .nextIf (.step .ret (.step hpop ?_))))
    rw [List.append_nil]
    exact .ret
  exact hread before

end SwiftMangling.Current
