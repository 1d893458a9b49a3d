import SwiftMangling.Current.Operator
import SwiftMangling.Scheme

/-!
# Symbols of the current scheme

A whole symbol is a prefix and operators up to the end of the input. The attributes on top of the
stack belong to the symbol as a whole: a forwarder encloses everything below it, any other
attribute stands in front.
-/

namespace SwiftMangling.Current

open Decoding

/-- Operators that build a higher tree are refused. -/
def maxHeight : Nat := 256

/-- Reads operators up to the end of the input, at most `n` of them. -/
def operatorsFrom : Nat → Decoder Unit
  | 0 => failure
  | n + 1 => do
    if ← atEnd then return ()
    let node ← operator
    require (node.height ≤ maxHeight)
    push node
    operatorsFrom n

/-- Reads operators up to the end of the input. -/
def operators : Decoder Unit := do
  operatorsFrom ((← remaining) + 1)

/-- The attributes that enclose what they belong to. -/
def isForwarder : Kind → Bool
  | .partialApplyForwarder | .partialApplyObjCForwarder => true
  | _ => false

/-- Sorts attributes, the last one of the symbol first, into nested levels. The innermost level is
first in the result. -/
def attributeLevels (innermost : Node) (outer : List Node) : List Node → Node × List Node
  | [] => (innermost, outer)
  | a :: as =>
    if isForwarder a.kind then attributeLevels a (innermost :: outer) as
    else attributeLevels (innermost.addChild a) outer as

/-- A node of the stack as a part of a symbol: a type stands for its content. -/
def part? (n : Node) : Option Node :=
  if n.kind == .type then n.first? else some n

/-- Builds the root of a symbol from the nodes on the stack. -/
def symbolRoot : Decoder Node := do
  let attributes ← many (← stackSize) (popWhere Kind.isFunctionAttribute)
  let (innermost, outer) := attributeLevels (.leaf .global) [] attributes
  let parts ← ofOption ((← popAll).mapM part?)
  let root := outer.foldl (fun inner level => level.addChild inner) (innermost.addChildren parts)
  require (root.count != 0)
  return root

/-- Reads the name of a class or protocol as the runtime spells it: a module and a name, and
nothing after them. -/
def runtimeTypeName : Decoder Node := do
  let isProtocol ← if ← nextIf 'C' then pure false else do
    expect 'P'
    pure true
  let module ←
    if ← nextIf 's' then pure (Node.module Node.standardLibrary)
    else do pure ((← identifier).withKind .moduleName)
  let name ← identifier
  if isProtocol then expect '_'
  require (← atEnd)
  let t :=
    if isProtocol then
      let protocol := Node.typeOf (.branch .protocolType [module, name])
      Node.typeOf (.branch .protocolList [.branch .typeList [protocol]])
    else .typeOf (.branch .classType [module, name])
  return .branch .global [.branch .typeMangling [t]]

/-- Reads a whole symbol. -/
def symbol : Decoder Node := do
  if ← nextIfText "_Tt" then runtimeTypeName
  else
    let length ← look fun c => Scheme.prefixLength c.bytes
    require (length != 0)
    move fun c => ((), c.skip length)
    operators
    symbolRoot

/-- Reads a type without a prefix. Whatever is on top of the stack at the end, or where the input
goes wrong, is the result; without that it is the whole input, as a suffix. -/
def type : Decoder Node := do
  let _ ← attempt operators
  match ← attempt pop with
  | some n => return n
  | none => return .ofText .suffix (Utf8.lossy (← look Cursor.bytes))

/-- What decoding gives: the tree, and the references that were handed to the resolver. -/
structure Result where
  tree : Option Node
  references : List Reference

/-- Runs a decoder on an input. -/
def run (d : Decoder Node) (inlineLabels : Bool) (resolver : Option Resolver) (input : List UInt8) :
    Result :=
  let (tree, s) := d ⟨inlineLabels, resolver⟩ (State.start input)
  ⟨tree, s.references.toList⟩

/-- Decodes a symbol of the current scheme. -/
def decodeSymbol (resolver : Option Resolver) (input : List UInt8) : Result :=
  run symbol (Scheme.hasInlineLabels input) resolver input

/-- Decodes a type without a prefix. -/
def decodeType (resolver : Option Resolver) (input : List UInt8) : Result :=
  run type false resolver input

end SwiftMangling.Current
