import SwiftMangling.Text.Utf8

/-!
# Mangling schemes

A symbol starts with a prefix that tells which scheme it is written in.
-/

namespace SwiftMangling

/-- The two generations of the mangling. -/
inductive Scheme where
  | legacy
  /-- The current scheme, with the length of the prefix. -/
  | current (length : Nat)
  deriving DecidableEq

namespace Scheme

/-- The prefixes of the current scheme, in the order in which they are tried. -/
def currentPrefixes : List (List UInt8) :=
  ["_T0", "$S", "_$S", "$s", "_$s"].map Utf8.encode

/-- The prefix of the legacy scheme. -/
def legacyPrefix : List UInt8 :=
  Utf8.encode "_T"

/-- The length of the prefix of the current scheme, or 0 if there is none. -/
def prefixLength (symbol : List UInt8) : Nat :=
  match currentPrefixes.find? (·.isPrefixOf symbol) with
  | some p => p.length
  | none => 0

/-- Whether a symbol keeps the labels of function parameters inside the types of the parameters. -/
def hasInlineLabels (symbol : List UInt8) : Bool :=
  legacyPrefix.isPrefixOf symbol

/-- The scheme of a symbol, or `none` for a text that is no symbol. -/
def detect (symbol : List UInt8) : Option Scheme :=
  if prefixLength symbol != 0 then some (.current (prefixLength symbol))
  else if legacyPrefix.isPrefixOf symbol then some .legacy
  else none

/-- Whether a text is a symbol of either scheme. -/
def isMangled (symbol : List UInt8) : Bool :=
  (detect symbol).isSome

end Scheme

end SwiftMangling
