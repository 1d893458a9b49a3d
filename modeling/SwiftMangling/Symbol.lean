import SwiftMangling.Current.Symbol
import SwiftMangling.Legacy.Symbol

/-!
# Decoding

A symbol of either scheme, decoded into a tree.
-/

namespace SwiftMangling

/-- Decodes a symbol of either scheme; references in a symbol of the current scheme go to the
resolver. -/
def decodeWith (resolver : Option Resolver) (symbol : List UInt8) : Current.Result :=
  match Scheme.detect symbol with
  | none => ⟨none, []⟩
  | some (.current _) => Current.decodeSymbol resolver symbol
  | some .legacy => ⟨Legacy.decodeSymbol symbol, []⟩

/-- Decodes a symbol of either scheme. -/
def decode (symbol : List UInt8) : Option Node :=
  (decodeWith none symbol).tree

end SwiftMangling
