import SwiftMangling.Proofs.Range.Current
import SwiftMangling.Proofs.Range.Legacy
import SwiftMangling.Proofs.Range.Level
import SwiftMangling.Proofs.Range.Render
import SwiftMangling.Proofs.Range.Word

/-!
# No access is out of range

The functions of the decoders and of the printers that compute a position or a difference, put
together. Each of them does the same with its accesses written out, for all of its arguments and in
every state, and an access out of range would show: as a failure that is no refusal, or by an
outcome that is arbitrary. Only the levels of nesting need a whole run: one is left behind what has
been read or printed inside of it.
-/

namespace SwiftMangling

namespace Indexed

open Access (orRefuse)

/-- The accesses that both decoders make, to the input and to texts. -/
structure TextsInRange : Prop where
  /-- The input from the place of a cursor on. -/
  rest : ∀ c, Cursor.rest c = .ok c.rest
  /-- The step back over a byte. -/
  pushBack : ∀ c, Cursor.pushBack c = .ok c.pushBack
  /-- The values of digits. -/
  natural : ∀ c width, Cursor.natural c width = .ok (c.natural width)
  /-- The digits, weights and insertions of Punycode, and the cuts around its last `_`. -/
  punycode : ∀ s, Punycode.decode s = orRefuse (SwiftMangling.Punycode.decode? s)
  /-- The table of the characters of operators. -/
  operator : ∀ s, OperatorName.decode s = orRefuse (SwiftMangling.OperatorName.decode? s)
  /-- The bytes at which words start and end, and the pieces between them. -/
  words : ∀ fault table s, Word.harvest fault table s = some (SwiftMangling.Word.harvest table s)

/-- The accesses that the stack decoder makes. -/
structure CurrentInRange : Prop where
  /-- The positions of nodes that letters name. -/
  substitutions : ∀ fault n count,
    Current.substitutionsFrom fault n count = SwiftMangling.Current.substitutionsFrom n count
  /-- The positions of words that letters name. -/
  identifier : ∀ fault punycoded n wordsFollow read,
    Current.identifierPieces fault punycoded n wordsFollow read =
      SwiftMangling.Current.identifierPieces punycoded n wordsFollow read
  /-- The numbers of conformances. -/
  conformance : ∀ fault, Current.conformanceIndex fault = SwiftMangling.Current.conformanceIndex
  /-- The cut behind the first byte of a name. -/
  constant : ∀ c s, Current.constantName c s = .ok (SwiftMangling.Current.constantName c s)
  /-- The positions of lists of arguments. -/
  arguments : ∀ lists n, Current.bindArguments lists 0 n =
    orRefuse (SwiftMangling.Current.bindArguments n lists)

/-- The accesses that the descent decoder makes. -/
structure LegacyInRange : Prop where
  /-- The place where a text ends. -/
  text : ∀ fault, Legacy.terminatedText fault = SwiftMangling.Legacy.terminatedText
  /-- The levels that are left while a production is read, with the state behind it. -/
  production : ∀ fault n p s,
    Legacy.parse fault n p () s = SwiftMangling.Legacy.parse n p () s
  /-- The levels that are left while a whole input is read, and the state behind it. -/
  run : ∀ (fault) (d : SwiftMangling.Legacy.Decoder Node) (input), Legacy.run fault d input =
    d ⟨SwiftMangling.Legacy.parse (input.length + 1)⟩ (.start input)

/-- The accesses that the printers make, whatever the tree and the options are. -/
structure RenderInRange : Prop where
  functionType : ∀ fault labels n, Render.printFunctionType fault labels n =
    SwiftMangling.Render.printFunctionType labels n
  signature : ∀ fault n, Render.printSignature fault n = SwiftMangling.Render.printSignature n
  loweredItem : ∀ fault n, Render.printLoweredItem fault n = SwiftMangling.Render.printLoweredItem n
  keyPath : ∀ fault n,
    Render.printKeyPathConstant fault n = SwiftMangling.Render.printKeyPathConstant n
  closure : ∀ fault n,
    Render.printClosureConstant fault n = SwiftMangling.Render.printClosureConstant n
  keyPathAccessor : ∀ fault n,
    Render.printKeyPathAccessor fault n = SwiftMangling.Render.printKeyPathAccessor n
  keyPathHash : ∀ fault n, Render.printKeyPathHash fault n = SwiftMangling.Render.printKeyPathHash n
  derivative : ∀ fault n, Render.printDerivative fault n = SwiftMangling.Render.printDerivative n
  subsetParameters : ∀ fault n,
    Render.printSubsetParameters fault n = SwiftMangling.Render.printSubsetParameters n
  differentiabilityWitness : ∀ fault n, Render.printDifferentiabilityWitness fault n =
    SwiftMangling.Render.printDifferentiabilityWitness n
  /-- The level that is left behind a node, wherever the node is printed. -/
  level : ∀ options embedded n asContext level o r, level ≤ maxRenderDepth →
    (Render.Run options embedded (fun S => S.node n asContext) level o r ↔
      r = .ends (SwiftMangling.Render.printNode options embedded (maxRenderDepth - level) n
        asContext o) level)

theorem textsInRange : TextsInRange where
  rest := Cursor.rest_eq
  pushBack := Cursor.pushBack_eq
  natural := Cursor.natural_eq
  punycode := Punycode.decode_eq
  operator := OperatorName.decode_eq
  words _ := Word.harvest_eq

theorem currentInRange : CurrentInRange where
  substitutions _ := Current.substitutionsFrom_eq
  identifier _ := Current.identifierPieces_eq
  conformance _ := Current.conformanceIndex_eq
  constant := Current.constantName_eq
  arguments lists := Current.bindArguments_eq lists 0

theorem legacyInRange : LegacyInRange where
  text _ := Legacy.terminatedText_eq
  production fault n p s := by rw [Legacy.parse_eq]
  run _ := Legacy.run_eq

/-- No printing rule reads or cuts out of range. -/
theorem renderInRange : RenderInRange where
  functionType _ := Render.printFunctionType_eq
  signature _ := Render.printSignature_eq
  loweredItem _ := Render.printLoweredItem_eq
  keyPath _ := Render.printKeyPathConstant_eq
  closure _ := Render.printClosureConstant_eq
  keyPathAccessor _ := Render.printKeyPathAccessor_eq
  keyPathHash _ := Render.printKeyPathHash_eq
  derivative _ := Render.printDerivative_eq
  subsetParameters _ := Render.printSubsetParameters_eq
  differentiabilityWitness _ := Render.printDifferentiabilityWitness_eq
  level _ _ _ _ _ _ _ := Render.run_node_iff

end Indexed

/-- Neither the decoders nor the printers make an access out of range: no index or slice behind the
end of a list, no cut through the middle of a character and no difference below zero. -/
theorem accesses_in_range : Indexed.TextsInRange ∧ Indexed.CurrentInRange ∧
    Indexed.LegacyInRange ∧ Indexed.RenderInRange :=
  ⟨Indexed.textsInRange, Indexed.currentInRange, Indexed.legacyInRange, Indexed.renderInRange⟩

end SwiftMangling
