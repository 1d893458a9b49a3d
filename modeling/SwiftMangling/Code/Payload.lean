import SwiftMangling.Code.ValueWitness
import SwiftMangling.Code.Differentiability
import SwiftMangling.Code.Specialization
import SwiftMangling.Code.Reference

/-!
# Payloads

What a leaf of a symbol tree carries besides its kind.
-/

namespace SwiftMangling

/-- What a node carries in place of children. -/
inductive Payload where
  | none
  | text (s : String)
  | index (n : UInt64)
  | valueWitness (w : ValueWitness)
  | differentiability (d : Differentiability)
  | specialization (k : ParamKind)
  | directness (d : Directness)
  deriving DecidableEq, Inhabited

end SwiftMangling
