/-!
# Differentiability

The ways in which a function type can be differentiable, each with its letter.
-/

namespace SwiftMangling

/-- How a function can be differentiated. -/
inductive Differentiability where
  | nonDifferentiable
  | forward
  | reverse
  | normal
  | linear
  deriving DecidableEq, Inhabited

namespace Differentiability

/-- The differentiability with the given letter. -/
def ofCode? : Char → Option Differentiability
  | 'f' => some .forward
  | 'r' => some .reverse
  | 'd' => some .normal
  | 'l' => some .linear
  | _ => none

/-- The letter of a differentiability; a function that is not differentiable has U+0000. -/
def code : Differentiability → Char
  | .nonDifferentiable => '\x00'
  | .forward => 'f'
  | .reverse => 'r'
  | .normal => 'd'
  | .linear => 'l'

end Differentiability

end SwiftMangling
