import SwiftMangling.Kind

/-!
# Rendering errors

Why a tree cannot be rendered.
-/

namespace SwiftMangling

/-- The number of levels to which a tree is rendered. -/
def maxRenderDepth : Nat := 768

/-- Why a tree cannot be rendered. -/
inductive RenderError where
  /-- A node lacks a child that its rule needs. -/
  | missingChild (kind : Kind) (position : Nat)
  /-- A node stands where its kind has no rule. -/
  | unexpectedKind (kind : Kind)
  /-- A differentiable function type is marked as not differentiable. -/
  | invalidDifferentiability
  /-- A node carries another payload than its rule needs. -/
  | invalidPayload (kind : Kind)
  /-- The tree is nested too deeply. -/
  | tooComplex
  /-- The text does not fit into the room for it. -/
  | noRoom
  deriving DecidableEq

namespace RenderError

/-- The largest position that an error mentions; a position beyond it is shown as this one. -/
def maxPosition : Nat := 65535

/-- A node of the given kind has no child at position `i`. -/
def missing (kind : Kind) (i : Nat) : RenderError :=
  .missingChild kind (min i maxPosition)

/-- The text of an error. -/
def message : RenderError → String
  | .missingChild kind i => kind.name ++ " node has no child at index " ++ i.repr
  | .unexpectedKind kind => kind.name ++ " node cannot be printed here"
  | .invalidDifferentiability => "differentiable function type marked as non-differentiable"
  | .invalidPayload kind => kind.name ++ " node has an unexpected payload"
  | .tooComplex => "tree is nested more than " ++ maxRenderDepth.repr ++ " levels deep"
  | .noRoom => "failed to write output"

end RenderError

end SwiftMangling
