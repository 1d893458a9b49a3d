import SwiftMangling.Symbol
import SwiftMangling.Render.Rule

/-!
# Rendering

A tree is rendered as one text, or not at all. A text inside of a specialization that is a symbol
itself is shown rendered.
-/

namespace SwiftMangling

namespace Render

/-- Renders a tree, where `embedded` says how a text that may be a symbol is shown. -/
def renderWith (embedded : String → String) (options : Options) (tree : Node) :
    Except RenderError String :=
  if maxRenderDepth < tree.height then .error .tooComplex
  else
    match printNode options embedded maxRenderDepth tree false ⟨"", false⟩ with
    | .ok (_, output) => .ok output.text
    | .error e => .error e

/-- How many symbols inside of each other are shown rendered. -/
def maxEmbedding : Nat := UInt32.size

/-- Shows a text in full if it is a symbol, with at most `n` symbols inside of each other. -/
def embeddedSymbol : Nat → String → String
  | 0, s => s
  | n + 1, s =>
    match decode (Utf8.encode s) with
    | none => s
    | some tree => ((renderWith (embeddedSymbol n) .full tree).toOption).getD s

end Render

/-- Renders a tree. -/
def render (options : Options) (tree : Node) : Except RenderError String :=
  Render.renderWith (Render.embeddedSymbol Render.maxEmbedding) options tree

/-- A text with room for a number of further bytes. -/
structure BoundedText where
  text : String
  room : Nat
  deriving DecidableEq

/-- Appends a text if there is room for all of it. -/
def BoundedText.append? (t : BoundedText) (s : String) : Option BoundedText :=
  if s.utf8ByteSize ≤ t.room then some ⟨t.text ++ s, t.room - s.utf8ByteSize⟩ else none

/-- Renders a tree at the end of a text with limited room, which stays as it is if the rendering
does not fit. -/
def renderInto (t : BoundedText) (options : Options) (tree : Node) :
    Except RenderError BoundedText := do
  match t.append? (← render options tree) with
  | some t => return t
  | none => throw .noRoom

end SwiftMangling
