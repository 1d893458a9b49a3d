import SwiftMangling.Render
import SwiftMangling.Symbol.Facts
import SwiftMangling.Text.Blank

/-!
# Symbols in texts

A symbol is shown rendered, or as it is if that is not possible. In a document every symbol is
replaced by its rendering; white space and brackets, semicolons and colons separate the tokens that
can be symbols.
-/

namespace SwiftMangling

/-- The rendering of a symbol of either scheme. -/
def renderSymbol? (options : Options) (symbol : String) : Option String :=
  (decode (Utf8.encode symbol)).bind fun tree => (render options tree).toOption

/-- A symbol shown rendered, with its tags in front if they are asked for. A symbol that cannot be
decoded or rendered, or that is rendered as nothing, is shown as it is. -/
def showSymbol (options : Options) (withTags : Bool) (symbol : String) : String :=
  let start := if withTags then ((Symbol.tagText? symbol).map (· ++ " ")).getD "" else ""
  start ++ ((renderSymbol? options symbol).filter (!·.isEmpty)).getD symbol

namespace Document

/-- The characters between tokens. -/
def isDelimiter (c : Char) : Bool :=
  isBlank c || ['(', ')', '[', ']', '\x7b', '\x7d', ';', ':'].contains c

/-- A range of bytes of a text. -/
structure Span where
  /-- Where the range starts. -/
  start : String.Pos.Raw
  /-- Where what follows the range starts. -/
  stop : String.Pos.Raw
  deriving DecidableEq

/-- The part of a text in a range. -/
def Span.slice (s : Span) (text : String) : String :=
  s.start.extract text s.stop

/-- A text with another one in place of the part in a range. -/
def Span.replace (s : Span) (text new : String) : String :=
  String.Pos.Raw.extract text 0 s.start ++ new ++ s.stop.extract text text.rawEndPos

/-- The ranges of the tokens in characters from `place` on, where `start` is the start of the token
that is going on. -/
def spansFrom (place : String.Pos.Raw) (start : Option String.Pos.Raw) : List Char → List Span
  | [] => start.toList.map (⟨·, place⟩)
  | c :: r =>
    if isDelimiter c then start.toList.map (⟨·, place⟩) ++ spansFrom (place + c) none r
    else spansFrom (place + c) (some (start.getD place)) r

/-- The ranges of the tokens of a text, in order. -/
def spans (text : String) : List Span :=
  spansFrom 0 none text.toList

/-- What stands in place of a token that is a symbol and can be rendered. -/
def replacement? (options : Options) (token : String) : Option String :=
  if Symbol.isMangled token then renderSymbol? options token else none

/-- Puts the rendering of the symbol in a range of `original` into that range of `text`, if there is
a symbol that can be rendered. -/
def replaceSpan (options : Options) (original : String) (s : Span) (text : String) : String :=
  match replacement? options (s.slice original) with
  | some new => s.replace text new
  | none => text

/-- Replaces every symbol in a text by its rendering, the last one first, so that the ranges in front
of it stay where they are. -/
def replaceSymbols (options : Options) (text : String) : String :=
  (spans text).foldr (replaceSpan options text) text

end Document

end SwiftMangling
