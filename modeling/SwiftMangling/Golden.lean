import SwiftMangling.Text.Blank

/-!
# Golden files

A golden file lists symbols with their expected renderings, one `symbol ---> rendering` a line.
Blank lines and lines that start with `#` are comments.
-/

namespace SwiftMangling.Golden

/-- What stands between a symbol and its rendering. -/
def separator : List Char :=
  " ---> ".toList

/-- Cuts `cs` around the first occurrence of `mark`. -/
def splitOnce (mark : List Char) : List Char → Option (List Char × List Char)
  | [] => if mark.isEmpty then some ([], []) else none
  | c :: r =>
    if mark.isPrefixOf (c :: r) then some ([], (c :: r).drop mark.length)
    else (splitOnce mark r).map fun (l, m) => (c :: l, m)

/-- Whether a line is blank or starts with `#`. -/
def isComment (line : List Char) : Bool :=
  line.all isBlank || line.head? == some '#'

/-- Drops the carriage returns at the end of a line. -/
def trimReturns (line : List Char) : List Char :=
  (line.reverse.dropWhile (· == '\r')).reverse

/-- The symbol and the rendering that a line gives, unless it is a comment or has no separator. -/
def parseLine (line : List Char) : Option (List Char × List Char) :=
  let line := trimReturns line
  if isComment line then none else splitOnce separator line

/-- A symbol with its expected rendering and the number of its line, counted from 1. -/
structure Case where
  line : Nat
  symbol : String
  expected : String
  deriving DecidableEq

/-- A line that is neither a comment nor a case. -/
structure MalformedLine where
  line : Nat
  deriving DecidableEq

/-- The pieces of a text between line feeds. There is always at least one. -/
def pieces : List Char → List (List Char)
  | [] => [[]]
  | '\n' :: r => [] :: pieces r
  | c :: r =>
    match pieces r with
    | [] => [[c]]
    | p :: ps => (c :: p) :: ps

/-- The lines of a text; a line feed at the very end starts no further line. -/
def lines (text : List Char) : List (List Char) :=
  match (pieces text).reverse with
  | [] :: ps => ps.reverse
  | ps => ps.reverse

/-- The cases among the lines from number `n` on, or the first malformed line. -/
def casesFrom (n : Nat) : List (List Char) → Except MalformedLine (List Case)
  | [] => .ok []
  | line :: rest =>
    if isComment line then casesFrom (n + 1) rest
    else
      match parseLine line with
      | none => .error ⟨n⟩
      | some (s, e) => do
        let more ← casesFrom (n + 1) rest
        return ⟨n, String.ofList s, String.ofList e⟩ :: more

/-- The cases of a golden file, or its first malformed line. -/
def cases (text : String) : Except MalformedLine (List Case) :=
  casesFrom 1 (lines text.toList)

end SwiftMangling.Golden
