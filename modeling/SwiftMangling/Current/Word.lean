/-!
# Words of identifiers

An identifier is made up of words: a capital letter after anything but a capital letter starts a
new one, an underscore or a NUL stands between two, and digits do not start one. Words of at least
two bytes can be named by later identifiers of the same symbol.
-/

namespace SwiftMangling.Word

/-- The characters that start a word. -/
def isStart (c : Char) : Bool :=
  !c.isDigit && c != '_' && c != '\x00'

/-- Whether a word ends between the characters `previous` and `c`. -/
def isEnd (c previous : Char) : Bool :=
  c == '_' || c == '\x00' || (!previous.isUpper && c.isUpper)

/-- The words of `cs`, where `word` holds the characters of a word that is going on, last first, and
`previous` stands before `cs`. -/
def splitFrom (previous : Char) (word : Option (List Char)) : List Char → List (List Char)
  | [] => word.toList.map List.reverse
  | c :: r =>
    match word with
    | none => if isStart c then splitFrom c (some [c]) r else splitFrom c none r
    | some w =>
      if isEnd c previous then
        w.reverse :: (if isStart c then splitFrom c (some [c]) r else splitFrom c none r)
      else splitFrom c (some (c :: w)) r

/-- The words of a text that later identifiers can name, in order. -/
def split (text : String) : List String :=
  ((splitFrom '\x00' none text.toList).map String.ofList).filter (2 ≤ ·.utf8ByteSize)

/-- The number of words that a symbol's table holds. -/
def tableSize : Nat := 26

/-- The table of words after the identifier `text`. -/
def harvest (table : List String) (text : String) : List String :=
  table ++ (split text).take (tableSize - table.length)

end SwiftMangling.Word
