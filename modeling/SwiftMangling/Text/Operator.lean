/-!
# Operator characters

The names of operators are written with letters, each of which stands for one character of the
operator.
-/

namespace SwiftMangling.OperatorName

/-- The characters of operators, in the order of the letters `a` to `z` that spell them; a blank is
no character of an operator. -/
def chars : List Char :=
  "& @/= >    <*!|+?%-~   ^ .".toList

/-- The character of an operator that `c` spells. A character outside of ASCII spells itself. -/
def char? (c : Char) : Option Char :=
  if c.toNat < 128 then
    if c.isLower then (chars[c.toNat - 'a'.toNat]?).filter (· != ' ') else none
  else some c

/-- The operator that `s` spells. -/
def decode? (s : String) : Option String :=
  (s.toList.mapM char?).map String.ofList

end SwiftMangling.OperatorName
