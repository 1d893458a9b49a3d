/-!
# UTF-8

Symbols are byte strings, and the names inside them are UTF-8 text. `scan` cuts a byte string into
well-formed characters and ill-formed pieces; an ill-formed piece is the longest start of a
character that the following bytes do not complete, and at least one byte long. `decode?` accepts
byte strings without ill-formed pieces, and `lossy` shows each ill-formed piece as U+FFFD.
-/

namespace SwiftMangling.Utf8

/-- The bytes `10xxxxxx` that continue a character. -/
def isContinuation (b : UInt8) : Bool :=
  0x80 ≤ b && b ≤ 0xBF

/-- Whether `b` may be the second byte of a character of three or four bytes that starts with
`lead`: no overlong form, no surrogate, nothing above U+10FFFF. -/
def isSecond (lead b : UInt8) : Bool :=
  if lead == 0xE0 then 0xA0 ≤ b && b ≤ 0xBF
  else if lead == 0xED then 0x80 ≤ b && b ≤ 0x9F
  else if lead == 0xF0 then 0x90 ≤ b && b ≤ 0xBF
  else if lead == 0xF4 then 0x80 ≤ b && b ≤ 0x8F
  else isContinuation b

/-- The six payload bits of a continuation byte. -/
def low6 (b : UInt8) : Nat :=
  b.toNat % 64

/-- Cuts a byte string into characters; `none` stands for an ill-formed piece. -/
def scan (bytes : List UInt8) : List (Option Char) :=
  match bytes with
  | [] => []
  | a :: r =>
    if a < 0x80 then
      some (Char.ofNat a.toNat) :: scan r
    else if 0xC2 ≤ a && a ≤ 0xDF then
      match r with
      | b :: r' =>
        if isContinuation b then
          some (Char.ofNat (a.toNat % 32 * 64 + low6 b)) :: scan r'
        else none :: scan (b :: r')
      | [] => [none]
    else if 0xE0 ≤ a && a ≤ 0xEF then
      match r with
      | b :: r' =>
        if isSecond a b then
          match r' with
          | c :: r'' =>
            if isContinuation c then
              some (Char.ofNat ((a.toNat % 16 * 64 + low6 b) * 64 + low6 c)) :: scan r''
            else none :: scan (c :: r'')
          | [] => [none]
        else none :: scan (b :: r')
      | [] => [none]
    else if 0xF0 ≤ a && a ≤ 0xF4 then
      match r with
      | b :: r' =>
        if isSecond a b then
          match r' with
          | c :: r'' =>
            if isContinuation c then
              match r'' with
              | d :: r''' =>
                if isContinuation d then
                  some (Char.ofNat (((a.toNat % 8 * 64 + low6 b) * 64 + low6 c) * 64 + low6 d)) ::
                    scan r'''
                else none :: scan (d :: r''')
              | [] => [none]
            else none :: scan (c :: r'')
          | [] => [none]
        else none :: scan (b :: r')
      | [] => [none]
    else none :: scan r
termination_by bytes.length

/-- The text of a well-formed byte string. -/
def decode? (bytes : List UInt8) : Option String :=
  ((scan bytes).mapM id).map String.ofList

/-- The text of any byte string, with U+FFFD for each ill-formed piece. -/
def lossy (bytes : List UInt8) : String :=
  String.ofList ((scan bytes).map (·.getD '\uFFFD'))

/-- The bytes of a text. -/
def encode (s : String) : List UInt8 :=
  s.toList.flatMap String.utf8EncodeChar

end SwiftMangling.Utf8
