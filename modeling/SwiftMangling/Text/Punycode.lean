/-!
# Punycode

Identifiers with characters outside of ASCII are written in Punycode with an alphabet of their own:
`a` to `z` are the digits 0 to 25, `A` to `J` the digits 26 to 35, and the last `_` ends the part
that is written as it is. An ASCII character that an identifier cannot hold is encoded as the code
point U+D800 plus its number.

All arithmetic is on numbers below 2 ^ 32; a text whose decoding would leave that range is refused.
-/

namespace SwiftMangling.Punycode

/-- The number of digits. -/
def base : Nat := 36

/-- The least threshold. -/
def tMin : Nat := 1

/-- The greatest threshold. -/
def tMax : Nat := 26

/-- The skew of the bias adaptation. -/
def skew : Nat := 38

/-- The damping of the first delta. -/
def damp : Nat := 700

/-- The bias before the first delta. -/
def initialBias : Nat := 72

/-- The first code point that is not basic. -/
def initialCodePoint : Nat := 128

/-- The value of a digit. -/
def digitValue? (c : Char) : Option Nat :=
  if 'a' ≤ c && c ≤ 'z' then some (c.toNat - 'a'.toNat)
  else if 'A' ≤ c && c ≤ 'J' then some (c.toNat - 'A'.toNat + 26)
  else none

/-- `n`, if it fits into 32 bits. -/
def word? (n : Nat) : Option Nat :=
  if n < UInt32.size then some n else none

/-- Divides `delta` down until it is at most 455, adding `base` to `k` each time; the result is
the new bias. -/
def adaptFrom (delta k : Nat) : Nat :=
  if 455 < delta then adaptFrom (delta / (base - tMin)) (k + base)
  else k + (base - tMin + 1) * delta / (delta + skew)
termination_by delta
decreasing_by simp only [base, tMin]; omega

/-- The bias after a delta, with `count` characters in the text. -/
def adapt (delta count : Nat) (isFirst : Bool) : Nat :=
  let delta := delta / (if isFirst then damp else 2)
  adaptFrom (delta + delta / count) 0

/-- The threshold at place `k`. -/
def threshold (k bias : Nat) : Nat :=
  if k ≤ bias then tMin else if bias + tMax ≤ k then tMax else k - bias

/-- Reads one variable-length integer, added to `i`, and returns it with the text after it. -/
def readDelta (bias : Nat) (i weight k : Nat) : List Char → Option (Nat × List Char)
  | [] => none
  | c :: r => do
    let digit ← digitValue? c
    let step ← word? (digit * weight)
    let i ← word? (i + step)
    let t := threshold k bias
    if digit < t then return (i, r)
    let weight ← word? (weight * (base - t))
    readDelta bias i weight (k + base) r

/-- What follows a variable-length integer is shorter than the text. -/
theorem length_readDelta {bias : Nat} {cs r : List Char} {i weight k j : Nat}
    (h : readDelta bias i weight k cs = some (j, r)) : r.length < cs.length := by
  induction cs generalizing i weight k with
  | nil => simp [readDelta] at h
  | cons c cs ih =>
    simp only [readDelta, Option.bind_eq_bind, Option.bind_eq_some_iff] at h
    obtain ⟨d, _, s, _, i', _, h⟩ := h
    split at h
    · cases h
      simp
    · obtain ⟨w, _, h⟩ := Option.bind_eq_some_iff.1 h
      exact Nat.lt_trans (ih h) (by simp)

/-- Scalar values and the code points that stand for ASCII characters. -/
def isCodePoint (n : Nat) : Bool :=
  n < 0xD880 || (0xE000 ≤ n && n ≤ 0x10FFFF)

/-- Inserts the characters that the digits `cs` describe into `output`. -/
def insertAll (n i bias : Nat) (output : List Nat) (cs : List Char) : Option (List Nat) :=
  if cs.isEmpty then some output
  else
    match _h : readDelta bias i 1 base cs with
    | none => none
    | some (j, r) =>
      let length := output.length + 1
      match word? (n + j / length) with
      | none => none
      | some n =>
        if isCodePoint n then
          insertAll n (j % length + 1) (adapt (j - i) length (i == 0))
            (output.insertIdx (j % length) n) r
        else none
termination_by cs.length
decreasing_by exact length_readDelta _h

/-- The character of a code point, which is an ASCII character for U+D800 to U+D87F. -/
def toChar (n : Nat) : Char :=
  if 0xD800 ≤ n && n < 0xD880 then Char.ofNat (n - 0xD800) else Char.ofNat n

/-- Cuts a text around its last `_`; without one, the first part is empty. -/
def splitBasic (cs : List Char) : List Char × List Char :=
  let r := cs.reverse
  let extended := (r.takeWhile (· != '_')).reverse
  (((r.dropWhile (· != '_')).drop 1).reverse, extended)

/-- The text that `s` encodes. -/
def decode? (s : String) : Option String :=
  let (basic, extended) := splitBasic s.toList
  if basic.all (·.toNat < 128) then
    (insertAll initialCodePoint 0 initialBias (basic.map Char.toNat) extended).map fun output =>
      String.ofList (output.map toChar)
  else none

end SwiftMangling.Punycode
