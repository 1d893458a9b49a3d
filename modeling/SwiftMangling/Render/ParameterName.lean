/-!
# Names of generic parameters

Generic parameters have no names in symbols. They are shown as `A`, `B`, … by position, with their
depth after the letter if it is not 0.
-/

namespace SwiftMangling.Render

/-- The letters for a position: its digits to the base 26, the lowest first. -/
def positionLetters (position : Nat) : List Char :=
  let letter := Char.ofNat ('A'.toNat + position % 26)
  if position / 26 = 0 then [letter] else letter :: positionLetters (position / 26)
termination_by position
decreasing_by omega

/-- The name of the generic parameter at the given depth and position. -/
def parameterName (depth position : UInt64) : String :=
  String.ofList (positionLetters position.toNat) ++ (if depth = 0 then "" else depth.toNat.repr)

end SwiftMangling.Render
