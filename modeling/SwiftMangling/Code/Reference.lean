/-!
# References and ownership

How a symbolic reference reaches its target, what it refers to, and how storage refers to an
object.
-/

namespace SwiftMangling

/-- Whether a target is reached directly or through a pointer to it. -/
inductive Directness where
  | direct
  | indirect
  | unknown
  deriving DecidableEq, Inhabited

/-- The word for a directness. -/
def Directness.name : Directness → String
  | .direct => "direct"
  | .indirect => "indirect"
  | .unknown => "unknown"

/-- What a symbolic reference refers to. -/
inductive ReferenceTarget where
  /-- The descriptor of a nominal type, an extension or an opaque type. -/
  | context
  /-- A function that produces the metadata of the type. -/
  | accessor
  deriving DecidableEq, Inhabited

/-- What a reference introduced by the given control byte refers to, and how. -/
def ReferenceTarget.ofControlByte? (b : UInt8) : Option (ReferenceTarget × Directness) :=
  if b == 1 then some (.context, .direct)
  else if b == 2 then some (.context, .indirect)
  else if b == 9 then some (.accessor, .direct)
  else none

/-- How storage that does not keep an object alive refers to it. -/
inductive Ownership where
  | weak
  | unowned
  | unmanaged
  deriving DecidableEq, Inhabited

namespace Ownership

/-- The ownership with the given letter. -/
def ofCode? : Char → Option Ownership
  | 'w' => some .weak
  | 'o' => some .unowned
  | 'u' => some .unmanaged
  | _ => none

/-- The keyword that declares an ownership. -/
def keyword : Ownership → String
  | .weak => "weak"
  | .unowned => "unowned"
  | .unmanaged => "unowned(unsafe)"

end Ownership

end SwiftMangling
