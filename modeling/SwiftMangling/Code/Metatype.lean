/-!
# Metatypes

How the metatype of a type is represented at run time.
-/

namespace SwiftMangling.Metatype

/-- The attribute of the representation with the given letter. -/
def representation? : Char → Option String
  | 't' => some "@thin"
  | 'T' => some "@thick"
  | 'o' => some "@objc_metatype"
  | _ => none

end SwiftMangling.Metatype
