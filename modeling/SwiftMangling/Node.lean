import SwiftMangling.Kind.Classes
import SwiftMangling.Code.Payload
import SwiftMangling.Code.StandardType

/-!
# Symbol trees

A symbol is decoded into a tree whose nodes have a kind, a payload and children. A node also
stores its height, so that a tree too deep to be handled is noticed without a walk through it.
The constructors below compute the height from the heights that the children store, and equality
of nodes does not look at it.
-/

namespace SwiftMangling

/-- A node of a symbol tree. -/
structure Node where
  /-- What the node describes. -/
  kind : Kind
  /-- What the node carries besides its kind. -/
  payload : Payload
  /-- The parts of what the node describes, in order. -/
  children : List Node
  /-- The stored number of nodes on the longest path down to a leaf. -/
  height : Nat
  deriving Inhabited

namespace Node

/-- The height of a node above the given children: one more than the largest of their stored
heights. -/
def heightAbove (children : List Node) : Nat :=
  children.foldl (fun h c => max h c.height) 0 + 1

/-- A node without children. -/
def ofPayload (kind : Kind) (payload : Payload) : Node :=
  ⟨kind, payload, [], 1⟩

/-- A node with nothing but a kind. -/
def leaf (kind : Kind) : Node :=
  ofPayload kind .none

/-- A leaf that carries a text. -/
def ofText (kind : Kind) (s : String) : Node :=
  ofPayload kind (.text s)

/-- A leaf that carries a number. -/
def ofIndex (kind : Kind) (n : UInt64) : Node :=
  ofPayload kind (.index n)

/-- A node with the given children. -/
def branch (kind : Kind) (children : List Node) : Node :=
  ⟨kind, .none, children, heightAbove children⟩

/-- A `Type` node around `n`. -/
def typeOf (n : Node) : Node :=
  branch .type [n]

/-- The identifier `s`. -/
def identifier (s : String) : Node :=
  ofText .identifier s

/-- The module named `s`. -/
def module (s : String) : Node :=
  ofText .moduleName s

/-- The name of the standard library. -/
def standardLibrary : String :=
  "Swift"

/-- The name of the module of imported declarations. -/
def importedModule : String :=
  "__C"

/-- The standard library's nominal type `name`, as a type. -/
def standardType (kind : Kind) (name : String) : Node :=
  typeOf (branch kind [module standardLibrary, identifier name])

/-- The name of a type of the built-in module. -/
def builtinName (s : String) : String :=
  "Builtin." ++ s

/-- The built-in type `s`. -/
def builtin (s : String) : Node :=
  ofText .builtinTypeName (builtinName s)

/-- The generic parameter at the given depth and position. -/
def genericParameter (depth position : Nat) : Node :=
  branch .dependentGenericParamType
    [ofIndex .index (UInt64.ofNat depth), ofIndex .index (UInt64.ofNat position)]

/-- What a specialization did to a parameter. -/
def paramKind (k : ParamKind) : Node :=
  ofPayload .functionSignatureSpecializationParamKind (.specialization k)

/-- A text that belongs to a specialized parameter. -/
def paramPayload (s : String) : Node :=
  ofText .functionSignatureSpecializationParamPayload s

/-- The text that a node carries. -/
def text? (n : Node) : Option String :=
  match n.payload with
  | .text s => some s
  | _ => none

/-- The number that a node carries. -/
def index? (n : Node) : Option UInt64 :=
  match n.payload with
  | .index i => some i
  | _ => none

/-- The child at position `i`. -/
def child? (n : Node) (i : Nat) : Option Node :=
  n.children[i]?

/-- The first child. -/
def first? (n : Node) : Option Node :=
  n.children.head?

/-- The last child. -/
def last? (n : Node) : Option Node :=
  n.children.getLast?

/-- The number of children. -/
def count (n : Node) : Nat :=
  n.children.length

/-- The first child of the given kind. -/
def childOfKind? (n : Node) (kind : Kind) : Option Node :=
  n.children.find? (·.kind == kind)

/-- Whether children may be appended: only a node without a payload takes any. -/
def acceptsChildren (n : Node) : Bool :=
  n.payload == .none

mutual

/-- Structural equality, which ignores the stored heights. -/
def same : Node → Node → Bool
  | ⟨k, p, cs, _⟩, ⟨k', p', cs', _⟩ => k == k' && p == p' && sameList cs cs'

/-- Structural equality of two lists of nodes. -/
def sameList : List Node → List Node → Bool
  | [], [] => true
  | a :: as, b :: bs => same a b && sameList as bs
  | _, _ => false

end

instance : BEq Node :=
  ⟨same⟩

/-- What a node holds, in one word. -/
inductive Content where
  | nothing
  | oneChild
  | twoChildren
  | manyChildren
  | text
  | index
  | tag
  deriving DecidableEq

/-- What a node holds, in one word. -/
def content (n : Node) : Content :=
  match n.payload with
  | .none =>
    match n.children with
    | [] => .nothing
    | [_] => .oneChild
    | [_, _] => .twoChildren
    | _ => .manyChildren
  | .text _ => .text
  | .index _ => .index
  | _ => .tag

end Node

end SwiftMangling
