/-!
# Specialized parameters

What a function signature specialization does to one parameter is one 64-bit word: either one of
ten changes, numbered from 0, or a set of options in the bits from 6 on.
-/

namespace SwiftMangling

/-- A change to a parameter that excludes every other change to it. -/
inductive ParamChange where
  | constantFunction
  | constantGlobal
  | constantInteger
  | constantFloat
  | constantString
  | closure
  | boxToValue
  | boxToStack
  | inOutToOut
  | constantKeyPath
  deriving DecidableEq, Inhabited

namespace ParamChange

/-- Every change, in the order of their numbers. -/
def all : List ParamChange :=
  [.constantFunction, .constantGlobal, .constantInteger, .constantFloat, .constantString, .closure,
   .boxToValue, .boxToStack, .inOutToOut, .constantKeyPath]

/-- The number of a change. -/
def number : ParamChange → UInt64
  | .constantFunction => 0
  | .constantGlobal => 1
  | .constantInteger => 2
  | .constantFloat => 3
  | .constantString => 4
  | .closure => 5
  | .boxToValue => 6
  | .boxToStack => 7
  | .inOutToOut => 8
  | .constantKeyPath => 9

/-- The description that a specialization prints. -/
def description : ParamChange → String
  | .boxToValue => "Value Promoted from Box"
  | .boxToStack => "Stack Promoted from Box"
  | .inOutToOut => "InOut Converted to Out"
  | .constantFunction => "Constant Propagated Function"
  | .constantGlobal => "Constant Propagated Global"
  | .constantInteger => "Constant Propagated Integer"
  | .constantFloat => "Constant Propagated Float"
  | .constantString => "Constant Propagated String"
  | .constantKeyPath => "Constant Propagated KeyPath"
  | .closure => "Closure Propagated"

end ParamChange

/-- A change to a parameter that can be combined with other such changes. -/
inductive ParamOption where
  | dead
  | ownedToGuaranteed
  | exploded
  | guaranteedToOwned
  | existentialToGeneric
  deriving DecidableEq, Inhabited

namespace ParamOption

/-- Every option, in the order of their bits. -/
def all : List ParamOption :=
  [.dead, .ownedToGuaranteed, .exploded, .guaranteedToOwned, .existentialToGeneric]

/-- The bit of an option. -/
def mask : ParamOption → UInt64
  | .dead => 0x40
  | .ownedToGuaranteed => 0x80
  | .exploded => 0x100
  | .guaranteedToOwned => 0x200
  | .existentialToGeneric => 0x400

/-- The description that a specialization prints. -/
def description : ParamOption → String
  | .existentialToGeneric => "Existential To Protocol Constrained Generic"
  | .dead => "Dead"
  | .ownedToGuaranteed => "Owned To Guaranteed"
  | .guaranteedToOwned => "Guaranteed To Owned"
  | .exploded => "Exploded"

end ParamOption

/-- The word that says what happened to a specialized parameter. -/
structure ParamKind where
  raw : UInt64
  deriving DecidableEq, Inhabited

namespace ParamKind

/-- The word for a single change. -/
def ofChange (c : ParamChange) : ParamKind :=
  ⟨c.number⟩

/-- The word for a set of options. -/
def ofOptions (os : List ParamOption) : ParamKind :=
  ⟨os.foldl (fun bits o => bits ||| o.mask) 0⟩

/-- The options among the bits of a word, in the order of their bits. -/
def options (k : ParamKind) : List ParamOption :=
  ParamOption.all.filter fun o => k.raw &&& o.mask != 0

/-- The change that a word stands for, if it stands for one. -/
def change? (k : ParamKind) : Option ParamChange :=
  ParamChange.all.find? fun c => c.number == k.raw

end ParamKind

end SwiftMangling
