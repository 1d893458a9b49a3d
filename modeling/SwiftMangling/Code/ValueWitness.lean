/-!
# Value witnesses

The functions of a type's value witness table, each with its two-letter code.
-/

namespace SwiftMangling

/-- A function of a value witness table. -/
inductive ValueWitness where
  | allocateBuffer
  | assignWithCopy
  | assignWithTake
  | deallocateBuffer
  | destroy
  | destroyBuffer
  | destroyArray
  | initializeBufferWithCopyOfBuffer
  | initializeBufferWithCopy
  | initializeWithCopy
  | initializeBufferWithTake
  | initializeWithTake
  | projectBuffer
  | initializeBufferWithTakeOfBuffer
  | initializeArrayWithCopy
  | initializeArrayWithTakeFrontToBack
  | initializeArrayWithTakeBackToFront
  | storeExtraInhabitant
  | getExtraInhabitantIndex
  | getEnumTag
  | destructiveProjectEnumData
  | destructiveInjectEnumTag
  | getEnumTagSinglePayload
  | storeEnumTagSinglePayload
  deriving DecidableEq, Inhabited

namespace ValueWitness

/-- Every value witness, in the order of declaration. -/
def all : List ValueWitness :=
  [.allocateBuffer, .assignWithCopy, .assignWithTake, .deallocateBuffer, .destroy,
   .destroyBuffer, .destroyArray, .initializeBufferWithCopyOfBuffer, .initializeBufferWithCopy,
   .initializeWithCopy, .initializeBufferWithTake, .initializeWithTake, .projectBuffer,
   .initializeBufferWithTakeOfBuffer, .initializeArrayWithCopy,
   .initializeArrayWithTakeFrontToBack, .initializeArrayWithTakeBackToFront,
   .storeExtraInhabitant, .getExtraInhabitantIndex, .getEnumTag, .destructiveProjectEnumData,
   .destructiveInjectEnumTag, .getEnumTagSinglePayload, .storeEnumTagSinglePayload]

/-- The two-letter code of a value witness. -/
def code : ValueWitness → String
  | .allocateBuffer => "al"
  | .assignWithCopy => "ca"
  | .assignWithTake => "ta"
  | .deallocateBuffer => "de"
  | .destroy => "xx"
  | .destroyBuffer => "XX"
  | .destroyArray => "Xx"
  | .initializeBufferWithCopyOfBuffer => "CP"
  | .initializeBufferWithCopy => "Cp"
  | .initializeWithCopy => "cp"
  | .initializeBufferWithTake => "Tk"
  | .initializeWithTake => "tk"
  | .projectBuffer => "pr"
  | .initializeBufferWithTakeOfBuffer => "TK"
  | .initializeArrayWithCopy => "Cc"
  | .initializeArrayWithTakeFrontToBack => "Tt"
  | .initializeArrayWithTakeBackToFront => "tT"
  | .storeExtraInhabitant => "xs"
  | .getExtraInhabitantIndex => "xg"
  | .getEnumTag => "ug"
  | .destructiveProjectEnumData => "up"
  | .destructiveInjectEnumTag => "ui"
  | .getEnumTagSinglePayload => "et"
  | .storeEnumTagSinglePayload => "st"

/-- The name under which a value witness is printed. -/
def name : ValueWitness → String
  | .allocateBuffer => "allocateBuffer"
  | .assignWithCopy => "assignWithCopy"
  | .assignWithTake => "assignWithTake"
  | .deallocateBuffer => "deallocateBuffer"
  | .destroy => "destroy"
  | .destroyBuffer => "destroyBuffer"
  | .destroyArray => "destroyArray"
  | .initializeBufferWithCopyOfBuffer => "initializeBufferWithCopyOfBuffer"
  | .initializeBufferWithCopy => "initializeBufferWithCopy"
  | .initializeWithCopy => "initializeWithCopy"
  | .initializeBufferWithTake => "initializeBufferWithTake"
  | .initializeWithTake => "initializeWithTake"
  | .projectBuffer => "projectBuffer"
  | .initializeBufferWithTakeOfBuffer => "initializeBufferWithTakeOfBuffer"
  | .initializeArrayWithCopy => "initializeArrayWithCopy"
  | .initializeArrayWithTakeFrontToBack => "initializeArrayWithTakeFrontToBack"
  | .initializeArrayWithTakeBackToFront => "initializeArrayWithTakeBackToFront"
  | .storeExtraInhabitant => "storeExtraInhabitant"
  | .getExtraInhabitantIndex => "getExtraInhabitantIndex"
  | .getEnumTag => "getEnumTag"
  | .destructiveProjectEnumData => "destructiveProjectEnumData"
  | .destructiveInjectEnumTag => "destructiveInjectEnumTag"
  | .getEnumTagSinglePayload => "getEnumTagSinglePayload"
  | .storeEnumTagSinglePayload => "storeEnumTagSinglePayload"

/-- The value witness with the code `ab`. -/
def ofCode? (a b : UInt8) : Option ValueWitness :=
  all.find? fun w => w.code.toList.map Char.toUInt8 == [a, b]

end ValueWitness

end SwiftMangling
