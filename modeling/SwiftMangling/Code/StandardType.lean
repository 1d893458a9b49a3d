import SwiftMangling.Kind

/-!
# Standard library shorthands

Commonly used types of the standard library have one-letter spellings: `S` and a letter for the
types proper, `Sc` and a letter for those of the concurrency library.
-/

namespace SwiftMangling

/-- A type of the standard library that a single letter stands for. -/
structure StandardType where
  /-- The letter. -/
  code : Char
  /-- Whether it is a structure, a class, an enumeration or a protocol. -/
  kind : Kind
  /-- Its name in the module `Swift`. -/
  name : String
  deriving DecidableEq

namespace StandardType

/-- The types spelled `S` and a letter. -/
def basic : List StandardType :=
  [⟨'A', .structureType, "AutoreleasingUnsafeMutablePointer"⟩,
   ⟨'a', .structureType, "Array"⟩,
   ⟨'b', .structureType, "Bool"⟩,
   ⟨'D', .structureType, "Dictionary"⟩,
   ⟨'d', .structureType, "Double"⟩,
   ⟨'f', .structureType, "Float"⟩,
   ⟨'h', .structureType, "Set"⟩,
   ⟨'I', .structureType, "DefaultIndices"⟩,
   ⟨'i', .structureType, "Int"⟩,
   ⟨'J', .structureType, "Character"⟩,
   ⟨'N', .structureType, "ClosedRange"⟩,
   ⟨'n', .structureType, "Range"⟩,
   ⟨'O', .structureType, "ObjectIdentifier"⟩,
   ⟨'P', .structureType, "UnsafePointer"⟩,
   ⟨'p', .structureType, "UnsafeMutablePointer"⟩,
   ⟨'R', .structureType, "UnsafeBufferPointer"⟩,
   ⟨'r', .structureType, "UnsafeMutableBufferPointer"⟩,
   ⟨'S', .structureType, "String"⟩,
   ⟨'s', .structureType, "Substring"⟩,
   ⟨'u', .structureType, "UInt"⟩,
   ⟨'V', .structureType, "UnsafeRawPointer"⟩,
   ⟨'v', .structureType, "UnsafeMutableRawPointer"⟩,
   ⟨'W', .structureType, "UnsafeRawBufferPointer"⟩,
   ⟨'w', .structureType, "UnsafeMutableRawBufferPointer"⟩,
   ⟨'q', .enumType, "Optional"⟩,
   ⟨'B', .protocolType, "BinaryFloatingPoint"⟩,
   ⟨'E', .protocolType, "Encodable"⟩,
   ⟨'e', .protocolType, "Decodable"⟩,
   ⟨'F', .protocolType, "FloatingPoint"⟩,
   ⟨'G', .protocolType, "RandomNumberGenerator"⟩,
   ⟨'H', .protocolType, "Hashable"⟩,
   ⟨'j', .protocolType, "Numeric"⟩,
   ⟨'K', .protocolType, "BidirectionalCollection"⟩,
   ⟨'k', .protocolType, "RandomAccessCollection"⟩,
   ⟨'L', .protocolType, "Comparable"⟩,
   ⟨'l', .protocolType, "Collection"⟩,
   ⟨'M', .protocolType, "MutableCollection"⟩,
   ⟨'m', .protocolType, "RangeReplaceableCollection"⟩,
   ⟨'Q', .protocolType, "Equatable"⟩,
   ⟨'T', .protocolType, "Sequence"⟩,
   ⟨'t', .protocolType, "IteratorProtocol"⟩,
   ⟨'U', .protocolType, "UnsignedInteger"⟩,
   ⟨'X', .protocolType, "RangeExpression"⟩,
   ⟨'x', .protocolType, "Strideable"⟩,
   ⟨'Y', .protocolType, "RawRepresentable"⟩,
   ⟨'y', .protocolType, "StringProtocol"⟩,
   ⟨'Z', .protocolType, "SignedInteger"⟩,
   ⟨'z', .protocolType, "BinaryInteger"⟩]

/-- The types spelled `Sc` and a letter. -/
def concurrency : List StandardType :=
  [⟨'A', .protocolType, "Actor"⟩,
   ⟨'C', .structureType, "CheckedContinuation"⟩,
   ⟨'c', .structureType, "UnsafeContinuation"⟩,
   ⟨'E', .structureType, "CancellationError"⟩,
   ⟨'e', .structureType, "UnownedSerialExecutor"⟩,
   ⟨'F', .protocolType, "Executor"⟩,
   ⟨'f', .protocolType, "SerialExecutor"⟩,
   ⟨'G', .structureType, "TaskGroup"⟩,
   ⟨'g', .structureType, "ThrowingTaskGroup"⟩,
   ⟨'I', .protocolType, "AsyncIteratorProtocol"⟩,
   ⟨'i', .protocolType, "AsyncSequence"⟩,
   ⟨'J', .structureType, "UnownedJob"⟩,
   ⟨'M', .classType, "MainActor"⟩,
   ⟨'P', .structureType, "TaskPriority"⟩,
   ⟨'S', .structureType, "AsyncStream"⟩,
   ⟨'s', .structureType, "AsyncThrowingStream"⟩,
   ⟨'T', .structureType, "Task"⟩,
   ⟨'t', .structureType, "UnsafeCurrentTask"⟩]

/-- The type spelled `S` and `code`. -/
def lookup? (code : Char) : Option StandardType :=
  basic.find? (·.code == code)

/-- The type spelled `Sc` and `code`. -/
def lookupConcurrency? (code : Char) : Option StandardType :=
  concurrency.find? (·.code == code)

end StandardType

end SwiftMangling
