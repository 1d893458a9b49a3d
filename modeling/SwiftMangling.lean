import SwiftMangling.Code.Differentiability
import SwiftMangling.Code.Metatype
import SwiftMangling.Code.Payload
import SwiftMangling.Code.Reference
import SwiftMangling.Code.Specialization
import SwiftMangling.Code.StandardType
import SwiftMangling.Code.ValueWitness
import SwiftMangling.Current.BoundGeneric
import SwiftMangling.Current.Conformance
import SwiftMangling.Current.Differentiation
import SwiftMangling.Current.Entity
import SwiftMangling.Current.FunctionType
import SwiftMangling.Current.Generic
import SwiftMangling.Current.Identifier
import SwiftMangling.Current.LoweredFunction
import SwiftMangling.Current.Metadata
import SwiftMangling.Current.Operator
import SwiftMangling.Current.SpecialType
import SwiftMangling.Current.Specialization
import SwiftMangling.Current.State
import SwiftMangling.Current.Substitution
import SwiftMangling.Current.Symbol
import SwiftMangling.Current.Thunk
import SwiftMangling.Current.Word
import SwiftMangling.Cursor
import SwiftMangling.Decoding
import SwiftMangling.Document
import SwiftMangling.Golden
import SwiftMangling.Kind
import SwiftMangling.Kind.Classes
import SwiftMangling.Legacy.Entity
import SwiftMangling.Legacy.Generic
import SwiftMangling.Legacy.LoweredFunction
import SwiftMangling.Legacy.Name
import SwiftMangling.Legacy.Specialization
import SwiftMangling.Legacy.State
import SwiftMangling.Legacy.Symbol
import SwiftMangling.Legacy.Type
import SwiftMangling.Node
import SwiftMangling.Node.Edit
import SwiftMangling.Node.Outline
import SwiftMangling.Node.Path
import SwiftMangling.Node.Unbound
import SwiftMangling.Options
import SwiftMangling.Proofs.Brackets
import SwiftMangling.Proofs.Continuation
import SwiftMangling.Proofs.Current.Binding
import SwiftMangling.Proofs.Current.Blind
import SwiftMangling.Proofs.Current.Continuation
import SwiftMangling.Proofs.Current.Entity
import SwiftMangling.Proofs.Current.Generic
import SwiftMangling.Proofs.Current.Height
import SwiftMangling.Proofs.Current.Invariant
import SwiftMangling.Proofs.Current.Label
import SwiftMangling.Proofs.Current.LabelTaking
import SwiftMangling.Proofs.Current.Local
import SwiftMangling.Proofs.Current.LoweredFunction
import SwiftMangling.Proofs.Current.Name
import SwiftMangling.Proofs.Current.Operand
import SwiftMangling.Proofs.Current.Progress
import SwiftMangling.Proofs.Current.Reference
import SwiftMangling.Proofs.Current.Run
import SwiftMangling.Proofs.Current.SpecializedParam
import SwiftMangling.Proofs.Current.Stable
import SwiftMangling.Proofs.Current.StackList
import SwiftMangling.Proofs.Current.State
import SwiftMangling.Proofs.Current.Symbol
import SwiftMangling.Proofs.Current.Thunk
import SwiftMangling.Proofs.Current.Type
import SwiftMangling.Proofs.Current.Word
import SwiftMangling.Proofs.Cursor
import SwiftMangling.Proofs.Cursor.Failure
import SwiftMangling.Proofs.Cursor.Number
import SwiftMangling.Proofs.Decimal
import SwiftMangling.Proofs.Decoding
import SwiftMangling.Proofs.Depth
import SwiftMangling.Proofs.Document
import SwiftMangling.Proofs.GenericParameter
import SwiftMangling.Proofs.Kind
import SwiftMangling.Proofs.Label
import SwiftMangling.Proofs.Legacy.Binding
import SwiftMangling.Proofs.Legacy.Closure
import SwiftMangling.Proofs.Legacy.Continuation
import SwiftMangling.Proofs.Legacy.Entity
import SwiftMangling.Proofs.Legacy.Generic
import SwiftMangling.Proofs.Legacy.Header
import SwiftMangling.Proofs.Legacy.Height
import SwiftMangling.Proofs.Legacy.Local
import SwiftMangling.Proofs.Legacy.Name
import SwiftMangling.Proofs.Legacy.Progress
import SwiftMangling.Proofs.Legacy.Stable
import SwiftMangling.Proofs.Legacy.State
import SwiftMangling.Proofs.Legacy.Symbol
import SwiftMangling.Proofs.Legacy.Type
import SwiftMangling.Proofs.Locality
import SwiftMangling.Proofs.Loop
import SwiftMangling.Proofs.Module
import SwiftMangling.Proofs.Node.Edit
import SwiftMangling.Proofs.Node.Height
import SwiftMangling.Proofs.Node.Neat
import SwiftMangling.Proofs.Node.Outline
import SwiftMangling.Proofs.Node.Part
import SwiftMangling.Proofs.Node.Same
import SwiftMangling.Proofs.Node.Shape
import SwiftMangling.Proofs.Node.Sound
import SwiftMangling.Proofs.Node.Unbound
import SwiftMangling.Proofs.Payload
import SwiftMangling.Proofs.Prefix
import SwiftMangling.Proofs.Punycode
import SwiftMangling.Proofs.Punycode.Bounded
import SwiftMangling.Proofs.Punycode.Insertion
import SwiftMangling.Proofs.Range
import SwiftMangling.Proofs.Range.Current
import SwiftMangling.Proofs.Range.Legacy
import SwiftMangling.Proofs.Range.Render
import SwiftMangling.Proofs.Range.Text
import SwiftMangling.Proofs.Range.Word
import SwiftMangling.Proofs.Render.Balanced
import SwiftMangling.Proofs.Render.Balanced.Entity
import SwiftMangling.Proofs.Render.Balanced.Rule
import SwiftMangling.Proofs.Render.Balanced.Symbol
import SwiftMangling.Proofs.Render.Balanced.Type
import SwiftMangling.Proofs.Render.Composed
import SwiftMangling.Proofs.Render.Composed.Rule
import SwiftMangling.Proofs.Render.Composed.Symbol
import SwiftMangling.Proofs.Render.Composed.Type
import SwiftMangling.Proofs.Render.Hidden
import SwiftMangling.Proofs.Render.Label
import SwiftMangling.Proofs.Render.LoweredFunction
import SwiftMangling.Proofs.Render.ParameterName
import SwiftMangling.Proofs.Render.Safe
import SwiftMangling.Proofs.Render.Safe.Entity
import SwiftMangling.Proofs.Render.Safe.Rule
import SwiftMangling.Proofs.Render.Safe.Symbol
import SwiftMangling.Proofs.Render.Safe.Type
import SwiftMangling.Proofs.Render.Separator
import SwiftMangling.Proofs.Render.Silence
import SwiftMangling.Proofs.Render.Specialized
import SwiftMangling.Proofs.Resolver
import SwiftMangling.Proofs.RuntimeName
import SwiftMangling.Proofs.Scheme
import SwiftMangling.Proofs.Spelling
import SwiftMangling.Proofs.Suffix
import SwiftMangling.Proofs.Thunk
import SwiftMangling.Proofs.Unspecialized
import SwiftMangling.Render
import SwiftMangling.Render.Entity
import SwiftMangling.Render.Error
import SwiftMangling.Render.FunctionType
import SwiftMangling.Render.LoweredFunction
import SwiftMangling.Render.Name
import SwiftMangling.Render.ParameterName
import SwiftMangling.Render.Printer
import SwiftMangling.Render.Rule
import SwiftMangling.Render.Specialization
import SwiftMangling.Render.Template
import SwiftMangling.Render.Thunk
import SwiftMangling.Render.Type
import SwiftMangling.Scheme
import SwiftMangling.Symbol
import SwiftMangling.Symbol.Facts
import SwiftMangling.Text.Blank
import SwiftMangling.Text.Operator
import SwiftMangling.Text.Punycode
import SwiftMangling.Text.Utf8
