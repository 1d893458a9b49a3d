import SwiftMangling.Render.Printer

/-!
# Templates

Most kinds of nodes are printed by a fixed pattern of texts and children. A template is such a
pattern, and `template?` lists the kinds that have one.
-/

namespace SwiftMangling.Render

/-- A part of a template. -/
inductive Piece where
  /-- A fixed text. -/
  | text (s : String)
  /-- A fixed text, left out if the flag is on. -/
  | textUnless (f : Flag) (s : String)
  /-- The child at a position. -/
  | child (i : Nat)
  /-- The child at a position, if there is one. -/
  | childIfAny (i : Nat)
  /-- All children with a text between them. -/
  | children (separator : String)
  deriving DecidableEq

/-- Prints one part of a template. -/
def printPiece (n : Node) : Piece → Printer Unit
  | .text s => write s
  | .textUnless f s => do
    if !(← flag f) then write s
  | .child i => printChild n i
  | .childIfAny i => printChildIfAny n i
  | .children separator => printChildren n separator

/-- Prints a node by a template. -/
def printPieces (n : Node) : List Piece → Printer Unit
  | [] => pure ()
  | p :: ps => do
    printPiece n p
    printPieces n ps

/-- A description and the first child. -/
def described (s : String) : List Piece :=
  [.text s, .child 0]

/-- A description and all children. -/
def describedAll (s : String) : List Piece :=
  [.text s, .children ""]

/-- A description, the first child, and the second one if there is one. -/
def outlined (s : String) : List Piece :=
  [.text s, .child 0, .childIfAny 1]

/-- A description of an associated conformance: protocol, path and requirement. -/
def associated (s : String) : List Piece :=
  [.text s, .child 0, .text ".", .child 1, .text ": ", .child 2]

/-- A description of a type and a conformance. -/
def typeAndConformance (s : String) : List Piece :=
  [.text s, .child 0, .text " and conformance ", .child 1]

/-- The templates of types and parts of types. -/
def typeTemplate? : Kind → Option (List Piece)
  | .type | .declContext => some [.child 0]
  | .typeList | .anyProtocolConformanceList => some [.children ""]
  | .tuple => some [.text "(", .children ", ", .text ")"]
  | .weak => some (described "weak ")
  | .unowned => some (described "unowned ")
  | .unmanaged => some (described "unowned(unsafe) ")
  | .inOut => some (described "inout ")
  | .isolated => some (described "isolated ")
  | .shared => some (described "__shared ")
  | .owned => some (described "__owned ")
  | .noDerivative => some (described "@noDerivative ")
  | .silBoxType => some (described "@box ")
  | .silBoxImmutableField => some (described "let ")
  | .silBoxMutableField => some (described "var ")
  | .dynamicSelf => some [.text "Self"]
  | .errorType => some [.text "<ERROR TYPE>"]
  | .associatedType | .labelList => some []
  | .sugaredArray => some [.text "[", .child 0, .text "]"]
  | .sugaredDictionary => some [.text "[", .child 0, .text " : ", .child 1, .text "]"]
  | .sugaredParen => some [.text "(", .child 0, .text ")"]
  | .opaqueReturnType => some [.text "some"]
  | .opaqueReturnTypeOf =>
    some [.text "<<opaque return type of ", .children "", .text ">>"]
  | .opaqueType => some [.child 0, .text ".", .child 1]
  | .dependentMemberType => some [.child 0, .text ".", .child 1]
  | .assocTypePath => some [.children "."]
  | .dependentGenericConformanceRequirement => some [.child 0, .text ": ", .child 1]
  | .dependentGenericSameTypeRequirement => some [.child 0, .text " == ", .child 1]
  | .concurrentFunctionType => some [.text "@Sendable "]
  | .asyncMark => some [.text " async "]
  | .throwsMark => some [.text " throws "]
  | .emptyList => some [.text " empty-list "]
  | .firstElementMarker => some [.text " first-element-marker "]
  | .variadicMarker => some [.text " variadic-marker "]
  | .implEscaping => some [.text "@escaping"]
  | .implErrorResult => some [.text "@error ", .children " "]
  | .implYield => some [.text "@yields ", .children " "]
  | _ => none

/-- The templates of conformances and witnesses. -/
def witnessTemplate? : Kind → Option (List Piece)
  | .retroactiveConformance => some [.text "retroactive @ ", .child 0, .child 1]
  | .concreteProtocolConformance => some (describedAll "concrete protocol conformance ")
  | .dependentAssociatedConformance => some (describedAll "dependent associated conformance ")
  | .protocolConformanceRefInTypeModule =>
    some (describedAll "protocol conformance ref (type's module) ")
  | .protocolConformanceRefInProtocolModule =>
    some (describedAll "protocol conformance ref (protocol's module) ")
  | .protocolConformanceRefInOtherModule =>
    some (describedAll "protocol conformance ref (retroactive) ")
  | .protocolSelfConformanceWitness => some (described "protocol self-conformance witness for ")
  | .protocolWitness =>
    some [.text "protocol witness for ", .child 1, .text " in conformance ", .child 0]
  | .valueWitnessTable => some (described "value witness table for ")
  | .fieldOffset => some [.child 0, .text "field offset for ", .child 1]
  | .enumCase => some (described "enum case for ")
  | .lazyProtocolWitnessTableAccessor =>
    some (typeAndConformance "lazy protocol witness table accessor for type ")
  | .lazyProtocolWitnessTableCacheVariable =>
    some (typeAndConformance "lazy protocol witness table cache variable for type ")
  | .protocolSelfConformanceWitnessTable =>
    some (described "protocol self-conformance witness table for ")
  | .protocolWitnessTableAccessor => some (described "protocol witness table accessor for ")
  | .protocolWitnessTable => some (described "protocol witness table for ")
  | .protocolWitnessTablePattern => some (described "protocol witness table pattern for ")
  | .genericProtocolWitnessTable => some (described "generic protocol witness table for ")
  | .genericProtocolWitnessTableInstantiationFunction =>
    some (described "instantiation function for generic protocol witness table for ")
  | .resilientProtocolWitnessTable => some (described "resilient protocol witness table for ")
  | .associatedTypeMetadataAccessor =>
    some [.text "associated type metadata accessor for ", .child 1, .text " in ", .child 0]
  | .associatedTypeWitnessTableAccessor =>
    some [.text "associated type witness table accessor for ", .child 1, .text " : ", .child 2,
      .text " in ", .child 0]
  | .baseWitnessTableAccessor =>
    some [.text "base witness table accessor for ", .child 1, .text " in ", .child 0]
  | .associatedConformanceDescriptor =>
    some (associated "associated conformance descriptor for ")
  | .defaultAssociatedConformanceAccessor =>
    some (associated "default associated conformance accessor for ")
  | .baseConformanceDescriptor =>
    some [.text "base conformance descriptor for ", .child 0, .text ": ", .child 1]
  | .associatedTypeDescriptor => some (described "associated type descriptor for ")
  | .defaultAssociatedTypeMetadataAccessor =>
    some (described "default associated type metadata accessor for ")
  | .associatedTypeGenericParamRef =>
    some (describedAll "generic parameter reference for associated type ")
  | _ => none

/-- The templates of attributes, thunks and outlined operations. -/
def thunkTemplate? : Kind → Option (List Piece)
  | .global => some [.children ""]
  | .staticMember => some (described "static ")
  | .nonObjCAttribute => some [.text "@nonobjc "]
  | .objCAttribute => some [.text "@objc "]
  | .directMethodReferenceAttribute => some [.text "super "]
  | .dynamicAttribute => some [.text "dynamic "]
  | .vtableAttribute => some [.text "override "]
  | .isSerialized => some [.text "serialized"]
  | .mergedFunction => some [.textUnless .shortThunk "merged "]
  | .dynamicallyReplaceableFunctionKey =>
    some [.textUnless .shortThunk "dynamically replaceable key for "]
  | .dynamicallyReplaceableFunctionImpl =>
    some [.textUnless .shortThunk "dynamically replaceable thunk for "]
  | .dynamicallyReplaceableFunctionVar =>
    some [.textUnless .shortThunk "dynamically replaceable variable for "]
  | .asyncFunctionPointer => some [.text "async function pointer to "]
  | .unknownIndex => some [.text "unknown index"]
  | .curryThunk => some (described "curry thunk of ")
  | .dispatchThunk => some (described "dispatch thunk of ")
  | .methodDescriptor => some (described "method descriptor for ")
  | .methodLookupFunction => some (described "method lookup function for ")
  | .vtableThunk =>
    some [.text "vtable thunk for ", .child 1, .text " dispatching to ", .child 0]
  | .reabstractionThunkHelperWithGlobalActor =>
    some [.child 0, .text " with global actor constraint ", .child 1]
  | .coroutineContinuationPrototype => some (described "coroutine continuation prototype for ")
  | .outlinedCopy => some (outlined "outlined copy of ")
  | .outlinedConsume => some (outlined "outlined consume of ")
  | .outlinedRetain => some (outlined "outlined retain of ")
  | .outlinedRelease => some (outlined "outlined release of ")
  | .outlinedInitializeWithTake => some (outlined "outlined initializeWithTake of ")
  | .outlinedInitializeWithCopy => some (outlined "outlined initializeWithCopy of ")
  | .outlinedAssignWithTake => some (outlined "outlined assignWithTake of ")
  | .outlinedAssignWithCopy => some (outlined "outlined assignWithCopy of ")
  | .outlinedDestroy => some (outlined "outlined destroy of ")
  | _ => none

/-- The templates of metadata and descriptors: a description and what it is about. -/
def metadataTemplate? : Kind → Option (List Piece)
  | .objCMetadataUpdateFunction => some (described "ObjC metadata update function for ")
  | .objCResilientClassStub => some (described "ObjC resilient class stub for ")
  | .fullObjCResilientClassStub => some (described "full ObjC resilient class stub for ")
  | .genericTypeMetadataPattern => some (described "generic type metadata pattern for ")
  | .metaclass => some (described "metaclass for ")
  | .protocolSelfConformanceDescriptor =>
    some (described "protocol self-conformance descriptor for ")
  | .protocolConformanceDescriptor => some (described "protocol conformance descriptor for ")
  | .protocolDescriptor => some (described "protocol descriptor for ")
  | .protocolRequirementsBaseDescriptor =>
    some (described "protocol requirements base descriptor for ")
  | .fullTypeMetadata => some (described "full type metadata for ")
  | .typeMetadata => some (described "type metadata for ")
  | .typeMetadataAccessFunction => some (described "type metadata accessor for ")
  | .typeMetadataInstantiationCache => some (described "type metadata instantiation cache for ")
  | .typeMetadataInstantiationFunction =>
    some (described "type metadata instantiation function for ")
  | .typeMetadataSingletonInitializationCache =>
    some (described "type metadata singleton initialization cache for ")
  | .typeMetadataCompletionFunction => some (described "type metadata completion function for ")
  | .typeMetadataDemanglingCache =>
    some (described "demangling cache variable for type metadata for ")
  | .typeMetadataLazyCache => some (described "lazy cache variable for type metadata for ")
  | .classMetadataBaseOffset => some (described "class metadata base offset for ")
  | .propertyDescriptor => some (described "property descriptor for ")
  | .nominalTypeDescriptor => some (described "nominal type descriptor for ")
  | .opaqueTypeDescriptor => some (described "opaque type descriptor for ")
  | .opaqueTypeDescriptorAccessor => some (described "opaque type descriptor accessor for ")
  | .opaqueTypeDescriptorAccessorImpl =>
    some (described "opaque type descriptor accessor impl for ")
  | .opaqueTypeDescriptorAccessorKey =>
    some (described "opaque type descriptor accessor key for ")
  | .opaqueTypeDescriptorAccessorVar =>
    some (described "opaque type descriptor accessor var for ")
  | .reflectionMetadataBuiltinDescriptor =>
    some (described "reflection metadata builtin descriptor ")
  | .reflectionMetadataFieldDescriptor =>
    some (described "reflection metadata field descriptor ")
  | .reflectionMetadataAssocTypeDescriptor =>
    some (described "reflection metadata associated type descriptor ")
  | .reflectionMetadataSuperclassDescriptor =>
    some (described "reflection metadata superclass descriptor ")
  | .moduleDescriptor => some (described "module descriptor ")
  | .anonymousDescriptor => some (described "anonymous descriptor ")
  | .extensionDescriptor => some (described "extension descriptor ")
  | .canonicalSpecializedGenericMetaclass =>
    some (described "specialized generic metaclass for ")
  | .canonicalSpecializedGenericTypeMetadataAccessFunction =>
    some (described "canonical specialized generic type metadata accessor for ")
  | .metadataInstantiationCache => some (described "metadata instantiation cache for ")
  | .noncanonicalSpecializedGenericTypeMetadata =>
    some (described "noncanonical specialized generic type metadata for ")
  | .noncanonicalSpecializedGenericTypeMetadataCache =>
    some (described "cache variable for noncanonical specialized generic type metadata for ")
  | .canonicalPrespecializedGenericTypeCachingOnceToken =>
    some (described "flag for loading of canonical specialized generic type metadata for ")
  | _ => none

/-- The template of a kind, if it has one. -/
def template? (k : Kind) : Option (List Piece) :=
  typeTemplate? k <|> witnessTemplate? k <|> thunkTemplate? k <|> metadataTemplate? k

end SwiftMangling.Render
