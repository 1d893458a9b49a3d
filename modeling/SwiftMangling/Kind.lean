/-!
# Node kinds

The tag of a node of a symbol tree says what the node describes: a declaration, a type, a thunk, a
piece of metadata, or a part of one of these. `Kind.all` lists the tags in their fixed order, and
`Kind.name` gives the name under which outlines and messages mention a tag.
-/

namespace SwiftMangling

/-- What a node of a symbol tree describes. -/
inductive Kind where
  | allocator
  | anonymousContext
  | anonymousDescriptor
  | anyProtocolConformanceList
  | argumentTuple
  | associatedConformanceDescriptor
  | associatedType
  | associatedTypeDescriptor
  | associatedTypeGenericParamRef
  | associatedTypeMetadataAccessor
  | associatedTypeRef
  | associatedTypeWitnessTableAccessor
  | assocTypePath
  | asyncMark
  | asyncAwaitResumePartialFunction
  | asyncFunctionPointer
  | asyncSuspendResumePartialFunction
  | autoClosureType
  | autoDiffDerivativeVTableThunk
  | autoDiffFunction
  | autoDiffFunctionKind
  | autoDiffSelfReorderingReabstractionThunk
  | autoDiffSubsetParametersThunk
  | baseConformanceDescriptor
  | baseWitnessTableAccessor
  | boundGenericClass
  | boundGenericEnum
  | boundGenericFunction
  | boundGenericOtherNominalType
  | boundGenericProtocol
  | boundGenericStructure
  | boundGenericTypeAlias
  | builtinTypeName
  | cFunctionPointer
  | canonicalPrespecializedGenericTypeCachingOnceToken
  | canonicalSpecializedGenericMetaclass
  | canonicalSpecializedGenericTypeMetadataAccessFunction
  | classType
  | classMetadataBaseOffset
  | clangType
  | concreteProtocolConformance
  | concurrentFunctionType
  | constructor
  | coroutineContinuationPrototype
  | curryThunk
  | deallocator
  | declContext
  | defaultArgumentInitializer
  | defaultAssociatedConformanceAccessor
  | defaultAssociatedTypeMetadataAccessor
  | dependentAssociatedConformance
  | dependentAssociatedTypeRef
  | dependentGenericConformanceRequirement
  | dependentGenericLayoutRequirement
  | dependentGenericParamCount
  | dependentGenericParamType
  | dependentGenericSameTypeRequirement
  | dependentGenericSignature
  | dependentGenericType
  | dependentMemberType
  | dependentProtocolConformanceAssociated
  | dependentProtocolConformanceInherited
  | dependentProtocolConformanceRoot
  | dependentPseudogenericSignature
  | destructor
  | didSet
  | differentiabilityWitness
  | differentiableFunctionType
  | directMethodReferenceAttribute
  | directness
  | dispatchThunk
  | dynamicAttribute
  | dynamicSelf
  | dynamicallyReplaceableFunctionImpl
  | dynamicallyReplaceableFunctionKey
  | dynamicallyReplaceableFunctionVar
  | emptyList
  | enumType
  | enumCase
  | errorType
  | escapingAutoClosureType
  | escapingObjCBlock
  | existentialMetatype
  | explicitClosure
  | extension
  | extensionDescriptor
  | fieldOffset
  | firstElementMarker
  | fullObjCResilientClassStub
  | fullTypeMetadata
  | function
  | functionSignatureSpecialization
  | functionSignatureSpecializationParam
  | functionSignatureSpecializationParamKind
  | functionSignatureSpecializationParamPayload
  | functionSignatureSpecializationReturn
  | functionType
  | genericPartialSpecialization
  | genericPartialSpecializationNotReAbstracted
  | genericProtocolWitnessTable
  | genericProtocolWitnessTableInstantiationFunction
  | genericSpecialization
  | genericSpecializationInResilienceDomain
  | genericSpecializationNotReAbstracted
  | genericSpecializationParam
  | genericSpecializationPrespecialized
  | genericTypeMetadataPattern
  | genericTypeParamDecl
  | getter
  | global
  | globalActorFunctionType
  | globalGetter
  | globalVariableOnceDeclList
  | globalVariableOnceFunction
  | globalVariableOnceToken
  | identifier
  | implDifferentiability
  | implErrorResult
  | implEscaping
  | implConvention
  | implFunctionAttribute
  | implFunctionConvention
  | implFunctionConventionName
  | implFunctionType
  | implParameterResultDifferentiability
  | implInvocationSubstitutions
  | implParameter
  | implPatternSubstitutions
  | implResult
  | implYield
  | implicitClosure
  | inOut
  | index
  | indexSubset
  | infixOperator
  | initializer
  | inlinedGenericFunction
  | isolated
  | isSerialized
  | ivarDestroyer
  | ivarInitializer
  | keyPathEqualsThunkHelper
  | keyPathGetterThunkHelper
  | keyPathHashThunkHelper
  | keyPathSetterThunkHelper
  | labelList
  | lazyProtocolWitnessTableAccessor
  | lazyProtocolWitnessTableCacheVariable
  | localDeclName
  | materializeForSet
  | mergedFunction
  | metaclass
  | metadataInstantiationCache
  | metatype
  | metatypeRepresentation
  | methodDescriptor
  | methodLookupFunction
  | modifyAccessor
  | moduleName
  | moduleDescriptor
  | nativeOwningAddressor
  | nativeOwningMutableAddressor
  | nativePinningAddressor
  | nativePinningMutableAddressor
  | noDerivative
  | noEscapeFunctionType
  | nominalTypeDescriptor
  | nonObjCAttribute
  | noncanonicalSpecializedGenericTypeMetadata
  | noncanonicalSpecializedGenericTypeMetadataCache
  | number
  | objCAsyncCompletionHandlerImpl
  | objCAttribute
  | objCBlock
  | objCMetadataUpdateFunction
  | objCResilientClassStub
  | opaqueReturnType
  | opaqueReturnTypeOf
  | opaqueType
  | opaqueTypeDescriptor
  | opaqueTypeDescriptorAccessor
  | opaqueTypeDescriptorAccessorImpl
  | opaqueTypeDescriptorAccessorKey
  | opaqueTypeDescriptorAccessorVar
  | opaqueTypeDescriptorSymbolicReference
  | otherNominalType
  | outlinedAssignWithCopy
  | outlinedAssignWithTake
  | outlinedBridgedMethod
  | outlinedConsume
  | outlinedCopy
  | outlinedDestroy
  | outlinedInitializeWithCopy
  | outlinedInitializeWithTake
  | outlinedRelease
  | outlinedRetain
  | outlinedVariable
  | owned
  | owningAddressor
  | owningMutableAddressor
  | partialApplyForwarder
  | partialApplyObjCForwarder
  | postfixOperator
  | predefinedObjCAsyncCompletionHandlerImpl
  | prefixOperator
  | privateDeclName
  | propertyDescriptor
  | propertyWrapperBackingInitializer
  | propertyWrapperInitFromProjectedValue
  | protocolType
  | protocolConformance
  | protocolConformanceDescriptor
  | protocolConformanceRefInOtherModule
  | protocolConformanceRefInProtocolModule
  | protocolConformanceRefInTypeModule
  | protocolDescriptor
  | protocolList
  | protocolListWithAnyObject
  | protocolListWithClass
  | protocolRequirementsBaseDescriptor
  | protocolSelfConformanceDescriptor
  | protocolSelfConformanceWitness
  | protocolSelfConformanceWitnessTable
  | protocolSymbolicReference
  | protocolWitness
  | protocolWitnessTable
  | protocolWitnessTableAccessor
  | protocolWitnessTablePattern
  | reabstractionThunk
  | reabstractionThunkHelper
  | reabstractionThunkHelperWithGlobalActor
  | reabstractionThunkHelperWithSelf
  | readAccessor
  | reflectionMetadataAssocTypeDescriptor
  | reflectionMetadataBuiltinDescriptor
  | reflectionMetadataFieldDescriptor
  | reflectionMetadataSuperclassDescriptor
  | relatedEntityDeclName
  | resilientProtocolWitnessTable
  | retroactiveConformance
  | returnType
  | setter
  | shared
  | silBoxImmutableField
  | silBoxLayout
  | silBoxMutableField
  | silBoxType
  | silBoxTypeWithLayout
  | specializationPassID
  | staticMember
  | structureType
  | subscript
  | suffix
  | sugaredArray
  | sugaredDictionary
  | sugaredOptional
  | sugaredParen
  | thinFunctionType
  | throwsMark
  | tuple
  | tupleElement
  | tupleElementName
  | type
  | typeAlias
  | typeList
  | typeMangling
  | typeMetadata
  | typeMetadataAccessFunction
  | typeMetadataCompletionFunction
  | typeMetadataDemanglingCache
  | typeMetadataInstantiationCache
  | typeMetadataInstantiationFunction
  | typeMetadataLazyCache
  | typeMetadataSingletonInitializationCache
  | typeSymbolicReference
  | uncurriedFunctionType
  | unknownIndex
  | unmanaged
  | unowned
  | unsafeAddressor
  | unsafeMutableAddressor
  | valueWitness
  | valueWitnessTable
  | variableDecl
  | variadicMarker
  | vtableAttribute
  | vtableThunk
  | weak
  | willSet
  deriving DecidableEq, Inhabited

namespace Kind

/-- Every kind, in the order of declaration. -/
def all : List Kind :=
  [.allocator, .anonymousContext, .anonymousDescriptor, .anyProtocolConformanceList,
   .argumentTuple, .associatedConformanceDescriptor, .associatedType, .associatedTypeDescriptor,
   .associatedTypeGenericParamRef, .associatedTypeMetadataAccessor, .associatedTypeRef,
   .associatedTypeWitnessTableAccessor, .assocTypePath, .asyncMark,
   .asyncAwaitResumePartialFunction, .asyncFunctionPointer, .asyncSuspendResumePartialFunction,
   .autoClosureType, .autoDiffDerivativeVTableThunk, .autoDiffFunction, .autoDiffFunctionKind,
   .autoDiffSelfReorderingReabstractionThunk, .autoDiffSubsetParametersThunk,
   .baseConformanceDescriptor, .baseWitnessTableAccessor, .boundGenericClass, .boundGenericEnum,
   .boundGenericFunction, .boundGenericOtherNominalType, .boundGenericProtocol,
   .boundGenericStructure, .boundGenericTypeAlias, .builtinTypeName, .cFunctionPointer,
   .canonicalPrespecializedGenericTypeCachingOnceToken, .canonicalSpecializedGenericMetaclass,
   .canonicalSpecializedGenericTypeMetadataAccessFunction, .classType, .classMetadataBaseOffset,
   .clangType, .concreteProtocolConformance, .concurrentFunctionType, .constructor,
   .coroutineContinuationPrototype, .curryThunk, .deallocator, .declContext,
   .defaultArgumentInitializer, .defaultAssociatedConformanceAccessor,
   .defaultAssociatedTypeMetadataAccessor, .dependentAssociatedConformance,
   .dependentAssociatedTypeRef, .dependentGenericConformanceRequirement,
   .dependentGenericLayoutRequirement, .dependentGenericParamCount, .dependentGenericParamType,
   .dependentGenericSameTypeRequirement, .dependentGenericSignature, .dependentGenericType,
   .dependentMemberType, .dependentProtocolConformanceAssociated,
   .dependentProtocolConformanceInherited, .dependentProtocolConformanceRoot,
   .dependentPseudogenericSignature, .destructor, .didSet, .differentiabilityWitness,
   .differentiableFunctionType, .directMethodReferenceAttribute, .directness, .dispatchThunk,
   .dynamicAttribute, .dynamicSelf, .dynamicallyReplaceableFunctionImpl,
   .dynamicallyReplaceableFunctionKey, .dynamicallyReplaceableFunctionVar, .emptyList, .enumType,
   .enumCase, .errorType, .escapingAutoClosureType, .escapingObjCBlock, .existentialMetatype,
   .explicitClosure, .extension, .extensionDescriptor, .fieldOffset, .firstElementMarker,
   .fullObjCResilientClassStub, .fullTypeMetadata, .function, .functionSignatureSpecialization,
   .functionSignatureSpecializationParam, .functionSignatureSpecializationParamKind,
   .functionSignatureSpecializationParamPayload, .functionSignatureSpecializationReturn,
   .functionType, .genericPartialSpecialization, .genericPartialSpecializationNotReAbstracted,
   .genericProtocolWitnessTable, .genericProtocolWitnessTableInstantiationFunction,
   .genericSpecialization, .genericSpecializationInResilienceDomain,
   .genericSpecializationNotReAbstracted, .genericSpecializationParam,
   .genericSpecializationPrespecialized, .genericTypeMetadataPattern, .genericTypeParamDecl,
   .getter, .global, .globalActorFunctionType, .globalGetter, .globalVariableOnceDeclList,
   .globalVariableOnceFunction, .globalVariableOnceToken, .identifier, .implDifferentiability,
   .implErrorResult, .implEscaping, .implConvention, .implFunctionAttribute,
   .implFunctionConvention, .implFunctionConventionName, .implFunctionType,
   .implParameterResultDifferentiability, .implInvocationSubstitutions, .implParameter,
   .implPatternSubstitutions, .implResult, .implYield, .implicitClosure, .inOut, .index,
   .indexSubset, .infixOperator, .initializer, .inlinedGenericFunction, .isolated, .isSerialized,
   .ivarDestroyer, .ivarInitializer, .keyPathEqualsThunkHelper, .keyPathGetterThunkHelper,
   .keyPathHashThunkHelper, .keyPathSetterThunkHelper, .labelList,
   .lazyProtocolWitnessTableAccessor, .lazyProtocolWitnessTableCacheVariable, .localDeclName,
   .materializeForSet, .mergedFunction, .metaclass, .metadataInstantiationCache, .metatype,
   .metatypeRepresentation, .methodDescriptor, .methodLookupFunction, .modifyAccessor, .moduleName,
   .moduleDescriptor, .nativeOwningAddressor, .nativeOwningMutableAddressor,
   .nativePinningAddressor, .nativePinningMutableAddressor, .noDerivative, .noEscapeFunctionType,
   .nominalTypeDescriptor, .nonObjCAttribute, .noncanonicalSpecializedGenericTypeMetadata,
   .noncanonicalSpecializedGenericTypeMetadataCache, .number, .objCAsyncCompletionHandlerImpl,
   .objCAttribute, .objCBlock, .objCMetadataUpdateFunction, .objCResilientClassStub,
   .opaqueReturnType, .opaqueReturnTypeOf, .opaqueType, .opaqueTypeDescriptor,
   .opaqueTypeDescriptorAccessor, .opaqueTypeDescriptorAccessorImpl,
   .opaqueTypeDescriptorAccessorKey, .opaqueTypeDescriptorAccessorVar,
   .opaqueTypeDescriptorSymbolicReference, .otherNominalType, .outlinedAssignWithCopy,
   .outlinedAssignWithTake, .outlinedBridgedMethod, .outlinedConsume, .outlinedCopy,
   .outlinedDestroy, .outlinedInitializeWithCopy, .outlinedInitializeWithTake, .outlinedRelease,
   .outlinedRetain, .outlinedVariable, .owned, .owningAddressor, .owningMutableAddressor,
   .partialApplyForwarder, .partialApplyObjCForwarder, .postfixOperator,
   .predefinedObjCAsyncCompletionHandlerImpl, .prefixOperator, .privateDeclName,
   .propertyDescriptor, .propertyWrapperBackingInitializer, .propertyWrapperInitFromProjectedValue,
   .protocolType, .protocolConformance, .protocolConformanceDescriptor,
   .protocolConformanceRefInOtherModule, .protocolConformanceRefInProtocolModule,
   .protocolConformanceRefInTypeModule, .protocolDescriptor, .protocolList,
   .protocolListWithAnyObject, .protocolListWithClass, .protocolRequirementsBaseDescriptor,
   .protocolSelfConformanceDescriptor, .protocolSelfConformanceWitness,
   .protocolSelfConformanceWitnessTable, .protocolSymbolicReference, .protocolWitness,
   .protocolWitnessTable, .protocolWitnessTableAccessor, .protocolWitnessTablePattern,
   .reabstractionThunk, .reabstractionThunkHelper, .reabstractionThunkHelperWithGlobalActor,
   .reabstractionThunkHelperWithSelf, .readAccessor, .reflectionMetadataAssocTypeDescriptor,
   .reflectionMetadataBuiltinDescriptor, .reflectionMetadataFieldDescriptor,
   .reflectionMetadataSuperclassDescriptor, .relatedEntityDeclName, .resilientProtocolWitnessTable,
   .retroactiveConformance, .returnType, .setter, .shared, .silBoxImmutableField, .silBoxLayout,
   .silBoxMutableField, .silBoxType, .silBoxTypeWithLayout, .specializationPassID, .staticMember,
   .structureType, .subscript, .suffix, .sugaredArray, .sugaredDictionary, .sugaredOptional,
   .sugaredParen, .thinFunctionType, .throwsMark, .tuple, .tupleElement, .tupleElementName,
   .type, .typeAlias, .typeList, .typeMangling, .typeMetadata, .typeMetadataAccessFunction,
   .typeMetadataCompletionFunction, .typeMetadataDemanglingCache, .typeMetadataInstantiationCache,
   .typeMetadataInstantiationFunction, .typeMetadataLazyCache,
   .typeMetadataSingletonInitializationCache, .typeSymbolicReference, .uncurriedFunctionType,
   .unknownIndex, .unmanaged, .unowned, .unsafeAddressor, .unsafeMutableAddressor, .valueWitness,
   .valueWitnessTable, .variableDecl, .variadicMarker, .vtableAttribute, .vtableThunk, .weak,
   .willSet]

/-- The name under which outlines and messages mention a kind. -/
def name : Kind → String
  | .allocator => "Allocator"
  | .anonymousContext => "AnonymousContext"
  | .anonymousDescriptor => "AnonymousDescriptor"
  | .anyProtocolConformanceList => "AnyProtocolConformanceList"
  | .argumentTuple => "ArgumentTuple"
  | .associatedConformanceDescriptor => "AssociatedConformanceDescriptor"
  | .associatedType => "AssociatedType"
  | .associatedTypeDescriptor => "AssociatedTypeDescriptor"
  | .associatedTypeGenericParamRef => "AssociatedTypeGenericParamRef"
  | .associatedTypeMetadataAccessor => "AssociatedTypeMetadataAccessor"
  | .associatedTypeRef => "AssociatedTypeRef"
  | .associatedTypeWitnessTableAccessor => "AssociatedTypeWitnessTableAccessor"
  | .assocTypePath => "AssocTypePath"
  | .asyncMark => "AsyncAnnotation"
  | .asyncAwaitResumePartialFunction => "AsyncAwaitResumePartialFunction"
  | .asyncFunctionPointer => "AsyncFunctionPointer"
  | .asyncSuspendResumePartialFunction => "AsyncSuspendResumePartialFunction"
  | .autoClosureType => "AutoClosureType"
  | .autoDiffDerivativeVTableThunk => "AutoDiffDerivativeVTableThunk"
  | .autoDiffFunction => "AutoDiffFunction"
  | .autoDiffFunctionKind => "AutoDiffFunctionKind"
  | .autoDiffSelfReorderingReabstractionThunk => "AutoDiffSelfReorderingReabstractionThunk"
  | .autoDiffSubsetParametersThunk => "AutoDiffSubsetParametersThunk"
  | .baseConformanceDescriptor => "BaseConformanceDescriptor"
  | .baseWitnessTableAccessor => "BaseWitnessTableAccessor"
  | .boundGenericClass => "BoundGenericClass"
  | .boundGenericEnum => "BoundGenericEnum"
  | .boundGenericFunction => "BoundGenericFunction"
  | .boundGenericOtherNominalType => "BoundGenericOtherNominalType"
  | .boundGenericProtocol => "BoundGenericProtocol"
  | .boundGenericStructure => "BoundGenericStructure"
  | .boundGenericTypeAlias => "BoundGenericTypeAlias"
  | .builtinTypeName => "BuiltinTypeName"
  | .cFunctionPointer => "CFunctionPointer"
  | .canonicalPrespecializedGenericTypeCachingOnceToken => "CanonicalPrespecializedGenericTypeCachingOnceToken"
  | .canonicalSpecializedGenericMetaclass => "CanonicalSpecializedGenericMetaclass"
  | .canonicalSpecializedGenericTypeMetadataAccessFunction => "CanonicalSpecializedGenericTypeMetadataAccessFunction"
  | .classType => "Class"
  | .classMetadataBaseOffset => "ClassMetadataBaseOffset"
  | .clangType => "ClangType"
  | .concreteProtocolConformance => "ConcreteProtocolConformance"
  | .concurrentFunctionType => "ConcurrentFunctionType"
  | .constructor => "Constructor"
  | .coroutineContinuationPrototype => "CoroutineContinuationPrototype"
  | .curryThunk => "CurryThunk"
  | .deallocator => "Deallocator"
  | .declContext => "DeclContext"
  | .defaultArgumentInitializer => "DefaultArgumentInitializer"
  | .defaultAssociatedConformanceAccessor => "DefaultAssociatedConformanceAccessor"
  | .defaultAssociatedTypeMetadataAccessor => "DefaultAssociatedTypeMetadataAccessor"
  | .dependentAssociatedConformance => "DependentAssociatedConformance"
  | .dependentAssociatedTypeRef => "DependentAssociatedTypeRef"
  | .dependentGenericConformanceRequirement => "DependentGenericConformanceRequirement"
  | .dependentGenericLayoutRequirement => "DependentGenericLayoutRequirement"
  | .dependentGenericParamCount => "DependentGenericParamCount"
  | .dependentGenericParamType => "DependentGenericParamType"
  | .dependentGenericSameTypeRequirement => "DependentGenericSameTypeRequirement"
  | .dependentGenericSignature => "DependentGenericSignature"
  | .dependentGenericType => "DependentGenericType"
  | .dependentMemberType => "DependentMemberType"
  | .dependentProtocolConformanceAssociated => "DependentProtocolConformanceAssociated"
  | .dependentProtocolConformanceInherited => "DependentProtocolConformanceInherited"
  | .dependentProtocolConformanceRoot => "DependentProtocolConformanceRoot"
  | .dependentPseudogenericSignature => "DependentPseudogenericSignature"
  | .destructor => "Destructor"
  | .didSet => "DidSet"
  | .differentiabilityWitness => "DifferentiabilityWitness"
  | .differentiableFunctionType => "DifferentiableFunctionType"
  | .directMethodReferenceAttribute => "DirectMethodReferenceAttribute"
  | .directness => "Directness"
  | .dispatchThunk => "DispatchThunk"
  | .dynamicAttribute => "DynamicAttribute"
  | .dynamicSelf => "DynamicSelf"
  | .dynamicallyReplaceableFunctionImpl => "DynamicallyReplaceableFunctionImpl"
  | .dynamicallyReplaceableFunctionKey => "DynamicallyReplaceableFunctionKey"
  | .dynamicallyReplaceableFunctionVar => "DynamicallyReplaceableFunctionVar"
  | .emptyList => "EmptyList"
  | .enumType => "Enum"
  | .enumCase => "EnumCase"
  | .errorType => "ErrorType"
  | .escapingAutoClosureType => "EscapingAutoClosureType"
  | .escapingObjCBlock => "EscapingObjCBlock"
  | .existentialMetatype => "ExistentialMetatype"
  | .explicitClosure => "ExplicitClosure"
  | .extension => "Extension"
  | .extensionDescriptor => "ExtensionDescriptor"
  | .fieldOffset => "FieldOffset"
  | .firstElementMarker => "FirstElementMarker"
  | .fullObjCResilientClassStub => "FullObjCResilientClassStub"
  | .fullTypeMetadata => "FullTypeMetadata"
  | .function => "Function"
  | .functionSignatureSpecialization => "FunctionSignatureSpecialization"
  | .functionSignatureSpecializationParam => "FunctionSignatureSpecializationParam"
  | .functionSignatureSpecializationParamKind => "FunctionSignatureSpecializationParamKind"
  | .functionSignatureSpecializationParamPayload => "FunctionSignatureSpecializationParamPayload"
  | .functionSignatureSpecializationReturn => "FunctionSignatureSpecializationReturn"
  | .functionType => "FunctionType"
  | .genericPartialSpecialization => "GenericPartialSpecialization"
  | .genericPartialSpecializationNotReAbstracted => "GenericPartialSpecializationNotReAbstracted"
  | .genericProtocolWitnessTable => "GenericProtocolWitnessTable"
  | .genericProtocolWitnessTableInstantiationFunction => "GenericProtocolWitnessTableInstantiationFunction"
  | .genericSpecialization => "GenericSpecialization"
  | .genericSpecializationInResilienceDomain => "GenericSpecializationInResilienceDomain"
  | .genericSpecializationNotReAbstracted => "GenericSpecializationNotReAbstracted"
  | .genericSpecializationParam => "GenericSpecializationParam"
  | .genericSpecializationPrespecialized => "GenericSpecializationPrespecialized"
  | .genericTypeMetadataPattern => "GenericTypeMetadataPattern"
  | .genericTypeParamDecl => "GenericTypeParamDecl"
  | .getter => "Getter"
  | .global => "Global"
  | .globalActorFunctionType => "GlobalActorFunctionType"
  | .globalGetter => "GlobalGetter"
  | .globalVariableOnceDeclList => "GlobalVariableOnceDeclList"
  | .globalVariableOnceFunction => "GlobalVariableOnceFunction"
  | .globalVariableOnceToken => "GlobalVariableOnceToken"
  | .identifier => "Identifier"
  | .implDifferentiability => "ImplDifferentiability"
  | .implErrorResult => "ImplErrorResult"
  | .implEscaping => "ImplEscaping"
  | .implConvention => "ImplConvention"
  | .implFunctionAttribute => "ImplFunctionAttribute"
  | .implFunctionConvention => "ImplFunctionConvention"
  | .implFunctionConventionName => "ImplFunctionConventionName"
  | .implFunctionType => "ImplFunctionType"
  | .implParameterResultDifferentiability => "ImplParameterResultDifferentiability"
  | .implInvocationSubstitutions => "ImplInvocationSubstitutions"
  | .implParameter => "ImplParameter"
  | .implPatternSubstitutions => "ImplPatternSubstitutions"
  | .implResult => "ImplResult"
  | .implYield => "ImplYield"
  | .implicitClosure => "ImplicitClosure"
  | .inOut => "InOut"
  | .index => "Index"
  | .indexSubset => "IndexSubset"
  | .infixOperator => "InfixOperator"
  | .initializer => "Initializer"
  | .inlinedGenericFunction => "InlinedGenericFunction"
  | .isolated => "Isolated"
  | .isSerialized => "IsSerialized"
  | .ivarDestroyer => "IVarDestroyer"
  | .ivarInitializer => "IVarInitializer"
  | .keyPathEqualsThunkHelper => "KeyPathEqualsThunkHelper"
  | .keyPathGetterThunkHelper => "KeyPathGetterThunkHelper"
  | .keyPathHashThunkHelper => "KeyPathHashThunkHelper"
  | .keyPathSetterThunkHelper => "KeyPathSetterThunkHelper"
  | .labelList => "LabelList"
  | .lazyProtocolWitnessTableAccessor => "LazyProtocolWitnessTableAccessor"
  | .lazyProtocolWitnessTableCacheVariable => "LazyProtocolWitnessTableCacheVariable"
  | .localDeclName => "LocalDeclName"
  | .materializeForSet => "MaterializeForSet"
  | .mergedFunction => "MergedFunction"
  | .metaclass => "Metaclass"
  | .metadataInstantiationCache => "MetadataInstantiationCache"
  | .metatype => "Metatype"
  | .metatypeRepresentation => "MetatypeRepresentation"
  | .methodDescriptor => "MethodDescriptor"
  | .methodLookupFunction => "MethodLookupFunction"
  | .modifyAccessor => "ModifyAccessor"
  | .moduleName => "Module"
  | .moduleDescriptor => "ModuleDescriptor"
  | .nativeOwningAddressor => "NativeOwningAddressor"
  | .nativeOwningMutableAddressor => "NativeOwningMutableAddressor"
  | .nativePinningAddressor => "NativePinningAddressor"
  | .nativePinningMutableAddressor => "NativePinningMutableAddressor"
  | .noDerivative => "NoDerivative"
  | .noEscapeFunctionType => "NoEscapeFunctionType"
  | .nominalTypeDescriptor => "NominalTypeDescriptor"
  | .nonObjCAttribute => "NonObjCAttribute"
  | .noncanonicalSpecializedGenericTypeMetadata => "NoncanonicalSpecializedGenericTypeMetadata"
  | .noncanonicalSpecializedGenericTypeMetadataCache => "NoncanonicalSpecializedGenericTypeMetadataCache"
  | .number => "Number"
  | .objCAsyncCompletionHandlerImpl => "ObjCAsyncCompletionHandlerImpl"
  | .objCAttribute => "ObjCAttribute"
  | .objCBlock => "ObjCBlock"
  | .objCMetadataUpdateFunction => "ObjCMetadataUpdateFunction"
  | .objCResilientClassStub => "ObjCResilientClassStub"
  | .opaqueReturnType => "OpaqueReturnType"
  | .opaqueReturnTypeOf => "OpaqueReturnTypeOf"
  | .opaqueType => "OpaqueType"
  | .opaqueTypeDescriptor => "OpaqueTypeDescriptor"
  | .opaqueTypeDescriptorAccessor => "OpaqueTypeDescriptorAccessor"
  | .opaqueTypeDescriptorAccessorImpl => "OpaqueTypeDescriptorAccessorImpl"
  | .opaqueTypeDescriptorAccessorKey => "OpaqueTypeDescriptorAccessorKey"
  | .opaqueTypeDescriptorAccessorVar => "OpaqueTypeDescriptorAccessorVar"
  | .opaqueTypeDescriptorSymbolicReference => "OpaqueTypeDescriptorSymbolicReference"
  | .otherNominalType => "OtherNominalType"
  | .outlinedAssignWithCopy => "OutlinedAssignWithCopy"
  | .outlinedAssignWithTake => "OutlinedAssignWithTake"
  | .outlinedBridgedMethod => "OutlinedBridgedMethod"
  | .outlinedConsume => "OutlinedConsume"
  | .outlinedCopy => "OutlinedCopy"
  | .outlinedDestroy => "OutlinedDestroy"
  | .outlinedInitializeWithCopy => "OutlinedInitializeWithCopy"
  | .outlinedInitializeWithTake => "OutlinedInitializeWithTake"
  | .outlinedRelease => "OutlinedRelease"
  | .outlinedRetain => "OutlinedRetain"
  | .outlinedVariable => "OutlinedVariable"
  | .owned => "Owned"
  | .owningAddressor => "OwningAddressor"
  | .owningMutableAddressor => "OwningMutableAddressor"
  | .partialApplyForwarder => "PartialApplyForwarder"
  | .partialApplyObjCForwarder => "PartialApplyObjCForwarder"
  | .postfixOperator => "PostfixOperator"
  | .predefinedObjCAsyncCompletionHandlerImpl => "PredefinedObjCAsyncCompletionHandlerImpl"
  | .prefixOperator => "PrefixOperator"
  | .privateDeclName => "PrivateDeclName"
  | .propertyDescriptor => "PropertyDescriptor"
  | .propertyWrapperBackingInitializer => "PropertyWrapperBackingInitializer"
  | .propertyWrapperInitFromProjectedValue => "PropertyWrapperInitFromProjectedValue"
  | .protocolType => "Protocol"
  | .protocolConformance => "ProtocolConformance"
  | .protocolConformanceDescriptor => "ProtocolConformanceDescriptor"
  | .protocolConformanceRefInOtherModule => "ProtocolConformanceRefInOtherModule"
  | .protocolConformanceRefInProtocolModule => "ProtocolConformanceRefInProtocolModule"
  | .protocolConformanceRefInTypeModule => "ProtocolConformanceRefInTypeModule"
  | .protocolDescriptor => "ProtocolDescriptor"
  | .protocolList => "ProtocolList"
  | .protocolListWithAnyObject => "ProtocolListWithAnyObject"
  | .protocolListWithClass => "ProtocolListWithClass"
  | .protocolRequirementsBaseDescriptor => "ProtocolRequirementsBaseDescriptor"
  | .protocolSelfConformanceDescriptor => "ProtocolSelfConformanceDescriptor"
  | .protocolSelfConformanceWitness => "ProtocolSelfConformanceWitness"
  | .protocolSelfConformanceWitnessTable => "ProtocolSelfConformanceWitnessTable"
  | .protocolSymbolicReference => "ProtocolSymbolicReference"
  | .protocolWitness => "ProtocolWitness"
  | .protocolWitnessTable => "ProtocolWitnessTable"
  | .protocolWitnessTableAccessor => "ProtocolWitnessTableAccessor"
  | .protocolWitnessTablePattern => "ProtocolWitnessTablePattern"
  | .reabstractionThunk => "ReabstractionThunk"
  | .reabstractionThunkHelper => "ReabstractionThunkHelper"
  | .reabstractionThunkHelperWithGlobalActor => "ReabstractionThunkHelperWithGlobalActor"
  | .reabstractionThunkHelperWithSelf => "ReabstractionThunkHelperWithSelf"
  | .readAccessor => "ReadAccessor"
  | .reflectionMetadataAssocTypeDescriptor => "ReflectionMetadataAssocTypeDescriptor"
  | .reflectionMetadataBuiltinDescriptor => "ReflectionMetadataBuiltinDescriptor"
  | .reflectionMetadataFieldDescriptor => "ReflectionMetadataFieldDescriptor"
  | .reflectionMetadataSuperclassDescriptor => "ReflectionMetadataSuperclassDescriptor"
  | .relatedEntityDeclName => "RelatedEntityDeclName"
  | .resilientProtocolWitnessTable => "ResilientProtocolWitnessTable"
  | .retroactiveConformance => "RetroactiveConformance"
  | .returnType => "ReturnType"
  | .setter => "Setter"
  | .shared => "Shared"
  | .silBoxImmutableField => "SILBoxImmutableField"
  | .silBoxLayout => "SILBoxLayout"
  | .silBoxMutableField => "SILBoxMutableField"
  | .silBoxType => "SILBoxType"
  | .silBoxTypeWithLayout => "SILBoxTypeWithLayout"
  | .specializationPassID => "SpecializationPassID"
  | .staticMember => "Static"
  | .structureType => "Structure"
  | .subscript => "Subscript"
  | .suffix => "Suffix"
  | .sugaredArray => "SugaredArray"
  | .sugaredDictionary => "SugaredDictionary"
  | .sugaredOptional => "SugaredOptional"
  | .sugaredParen => "SugaredParen"
  | .thinFunctionType => "ThinFunctionType"
  | .throwsMark => "ThrowsAnnotation"
  | .tuple => "Tuple"
  | .tupleElement => "TupleElement"
  | .tupleElementName => "TupleElementName"
  | .type => "Type"
  | .typeAlias => "TypeAlias"
  | .typeList => "TypeList"
  | .typeMangling => "TypeMangling"
  | .typeMetadata => "TypeMetadata"
  | .typeMetadataAccessFunction => "TypeMetadataAccessFunction"
  | .typeMetadataCompletionFunction => "TypeMetadataCompletionFunction"
  | .typeMetadataDemanglingCache => "TypeMetadataDemanglingCache"
  | .typeMetadataInstantiationCache => "TypeMetadataInstantiationCache"
  | .typeMetadataInstantiationFunction => "TypeMetadataInstantiationFunction"
  | .typeMetadataLazyCache => "TypeMetadataLazyCache"
  | .typeMetadataSingletonInitializationCache => "TypeMetadataSingletonInitializationCache"
  | .typeSymbolicReference => "TypeSymbolicReference"
  | .uncurriedFunctionType => "UncurriedFunctionType"
  | .unknownIndex => "UnknownIndex"
  | .unmanaged => "Unmanaged"
  | .unowned => "Unowned"
  | .unsafeAddressor => "UnsafeAddressor"
  | .unsafeMutableAddressor => "UnsafeMutableAddressor"
  | .valueWitness => "ValueWitness"
  | .valueWitnessTable => "ValueWitnessTable"
  | .variableDecl => "Variable"
  | .variadicMarker => "VariadicMarker"
  | .vtableAttribute => "VTableAttribute"
  | .vtableThunk => "VTableThunk"
  | .weak => "Weak"
  | .willSet => "WillSet"

/-- The kind with the given name. -/
def ofName? (s : String) : Option Kind :=
  all.find? (·.name == s)

end Kind

end SwiftMangling
