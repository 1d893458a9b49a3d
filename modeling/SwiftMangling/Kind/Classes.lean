import SwiftMangling.Kind

/-!
# Classes of node kinds

The sets of kinds by which the decoders accept a node from the stack and by which the renderer
chooses parentheses.
-/

namespace SwiftMangling.Kind

/-- Kinds that name a declaration: identifiers, operators, local, private and related names, and
symbolic references to declarations. -/
def isDeclName : Kind → Bool
  | .identifier | .localDeclName | .privateDeclName | .relatedEntityDeclName | .prefixOperator
  | .postfixOperator | .infixOperator | .typeSymbolicReference | .protocolSymbolicReference => true
  | _ => false

/-- Kinds that can be bound to generic arguments. -/
def isBindable : Kind → Bool
  | .structureType | .classType | .enumType | .protocolType | .protocolSymbolicReference
  | .otherNominalType | .typeAlias | .typeSymbolicReference => true
  | _ => false

/-- Plain nominal type declarations. -/
def isNominal : Kind → Bool
  | .structureType | .classType | .enumType | .protocolType | .otherNominalType | .typeAlias => true
  | _ => false

/-- Kinds that can enclose other declarations. -/
def isContext : Kind → Bool
  | .allocator | .anonymousContext | .classType | .constructor | .deallocator
  | .defaultArgumentInitializer | .destructor | .didSet | .enumType | .explicitClosure
  | .extension | .function | .getter | .globalGetter | .ivarInitializer | .ivarDestroyer
  | .implicitClosure | .initializer | .materializeForSet | .modifyAccessor | .moduleName
  | .nativeOwningAddressor | .nativeOwningMutableAddressor | .nativePinningAddressor
  | .nativePinningMutableAddressor | .otherNominalType | .owningAddressor
  | .owningMutableAddressor | .propertyWrapperBackingInitializer
  | .propertyWrapperInitFromProjectedValue | .protocolType | .protocolSymbolicReference
  | .readAccessor | .setter | .staticMember | .structureType | .subscript
  | .typeSymbolicReference | .typeAlias | .unsafeAddressor | .unsafeMutableAddressor
  | .variableDecl | .willSet | .opaqueReturnTypeOf => true
  | _ => false

/-- Contexts and types. -/
def isEntity (k : Kind) : Bool :=
  k == .type || k.isContext

/-- Requirements of a generic signature. -/
def isRequirement : Kind → Bool
  | .dependentGenericSameTypeRequirement | .dependentGenericLayoutRequirement
  | .dependentGenericConformanceRequirement => true
  | _ => false

/-- Kinds that annotate a whole symbol rather than form a part of it. -/
def isFunctionAttribute : Kind → Bool
  | .functionSignatureSpecialization | .genericSpecialization
  | .genericSpecializationPrespecialized | .inlinedGenericFunction
  | .genericSpecializationNotReAbstracted | .genericPartialSpecialization
  | .genericPartialSpecializationNotReAbstracted | .genericSpecializationInResilienceDomain
  | .objCAttribute | .nonObjCAttribute | .dynamicAttribute | .directMethodReferenceAttribute
  | .vtableAttribute | .partialApplyForwarder | .partialApplyObjCForwarder | .outlinedVariable
  | .outlinedBridgedMethod | .mergedFunction | .dynamicallyReplaceableFunctionImpl
  | .dynamicallyReplaceableFunctionKey | .dynamicallyReplaceableFunctionVar
  | .asyncFunctionPointer | .asyncAwaitResumePartialFunction
  | .asyncSuspendResumePartialFunction => true
  | _ => false

/-- Kinds whose rendering needs no parentheses in front of a `?` or a `.Type`. A `Type`, a
`ProtocolList` and a `ProtocolListWithAnyObject` depend on their children and are not among them. -/
def isSimpleType : Kind → Bool
  | .associatedType | .associatedTypeRef | .boundGenericClass | .boundGenericEnum
  | .boundGenericStructure | .boundGenericProtocol | .boundGenericOtherNominalType
  | .boundGenericTypeAlias | .boundGenericFunction | .builtinTypeName | .classType
  | .dependentGenericType | .dependentMemberType | .dependentGenericParamType | .dynamicSelf
  | .enumType | .errorType | .existentialMetatype | .metatype | .metatypeRepresentation
  | .moduleName | .tuple | .protocolType | .protocolSymbolicReference | .returnType
  | .silBoxType | .silBoxTypeWithLayout | .structureType | .otherNominalType | .tupleElementName
  | .typeAlias | .typeList | .labelList | .typeSymbolicReference | .sugaredOptional
  | .sugaredArray | .sugaredDictionary | .sugaredParen => true
  | _ => false

/-- Specializations whose parameters are `GenericSpecializationParam` nodes. -/
def isGenericSpecialization : Kind → Bool
  | .genericSpecialization | .genericSpecializationPrespecialized
  | .genericSpecializationNotReAbstracted | .genericPartialSpecialization
  | .genericPartialSpecializationNotReAbstracted | .genericSpecializationInResilienceDomain
  | .inlinedGenericFunction => true
  | _ => false

end SwiftMangling.Kind
