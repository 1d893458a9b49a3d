import SwiftMangling.Render.Template
import SwiftMangling.Render.Entity
import SwiftMangling.Render.LoweredFunction
import SwiftMangling.Render.Specialization
import SwiftMangling.Render.Thunk

/-!
# Rules

How each kind of node is printed. A kind that has neither a template nor a rule is printed by the
rules of its parents only.
-/

namespace SwiftMangling.Render

/-- Prints a type as a whole symbol; one with labels is a function type. -/
def printTypeMangling (n : Node) : Printer Unit := do
  let first ← child n 0
  if first.kind == .labelList then printFunctionType (some first) (← child (← child n 1) 0)
  else print first

/-- Prints the name of an operator with its place. -/
def printOperator (n : Node) (place : String) : Printer Unit := do
  write (← textOf n)
  write place

/-- Prints names, numbers, types and parts of types. -/
def printTypeNode? (n : Node) : Option (Printer Unit) :=
  match n.kind with
  | .typeMangling => some (printTypeMangling n)
  | .extension => some (printExtension n)
  | .anonymousContext => some (printAnonymousContext n)
  | .moduleName => some (printModule n)
  | .identifier | .clangType | .builtinTypeName | .metatypeRepresentation | .implConvention
  | .implFunctionAttribute => some do write (← textOf n)
  | .localDeclName => some (printLocalName n)
  | .privateDeclName => some (printPrivateName n)
  | .relatedEntityDeclName => some (printRelatedName n)
  | .infixOperator => some (printOperator n " infix")
  | .prefixOperator => some (printOperator n " prefix")
  | .postfixOperator => some (printOperator n " postfix")
  | .index | .number | .specializationPassID => some do writeNumber (← indexOf n).toNat
  | .functionType | .uncurriedFunctionType | .noEscapeFunctionType | .autoClosureType
  | .escapingAutoClosureType | .thinFunctionType | .cFunctionPointer | .objCBlock
  | .escapingObjCBlock => some (printFunctionType none n)
  | .argumentTuple => some do printParameters none n (← flag .functionArgumentTypes)
  | .tupleElement => some (printTupleElement n)
  | .tupleElementName => some (printOperator n ": ")
  | .returnType => some (printReturnType n)
  | .boundGenericClass | .boundGenericStructure | .boundGenericEnum | .boundGenericProtocol
  | .boundGenericOtherNominalType | .boundGenericTypeAlias => some (printBoundGeneric n)
  | .metatype => some (printMetatype n)
  | .existentialMetatype => some (printExistentialMetatype n)
  | .associatedTypeRef => some (printAssociatedTypeRef n)
  | .protocolList => some (printProtocolList n)
  | .protocolListWithClass => some (printProtocolListWithClass n)
  | .protocolListWithAnyObject => some (printProtocolListWithAnyObject n)
  | .sugaredOptional => some do
    printWithParens (← child n 0)
    write "?"
  | .silBoxTypeWithLayout => some (printBoxType n)
  | .silBoxLayout => some (printBoxLayout n)
  | .typeSymbolicReference => some (printSymbolicReference "type" n)
  | .protocolSymbolicReference => some (printSymbolicReference "protocol" n)
  | .opaqueTypeDescriptorSymbolicReference => some (printSymbolicReference "opaque type" n)
  | .differentiableFunctionType => some do
    write ((← differentiableAttribute (← differentiabilityOf n)) ++ " ")
  | .globalActorFunctionType => some do
    match n.first? with
    | some actor =>
      write "@"
      print actor
      write " "
    | none => pure ()
  | .implFunctionType => some (printLoweredFunctionType n)
  | .implDifferentiability => some do
    write (← differentiableAttribute (← differentiabilityOf n))
  | .implParameterResultDifferentiability => some (printMark n)
  | .implFunctionConvention => some (printCallingConvention n)
  | .implParameter | .implResult => some (printLoweredItem n)
  | .dependentGenericSignature | .dependentPseudogenericSignature => some (printSignature n)
  | .dependentGenericLayoutRequirement => some (printLayoutRequirement n)
  | .dependentGenericParamType => some (printGenericParameter n)
  | .dependentGenericType => some (printGenericType n)
  | .dependentAssociatedTypeRef => some (printAssociatedTypeName n)
  | .protocolConformance => some (printConformance n)
  | .dependentProtocolConformanceAssociated =>
    some (printDependentConformance "dependent associated protocol conformance " n)
  | .dependentProtocolConformanceInherited =>
    some (printDependentConformance "dependent inherited protocol conformance " n)
  | .dependentProtocolConformanceRoot =>
    some (printDependentConformance "dependent root protocol conformance " n)
  | _ => none

/-- Prints attributes, thunks, specializations and what else belongs to whole symbols. -/
def printSymbolNode? (n : Node) : Option (Printer Unit) :=
  match n.kind with
  | .suffix => some (printSuffix n)
  | .asyncAwaitResumePartialFunction | .asyncSuspendResumePartialFunction =>
    some (printResumeFunction n)
  | .partialApplyForwarder | .partialApplyObjCForwarder => some (printForwarder n)
  | .outlinedVariable => some (printOutlinedVariable n)
  | .outlinedBridgedMethod => some (printBridgedMethod n)
  | .genericSpecializationParam => some (printGenericParam n)
  | .functionSignatureSpecializationParamKind => some (printParamKind n)
  | .functionSignatureSpecializationParamPayload => some (printParamPayload n)
  | .reabstractionThunk | .reabstractionThunkHelper => some (printReabstraction n)
  | .reabstractionThunkHelperWithSelf => some (printReabstractionWithSelf n)
  | .keyPathGetterThunkHelper | .keyPathSetterThunkHelper => some (printKeyPathAccessor n)
  | .keyPathEqualsThunkHelper | .keyPathHashThunkHelper => some (printKeyPathHash n)
  | .autoDiffFunction | .autoDiffDerivativeVTableThunk => some (printDerivative n)
  | .autoDiffSelfReorderingReabstractionThunk => some (printSelfReordering n)
  | .autoDiffSubsetParametersThunk => some (printSubsetParameters n)
  | .autoDiffFunctionKind => some do write (← derivativeName n)
  | .differentiabilityWitness => some (printDifferentiabilityWitness n)
  | .indexSubset => some (printIndexSubset n)
  | .objCAsyncCompletionHandlerImpl | .predefinedObjCAsyncCompletionHandlerImpl =>
    some (printCompletionHandler n)
  | .valueWitness => some (printValueWitness n)
  | .directness => some (printDirectness n)
  | .globalVariableOnceToken | .globalVariableOnceFunction => some (printOnceInitialization n)
  | .globalVariableOnceDeclList => some (printOnceVariables n)
  | k => (specializationText? k).map fun (description, start) =>
    printSpecialization n description start

/-- Prints a node that is no declaration. -/
def printPlain (n : Node) : Printer Unit :=
  match template? n.kind with
  | some pieces => printPieces n pieces
  | none =>
    match printTypeNode? n <|> printSymbolNode? n with
    | some p => p
    | none => throw (.unexpectedKind n.kind)

/-- Prints a node, as the context of a declaration or by itself. -/
def rule (n : Node) (asContext : Bool) : Printer (Option Node) := do
  match accessorName? n.kind with
  | some name => printAccessor (← child n 0) asContext name
  | none =>
    match ← entityStyle? n with
    | some style => printEntity n asContext style
    | none =>
      printPlain n
      return none

/-- Prints a node with at most `depth` nodes inside of each other. -/
def printNode (options : Options) (embedded : String → String) :
    Nat → Node → Bool → Emit (Option Node)
  | 0, _, _ => throw .tooComplex
  | depth + 1, n, asContext =>
    rule n asContext ⟨options, embedded, printNode options embedded depth⟩

end SwiftMangling.Render
