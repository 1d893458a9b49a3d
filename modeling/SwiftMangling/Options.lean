/-!
# Rendering options

Which parts of a symbol a rendering shows: a set of flags, and a module whose name is left out. The
presets are `full`, which shows everything in its long form, and `simplified`, which suits a user
interface.
-/

namespace SwiftMangling

/-- A rendering behaviour that can be turned on and off by itself. -/
inductive Flag where
  /-- Write `Optional<T>`, `Array<T>` and `Dictionary<K, V>` as `T?`, `[T]` and `[K : V]`. -/
  | sugaredTypes
  /-- Show the modules that a debugger generates. -/
  | debuggerModules
  /-- Put a declaration's context in front of it. -/
  | qualifiedEntities
  /-- Show where extensions are declared. -/
  | extensionContexts
  /-- Show the part after a symbol that is not mangled. -/
  | unmangledSuffix
  /-- Show the names of modules. -/
  | moduleNames
  /-- Describe specializations. -/
  | genericSpecializations
  /-- Show the protocol and the module of a conformance. -/
  | protocolConformances
  /-- Show the requirements of generic signatures. -/
  | whereClauses
  /-- Show the types of variables. -/
  | entityTypes
  /-- Number local declarations. -/
  | localNameContexts
  /-- Abbreviate partial application forwarders. -/
  | shortPartialApply
  /-- Abbreviate thunks. -/
  | shortThunk
  /-- Abbreviate value witnesses. -/
  | shortValueWitness
  /-- Leave out the base of an associated type. -/
  | shortArchetype
  /-- Show the file discriminators of private declarations. -/
  | privateDiscriminators
  /-- Show the types of function parameters and results. -/
  | functionArgumentTypes
  /-- Show the name of the standard library. -/
  | standardLibraryModule
  /-- Show the module of imported declarations. -/
  | importedModule
  /-- Write names as the lookup of types by name expects them. -/
  | forTypeName
  /-- Describe the pieces of an asynchronous function. -/
  | asyncResumePartial
  deriving DecidableEq, Inhabited

namespace Flag

/-- Every flag, in the order of their bits. -/
def all : List Flag :=
  [.sugaredTypes, .debuggerModules, .qualifiedEntities, .extensionContexts, .unmangledSuffix,
   .moduleNames, .genericSpecializations, .protocolConformances, .whereClauses, .entityTypes,
   .localNameContexts, .shortPartialApply, .shortThunk, .shortValueWitness, .shortArchetype,
   .privateDiscriminators, .functionArgumentTypes, .standardLibraryModule, .importedModule,
   .forTypeName, .asyncResumePartial]

/-- The name by which a flag is listed. -/
def name : Flag → String
  | .sugaredTypes => "SYNTHESIZE_SUGAR_ON_TYPES"
  | .debuggerModules => "DISPLAY_DEBUGGER_GENERATED_MODULE"
  | .qualifiedEntities => "QUALIFY_ENTITIES"
  | .extensionContexts => "DISPLAY_EXTENSION_CONTEXTS"
  | .unmangledSuffix => "DISPLAY_UNMANGLED_SUFFIX"
  | .moduleNames => "DISPLAY_MODULE_NAMES"
  | .genericSpecializations => "DISPLAY_GENERIC_SPECIALIZATIONS"
  | .protocolConformances => "DISPLAY_PROTOCOL_CONFORMANCES"
  | .whereClauses => "DISPLAY_WHERE_CLAUSES"
  | .entityTypes => "DISPLAY_ENTITY_TYPES"
  | .localNameContexts => "DISPLAY_LOCAL_NAME_CONTEXTS"
  | .shortPartialApply => "SHORTEN_PARTIAL_APPLY"
  | .shortThunk => "SHORTEN_THUNK"
  | .shortValueWitness => "SHORTEN_VALUE_WITNESS"
  | .shortArchetype => "SHORTEN_ARCHETYPE"
  | .privateDiscriminators => "SHOW_PRIVATE_DISCRIMINATORS"
  | .functionArgumentTypes => "SHOW_FUNCTION_ARGUMENT_TYPES"
  | .standardLibraryModule => "DISPLAY_STDLIB_MODULE"
  | .importedModule => "DISPLAY_OBJC_MODULE"
  | .forTypeName => "PRINT_FOR_TYPE_NAME"
  | .asyncResumePartial => "SHOW_ASYNC_RESUME_PARTIAL"

/-- The flag with the given name. -/
def ofName? (s : String) : Option Flag :=
  all.find? (·.name == s)

/-- The set that holds one flag, as a word with one bit for each flag. -/
def bit (f : Flag) : BitVec 21 :=
  BitVec.twoPow 21 f.ctorIdx

end Flag

/-- How a tree is rendered. -/
structure Options where
  /-- The set of flags that are on. -/
  flags : BitVec 21
  /-- A module whose name is left out in front of declarations. -/
  hidden : Option String
  deriving DecidableEq, Inhabited

namespace Options

/-- Whether a flag is on. -/
def has (o : Options) (f : Flag) : Bool :=
  o.flags.getLsbD f.ctorIdx

/-- Turns a flag on or off. -/
def set (o : Options) (f : Flag) (enabled : Bool) : Options :=
  if enabled then { o with flags := o.flags ||| f.bit } else { o with flags := o.flags &&& ~~~f.bit }

/-- Turns several flags on. -/
def enable (o : Options) (fs : List Flag) : Options :=
  fs.foldl (fun o f => o.set f true) o

/-- Turns several flags off. -/
def disable (o : Options) (fs : List Flag) : Options :=
  fs.foldl (fun o f => o.set f false) o

/-- Leaves out the name of `module` in front of declarations. -/
def hide (o : Options) (module : String) : Options :=
  { o with hidden := some module }

/-- Whether the name of `module` is left out. -/
def isHidden (o : Options) (module : String) : Bool :=
  o.hidden == some module

/-- Whether all of the given flags are on. -/
def hasAll (o : Options) (fs : List Flag) : Bool :=
  fs.all o.has

/-- The flags that are on, in the order of their bits. -/
def enabled (o : Options) : List Flag :=
  Flag.all.filter o.has

/-- Every flag off. -/
def none : Options :=
  ⟨0, .none⟩

/-- Every flag on. -/
def all : Options :=
  ⟨BitVec.allOnes 21, .none⟩

/-- Everything is shown, without sugar and without abbreviations. -/
def full : Options :=
  all.disable [.sugaredTypes, .shortPartialApply, .shortThunk, .shortValueWitness, .shortArchetype,
    .forTypeName]

/-- The compact form. -/
def simplified : Options :=
  (full.enable [.sugaredTypes, .shortPartialApply, .shortThunk, .shortValueWitness,
    .shortArchetype]).disable
    [.extensionContexts, .unmangledSuffix, .moduleNames, .genericSpecializations,
     .protocolConformances, .whereClauses, .entityTypes, .privateDiscriminators,
     .functionArgumentTypes, .asyncResumePartial]

end Options

end SwiftMangling
