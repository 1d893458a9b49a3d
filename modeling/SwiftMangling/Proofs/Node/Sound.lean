import SwiftMangling.Node.Edit
import SwiftMangling.Node.Path
import SwiftMangling.Render.Type

/-!
# Sound trees

A node is sound if its stored height is above the heights of its children and, as far as payloads
are checked, it carries a payload that the printing rules of its kind accept and its children carry
the payloads that these rules take from them. Whether payloads are checked is a parameter: trees
from the decoders are sound with their payloads, trees built by hand only in their heights.
-/

namespace SwiftMangling

namespace Payload

/-- Whether the payload is a text. -/
def isText : Payload → Bool
  | .text _ => true
  | _ => false

/-- Whether the payload is a number. -/
def isIndex : Payload → Bool
  | .index _ => true
  | _ => false

/-- Whether the payload is a differentiability other than none. -/
def isDifferentiable : Payload → Bool
  | .differentiability d => d != .nonDifferentiable
  | _ => false

/-- Whether the payload is a value witness. -/
def isValueWitness : Payload → Bool
  | .valueWitness _ => true
  | _ => false

/-- Whether the payload says what happened to a specialized parameter. -/
def isParamKind : Payload → Bool
  | .specialization k => !k.options.isEmpty || k.change?.isSome
  | _ => false

/-- Whether the payload is a directness. -/
def isDirectness : Payload → Bool
  | .directness _ => true
  | _ => false

/-- Whether the payload is the letter of a derivative. -/
def isDerivative : Payload → Bool
  | .index code => ['f', 'r', 'd', 'p'].any fun c => code == UInt64.ofNat c.toNat
  | _ => false

end Payload

namespace Kind

/-- Whether the rules for a kind accept a payload. A node of the kind `index` may also carry the
tag of a witness, which only the rule of that witness reads. Symbolic references come from resolvers
only and are accepted with no payload at all. -/
def accepts (k : Kind) (p : Payload) : Bool :=
  match k with
  | .moduleName | .identifier | .clangType | .builtinTypeName | .metatypeRepresentation
  | .implConvention | .implFunctionAttribute | .infixOperator | .prefixOperator | .postfixOperator
  | .tupleElementName | .outlinedBridgedMethod | .indexSubset | .suffix
  | .functionSignatureSpecializationParamPayload | .implParameterResultDifferentiability =>
    p.isText
  | .number | .specializationPassID | .outlinedVariable | .dependentGenericParamCount => p.isIndex
  | .typeSymbolicReference | .protocolSymbolicReference
  | .opaqueTypeDescriptorSymbolicReference => false
  | .index => p.isIndex || p.isValueWitness || p.isDifferentiable
  | .autoDiffFunctionKind => p.isDerivative
  | .differentiableFunctionType | .implDifferentiability => p.isDifferentiable
  | .functionSignatureSpecializationParamKind => p.isParamKind
  | .directness => p.isDirectness
  | _ => true

/-- Kinds with a tag among their children that is no number. -/
def isWitness (k : Kind) : Bool :=
  k == .valueWitness || k == .differentiabilityWitness

/-- Kinds that are, or hold, tags and so may not be taken apart. -/
def isSealed (k : Kind) : Bool :=
  k == .index || k.isWitness

/-- Kinds whose rules print the children of a child. -/
def looksThrough : Kind → Bool
  | .type | .inOut | .metatype | .dependentGenericType | .argumentTuple | .boundGenericClass
  | .boundGenericStructure | .boundGenericEnum | .boundGenericProtocol
  | .boundGenericOtherNominalType | .boundGenericTypeAlias | .boundGenericFunction
  | .implPatternSubstitutions | .implInvocationSubstitutions | .silBoxTypeWithLayout
  | .protocolList | .typeMangling => true
  | _ => false

end Kind

/-- What a rule needs of a child. -/
inductive Need where
  | text
  | index
  | layout
  | kind (k : Kind)
  deriving DecidableEq

/-- The kind that a rule needs a child to be of. -/
def Need.kind? : Need → Option Kind
  | .kind m => some m
  | _ => none

/-- The children from which the rules for a kind take something other than their rendering. -/
def Kind.needs : Kind → List (Nat × Need)
  | .localDeclName => [(0, .index)]
  | .privateDeclName | .relatedEntityDeclName | .implFunctionConvention => [(0, .text)]
  | .associatedTypeRef => [(1, .text)]
  | .dependentGenericParamType => [(0, .index), (1, .index)]
  | .explicitClosure | .implicitClosure | .defaultArgumentInitializer => [(1, .index)]
  | .objCAsyncCompletionHandlerImpl | .predefinedObjCAsyncCompletionHandlerImpl => [(2, .index)]
  | .dependentGenericLayoutRequirement => [(1, .layout)]
  | .dependentGenericType | .typeMangling => [(1, .kind .type)]
  | .protocolListWithClass | .protocolListWithAnyObject => [(0, .kind .protocolList)]
  | _ => []

namespace Node

/-- Whether a node carries the tag of a witness. -/
def isTag (n : Node) : Bool :=
  n.kind == .index && !n.payload.isIndex

/-- Whether a child is what a rule needs. -/
def meets (n : Node) : Need → Bool
  | .text => n.payload.isText
  | .index => n.payload.isIndex
  | .layout => (n.text?.bind Render.layoutName?).isSome
  | .kind k => n.kind == k

/-- Whether the children of a specialized parameter fit together: the first one says what happened,
and constants carry their texts. -/
def paramFits (cs : List Node) : Bool :=
  cs.head?.all fun c =>
    match c.payload with
    | .specialization k =>
      match k.change? with
      | some .constantInteger | some .constantFloat => cs[1]?.all (·.payload.isText)
      | some .constantString =>
        cs[1]?.all (·.payload.isText) && cs[2]?.all (·.payload.isText)
      | _ => true
    | _ => false

/-- Whether the tag of a differentiability witness is where its rule looks for it. -/
def witnessFits (cs : List Node) : Bool :=
  match cs.dropWhile (·.kind != .index) with
  | [] => true
  | tag :: rest => tag.payload.isDifferentiable && rest.all (!·.isTag)

/-- Whether the rules for a kind find what they take from the given children. -/
def childrenFit (k : Kind) (cs : List Node) : Bool :=
  match k with
  | .valueWitness => cs.head?.all (·.payload.isValueWitness) && (cs.drop 1).all (!·.isTag)
  | .differentiabilityWitness => witnessFits cs
  | .functionSignatureSpecializationParam | .functionSignatureSpecializationReturn =>
    cs.all (!·.isTag) && paramFits cs
  | .tuple => cs.all (·.kind == .tupleElement)
  | k =>
    cs.all (!·.isTag) && (!k.looksThrough || cs.all (!·.kind.isSealed)) &&
      k.needs.all fun (i, need) => cs[i]?.all (·.meets need)

/-- Whether a node carries what the rules for its kind take from it and its children. A node with a
payload has no children. -/
def fits (n : Node) : Bool :=
  n.kind.accepts n.payload && (n.acceptsChildren || n.children.isEmpty) &&
    childrenFit n.kind n.children

/-- Every node of a tree is higher than its children and, if payloads are checked, carries what its
rules take from it. -/
inductive Sound (checked : Prop) : Node → Prop where
  | intro {n : Node} (fits : checked → n.fits = true) (positive : 0 < n.height)
      (lower : ∀ c ∈ n.children, c.height < n.height)
      (children : ∀ c ∈ n.children, Sound checked c) : Sound checked n

variable {checked : Prop} {n c : Node} {k : Kind} {cs : List Node} {p : Payload}

theorem Sound.fits (h : n.Sound checked) (hc : checked) : n.fits = true := by
  cases h with
  | intro fits => exact fits hc

theorem Sound.positive (h : n.Sound checked) : 0 < n.height := by
  cases h with
  | intro _ positive => exact positive

theorem Sound.lower (h : n.Sound checked) (hc : c ∈ n.children) : c.height < n.height := by
  cases h with
  | intro _ _ lower => exact lower c hc

theorem Sound.child (h : n.Sound checked) (hc : c ∈ n.children) : c.Sound checked := by
  cases h with
  | intro _ _ _ children => exact children c hc

/-- A node fits if its kind accepts its payload, if only one of payload and children is there, and
if the children fit. -/
theorem fits_iff : n.fits = true ↔ n.kind.accepts n.payload = true ∧
    (n.payload ≠ .none → n.children = []) ∧ Node.childrenFit n.kind n.children = true := by
  have hbare : (n.acceptsChildren || n.children.isEmpty) = true ↔
      (n.payload ≠ .none → n.children = []) := by
    simp only [acceptsChildren, Bool.or_eq_true, beq_iff_eq, List.isEmpty_iff]
    exact Decidable.or_iff_not_imp_left
  rw [Node.fits, Bool.and_eq_true, Bool.and_eq_true, hbare, and_assoc]

theorem Sound.accepts (h : n.Sound checked) (hc : checked) :
    n.kind.accepts n.payload = true :=
  (fits_iff.mp (h.fits hc)).1

theorem Sound.bare (h : n.Sound checked) (hc : checked) (hp : n.payload ≠ .none) :
    n.children = [] :=
  (fits_iff.mp (h.fits hc)).2.1 hp

theorem Sound.childrenFit (h : n.Sound checked) (hc : checked) :
    Node.childrenFit n.kind n.children = true :=
  (fits_iff.mp (h.fits hc)).2.2

/-! ## Heights -/

private theorem foldl_max_le {m : Nat} (cs : List Node) (a : Nat) :
    cs.foldl (fun h c => max h c.height) a ≤ m ↔ a ≤ m ∧ ∀ c ∈ cs, c.height ≤ m := by
  induction cs generalizing a with
  | nil => simp
  | cons c cs ih =>
    rw [List.foldl_cons, ih, Nat.max_le, and_assoc, List.forall_mem_cons]

/-- A bound on the height of a node is one on the heights of its children. -/
theorem heightAbove_le_iff {m : Nat} :
    heightAbove cs ≤ m + 1 ↔ ∀ c ∈ cs, c.height ≤ m := by
  unfold heightAbove
  rw [Nat.add_le_add_iff_right, foldl_max_le]
  simp

theorem height_lt_heightAbove (h : c ∈ cs) : c.height < heightAbove cs := by
  have hle : heightAbove cs ≤ (heightAbove cs - 1) + 1 := by omega
  have := heightAbove_le_iff.mp hle c h
  have : 1 ≤ heightAbove cs := by unfold heightAbove; omega
  omega

theorem heightAbove_le {m : Nat} (h : ∀ c ∈ cs, c.height ≤ m) : heightAbove cs ≤ m + 1 :=
  heightAbove_le_iff.mpr h

/-! ## Children that fit -/

theorem childrenFit_nil : Node.childrenFit k [] = true := by
  unfold Node.childrenFit
  split
  iterate 5 rfl
  simp

/-- The children of a node other than a witness carry no tags. -/
theorem Sound.isTag_child (h : n.Sound checked) (hc : checked) (hk : n.kind.isWitness = false)
    (hm : c ∈ n.children) : c.isTag = false := by
  have hall : n.children.all (!·.isTag) = true := by
    have hf := h.childrenFit hc
    unfold Node.childrenFit at hf
    split at hf
    case h_5 =>
      rw [List.all_eq_true] at hf ⊢
      intro c hc
      simp_all [isTag]
    all_goals simp_all [Kind.isWitness]
  simpa using List.all_eq_true.mp hall c hm

/-- What a rule needs of a child is there if the child is. -/
theorem Sound.meets (h : n.Sound checked) (hc : checked) {i : Nat} {need : Need}
    (hn : (i, need) ∈ n.kind.needs) (hm : n.child? i = some c) : c.meets need = true := by
  have hf := h.childrenFit hc
  unfold Node.childrenFit at hf
  split at hf
  iterate 5 simp_all [Kind.needs]
  rw [Bool.and_eq_true] at hf
  have := List.all_eq_true.mp hf.2 _ hn
  have hi : n.children[i]? = some c := hm
  simpa [hi] using this

/-- A rule that looks through a node finds no tag below its children. -/
theorem Sound.isSealed_child (h : n.Sound checked) (hc : checked)
    (hk : n.kind.looksThrough = true) (hm : c ∈ n.children) : c.kind.isSealed = false := by
  have hf := h.childrenFit hc
  unfold Node.childrenFit at hf
  split at hf
  iterate 5 simp_all [Kind.looksThrough]
  simp_all

/-- The tag of a differentiability witness is its first child of kind `index`, and no tag stands
after it. -/
theorem witnessFits_findIdx? {i : Nat} (h : witnessFits cs = true)
    (hi : cs.findIdx? (·.kind == .index) = some i) :
    (∀ c, cs[i]? = some c → c.payload.isDifferentiable = true) ∧
      ∀ j c, i < j → cs[j]? = some c → c.isTag = false := by
  induction cs generalizing i with
  | nil => simp at hi
  | cons a cs ih =>
    rw [List.findIdx?_cons] at hi
    unfold witnessFits at h
    split at hi
    next ha =>
      -- the tag comes first, and nothing behind it is one
      obtain rfl : 0 = i := by simpa using hi
      rw [List.dropWhile_cons_of_neg (by simpa using ha), Bool.and_eq_true] at h
      refine ⟨fun c hc => by simp_all, fun j c hj hc => ?_⟩
      obtain ⟨j, rfl⟩ : ∃ k, j = k + 1 := ⟨j - 1, by omega⟩
      simpa using List.all_eq_true.mp h.2 c (List.mem_of_getElem? (by simpa using hc))
    next ha =>
      -- the tag is further on
      obtain ⟨k, hk, rfl⟩ : ∃ k, cs.findIdx? (·.kind == .index) = some k ∧ k + 1 = i := by
        simpa using hi
      rw [List.dropWhile_cons_of_pos (by simpa using ha)] at h
      obtain ⟨h1, h2⟩ := ih h hk
      refine ⟨fun c hc => h1 c (by simpa using hc), fun j c hj hc => ?_⟩
      obtain ⟨j, rfl⟩ : ∃ k, j = k + 1 := ⟨j - 1, by omega⟩
      exact h2 j c (by omega) (by simpa using hc)

end Node

end SwiftMangling
