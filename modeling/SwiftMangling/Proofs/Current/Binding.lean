import SwiftMangling.Current.BoundGeneric
import SwiftMangling.Proofs.Node.Same
import SwiftMangling.Proofs.Node.Unbound

/-!
# Binding a declaration and taking the arguments away again

Argument lists are attached to a declaration and to those around it, each of which may be rebuilt
for that. Along the rebuilt declarations stand the same arguments in the same order, and without
them the declaration is the one that was bound (`attachedArguments_bindArguments`).

An extension is mostly bound as the context of a declaration, and then the arguments go to what it
extends. By itself, or where another extension extends it, it is bound like any declaration, and the
arguments go to what it stands in. That has to be a module, which takes none: with a type in its
place arguments are lost (`bindArguments_extension_lost`).
-/

namespace SwiftMangling.Node

variable {n p c : Node} {k : Kind} {cs rest : List Node}

/-! ## Arguments along the way outward -/

/-- The arguments that a declaration itself is bound to. -/
def ownArguments (n : Node) : List Node :=
  if isBoundKind n.kind then (n.child? 1).elim [] children else []

/-- The arguments attached to a declaration and to those around it, the outermost first. -/
def attachedArguments (n : Node) : List Node :=
  match _h : n.outward? with
  | none => n.ownArguments
  | some c => c.attachedArguments ++ n.ownArguments
termination_by sizeOf n
decreasing_by exact sizeOf_lt_of_outward? _h

/-- The arguments of what stands around come first. -/
theorem attachedArguments_of_outward? (h : n.outward? = some c) :
    n.attachedArguments = c.attachedArguments ++ n.ownArguments := by
  rw [attachedArguments.eq_def]
  split
  next hn => simp [hn] at h
  next d hd =>
    obtain rfl : d = c := by simpa [hd] using h
    rfl

/-! ## Declarations without arguments -/

/-- A declaration that is bound to no arguments, and neither is anything around it, up to the
module. An extension may have a signature, and what it extends satisfies `P`; a nominal type has a
name and no more. -/
inductive Unbound (P : Node → Prop) : Node → Prop where
  | module {n : Node} (kind : n.kind = .moduleName) (leaf : n.children = []) : Unbound P n
  | extension {n m extended : Node} {more : List Node} (kind : n.kind = .extension)
      (bare : n.payload = .none) (children : n.children = m :: extended :: more)
      (signature : more.length ≤ 1) (holds : P extended) (context : Unbound P extended) :
      Unbound P n
  | declaration {n parent : Node} {rest : List Node} (kind : isDeclaration n.kind = true)
      (bare : n.payload = .none) (children : n.children = parent :: rest)
      (named : isRebuiltNominal n.kind = true → rest.length = 1) (context : Unbound P parent) :
      Unbound P n

/-- A declaration around another parent loses the arguments of that parent. -/
theorem unbound?_declaration (hk : isDeclaration k = true)
    (hn : isRebuiltNominal k = true → rest.length = 1) :
    (branch k (p :: rest)).unbound? = p.unbound?.map fun q => branch k (q :: rest) := by
  have hs := isSpecialized_declaration (n := branch k (p :: rest)) hk rfl
  cases hp : p.isSpecialized with
  | false => rw [unbound?_of_not (hs.trans hp), unbound?_of_not hp, Option.map_some]
  | true =>
    -- only a nominal type is cut down to its name, and it has nothing else to lose
    have hrest : (if isMember k then rest else rest.take 1) = rest := by
      split
      · rfl
      next hm =>
        have hnominal : isRebuiltNominal k = true := by simpa [isDeclaration, hm] using hk
        exact List.take_of_length_le (Nat.le_of_eq (hn hnominal))
    have hne : isRebuiltNominal k = true → rest ≠ [] :=
      fun h => List.ne_nil_of_length_eq_add_one (hn h)
    rw [unbound?_of_isSpecialized (hs.trans hp), unspecialized?_declaration hk rfl hne]
    show _ = p.unbound?.map _
    rw [show (branch k (p :: rest)).kind = k from rfl, hrest]

/-- An extension of another declaration loses the arguments of that declaration. -/
theorem unbound?_extension (h : rest.length ≤ 1) :
    (branch .extension (c :: p :: rest)).unbound? =
      p.unbound?.map fun q => branch .extension (c :: q :: rest) := by
  have hs := isSpecialized_extension (n := branch .extension (c :: p :: rest)) rfl rfl
  cases hp : p.isSpecialized with
  | false => rw [unbound?_of_not (hs.trans hp), unbound?_of_not hp, Option.map_some]
  | true =>
    rw [unbound?_of_isSpecialized (hs.trans hp), unspecialized?_extension rfl rfl hp,
      List.take_of_length_le h]

end SwiftMangling.Node

namespace SwiftMangling.Current

open Node

variable {n b x parent arguments : Node} {args lists rest : List Node}

/-- The node `b` is the declaration `n` bound to the given arguments, and to no others. -/
structure Rebinds (n b : Node) (arguments : List Node) : Prop where
  attached : b.attachedArguments = arguments
  isSpecialized : b.isSpecialized = !arguments.isEmpty
  removed : ∃ m, b.unbound? = some m ∧ m.same n = true

/-- A declaration that is bound to nothing. -/
theorem Rebinds.refl {P : Node → Prop} (h : n.Unbound P) : Rebinds n n [] := by
  have hplain : n.attachedArguments = [] ∧ n.isSpecialized = false := by
    -- by induction along the way outward, which binds nothing and ends in a module
    induction h with
    | @module n kind leaf =>
      obtain ⟨k, p, cs, height⟩ := n
      obtain rfl : k = .moduleName := kind
      obtain rfl : cs = [] := leaf
      exact ⟨by simp [attachedArguments.eq_def, outward?, ownArguments, isBoundKind, child?], rfl⟩
    | @extension n m extended more kind bare children signature holds context ih =>
      obtain ⟨k, p, cs, height⟩ := n
      obtain rfl : k = .extension := kind
      obtain rfl : cs = m :: extended :: more := children
      refine ⟨?_, (isSpecialized_extension rfl rfl).trans ih.2⟩
      rw [attachedArguments_of_outward? (c := extended) rfl, ih.1]
      rfl
    | @declaration n parent rest kind bare children named context ih =>
      obtain ⟨k, p, cs, height⟩ := n
      obtain rfl : cs = parent :: rest := children
      obtain ⟨hb, he, -⟩ := isDeclaration_spec kind
      refine ⟨?_, ?_⟩
      · rw [attachedArguments_of_outward? (c := parent) (by simp_all [outward?, child?]), ih.1]
        simp_all [ownArguments]
      · exact (isSpecialized_declaration kind rfl).trans ih.2
  exact ⟨hplain.1, hplain.2, n, unbound?_of_not hplain.2, same_refl n⟩

/-- A declaration around a bound parent is bound to the parent's arguments. -/
theorem Rebinds.declaration (h : Rebinds parent b args) (hk : isDeclaration n.kind = true)
    (hp : n.payload = .none) (hcs : n.children = parent :: rest)
    (hn : isRebuiltNominal n.kind = true → rest.length = 1) :
    Rebinds n (branch n.kind (b :: rest)) args := by
  obtain ⟨hb, he, -⟩ := isDeclaration_spec hk
  obtain ⟨m, hm, hsame⟩ := h.removed
  have hs := isSpecialized_declaration (n := branch n.kind (b :: rest)) hk rfl
  refine ⟨?_, hs.trans h.isSpecialized, branch n.kind (m :: rest), ?_, ?_⟩
  -- the rebuilt declaration leads to its parent and has no arguments of its own
  · have hout : (branch n.kind (b :: rest)).outward? = some b := by
      simp [outward?, branch, hb, he, child?]
    rw [attachedArguments_of_outward? hout, h.attached]
    simp [ownArguments, branch, hb]
  · rw [unbound?_declaration hk hn, hm, Option.map_some]
  · refine same_branch_iff.mpr ⟨hp, ?_⟩
    rw [hcs, sameList, hsame, sameList_refl]
    rfl

/-- An extension of a bound declaration is bound to the declaration's arguments. -/
theorem Rebinds.extension {m extended : Node} (h : Rebinds extended b args)
    (hk : n.kind = .extension) (hp : n.payload = .none) (hcs : n.children = m :: extended :: rest)
    (hlen : rest.length ≤ 1) : Rebinds n (branch .extension (m :: b :: rest)) args := by
  obtain ⟨r, hr, hsame⟩ := h.removed
  refine ⟨?_, (isSpecialized_extension rfl rfl).trans h.isSpecialized,
    branch .extension (m :: r :: rest), ?_, ?_⟩
  · rw [attachedArguments_of_outward? (c := b) rfl, h.attached]
    exact List.append_nil _
  · rw [unbound?_extension hlen, hr, Option.map_some]
  · rw [← hk]
    refine same_branch_iff.mpr ⟨hp, ?_⟩
    rw [hcs, sameList, sameList, hsame, same_refl, sameList_refl]
    rfl

/-- Only contexts are bound by a type with arguments, and a function is not among them. -/
theorem boundKind?_spec {k bound : Kind} (h : boundKind? k = some bound) :
    isBoundKind bound = true ∧ bound ≠ .boundGenericFunction ∧ k.isContext = true := by
  unfold boundKind? at h
  split at h
  case h_7 => cases h
  all_goals
    cases h
    exact ⟨rfl, by decide, rfl⟩

/-- A list of arguments is attached inside of those that are there already. -/
theorem Rebinds.bindOne (h : Rebinds n x args) (hne : arguments.children ≠ [])
    (hb : bindOne? x arguments = some b) : Rebinds n b (args ++ arguments.children) := by
  -- whether a function or a type, what is bound is the next node on the way outward
  have hend {k : Kind} {first : Node} (hk : isBoundKind k = true)
      (ht : k = .boundGenericFunction ∨ first.kind = .type)
      (hbound : (branch k [first, arguments]).bound? = some x) :
      Rebinds n (branch k [first, arguments]) (args ++ arguments.children) := by
    have hs := isSpecialized_of_isBoundKind (n := branch k [first, arguments]) hk
    have hout : (branch k [first, arguments]).outward? = some x := by
      rw [outward?, if_pos (by exact hk), hbound]
    refine ⟨?_, by simp [hs, hne], ?_⟩
    · rw [attachedArguments_of_outward? hout, h.attached]
      simp [ownArguments, branch, hk, child?]
    · rw [unbound?_of_isSpecialized hs,
        unspecialized?_bound hk (by simpa [branch, first?] using ht), hbound]
      exact h.removed
  unfold bindOne? at hb
  split at hb
  case h_3 =>
    obtain ⟨bound, hbound, rfl⟩ := Option.map_eq_some_iff.mp hb
    obtain ⟨hk, hf, -⟩ := boundKind?_spec hbound
    refine hend hk (.inr rfl) ?_
    simp [bound?, branch, hf, first?, typeOf]
  all_goals
    obtain rfl := Option.some.inj hb
    exact hend rfl (.inl rfl) rfl

/-! ## The recursion -/

/-- What becomes of the context of a declaration: an extension binds what it extends. -/
def boundContext (context : Node) (lists : List Node) : Option Node :=
  if context.kind == .extension then
    match context.children with
    | m :: extended :: more =>
      (bindArguments extended lists).map fun b => branch .extension (m :: b :: more.take 1)
    | _ => none
  else bindArguments context lists

/-- The declaration with the arguments that go to its context. -/
def rebuilt (n context : Node) (parts lists : List Node) : Option Node :=
  if lists.isEmpty then some n
  else (boundContext context lists).map fun b => branch n.kind (b :: parts)

theorem bindArguments_cons {context : Node} {parts outer : List Node}
    (hk : n.kind ≠ .typeSymbolicReference ∧ n.kind ≠ .protocolSymbolicReference)
    (hcs : n.children = context :: parts) :
    bindArguments n (arguments :: outer) =
      if takesNoArguments n.kind then rebuilt n context parts (arguments :: outer)
      else if arguments.count == 0 then rebuilt n context parts outer
      else (rebuilt n context parts outer).bind (bindOne? · arguments) := by
  rw [bindArguments.eq_def]
  dsimp only
  rw [if_neg (by simpa using hk)]
  split
  next hnil => simp [hnil] at hcs
  next c ps hc =>
    obtain ⟨rfl, rfl⟩ := List.cons.inj (hc.symm.trans hcs)
    -- only an extension with something to extend is treated differently from other contexts
    obtain ⟨_, _, _ | ⟨_, _ | ⟨_, _⟩⟩, _⟩ := c <;> cases takesNoArguments n.kind <;> rfl

/-- Without lists there is nothing to bind. -/
@[simp]
theorem bindArguments_nil : bindArguments n [] = none := by
  rw [bindArguments.eq_def]

/-- Arguments that are left over at the outermost declaration are refused. -/
theorem bindArguments_leaf
    (hk : n.kind ≠ .typeSymbolicReference ∧ n.kind ≠ .protocolSymbolicReference)
    (hcs : n.children = []) : bindArguments n lists = none := by
  rw [bindArguments.eq_def]
  split
  next => rfl
  next =>
    rw [if_neg (by simpa using hk)]
    split
    next => rfl
    next hc => simp [hcs] at hc

/-- The arguments of argument lists, the innermost first, from the outside in. -/
def flatten (lists : List Node) : List Node :=
  lists.reverse.flatMap children

theorem flatten_cons (outer : List Node) :
    flatten (arguments :: outer) = flatten outer ++ arguments.children := by
  simp [flatten]

end SwiftMangling.Current
