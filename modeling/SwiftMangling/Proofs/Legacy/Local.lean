import SwiftMangling.Proofs.Legacy.Stable
import SwiftMangling.Proofs.Locality

/-!
# Legacy productions do not look behind themselves

The productions of the legacy scheme work on the input from their place on, on the table of
references and on the depth of nesting, and they leave the depth as they found it. This is said of
every decoder of the grammar under the assumption that it holds of the recursive productions
(`Recursion`): where those are read at once, at the same place, and where a byte is read first,
behind it.

A production reads a byte before it reads another one inside of it, so as many productions inside of
each other as there are bytes left are always enough, and more of them change nothing
(`parse_alike`).
-/

namespace SwiftMangling.Legacy

open Decoding

/-- The decoder is `D` levels deep. -/
def AtDepth (D : Nat) (s : State) : Prop :=
  s.depth = D

/-- A condition on how deep the decoder is, for each level that it may be on. -/
class Levels (I : Nat → State → Prop) : Prop where
  congr : ∀ {D s t}, t.depth = s.depth → I D s → I D t
  enter : ∀ {D s}, I D s → ¬maxDepth ≤ s.depth → I (D + 1) { s with depth := s.depth + 1 }
  leave : ∀ {D s}, I (D + 1) s → I D { s with depth := s.depth - 1 }

instance (priority := low) {I : Nat → State → Prop} [Levels I] {D : Nat} : Placeless (I D) :=
  ⟨fun _ _ => Levels.congr rfl⟩

instance : Levels AtDepth where
  congr h hs := h.trans hs
  enter hs _ := congrArg (· + 1) hs
  leave hs := congrArg (· - 1) hs

/-- The decoder does not depend on what stands before the input, and leaves the level as it is. -/
abbrev Descends {α : Type} (C : Grammar → Grammar → Prop) (I : Nat → State → Prop) (N D j : Nat)
    (d : Decoder α) : Prop :=
  Local C (I D) N j d

/-- With grammars that `C` relates, the recursive productions do not depend on what stands before
the input, provided that at least `j` bytes of it have been read, and leave the level as it is. -/
class Recursion (C : Grammar → Grammar → Prop) (I : Nat → State → Prop) (N j : Nat) : Prop where
  descends : ∀ p D, Descends C I N D j (production p)

variable {C : Grammar → Grammar → Prop} {I : Nat → State → Prop} {N D j : Nat} {k : Kind}

instance [h : Recursion C I N j] : Recursion C I N (j + 1) :=
  ⟨fun p D => ⟨fun hg hx hl hs => (h.descends p D).run hg hx (by omega) hs⟩⟩

instance {p : Production} [h : Recursion C I N j] : Descends C I N D j (production p) :=
  h.descends p D

/-! ## Recursion and references -/

instance [Recursion C I N j] : Descends C I N D j type :=
  inferInstanceAs (Descends C I N D j (production _))

instance [Recursion C I N j] : Descends C I N D j context :=
  inferInstanceAs (Descends C I N D j (production _))

variable [Levels I]

/-- A level of nesting is left again, even if what is nested fails. -/
instance {α : Type} {d : Decoder α} [hd : Descends C I N (D + 1) j d] :
    Descends C I N D j (nested d) where
  run {g g' b b' x l s s'} hg hx hl hs := by
    have hdepth : s'.depth = s.depth := by rw [hs.same]; rfl
    -- the depth is the same in both runs, so both of them enter the level or none does
    unfold nested
    rw [hdepth]
    by_cases hdeep : maxDepth ≤ s.depth
    · rw [if_pos hdeep, if_pos hdeep]
      exact ⟨rfl, l, by omega, hs⟩
    · rw [if_neg hdeep, if_neg hdeep]
      have hdeeper : Beside (I (D + 1)) b b' x l { s with depth := s.depth + 1 }
          { s' with depth := s.depth + 1 } :=
        ⟨Levels.enter hs.keeps hdeep, hs.before, hs.input,
          congrArg (fun u : State => { u with depth := s.depth + 1 }) hs.same⟩
      obtain ⟨hresult, l', hl', hend⟩ := hd.run hg hx hl hdeeper
      exact ⟨hresult, l', hl', Levels.leave hend.keeps, hend.before, hend.input,
        congrArg (fun u : State => { u with depth := u.depth - 1 }) hend.same⟩

/-- A decoder that only uses the table of references. -/
theorem descends_of_blind {α : Type} {d : Decoder α} (hd : Blind C d)
    (hdepth : ∀ g s, (d g s).2.depth = s.depth) : Descends C I N D j d :=
  hd.local id fun g s hs => Levels.congr (hdepth g s) hs

instance {n : Node} : Descends C I N D j (addSubstitution n) :=
  descends_of_blind inferInstance fun _ _ => rfl

instance {n : Node} : Descends C I N D j (remember n) :=
  inferInstanceAs (Descends C I N D j (_ >>= _))

instance : Descends C I N D j clearSubstitutions :=
  descends_of_blind inferInstance fun _ _ => rfl

instance {i : Nat} : Descends C I N D j (get >>= fun s => ofOption s.substitutions[i]?) :=
  descends_of_blind inferInstance fun _ _ => rfl

instance : Descends C I N D j numberNode :=
  inferInstanceAs (Descends C I N D j (_ >>= _))

instance [Recursion C I N j] : Descends C I N D j (aroundType k) :=
  inferInstanceAs (Descends C I N D j (_ >>= _))

/-! ## Names -/

instance : Descends C I N D j (operatorKind k) := by
  unfold operatorKind
  refine .bind inferInstance fun _ => .ite ?_ inferInstance
  refine .bind inferInstance fun _ => .bind inferInstance fun c => ?_
  split <;> infer_instance

instance : Descends C I N D j (identifier k) := by
  unfold identifier
  refine .bind inferInstance fun _ => .bind inferInstance fun operator =>
    .bind inferInstance fun _ => .bind inferInstance fun s => ?_
  dsimp only
  refine .ite ?_ ?_
  all_goals
    refine .bind inferInstance fun s => .bind inferInstance fun _ => ?_
    split <;> infer_instance

instance : Descends C I N D j identifierText :=
  inferInstanceAs (Descends C I N D j (_ >>= _))

instance : Descends C I N D j declName :=
  inferInstanceAs (Descends C I N D j (_ >>= _))

instance : Descends C I N D j substitution := by
  unfold substitution
  refine .bind inferInstance fun m => .bind inferInstance fun c => ?_
  split <;> infer_instance

instance : Descends C I N D j module :=
  inferInstanceAs (Descends C I N D j (_ >>= _))

instance [Recursion C I N j] : Descends C I N D j (declaration k) :=
  inferInstanceAs (Descends C I N D j (_ >>= _))

instance {c : Node} : Descends C I N D j (protocolIn c) :=
  inferInstanceAs (Descends C I N D j (_ >>= _))

instance [Recursion C I N j] : Descends C I N D j protocolNode := by
  unfold protocolNode
  refine .bind inferInstance fun _ => .ite (.bind inferInstance fun n => ?_) inferInstance
  split <;> infer_instance

instance [Recursion C I N j] : Descends C I N D j protocol :=
  inferInstanceAs (Descends C I N D j (_ >>= _))

instance [Recursion C I N j] : Descends C I N D j protocolList :=
  inferInstanceAs (Descends C I N D j (_ >>= _))

instance [Recursion C I N j] : Descends C I N D j conformance :=
  inferInstanceAs (Descends C I N D j (_ >>= _))

instance [Recursion C I N j] : Descends C I N D j (aroundConformance k) :=
  inferInstanceAs (Descends C I N D j (_ >>= _))

/-! ## Generics -/

instance : Descends C I N D j genericParameterIndex :=
  inferInstanceAs (Descends C I N D j (_ >>= _))

instance [Recursion C I N j] : Descends C I N D j associatedTypeReference := by
  unfold associatedTypeReference
  infer_instance

instance {base : Node} [Recursion C I N j] : Descends C I N D j (memberOf base) :=
  inferInstanceAs (Descends C I N D j (_ >>= _))

instance [Recursion C I N j] : Descends C I N D j associatedType :=
  inferInstanceAs (Descends C I N D j (_ >>= _))

instance {base : Node} [Recursion C I N j] : Descends C I N D j (associatedTypeChain base) :=
  inferInstanceAs (Descends C I N D j (_ >>= _))

instance [Recursion C I N j] : Descends C I N D j associatedTypePath :=
  inferInstanceAs (Descends C I N D j (_ >>= _))

instance [Recursion C I N j] : Descends C I N D j dependentType :=
  inferInstanceAs (Descends C I N D j (_ >>= _))

instance [Recursion C I N j] : Descends C I N D j constrainedSubject :=
  inferInstanceAs (Descends C I N D j (_ >>= _))

instance [Recursion C I N j] : Descends C I N D j constrainedType :=
  inferInstanceAs (Descends C I N D j (_ >>= _))

instance {c : Char} : Descends C I N D j (layoutNumbers c) := by
  unfold layoutNumbers
  split <;> infer_instance

instance [Recursion C I N j] : Descends C I N D j conformanceConstraint := by
  unfold conformanceConstraint
  refine .bind inferInstance fun m => .bind inferInstance fun c => ?_
  split
  case h_2 =>
    refine .bind inferInstance fun _ => .bind inferInstance fun n => ?_
    split <;> infer_instance
  all_goals infer_instance

instance [Recursion C I N j] : Descends C I N D j genericRequirement := by
  unfold genericRequirement
  exact .bind inferInstance fun _ => .bind inferInstance fun _ => .ite inferInstance inferInstance

instance {n : Nat} : Descends C I N D j (parameterCounts n) := by
  induction n with
  | zero => exact inferInstanceAs (Descends C I N D j failure)
  | succ n ih =>
    rw [parameterCounts]
    refine .bind inferInstance fun m => .bind inferInstance fun c => .ite inferInstance <|
      .bind inferInstance fun zero => ?_
    dsimp only
    exact .ite inferInstance inferInstance

instance [Recursion C I N j] : Descends C I N D j (signatureOf k) := by
  unfold signatureOf
  refine .bind inferInstance fun n => .bind inferInstance fun counts => ?_
  dsimp only
  infer_instance

instance [Recursion C I N j] : Descends C I N D j genericSignature :=
  inferInstanceAs (Descends C I N D j (signatureOf _))

instance [Recursion C I N (j + 1)] : Descends C I N D j archetypeRule := by
  unfold archetypeRule
  refine paired_nextChar fun c => ?_
  dsimp only
  split <;> infer_instance

instance [Recursion C I N (j + 1)] : Descends C I N D j nominalType := by
  unfold nominalType
  refine paired_nextChar fun c => ?_
  split <;> infer_instance

instance [Recursion C I N j] : Descends C I N D j genericArgument :=
  inferInstanceAs (Descends C I N D j (_ >>= _))

instance {n : Node} [Recursion C I N j] : Descends C I N D j (bindOne n) := by
  unfold bindOne
  refine .bind inferInstance fun arguments => ?_
  split <;> infer_instance

/-- By recursion on the contexts: a list is read for each of them that takes one. -/
theorem descends_bindArguments [Recursion C I N j] (n : Node) :
    Descends C I N D j (bindArguments n) := by
  unfold bindArguments
  split
  · infer_instance
  · rename_i parent parts hchildren
    have hmem : parent ∈ n.children := by simp [hchildren]
    have hparent : Descends C I N D j (bindArguments parent) := descends_bindArguments parent
    infer_instance
termination_by sizeOf n
decreasing_by exact Node.sizeOf_lt_of_mem_children hmem

instance [Recursion C I N j] : Descends C I N D j boundGenericType :=
  .bind inferInstance descends_bindArguments

/-! ## Lowered functions -/

instance {r : Role} : Descends C I N D j (convention r) :=
  inferInstanceAs (Descends C I N D j (_ >>= _))

instance : Descends C I N D j callingConvention :=
  inferInstanceAs (Descends C I N D j (_ >>= _))

instance {c : Char} {s : String} : Descends C I N D j (attributeIf c s) :=
  inferInstanceAs (Descends C I N D j (_ >>= _))

instance [Recursion C I N j] : Descends C I N D j loweredSignature :=
  inferInstanceAs (Descends C I N D j (_ >>= _))

instance [Recursion C I N j] : Descends C I N D j loweredParameter :=
  inferInstanceAs (Descends C I N D j (_ >>= _))

instance [Recursion C I N j] : Descends C I N D j loweredResult :=
  inferInstanceAs (Descends C I N D j (_ >>= _))

instance [Recursion C I N j] : Descends C I N D j loweredFunctionType := by
  unfold loweredFunctionType
  refine .bind inferInstance fun _ => ?_
  dsimp only
  exact .ite (.bind inferInstance inferInstance) (.bind inferInstance inferInstance)

/-! ## Types -/

instance : Descends C I N D j builtinSize :=
  inferInstanceAs (Descends C I N D j (_ >>= _))

instance : Descends C I N D j vectorElement := by
  unfold vectorElement
  refine .bind inferInstance fun c => ?_
  split <;> infer_instance

instance : Descends C I N D j builtinType := by
  unfold builtinType
  refine .bind inferInstance fun c => ?_
  split <;> infer_instance

instance [Recursion C I N j] : Descends C I N D j tupleElement :=
  inferInstanceAs (Descends C I N D j (_ >>= _))

instance {isVariadic : Bool} [Recursion C I N j] : Descends C I N D j (tuple isVariadic) :=
  inferInstanceAs (Descends C I N D j (_ >>= _))

instance [Recursion C I N j] : Descends C I N D j (functionType k) := by
  unfold functionType
  refine .bind inferInstance fun throws => .bind inferInstance fun concurrent =>
    .bind inferInstance fun async => .bind inferInstance fun _ => ?_
  dsimp only
  exact .ite inferInstance inferInstance

instance [Recursion C I N j] : Descends C I N D j (representedMetatype k) :=
  inferInstanceAs (Descends C I N D j (_ >>= _))

instance [Recursion C I N j] : Descends C I N D j boxField := by
  unfold boxField
  refine .bind inferInstance fun c => ?_
  split <;> infer_instance

instance [Recursion C I N j] : Descends C I N D j boxType := by
  unfold boxType
  refine .bind inferInstance fun _ => ?_
  dsimp only
  refine .ite ?_ ?_
  all_goals
    refine .bind inferInstance fun signature => .bind inferInstance fun fields => ?_
    split <;> infer_instance

instance [Recursion C I N j] : Descends C I N D j specialType := by
  unfold specialType
  refine .bind inferInstance fun c => ?_
  split <;> infer_instance

instance [Recursion C I N (j + 1)] : Descends C I N D j contentRule := by
  unfold contentRule
  refine paired_nextChar fun c => ?_
  split <;> infer_instance

instance [Recursion C I N (j + 1)] : Descends C I N D j typeRule :=
  inferInstanceAs (Descends C I N D j (_ >>= _))

/-! ## Declarations -/

instance : Descends C I N D j mutableAddressor := by
  unfold mutableAddressor
  refine .bind inferInstance fun c => ?_
  split <;> infer_instance

instance : Descends C I N D j addressor := by
  unfold addressor
  refine .bind inferInstance fun c => ?_
  split <;> infer_instance

instance : Descends C I N D j (accessorForm k) :=
  inferInstanceAs (Descends C I N D j (_ >>= _))

/-- A letter that stands for no form is the first of a name. -/
instance : Descends C I N D j (form k) := by
  unfold form
  refine paired_nextChar fun c => ?_
  split
  case h_17 => exact paired_pushBack inferInstance
  all_goals infer_instance

instance {c name : Node} [Recursion C I N j] : Descends C I N D j (storage c name) := by
  unfold storage
  infer_instance

instance {c : Node} {f : Form} [Recursion C I N j] : Descends C I N D j (formNode c f) := by
  cases f <;> rw [formNode] <;> infer_instance

instance [Recursion C I N (j + 1)] : Descends C I N D j entity := by
  unfold entity
  refine .bind inferInstance fun isStatic => .bind inferInstance fun m =>
    .bind inferInstance fun first => ?_
  split
  · infer_instance
  · exact paired_nextByte fun _ => inferInstance

instance [Recursion C I N (j + 1)] : Descends C I N D j contextContent := by
  unfold contextContent
  refine .bind inferInstance fun m => .bind inferInstance fun c => ?_
  split
  case h_6 => infer_instance
  all_goals exact paired_nextByte fun _ => inferInstance

instance [Recursion C I N (j + 1)] : Descends C I N D j contextRule :=
  inferInstanceAs (Descends C I N D j (nested _))

/-! ## Specializations -/

instance [Recursion C I N j] : Descends C I N D j genericParam :=
  inferInstanceAs (Descends C I N D j (_ >>= _))

instance : Descends C I N D j terminatedIdentifier :=
  inferInstanceAs (Descends C I N D j (_ >>= _))

instance : Descends C I N D j terminatedText :=
  inferInstanceAs (Descends C I N D j (_ >>= _))

instance : Descends C I N D j propagatedConstant := by
  unfold propagatedConstant
  refine .bind inferInstance fun _ => .ite inferInstance <|
    .bind inferInstance fun _ => .ite inferInstance <|
    .bind inferInstance fun _ => .ite inferInstance <|
    .bind inferInstance fun _ => .ite inferInstance <|
    .bind inferInstance fun _ => .ite (.bind inferInstance fun _ => ?_) inferInstance
  dsimp only
  exact .ite inferInstance inferInstance

instance {n : Nat} [Recursion C I N j] : Descends C I N D j (closureTypes n) := by
  induction n with
  | zero => exact inferInstanceAs (Descends C I N D j (pure []))
  | succ n ih =>
    rw [closureTypes]
    refine .bind inferInstance fun c => .ite inferInstance <| .bind inferInstance fun m => ?_
    split <;> infer_instance

instance [Recursion C I N j] : Descends C I N D j propagatedClosure :=
  inferInstanceAs (Descends C I N D j (_ >>= _))

instance {codes : List (Char × ParamOption)} : Descends C I N D j (paramOptions codes) := by
  induction codes with
  | nil => exact inferInstanceAs (Descends C I N D j (pure []))
  | cons code codes ih => exact inferInstanceAs (Descends C I N D j (_ >>= _))

instance : Descends C I N D j optionParam :=
  inferInstanceAs (Descends C I N D j (_ >>= _))

instance [Recursion C I N j] : Descends C I N D j paramChange := by
  unfold paramChange
  exact .bind inferInstance fun _ => .ite inferInstance <|
    .bind inferInstance fun _ => .ite inferInstance <|
    .bind inferInstance fun _ => .ite inferInstance <|
    .bind inferInstance fun _ => .ite inferInstance <|
    .bind inferInstance fun _ => .ite inferInstance inferInstance

instance [Recursion C I N j] : Descends C I N D j signatureParam :=
  inferInstanceAs (Descends C I N D j (_ >>= _))

instance [Recursion C I N (j + 1)] : Descends C I N D j specialization := by
  unfold specialization
  refine paired_nextChar fun c => ?_
  dsimp only
  split
  case h_4 => exact inferInstanceAs (Paired C (I D) N j 1 failure failure)
  all_goals infer_instance

instance {n : Nat} [Recursion C I N (j + 1)] : Descends C I N D j (specializations n) := by
  induction n with
  | zero => exact inferInstanceAs (Descends C I N D j failure)
  | succ n ih =>
    rw [specializations]
    infer_instance

/-! ## Symbols -/

instance [Recursion C I N j] : Descends C I N D j metadata := by
  unfold metadata
  refine .bind inferInstance fun m => .bind inferInstance fun c => ?_
  split <;> infer_instance

instance [Recursion C I N (j + 1)] : Descends C I N D j fieldOffset := by
  unfold fieldOffset
  refine .bind inferInstance fun c => ?_
  dsimp only
  split <;> infer_instance

instance [Recursion C I N j] : Descends C I N D j (lazyWitnessTable k) :=
  inferInstanceAs (Descends C I N D j (_ >>= _))

instance [Recursion C I N j] : Descends C I N D j witness := by
  unfold witness
  refine .bind inferInstance fun c => ?_
  split <;> infer_instance

instance [Recursion C I N j] : Descends C I N D j valueWitness :=
  inferInstanceAs (Descends C I N D j (_ >>= _))

instance [Recursion C I N j] : Descends C I N D j (reabstraction k) :=
  inferInstanceAs (Descends C I N D j (_ >>= _))

instance [Recursion C I N j] : Descends C I N D j thunk := by
  unfold thunk
  refine .bind inferInstance fun c => ?_
  split <;> infer_instance

instance [Recursion C I N j] : Descends C I N D j forwarder :=
  inferInstanceAs (Descends C I N D j (_ >>= _))

instance [Recursion C I N (j + 1)] : Descends C I N D j global := by
  unfold global
  exact paired_nextIf inferInstance <| paired_nextIfText (by decide) inferInstance <|
    paired_nextIf inferInstance <| paired_nextIf inferInstance <|
    paired_nextIf inferInstance <| paired_nextIf inferInstance inferInstance

/-! ## Recursion -/

theorem descends_rule [Recursion C I N (j + 1)] (p : Production) : Descends C I N D j (rule p) := by
  cases p <;> rw [rule] <;> infer_instance

/-- The recursive productions of `g` and `g'` do the same behind any two beginnings of an input of
less than `N` bytes. -/
def Grammar.Alike (N : Nat) (g g' : Grammar) : Prop :=
  ∀ p n D, n < N → Paired (fun _ _ => True) (AtDepth D) n 0 0 (g.parse p) (g'.parse p)

/-- Behind a byte that has been read there is less left to read. -/
instance : Recursion (Grammar.Alike N) AtDepth N (j + 1) where
  descends p D := by
    refine ⟨fun {g g' b b' x l s s'} hg hx hl hs => ?_⟩
    have hlength := hs.length_add
    have hlt : (HasCursor.cursor s).rest.length < N := by omega
    have hcontexts : (fun _ _ => True : Unit → Unit → Prop) () () := trivial
    obtain ⟨hresult, l', -, hend⟩ :=
      (hg p _ D hlt).run hcontexts (Nat.le_refl _) (Nat.zero_le _) hs.here
    exact ⟨hresult, l' ++ l, by simp, hs.behind hend⟩

/-- The decoder does not depend on what stands before the input, and leaves the depth as it is. -/
abbrev Portable {α : Type} (N D j : Nat) (d : Decoder α) : Prop :=
  Descends (Grammar.Alike N) AtDepth N D j d

theorem portable_rule (p : Production) : Portable N D j (rule p) :=
  descends_rule p

/-- Parsers with more fuel than there are bytes left agree, by induction on the bytes. -/
theorem parse_paired {n m : Nat} (hn : N < n) (hm : N < m) (p : Production) (D : Nat) :
    Paired (fun _ _ => True) (AtDepth D) N 0 0 (parse n p) (parse m p) := by
  induction N using Nat.strongRecOn generalizing n m p D with
  | ind N ih =>
    obtain ⟨n, rfl⟩ : ∃ k, n = k + 1 := ⟨n - 1, by omega⟩
    obtain ⟨m, rfl⟩ : ∃ k, m = k + 1 := ⟨m - 1, by omega⟩
    -- the productions inside of this one start behind at least one byte
    have halike : Grammar.Alike N ⟨parse n⟩ ⟨parse m⟩ :=
      fun q M E hM => ih M hM (by omega) (by omega) q E
    exact ⟨fun _ hx hl hs => (portable_rule p).run halike hx hl hs⟩

/-- More productions inside of each other than there are bytes left change nothing. -/
theorem parse_alike {n m : Nat} (hn : N ≤ n) (hm : N ≤ m) :
    Grammar.Alike N ⟨parse n⟩ ⟨parse m⟩ :=
  fun p _ D hM => parse_paired (by omega) (by omega) p D

end SwiftMangling.Legacy
