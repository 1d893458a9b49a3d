import SwiftMangling.Proofs.Render.Balanced

/-!
# Types and names are balanced

The printers of names, of types and of lowered function types. Most of them have a trace that
`decide` checks. A lowered function type opens a parenthesis where its parameters or results start,
so what is awaited between its parts depends on the section that has been reached.
-/

set_option synthInstance.maxSize 100000

namespace SwiftMangling.Render

open Brackets

variable {n c : Node} {ns : List Node} {m : Option Node} {s : String} {i : Nat} {α β : Type}

/-! ## Names -/

instance [Clean n] : Balanced (printExtension n) := by
  unfold printExtension
  dsimp only
  exact balanced_of_trace (by decide)

instance [Clean n] : Balanced (printAnonymousContext n) := by
  unfold printAnonymousContext
  cases h : n.child? 2 with
  | none => exact balanced_of_trace (by decide)
  | some c =>
    have : Clean c := .of_eq h
    exact balanced_of_trace (by decide)

instance [Clean n] : Balanced (printModule n) := by
  unfold printModule
  exact balanced_of_trace (by decide)

instance [Clean n] : Balanced (printLocalName n) := by
  unfold printLocalName
  exact balanced_of_trace (by decide)

/-- The parenthesis is opened and closed by the same option. -/
instance [Clean n] : Balanced (printPrivateName n) := by
  unfold printPrivateName
  refine .bind inferInstance fun shows => ?_
  cases h : n.child? 1 with
  | none => exact balanced_of_trace (by decide)
  | some c =>
    have : Clean c := .of_eq h
    cases shows with
    | false =>
      simp only [Bool.false_eq_true, if_false]
      exact balanced_of_trace (by decide)
    | true =>
      simp only [if_true]
      exact balanced_of_trace (by decide)

instance [Clean n] : Balanced (printRelatedName n) := by
  unfold printRelatedName
  exact balanced_of_trace (by decide)

/-! ## Function types -/

instance {d : Differentiability} : Gives (differentiableAttribute d) NestedText := by
  cases d <;> first | exact gives_throw | exact gives_pure (nestedText_of_literal (by decide))

instance : Balanced (differentiabilityOf n) := by
  unfold differentiabilityOf
  split <;> exact balanced_of_trace (by decide)

theorem balanced_printConvention [NestedText s] [Clean n] : Balanced (printConvention s n) := by
  unfold printConvention
  cases h : n.first? with
  | none => exact balanced_of_trace (by decide)
  | some c =>
    have : Clean c := .of_eq h
    dsimp only
    exact balanced_of_trace (by decide)

instance [Clean n] : Balanced (printFunctionKind n) := by
  have : NestedText "c" := nestedText_of_literal (by decide)
  have : NestedText "block" := nestedText_of_literal (by decide)
  have := @balanced_printConvention n "c"
  have := @balanced_printConvention n "block"
  unfold printFunctionKind
  split <;> exact balanced_of_trace (by decide)

instance {found : Marks} [Clean n] : Balanced (noteMark found n) := by
  unfold noteMark
  split <;> exact balanced_of_trace (by decide)

theorem balanced_foldlM {f : β → Node → Printer β} [hns : AllClean ns]
    (hf : ∀ b n, Clean n → Balanced (f b n)) (b : β) : Balanced (ns.foldlM f b) := by
  replace hns := hns.clean
  induction ns generalizing b with
  | nil => exact inferInstanceAs (Balanced (pure b))
  | cons n ns ih =>
    obtain ⟨hn, hns⟩ := List.forall_mem_cons.mp hns
    rw [List.foldlM_cons]
    exact .bind (hf b n hn) fun b => ih b hns

instance {showTypes : Bool} [CleanIfAny m] [Clean n] :
    Balanced (printLabel m n i showTypes) := by
  unfold printLabel
  cases m with
  | some ls =>
    have : Clean ls := .of_eq rfl
    dsimp only
    exact balanced_of_trace (by decide)
  | none =>
    cases h : n.childOfKind? .tupleElementName with
    | some c =>
      have : Clean c := .of_eq h
      exact balanced_of_trace (by decide)
    | none => exact balanced_of_trace (by decide)

instance {showTypes : Bool} [CleanIfAny m] [hns : AllClean ns] :
    Balanced (printTupleParameters m showTypes i ns) := by
  replace hns := hns.clean
  induction ns generalizing i with
  | nil => exact inferInstanceAs (Balanced (pure ()))
  | cons p ps ih =>
    obtain ⟨hp, hps⟩ := List.forall_mem_cons.mp hns
    have := @ih (i + 1) hps
    rw [printTupleParameters]
    dsimp only
    exact balanced_of_trace (by decide)

theorem balanced_printSingleParameter {label : Option String} {showTypes : Bool}
    (hlabel : ∀ s ∈ label, NestedText s) [Clean n] :
    Balanced (printSingleParameter label n showTypes) := by
  unfold printSingleParameter
  cases label with
  | none =>
    dsimp only [Option.getD]
    exact balanced_of_trace (by decide)
  | some s =>
    have := hlabel s rfl
    dsimp only [Option.getD]
    exact balanced_of_trace (by decide)

instance {showTypes : Bool} [CleanIfAny m] [Clean n] :
    Balanced (printParameters m n showTypes) := by
  -- the only label of a single parameter, which stands in front of its parentheses
  have hlabel : ∀ s ∈ ((m.filter (·.count != 0)).bind Node.first?).bind Node.text?,
      NestedText s := by
    intro s hs
    obtain ⟨label, hlabel, hs⟩ := Option.bind_eq_some_iff.mp hs
    obtain ⟨ls, hls, hlabel⟩ := Option.bind_eq_some_iff.mp hlabel
    have : Clean ls := .of_eq hls
    have : Clean label := .of_eq hlabel
    exact nestedText_of_text? hs
  have : ∀ p : {c // Clean c}, Balanced (printSingleParameter
      (((m.filter (·.count != 0)).bind Node.first?).bind Node.text?) p.val showTypes) := fun p =>
    balanced_printSingleParameter hlabel
  unfold printParameters
  dsimp only
  exact balanced_of_trace (by decide)

instance [CleanIfAny m] [Clean n] : Balanced (printFunctionType m n) := by
  unfold printFunctionType
  dsimp only
  split
  · exact balanced_of_trace (by decide)
  · refine .bind inferInstance fun _ => .bind ?_ fun found => ?_
    · exact balanced_foldlM (fun _ _ _ => inferInstance) _
    · split <;> exact balanced_of_trace (by decide)

instance [Clean n] : Balanced (printTupleElement n) := by
  unfold printTupleElement
  cases hlabel : n.childOfKind? .tupleElementName <;> cases ht : n.childOfKind? .type
  case none.none => exact balanced_of_trace (by decide)
  case some.none label =>
    have : Clean label := .of_eq hlabel
    exact balanced_of_trace (by decide)
  case none.some t =>
    have : Clean t := .of_eq ht
    exact balanced_of_trace (by decide)
  case some.some label t =>
    have : Clean label := .of_eq hlabel
    have : Clean t := .of_eq ht
    exact balanced_of_trace (by decide)

instance [Clean n] : Balanced (printReturnType n) := by
  unfold printReturnType
  split
  · rename_i s hs _
    have : NestedText s := nestedText_of_text? (n := n) (by rw [Node.text?, hs])
    exact balanced_of_trace (by decide)
  · exact balanced_of_trace (by decide)

/-! ## Types -/

instance [Clean n] : Balanced (printWithParens n) := by
  unfold printWithParens
  exact balanced_of_trace (by decide)

instance [Clean n] : Balanced (printBoundLong n) := by
  unfold printBoundLong
  exact balanced_of_trace (by decide)

instance {short : Sugar} [Clean n] : Balanced (printSugar n short) := by
  cases short <;> rw [printSugar] <;> exact balanced_of_trace (by decide)

instance [Clean n] : Balanced (printBoundGeneric n) := by
  unfold printBoundGeneric
  cases sugar? n <;> exact balanced_of_trace (by decide)

instance [Clean n] : Gives (metatypeInstance n) Clean := by
  unfold metatypeInstance
  split
  · exact .after inferInstance fun _ => .after (balanced_of_trace (by decide)) inferInstance
  · infer_instance

instance [Clean n] : Balanced (printMetatype n) := by
  unfold printMetatype
  exact balanced_of_trace (by decide)

instance [Clean n] : Balanced (printExistentialMetatype n) := by
  unfold printExistentialMetatype
  exact balanced_of_trace (by decide)

instance [Clean n] : Balanced (printAssociatedTypeRef n) := by
  unfold printAssociatedTypeRef
  dsimp only
  exact balanced_of_trace (by decide)

instance [Clean n] : Balanced (printProtocolList n) := by
  unfold printProtocolList
  exact balanced_of_trace (by decide)

instance [Clean n] : Balanced (printProtocolListWithClass n) := by
  unfold printProtocolListWithClass
  exact balanced_of_trace (by decide)

instance [Clean n] : Balanced (printProtocolListWithAnyObject n) := by
  unfold printProtocolListWithAnyObject
  dsimp only [Node.standardLibrary]
  exact balanced_of_trace (by decide)

instance [hns : AllClean ns] : Balanced (printFields i ns) := by
  replace hns := hns.clean
  induction ns generalizing i with
  | nil => exact inferInstanceAs (Balanced (pure ()))
  | cons n ns ih =>
    obtain ⟨hn, hns⟩ := List.forall_mem_cons.mp hns
    have := @ih (i + 1) hns
    rw [printFields]
    dsimp only
    exact balanced_of_trace (by decide)

instance [Clean n] : Balanced (printBoxLayout n) := by
  unfold printBoxLayout
  exact balanced_of_trace (by decide)

instance [Clean n] : Balanced (printBoxType n) := by
  unfold printBoxType
  cases hsignature : n.child? 1 with
  | none => exact balanced_of_trace (by decide)
  | some signature =>
    have : Clean signature := .of_eq hsignature
    cases harguments : n.child? 2 with
    | none => exact balanced_of_trace (by decide)
    | some arguments =>
      have : Clean arguments := .of_eq harguments
      exact balanced_of_trace (by decide)

/-! ## Generic signatures -/

/-- The name of a parameter consists of letters. -/
theorem isBracket_of_mem_positionLetters {position : Nat} {c : Char}
    (hc : c ∈ positionLetters position) : isBracket c = false := by
  have hletters : ∀ k < 26, isBracket (Char.ofNat ('A'.toNat + k)) = false := by decide
  induction position using positionLetters.induct with
  | case1 position hzero =>
    rw [positionLetters, if_pos hzero] at hc
    rw [List.mem_singleton.mp hc]
    exact hletters _ (Nat.mod_lt _ (by decide))
  | case2 position hzero ih =>
    rw [positionLetters, if_neg hzero] at hc
    rcases List.mem_cons.mp hc with rfl | hc
    · exact hletters _ (Nat.mod_lt _ (by decide))
    · exact ih hc

instance {depth position : UInt64} : NestedText (parameterName depth position) := by
  have hletters : NestedText (String.ofList (positionLetters position.toNat)) :=
    ⟨by rw [String.toList_ofList]; exact nested_of_plain fun _ => isBracket_of_mem_positionLetters⟩
  unfold parameterName
  refine hletters.append ?_
  split
  · exact nestedText_of_literal (by decide)
  · infer_instance

instance {depth count : Nat} : NestedText (parameterNames depth count) := by
  unfold parameterNames
  refine .intercalate (nestedText_of_literal (by decide)) fun s hs => ?_
  rcases List.mem_append.mp hs with hs | hs
  · obtain ⟨i, -, rfl⟩ := List.mem_map.mp hs
    infer_instance
  · split at hs
    · obtain rfl := List.mem_singleton.mp hs
      exact nestedText_of_literal (by decide)
    · cases hs

instance {depth : Nat} : Balanced (printParameterCounts depth ns) := by
  induction ns generalizing depth with
  | nil => exact inferInstanceAs (Balanced (pure ()))
  | cons n ns ih =>
    have := @ih (depth + 1)
    rw [printParameterCounts]
    dsimp only
    exact balanced_of_trace (by decide)

instance [Clean n] : Balanced (printSignature n) := by
  unfold printSignature
  dsimp only
  exact balanced_of_trace (by decide)

theorem nestedText_of_layoutName? {name : String} (h : layoutName? s = some name) :
    NestedText name := by
  unfold layoutName? at h
  split at h <;> cases h
  all_goals exact nestedText_of_literal (by decide)

instance [Clean n] : Balanced (printLayoutRequirement n) := by
  unfold printLayoutRequirement
  -- the size and the alignment stand in one parenthesis, the alignment only after a size
  refine .bind inferInstance fun _ => .bind (balanced_of_trace (by decide)) fun _ =>
    Gives.writes inferInstance fun layout _ => Gives.writes inferInstance fun s _ => ?_
  cases hname : layoutName? s with
  | none => exact balanced_of_trace (by decide)
  | some name =>
    have := nestedText_of_layoutName? hname
    cases hsize : n.child? 2 with
    | none => exact balanced_of_trace (by decide)
    | some size =>
      have : Clean size := .of_eq hsize
      cases halignment : n.child? 3 with
      | none => exact balanced_of_trace (by decide)
      | some alignment =>
        have : Clean alignment := .of_eq halignment
        exact balanced_of_trace (by decide)

instance [Clean n] : Balanced (printGenericParameter n) := by
  unfold printGenericParameter
  exact balanced_of_trace (by decide)

instance [Clean n] : Balanced (printGenericType n) := by
  unfold printGenericType
  dsimp only
  exact balanced_of_trace (by decide)

instance [Clean n] : Balanced (printAssociatedTypeName n) := by
  unfold printAssociatedTypeName
  cases h : n.child? 1 with
  | none => exact balanced_of_trace (by decide)
  | some protocol =>
    have : Clean protocol := .of_eq h
    exact balanced_of_trace (by decide)

instance [Clean n] : Balanced (printConformance n) := by
  unfold printConformance
  exact balanced_of_trace (by decide)

theorem balanced_printDependentConformance (hs : NestedText s) [Clean n] :
    Balanced (printDependentConformance s n) := by
  unfold printDependentConformance
  refine .bind inferInstance fun _ => Gives.writes inferInstance fun c _ => ?_
  split <;> exact balanced_of_trace (by decide)

/-! ## Lowered function types -/

/-- What is awaited behind the parts of a lowered function type up to a section. -/
def Section.awaited : Section → List Char
  | .attributes => []
  | .inputs | .results => [')']

/-- The substitutions that have been kept are clean. -/
structure LoweredState.Clean (s : LoweredState) : Prop where
  pattern : CleanIfAny s.pattern
  invocation : CleanIfAny s.invocation

/-- The printer takes the awaited brackets `a` to `b x`, where `x` is its result, which satisfies
`Q`. -/
structure Leads (a : List Char) (p : Printer α) (b : α → List Char) (Q : α → Prop) : Prop where
  run : ∀ {S o x o' st}, Setting.Balanced S → p S o = .ok (x, o') →
    o.awaited = some (a ++ st) → o'.awaited = some (b x ++ st) ∧ Q x

/-- A trace of fixed texts leads from what it finds open to what it leaves open. -/
theorem leads_of_trace {a b : List Char} {p : Printer α} {t : Trace} [h : Writes p t]
    (ht : t.run a = .awaits b) : Leads a p (fun _ => b) fun _ => True where
  run {S o x o' st} hS hp ho := by
    have habove := Trace.run_above (show t.run a ≠ .mismatch by rw [ht]; exact nofun) st
    have := h.allows hS hp ho
    rw [habove, ht] at this
    exact ⟨this, trivial⟩

theorem Writes.leads {a : List Char} {p : Printer α} (h : Balanced p) :
    Leads a p (fun _ => a) fun _ => True :=
  ⟨fun hS hp ho => ⟨h.allows hS hp ho, trivial⟩⟩

theorem leads_pure {a : List Char} {b : α → List Char} {Q : α → Prop} {x : α} (ha : a = b x)
    (hx : Q x) : Leads a (pure x) b Q where
  run _ h ho := by
    cases h
    exact ⟨ha ▸ ho, hx⟩

theorem Leads.bind {a : List Char} {b : α → List Char} {c : β → List Char} {P : α → Prop}
    {Q : β → Prop} {p : Printer α} {f : α → Printer β} (hp : Leads a p b P)
    (hf : ∀ x, P x → Leads (b x) (f x) c Q) : Leads a (p >>= f) c Q where
  run hS h ho := by
    obtain ⟨x, o₁, hrun, hrest⟩ := run_bind_eq_ok h
    obtain ⟨ho₁, hx⟩ := hp.run hS hrun ho
    exact (hf x hx).run hS hrest ho₁

/-- The parenthesis of the parameters is opened in front of the first of them, and that of the
results behind the parameters, even if there are none. -/
theorem leads_enterSection {s : LoweredState} {target : Section} [CleanIfAny s.pattern]
    (h : s.current.number < target.number) :
    Leads s.current.awaited (enterSection s target) (fun _ => target.awaited) fun _ => True := by
  obtain ⟨current, pattern, invocation⟩ := s
  unfold enterSection
  cases current <;> cases target <;> simp only [Section.number, Nat.not_lt_zero, Nat.lt_irrefl] at h
  all_goals
    simp only [beq_iff_eq, reduceCtorEq, if_true, if_false]
    cases pattern with
    | none => exact leads_of_trace (by decide)
    | some p =>
      have : Clean p := .of_eq (m := some p) rfl
      exact leads_of_trace (by decide)

/-- An item goes on in its section or starts it. -/
theorem leads_printItem {s : LoweredState} {target : Section} [Clean n] (hs : s.Clean) :
    Leads s.current.awaited (printItem s target n) (·.current.awaited) LoweredState.Clean := by
  have := hs.pattern
  unfold printItem
  dsimp only
  split
  -- going back to an earlier section is refused
  · exact ⟨fun _ h => nomatch h⟩
  rename_i hback
  split
  · rename_i hsame
    obtain rfl : target = s.current := by simpa using hsame
    exact .bind (Writes.leads (balanced_of_trace (by decide))) fun _ _ =>
      .bind (Writes.leads inferInstance) fun _ _ => leads_pure rfl ⟨hs.pattern, hs.invocation⟩
  · rename_i hother
    -- so any other section is a later one
    have hforth : s.current.number < target.number := by
      revert hback hother
      cases s.current <;> cases target <;> decide
    exact (leads_enterSection hforth).bind fun _ _ =>
      .bind (Writes.leads inferInstance) fun _ _ =>
        leads_pure rfl ⟨hs.pattern, hs.invocation⟩

/-- A part leads from what the section before it awaits to what its own section awaits. -/
theorem leads_printLoweredPart {s : LoweredState} [Clean n] (hs : s.Clean) :
    Leads s.current.awaited (printLoweredPart s n) (·.current.awaited) LoweredState.Clean := by
  unfold printLoweredPart
  split
  · exact leads_printItem hs
  · exact leads_printItem hs
  · exact leads_printItem hs
  · exact leads_printItem hs
  · exact leads_pure rfl ⟨inferInstance, hs.invocation⟩
  · exact leads_pure rfl ⟨hs.pattern, inferInstance⟩
  · -- an attribute stands in front of all parentheses
    dsimp only
    split
    · exact ⟨fun _ h => nomatch h⟩
    · exact .bind (Writes.leads inferInstance) fun _ _ =>
        .bind (Writes.leads (balanced_of_trace (by decide))) fun _ _ => leads_pure rfl hs

theorem leads_printLoweredParts {s : LoweredState} [hns : AllClean ns] (hs : s.Clean) :
    Leads s.current.awaited (ns.foldlM printLoweredPart s) (·.current.awaited)
      LoweredState.Clean := by
  replace hns := hns.clean
  induction ns generalizing s with
  | nil => exact leads_pure rfl hs
  | cons n ns ih =>
    obtain ⟨hn, hns⟩ := List.forall_mem_cons.mp hns
    rw [List.foldlM_cons]
    exact (leads_printLoweredPart hs).bind fun s hs => ih hs hns

instance [CleanIfAny m] : Balanced (printSubstitutions m i) := by
  unfold printSubstitutions
  cases m with
  | none => infer_instance
  | some c =>
    have : Clean c := .of_eq (m := some c) rfl
    exact balanced_of_trace (by decide)

/-- The parenthesis of the results is the last one, and it is closed. -/
instance [Clean n] : Balanced (printLoweredFunctionType n) := by
  have hrun : Leads [] (printLoweredFunctionType n) (fun _ => []) fun _ => True := by
    unfold printLoweredFunctionType
    dsimp only
    have hstart : LoweredState.Clean ⟨.attributes, none, none⟩ :=
      ⟨inferInstance, inferInstance⟩
    refine (leads_printLoweredParts hstart).bind fun s hs => ?_
    have := hs.pattern
    have := hs.invocation
    have hend : Leads Section.results.awaited
        (do write ")"; printSubstitutions s.pattern 1; printSubstitutions s.invocation 0)
        (fun _ => []) fun _ => True :=
      leads_of_trace (by decide)
    split
    -- without an item the results are still to be started
    · rename_i hearly
      have hforth : s.current.number < Section.results.number := by
        revert hearly
        cases s.current <;> decide
      exact (leads_enterSection hforth).bind fun _ _ => hend
    · rename_i hreached
      have hreached : s.current = .results := by simpa using hreached
      rwa [hreached]
  exact ⟨fun hS h ho => (hrun.run hS h ho).1⟩

instance [Clean n] : Balanced (printLoweredItem n) := by
  unfold printLoweredItem
  exact balanced_of_trace (by decide)

instance [Clean n] : Balanced (printCallingConvention n) := by
  unfold printCallingConvention
  cases h : n.child? 1 with
  | none => exact balanced_of_trace (by decide)
  | some t =>
    have : Clean t := .of_eq h
    exact balanced_of_trace (by decide)

instance [Clean n] : Balanced (printMark n) := by
  unfold printMark
  exact balanced_of_trace (by decide)

end SwiftMangling.Render
