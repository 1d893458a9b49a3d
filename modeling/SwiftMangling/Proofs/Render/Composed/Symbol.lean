import SwiftMangling.Proofs.Render.Composed.Type
import SwiftMangling.Proofs.Render.Safe.Symbol

/-!
# The rules for parts of whole symbols are composed

Thunks, derivatives, witnesses and specializations. The header of a specialized symbol is the one
rule that asks what has been said before.
-/

set_option synthInstance.maxSize 100000

namespace SwiftMangling.Render

variable {N : Node → Prop} {n c : Node} {ns : List Node} {m : Option Node} {i : Nat} {s : String}

/-! ## Lists -/

instance [hns : AllWithin N ns] : Prints N (printKeyPathParts ns) := by
  obtain ⟨hns⟩ := hns
  induction ns with
  | nil => exact inferInstanceAs (Prints N (pure ()))
  | cons n ns ih =>
    rw [List.forall_mem_cons] at hns
    have : Within N n := ⟨hns.1⟩
    have := ih hns.2
    rw [printKeyPathParts]
    dsimp only
    infer_instance

instance [h : AllWithin N ns] : AllWithin N (splitSignature ns).1 :=
  ⟨fun c hc => h.mem c ((mem_of_splitSignature ns).1 c hc)⟩

instance [h : AllWithin N ns] : WithinIfAny N (splitSignature ns).2 :=
  ⟨fun c hc => h.mem c ((mem_of_splitSignature ns).2 c hc)⟩

instance [WithinIfAny N m] : Prints N (printIfAny m) := by
  unfold printIfAny
  cases m with
  | none => infer_instance
  | some c =>
    have : Within N c := .of_eq (m := some c) rfl
    infer_instance

instance [WithinIfAny N m] : Prints N (printDerivativeSignature s m) := by
  unfold printDerivativeSignature
  cases m with
  | none => infer_instance
  | some c =>
    have : Within N c := .of_eq (m := some c) rfl
    infer_instance

instance [hns : AllWithin N ns] : Prints N (printConformances s ns) := by
  obtain ⟨hns⟩ := hns
  induction ns generalizing s with
  | nil => exact inferInstanceAs (Prints N (pure ()))
  | cons n ns ih =>
    rw [List.forall_mem_cons] at hns
    have : Within N n := ⟨hns.1⟩
    have := ih (s := " and ") hns.2
    rw [printConformances]
    infer_instance

/-! ## Payloads -/

instance : Prints N (derivativeName n) := by
  unfold derivativeName
  infer_instance

instance {d : Differentiability} : Prints N (witnessMode d) := by
  unfold witnessMode
  split <;> infer_instance

instance : Prints N (paramKindOf n) := by
  unfold paramKindOf
  split <;> infer_instance

instance : Prints N (printParamKind n) := by
  unfold printParamKind
  refine ⟨.after inferInstance fun k => ?_⟩
  dsimp only
  cases k.change? <;> exact Prints.composed

instance : Prints N (printDirectness n) := by
  unfold printDirectness
  split <;> infer_instance

instance : Prints N (printParamPayload n) := by
  unfold printParamPayload
  refine ⟨.after inferInstance fun s => .ask (fun _ => Prints.composed) fun S S' h => ?_⟩
  rw [h.embedded]

instance : Prints N (printIndexSubset n) := by
  unfold printIndexSubset
  infer_instance

instance : Prints N (printOutlinedVariable n) := by
  unfold printOutlinedVariable
  infer_instance

instance : Prints N (printBridgedMethod n) := by
  unfold printBridgedMethod
  infer_instance

instance : Prints N (printSymbolicReference s n) := by
  unfold printSymbolicReference
  infer_instance

instance : Prints N (printSuffix n) := by
  unfold printSuffix
  infer_instance

section Rules

variable [Closed N] [Within N n]

/-! ## Thunks and derivatives -/

instance : Prints N (printReabstraction n) := by
  unfold printReabstraction
  dsimp only
  infer_instance

instance : Prints N (printReabstractionWithSelf n) := by
  unfold printReabstractionWithSelf
  dsimp only
  infer_instance

instance : Prints N (printKeyPathAccessor n) := by
  unfold printKeyPathAccessor
  infer_instance

instance : Prints N (printKeyPathHash n) := by
  have : AllWithin N (if n.last?.any (·.kind == .isSerialized) then n.children.dropLast
      else n.children) := by
    split <;> infer_instance
  unfold printKeyPathHash
  dsimp only
  infer_instance

instance : Prints N (printDerivative n) := by
  unfold printDerivative
  dsimp only
  split <;> infer_instance

instance : Prints N (printSelfReordering n) := by
  unfold printSelfReordering
  dsimp only
  cases hs : (n.child? 2).filter (·.kind == .dependentGenericSignature) with
  | none => infer_instance
  | some signature =>
    have : Within N signature := .of_eq hs
    infer_instance

instance : Prints N (printSubsetParameters n) := by
  unfold printSubsetParameters
  dsimp only
  infer_instance

instance : Prints N (printDifferentiabilityWitness n) := by
  unfold printDifferentiabilityWitness
  split
  · infer_instance
  next i _ =>
    split
    · cases hs : n.child? (i + 3) with
      | none => infer_instance
      | some signature =>
        have : Within N signature := .of_eq hs
        infer_instance
    · infer_instance

/-! ## Witnesses and pieces of symbols -/

instance : Prints N (printCompletionHandler n) := by
  have (code : Nat) : Prints N (match code with
      | 0 => pure ()
      | 1 => write " nonzero on error "
      | 2 => write " zero on error "
      | _ => write " <invalid error flag>") := by
    split <;> infer_instance
  unfold printCompletionHandler
  dsimp only
  infer_instance

instance : Prints N (printValueWitness n) := by
  unfold printValueWitness
  refine ⟨composed_child.bind fun c _ => ?_⟩
  split <;> exact Prints.composed

instance : Prints N (printOnceInitialization n) := by
  unfold printOnceInitialization
  refine ⟨.after inferInstance fun _ => composed_child.bind fun context hc =>
    .ask (fun S => ?_) fun S S' h => ?_⟩
  · have : Within N context := ⟨hc⟩
    exact Prints.composed
  · rw [h.shows context hc]

instance : Prints N (printOnceVariables n) := by
  unfold printOnceVariables
  infer_instance

instance : Prints N (printResumeFunction n) := by
  unfold printResumeFunction
  infer_instance

instance : Prints N (printForwarder n) := by
  unfold printForwarder
  dsimp only
  infer_instance

/-! ## Specializations -/

instance {value : Printer Unit} [Prints N value] : Prints N (printChange n value) := by
  unfold printChange
  infer_instance

instance : Prints N (printStringConstant n) := by
  unfold printStringConstant
  cases n.child? 2 <;> infer_instance

instance : Prints N (printKeyPathConstant n) := by
  unfold printKeyPathConstant
  infer_instance

instance : Prints N (printClosureConstant n) := by
  unfold printClosureConstant
  infer_instance

instance : Prints N (printParam n) := by
  unfold printParam
  refine ⟨composed_child.bind fun c _ => .after inferInstance fun k => ?_⟩
  split <;> exact Prints.composed

omit [Within N n] in
instance [hns : AllWithin N ns] {start : String} {separated : Bool} :
    Prints N (printSpecializationParts start separated i ns) := by
  obtain ⟨hns⟩ := hns
  induction ns generalizing separated i with
  | nil => exact inferInstanceAs (Prints N (pure ()))
  | cons n ns ih =>
    rw [List.forall_mem_cons] at hns
    have : Within N n := ⟨hns.1⟩
    have (separated : Bool) (i : Nat) : Prints N (printSpecializationParts start separated i ns) :=
      ih hns.2
    rw [printSpecializationParts]
    dsimp only
    split
    · infer_instance
    · infer_instance
    · split
      · infer_instance
      · refine ⟨.after inferInstance fun _ => ?_⟩
        split <;> exact Prints.composed

theorem prints_printSpecialization {description start : String}
    (hk : n.kind.isSpecialization = true) : Prints N (printSpecialization n description start) := by
  have hN : ∃ n, N n ∧ n.kind.isSpecialization = true := ⟨n, Within.mem, hk⟩
  unfold printSpecialization
  refine ⟨.after inferInstance fun shows => ?_⟩
  split
  · exact Prints.composed
  · refine .askSaid (f := fun said => if !said then do
      write "specialized "
      modify fun o => { o with saidSpecialized := true } else pure ()) hN fun said => ?_
    split
    · exact .after inferInstance fun _ => .announce hN
    · exact Prints.composed

instance : Prints N (printGenericParam n) := by
  unfold printGenericParam
  infer_instance

end Rules

/-- The kinds with the text of a specialization are the headers of specialized symbols. -/
theorem isSome_specializationText? (k : Kind) :
    (specializationText? k).isSome = k.isSpecialization := by
  have h := Kind.of_check (k := k) (p := fun _ => true) rfl
    (q := fun k => (specializationText? k).isSome == k.isSpecialization) (by decide +kernel)
  exact beq_iff_eq.mp h

end SwiftMangling.Render
