import SwiftMangling.Proofs.Render.Balanced
import SwiftMangling.Proofs.Render.Safe.Symbol

/-!
# Parts of whole symbols are balanced

The rules for thunks, derivatives, witnesses and specializations on clean nodes. A text in quotation
marks is nested if the text is, because no bracket is written in another way there.
-/

set_option synthInstance.maxSize 100000

namespace SwiftMangling.Render

open Brackets

variable {n c : Node} {ns : List Node} {m : Option Node} {s : String} {i : Nat}

/-! ## Thunks -/

instance [Clean n] : Balanced (printReabstraction n) := by
  unfold printReabstraction
  dsimp only
  exact balanced_of_trace (by decide)

instance [Clean n] : Balanced (printReabstractionWithSelf n) := by
  unfold printReabstractionWithSelf
  dsimp only
  exact balanced_of_trace (by decide)

instance [hns : AllClean ns] : Balanced (printKeyPathParts ns) := by
  replace hns := hns.clean
  induction ns with
  | nil => exact inferInstanceAs (Balanced (pure ()))
  | cons n ns ih =>
    obtain ⟨hn, hns⟩ := List.forall_mem_cons.mp hns
    have := ih hns
    rw [printKeyPathParts]
    dsimp only
    exact balanced_of_trace (by decide)

instance [Clean n] : Balanced (printKeyPathAccessor n) := by
  unfold printKeyPathAccessor
  exact balanced_of_trace (by decide)

instance [AllClean ns] : AllClean (splitSignature ns).1 :=
  ⟨fun c hc => AllClean.clean c ((mem_of_splitSignature ns).1 c hc)⟩

instance [AllClean ns] : CleanIfAny (splitSignature ns).2 :=
  ⟨fun c hc => AllClean.clean c ((mem_of_splitSignature ns).2 c hc)⟩

instance [CleanIfAny m] : Balanced (printIfAny m) := by
  unfold printIfAny
  cases m with
  | none => infer_instance
  | some c =>
    have : Clean c := .of_eq (m := some c) rfl
    infer_instance

instance [Clean n] : Balanced (printKeyPathHash n) := by
  have : AllClean (if n.last?.any (·.kind == .isSerialized) then n.children.dropLast
      else n.children) := by
    split <;> infer_instance
  unfold printKeyPathHash
  dsimp only
  exact balanced_of_trace (by decide)

/-! ## Derivatives -/

instance : Gives (derivativeName n) NestedText := by
  unfold derivativeName
  refine .after inferInstance fun code => ?_
  repeat' split
  all_goals first | exact gives_throw | exact gives_pure (nestedText_of_literal (by decide))

theorem balanced_printDerivativeSignature [NestedText s] [CleanIfAny m] :
    Balanced (printDerivativeSignature s m) := by
  unfold printDerivativeSignature
  cases m with
  | none => infer_instance
  | some c =>
    have : Clean c := .of_eq (m := some c) rfl
    exact balanced_of_trace (by decide)

instance [Clean n] : Balanced (printDerivative n) := by
  have : NestedText " with " := nestedText_of_literal (by decide)
  have := fun ns => @balanced_printDerivativeSignature (splitSignature ns).2 " with "
  unfold printDerivative
  dsimp only
  split <;> exact balanced_of_trace (by decide)

instance [Clean n] : Balanced (printSelfReordering n) := by
  unfold printSelfReordering
  dsimp only
  cases hs : (n.child? 2).filter (·.kind == .dependentGenericSignature) with
  | none => exact balanced_of_trace (by decide)
  | some s =>
    have : Clean s := .of_eq hs
    exact balanced_of_trace (by decide)

instance [Clean n] : Balanced (printSubsetParameters n) := by
  have : NestedText " of type " := nestedText_of_literal (by decide)
  have := fun ns => @balanced_printDerivativeSignature (splitSignature ns).2 " of type "
  unfold printSubsetParameters
  dsimp only
  exact balanced_of_trace (by decide)

instance {d : Differentiability} : Gives (witnessMode d) NestedText := by
  cases d <;> first | exact gives_throw | exact gives_pure (nestedText_of_literal (by decide))

instance [Clean n] : Balanced (printDifferentiabilityWitness n) := by
  unfold printDifferentiabilityWitness
  split
  · exact balanced_of_trace (by decide)
  rename_i i _
  split
  · cases hs : n.child? (i + 3) with
    | none => exact balanced_of_trace (by decide)
    | some s =>
      have : Clean s := .of_eq hs
      exact balanced_of_trace (by decide)
  · exact balanced_of_trace (by decide)

instance [Clean n] : Balanced (printIndexSubset n) := by
  have hnumbers (s : String) : NestedText (", ".intercalate ((subsetPositions s).map Nat.repr)) :=
    .intercalate (nestedText_of_literal (by decide)) fun t ht => by
      obtain ⟨i, -, rfl⟩ := List.mem_map.mp ht
      infer_instance
  unfold printIndexSubset
  exact balanced_of_trace (by decide)

/-! ## Witnesses and references -/

instance [Clean n] : Balanced (printCompletionHandler n) := by
  have (code : Nat) : Balanced (match code with
      | 0 => pure ()
      | 1 => write " nonzero on error "
      | 2 => write " zero on error "
      | _ => write " <invalid error flag>") := by
    split <;> exact balanced_of_trace (by decide)
  unfold printCompletionHandler
  dsimp only
  exact balanced_of_trace (by decide)

instance {w : ValueWitness} : NestedText w.name := by
  cases w <;> exact nestedText_of_literal (by decide)

instance [Clean n] : Balanced (printValueWitness n) := by
  unfold printValueWitness
  refine Gives.writes inferInstance fun c _ => ?_
  split <;> exact balanced_of_trace (by decide)

instance {d : Directness} : NestedText d.name := by
  cases d <;> exact nestedText_of_literal (by decide)

instance : Balanced (printDirectness n) := by
  unfold printDirectness
  split <;> exact balanced_of_trace (by decide)

instance [Clean n] : Balanced (printOnceInitialization n) := by
  unfold printOnceInitialization
  dsimp only
  exact balanced_of_trace (by decide)

instance [Clean n] : Balanced (printOnceVariables n) := by
  unfold printOnceVariables
  exact balanced_of_trace (by decide)

instance [Clean n] : Balanced (printResumeFunction n) := by
  unfold printResumeFunction
  exact balanced_of_trace (by decide)

instance [Clean n] : Balanced (printForwarder n) := by
  unfold printForwarder
  dsimp only
  exact balanced_of_trace (by decide)

instance : Balanced (printOutlinedVariable n) := by
  unfold printOutlinedVariable
  exact balanced_of_trace (by decide)

instance [Clean n] : Balanced (printBridgedMethod n) := by
  unfold printBridgedMethod
  exact balanced_of_trace (by decide)

theorem isBracket_of_mem_hexDigits {x : Nat} {c : Char} (hc : c ∈ (hexDigits x).toList) :
    isBracket c = false := by
  rw [hexDigits, String.toList_ofList] at hc
  obtain ⟨digit, hdigit, rfl⟩ := List.mem_map.mp hc
  obtain ⟨d, hd, rfl⟩ := NestedText.exists_digitChar (by decide) hdigit
  have hdigits : ∀ d < 16, isBracket d.digitChar.toUpper = false := by decide
  exact hdigits d hd

instance {x : Nat} : NestedText (hexDigits x) :=
  ⟨nested_of_plain fun _ => isBracket_of_mem_hexDigits⟩

theorem balanced_printSymbolicReference (hs : NestedText s) :
    Balanced (printSymbolicReference s n) := by
  unfold printSymbolicReference
  exact balanced_of_trace (by decide)

/-! ## Quoted texts -/

/-- A control character is no bracket. -/
theorem isBracket_of_control {c : Char} (hc : c.toNat < 32 ∨ c.toNat = 127) :
    isBracket c = false := by
  have hcontrol : ∀ k < 128, k < 32 ∨ k = 127 → isBracket (Char.ofNat k) = false := by decide
  rw [← Char.ofNat_toNat c]
  exact hcontrol c.toNat (by omega) hc

/-- A character that is written in another way in quotation marks is no bracket, and no bracket
stands for it. -/
theorem scan_quotedChar (c : Char) (st : List Char) :
    scan st (quotedChar c).toList = scan st [c] := by
  -- an escape consists of letters, digits and braces that match
  have hescape {s : String} (hs : NestedText s) (hc : c.toNat < 32 ∨ c.toNat = 127) :
      scan st (s ++ hexDigits c.toNat).toList = scan st [c] := by
    have hdigits : NestedText (hexDigits c.toNat) := inferInstance
    rw [(hs.append hdigits).nested.scan_eq, scan_plain (isBracket_of_control hc)]
    rfl
  unfold quotedChar
  split
  iterate 6 rfl
  split
  · exact hescape (nestedText_of_literal (by decide)) (.inl (by omega))
  split
  · rename_i hcontrol
    exact hescape (nestedText_of_literal (by decide)) (by simpa using hcontrol)
  · rw [Char.toString, String.toList_singleton]

/-- Quoting a character adds no brackets and takes none away. -/
theorem scan_join_quotedChar (st cs : List Char) :
    scan st (String.join (cs.map quotedChar)).toList = scan st cs := by
  induction cs generalizing st with
  | nil => rfl
  | cons c cs ih =>
    calc scan st (String.join ((c :: cs).map quotedChar)).toList
        = (scan st (quotedChar c).toList).bind
            fun st => scan st (String.join (cs.map quotedChar)).toList := by
          rw [List.map_cons, String.join_cons, String.toList_append, scan_append]
      _ = (scan st [c]).bind fun st => scan st cs := by simp only [scan_quotedChar, ih]
      _ = scan st (c :: cs) := (scan_append st [c] cs).symm

instance [hs : NestedText s] : NestedText (quoted s) := by
  have hmark : NestedText "\"" := nestedText_of_literal (by decide)
  have hinner : NestedText (String.join (s.toList.map quotedChar)) :=
    ⟨nested_iff.mpr (by rw [scan_join_quotedChar, hs.nested.scan_eq])⟩
  exact (hmark.append hinner).append hmark

instance [Clean n] : Balanced (printSuffix n) := by
  unfold printSuffix
  exact balanced_of_trace (by decide)

/-! ## Specializations -/

instance : Balanced (paramKindOf n) := by
  unfold paramKindOf
  split <;> exact balanced_of_trace (by decide)

instance {c : ParamChange} : NestedText c.description := by
  cases c <;> exact nestedText_of_literal (by decide)

instance : Balanced (printParamKind n) := by
  have hoptions (options : List ParamOption) : NestedText (" and ".intercalate
      ((printedOptions.filter options.contains).map (·.description))) :=
    .intercalate (nestedText_of_literal (by decide)) fun t ht => by
      obtain ⟨option, -, rfl⟩ := List.mem_map.mp ht
      cases option <;> exact nestedText_of_literal (by decide)
  unfold printParamKind
  refine .bind inferInstance fun k => ?_
  dsimp only
  cases k.change? <;> exact balanced_of_trace (by decide)

theorem balanced_printChange {value : Printer Unit} [Balanced value] [Clean n] :
    Balanced (printChange n value) := by
  unfold printChange
  exact balanced_of_trace (by decide)

instance [Clean n] : Balanced (printStringConstant n) := by
  unfold printStringConstant
  cases hs : n.child? 2 with
  | none => exact balanced_of_trace (by decide)
  | some s =>
    have : Clean s := .of_eq hs
    exact balanced_of_trace (by decide)

instance [Clean n] : Balanced (printKeyPathConstant n) := by
  unfold printKeyPathConstant
  exact balanced_of_trace (by decide)

instance [Clean n] : Balanced (printClosureConstant n) := by
  unfold printClosureConstant
  exact balanced_of_trace (by decide)

instance [Clean n] : Balanced (printParam n) := by
  unfold printParam
  refine Gives.writes inferInstance fun c _ => .bind inferInstance fun k => ?_
  split <;> first | infer_instance | exact balanced_printChange

instance [hns : AllClean ns] {start : String} [NestedText start] {separated : Bool} :
    Balanced (printSpecializationParts start separated i ns) := by
  replace hns := hns.clean
  -- by induction on the parts, each of which is balanced or not printed
  induction ns generalizing separated i with
  | nil => exact inferInstanceAs (Balanced (pure ()))
  | cons n ns ih =>
    obtain ⟨hn, hns⟩ := List.forall_mem_cons.mp hns
    have := fun separated i => @ih separated i hns
    rw [printSpecializationParts]
    dsimp only
    split
    · infer_instance
    · exact balanced_of_trace (by decide)
    · split
      · infer_instance
      · refine .bind (balanced_of_trace (by decide)) fun _ => ?_
        split <;> exact balanced_of_trace (by decide)

instance : Balanced (modify fun o => { o with saidSpecialized := true } : Printer Unit) :=
  balanced_of_state fun _ _ _ _ h => by
    cases h
    rfl

theorem balanced_printSpecialization {description start : String} [NestedText description]
    [NestedText start] [Clean n] : Balanced (printSpecialization n description start) := by
  unfold printSpecialization
  exact balanced_of_trace (by decide)

theorem nestedText_of_specializationText? {k : Kind} {description start : String}
    (h : specializationText? k = some (description, start)) :
    NestedText description ∧ NestedText start := by
  unfold specializationText? at h
  split at h <;> cases h
  all_goals exact ⟨nestedText_of_literal (by decide), nestedText_of_literal (by decide)⟩

instance [hns : AllClean ns] {joint : String} [NestedText joint] :
    Balanced (printConformances joint ns) := by
  replace hns := hns.clean
  induction ns generalizing joint with
  | nil => exact inferInstanceAs (Balanced (pure ()))
  | cons n ns ih =>
    obtain ⟨hn, hns⟩ := List.forall_mem_cons.mp hns
    have : NestedText " and " := nestedText_of_literal (by decide)
    have := @ih " and " _ hns
    rw [printConformances]
    exact balanced_of_trace (by decide)

instance [Clean n] : Balanced (printGenericParam n) := by
  have : NestedText " with " := nestedText_of_literal (by decide)
  unfold printGenericParam
  exact balanced_of_trace (by decide)

/-- A text that is no symbol is printed as it is. -/
theorem balanced_printParamPayload [hn : Clean n]
    (hk : n.kind = .functionSignatureSpecializationParamPayload) :
    Balanced (printParamPayload n) where
  allows {S o a o' st} hS h ho := by
    obtain ⟨s, o₁, htext, h⟩ := run_bind_eq_ok h
    unfold textOf at htext
    cases hs : n.text? with
    | none =>
      rw [hs] at htext
      cases htext
    | some s =>
      rw [hs] at htext
      cases htext
      have hembedded : S.embedded s = s := hS.embedded s ((hn.everywhere.here s hs).2 hk)
      have hwrite : write s S o = .ok (a, o') := by
        rw [← h]
        show _ = write (S.embedded s) S o
        rw [hembedded]
      have := nestedText_of_text? hs
      have hbalanced : Balanced (write s) := inferInstance
      exact hbalanced.allows hS hwrite ho

end SwiftMangling.Render
