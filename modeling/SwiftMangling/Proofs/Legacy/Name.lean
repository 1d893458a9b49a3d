import SwiftMangling.Proofs.Legacy.State

/-!
# Names and references of the legacy scheme keep to the budget
-/

namespace SwiftMangling.Legacy

open Decoding Node

variable {M h k m : Nat}

/-! ## Identifiers -/

/-- The letter of an operator says on which side its operands stand. -/
theorem operatorKind_reads (k : Kind) : Reads 0 (fun _ => 0)
    (fun o => ∀ k' ∈ o, k' = .prefixOperator ∨ k' = .postfixOperator ∨ k' = .infixOperator)
    (operatorKind k) := by
  intro M h
  unfold operatorKind
  refine (Advances.nextIf 'o').ifTrue (Advances.require.never fun _ =>
    Advances.nextChar.always fun c => ?_) (.ret (by simp) (by omega) (by omega))
  split
  case h_4 => exact .fail
  all_goals exact .ret (by simp) (by omega) (by omega)

/-- A leaf with a text. -/
structure IsText (n : Node) : Prop extends Open n where
  text : n.payload.isText = true

theorem isText_ofText {k : Kind} (ha : ∀ s, k.accepts (.text s) = true)
    (hk : (k.standsAlone && !k.isWitness) = true) (s : String) : IsText (ofText k s) := by
  rw [Bool.and_eq_true, Bool.not_eq_true'] at hk
  exact ⟨(part_ofText (ha s) hk.1).open hk.2, rfl⟩

/-- What follows the text of an identifier, which is the same with and without punycode. -/
theorem identifierText_runs {k : Kind} (ha : ∀ s, k.accepts (.text s) = true)
    (hk : (k.standsAlone && !k.isWitness) = true) (M h : Nat) {operator : Option Kind} (ho : ∀ k' ∈ operator,
      k' = .prefixOperator ∨ k' = .postfixOperator ∨ k' = .infixOperator) (s : String) :
    Runs M h 1 h (require (!s.isEmpty) >>= fun _ =>
      match operator with
      | none => pure (ofText k s)
      | some k => ofOption (OperatorName.decode? s) >>= fun s => pure (ofText k s))
      (Left M h 3 (fun n => n.height + 2) IsText) := by
  refine Advances.require.never fun _ => ?_
  cases operator with
  | none => exact .ret (isText_ofText ha hk s) (by omega) (by simp)
  | some k' =>
    refine Advances.ofOption.never fun s => .ret ?_ (by omega) (by simp)
    rcases ho k' rfl with rfl | rfl | rfl <;> exact isText_ofText (fun _ => rfl) rfl s

theorem identifier_reads {k : Kind} (ha : ∀ s, k.accepts (.text s) = true)
    (hk : (k.standsAlone && !k.isWitness) = true) : Reads 3 (fun n => n.height + 2) IsText (identifier k) := by
  intro M h
  unfold identifier
  refine ((Advances.nextIf 'X').weaken (S := fun _ => False) (by simp)).never fun punycoded =>
    (operatorKind_reads k).bind fun operator ho => Advances.natural.always fun n =>
    (Advances.text n).never fun s => ?_
  dsimp only
  refine Runs.weaken (i := 1) (j := h) ?_ (by omega) (by omega)
  split
  · exact Advances.ofOption.never fun s => identifierText_runs ha hk M h ho s
  · exact identifierText_runs ha hk M h ho s

theorem identifierText_reads : Reads 3 (fun _ => 0) (fun _ => True) identifierText := by
  intro M h
  unfold identifierText
  refine (identifier_reads (fun _ => rfl) rfl).bind fun n _ => ?_
  exact Advances.ofOption.runs (by omega)

theorem declName_reads : Reads 3 (fun n => n.height + 2) Open declName := by
  intro M h
  unfold declName
  refine (Advances.nextIf 'L').ifTrue ?_ ((Advances.nextIf 'P').ifTrue ?_ ?_)
  -- a local name has a number, a private one a discriminator in front of it
  · refine numberNode_reads.bind fun number hi => (identifier_reads (fun _ => rfl) rfl).bind
      fun name hn => .ret (open_branch_of_needs rfl rfl ?_ ?_) (by omega) (by simp; omega)
    · simpa using ⟨hi.1.child, hn.child⟩
    · simpa [Kind.needs, meets] using hi.2
  · refine (identifier_reads (fun _ => rfl) rfl).bind fun discriminator hd =>
      (identifier_reads (fun _ => rfl) rfl).bind fun name hn =>
      .ret (open_branch_of_needs rfl rfl ?_ ?_) (by omega) (by simp; omega)
    · simpa using ⟨hd.child, hn.child⟩
    · simpa [Kind.needs, meets] using hd.text
  · exact (identifier_reads (fun _ => rfl) rfl).mono (Nat.le_refl _) (fun _ => by omega)
      (fun _ hn => hn.toOpen) M h

/-! ## References -/

/-- The standard types are named in the standard module, so they are at most two high. -/
theorem standardNode?_spec {c : Char} {n : Node} (h : standardNode? c = some n) :
    n.Open ∧ n.height ≤ 2 := by
  have hnominal {k : Kind} (hk : k.isNominal = true) (s : String) :
      (standardNominal k s).Open ∧ (standardNominal k s).height ≤ 2 :=
    ⟨open_nominal hk (open_module _).child (part_identifier s).child, by simp [standardNominal]⟩
  unfold standardNode? at h
  split at h
  case h_1 | h_2 =>
    cases h
    exact ⟨open_module _, by simp⟩
  case h_19 => cases h
  all_goals
    cases h
    exact hnominal rfl _

/-- A reference is paid for by the byte that spells it. -/
theorem substitution_reads : Reads 3 (fun n => n.height + 1) Open substitution := by
  intro M h
  unfold substitution
  refine Advances.look.never fun c => Advances.ofOption.never fun c => ?_
  split
  next n hn =>
    obtain ⟨hopen, hle⟩ := standardNode?_spec hn
    exact Advances.nextByte.always fun _ => .ret hopen (by omega) (by omega)
  next =>
    refine Advances.index.always fun i => ⟨fun g s _ hs => ?_⟩
    have hrun : ((get >>= fun t : State => ofOption t.substitutions[i]? : Decoder Node) g s) =
        (s.substitutions[i]?, s) := rfl
    rw [hrun]
    cases hi : s.substitutions[i]? with
    | none => exact hs.failed
    | some n =>
      -- a node of the table has been paid for
      obtain ⟨hopen, hle⟩ := hs.table n (Array.mem_of_getElem? hi)
      have hheld := hs.held
      refine ⟨hopen, by dsimp only; omega, fun a ha => ?_⟩
      have := hs.table a ha
      exact ⟨this.1, by omega⟩

theorem module_reads : Reads 3 (fun n => n.height + 1) Open module := by
  intro M h
  unfold module
  refine (Advances.nextIf 's').ifTrue (.ret (open_module _) (by omega) (by simp))
    ((Advances.nextIf 'S').ifTrue ?_ ?_)
  · exact substitution_reads.bind fun n hn => Advances.require.never fun _ =>
      .ret hn (by omega) (by omega)
  · exact (identifier_reads (fun _ => rfl) rfl).bind fun n hn =>
      .remember hn.toOpen hn.toOpen (by omega) (by omega)

/-- A declaration reads its name after its context, and the name pays for it. -/
theorem declaration_reads {k : Kind} (hk : k.isNominal = true) :
    Reads 3 (fun n => n.height + 1) Open (declaration k) := by
  intro M h
  unfold declaration
  refine context_reads.bind fun c hc => declName_reads.bind fun name hn => ?_
  have hopen : (branch k [c, name]).Open := open_nominal hk hc.child hn.child
  exact .remember hopen hopen (by omega) (by simp; omega)

/-- The name of a protocol, read while its context is held. -/
theorem protocolIn_runs {c : Node} (hc : c.Open) (hh : h ≤ m) (hm : c.height ≤ m) :
    Runs M h k m (protocolIn c) (Left M h 3 (fun n => n.height + 1) Open) := by
  refine declName_reads.bind fun name hn => ?_
  have hopen : (branch .protocolType [c, name]).Open := open_nominal rfl hc.child hn.child
  exact .remember hopen hopen (by omega) (by simp; omega)

theorem protocolNode_reads : Reads 3 (fun n => n.height + 1) Open protocolNode := by
  intro M h
  unfold protocolNode
  refine (Advances.nextIf 'S').ifTrue ?_ ((Advances.nextIf 's').ifTrue ?_ ?_)
  · refine substitution_reads.bind fun n hn => ?_
    split
    · exact .ret hn (by omega) (by omega)
    · exact protocolIn_runs hn (by omega) (by omega)
    · exact .fail
  · refine Runs.weaken (i := 0) (j := h + 3) ?_ (by omega) (by omega)
    exact protocolIn_runs (open_module _) (by omega) (by simp)
  · exact declaration_reads rfl M h

theorem protocol_reads : Reads 3 Node.height (fun n => n.Open ∧ n.kind = .type) protocol :=
  fun M h => protocolNode_reads.bind fun _ hn =>
    .ret ⟨open_typeOf hn, rfl⟩ (by omega) (by simp)

theorem protocolList_reads :
    Reads 3 (fun n => n.height + 1) (fun n => n.Open ∧ n.kind = .protocolList) protocolList := by
  intro M h
  unfold protocolList
  refine (manyUntil_reads 0 protocol_reads).bind fun ps hps =>
    .ret ⟨?_, rfl⟩ (by omega) (by simp)
  have hlist : (branch .typeList ps).Open := open_branch rfl fun p hp => (hps p hp).1.child
  exact open_around rfl (by decide) hlist

theorem conformance_reads : Reads 3 (fun n => n.height) Open conformance := by
  intro M h
  unfold conformance
  refine type_reads.bind fun t ht => protocol_reads.bind fun p hp => context_reads.bind fun c hc =>
    .ret (open_branch rfl ?_) (by omega) (by simp; omega)
  simpa using ⟨ht.1.child, hp.1.child, hc.child⟩

theorem aroundConformance_follows {k : Kind} (hk : k.isPlain = true) :
    Follows Open (aroundConformance k) :=
  fun M h => conformance_reads.bind fun _ hc =>
    .ret (open_branch hk (by simpa using hc.child)) (by omega) (by simp; omega)

end SwiftMangling.Legacy
