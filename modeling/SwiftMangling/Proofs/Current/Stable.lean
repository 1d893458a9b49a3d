import SwiftMangling.Proofs.Current.Blind

/-!
# Operators do not look beyond themselves

What may follow a complete symbol is another operator that starts with `T`, or a suffix. No
production of the current scheme reads a `T` or a `.` unless it has to, so an operator finds the
same with such an ending behind the input. The one exception is the suffix itself, which takes
whatever is left. The resolver makes no difference either, because an operator that asks one without
an answer fails.
-/

namespace SwiftMangling.Current

open Decoding

/-- What may follow a complete symbol. -/
class Ending (x : List UInt8) : Prop where
  head : ∀ b ∈ x.head?, b = 'T'.toUInt8 ∨ b = '.'.toUInt8

/-- What the decoder finds, it finds with `x` behind the input. -/
abbrev Stays {α : Type} (x : List UInt8) (d : Decoder α) : Prop :=
  Stable Config.Agrees x d

variable {x : List UInt8} [hx : Ending x] {k : Kind}

theorem Ending.not {p : UInt8 → Bool} (hT : p 'T'.toUInt8 = false) (hdot : p '.'.toUInt8 = false) :
    ∀ b ∈ x.head?, p b = false := by
  intro b hb
  rcases hx.head b hb with rfl | rfl
  · exact hT
  · exact hdot

/-- An ending starts with a dot or with the letter of thunks. -/
theorem Ending.not_mem_head {b : UInt8} (hT : b ≠ 'T'.toUInt8) (hdot : b ≠ '.'.toUInt8) :
    b ∉ x.head? := by
  intro hb
  rcases hx.head b hb with h | h
  · exact hT h
  · exact hdot h

/-- A letter that no ending starts with. -/
theorem stays_nextIf (c : Char) (hT : c.toUInt8 ≠ 'T'.toUInt8 := by decide)
    (hdot : c.toUInt8 ≠ '.'.toUInt8 := by decide) : Stays x (nextIf c) :=
  stable_nextIf (Ending.not_mem_head hT hdot)

theorem stays_takeWhile {p : UInt8 → Bool} (hT : p 'T'.toUInt8 = false)
    (hdot : p '.'.toUInt8 = false) : Stays x (takeWhile p) :=
  stable_takeWhile (Ending.not hT hdot)

instance : Stays x peekDigit :=
  stable_peekDigit (Ending.not rfl rfl)

instance : Stays x natural :=
  stable_natural (Ending.not rfl rfl)

instance : Stays x positive :=
  stable_positive (Ending.not rfl rfl)

instance : Stays x index :=
  stable_index fun b hb => ⟨Ending.not (p := Cursor.isDigit) rfl rfl b hb,
    fun h => absurd hb (h ▸ Ending.not_mem_head (by decide) (by decide))⟩

theorem stays_manyUntil {α : Type} (c : Char) {d : Decoder α} [Stays x d]
    (hT : c.toUInt8 ≠ 'T'.toUInt8 := by decide) (hdot : c.toUInt8 ≠ '.'.toUInt8 := by decide) :
    Stays x (manyUntil c d) :=
  stable_manyUntil (Ending.not_mem_head hT hdot)

/-! ## Names and references -/

instance : Stays x numberNode :=
  inferInstanceAs (Stays x (_ >>= _))

instance {punycoded : Bool} : Stays x (identifierText punycoded) := by
  have hmark : Stays x (nextIf '_') := stays_nextIf '_'
  exact inferInstanceAs (Stays x (_ >>= _))

theorem identifierPieces_continued (punycoded : Bool) {n m : Nat} (h : n ≤ m) (wordsFollow : Bool)
    (read : String) : Continued Config.Agrees x (identifierPieces punycoded n wordsFollow read)
      (identifierPieces punycoded m wordsFollow read) := by
  have hmark : Stays x (nextIf '0') := stays_nextIf '0'
  induction n generalizing m wordsFollow read with
  | zero => exact inferInstanceAs (Continued _ x failure _)
  | succ n ih =>
    obtain ⟨m, rfl⟩ : ∃ k, m = k + 1 := ⟨m - 1, by omega⟩
    have hrest := fun w s => ih (m := m) (by omega) w s
    rw [identifierPieces, identifierPieces]
    refine continued_peekChar?_of_end (fun _ => inferInstance) fun r s hs => ?_
    -- at the end of the input there is neither a word nor a length
    obtain ⟨⟨before, rest⟩, stack, substitutions, words, references⟩ := s
    obtain rfl : rest = [] := hs
    cases wordsFollow <;> rfl

instance : Stays x identifier := by
  have hmark : Stays x (nextIf '0') := stays_nextIf '0'
  -- how much is left to read is used as a bound only
  have hpieces (punycoded wordsFollow : Bool) (f : String → Decoder Node) [∀ s, Stays x (f s)] :
      Stays x (remaining >>= fun n => identifierPieces punycoded (n + 1) wordsFollow "" >>= f) :=
    stable_remaining fun n m h => ((identifierPieces_continued punycoded (Nat.succ_le_succ h)
      wordsFollow "").bind inferInstance).on
  unfold identifier
  infer_instance

instance : Stays x operatorName := by
  refine .bind inferInstance fun name => .bind inferInstance fun spelled =>
    .bind inferInstance fun operator => .bind inferInstance fun c => ?_
  dsimp only
  split <;> infer_instance

instance : Stays x localName := by
  unfold localName
  refine .bind (stays_nextIf 'L') fun _ => .ite inferInstance <|
    .bind (stays_nextIf 'l') fun _ => .ite inferInstance <|
    continued_peekChar?_of_end (fun m => ?_) fun r s hs => ?_
  · split <;> infer_instance
  · -- a number has to follow
    obtain ⟨⟨before, rest⟩, stack, substitutions, words, references⟩ := s
    obtain rfl : rest = [] := hs
    rfl

theorem substitutionsFrom_continued {n m : Nat} (h : n ≤ m) (count : Option Nat) :
    Continued Config.Agrees x (substitutionsFrom n count) (substitutionsFrom m count) := by
  induction n generalizing m count with
  | zero => exact inferInstanceAs (Continued _ x failure _)
  | succ n ih =>
    obtain ⟨m, rfl⟩ : ∃ k, m = k + 1 := ⟨m - 1, by omega⟩
    have hrest := fun count => ih (m := m) (by omega) count
    rw [substitutionsFrom, substitutionsFrom]
    infer_instance

instance : Stays x substitutionReference :=
  stable_remaining fun _ _ h => (substitutionsFrom_continued (Nat.succ_le_succ h) none).on

instance : Stays x standardSubstitution := by
  have hmark : Stays x (nextIf 'c') := stays_nextIf 'c'
  unfold standardSubstitution
  refine .bind inferInstance fun c => ?_
  dsimp only
  split
  case h_4 =>
    refine .bind inferInstance fun _ => .bind inferInstance fun _ =>
      .ite (.bind inferInstance fun count => ?_) (.bind inferInstance fun count => ?_)
    all_goals
      exact .bind inferInstance fun _ =>
        .bind inferInstance fun _ => .ite inferInstance inferInstance
  all_goals infer_instance

/-- Without an answer from a resolver a symbolic reference is refused. -/
theorem symbolicReference_fails (control : UInt8) :
    Keeps Config.Unanswered (fun _ => True) (symbolicReference control) fun _ => False := by
  have hplaceless : Placeless (fun _ : State => True) := ⟨fun _ _ _ => trivial⟩
  have hresolve (reference : Reference) :
      Keeps Config.Unanswered (fun _ => True) (resolve reference) fun _ => False := by
    refine Keeps.read.bind fun r hr => ?_
    split
    · exact .fail
    -- the resolver is asked, which the state notes, and it has no answer
    next f hf =>
      rw [hr f hf reference]
      exact (Keeps.modify fun _ _ => trivial).bind fun _ _ =>
        Keeps.ofOption.mono (by simp)
  exact Keeps.look.bind fun tail _ => Keeps.scan.bind fun _ _ => Keeps.ofOption.bind fun _ _ =>
    (hresolve _).bind fun _ h => h.elim

instance {control : UInt8} : Stays x (symbolicReference control) where
  run r r' s a t hr h := by
    -- the reference is never found, so nothing has to be found again
    have hfails := (symbolicReference_fails control).run r s hr.unanswered trivial
    rw [h] at hfails
    exact hfails.1.elim

/-! ## Generics and conformances -/

instance : Stays x genericParameterIndex := by
  have hdepth : Stays x (nextIf 'd') := stays_nextIf 'd'
  have hzero : Stays x (nextIf 'z') := stays_nextIf 'z'
  exact inferInstanceAs (Stays x (_ >>= _))

instance : Stays x parameterCount := by
  have hzero : Stays x (nextIf 'z') := stays_nextIf 'z'
  exact inferInstanceAs (Stays x (_ >>= _))

instance {hasCounts : Bool} : Stays x (genericSignature hasCounts) := by
  have hcounts : Stays x (manyUntil 'l' parameterCount) := stays_manyUntil 'l'
  unfold genericSignature
  infer_instance

instance {subject : Subject} : Stays x (requirementSubject subject) := by
  cases subject <;> dsimp only [requirementSubject] <;> infer_instance

instance {subject : Node} : Stays x (layoutRequirement subject) := by
  unfold layoutRequirement
  refine .bind inferInstance fun c => ?_
  dsimp only
  split <;> infer_instance

instance : Stays x genericRequirement := by
  have hrest (form : Constraint × Subject) : Stays x (do
      let subject ← requirementSubject form.2
      match form.1 with
      | .protocol =>
        return .branch .dependentGenericConformanceRequirement [subject, ← popProtocol]
      | .baseClass =>
        return .branch .dependentGenericConformanceRequirement [subject, ← popKind .type]
      | .sameType =>
        return .branch .dependentGenericSameTypeRequirement [subject, ← popKind .type]
      | .layout => layoutRequirement subject) := by
    refine .bind inferInstance fun subject => ?_
    split <;> infer_instance
  unfold genericRequirement
  refine .bind inferInstance fun c => ?_
  dsimp only
  split
  · exact .bind inferInstance fun form => hrest form
  · exact .bind inferInstance fun _ => .bind inferInstance fun form => hrest form

instance : Stays x opaqueResult := by
  exact inferInstanceAs (Stays x (_ >>= _))

instance : Stays x archetype := by
  unfold archetype
  refine .bind inferInstance fun c => ?_
  split <;> infer_instance

instance : Stays x retroactiveConformance :=
  inferInstanceAs (Stays x (_ >>= _))

instance : Stays x conformanceIndex :=
  .bind inferInstance fun n => by split <;> infer_instance

instance : Stays x rootConformance :=
  inferInstanceAs (Stays x (_ >>= _))

instance : Stays x inheritedConformance :=
  inferInstanceAs (Stays x (_ >>= _))

instance : Stays x associatedConformance :=
  inferInstanceAs (Stays x (_ >>= _))

instance : Stays x conformance := by
  unfold conformance
  refine .bind inferInstance fun c => ?_
  split <;> infer_instance

/-! ## Function types and declarations -/

instance : Stays x clangType :=
  inferInstanceAs (Stays x (_ >>= _))

instance {hasClangType : Bool} : Stays x (popFunctionType k hasClangType) := by
  unfold popFunctionType
  infer_instance

instance : Stays x plainFunction :=
  inferInstanceAs (Stays x (_ >>= _))

instance : Stays x (closure k) :=
  inferInstanceAs (Stays x (_ >>= _))

instance : Stays x defaultArgument :=
  inferInstanceAs (Stays x (_ >>= _))

instance : Stays x functionEntity := by
  unfold functionEntity
  refine .bind inferInstance fun c => ?_
  split <;> infer_instance

instance {storage : Node} : Stays x (accessor storage) := by
  unfold accessor
  refine .bind inferInstance fun c => ?_
  split
  case h_9 | h_10 => exact .bind inferInstance fun c => by split <;> infer_instance
  all_goals infer_instance

instance : Stays x variableEntity :=
  inferInstanceAs (Stays x (_ >>= _))

instance : Stays x subscriptEntity :=
  inferInstanceAs (Stays x (_ >>= _))

/-! ## Built-in and special types -/

instance : Stays x builtinSize :=
  inferInstanceAs (Stays x (_ >>= _))

instance : Stays x builtinType := by
  unfold builtinType
  refine .bind inferInstance fun c => ?_
  split <;> infer_instance

instance : Stays x metatypeRepresentation :=
  inferInstanceAs (Stays x (_ >>= _))

instance : Stays x (representedMetatype k) :=
  inferInstanceAs (Stays x (_ >>= _))

instance : Stays x specialType := by
  unfold specialType
  refine .bind inferInstance fun c => ?_
  split
  case h_9 => exact .bind inferInstance fun c => by split <;> infer_instance
  all_goals infer_instance

instance : Stays x typeMark := by
  unfold typeMark
  refine .bind inferInstance fun c => ?_
  split <;> infer_instance

/-! ## Lowered function types -/

instance : Stays x loweredSubstitutions := by
  have hpattern : Stays x (nextIf 's') := stays_nextIf 's'
  have hinvocation : Stays x (nextIf 'I') := stays_nextIf 'I'
  unfold loweredSubstitutions
  dsimp only
  exact .bind inferInstance fun _ => .ite inferInstance inferInstance

instance : Stays x loweredSignature := by
  have hmark : Stays x (nextIf 'P') := stays_nextIf 'P'
  exact .bind inferInstance fun signature => by split <;> infer_instance

instance : Stays x functionConvention := by
  unfold functionConvention
  refine .bind inferInstance fun c => ?_
  split
  case h_3 => exact .bind inferInstance fun c => by split <;> infer_instance
  all_goals infer_instance

instance {table : Char → Option String} : Stays x (itemConvention table) :=
  continued_peekChar?_of_end (fun _ => inferInstance) fun _ _ _ => rfl

/-- A convention is one character that the table knows. -/
theorem itemConvention_run (table : Char → Option String) (r : Config) (s : State) :
    itemConvention table r s =
      match s.cursor.rest with
      | [] => (none, s)
      | b :: rest =>
        match table (charOfByte b) with
        | none => (none, s)
        | some name =>
          (some (.ofText .implConvention name),
            { s with cursor := ⟨b :: s.cursor.before, rest⟩ }) := by
  obtain ⟨⟨before, _ | ⟨b, rest⟩⟩, stack, substitutions, words, references⟩ := s
  · rfl
  · show (ofOption (table (charOfByte b)) >>= fun _ => _ : Decoder Node) r _ = _
    dsimp only
    cases table (charOfByte b) <;> rfl

/-- No convention starts like an ending. -/
theorem itemConvention_decided {table : Char → Option String} (hT : table 'T' = none)
    (hdot : table '.' = none) : Decided Config.Agrees x (itemConvention table) := by
  intro r r' s _
  rw [itemConvention_run, itemConvention_run]
  obtain ⟨⟨before, _ | ⟨b, rest⟩⟩, stack, substitutions, words, references⟩ := s
  · cases x with
    | nil => rfl
    | cons b y =>
      -- the ending does not start with a convention
      have hb : table (charOfByte b) = none := by
        rcases Ending.head b (x := b :: y) rfl with rfl | rfl
        · exact hT
        · exact hdot
      simp [extend, HasCursor.withCursor, HasCursor.cursor, Cursor.extend, hb]
  · simp only [extend, HasCursor.withCursor, HasCursor.cursor, Cursor.extend, List.cons_append]
    cases table (charOfByte b) <;> rfl

theorem itemConvention_failed {table : Char → Option String} {r : Config} {s t : State}
    (h : itemConvention table r s = (none, t)) : s = t := by
  rw [itemConvention_run] at h
  split at h
  next => exact congrArg Prod.snd h
  next =>
    split at h
    next => exact congrArg Prod.snd h
    next => cases h

theorem itemConvention_lt {table : Char → Option String} {r : Config} {s t : State} {a : Node}
    (h : itemConvention table r s = (some a, t)) : t.cursor.rest.length < s.cursor.rest.length := by
  rw [itemConvention_run] at h
  split at h
  next => cases h
  next b rest hrest =>
    split at h
    next => cases h
    next =>
      obtain rfl := congrArg Prod.snd h
      rw [hrest]
      exact Nat.lt_succ_self _

/-- The mark after a convention is read if it is there. -/
theorem markedItem_run (table : Char → Option String) (r : Config) (s : State) :
    ∃ mark, markedItem k table r s =
      match itemConvention table r s with
      | (none, t) => (none, t)
      | (some c, t) => (some ⟨k, c :: mark⟩,
          { t with cursor := (t.cursor.nextIf 'w'.toUInt8).2 }) := by
  rw [markedItem, run_bind]
  rcases itemConvention table r s with ⟨_ | c, t⟩
  · exact ⟨[], rfl⟩
  · dsimp only
    rw [run_bind, nextIf, run_move]
    show ∃ mark, (if (t.cursor.nextIf _).1 = true then _ else _ : Decoder Item) r _ = _
    cases (t.cursor.nextIf 'w'.toUInt8).1
    · exact ⟨_, rfl⟩
    · exact ⟨_, rfl⟩

/-- An item reads something or nothing, and reads the same when something is added behind. -/
theorem markedItem_readsItem {table : Char → Option String} (hT : table 'T' = none)
    (hdot : table '.' = none) : ReadsItem Config.Agrees x (markedItem k table) where
  decided := (itemConvention_decided hT hdot).bind fun _ =>
    (decided_nextIf (Ending.not_mem_head (by decide) (by decide))).bind fun _ =>
      .ite (Decided.ret.bind fun _ => .ret) (Decided.ret.bind fun _ => .ret)
  failed r s t h := by
    obtain ⟨mark, hrun⟩ := markedItem_run (k := k) table r s
    have hfailed (u : State) : itemConvention table r s = (none, u) → s = u :=
      itemConvention_failed
    rw [hrun] at h
    revert h hfailed
    rcases itemConvention table r s with ⟨_ | c, u⟩
    · exact fun h hfailed => (hfailed u rfl).trans (congrArg Prod.snd h)
    · intro h; cases h
  lt r s a t h := by
    obtain ⟨mark, hrun⟩ := markedItem_run (k := k) table r s
    have hlt (c : Node) (u : State) : itemConvention table r s = (some c, u) →
        u.cursor.rest.length < s.cursor.rest.length := itemConvention_lt
    rw [hrun] at h
    revert h hlt
    rcases itemConvention table r s with ⟨_ | c, u⟩
    · intro h; cases h
    · intro h hlt
      obtain rfl := congrArg Prod.snd h
      exact Nat.lt_of_le_of_lt (Cursor.length_rest_nextIf u.cursor _).1 (hlt c u rfl)

/-- A list of yields ends where it ends without the ending. -/
theorem yields_continuedOn {n m : Nat} (h : n ≤ m) :
    ContinuedOn (Within n) Config.Agrees x (yields n) (yields m) := by
  induction n generalizing m with
  | zero =>
    intro r r' s as t hs hr hrun
    obtain ⟨rfl, rfl⟩ : [] = as ∧ s = t := by simpa [yields, run_pure] using hrun
    cases m with
    | zero => rfl
    | succ m =>
      -- nothing is left to read, so there is no mark in the input
      have hnone : s.cursor.nextIf 'Y'.toUInt8 = (false, s.cursor) := by
        obtain ⟨⟨before, rest⟩, stack, substitutions, words, references⟩ := s
        obtain rfl : rest = [] := List.length_eq_zero_iff.mp (Nat.le_zero.mp hs)
        rfl
      have hmark := decided_nextIf (C := Config.Agrees) (x := x) (c := 'Y')
        (Ending.not_mem_head (by decide) (by decide)) r r' s hr
      rw [yields, run_bind, hmark, nextIf, run_move]
      show (if (s.cursor.nextIf _).1 = true then _ else pure [] : Decoder (List Item)) r'
        (extend (HasCursor.withCursor s (s.cursor.nextIf _).2) x) = _
      rw [hnone]
      rfl
  | succ n ih =>
    obtain ⟨m, rfl⟩ : ∃ k, m = k + 1 := ⟨m - 1, by omega⟩
    rw [yields, yields]
    refine ContinuedOn.bind (Q := fun _ => Within (n + 1)) (stays_nextIf 'Y').on
      (fun r s a t hs hrun => ?_) fun found => ?_
    · obtain rfl : HasCursor.withCursor s (s.cursor.nextIf _).2 = t := congrArg Prod.snd hrun
      exact Nat.le_trans (Cursor.length_rest_nextIf s.cursor _).1 hs
    · cases found with
      | false => exact Continued.on (inferInstanceAs (Stays x (pure [])))
      | true =>
        refine ContinuedOn.bind (Q := fun _ => Within n) (Continued.on inferInstance)
          (fun r s a t hs hrun => ?_) fun _ => (ih (by omega)).bind_continued inferInstance
        exact Nat.le_of_lt_succ (Nat.lt_of_lt_of_le (itemConvention_lt hrun) hs)

instance : Stays x loweredItems := by
  have hitems (k : Kind) (table : Char → Option String) (hT : table 'T' = none)
      (hdot : table '.' = none) (f : List Item → Decoder (List Item)) (hf : ∀ is, Stays x (f is)) :
      Stays x (remaining >>= fun n => many n (markedItem k table) >>= f) :=
    stable_remaining fun _ _ h =>
      (continuedOn_many (markedItem_readsItem hT hdot) h).bind_continued hf
  have herror : Stays x (nextIf 'z') := stays_nextIf 'z'
  exact hitems _ _ rfl rfl _ fun parameters => hitems _ _ rfl rfl _ fun results =>
    stable_remaining fun _ _ h => (yields_continuedOn h).bind_continued inferInstance

instance : Stays x loweredFunctionType := by
  have hsendable : Stays x (nextIf 'h') := stays_nextIf 'h'
  have hasync : Stays x (nextIf 'H') := stays_nextIf 'H'
  unfold loweredFunctionType
  dsimp only
  refine .bind inferInstance fun substitutions => .bind inferInstance fun signature =>
    .bind (stays_nextIf 'e') fun escaping => .bind (stays_nextIf 'd') fun _ =>
    .ite (.bind inferInstance fun _ => .bind inferInstance fun _ => ?_) ?_
  all_goals
    exact .bind inferInstance fun differentiability => .bind inferInstance fun _ =>
      .bind inferInstance fun callee => .bind inferInstance fun convention =>
      .bind (stays_nextIf 'A') fun yieldsOnce => .ite inferInstance
        (.bind (stays_nextIf 'G') inferInstance)

/-! ## Metadata and witnesses -/

instance : Stays x contextDescriptor := by
  unfold contextDescriptor
  refine .bind inferInstance fun c => ?_
  split <;> infer_instance

instance : Stays x metadata := by
  unfold metadata
  refine .bind inferInstance fun c => ?_
  split <;> infer_instance

instance : Stays x valueWitness :=
  inferInstanceAs (Stays x (_ >>= _))

instance : Stays x fieldOffset := by
  unfold fieldOffset
  refine .bind inferInstance fun c => ?_
  dsimp only
  split <;> infer_instance

instance : Stays x outlinedOperation := by
  unfold outlinedOperation
  refine .bind inferInstance fun c => ?_
  split <;> infer_instance

instance : Stays x derivativeKind :=
  inferInstanceAs (Stays x (_ >>= _))

instance : Stays x indexSubset :=
  .bind (stays_takeWhile (by decide) (by decide)) inferInstance

instance : Stays x parametersAndResults :=
  inferInstanceAs (Stays x (_ >>= _))

instance : Stays x (derivative k) :=
  inferInstanceAs (Stays x (_ >>= _))

instance : Stays x subsetParametersThunk :=
  inferInstanceAs (Stays x (_ >>= _))

instance : Stays x selfReorderingThunk :=
  inferInstanceAs (Stays x (_ >>= _))

instance : Stays x differentiabilityWitness :=
  inferInstanceAs (Stays x (_ >>= _))

instance : Stays x witness := by
  unfold witness
  refine .bind inferInstance fun c => ?_
  split <;> infer_instance

/-! ## Specializations and thunks -/

instance : Stays x specializationHeader := by
  have hmark : Stays x (nextIf 'q') := stays_nextIf 'q'
  exact inferInstanceAs (Stays x (_ >>= _))

instance : Stays x (genericSpecialization k) :=
  inferInstanceAs (Stays x (_ >>= _))

instance : Stays x (partialSpecialization k) :=
  inferInstanceAs (Stays x (_ >>= _))

theorem optionIf_stays (c : Char) (o : ParamOption) (hT : c.toUInt8 ≠ 'T'.toUInt8 := by decide)
    (hdot : c.toUInt8 ≠ '.'.toUInt8 := by decide) : Stays x (optionIf c o) :=
  .bind (stays_nextIf c hT hdot) inferInstance

instance {first : ParamOption} {canBeDead : Bool} : Stays x (paramOptions first canBeDead) := by
  have hdead : Stays x (optionIf 'D' .dead) := optionIf_stays 'D' _
  have hguaranteed : Stays x (optionIf 'G' .ownedToGuaranteed) := optionIf_stays 'G' _
  have howned : Stays x (optionIf 'O' .guaranteedToOwned) := optionIf_stays 'O' _
  have hexploded : Stays x (optionIf 'X' .exploded) := optionIf_stays 'X' _
  unfold paramOptions
  infer_instance

instance {c : ParamChange} : Stays x (propagatedNumber c) :=
  .bind (stays_takeWhile (by decide) (by decide)) inferInstance

instance : Stays x propagatedString := by
  unfold propagatedString
  refine .bind inferInstance fun c => ?_
  dsimp only
  split <;> infer_instance

instance : Stays x paramChange := by
  have hexploded : Stays x (optionIf 'X' .exploded) := optionIf_stays 'X' _
  unfold paramChange
  refine .bind inferInstance fun c => ?_
  split
  case h_3 => exact .bind inferInstance fun c => by split <;> infer_instance
  all_goals infer_instance

instance : Stays x (paramNode k) :=
  inferInstanceAs (Stays x (_ >>= _))

instance : Stays x functionSpecialization := by
  have hparams : Stays x (manyUntil '_' (paramNode .functionSignatureSpecializationParam)) :=
    stays_manyUntil '_'
  have hresult : Stays x (nextIf 'n') := stays_nextIf 'n'
  unfold functionSpecialization
  infer_instance

instance : Stays x (keyPathAccessor k) := by
  have hmark : Stays x (nextIf 'q') := stays_nextIf 'q'
  unfold keyPathAccessor
  infer_instance

instance : Stays x (keyPathHash k) := by
  unfold keyPathHash
  refine .bind (stays_nextIf 'q') fun serialized => .bind inferInstance fun first => ?_
  dsimp only
  split
  all_goals
    refine .bind inferInstance fun _ => .bind inferInstance fun _ => .bind inferInstance fun _ => ?_
    split <;> infer_instance

instance : Stays x bridgedArgument :=
  inferInstanceAs (Stays x (_ >>= _))

instance : Stays x bridgedMethod := by
  have hmark : Stays x (nextIf '_') := stays_nextIf '_'
  have harguments : Stays x (manyUntil '_' bridgedArgument) := stays_manyUntil '_'
  unfold bridgedMethod
  infer_instance

instance : Stays x (resumeFunction k) :=
  inferInstanceAs (Stays x (_ >>= _))

instance : Stays x (completionHandler k) :=
  inferInstanceAs (Stays x (_ >>= _))

instance : Stays x derivativeThunk := by
  refine continued_peekChar?_of_end (fun m => ?_) fun _ _ _ => rfl
  split <;> infer_instance

instance : Stays x thunk := by
  unfold thunk
  refine .bind inferInstance fun c => ?_
  split <;> infer_instance

/-! ## Operators -/

/-- Every operator but a suffix is the same with an ending behind it. -/
theorem operatorOf_stays {c : Char} (hc : c ≠ '.') : Stays x (operatorOf c) := by
  unfold operatorOf
  split
  -- the suffix takes the ending as well
  case h_48 => exact absurd rfl hc
  all_goals infer_instance

end SwiftMangling.Current
