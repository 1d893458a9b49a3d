import SwiftMangling.Proofs.Current.State

/-!
# Names and substitutions keep the state sound

Identifiers and the names made from them, references to the table of substitutions, and references
to the standard library. Symbolic references fail without a resolver.
-/

namespace SwiftMangling.Current

open Decoding Node

variable {H : Nat}

/-! ## Identifiers -/

/-- The table of words does not grow beyond its size. -/
theorem length_harvest_le {table : List String} (text : String)
    (h : table.length ≤ Word.tableSize) : (Word.harvest table text).length ≤ Word.tableSize := by
  unfold Word.harvest
  rw [List.length_append, List.length_take]
  omega

theorem identifierText_holds (punycoded : Bool) :
    Holds H (identifierText punycoded) fun _ => True := by
  unfold identifierText
  refine Keeps.positive.bind fun length _ => .ite (fun _ => ?_) fun _ => ?_
  · exact Keeps.nextIf.bind fun _ _ => Keeps.text.bind fun _ _ =>
      Keeps.ofOption.mono fun _ _ => trivial
  · exact Keeps.text.bind fun _ _ =>
      (Keeps.modify fun _ hs => ⟨hs.stack, hs.table, hs.nameable, length_harvest_le _ hs.words,
        hs.unasked⟩).bind fun _ _ => .ret trivial

theorem namedWord_holds (c : Char) : Holds H (namedWord c) fun _ => True := by
  unfold namedWord
  exact Keeps.get.bind fun _ _ => Keeps.ofOption.mono fun _ _ => trivial

/-- The pieces only move the cursor and harvest words. -/
theorem identifierPieces_holds (punycoded : Bool) (n : Nat) (wordsFollow : Bool) (s : String) :
    Holds H (identifierPieces punycoded n wordsFollow s) fun _ => True := by
  induction n generalizing wordsFollow s with
  | zero => exact .fail
  | succ n ih =>
    rw [identifierPieces]
    refine Keeps.look.bind fun _ _ => .ite (fun _ => ?_) fun _ => ?_
    · exact Keeps.nextChar.bind fun c _ => (namedWord_holds c).bind fun _ _ => ih _ _
    · refine Keeps.nextIf.bind fun _ _ => .ite (fun _ => .ret trivial) fun _ => ?_
      exact (identifierText_holds punycoded).bind fun _ _ =>
        .ite (fun _ => ih _ _) fun _ => .ret trivial

theorem identifier_holds (hH : 1 ≤ H) : Holds H identifier fun n => ∃ s, n = .identifier s := by
  -- with a mark or without, the pieces make up one text, which is remembered
  have hend (punycoded wordsFollow : Bool) : Holds H (remaining >>= fun n =>
      identifierPieces punycoded (n + 1) wordsFollow "" >>= fun s =>
        require (!s.isEmpty) >>= fun _ => remember (.identifier s))
      fun n => ∃ s, n = .identifier s :=
    Keeps.look.bind fun n _ => (identifierPieces_holds punycoded _ wordsFollow "").bind fun s _ =>
      Keeps.require.bind fun _ _ => (remember_holds (part_identifier s) (.inl rfl) hH).mono fun _ hn => ⟨s, hn⟩
  unfold identifier
  refine Keeps.look.bind fun _ _ => Keeps.require.bind fun _ _ =>
    Keeps.nextIf.bind fun hasMark _ => ?_
  dsimp only
  split
  · exact Keeps.nextIf.bind fun punycoded _ => hend punycoded _
  · exact hend false _

theorem identifier_builds : Builds identifier :=
  .of_holds (identifier_holds (by decide)) fun _ h => by
    obtain ⟨s, rfl⟩ := h
    exact part_identifier s

/-- An identifier carries a text. -/
theorem identifier_isText {n : Node} (h : n.Part ∧ n.kind = .identifier) :
    n.payload.isText = true :=
  h.1.payload_isText fun p => by rw [h.2]; rfl

theorem operatorName_holds : Holds H operatorName Part := by
  unfold operatorName
  refine popKind_holds.bind fun name _ => Keeps.ofOption.bind fun spelled _ =>
    Keeps.ofOption.bind fun operator _ => Keeps.nextChar.bind fun c _ => ?_
  dsimp only
  split
  iterate 3 exact .ret (part_ofText rfl (by decide))
  exact .fail

theorem localName_holds : Holds H localName Open := by
  unfold localName
  refine Keeps.nextIf.bind fun _ _ => .ite (fun _ => ?_) fun _ => ?_
  · refine popKind_holds.bind fun discriminator hd => popDeclName_holds.bind fun name hn => .ret ?_
    refine open_branch_of_needs rfl rfl ?_ ?_
    · simpa using ⟨hd.1.child, hn.child⟩
    · simpa [Kind.needs, meets] using identifier_isText hd
  refine Keeps.nextIf.bind fun _ _ => .ite (fun _ => ?_) fun _ => ?_
  · refine popKind_holds.bind fun discriminator hd => .ret ?_
    refine open_branch_of_needs rfl rfl ?_ ?_
    · simpa using hd.1.child
    · simpa [Kind.needs, meets] using identifier_isText hd
  refine Keeps.look.bind fun _ _ => ?_
  split
  -- a letter for the related declaration, or else the number of a local one
  next c _ =>
    refine Keeps.nextByte.bind fun _ _ => pop_holds.bind fun name hn => .ret ?_
    refine open_branch_of_needs rfl rfl ?_ rfl
    simpa using ⟨(part_identifier _).child, hn.child⟩
  next =>
    refine numberNode_holds.bind fun number hi => popDeclName_holds.bind fun name hn => .ret ?_
    refine open_branch_of_needs rfl rfl ?_ ?_
    · simpa using ⟨hi.1.child, hn.child⟩
    · simpa [Kind.needs, meets] using hi.2

/-! ## Substitutions -/

/-- What is on the table was built before. -/
theorem substitution_holds (i : Nat) :
    Holds H (substitution i) fun n => n.Part ∧ n.height ≤ H :=
  Keeps.get.bind fun _ hs => Keeps.ofOption.mono fun n hn =>
    hs.table n (Array.mem_of_getElem? hn)

/-- The copies of a substitution are pushed but for the last, which is the result. -/
theorem repeated_holds (count : Option Nat) (i : Nat) :
    Holds maxHeight (repeated count i) fun n => n.Part ∧ n.height ≤ maxHeight := by
  unfold repeated
  exact (substitution_holds i).bind fun n hn => Keeps.require.bind fun _ _ =>
    (pushCopies_holds hn.1 hn.2).bind fun _ _ => .ret hn

/-- What is substituted was on the table. -/
theorem substitutionsFrom_holds (n : Nat) (count : Option Nat) :
    Holds maxHeight (substitutionsFrom n count) Part := by
  induction n generalizing count with
  | zero => exact .fail
  | succ n ih =>
    rw [substitutionsFrom]
    refine Keeps.nextChar.bind fun c _ => .ite (fun _ => ?_) fun _ => .ite (fun _ => ?_) fun _ =>
      .ite (fun _ => ?_) fun _ => ?_
    · exact (repeated_holds count _).bind fun m hm => (push_holds hm.1 hm.2).bind fun _ _ => ih none
    · exact (repeated_holds count _).mono fun _ hm => hm.1
    · exact (substitution_holds _).mono fun _ hm => hm.1
    · exact Keeps.pushBack.bind fun _ _ => Keeps.natural.bind fun i _ => ih (some i)

theorem substitutionReference_holds : Holds maxHeight substitutionReference Part :=
  Keeps.look.bind fun _ _ => substitutionsFrom_holds _ _

theorem open_standardType {k : Kind} (hk : k.isNominal = true) (s : String) :
    (Node.standardType k s).Open :=
  open_typeOf (open_nominal hk (open_module _).child (part_identifier s).child)

theorem open_optionalOf {t : Node} (ht : t.Open) : (optionalOf t).Open := by
  have hlist : (branch .typeList [t]).Open := open_branch rfl (by simpa using ht.child)
  have hparts : ∀ c ∈ [Node.standardType .enumType "Optional", branch .typeList [t]], c.Open := by
    simpa using ⟨open_standardType rfl _, hlist⟩
  exact open_typeOf (open_through_of_framed rfl hparts rfl
    (framed_bound rfl (fun c hc => (hparts c hc).ne_labelList) (.inr rfl)))

/-- The standard library's types are nominal types. -/
theorem standardType_isNominal {c : Char} {t : StandardType}
    (h : StandardType.lookup? c = some t ∨ StandardType.lookupConcurrency? c = some t) :
    t.kind.isNominal = true := by
  have hbasic : ∀ t ∈ StandardType.basic, t.kind.isNominal = true := by decide
  have hconcurrency : ∀ t ∈ StandardType.concurrency, t.kind.isNominal = true := by decide
  rcases h with h | h
  · exact hbasic t (List.mem_of_find?_eq_some h)
  · exact hconcurrency t (List.mem_of_find?_eq_some h)

theorem standardType_height (k : Kind) (s : String) : (Node.standardType k s).height = 3 :=
  rfl

theorem standardSubstitution_builds : Builds standardSubstitution := by
  -- a standard type is pushed as often as its count says
  have hend (count : Nat) (found : Option StandardType)
      (h : ∀ t, found = some t → t.kind.isNominal = true) :
      Holds maxHeight (ofOption found >>= fun t =>
        pushCopies (count - 1) (Node.standardType t.kind t.name) >>= fun _ =>
          pure (Node.standardType t.kind t.name)) Part :=
    Keeps.ofOption.bind fun t ht =>
      have hp := (open_standardType (h t ht) t.name).part
      (pushCopies_holds hp (by rw [standardType_height]; decide)).bind fun _ _ => .ret hp
  have hrest (count : Nat) :
      Holds maxHeight (require (count ≤ maxRepeatCount) >>= fun _ => nextIf 'c' >>= fun b =>
        if b = true then nextChar >>= fun c => ofOption (StandardType.lookupConcurrency? c) >>=
          fun t => pushCopies (count - 1) (Node.standardType t.kind t.name) >>= fun _ =>
            pure (Node.standardType t.kind t.name)
        else nextChar >>= fun c => ofOption (StandardType.lookup? c) >>=
          fun t => pushCopies (count - 1) (Node.standardType t.kind t.name) >>= fun _ =>
            pure (Node.standardType t.kind t.name)) Part :=
    Keeps.require.bind fun _ _ => Keeps.nextIf.bind fun _ _ => .ite
      (fun _ => Keeps.nextChar.bind fun _ _ =>
        hend count _ fun _ ht => standardType_isNominal (.inr ht))
      fun _ => Keeps.nextChar.bind fun _ _ =>
        hend count _ fun _ ht => standardType_isNominal (.inl ht)
  unfold standardSubstitution
  refine .bind Keeps.nextChar fun c _ => ?_
  split
  · exact .of_holds (.ret (open_module _).part) fun _ h => h
  · exact .of_holds (.ret (open_module _).part) fun _ h => h
  · exact .bind popType_holds fun t ht => builds_remember (open_optionalOf ht.1).part (.inr rfl)
  · refine .of_holds (Q := Part) ?_ fun _ h => h
    refine Keeps.pushBack.bind fun _ _ => Keeps.look.bind fun digit _ => ?_
    dsimp only
    refine .ite (fun _ => Keeps.natural.bind fun count _ => hrest count) fun _ => hrest 0

end SwiftMangling.Current
