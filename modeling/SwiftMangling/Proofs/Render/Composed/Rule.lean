import Mathlib.Data.Option.Basic
import SwiftMangling.Proofs.Render.Composed.Symbol
import SwiftMangling.Proofs.Render.Safe.Entity

/-!
# Every rule is composed

Templates, declarations and with them the rule of every kind of node are composed of the shared
operations. Printing is a tower of rules, so two options that agree on a set of nodes print these
nodes alike at every depth (`twins_printNode`).
-/

set_option synthInstance.maxSize 100000

namespace SwiftMangling.Render

variable {N : Node → Prop} [Closed N] {n c t : Node} {m : Option Node} {s : String}
  {options options' : Options} {embedded : String → String}

/-! ## Declarations -/

omit [Closed N] in
instance : Prints N (liftM (innermostType n) : Printer Node) := by
  cases innermostType n with
  | ok t => exact inferInstanceAs (Prints N (pure t))
  | error e => exact inferInstanceAs (Prints N (throw e))

instance [Within N n] [Within N t] [WithinIfAny N m] : Prints N (printEntityType n t m) := by
  unfold printEntityType
  dsimp only
  cases m with
  | none => infer_instance
  | some c =>
    have : Within N c := .of_eq (m := some c) rfl
    infer_instance

instance {style : TypeStyle} {multiWord : Bool} [Within N n] [WithinIfAny N m] :
    Prints N (printTypePart n style multiWord m) := by
  unfold printTypePart
  dsimp only
  split
  · infer_instance
  · cases hc : n.childOfKind? .type with
    | none => infer_instance
    | some holder =>
      have : Within N holder := .of_eq hc
      simp only [pure_bind]
      infer_instance

omit [Closed N] in
theorem composed_printLeadingContext {multiWord : Bool} [hc : Within N c] :
    Composed N (printLeadingContext c multiWord) fun m => ∀ p ∈ m, N p := by
  unfold printLeadingContext
  refine .ask (fun S => ?_) fun S S' h => by rw [h.shows c hc.mem]
  split
  · split
    · exact .ret WithinIfAny.mem
    · refine .compare (f := fun postponed grown => do
        if grown then write "."
        return postponed) composed_printContext fun postponed grown hp => ?_
      split
      · exact .after inferInstance fun _ => .ret hp
      · exact .ret hp
  · exact .ret WithinIfAny.mem

instance {style : Style} [Within N n] : Prints N (printOwnName n style) := by
  unfold printOwnName
  dsimp only
  cases hc : n.childOfKind? .privateDeclName with
  | none => infer_instance
  | some c =>
    have : Within N c := .of_eq hc
    infer_instance

instance {style : Style} {multiWord : Bool} [Within N n] :
    Prints N (printName n style multiWord) := by
  unfold printName
  cases style.extra.isEmpty with
  | true =>
    -- without a description, nothing depends on how much has been written
    have hplain : Prints N (written >>= fun _ => printOwnName n style >>= fun _ => pure ()) :=
      inferInstanceAs (Prints N (printOwnName n style >>= fun _ => pure ()))
    simp only [Bool.not_true, Bool.false_and, Bool.false_eq_true, if_false]
    infer_instance
  | false =>
    have hjoined : Prints N (do
        let before ← written
        printOwnName n style
        let after ← written
        if after != before then write "."
        write style.extraText) :=
      ⟨.compare (f := fun _ grown => do
        if grown then write "."
        write style.extraText) Prints.composed fun _ grown _ => Prints.composed⟩
    simp only [Bool.not_false, Bool.true_and, if_true]
    infer_instance

/-- A declaration, and what it postpones is one of its own children. -/
theorem composed_printResolved {asContext : Bool} {style : Style} [hn : Within N n]
    [WithinIfAny N m] :
    Composed N (printResolved n m asContext style) fun p => ∀ c ∈ p, N c := by
  unfold printResolved
  refine .ask (fun S => ?_) fun S S' h => ?_
  · dsimp only
    split
    · exact .ret WithinIfAny.mem
    · refine composed_child.bind fun context hcontext => ?_
      have : Within N context := ⟨hcontext⟩
      refine composed_printLeadingContext.bind fun postponed hp => .after inferInstance fun _ =>
        .after inferInstance fun _ => ?_
      split
      next c _ =>
        have : Within N c := ⟨hp c rfl⟩
        exact .after inferInstance fun _ => .after inferInstance fun _ => .ret WithinIfAny.mem
      next => exact .ret hp
  -- the choices depend on the options only, which are the same
  · have hwords : isMultiWord S.options n style = isMultiWord S'.options n style := by
      simp only [isMultiWord, h.has]
    rw [hwords]

theorem composed_printEntity {asContext : Bool} {style : Style} [Within N n] :
    Composed N (printEntity n asContext style) fun p => ∀ c ∈ p, N c := by
  rw [printEntity_eq]
  split
  · refine composed_child.bind fun f hf => composed_child.bind fun arguments ha => ?_
    have : Within N f := ⟨hf⟩
    have : Within N arguments := ⟨ha⟩
    exact composed_printResolved
  · exact composed_printResolved

theorem composed_printAccessor {asContext : Bool} [Within N n] :
    Composed N (printAccessor n asContext s) fun p => ∀ c ∈ p, N c := by
  unfold printAccessor
  split
  · exact composed_printEntity
  · exact composed_printEntity
  · exact .fail _

instance [Within N n] : Prints N (closureStyle n s) := by
  unfold closureStyle
  infer_instance

instance {style : TypeStyle} {inClass other : String} [Within N n] :
    Prints N (memberStyle n style inClass other) := by
  unfold memberStyle
  infer_instance

instance [Within N n] : Prints N (entityStyle? n) := by
  unfold entityStyle?
  split <;> infer_instance

/-! ## Templates and rules -/

instance {p : Piece} [Within N n] : Prints N (printPiece n p) := by
  cases p <;> (rw [printPiece]; infer_instance)

instance {ps : List Piece} [Within N n] : Prints N (printPieces n ps) := by
  induction ps with
  | nil => exact inferInstanceAs (Prints N (pure ()))
  | cons p ps ih =>
    rw [printPieces]
    infer_instance

instance [Within N n] : Prints N (printTypeMangling n) := by
  unfold printTypeMangling
  infer_instance

instance : Prints N (printOperator n s) := by
  unfold printOperator
  infer_instance

theorem prints_printActor [Within N n] : Prints N (match n.first? with
    | some actor => do
      write "@"
      print actor
      write " "
    | none => pure () : Printer Unit) := by
  cases hc : n.first? with
  | none => infer_instance
  | some c =>
    have : Within N c := .of_eq hc
    infer_instance

/-- Every rule for names, numbers and types is composed. -/
theorem prints_of_printTypeNode? {p : Printer Unit} [Within N n] (h : printTypeNode? n = some p) :
    Prints N p := by
  unfold printTypeNode? at h
  split at h <;> cases h
  all_goals first
    | infer_instance
    | exact prints_printActor

/-- Every rule for the parts of whole symbols is composed. -/
theorem prints_of_printSymbolNode? {p : Printer Unit} [Within N n]
    (h : printSymbolNode? n = some p) : Prints N p := by
  unfold printSymbolNode? at h
  split at h
  case h_32 k =>
    obtain ⟨⟨description, start⟩, htext, rfl⟩ := Option.map_eq_some_iff.mp h
    exact prints_printSpecialization (by rw [← isSome_specializationText?, htext]; rfl)
  all_goals
    cases h
    infer_instance

instance [Within N n] : Prints N (printPlain n) := by
  unfold printPlain
  split
  · infer_instance
  · split
    next p hp =>
      rcases (Option.orElse_eq_some _ _ _).mp hp with hp | ⟨-, hp⟩
      · exact prints_of_printTypeNode? hp
      · exact prints_of_printSymbolNode? hp
    next => infer_instance

/-- Every printing rule is put together from the operations of the printer. -/
theorem composed_rule {asContext : Bool} [Within N n] :
    Composed N (rule n asContext) fun p => ∀ c ∈ p, N c := by
  unfold rule
  split
  · refine composed_child.bind fun storage hs => ?_
    have : Within N storage := ⟨hs⟩
    exact composed_printAccessor
  · refine .after inferInstance fun style => ?_
    cases style with
    | none => exact .after inferInstance fun _ => .ret WithinIfAny.mem
    | some style => exact composed_printEntity

/-! ## Whole trees -/

/-- The setting in which nodes are printed down to a depth. -/
def Setting.level (options : Options) (embedded : String → String) (depth : Nat) : Setting :=
  ⟨options, embedded, printNode options embedded depth⟩

/-- A tree that is not too high is rendered by printing it into an empty output. -/
theorem render_eq {tree : Node} (h : tree.height ≤ maxRenderDepth) : render options tree =
    ((Setting.level options (embeddedSymbol maxEmbedding) maxRenderDepth).node tree false
      ⟨"", false⟩).map (·.2.text) := by
  unfold render renderWith Setting.level
  rw [if_neg (Nat.not_lt.mpr h)]
  dsimp only
  cases printNode options (embeddedSymbol maxEmbedding) maxRenderDepth tree false ⟨"", false⟩ <;>
    rfl

/-- Options that agree on a set of nodes print these nodes alike, to any depth. -/
theorem twins_level {x : String} {free : Prop} (h : Concur N options options')
    (hfree : free → ∀ n, N n → n.kind.isSpecialization = false) (d : Nat) :
    Setting.Twins N x free (.level options embedded d) (.level options' embedded d) := by
  refine ⟨⟨h, rfl⟩, ?_, hfree⟩
  induction d with
  | zero => exact fun _ _ => rfl
  | succ d ih =>
    intro n asContext o o' hn ho
    have : Within N n := ⟨hn⟩
    have hlevel : Setting.Twins N x free (.level options embedded d)
        (.level options' embedded d) := ⟨⟨h, rfl⟩, ih, hfree⟩
    exact composed_rule.same hlevel ho

/-- What runs alike gives the same text, but for what stands in front of it. -/
theorem Same.map_text {α : Type} {x : String} {free : Prop} {Q : α → Prop}
    {r r' : Except RenderError (α × Output)} (h : Same x free Q r r') :
    r.map (·.2.text) = (r'.map (·.2.text)).map (x ++ ·) := by
  cases r <;> cases r'
  case error.error e e' =>
    obtain rfl : e = e' := h
    rfl
  case ok.ok a b =>
    obtain ⟨-, -, htext, -⟩ := h
    exact congrArg Except.ok htext
  all_goals exact h.elim

end SwiftMangling.Render
