import SwiftMangling.Proofs.Render.Balanced.Type
import SwiftMangling.Proofs.Render.Safe.Entity

/-!
# Declarations are balanced

A declaration is balanced if the texts of its style are nested, and what it hands on to be printed
after another one is a part of the same clean tree.
-/

set_option synthInstance.maxSize 100000

namespace SwiftMangling.Render

open Brackets

variable {n c t : Node} {m : Option Node}

/-! ## The type of a declaration -/

instance : Balanced (liftM (innermostType n) : Printer Node) :=
  balanced_of_state fun S o a o' h => by
    cases hn : innermostType n with
    | ok t =>
      rw [hn] at h
      cases h
      rfl
    | error e =>
      rw [hn] at h
      cases h

instance [Clean n] [Clean t] [CleanIfAny m] : Balanced (printEntityType n t m) := by
  unfold printEntityType
  dsimp only
  cases m with
  | none => exact balanced_of_trace (by decide)
  | some c =>
    have : Clean c := .of_eq (m := some c) rfl
    exact balanced_of_trace (by decide)

instance {style : TypeStyle} {multiWord : Bool} [Clean n] [CleanIfAny m] :
    Balanced (printTypePart n style multiWord m) := by
  unfold printTypePart
  dsimp only
  cases hc : n.childOfKind? .type with
  | none => exact balanced_of_trace (by decide)
  | some holder =>
    have : Clean holder := .of_eq hc
    dsimp only
    simp only [pure_bind]
    exact balanced_of_trace (by decide)

/-! ## Contexts and names -/

instance {multiWord : Bool} [Clean n] : Gives (printLeadingContext n multiWord) CleanIfAny := by
  unfold printLeadingContext
  refine .after inferInstance fun S => ?_
  dsimp only
  split
  · split
    · exact gives_pure inferInstance
    · refine .after inferInstance fun before => .bind inferInstance fun postponed hp =>
        .after inferInstance fun now => ?_
      split
      · exact .after (balanced_of_trace (by decide)) fun _ => gives_pure hp
      · exact gives_pure hp
  · exact gives_pure inferInstance

/-- A style whose texts are nested. -/
class NestedStyle (style : Style) : Prop where
  extra : NestedText style.extra
  overwrite : NestedText style.overwrite

instance {style : Style} [h : NestedStyle style] : NestedText style.overwrite :=
  h.overwrite

instance {style : Style} [h : NestedStyle style] : NestedText style.extraText := by
  refine h.extra.append ?_
  cases style.extraNumber with
  | none => exact nestedText_of_literal (by decide)
  | some i => exact inferInstanceAs (NestedText i.repr)

instance {style : Style} [NestedStyle style] [Clean n] : Balanced (printOwnName n style) := by
  unfold printOwnName
  dsimp only
  cases hc : n.childOfKind? .privateDeclName with
  | none => exact balanced_of_trace (by decide)
  | some c =>
    have : Clean c := .of_eq hc
    exact balanced_of_trace (by decide)

instance {style : Style} [NestedStyle style] {multiWord : Bool} [Clean n] :
    Balanced (printName n style multiWord) := by
  unfold printName
  dsimp only
  exact balanced_of_trace (by decide)

instance {k : Kind} : NestedText (contextJoint k) := by
  unfold contextJoint
  split <;> exact nestedText_of_literal (by decide)

/-! ## Whole declarations -/

instance {asContext : Bool} {style : Style} [NestedStyle style] [Clean n] [CleanIfAny m] :
    Gives (printResolved n m asContext style) CleanIfAny := by
  unfold printResolved
  refine .after inferInstance fun S => ?_
  dsimp only
  split
  · exact gives_pure inferInstance
  · refine .bind inferInstance fun context hcontext => .bind inferInstance fun postponed hp =>
      .after inferInstance fun _ => .after inferInstance fun _ => ?_
    split
    · rename_i c _
      have : Clean c := .of_eq (m := some c) rfl
      exact .after inferInstance fun _ => .after inferInstance fun _ => gives_pure inferInstance
    · exact gives_pure hp

instance {asContext : Bool} {style : Style} [NestedStyle style] [Clean n] :
    Gives (printEntity n asContext style) CleanIfAny := by
  rw [printEntity_eq]
  split
  · exact .bind inferInstance fun f hf => .bind inferInstance fun as has => inferInstance
  · infer_instance

/-! ## Styles -/

theorem nestedText_of_accessorName? {k : Kind} {name : String} (h : accessorName? k = some name) :
    NestedText name := by
  unfold accessorName? at h
  split at h <;> cases h
  all_goals exact nestedText_of_literal (by decide)

theorem nestedText_empty : NestedText "" :=
  nestedText_of_literal (by decide)

theorem nestedStyle_described {style : TypeStyle} {s : String} (h : NestedText s) :
    NestedStyle (.described style s) :=
  ⟨h, nestedText_empty⟩

theorem nestedStyle_numbered {style : TypeStyle} {s : String} {i : Nat} (h : NestedText s) :
    NestedStyle (.numbered style s i) :=
  ⟨h, nestedText_empty⟩

instance {asContext : Bool} {name : String} [hname : NestedText name] [Clean n] :
    Gives (printAccessor n asContext name) CleanIfAny := by
  unfold printAccessor
  split
  · have : NestedStyle { Style.named .withColon with extra := name } := ⟨hname, nestedText_empty⟩
    infer_instance
  · have : NestedStyle { typeStyle := .withColon, extra := name, overwrite := "subscript" } :=
      ⟨hname, nestedText_of_literal (by decide)⟩
    infer_instance
  · exact gives_throw

theorem nestedStyle_of_fixedStyle? {k : Kind} {style : Style} (h : fixedStyle? k = some style) :
    NestedStyle style := by
  unfold fixedStyle? at h
  split at h <;> cases h
  all_goals exact ⟨nestedText_of_literal (by decide), nestedText_of_literal (by decide)⟩

theorem gives_closureStyle {s : String} (h : NestedText s) [Clean n] :
    Gives (closureStyle n s) NestedStyle := by
  unfold closureStyle
  exact .bind inferInstance fun c hc => .after inferInstance fun _ => .after inferInstance fun _ =>
    gives_pure (nestedStyle_numbered h)

theorem gives_memberStyle {style : TypeStyle} {s t : String} (hs : NestedText s) (ht : NestedText t)
    [Clean n] : Gives (memberStyle n style s t) NestedStyle := by
  unfold memberStyle
  exact .bind inferInstance fun c hc => gives_pure (nestedStyle_described (by split <;> assumption))

/-- A style whose texts are nested, if there is one. -/
class NestedStyleIfAny (style : Option Style) : Prop where
  nested : ∀ s ∈ style, NestedStyle s

theorem nestedStyleIfAny_some {style : Style} (h : NestedStyle style) :
    NestedStyleIfAny (some style) :=
  ⟨fun _ hs => Option.some.inj hs ▸ h⟩

instance [Clean n] : Gives (entityStyle? n) NestedStyleIfAny := by
  unfold entityStyle?
  split
  · exact .bind (gives_closureStyle (nestedText_of_literal (by decide))) fun style h =>
      gives_pure (nestedStyleIfAny_some h)
  · exact .bind (gives_closureStyle (nestedText_of_literal (by decide))) fun style h =>
      gives_pure (nestedStyleIfAny_some h)
  · exact .bind inferInstance fun c hc => .after inferInstance fun i =>
      gives_pure (nestedStyleIfAny_some (nestedStyle_numbered (nestedText_of_literal (by decide))))
  · exact .bind (gives_memberStyle (nestedText_of_literal (by decide))
      (nestedText_of_literal (by decide))) fun style h => gives_pure (nestedStyleIfAny_some h)
  · exact gives_pure (nestedStyleIfAny_some ⟨nestedText_of_literal (by decide), nestedText_empty⟩)
  · exact .bind (gives_memberStyle (nestedText_of_literal (by decide))
      (nestedText_of_literal (by decide))) fun style h => gives_pure (nestedStyleIfAny_some h)
  · exact gives_pure ⟨fun style h => nestedStyle_of_fixedStyle? h⟩

end SwiftMangling.Render
