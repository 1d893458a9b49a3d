import Mathlib.Data.Option.Basic
import SwiftMangling.Proofs.Render.Balanced.Entity
import SwiftMangling.Proofs.Render.Balanced.Symbol

/-!
# Clean trees are rendered with nested brackets

Every template and every rule is balanced on a clean node, so by induction on the depth printing a
clean tree leaves no bracket open.
-/

set_option synthInstance.maxSize 100000

namespace SwiftMangling

namespace Render

open Brackets

variable {n c : Node} {s : String} {t u : Trace} {i : Nat} {ps : List Piece} {k : Kind}

/-! ## Templates -/

instance [Spells s t] : Writes (printPiece n (.text s)) t :=
  inferInstanceAs (Writes (write s) t)

instance {f : Flag} [h : Spells s t] :
    Writes (printPiece n (.textUnless f s)) (.seq .nothing (.either t .nothing)) :=
  inferInstanceAs (Writes (do if !(← flag f) then write s) _)

instance [Clean n] : Balanced (printPiece n (.child i)) :=
  inferInstanceAs (Balanced (printChild n i))

instance [Clean n] : Balanced (printPiece n (.childIfAny i)) :=
  inferInstanceAs (Balanced (printChildIfAny n i))

instance [Spells s t] [Clean n] : Writes (printPiece n (.children s)) (.loop t) :=
  inferInstanceAs (Writes (printChildren n s) _)

instance : Balanced (printPieces n []) :=
  inferInstanceAs (Balanced (pure ()))

instance {p : Piece} [Writes (printPiece n p) t] [Writes (printPieces n ps) u] :
    Writes (printPieces n (p :: ps)) (.seq t u) :=
  inferInstanceAs (Writes (do printPiece n p; printPieces n ps) _)

theorem balanced_of_typeTemplate? [Clean n] (h : typeTemplate? k = some ps) :
    Balanced (printPieces n ps) := by
  unfold typeTemplate? described at h
  split at h <;> cases h
  all_goals exact balanced_of_trace (by decide)

theorem balanced_of_witnessTemplate? [Clean n] (h : witnessTemplate? k = some ps) :
    Balanced (printPieces n ps) := by
  unfold witnessTemplate? described describedAll associated typeAndConformance at h
  split at h <;> cases h
  all_goals exact balanced_of_trace (by decide)

theorem balanced_of_thunkTemplate? [Clean n] (h : thunkTemplate? k = some ps) :
    Balanced (printPieces n ps) := by
  unfold thunkTemplate? described outlined at h
  split at h <;> cases h
  all_goals exact balanced_of_trace (by decide)

theorem balanced_of_metadataTemplate? [Clean n] (h : metadataTemplate? k = some ps) :
    Balanced (printPieces n ps) := by
  unfold metadataTemplate? described at h
  split at h <;> cases h
  all_goals exact balanced_of_trace (by decide)

/-- The fixed texts of a template are balanced together, although not each of them alone. -/
theorem balanced_of_template? [Clean n] (h : template? k = some ps) :
    Balanced (printPieces n ps) := by
  rcases (Option.orElse_eq_some _ _ _).mp h with h | ⟨-, h⟩
  · exact balanced_of_typeTemplate? h
  rcases (Option.orElse_eq_some _ _ _).mp h with h | ⟨-, h⟩
  · exact balanced_of_witnessTemplate? h
  rcases (Option.orElse_eq_some _ _ _).mp h with h | ⟨-, h⟩
  · exact balanced_of_thunkTemplate? h
  · exact balanced_of_metadataTemplate? h

/-! ## Rules -/

instance [Clean n] : Balanced (printTypeMangling n) := by
  unfold printTypeMangling
  exact balanced_of_trace (by decide)

instance [Spells s t] [Clean n] : Writes (printOperator n s) (.seq .nothing t) :=
  inferInstanceAs (Writes (do write (← textOf n); write s) _)

theorem balanced_printActor [Clean n] : Balanced (match n.first? with
    | some actor => do
      write "@"
      print actor
      write " "
    | none => pure () : Printer Unit) := by
  cases hc : n.first? with
  | none => infer_instance
  | some c =>
    have : Clean c := .of_eq hc
    exact balanced_of_trace (by decide)

/-- Every rule for names, numbers and types is balanced. -/
theorem balanced_of_printTypeNode? {p : Printer Unit} [Clean n] (h : printTypeNode? n = some p) :
    Balanced p := by
  unfold printTypeNode? at h
  split at h <;> cases h
  all_goals first
    | exact balanced_of_trace (by decide)
    | exact balanced_printActor
    | exact balanced_printSymbolicReference (nestedText_of_literal (by decide))
    | exact balanced_printDependentConformance (nestedText_of_literal (by decide))

/-- Every rule for the parts of whole symbols is balanced. -/
theorem balanced_of_printSymbolNode? {p : Printer Unit} [Clean n]
    (h : printSymbolNode? n = some p) : Balanced p := by
  unfold printSymbolNode? at h
  split at h
  -- the kinds of specializations
  case h_32 =>
    obtain ⟨⟨description, start⟩, htext, rfl⟩ := Option.map_eq_some_iff.mp h
    obtain ⟨hdescription, hstart⟩ := nestedText_of_specializationText? htext
    exact balanced_printSpecialization
  all_goals
    rename_i hk
    cases h
  all_goals first
    | exact balanced_of_trace (by decide)
    | exact balanced_printParamPayload hk

instance [Clean n] : Balanced (printPlain n) := by
  unfold printPlain
  split
  · rename_i pieces htemplate
    exact balanced_of_template? htemplate
  · split
    · rename_i p hp
      rcases (Option.orElse_eq_some _ _ _).mp hp with hp | ⟨-, hp⟩
      · exact balanced_of_printTypeNode? hp
      · exact balanced_of_printSymbolNode? hp
    · exact balanced_of_trace (by decide)

instance {asContext : Bool} [Clean n] : Gives (rule n asContext) CleanIfAny := by
  unfold rule
  split
  · rename_i name hname
    have := nestedText_of_accessorName? hname
    exact .bind inferInstance fun c hc => inferInstance
  · refine .bind inferInstance fun style hstyle => ?_
    cases style with
    | none => exact .after inferInstance fun _ => gives_pure inferInstance
    | some style =>
      have := hstyle.nested style rfl
      infer_instance

/-! ## Whole trees -/

/-- Printing nodes down to a depth is balanced, because every rule is as long as the nodes below are
printed that way. -/
theorem balanced_printNode {options : Options} {embedded : String → String}
    (hembedded : ∀ s, decode (Utf8.encode s) = none → embedded s = s) (d : Nat) :
    Setting.Balanced ⟨options, embedded, printNode options embedded d⟩ := by
  induction d with
  | zero => exact ⟨fun _ h => (nomatch h), hembedded⟩
  | succ d ih =>
    refine ⟨fun {n b o m o' st} hn h ho => ?_, hembedded⟩
    have hrule : Gives (rule n b) CleanIfAny := inferInstance
    exact hrule.run ih h ho

/-- A text that is no symbol is printed as it is. -/
theorem embeddedSymbol_of_decode (d : Nat) (h : decode (Utf8.encode s) = none) :
    embeddedSymbol d s = s := by
  cases d with
  | zero => rfl
  | succ d => simp only [embeddedSymbol, h]

end Render

open Brackets Render

/-- The brackets of a rendered tree are nested if those of all its texts are, and no text that would
be shown as a symbol is one. -/
theorem nested_of_render {options : Options} {tree : Node} {text : String}
    (hclean : tree.Everywhere CleanText) (h : render options tree = .ok text) :
    Nested text.toList := by
  have hS : Setting.Balanced ⟨options, embeddedSymbol maxEmbedding,
      printNode options (embeddedSymbol maxEmbedding) maxRenderDepth⟩ :=
    balanced_printNode (fun _ => embeddedSymbol_of_decode maxEmbedding) maxRenderDepth
  unfold render renderWith at h
  split at h
  · cases h
  · split at h
    · rename_i m o hprint
      cases h
      exact nested_iff.mpr (hS.node ⟨hclean⟩ hprint rfl).1
    · cases h

/-- An array of a type whose name has brackets, behind a text with brackets. -/
theorem nested_of_render_array :
    render .full (.branch .global
      [.paramPayload "f(x)", .branch .sugaredArray [.identifier "A(B)"]]) = .ok "f(x)[A(B)]" ∧
      Nested "f(x)[A(B)]".toList := by
  have hbranch {k : Kind} {cs : List Node} (h : ∀ c ∈ cs, c.Everywhere CleanText) :
      (Node.branch k cs).Everywhere CleanText :=
    .intro (fun _ h => nomatch h) h
  have hpayload : (Node.paramPayload "f(x)").Everywhere CleanText := by
    refine .intro ?_ nofun
    rintro s ⟨⟩
    exact ⟨by decide, fun _ => rfl⟩
  have hname : (Node.identifier "A(B)").Everywhere CleanText := by
    refine .intro ?_ nofun
    rintro s ⟨⟩
    exact ⟨by decide, nofun⟩
  have harray : (Node.branch .sugaredArray [.identifier "A(B)"]).Everywhere CleanText :=
    hbranch (List.forall_mem_singleton.mpr hname)
  have hrender : render .full (.branch .global
      [.paramPayload "f(x)", .branch .sugaredArray [.identifier "A(B)"]]) = .ok "f(x)[A(B)]" := rfl
  refine ⟨hrender, nested_of_render (hbranch ?_) hrender⟩
  exact List.forall_mem_cons.mpr ⟨hpayload, List.forall_mem_singleton.mpr harray⟩

end SwiftMangling
