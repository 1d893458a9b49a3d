import SwiftMangling.Proofs.Node.Height
import SwiftMangling.Proofs.Render.Composed.Rule

/-!
# One word for all specializations

Without descriptions of specializations, the first header of a specialized symbol is printed as the
word `specialized`, and the others as nothing. The rest of the symbol is printed as it would be
without headers, but behind this word, which no rule for the rest can see.
-/

namespace SwiftMangling

namespace Render

variable {options : Options} {S : Setting} {n : Node} {cs specs rest : List Node}

/-- The node is no header of a specialized symbol. -/
def NotSpecialization (n : Node) : Prop :=
  n.kind.isSpecialization = false

/-- The output once the symbol has been said to be specialized. -/
def Output.announced (o : Output) : Output :=
  if o.saidSpecialized then o else ⟨o.text ++ "specialized ", true⟩

/-- What has been said once is not said again. -/
theorem Output.announced_announced (o : Output) : o.announced.announced = o.announced := by
  obtain ⟨text, _ | _⟩ := o <;> rfl

theorem printSpecialization_announces (hS : S.options.has .genericSpecializations = false)
    (description start : String) (o : Output) :
    printSpecialization n description start S o = .ok ((), o.announced) := by
  unfold printSpecialization
  show (if S.options.has .genericSpecializations = true then _ else _ : Printer Unit) S o = _
  rw [hS]
  obtain ⟨text, _ | _⟩ := o <;> rfl

/-- The kinds of headers are printed by the rule for specializations. -/
theorem rule_specialization (hn : n.kind.isSpecialization = true) : ∃ description start,
    rule n false = printSpecialization n description start >>= fun _ => pure none := by
  obtain ⟨kind, payload, children, height⟩ := n
  rcases Bool.or_eq_true_iff.mp hn with hk | hk
  · obtain rfl : kind = .functionSignatureSpecialization := beq_iff_eq.mp hk
    exact ⟨_, _, rfl⟩
  · dsimp only at hk
    unfold Kind.isGenericSpecialization at hk
    split at hk
    case h_8 => cases hk
    all_goals exact ⟨_, _, rfl⟩

theorem write_empty : write "" = pure () := by
  funext S o
  show Except.ok ((), { o with text := o.text ++ "" }) = _
  rw [String.append_empty]
  rfl

/-- Without a separator, nodes are printed one by one. -/
theorem printSeparated_empty_cons (n : Node) (ns : List Node) :
    printSeparated "" (n :: ns) = print n >>= fun _ => printSeparated "" ns := by
  cases ns with
  | nil => exact (bind_pure (print n)).symm
  | cons m ns =>
    rw [printSeparated, write_empty]
    · simp only [pure_bind]
    · exact List.cons_ne_nil m ns

/-- In front of other nodes, the first header is printed as the word, and the others as nothing. -/
theorem printSeparated_specializations
    (hS : ∀ n ∈ specs, ∀ o, S.node n false o = .ok (none, o.announced)) (hne : specs ≠ [])
    (o : Output) :
    printSeparated "" (specs ++ rest) S o = printSeparated "" rest S o.announced := by
  -- by induction on the headers: the first one sets the word, and saying it again changes nothing
  induction specs generalizing o with
  | nil => exact absurd rfl hne
  | cons n specs ih =>
    rw [List.forall_mem_cons] at hS
    have hprint : print n S o = .ok ((), o.announced) := by
      show ((S.node n false o).bind fun r => Except.ok ((), r.2)) = _
      rw [hS.1 o]
      rfl
    rw [List.cons_append, printSeparated_empty_cons]
    show ((print n S o).bind fun r => printSeparated "" (specs ++ rest) S r.2) = _
    rw [hprint]
    show printSeparated "" (specs ++ rest) S o.announced = _
    by_cases hspecs : specs = []
    · rw [hspecs, List.nil_append]
    · rw [ih hS.2 hspecs, o.announced_announced]

/-- A symbol is rendered by printing its parts one after the other. -/
theorem render_global (h : (Node.branch .global cs).height ≤ maxRenderDepth) :
    render options (.branch .global cs) =
      (printSeparated "" cs (.level options (embeddedSymbol maxEmbedding) (maxRenderDepth - 1))
        ⟨"", false⟩).map (·.2.text) := by
  have hrule : rule (.branch .global cs) false = printSeparated "" cs >>= fun _ => pure none := by
    show (printSeparated "" cs >>= fun _ => pure ()) >>= (fun _ => pure none) = _
    simp only [bind_assoc, pure_bind]
  rw [render_eq h]
  show (rule (.branch .global cs) false (.level options (embeddedSymbol maxEmbedding)
    (maxRenderDepth - 1)) ⟨"", false⟩).map (·.2.text) = _
  rw [hrule]
  generalize Setting.level options (embeddedSymbol maxEmbedding) (maxRenderDepth - 1) = S
  show ((printSeparated "" cs S ⟨"", false⟩).bind fun r => .ok (none, r.2)).map (·.2.text) = _
  cases printSeparated "" cs S ⟨"", false⟩ <;> rfl

/-- One level down, a header is printed as the word, if it has not been said before. -/
theorem node_specialization (hoptions : options.has .genericSpecializations = false)
    (hn : n.kind.isSpecialization = true) (embedded : String → String) (depth : Nat) (o : Output) :
    (Setting.level options embedded (depth + 1)).node n false o = .ok (none, o.announced) := by
  obtain ⟨description, start, hrule⟩ := rule_specialization hn
  have hrun := printSpecialization_announces (n := n) (S := .level options embedded depth)
    hoptions description start o
  show rule n false (.level options embedded depth) o = _
  rw [hrule]
  show ((printSpecialization n description start (.level options embedded depth) o).bind
    fun r => .ok (none, r.2)) = _
  rw [hrun]
  rfl

end Render

open Render

/-- If specializations are not described, the rendering of a symbol with headers is the word
`specialized` in front of the rendering of the rest, whatever the headers are and however many there
are; and the error is the one that the rest causes. -/
theorem render_specialized {options : Options} {specs rest : List Node}
    (hoptions : options.has .genericSpecializations = false) (hne : specs ≠ [])
    (hspecs : ∀ n ∈ specs, n.kind.isSpecialization = true)
    (hrest : ∀ n ∈ rest, n.Everywhere NotSpecialization)
    (hheight : (Node.branch .global (specs ++ rest)).height ≤ maxRenderDepth) :
    render options (.branch .global (specs ++ rest)) =
      (render options (.branch .global rest)).map ("specialized " ++ ·) := by
  have hlower : (Node.branch .global rest).height ≤ maxRenderDepth := by
    simp only [Node.height_branch, Node.top_append] at hheight ⊢
    omega
  have hheaders : printSeparated "" (specs ++ rest) (.level options (embeddedSymbol maxEmbedding)
      (maxRenderDepth - 1)) ⟨"", false⟩ = printSeparated "" rest
        (.level options (embeddedSymbol maxEmbedding) (maxRenderDepth - 1))
        ⟨"specialized ", true⟩ :=
    printSeparated_specializations (fun n hn o => node_specialization hoptions (hspecs n hn)
      (embeddedSymbol maxEmbedding) (maxRenderDepth - 2) o) hne ⟨"", false⟩
  -- the rest is printed behind the word as it is at the start
  have hsilent : True → ∀ n : Node, n.Everywhere NotSpecialization →
      n.kind.isSpecialization = false := fun _ _ hn => hn.here
  have htwins : Setting.Twins (Node.Everywhere NotSpecialization) "specialized " True
      (.level options (embeddedSymbol maxEmbedding) (maxRenderDepth - 1))
      (.level options (embeddedSymbol maxEmbedding) (maxRenderDepth - 1)) :=
    twins_level ⟨fun _ => rfl, fun _ _ => rfl⟩ hsilent (maxRenderDepth - 1)
  have : AllWithin (Node.Everywhere NotSpecialization) rest := ⟨hrest⟩
  have hprints : Prints (Node.Everywhere NotSpecialization) (printSeparated "" rest) :=
    inferInstance
  have hsame := hprints.composed.same htwins
    (show Output.Behind "specialized " True ⟨"specialized ", true⟩ ⟨"", false⟩ from
      ⟨rfl, .inl trivial⟩)
  calc render options (.branch .global (specs ++ rest))
      = (printSeparated "" (specs ++ rest) (.level options (embeddedSymbol maxEmbedding)
          (maxRenderDepth - 1)) ⟨"", false⟩).map (·.2.text) := render_global hheight
    _ = (printSeparated "" rest (.level options (embeddedSymbol maxEmbedding)
          (maxRenderDepth - 1)) ⟨"specialized ", true⟩).map (·.2.text) :=
        congrArg (Except.map (·.2.text)) hheaders
    _ = ((printSeparated "" rest (.level options (embeddedSymbol maxEmbedding)
          (maxRenderDepth - 1)) ⟨"", false⟩).map (·.2.text)).map ("specialized " ++ ·) :=
        hsame.map_text
    _ = (render options (.branch .global rest)).map ("specialized " ++ ·) := by
        rw [render_global hlower]

/-- Two headers, one of them with contents that could not be described, in front of a function. -/
theorem render_specialized_function :
    render .simplified (.branch .global [
      .branch .genericSpecialization [.leaf .global, .leaf .type],
      .leaf .functionSignatureSpecialization,
      .branch .structureType [.module "main", .identifier "Foo"]]) = .ok "specialized Foo" := by
  have hname {s : String} {k : Kind} (hk : k.isSpecialization = false) :
      (Node.ofText k s).Everywhere NotSpecialization := .intro hk nofun
  let rest := [Node.branch .structureType [.module "main", .identifier "Foo"]]
  have hrest : ∀ n ∈ rest, n.Everywhere NotSpecialization := by
    rw [List.forall_mem_singleton]
    refine .intro rfl ?_
    simp only [Node.branch, List.forall_mem_cons]
    exact ⟨hname rfl, hname rfl, nofun⟩
  have hspecialized : render .simplified (.branch .global (
      [.branch .genericSpecialization [.leaf .global, .leaf .type],
        .leaf .functionSignatureSpecialization] ++ rest)) =
      (render .simplified (.branch .global rest)).map ("specialized " ++ ·) :=
    render_specialized (by decide) (by simp) (by decide) hrest (by decide)
  exact hspecialized.trans rfl

end SwiftMangling
