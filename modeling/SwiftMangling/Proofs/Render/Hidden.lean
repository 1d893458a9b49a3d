import SwiftMangling.Proofs.Render.Composed.Rule

/-!
# Hidden modules

The hidden module enters a rendering only where it is decided whether a context is shown, and only
for a module of this name that is neither the standard library nor the module of imported
declarations. So the options with the hidden module and those without one agree on all other nodes,
and render a tree of such nodes alike.
-/

namespace SwiftMangling

namespace Render

/-- Options that agree on the nodes of a tree render it alike. -/
theorem render_congr {N : Node → Prop} [Closed N] {options options' : Options} {tree : Node}
    (h : Concur N options options') (htree : N tree) :
    render options tree = render options' tree := by
  by_cases hheight : tree.height ≤ maxRenderDepth
  -- the two runs start with the same text, in settings that agree on the tree
  · have hstart : Output.Behind "" False ⟨"", false⟩ ⟨"", false⟩ := ⟨rfl, .inr rfl⟩
    have htwins : Setting.Twins N "" False
        (.level options (embeddedSymbol maxEmbedding) maxRenderDepth)
        (.level options' (embeddedSymbol maxEmbedding) maxRenderDepth) :=
      twins_level h False.elim maxRenderDepth
    have hnothing (r : Except RenderError String) : r.map ("" ++ ·) = r := by
      cases r <;> simp [Except.map]
    rw [render_eq hheight, render_eq hheight, (htwins.node htree hstart).map_text, hnothing]
  · unfold render renderWith
    rw [if_pos (Nat.not_le.mp hheight), if_pos (Nat.not_le.mp hheight)]

/-- The node is no module with the name `m`. -/
def NotModule (m : String) (n : Node) : Prop :=
  n.kind = .moduleName → n.text? ≠ some m

variable {options : Options} {m name : String}

/-- Another hidden module makes no difference for a module that is hidden or shown in any case. -/
theorem showsModule_hide (h : m ≠ name ∨ m = Node.standardLibrary ∨ m = Node.importedModule) :
    showsModule (options.hide m) name = showsModule { options with hidden := none } name := by
  have hhidden : m ≠ name → (options.hide m).isHidden name = false := by
    simp [Options.hide, Options.isHidden]
  unfold showsModule
  -- the standard library and the imported module are dealt with before hidden modules
  split
  · rfl
  · split
    · rfl
    · rename_i hstandard himported
      have hne : m ≠ name := by
        rintro rfl
        rcases h with h | rfl | rfl
        · exact h rfl
        · exact hstandard rfl
        · exact himported rfl
      rw [hhidden hne]
      rfl

/-- Away from the hidden module, the options are as if no module was hidden. -/
theorem concur_hide {N : Node → Prop}
    (h : ∀ n, N n → NotModule m n ∨ m = Node.standardLibrary ∨ m = Node.importedModule) :
    Concur N (options.hide m) { options with hidden := none } := by
  refine ⟨fun _ => rfl, fun c hc => ?_⟩
  have hmodule (name : String) (hk : c.kind = .moduleName) (ht : c.text? = some name) :
      showsModule (options.hide m) name = showsModule { options with hidden := none } name := by
    refine showsModule_hide ((h c hc).imp_left fun hnot hname => ?_)
    exact hnot hk (hname ▸ ht)
  unfold showsContext
  congr 1
  split
  next name hk ht => exact hmodule name hk ht
  next => rfl

end Render

open Render

/-- Hiding a module makes no difference to a tree without a module of this name, and hiding the
standard library or the module of imported declarations makes none at all: the rendering is the one
that no hidden module gives, and so is the error if there is one. -/
theorem render_hide {options : Options} {m : String} {tree : Node}
    (h : tree.Everywhere (NotModule m) ∨ m = Node.standardLibrary ∨ m = Node.importedModule) :
    render (options.hide m) tree = render { options with hidden := none } tree := by
  rcases h with h | hm
  · exact render_congr (N := Node.Everywhere (NotModule m))
      (concur_hide fun _ hn => .inl hn.here) h
  · exact render_congr (N := fun _ => True) (concur_hide fun _ _ => .inr hm) trivial

/-- A structure of another module, and the standard library, which cannot be hidden. -/
theorem render_hide_other :
    render (Options.full.hide "main") (.branch .structureType [.module "Other", .identifier "S"]) =
      .ok "Other.S" ∧
    render (Options.full.hide "Swift") (.standardType .structureType "Int") = .ok "Swift.Int" := by
  have hnot : (Node.branch .structureType [.module "Other", .identifier "S"]).Everywhere
      (NotModule "main") := by
    refine .intro nofun ?_
    simp only [Node.branch, List.forall_mem_cons]
    exact ⟨.intro (fun _ => by decide) nofun, .intro nofun nofun, nofun⟩
  exact ⟨(render_hide (.inl hnot)).trans rfl, (render_hide (.inr (.inl rfl))).trans rfl⟩

end SwiftMangling
