import SwiftMangling.Proofs.Range.Text
import SwiftMangling.Proofs.Render.Composed.Rule

/-!
# The level of the printer

A printer counts the nodes that it is inside of: one more before a node is printed and one less
behind it, also behind an error. It is one count for a whole tree, so behind a node the count is
lowered from whatever the nodes below have left it at.

`Run` follows a printer with the count as a part of the state. It has an outcome of its own for a
count that would fall below zero. The printer that runs has no count and is told how many levels are
left; `run_node_iff` says that both have the same result, and that the counting one ends on the
level on which it has started. The count is one more inside of a node than it was before, because
every rule leaves it as it finds it, by induction on the levels that are left.
-/

namespace SwiftMangling.Indexed.Render

open Access (sub sub_of_le)
open SwiftMangling.Render

variable {α β : Type} {options : Options} {embedded : String → String} {level : Nat} {n : Node}
  {asContext : Bool} {o : Output}

/-- How a run with a count ends. -/
inductive Outcome (α : Type) where
  /-- With a result or an error, on a level. -/
  | ends (result : Except RenderError (α × Output)) (level : Nat)
  /-- With a level below zero. -/
  | outOfRange

/-- What becomes of an outcome where a node is left. -/
def Outcome.leave : Outcome α → Outcome α
  | .ends result level =>
    match sub level 1 with
    | some level => .ends result level
    | none => .outOfRange
  | .outOfRange => .outOfRange

/-- The printer has an outcome if it starts on a level behind an output. -/
inductive Run (options : Options) (embedded : String → String) :
    {α : Type} → Printer α → Nat → Output → Outcome α → Prop where
  /-- Whatever prints no node stays on its level. -/
  | plain {α : Type} (x : Emit α) (level : Nat) (o : Output) :
    Run options embedded (fun _ => x) level o (.ends (x o) level)
  /-- The options and how symbols are shown are the same all along. -/
  | ask {α : Type} {f : Options → (String → String) → Printer α} {level : Nat} {o : Output}
    {r : Outcome α} (hf : Run options embedded (f options embedded) level o r) :
    Run options embedded (fun S => f S.options S.embedded S) level o r
  | bind {α β : Type} {p : Printer α} {f : α → Printer β} {level next : Nat} {o o' : Output} {a : α}
    {r : Outcome β} (hp : Run options embedded p level o (.ends (.ok (a, o')) next))
    (hf : Run options embedded (f a) next o' r) : Run options embedded (p >>= f) level o r
  | bind_error {α β : Type} {p : Printer α} {f : α → Printer β} {level next : Nat} {o : Output}
    {e : RenderError} (hp : Run options embedded p level o (.ends (.error e) next)) :
    Run options embedded (p >>= f) level o (.ends (.error e) next)
  | bind_outOfRange {α β : Type} {p : Printer α} {f : α → Printer β} {level : Nat} {o : Output}
    (hp : Run options embedded p level o .outOfRange) :
    Run options embedded (p >>= f) level o .outOfRange
  /-- No node is entered on the last level. -/
  | tooDeep {n : Node} {asContext : Bool} {level : Nat} {o : Output}
    (h : maxRenderDepth ≤ level) :
    Run options embedded (fun S => S.node n asContext) level o (.ends (.error .tooComplex) level)
  /-- A node is printed on the next level, which is left behind it. -/
  | node {n : Node} {asContext : Bool} {level : Nat} {o : Output} {r : Outcome (Option Node)}
    (h : level < maxRenderDepth) (hr : Run options embedded (rule n asContext) (level + 1) o r) :
    Run options embedded (fun S => S.node n asContext) level o r.leave

/-- The outcome of the printer that runs, with as many levels left as there are above `level`. -/
def outcome (options : Options) (embedded : String → String) (p : Printer α) (level : Nat)
    (o : Output) : Outcome α :=
  .ends (p (.level options embedded (maxRenderDepth - level)) o) level

/-- The level that has been entered is left again. -/
theorem leave_ends (result : Except RenderError (α × Output)) (level : Nat) :
    (Outcome.ends result (level + 1)).leave = .ends result level := by
  have hsub : sub (level + 1) 1 = some level := sub_of_le (Nat.le_add_left 1 level)
  rw [Outcome.leave, hsub]

/-- Below the last level, a node is printed by its rule with one level less. -/
theorem node_level (h : level < maxRenderDepth) (n : Node) (asContext : Bool) :
    (Setting.level options embedded (maxRenderDepth - level)).node n asContext =
      rule n asContext (.level options embedded (maxRenderDepth - (level + 1))) := by
  have hleft : maxRenderDepth - level = maxRenderDepth - (level + 1) + 1 := by omega
  rw [hleft]
  rfl

theorem run_bind_of_ok {p : Printer α} {f : α → Printer β} {S : Setting} {a : α} {o' : Output}
    (h : p S o = .ok (a, o')) : (p >>= f) S o = f a S o' := by
  show ((p S o).bind fun r => f r.1 S r.2) = _
  rw [h]
  rfl

theorem run_bind_of_error {p : Printer α} {f : α → Printer β} {S : Setting} {e : RenderError}
    (h : p S o = .error e) : (p >>= f) S o = .error e := by
  show ((p S o).bind fun r => f r.1 S r.2) = _
  rw [h]
  rfl

/-! ## The outcome of a run -/

/-- Every run has the outcome of the printer that runs. -/
theorem Run.eq_outcome {p : Printer α} {r : Outcome α} (h : Run options embedded p level o r)
    (hl : level ≤ maxRenderDepth) : r = outcome options embedded p level o := by
  -- by induction on the run; inside of a node the level is one more, and it ends where it started
  induction h with
  | plain x level o => rfl
  | ask hf ih => exact ih hl
  | @bind α β p f level next o o' a r hp hf ihp ihf =>
    obtain ⟨hok, rfl⟩ := Outcome.ends.inj (ihp hl)
    rw [ihf hl, outcome, outcome, run_bind_of_ok hok.symm]
  | @bind_error α β p f level next o e hp ihp =>
    obtain ⟨herror, rfl⟩ := Outcome.ends.inj (ihp hl)
    rw [outcome, run_bind_of_error herror.symm]
  | bind_outOfRange hp ihp => exact nomatch ihp hl
  | @tooDeep n asContext level o h =>
    have hnone : maxRenderDepth - level = 0 := Nat.sub_eq_zero_of_le h
    rw [outcome, hnone]
    rfl
  | @node n asContext level o r h hr ih =>
    rw [ih h, outcome, outcome, leave_ends, node_level h]

/-! ## Runs -/

/-- Two printers run one after the other. -/
theorem run_bind {p : Printer α} {f : α → Printer β}
    (hp : Run options embedded p level o (outcome options embedded p level o))
    (hf : ∀ a o', p (.level options embedded (maxRenderDepth - level)) o = .ok (a, o') →
      Run options embedded (f a) level o' (outcome options embedded (f a) level o')) :
    Run options embedded (p >>= f) level o (outcome options embedded (p >>= f) level o) := by
  unfold outcome at hp hf ⊢
  cases hresult : p (.level options embedded (maxRenderDepth - level)) o with
  | ok r =>
    obtain ⟨a, o'⟩ := r
    rw [hresult] at hp
    rw [run_bind_of_ok hresult]
    exact .bind hp (hf a o' hresult)
  | error e =>
    rw [hresult] at hp
    rw [run_bind_of_error hresult]
    exact .bind_error hp

/-- The results of a printer that is put together from the shared operations. -/
theorem result_of_composed {p : Printer α} {Q : α → Prop} {d : Nat} {a : α} {o' : Output}
    (h : Composed (fun _ => True) p Q) (hrun : p (.level options embedded d) o = .ok (a, o')) :
    Q a := by
  have htwins : Setting.Twins (fun _ => True) "" False (.level options embedded d)
      (.level options embedded d) := twins_level ⟨fun _ => rfl, fun _ _ => rfl⟩ False.elim d
  have ho : o.Behind "" False o := ⟨String.empty_append.symm, .inr rfl⟩
  have hsame := h.same htwins ho
  rw [hrun] at hsame
  exact hsame.2.1

/-- A setting in which no node can be printed. -/
def nodeless (options : Options) (embedded : String → String) : Setting :=
  ⟨options, embedded, fun _ _ => throw .tooComplex⟩

/-- A printer put together from the shared operations runs, if the nodes that it prints do. -/
theorem run_of_composed {p : Printer α} {Q : α → Prop} (h : Composed (fun _ => True) p Q)
    (hnode : ∀ n asContext o, Run options embedded (fun S => S.node n asContext) level o
      (outcome options embedded (fun S => S.node n asContext) level o)) (o : Output) :
    Run options embedded p level o (outcome options embedded p level o) := by
  -- by induction on the operations that it is put together from
  induction h generalizing o with
  | @ret α a Q ha => exact .plain (pure a) level o
  | @fail α Q e => exact .plain (throw e) level o
  | bind hp hf ihp ihf =>
    exact run_bind (ihp o) fun a o' hok => ihf a (result_of_composed hp hok) o'
  | write s => exact .plain (modify fun o => { o with text := o.text ++ s }) level o
  | @ask α f Q hf hagree ih =>
    -- what is asked for does not depend on how nodes are printed
    have hask : (read >>= f : Printer α) = fun S => f (nodeless S.options S.embedded) S :=
      funext fun S => congrFun (hagree S (nodeless S.options S.embedded)
        ⟨⟨fun _ => rfl, fun _ _ => rfl⟩, rfl⟩) S
    rw [hask]
    exact .ask (f := fun options embedded => f (nodeless options embedded)) (ih _ o)
  | @node n asContext hn => exact hnode n asContext o
  | @compare α β p f P Q hp hf ihp ihf =>
    have hwritten (o : Output) : Run options embedded written level o
        (outcome options embedded written level o) :=
      .plain (do return (← get).text.utf8ByteSize) level o
    refine run_bind (hwritten o) fun before o₁ _ => run_bind (ihp o₁) fun a o₂ hok => ?_
    exact run_bind (hwritten o₂) fun after o₃ _ => ihf a _ (result_of_composed hp hok) o₃
  | @askSaid α f Q hN hf ih =>
    exact run_bind (.plain get level o) fun said o' _ => ih _ o'
  | announce hN => exact .plain (modify fun o => { o with saidSpecialized := true }) level o

/-- Every node runs on every level up to the last one. -/
theorem run_node (hl : level ≤ maxRenderDepth) (n : Node) (asContext : Bool) (o : Output) :
    Run options embedded (fun S => S.node n asContext) level o
      (outcome options embedded (fun S => S.node n asContext) level o) := by
  induction hd : maxRenderDepth - level generalizing level n asContext o with
  | zero =>
    rw [outcome, hd]
    exact .tooDeep (Nat.sub_eq_zero_iff_le.mp hd)
  | succ d ih =>
    have hlt : level < maxRenderDepth := by omega
    have : Within (fun _ => True) n := ⟨trivial⟩
    have hrule : Run options embedded (rule n asContext) (level + 1) o
        (outcome options embedded (rule n asContext) (level + 1) o) :=
      run_of_composed (composed_rule (N := fun _ => True))
        (fun n asContext o => ih hlt n asContext o (by omega)) o
    have hrun := Run.node hlt hrule
    rwa [outcome, leave_ends, ← node_level hlt] at hrun

/-- A node has one outcome on every level up to the last one, which is the result of the printer
that runs and the level itself. -/
theorem run_node_iff {r : Outcome (Option Node)} (hl : level ≤ maxRenderDepth) :
    Run options embedded (fun S => S.node n asContext) level o r ↔
      r = .ends (printNode options embedded (maxRenderDepth - level) n asContext o) level := by
  refine ⟨fun h => h.eq_outcome hl, fun h => ?_⟩
  rw [h]
  exact run_node hl n asContext o

end SwiftMangling.Indexed.Render
