import SwiftMangling.Proofs.Decoding

/-!
# Loops that end

The loops of the decoders run until something comes or runs out, and are given a number of rounds
that is meant to be large enough. A loop's body, with the rest of the loop as a parameter, states
the loop without such a number: the loop is a solution of `body d = d`. If the body runs the rest of
the loop only after some measure of the state has gone down, there is exactly one solution, and it
is the loop with as many rounds as the measure says. A loop that could run forever would leave its
outcome open: any failure that is handed through would solve the equation.
-/

namespace SwiftMangling.Decoding

variable {ρ σ α β γ : Type} {μ : σ → Nat} {m : Nat}

/-! ## Measures of the state -/

/-- The decoding does not raise the measure. -/
class Sinks (μ : σ → Nat) (d : Decoding ρ σ α) : Prop where
  le : ∀ r s, μ (d r s).2 ≤ μ s

/-- The decoding lowers the measure if its result satisfies `P`. -/
def Lowers (μ : σ → Nat) (P : α → Prop) (d : Decoding ρ σ α) : Prop :=
  ∀ r s a, (d r s).1 = some a → P a → μ (d r s).2 < μ s

theorem Sinks.bind {d : Decoding ρ σ α} {f : α → Decoding ρ σ β} (hd : Sinks μ d)
    (hf : ∀ a, Sinks μ (f a)) : Sinks μ (d >>= f) where
  le r s := by
    have hle := hd.le r s
    rw [run_bind]
    revert hle
    rcases d r s with ⟨_ | a, t⟩
    · exact id
    · exact fun hle => Nat.le_trans ((hf a).le r t) hle

instance {d : Decoding ρ σ α} {f : α → Decoding ρ σ β} [hd : Sinks μ d] [hf : ∀ a, Sinks μ (f a)] :
    Sinks μ (d >>= f) :=
  hd.bind hf

instance {a : α} : Sinks μ (pure a : Decoding ρ σ α) :=
  ⟨fun _ _ => Nat.le_refl _⟩

instance : Sinks μ (failure : Decoding ρ σ α) :=
  ⟨fun _ _ => Nat.le_refl _⟩

instance {b : Bool} : Sinks μ (require b : Decoding ρ σ Unit) := by
  unfold require
  split
  · infer_instance
  · exact ⟨fun _ _ => Nat.le_refl _⟩

instance {d : Decoding ρ σ α} [hd : Sinks μ d] : Sinks μ (attempt d) :=
  ⟨fun r s => hd.le r s⟩

instance {d : Decoding ρ σ α} [Sinks μ d] {n : Nat} : Sinks μ (many n d) := by
  induction n with
  | zero => exact inferInstanceAs (Sinks μ (pure []))
  | succ n ih =>
    refine .bind (d := attempt d) inferInstance fun m => ?_
    cases m <;> dsimp only <;> infer_instance

/-- What follows may lower the measure where the first step has not. -/
theorem Lowers.bind {P : α → Prop} {Q : β → Prop} {d : Decoding ρ σ α} {f : α → Decoding ρ σ β}
    (hd : Lowers μ P d) (hle : Sinks μ d) (hf : ∀ a, Sinks μ (f a))
    (hno : ∀ a, ¬ P a → Lowers μ Q (f a)) : Lowers μ Q (d >>= f) := by
  intro r s b hb hQ
  have hlt := hd r s
  have hle := hle.le r s
  rw [run_bind] at hb ⊢
  revert hb hlt hle
  rcases d r s with ⟨_ | a, t⟩
  · intro hb
    cases hb
  · intro hb hlt hle
    -- either the first step has lowered the measure and the second keeps it, or the other way round
    by_cases ha : P a
    · exact Nat.lt_of_le_of_lt ((hf a).le r t) (hlt a rfl ha)
    · exact Nat.lt_of_lt_of_le (hno a ha r t b hb hQ) hle

/-- A first step that lowers the measure whatever its result is. -/
theorem Lowers.first {Q : β → Prop} {d : Decoding ρ σ α} {f : α → Decoding ρ σ β}
    (hd : Lowers μ (fun _ => True) d) (hle : Sinks μ d) (hf : ∀ a, Sinks μ (f a)) :
    Lowers μ Q (d >>= f) :=
  hd.bind hle hf fun _ hno => absurd trivial hno

/-- A first step after which the measure goes down. -/
theorem Lowers.next {Q : β → Prop} {d : Decoding ρ σ α} {f : α → Decoding ρ σ β} (hle : Sinks μ d)
    (hf : ∀ a, Lowers μ Q (f a)) : Lowers μ Q (d >>= f) := by
  intro r s b hb hQ
  have hle := hle.le r s
  rw [run_bind] at hb ⊢
  revert hb hle
  rcases d r s with ⟨_ | a, t⟩
  · intro hb
    cases hb
  · exact fun hb hle => Nat.lt_of_lt_of_le (hf a r t b hb hQ) hle

/-! ## Agreement on small states -/

/-- The decodings do the same in every state whose measure is below `m`. -/
def AgreeBelow (μ : σ → Nat) (m : Nat) (d e : Decoding ρ σ α) : Prop :=
  ∀ r s, μ s < m → d r s = e r s

theorem AgreeBelow.refl (d : Decoding ρ σ α) : AgreeBelow μ m d d :=
  fun _ _ _ => rfl

theorem AgreeBelow.trans {d e f : Decoding ρ σ α} (hde : AgreeBelow μ m d e)
    (hef : AgreeBelow μ m e f) : AgreeBelow μ m d f :=
  fun r s hs => (hde r s hs).trans (hef r s hs)

/-- What follows a step that does not raise the measure. -/
theorem AgreeBelow.bind {d : Decoding ρ σ α} {f g : α → Decoding ρ σ β} (hd : Sinks μ d)
    (h : ∀ a, AgreeBelow μ m (f a) (g a)) : AgreeBelow μ m (d >>= f) (d >>= g) := by
  intro r s hs
  have hle := hd.le r s
  rw [run_bind, run_bind]
  revert hle
  rcases d r s with ⟨_ | a, t⟩
  · exact fun _ => rfl
  · exact fun hle => h a r t (Nat.lt_of_le_of_lt hle hs)

/-- What follows a step that lowers the measure need only agree on smaller states. -/
theorem AgreeBelow.after {P : α → Prop} {d : Decoding ρ σ α} {f g : α → Decoding ρ σ β}
    (hd : Sinks μ d) (hlow : Lowers μ P d) (hyes : ∀ a, P a → AgreeBelow μ m (f a) (g a))
    (hno : ∀ a, ¬ P a → AgreeBelow μ (m + 1) (f a) (g a)) :
    AgreeBelow μ (m + 1) (d >>= f) (d >>= g) := by
  intro r s hs
  have hle := hd.le r s
  have hlt := hlow r s
  rw [run_bind, run_bind]
  revert hle hlt
  rcases d r s with ⟨_ | a, t⟩
  · exact fun _ _ => rfl
  · intro hle hlt
    -- behind a step that lowers the measure it is below `m`, otherwise still below `m + 1`
    by_cases ha : P a
    · have := hlt a rfl ha
      exact hyes a ha r t (by dsimp only at this; omega)
    · exact hno a ha r t (by dsimp only at hle; omega)

theorem AgreeBelow.map {d e : Decoding ρ σ α} {f : α → Decoding ρ σ β} (h : AgreeBelow μ m d e) :
    AgreeBelow μ m (d >>= f) (e >>= f) := by
  intro r s hs
  rw [run_bind, run_bind, h r s hs]

theorem AgreeBelow.ite {b : Prop} [Decidable b] {d d' e e' : Decoding ρ σ α}
    (hd : AgreeBelow μ m d d') (he : AgreeBelow μ m e e') :
    AgreeBelow μ m (if b then d else e) (if b then d' else e') := by
  split
  · exact hd
  · exact he

/-! ## Bodies of loops -/

/-- The body runs the rest of the loop on smaller states only. -/
def Contracts (μ : σ → Nat) (body : (γ → Decoding ρ σ α) → γ → Decoding ρ σ α) : Prop :=
  ∀ m d e, (∀ c, AgreeBelow μ m (d c) (e c)) → ∀ c, AgreeBelow μ (m + 1) (body d c) (body e c)

/-- The loop with the given body ends wherever it starts, and does what `d` does: `d` is the only
solution of the loop's equation. -/
def Completes {τ : Type} (body : τ → τ) (d : τ) : Prop :=
  ∀ e, body e = e ↔ e = d

section Rounds

variable {body : (γ → Decoding ρ σ α) → γ → Decoding ρ σ α} {f : Nat → γ → Decoding ρ σ α}

/-- Another round changes nothing in states below the number of rounds. -/
theorem Contracts.agree_succ (h : Contracts μ body) (hstep : ∀ n, f (n + 1) = body (f n))
    (hlast : ∀ c, AgreeBelow μ 1 (f 0 c) (body (f 0) c)) (n : Nat) (c : γ) :
    AgreeBelow μ (n + 1) (f n c) (f (n + 1) c) := by
  induction n generalizing c with
  | zero =>
    rw [hstep]
    exact hlast c
  | succ n ih =>
    rw [hstep (n + 1), hstep n]
    exact h _ _ _ (fun c => by rw [← hstep n]; exact ih c) c

/-- In states of measure at most `n` it takes no more rounds than the measure says. -/
theorem Contracts.agree (h : Contracts μ body) (hstep : ∀ n, f (n + 1) = body (f n))
    (hlast : ∀ c, AgreeBelow μ 1 (f 0 c) (body (f 0) c)) (n : Nat) (c : γ) :
    AgreeBelow μ (n + 1) (f n c) fun r s => f (μ s) c r s := by
  intro r s hs
  -- from as many rounds as the measure says, one more at a time
  obtain ⟨k, rfl⟩ : ∃ k, n = μ s + k := ⟨n - μ s, by omega⟩
  clear hs
  induction k with
  | zero => rfl
  | succ k ih => exact (h.agree_succ hstep hlast (μ s + k) c r s (by omega)).symm.trans ih

/-- A loop whose body contracts ends, and as many rounds as the measure says are enough. -/
theorem Contracts.completes (h : Contracts μ body) (hstep : ∀ n, f (n + 1) = body (f n))
    (hlast : ∀ c, AgreeBelow μ 1 (f 0 c) (body (f 0) c)) :
    Completes body fun c r s => f (μ s) c r s := by
  have hagree := h.agree hstep hlast
  intro e
  constructor
  · intro he
    -- any solution does what the rounds do, by induction on their number
    have hrounds (n : Nat) (c : γ) : AgreeBelow μ (n + 1) (f n c) (e c) := by
      induction n generalizing c with
      | zero =>
        refine (hlast c).trans ?_
        rw [← he]
        exact h 0 _ _ (fun _ _ _ hs => absurd hs (Nat.not_lt_zero _)) c
      | succ n ih =>
        rw [hstep, ← he]
        exact h _ _ _ (fun c => he.symm ▸ ih c) c
    funext c r s
    exact (hrounds (μ s) c r s (Nat.lt_succ_self _)).symm
  · rintro rfl
    funext c r s
    have hbody := h _ _ _ (fun c => hagree (μ s) c) c r s (by omega)
    rw [← hbody, ← hstep]
    exact hagree (μ s + 1) c r s (by omega)

/-- A loop that fails for want of rounds needs one more than the measure says. -/
theorem Contracts.completes_succ (h : Contracts μ body)
    (hstep : ∀ n, f (n + 1) = body (f n)) :
    Completes body fun c r s => f (μ s + 1) c r s := by
  refine h.completes (f := fun n => f (n + 1)) (fun n => hstep (n + 1)) fun c => ?_
  rw [hstep 0]
  exact h 0 _ _ (fun _ _ _ hs => absurd hs (Nat.not_lt_zero _)) c

end Rounds

/-- A loop that carries nothing along. -/
theorem Completes.ofUnit {body : Decoding ρ σ α → Decoding ρ σ α} {d : Decoding ρ σ α}
    (h : Completes (fun go (_ : Unit) => body (go ())) fun _ => d) : Completes body d := by
  intro e
  have := h fun _ => e
  constructor
  · exact fun he => congrFun (this.mp (funext fun _ => he)) ()
  · exact fun he => congrFun (this.mpr (funext fun _ => he)) ()

/-! ## Repetition -/

/-- Runs `x`, and the rest of the loop if it succeeds. -/
def manyBody (x : Decoding ρ σ α) (go : Decoding ρ σ (List α)) : Decoding ρ σ (List α) := do
  match ← attempt x with
  | none => return []
  | some a => return a :: (← go)

/-- Where nothing is left that `x` could take, `x` has to fail without doing anything. -/
theorem completes_many {x : Decoding ρ σ α} [hx : Sinks μ x] (hlow : Lowers μ (fun _ => True) x)
    (hnone : ∀ r s, μ s = 0 → x r s = (none, s)) :
    Completes (manyBody x) fun r s => many (μ s) x r s := by
  -- an element that is found lowers the measure, and one that is not ends the loop
  have hsome : Lowers μ (· ≠ none) (attempt x) := by
    intro r s a ha hne
    obtain ⟨b, hb⟩ := Option.ne_none_iff_exists'.mp hne
    exact hlow r s b ((Option.some.inj ha).trans hb) trivial
  have hcontracts : Contracts μ fun go (_ : Unit) => manyBody x (go ()) := by
    intro m d e hde c
    refine .after inferInstance hsome (fun a _ => ?_) fun a ha => ?_
    · cases a with
      | none => exact .refl _
      | some a => exact (hde ()).map
    · obtain rfl := Classical.not_not.mp ha
      exact .refl _
  refine .ofUnit (hcontracts.completes (f := fun n _ => many n x) (fun n => rfl) fun _ => ?_)
  intro r s hs
  show _ = manyBody x _ r s
  rw [manyBody, run_bind, run_attempt, hnone r s (by omega)]
  rfl

variable [HasCursor σ]

/-- Stops at `c`, and runs `x` and the rest of the loop elsewhere. -/
def untilBody (c : Char) (x : Decoding ρ σ α) (go : Decoding ρ σ (List α)) :
    Decoding ρ σ (List α) := do
  if ← nextIf c then return []
  let a ← x
  return a :: (← go)

theorem contracts_untilBody {c : Char} {x : Decoding ρ σ α} (hc : Sinks μ (nextIf c : Decoding ρ σ _))
    (hx : Sinks μ x) (hlow : Lowers μ (fun _ => True) x) :
    Contracts μ fun go (_ : Unit) => untilBody c x (go ()) := by
  intro m d e hde _
  refine .bind hc fun b => .ite (.refl _) ?_
  exact .after hx hlow (fun a _ => (hde ()).map) fun _ hno => absurd trivial hno

end SwiftMangling.Decoding
