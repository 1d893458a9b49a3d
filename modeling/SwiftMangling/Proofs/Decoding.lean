import SwiftMangling.Decoding

/-!
# Triples for decodings

A decoding that fails keeps the state that it has reached, so a triple has two postconditions: one
for a result with its state, and one for the state after a failure. `Keeps` is the case that all
productions share: an invariant of the state holds before and after, whether the decoding succeeds
or not, and a result has some property.
-/

namespace SwiftMangling.Decoding

variable {ρ σ α β : Type} {R : ρ → Prop} {P : σ → Prop} {E : σ → Prop}

theorem toNat_charOfByte (b : UInt8) : (charOfByte b).toNat = b.toNat := by
  have hlt := b.toNat_lt
  have hvalid : b.toNat.isValidChar := .inl (by omega)
  unfold charOfByte Char.ofNat
  rw [dif_pos hvalid]
  exact BitVec.toNat_ofNatLT ..

/-- Different bytes are different characters. -/
theorem charOfByte_inj {a b : UInt8} : charOfByte a = charOfByte b ↔ a = b := by
  refine ⟨fun h => UInt8.toNat_inj.mp ?_, congrArg charOfByte⟩
  rw [← toNat_charOfByte, h, toNat_charOfByte]

theorem run_bind (d : Decoding ρ σ α) (f : α → Decoding ρ σ β) (r : ρ) (s : σ) :
    (d >>= f) r s =
      match d r s with
      | (some a, t) => f a r t
      | (none, t) => (none, t) :=
  rfl

theorem run_pure (a : α) (r : ρ) (s : σ) : (pure a : Decoding ρ σ α) r s = (some a, s) :=
  rfl

theorem run_bind_of_eq {d : Decoding ρ σ α} {f : α → Decoding ρ σ β} {r : ρ} {s t : σ} {a : α}
    (h : d r s = (some a, t)) : (d >>= f) r s = f a r t := by
  rw [run_bind, h]

/-- Two steps give a result where both do. -/
theorem bind_eq_some_iff {d : Decoding ρ σ α} {f : α → Decoding ρ σ β} {r : ρ} {s u : σ} {b : β} :
    (d >>= f) r s = (some b, u) ↔ ∃ a t, d r s = (some a, t) ∧ f a r t = (some b, u) := by
  rw [run_bind]
  rcases d r s with ⟨_ | a, t⟩
  · simp
  · constructor
    · exact fun h => ⟨a, t, rfl, h⟩
    · rintro ⟨_, _, ⟨⟩, h⟩
      exact h

theorem exists_run_of_isSome {d : Decoding ρ σ α} {r : ρ} {s : σ} (h : (d r s).1.isSome = true) :
    ∃ a t, d r s = (some a, t) := by
  obtain ⟨a, ha⟩ := Option.isSome_iff_exists.mp h
  exact ⟨a, _, Prod.ext ha rfl⟩

theorem require_eq_some_iff {b : Bool} {r : ρ} {s t : σ} :
    require b r s = (some (), t) ↔ b = true ∧ s = t := by
  cases b <;> simp [require, fail, run_pure]

theorem run_attempt (d : Decoding ρ σ α) (r : ρ) (s : σ) :
    attempt d r s = (some (d r s).1, (d r s).2) :=
  rfl

/-- A loop stops at the first step without a result, and keeps what that step did. -/
theorem run_many_succ (n : Nat) (d : Decoding ρ σ α) (r : ρ) (s : σ) :
    many (n + 1) d r s =
      match d r s with
      | (none, t) => (some [], t)
      | (some a, t) => (many n d >>= fun as => pure (a :: as)) r t := by
  rw [many, run_bind, run_attempt]
  rcases d r s with ⟨_ | a, t⟩ <;> rfl

/-- From a context that satisfies `R` and a state that satisfies `P`, the decoding ends with a
result and a state that satisfy `Q`, or fails in a state that satisfies `E`. -/
structure Triple (R : ρ → Prop) (P : σ → Prop) (d : Decoding ρ σ α) (Q : α → σ → Prop)
    (E : σ → Prop) : Prop where
  run : ∀ r s, R r → P s →
    match d r s with
    | (some a, t) => Q a t
    | (none, t) => E t

namespace Triple

variable {d : Decoding ρ σ α} {Q : α → σ → Prop}

theorem mono {P' : σ → Prop} {Q' : α → σ → Prop} {E' : σ → Prop} (h : Triple R P d Q E)
    (hP : ∀ s, P' s → P s) (hQ : ∀ a s, Q a s → Q' a s) (hE : ∀ s, E s → E' s) :
    Triple R P' d Q' E' := by
  refine ⟨fun r s hr hs => ?_⟩
  have := h.run r s hr (hP s hs)
  revert this
  rcases d r s with ⟨_ | a, t⟩
  · exact hE t
  · exact hQ a t

theorem post {Q' : α → σ → Prop} (h : Triple R P d Q E) (hQ : ∀ a s, Q a s → Q' a s) :
    Triple R P d Q' E :=
  h.mono (fun _ h => h) hQ fun _ h => h

theorem pre {P' : σ → Prop} (h : Triple R P d Q E) (hP : ∀ s, P' s → P s) :
    Triple R P' d Q E :=
  h.mono hP (fun _ _ h => h) fun _ h => h

theorem ret {a : α} (h : ∀ s, P s → Q a s) : Triple R P (pure a) Q E :=
  ⟨fun _ s _ hs => h s hs⟩

theorem fail (h : ∀ s, P s → E s) : Triple R P (failure : Decoding ρ σ α) Q E :=
  ⟨fun _ s _ hs => h s hs⟩

theorem bind {f : α → Decoding ρ σ β} {Q' : β → σ → Prop} (hd : Triple R P d Q E)
    (hf : ∀ a, Triple R (Q a) (f a) Q' E) : Triple R P (d >>= f) Q' E := by
  refine ⟨fun r s hr hs => ?_⟩
  have h := hd.run r s hr hs
  rw [run_bind]
  revert h
  rcases d r s with ⟨_ | a, t⟩
  · exact id
  · exact fun h => (hf a).run r t hr h

/-- A fact about the state can be moved out of the precondition. -/
theorem intro_pre {φ : Prop} (hP : ∀ s, P s → φ) (h : φ → Triple R P d Q E) :
    Triple R P d Q E :=
  ⟨fun r s hr hs => (h (hP s hs)).run r s hr hs⟩

end Triple

/-- The decoding keeps the invariant `I`, and its results satisfy `Q`. -/
def Keeps (R : ρ → Prop) (I : σ → Prop) (d : Decoding ρ σ α) (Q : α → Prop) : Prop :=
  Triple R I d (fun a s => Q a ∧ I s) I

namespace Keeps

variable {I : σ → Prop} {d : Decoding ρ σ α} {Q : α → Prop}

theorem mono {Q' : α → Prop} (h : Keeps R I d Q) (hQ : ∀ a, Q a → Q' a) : Keeps R I d Q' :=
  Triple.post h fun a _ ha => ⟨hQ a ha.1, ha.2⟩

theorem ret {a : α} (h : Q a) : Keeps R I (pure a) Q :=
  Triple.ret fun _ hs => ⟨h, hs⟩

theorem fail : Keeps R I (failure : Decoding ρ σ α) Q :=
  Triple.fail fun _ hs => hs

/-- A decoding that keeps the invariant may be followed by anything that needs it. -/
theorem bind_triple {f : α → Decoding ρ σ β} {Q' : β → σ → Prop} {E : σ → Prop}
    (hd : Keeps R I d Q) (hE : ∀ s, I s → E s) (hf : ∀ a, Q a → Triple R I (f a) Q' E) :
    Triple R I (d >>= f) Q' E := by
  refine Triple.bind (Q := fun a s => Q a ∧ I s)
    (Triple.mono hd (fun _ h => h) (fun _ _ h => h) hE) ?_
  exact fun a => ⟨fun r s hr hs => (hf a hs.1).run r s hr hs.2⟩

theorem bind {f : α → Decoding ρ σ β} {Q' : β → Prop} (hd : Keeps R I d Q)
    (hf : ∀ a, Q a → Keeps R I (f a) Q') : Keeps R I (d >>= f) Q' :=
  hd.bind_triple (fun _ h => h) hf

theorem attempt (h : Keeps R I d Q) : Keeps R I (attempt d) fun m => ∀ a ∈ m, Q a := by
  refine ⟨fun r s hr hs => ?_⟩
  have := h.run r s hr hs
  unfold Decoding.attempt
  revert this
  rcases d r s with ⟨_ | a, t⟩
  · exact fun ht => ⟨by simp, ht⟩
  · exact fun ht => ⟨by simpa using ht.1, ht.2⟩

theorem require {b : Bool} : Keeps R I (require b) fun _ => b = true := by
  unfold Decoding.require
  split
  next hb => exact ret hb
  next => exact fail

theorem ofOption {m : Option α} : Keeps R I (ofOption m) fun a => m = some a := by
  cases m with
  | none => exact ⟨fun _ _ _ hs => hs⟩
  | some a => exact ⟨fun _ _ _ hs => ⟨rfl, hs⟩⟩

theorem successor {n : Nat} : Keeps R I (successor n) fun _ => True :=
  require.bind fun _ _ => ret trivial

theorem get : Keeps R I (get : Decoding ρ σ σ) I :=
  ⟨fun _ _ _ hs => ⟨hs, hs⟩⟩

theorem read : Keeps R I (read : Decoding ρ σ ρ) R :=
  ⟨fun _ _ hr hs => ⟨hr, hs⟩⟩

theorem modify {f : σ → σ} (h : ∀ s, I s → I (f s)) :
    Keeps R I (modify f : Decoding ρ σ Unit) fun _ => True :=
  ⟨fun _ s _ hs => ⟨trivial, h s hs⟩⟩

theorem ite {b : Prop} [Decidable b] {e : Decoding ρ σ α} (hd : b → Keeps R I d Q)
    (he : ¬b → Keeps R I e Q) : Keeps R I (if b then d else e) Q := by
  split
  · exact hd ‹_›
  · exact he ‹_›

theorem many {n : Nat} (h : Keeps R I d Q) : Keeps R I (many n d) fun as => ∀ a ∈ as, Q a := by
  induction n with
  | zero => exact ret (by simp)
  | succ n ih =>
    rw [Decoding.many]
    refine h.attempt.bind fun m hm => ?_
    cases m with
    | none => exact ret (by simp)
    | some a => exact ih.bind fun as has => ret (by simpa using ⟨hm a rfl, has⟩)

theorem mapM {γ : Type} {f : γ → Decoding ρ σ α} (xs : List γ)
    (h : ∀ x ∈ xs, Keeps R I (f x) Q) : Keeps R I (xs.mapM f) fun as => ∀ a ∈ as, Q a := by
  induction xs with
  | nil =>
    rw [List.mapM_nil]
    exact ret (by simp)
  | cons x xs ih =>
    rw [List.forall_mem_cons] at h
    rw [List.mapM_cons]
    exact h.1.bind fun a ha => (ih h.2).bind fun as has => ret (by simpa using ⟨ha, has⟩)

end Keeps

/-- What a partial function gives on a list, it gives on the elements. -/
theorem exists_of_mem_mapM {f : α → Option β} {xs : List α} {ys : List β} {y : β}
    (h : xs.mapM f = some ys) (hy : y ∈ ys) : ∃ x ∈ xs, f x = some y := by
  induction xs generalizing ys with
  | nil =>
    obtain rfl : ys = [] := by simpa using h.symm
    cases hy
  | cons x xs ih =>
    rw [List.mapM_cons] at h
    obtain ⟨z, hz, h⟩ := Option.bind_eq_some_iff.mp h
    obtain ⟨zs, hzs, h⟩ := Option.bind_eq_some_iff.mp h
    obtain rfl : z :: zs = ys := Option.some.inj h
    rcases List.mem_cons.mp hy with rfl | hy
    · exact ⟨x, by simp, hz⟩
    · obtain ⟨x', hx', hf⟩ := ih hzs hy
      exact ⟨x', by simp [hx'], hf⟩

/-! ## Reading -/

section Cursor

variable [HasCursor σ] {I : σ → Prop}

theorem run_scan (f : Cursor → Option α × Cursor) (r : ρ) (s : σ) :
    scan f r s = ((f (HasCursor.cursor s)).1, HasCursor.withCursor s (f (HasCursor.cursor s)).2) :=
  rfl

theorem run_move (f : Cursor → α × Cursor) (r : ρ) (s : σ) :
    move f r s =
      (some (f (HasCursor.cursor s)).1, HasCursor.withCursor s (f (HasCursor.cursor s)).2) :=
  rfl

theorem run_look (f : Cursor → α) (r : ρ) (s : σ) :
    look f r s = (some (f (HasCursor.cursor s)), s) :=
  rfl

/-- An invariant that does not depend on the place in the input. -/
class Placeless (I : σ → Prop) : Prop where
  withCursor : ∀ s c, I s → I (HasCursor.withCursor s c)

variable [hI : Placeless I]

namespace Keeps

theorem scan {f : Cursor → Option α × Cursor} : Keeps R I (scan f) fun _ => True := by
  refine ⟨fun r s _ hs => ?_⟩
  unfold Decoding.scan
  rcases f (HasCursor.cursor s) with ⟨_ | a, c⟩
  · exact hI.withCursor s c hs
  · exact ⟨trivial, hI.withCursor s c hs⟩

theorem move {f : Cursor → α × Cursor} : Keeps R I (move f) fun _ => True :=
  scan

omit hI in
theorem look {f : Cursor → α} : Keeps R I (look f) fun _ => True :=
  ⟨fun _ _ _ hs => ⟨trivial, hs⟩⟩

theorem nextByte : Keeps R I nextByte fun _ => True :=
  scan

theorem nextChar : Keeps R I nextChar fun _ => True :=
  nextByte.bind fun _ _ => ret trivial

theorem nextIf {c : Char} : Keeps R I (nextIf c) fun _ => True :=
  move

theorem expect {c : Char} : Keeps R I (expect c) fun _ => True :=
  nextIf.bind fun _ _ => require.mono fun _ _ => trivial

theorem pushBack : Keeps R I pushBack fun _ => True :=
  move

theorem text {n : Nat} : Keeps R I (text n) fun _ => True :=
  scan

theorem natural : Keeps R I natural fun _ => True :=
  scan

theorem positive : Keeps R I positive fun _ => True :=
  natural.bind fun _ _ => require.bind fun _ _ => ret trivial

theorem index : Keeps R I index fun _ => True :=
  scan

theorem takeWhile {p : UInt8 → Bool} : Keeps R I (takeWhile p) fun _ => True := by
  unfold Decoding.takeWhile takeBytesWhile
  exact move.bind fun _ _ => ret trivial

theorem manyUntilFrom {n : Nat} {c : Char} {d : Decoding ρ σ α} {Q : α → Prop}
    (h : Keeps R I d Q) : Keeps R I (manyUntilFrom n c d) fun as => ∀ a ∈ as, Q a := by
  induction n with
  | zero => exact fail
  | succ n ih =>
    rw [Decoding.manyUntilFrom]
    refine nextIf.bind fun b _ => ite (fun _ => ret (by simp)) fun _ => ?_
    exact h.bind fun a ha => ih.bind fun as has => ret (by simpa using ⟨ha, has⟩)

theorem manyUntil {c : Char} {d : Decoding ρ σ α} {Q : α → Prop} (h : Keeps R I d Q) :
    Keeps R I (manyUntil c d) fun as => ∀ a ∈ as, Q a :=
  look.bind fun _ _ => h.manyUntilFrom

end Keeps

end Cursor

end SwiftMangling.Decoding
