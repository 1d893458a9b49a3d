import SwiftMangling.Proofs.Cursor
import SwiftMangling.Proofs.Decoding

/-!
# Decoding continued input

`Continued C x d e` relates a run of `d` to a run of `e` on the same input with `x` behind it: what
`d` finds, `e` finds too, and it leaves the same state with `x` behind what is left to read. The
contexts of the two runs are related by `C`. A failure may come from the end of the input, so
nothing is said about it; a decoding that never looks at the input, `Blind`, fails in both runs or
in none, and only such a decoding may be attempted.
-/

namespace SwiftMangling

/-! ## Cursors -/

namespace Cursor

variable {x : List UInt8}

/-- The cursor with more input behind what is left to read. -/
def extend (c : Cursor) (x : List UInt8) : Cursor :=
  ⟨c.before, c.rest ++ x⟩

/-- What the cursor operation finds, it finds with `x` behind the input. -/
def Extends {α : Type} (x : List UInt8) (f : Cursor → Option α × Cursor) : Prop :=
  ∀ c a c', f c = (some a, c') → f (c.extend x) = (some a, c'.extend x)

theorem skip_extend {c : Cursor} {n : Nat} (h : n ≤ c.rest.length) :
    (c.extend x).skip n = (c.skip n).extend x := by
  induction n generalizing c with
  | zero => rfl
  | succ n ih =>
    obtain ⟨before, _ | ⟨b, r⟩⟩ := c
    · exact absurd h (by simp)
    · exact ih (c := ⟨b :: before, r⟩) (by simpa using h)

theorem extends_next : Extends x next := by
  intro c a c' h
  obtain ⟨before, _ | ⟨b, r⟩⟩ := c
  · simp [next] at h
  · obtain ⟨rfl, rfl⟩ : b = a ∧ (⟨b :: before, r⟩ : Cursor) = c' := by simpa [next] using h
    rfl

/-- A byte that does not start `x` is found in the input or not at all. -/
theorem nextIf_extend {b : UInt8} (hb : b ∉ x.head?) (c : Cursor) :
    (c.extend x).nextIf b = ((c.nextIf b).1, (c.nextIf b).2.extend x) := by
  obtain ⟨before, _ | ⟨a, r⟩⟩ := c
  · cases x with
    | nil => rfl
    | cons a x =>
      have hab : (a == b) = false := by simpa using hb
      simp [extend, nextIf, nextWhere, hab]
  · by_cases hab : (a == b) = true <;> simp [extend, nextIf, nextWhere, hab]

theorem nextIf_extend_of_true {c : Cursor} {b : UInt8} (h : (c.nextIf b).1 = true) :
    (c.extend x).nextIf b = (true, (c.nextIf b).2.extend x) := by
  obtain ⟨before, _ | ⟨a, r⟩⟩ := c
  · cases h
  · cases hab : a == b with
    | false => simp [nextIf, nextWhere, hab] at h
    | true => simp [extend, nextIf, nextWhere, hab]

/-- A text that does not contain the first byte of `x` stands in the input or not at all. -/
theorem prefix_append_iff {s rest : List UInt8} (hs : ∀ b ∈ x.head?, b ∉ s) :
    s <+: rest ++ x ↔ s <+: rest := by
  refine ⟨fun h => ?_, fun h => h.trans (List.prefix_append rest x)⟩
  rcases List.prefix_or_prefix_of_prefix h (List.prefix_append rest x) with h | ⟨t, rfl⟩
  · exact h
  · cases t with
    | nil => simp
    | cons b t =>
      -- the text would go on with the first byte of `x`
      obtain ⟨u, hu⟩ := (List.prefix_append_right_inj rest).mp h
      exact absurd (by simp) (hs b (by rw [← hu]; rfl))

theorem nextIfBytes_extend {s : List UInt8} (hs : ∀ b ∈ x.head?, b ∉ s) (c : Cursor) :
    (c.extend x).nextIfBytes s = ((c.nextIfBytes s).1, (c.nextIfBytes s).2.extend x) := by
  have hiff : s <+: (c.extend x).rest ↔ s <+: c.rest := prefix_append_iff hs
  unfold nextIfBytes
  by_cases h : s <+: c.rest
  · have hle := h.length_le
    rw [if_pos (List.isPrefixOf_iff_prefix.mpr (hiff.mpr h)),
      if_pos (List.isPrefixOf_iff_prefix.mpr h), skip_extend hle]
  · rw [if_neg (fun hp => h (hiff.mp (List.isPrefixOf_iff_prefix.mp hp))),
      if_neg (fun hp => h (List.isPrefixOf_iff_prefix.mp hp))]

theorem pushBack_extend (c : Cursor) :
    (c.extend x).pushBack.2 = c.pushBack.2.extend x := by
  obtain ⟨_ | ⟨b, l⟩, rest⟩ := c <;> rfl

theorem extends_slice (n : Nat) : Extends x (·.slice n) := by
  intro c a c' h
  dsimp only [slice] at h ⊢
  split at h
  next hn =>
    obtain ⟨rfl, rfl⟩ : c.rest.take n = a ∧ c.skip n = c' := by simpa using h
    have hle : n ≤ (c.extend x).rest.length := by
      rw [extend, List.length_append]
      omega
    rw [if_pos hle, skip_extend hn]
    simp [extend, List.take_append_of_le_length hn]
  next => simp at h

theorem extends_text (n : Nat) : Extends x (·.text n) := by
  intro c a c' h
  dsimp only [text] at h ⊢
  have hslice := extends_slice (x := x) n c
  dsimp only at hslice
  -- the text is the decoded slice, so it is enough that the slice is the same
  revert h hslice
  rcases c.slice n with ⟨_ | b, c₁⟩
  · simp
  · intro h hslice
    dsimp only at h
    rw [hslice b c₁ rfl]
    dsimp only
    split at h
    · obtain ⟨rfl, rfl⟩ : _ = a ∧ c₁ = c' := by simpa using h
      rfl
    · simp at h

/-- A run of bytes that satisfy `p` ends in the input unless `x` goes on with such a byte. -/
theorem takeWhile_append_of_head {p : UInt8 → Bool} (hx : ∀ b ∈ x.head?, p b = false)
    (rest : List UInt8) : (rest ++ x).takeWhile p = rest.takeWhile p := by
  induction rest with
  | nil =>
    cases x with
    | nil => rfl
    | cons b x => simp [hx b rfl]
  | cons b rest ih => simp [List.takeWhile_cons, ih]

/-- The digits end where they ended before, since what is added starts with none. -/
theorem digits_extend (hx : ∀ b ∈ x.head?, isDigit b = false) {bound value : Nat}
    {before rest : List UInt8} {a : Nat} {c : Cursor}
    (h : digits bound value before rest = (some a, c)) :
    digits bound value before (rest ++ x) = (some a, c.extend x) := by
  induction rest generalizing value before with
  -- at the end of the input, where `x` does not go on with a digit
  | nil =>
    obtain ⟨rfl, rfl⟩ : value = a ∧ (⟨before, []⟩ : Cursor) = c := by simpa [digits] using h
    cases x with
    | nil => rfl
    | cons b x => simp [digits, hx b rfl, extend]
  | cons b rest ih =>
    rw [digits] at h
    rw [List.cons_append, digits]
    split at h
    next hb =>
      rw [if_pos hb]
      dsimp only at h ⊢
      split at h
      next hbound => rw [if_pos hbound]; exact ih h
      next => simp at h
    -- the first byte that is no digit stays where it is
    next hb =>
      rw [if_neg hb]
      obtain ⟨rfl, rfl⟩ : value = a ∧ (⟨before, b :: rest⟩ : Cursor) = c := by simpa using h
      rfl

/-- No digit comes into sight at the end if what is added starts with none. -/
theorem peekDigit_extend (hx : ∀ b ∈ x.head?, isDigit b = false) (c : Cursor) :
    (c.extend x).peekDigit = c.peekDigit := by
  obtain ⟨before, _ | ⟨b, r⟩⟩ := c
  · cases x with
    | nil => rfl
    | cons b x => exact hx b rfl
  · rfl

theorem extends_natural (hx : ∀ b ∈ x.head?, isDigit b = false) (width : Nat) :
    Extends x (·.natural width) := by
  intro c a c' h
  dsimp only [natural] at h ⊢
  rw [peekDigit_extend hx]
  split at h
  next hd =>
    rw [if_pos hd]
    exact digits_extend hx h
  next => simp at h

theorem extends_index (hx : ∀ b ∈ x.head?, isDigit b = false ∧ b ≠ 0x5F) : Extends x index := by
  have hunder : (0x5F : UInt8) ∉ x.head? := fun h => (hx _ h).2 rfl
  intro c a c' h
  unfold index at h ⊢
  rw [nextIf_extend hunder]
  revert h
  rcases c.nextIf 0x5F with ⟨_ | _, c₁⟩
  -- a `_` alone is the index 0
  case true =>
    intro h
    obtain ⟨rfl, rfl⟩ : 0 = a ∧ c₁ = c' := by simpa using h
    rfl
  -- otherwise a number comes first and then the `_`
  intro h
  have hnatural := extends_natural (fun b hb => (hx b hb).1) 64 c₁
  dsimp only at h hnatural ⊢
  revert h hnatural
  rcases c₁.natural 64 with ⟨_ | n, c₂⟩
  · simp
  · intro h hnatural
    dsimp only at h
    rw [hnatural n c₂ rfl]
    dsimp only
    rw [nextIf_extend hunder]
    revert h
    rcases c₂.nextIf 0x5F with ⟨_ | _, c₃⟩
    · simp
    · intro h
      obtain ⟨hvalue, rfl⟩ :
          (if n + 1 < UInt64.size then some (n + 1) else none) = some a ∧ c₃ = c' := by
        simpa using h
      rw [← hvalue]

end Cursor

/-- Changing the cursor of a state changes nothing else. -/
class LawfulCursor (σ : Type) [HasCursor σ] : Prop where
  cursor_withCursor : ∀ (s : σ) c, HasCursor.cursor (HasCursor.withCursor s c) = c
  withCursor_withCursor : ∀ (s : σ) c c',
    HasCursor.withCursor (HasCursor.withCursor s c) c' = HasCursor.withCursor s c'

/-- The state with more input behind what is left to read. -/
def extend {σ : Type} [HasCursor σ] (s : σ) (x : List UInt8) : σ :=
  HasCursor.withCursor s ((HasCursor.cursor s).extend x)

namespace Decoding

variable {ρ σ α β γ : Type} [HasCursor σ] {C : ρ → ρ → Prop} {x : List UInt8}

/-! ## The relations -/

/-- What `d` finds in a state that satisfies `P`, `e` finds with `x` behind the input. -/
def ContinuedOn (P : σ → Prop) (C : ρ → ρ → Prop) (x : List UInt8) (d e : Decoding ρ σ α) : Prop :=
  ∀ r r' s a t, P s → C r r' → d r s = (some a, t) → e r' (extend s x) = (some a, extend t x)

/-- What `d` finds, `e` finds with `x` behind the input. -/
class Continued (C : ρ → ρ → Prop) (x : List UInt8) (d e : Decoding ρ σ α) : Prop where
  run : ∀ r r' s a t, C r r' → d r s = (some a, t) → e r' (extend s x) = (some a, extend t x)

/-- What the decoding finds, it finds with `x` behind the input. -/
abbrev Stable (C : ρ → ρ → Prop) (x : List UInt8) (d : Decoding ρ σ α) : Prop :=
  Continued C x d d

/-- The decoding does not look at the input and leaves it alone. -/
class Blind (C : ρ → ρ → Prop) (d : Decoding ρ σ α) : Prop where
  cursor : ∀ r s, HasCursor.cursor (d r s).2 = HasCursor.cursor s
  run : ∀ r r' s c, C r r' →
    d r' (HasCursor.withCursor s c) = ((d r s).1, HasCursor.withCursor (d r s).2 c)

theorem Continued.on {P : σ → Prop} {d e : Decoding ρ σ α} (h : Continued C x d e) :
    ContinuedOn P C x d e :=
  fun r r' s a t _ => h.run r r' s a t

/-- What follows need only be continued in the states that `d` can leave. -/
theorem ContinuedOn.bind {P : σ → Prop} {Q : α → σ → Prop} {d e : Decoding ρ σ α}
    {f f' : α → Decoding ρ σ β} (hd : ContinuedOn P C x d e)
    (hQ : ∀ r s a t, P s → d r s = (some a, t) → Q a t)
    (hf : ∀ a, ContinuedOn (Q a) C x (f a) (f' a)) : ContinuedOn P C x (d >>= f) (e >>= f') := by
  intro r r' s b t hs hr h
  have hd := fun a u => hd r r' s a u hs hr
  have hQ := fun a u => hQ r s a u hs
  rw [run_bind] at h ⊢
  revert h hd hQ
  rcases d r s with ⟨_ | a, u⟩
  · intro h; cases h
  · intro h hd hQ
    rw [hd a u rfl]
    exact hf a r r' u b t (hQ a u rfl) hr h

/-- A step that is continued where it gives a result, and then one that always is. -/
theorem ContinuedOn.bind_continued {P : σ → Prop} {d e : Decoding ρ σ α}
    {f f' : α → Decoding ρ σ β} (hd : ContinuedOn P C x d e)
    (hf : ∀ a, Continued C x (f a) (f' a)) : ContinuedOn P C x (d >>= f) (e >>= f') :=
  hd.bind (Q := fun _ _ => True) (fun _ _ _ _ _ _ => trivial) fun a => (hf a).on

theorem Continued.bind {d d' : Decoding ρ σ α} {f f' : α → Decoding ρ σ β}
    (hd : Continued C x d d') (hf : ∀ a, Continued C x (f a) (f' a)) :
    Continued C x (d >>= f) (d' >>= f') :=
  ⟨fun r r' s b t => (hd.on (P := fun _ => True)).bind_continued hf r r' s b t trivial⟩

instance {d d' : Decoding ρ σ α} {f f' : α → Decoding ρ σ β} [hd : Continued C x d d']
    [hf : ∀ a, Continued C x (f a) (f' a)] : Continued C x (d >>= f) (d' >>= f') :=
  hd.bind hf

instance {d d' : Decoding ρ σ α} {f : α → β} [Continued C x d d'] :
    Continued C x (f <$> d) (f <$> d') := by
  rw [map_eq_pure_bind, map_eq_pure_bind]
  refine Continued.bind inferInstance fun a => ⟨fun r r' s b t _ h => ?_⟩
  obtain ⟨rfl, rfl⟩ : f a = b ∧ s = t := by simpa [run_pure] using h
  rfl

theorem Continued.ite {b : Prop} [Decidable b] {d d' e e' : Decoding ρ σ α}
    (hd : Continued C x d d') (he : Continued C x e e') :
    Continued C x (if b then d else e) (if b then d' else e') := by
  split
  · exact hd
  · exact he

instance {b : Prop} [Decidable b] {d d' e e' : Decoding ρ σ α} [hd : Continued C x d d']
    [he : Continued C x e e'] : Continued C x (if b then d else e) (if b then d' else e') :=
  hd.ite he

instance {e : Decoding ρ σ α} : Continued C x (failure : Decoding ρ σ α) e where
  run _ _ _ _ _ _ h := by cases h

instance (priority := high) {f : α → Decoding ρ σ β} {e : Decoding ρ σ β} :
    Continued C x (failure >>= f) e where
  run _ _ _ _ _ _ h := by cases h

/-! ## Blind decodings -/

instance {a : α} : Blind C (pure a : Decoding ρ σ α) :=
  ⟨fun _ _ => rfl, fun _ _ _ _ _ => rfl⟩

instance : Blind C (failure : Decoding ρ σ α) :=
  ⟨fun _ _ => rfl, fun _ _ _ _ _ => rfl⟩

instance {m : Option α} : Blind C (ofOption m : Decoding ρ σ α) :=
  ⟨fun _ _ => rfl, fun _ _ _ _ _ => rfl⟩

theorem Blind.ite {b : Prop} [Decidable b] {d e : Decoding ρ σ α} (hd : Blind C d)
    (he : Blind C e) : Blind C (if b then d else e) := by
  split
  · exact hd
  · exact he

instance {b : Prop} [Decidable b] {d e : Decoding ρ σ α} [hd : Blind C d] [he : Blind C e] :
    Blind C (if b then d else e) :=
  hd.ite he

instance {b : Bool} : Blind C (require b : Decoding ρ σ Unit) :=
  inferInstanceAs (Blind C (if b then pure () else failure))

/-- Two steps that take no notice of what stands behind the input, one after the other. -/
theorem Blind.bind {d : Decoding ρ σ α} {f : α → Decoding ρ σ β} (hd : Blind C d)
    (hf : ∀ a, Blind C (f a)) : Blind C (d >>= f) where
  cursor r s := by
    have h := hd.cursor r s
    rw [run_bind]
    revert h
    rcases d r s with ⟨_ | a, t⟩
    · exact id
    · exact fun h => ((hf a).cursor r t).trans h
  run r r' s c hr := by
    rw [run_bind, run_bind, hd.run r r' s c hr]
    rcases d r s with ⟨_ | a, t⟩
    · rfl
    · exact (hf a).run r r' t c hr

instance {d : Decoding ρ σ α} {f : α → Decoding ρ σ β} [hd : Blind C d] [hf : ∀ a, Blind C (f a)] :
    Blind C (d >>= f) :=
  hd.bind hf

instance {n : Nat} : Blind C (successor n : Decoding ρ σ Nat) :=
  inferInstanceAs (Blind C (_ >>= _))

instance {d : Decoding ρ σ α} [hd : Blind C d] : Blind C (attempt d) where
  cursor r s := hd.cursor r s
  run r r' s c hr := by
    rw [run_attempt, run_attempt, hd.run r r' s c hr]

instance {d : Decoding ρ σ α} [Blind C d] {n : Nat} : Blind C (many n d) := by
  induction n with
  | zero => exact inferInstanceAs (Blind C (pure []))
  | succ n ih =>
    have hfound (m : Option α) : Blind C
        (match m with
          | none => pure []
          | some a => many n d >>= fun as => pure (a :: as) : Decoding ρ σ (List α)) := by
      cases m <;> dsimp only <;> infer_instance
    exact inferInstanceAs (Blind C (attempt d >>= _))

instance {f : γ → Decoding ρ σ α} [∀ a, Blind C (f a)] {as : List γ} : Blind C (as.mapM f) := by
  induction as with
  | nil =>
    rw [List.mapM_nil]
    infer_instance
  | cons a as ih =>
    rw [List.mapM_cons]
    infer_instance

/-- A blind decoding is stable, because the place in the input stays the same. -/
instance (priority := low) {d : Decoding ρ σ α} [h : Blind C d] : Stable C x d where
  run r r' s a t hr hd := by
    have hcursor := h.cursor r s
    rw [hd] at hcursor
    rw [extend, h.run r r' s _ hr, hd, extend, hcursor]

/-! ## Readings -/

variable [LawfulCursor σ]

theorem withCursor_extend (s : σ) (c : Cursor) :
    extend (HasCursor.withCursor s c) x = HasCursor.withCursor s (c.extend x) := by
  rw [extend, LawfulCursor.cursor_withCursor, LawfulCursor.withCursor_withCursor]

theorem cursor_extend (s : σ) :
    HasCursor.cursor (extend s x) = (HasCursor.cursor s).extend x :=
  LawfulCursor.cursor_withCursor _ _

theorem withCursor_of_extend (s : σ) (c : Cursor) :
    HasCursor.withCursor (extend s x) c = HasCursor.withCursor s c :=
  LawfulCursor.withCursor_withCursor _ _ _

theorem stable_scan {f : Cursor → Option α × Cursor} (hf : Cursor.Extends x f) :
    Stable C x (scan f : Decoding ρ σ α) where
  run r r' s a t _ h := by
    rw [run_scan] at h ⊢
    obtain ⟨ha, rfl⟩ := Prod.mk.inj h
    have hrun := hf (HasCursor.cursor s) a _ (Prod.ext ha rfl)
    rw [cursor_extend, hrun, withCursor_of_extend, withCursor_extend]

theorem stable_move {f : Cursor → α × Cursor}
    (hf : ∀ c, f (c.extend x) = ((f c).1, (f c).2.extend x)) :
    Stable C x (move f : Decoding ρ σ α) := by
  refine stable_scan fun c a c' h => ?_
  obtain ⟨rfl, rfl⟩ : (f c).1 = a ∧ (f c).2 = c' := by simpa using h
  simp [hf]

theorem stable_look {f : Cursor → α} (hf : ∀ c, f (c.extend x) = f c) :
    Stable C x (look f : Decoding ρ σ α) where
  run r r' s a t _ h := by
    obtain ⟨rfl, rfl⟩ : f (HasCursor.cursor s) = a ∧ s = t := by simpa [run_look] using h
    rw [run_look, cursor_extend, hf]

instance : Stable C x (nextByte : Decoding ρ σ UInt8) :=
  stable_scan Cursor.extends_next

instance : Stable C x (nextChar : Decoding ρ σ Char) :=
  inferInstanceAs (Stable C x (_ >>= _))

instance : Stable C x (pushBack : Decoding ρ σ Unit) :=
  stable_move fun c => by rw [Cursor.pushBack_extend]

instance {n : Nat} : Stable C x (slice n : Decoding ρ σ (List UInt8)) :=
  stable_scan (Cursor.extends_slice n)

instance {n : Nat} : Stable C x (text n : Decoding ρ σ String) :=
  stable_scan (Cursor.extends_text n)

theorem stable_nextIf {c : Char} (hc : c.toUInt8 ∉ x.head?) :
    Stable C x (nextIf c : Decoding ρ σ Bool) :=
  stable_move (Cursor.nextIf_extend hc)

theorem stable_nextIfText {s : String} (hs : ∀ b ∈ x.head?, b ∉ Utf8.encode s) :
    Stable C x (nextIfText s : Decoding ρ σ Bool) :=
  stable_move (Cursor.nextIfBytes_extend hs)

/-- What is expected has to stand in the input. -/
instance {c : Char} : Stable C x (expect c : Decoding ρ σ Unit) where
  run r r' s a t _ h := by
    have hexpect (u : σ) : (expect c : Decoding ρ σ Unit) r u =
        (require ((HasCursor.cursor u).nextIf c.toUInt8).1 : Decoding ρ σ Unit) r
          (HasCursor.withCursor u ((HasCursor.cursor u).nextIf c.toUInt8).2) := rfl
    have hexpect' (u : σ) : (expect c : Decoding ρ σ Unit) r' u =
        (require ((HasCursor.cursor u).nextIf c.toUInt8).1 : Decoding ρ σ Unit) r'
          (HasCursor.withCursor u ((HasCursor.cursor u).nextIf c.toUInt8).2) := rfl
    rw [hexpect] at h
    cases hfound : ((HasCursor.cursor s).nextIf c.toUInt8).1 with
    | false =>
      rw [hfound] at h
      cases h
    | true =>
      -- the byte that was found stands in the input, in front of `x`
      rw [hfound] at h
      obtain rfl : HasCursor.withCursor s ((HasCursor.cursor s).nextIf c.toUInt8).2 = t :=
        congrArg Prod.snd h
      rw [hexpect', cursor_extend, Cursor.nextIf_extend_of_true hfound, withCursor_of_extend,
        withCursor_extend]
      rfl

/-- The bytes end where they ended before, since what is added starts with none of them. -/
theorem stable_takeBytesWhile {p : UInt8 → Bool} (hp : ∀ b ∈ x.head?, p b = false) :
    Stable C x (takeBytesWhile p : Decoding ρ σ (List UInt8)) := by
  refine stable_move fun c => ?_
  have hrun : (c.extend x).rest.takeWhile p = c.rest.takeWhile p :=
    Cursor.takeWhile_append_of_head hp c.rest
  dsimp only
  rw [hrun, Cursor.skip_extend (List.takeWhile_prefix p).length_le]

theorem stable_takeWhile {p : UInt8 → Bool} (hp : ∀ b ∈ x.head?, p b = false) :
    Stable C x (takeWhile p : Decoding ρ σ (List Char)) :=
  (stable_takeBytesWhile hp).bind inferInstance

omit [LawfulCursor σ] in
theorem run_takeBytesWhile_bind {p : UInt8 → Bool} {f : List UInt8 → Decoding ρ σ α} (r : ρ)
    (s : σ) : (takeBytesWhile p >>= f) r s =
      f ((HasCursor.cursor s).rest.takeWhile p) r (HasCursor.withCursor s
        ((HasCursor.cursor s).skip ((HasCursor.cursor s).rest.takeWhile p).length)) :=
  rfl

omit [LawfulCursor σ] in
theorem run_expect_of_end {c : Char} {r : ρ} {s : σ} (h : (HasCursor.cursor s).rest = []) :
    ((expect c : Decoding ρ σ Unit) r s).1 = none := by
  have hrun : ((expect c : Decoding ρ σ Unit) r s).1 =
      ((require ((HasCursor.cursor s).nextIf c.toUInt8).1 : Decoding ρ σ Unit) r
        (HasCursor.withCursor s ((HasCursor.cursor s).nextIf c.toUInt8).2)).1 := rfl
  rw [hrun, Cursor.nextIf, Cursor.nextWhere, h]
  rfl

/-- A run of bytes that has to end at `c` ends in the input. -/
instance {c : Char} {p : UInt8 → Bool} {f f' : List UInt8 → Decoding ρ σ α}
    [hf : ∀ run, Continued C x (f run) (f' run)] :
    Continued C x (takeBytesWhile p >>= fun run => expect c >>= fun _ => f run)
      (takeBytesWhile p >>= fun run => expect c >>= fun _ => f' run) where
  run r r' s a t hr h := by
    rw [run_takeBytesWhile_bind] at h ⊢
    rw [cursor_extend, withCursor_of_extend, Cursor.extend, List.takeWhile_append]
    by_cases hall :
        ((HasCursor.cursor s).rest.takeWhile p).length = (HasCursor.cursor s).rest.length
    · -- the run goes on to the end of the input, where `c` cannot follow
      have hnone := run_expect_of_end (c := c) (r := r) (s := HasCursor.withCursor s
        ((HasCursor.cursor s).skip ((HasCursor.cursor s).rest.takeWhile p).length))
        (by rw [LawfulCursor.cursor_withCursor, Cursor.rest_skip, hall, List.drop_length])
      rw [run_bind] at h
      revert h hnone
      rcases (expect c : Decoding ρ σ Unit) r _ with ⟨_ | _, u⟩
      · intro h; cases h
      · intro _ hnone; cases hnone
    · have hle := (List.takeWhile_prefix p (l := (HasCursor.cursor s).rest)).length_le
      have hskip := Cursor.skip_extend (x := x) hle
      rw [Cursor.extend] at hskip
      rw [if_neg hall, hskip, ← withCursor_extend]
      have hnext : Continued C x
          (expect c >>= fun _ => f ((HasCursor.cursor s).rest.takeWhile p))
          (expect c >>= fun _ => f' ((HasCursor.cursor s).rest.takeWhile p)) := inferInstance
      exact hnext.run r r' _ a t hr h

theorem stable_peekDigit (hx : ∀ b ∈ x.head?, Cursor.isDigit b = false) :
    Stable C x (peekDigit : Decoding ρ σ Bool) :=
  stable_look (Cursor.peekDigit_extend hx)

theorem stable_natural (hx : ∀ b ∈ x.head?, Cursor.isDigit b = false) :
    Stable C x (natural : Decoding ρ σ Nat) :=
  stable_scan (Cursor.extends_natural hx 64)

theorem stable_positive (hx : ∀ b ∈ x.head?, Cursor.isDigit b = false) :
    Stable C x (positive : Decoding ρ σ Nat) :=
  (stable_natural hx).bind inferInstance

theorem stable_index (hx : ∀ b ∈ x.head?, Cursor.isDigit b = false ∧ b ≠ '_'.toUInt8) :
    Stable C x (index : Decoding ρ σ Nat) :=
  stable_scan (Cursor.extends_index hx)

section Peek

variable {f f' : Option Char → Decoding ρ σ α}

omit [LawfulCursor σ] in
theorem run_peekChar?_bind (r : ρ) (s : σ) :
    (peekChar? >>= f) r s = f ((HasCursor.cursor s).peek?.map charOfByte) r s :=
  rfl

/-- At the end of the input the first byte of `x` comes next. -/
theorem continued_peekChar? (hf : ∀ m, Continued C x (f m) (f' m))
    (hend : ∀ b ∈ x.head?, Continued C x (f none) (f' (some (charOfByte b)))) :
    Continued C x (peekChar? >>= f) (peekChar? >>= f') where
  run r r' s a t hr h := by
    rw [run_peekChar?_bind] at h ⊢
    rw [cursor_extend]
    revert h
    rcases HasCursor.cursor s with ⟨before, _ | ⟨b, rest⟩⟩
    · cases x with
      | nil => exact fun h => (hf _).run r r' s a t hr h
      | cons b x => exact fun h => (hend b rfl).run r r' s a t hr h
    · exact fun h => (hf _).run r r' s a t hr h

/-- What comes next at the end of the input does not matter if something has to. -/
theorem continued_peekChar?_of_end (hf : ∀ m, Continued C x (f m) (f' m))
    (hend : ∀ r s, (HasCursor.cursor s).rest = [] → (f none r s).1 = none) :
    Continued C x (peekChar? >>= f) (peekChar? >>= f') where
  run r r' s a t hr h := by
    have hnone := hend r s
    rw [run_peekChar?_bind] at h ⊢
    rw [cursor_extend]
    revert h hnone
    rcases HasCursor.cursor s with ⟨before, _ | ⟨b, rest⟩⟩
    · intro h hnone
      have hsome : (f none r s).1 = some a := congrArg Prod.fst h
      rw [hnone rfl] at hsome
      cases hsome
    · exact fun h _ => (hf _).run r r' s a t hr h

instance {g g' : Char → Decoding ρ σ α} [∀ c, Continued C x (g c) (g' c)] :
    Continued C x (peekChar? >>= fun m => ofOption m >>= g)
      (peekChar? >>= fun m => ofOption m >>= g') :=
  continued_peekChar?_of_end (fun _ => inferInstance) fun _ _ _ => rfl

end Peek

/-- Where something has to follow, `x` may follow as well. -/
instance {d d' : Decoding ρ σ α} [hd : Continued C x d d'] :
    Continued C x (atEnd >>= fun b => require (!b) >>= fun _ => d)
      (atEnd >>= fun b => require (!b) >>= fun _ => d') where
  run r r' s a t hr h := by
    have hrun (e : Decoding ρ σ α) (q : ρ) (u : σ) :
        (atEnd >>= fun b => require (!b) >>= fun _ => e : Decoding ρ σ α) q u =
          (require (!(HasCursor.cursor u).isAtEnd) >>= fun _ => e) q u := rfl
    rw [hrun] at h ⊢
    rw [cursor_extend]
    cases hrest : (HasCursor.cursor s).rest with
    -- nothing is left, so the run without `x` has failed
    | nil =>
      rw [Cursor.isAtEnd, hrest] at h
      cases h
    | cons b rest =>
      rw [Cursor.isAtEnd, hrest] at h
      rw [Cursor.isAtEnd, Cursor.extend, hrest]
      exact hd.run r r' s a t hr h

/-! ## Loops -/

/-- The states in which at most `n` bytes are left to read. -/
def Within (n : Nat) (s : σ) : Prop :=
  (HasCursor.cursor s).rest.length ≤ n

/-- How much is left to read may only be used as a bound that can be higher as well. -/
theorem stable_remaining {f : Nat → Decoding ρ σ α}
    (hf : ∀ n m, n ≤ m → ContinuedOn (Within n) C x (f n) (f m)) :
    Stable C x (remaining >>= f) where
  run r r' s a t hr h := by
    refine hf _ _ ?_ r r' s a t (Nat.le_refl _) hr h
    show _ ≤ (HasCursor.cursor (extend s x)).rest.length
    rw [cursor_extend, Cursor.extend, List.length_append]
    exact Nat.le_add_right _ _

/-- The decoding fails with `x` behind the input whenever it fails without. -/
def Decided (C : ρ → ρ → Prop) (x : List UInt8) (d : Decoding ρ σ α) : Prop :=
  ∀ r r' s, C r r' → d r' (extend s x) = ((d r s).1, extend (d r s).2 x)

omit [LawfulCursor σ] in
theorem Decided.ret {a : α} : Decided C x (pure a : Decoding ρ σ α) :=
  fun _ _ _ _ => rfl

omit [LawfulCursor σ] in
theorem Decided.bind {d : Decoding ρ σ α} {f : α → Decoding ρ σ β} (hd : Decided C x d)
    (hf : ∀ a, Decided C x (f a)) : Decided C x (d >>= f) := by
  intro r r' s hr
  rw [run_bind, run_bind, hd r r' s hr]
  rcases d r s with ⟨_ | a, t⟩
  · rfl
  · exact hf a r r' t hr

omit [LawfulCursor σ] in
theorem Decided.ite {b : Prop} [Decidable b] {d e : Decoding ρ σ α} (hd : Decided C x d)
    (he : Decided C x e) : Decided C x (if b then d else e) := by
  split
  · exact hd
  · exact he

theorem decided_nextIf {c : Char} (hc : c.toUInt8 ∉ x.head?) :
    Decided C x (nextIf c : Decoding ρ σ Bool) := by
  intro r r' s _
  rw [nextIf, run_move, run_move, cursor_extend, Cursor.nextIf_extend hc, withCursor_of_extend,
    withCursor_extend]

/-- The decoding reads an item of a list: it takes at least one byte, and if there is no item, it
leaves the state alone. -/
structure ReadsItem (C : ρ → ρ → Prop) (x : List UInt8) (d : Decoding ρ σ α) : Prop where
  decided : Decided C x d
  failed : ∀ r s t, d r s = (none, t) → s = t
  lt : ∀ r s a t, d r s = (some a, t) →
    (HasCursor.cursor t).rest.length < (HasCursor.cursor s).rest.length

omit [LawfulCursor σ] in
/-- A list of items ends where it ends without `x`. -/
theorem continuedOn_many {d : Decoding ρ σ α} (hd : ReadsItem C x d) {n m : Nat} (h : n ≤ m) :
    ContinuedOn (Within n) C x (many n d) (many m d) := by
  intro r r' s as t hs hr hrun
  induction n generalizing m s as t with
  | zero =>
    obtain ⟨rfl, rfl⟩ : [] = as ∧ s = t := by simpa [many, run_pure] using hrun
    cases m with
    | zero => rfl
    | succ m =>
      -- nothing is left to read, so there is no item with `x` behind the input either
      have hfailed := hd.failed r s
      have hlt := hd.lt r s
      rw [run_many_succ, hd.decided r r' s hr]
      revert hfailed hlt
      rcases d r s with ⟨_ | a, u⟩
      · intro hfailed _
        rw [hfailed u rfl]
      · intro _ hlt
        exact absurd (hlt a u rfl) (by rw [Nat.le_zero.mp hs]; exact Nat.not_lt_zero _)
  | succ n ih =>
    obtain ⟨m, rfl⟩ : ∃ k, m = k + 1 := ⟨m - 1, by omega⟩
    have hlt := hd.lt r s
    rw [run_many_succ] at hrun ⊢
    rw [hd.decided r r' s hr]
    revert hrun hlt
    rcases d r s with ⟨_ | a, u⟩
    · intro hrun _
      obtain ⟨rfl, rfl⟩ : [] = as ∧ u = t := by simpa using hrun
      rfl
    · intro hrun hlt
      have hu : Within n u := Nat.le_of_lt_succ (Nat.lt_of_lt_of_le (hlt a u rfl) hs)
      have ih := fun bs v => ih (m := m) (by omega) u bs v hu
      dsimp only at hrun ⊢
      rw [run_bind] at hrun ⊢
      revert hrun ih
      rcases many n d r u with ⟨_ | bs, v⟩
      · intro hrun; cases hrun
      · intro hrun ih
        rw [ih bs v rfl]
        obtain ⟨rfl, rfl⟩ : a :: bs = as ∧ v = t := by simpa [run_pure] using hrun
        rfl

/-- A list ends at its own end mark, which what is added does not start with. -/
theorem continued_manyUntilFrom {c : Char} (hc : c.toUInt8 ∉ x.head?) {d : Decoding ρ σ α}
    [Stable C x d] {n m : Nat} (h : n ≤ m) :
    Continued C x (manyUntilFrom n c d) (manyUntilFrom m c d) := by
  induction n generalizing m with
  | zero => exact inferInstanceAs (Continued C x failure _)
  | succ n ih =>
    obtain ⟨m, rfl⟩ : ∃ k, m = k + 1 := ⟨m - 1, by omega⟩
    have hnext : Stable C x (nextIf c : Decoding ρ σ Bool) := stable_nextIf hc
    have hrest := ih (m := m) (by omega)
    rw [manyUntilFrom, manyUntilFrom]
    infer_instance

theorem stable_manyUntil {c : Char} (hc : c.toUInt8 ∉ x.head?) {d : Decoding ρ σ α}
    [Stable C x d] : Stable C x (manyUntil c d) :=
  stable_remaining fun _ _ h => (continued_manyUntilFrom hc (Nat.succ_le_succ h)).on

/-! ## Results -/

/-- Every result of the decoding satisfies `Q`. -/
def Yields (Q : α → Prop) (d : Decoding ρ σ α) : Prop :=
  ∀ r s a t, d r s = (some a, t) → Q a

/-- What `d` finds, `e` finds with `x` behind the input, as far as it satisfies `P`. -/
def ContinuedFor (P : α → Prop) (C : ρ → ρ → Prop) (x : List UInt8) (d e : Decoding ρ σ α) : Prop :=
  ∀ r r' s a t, P a → C r r' → d r s = (some a, t) → e r' (extend s x) = (some a, extend t x)

omit [HasCursor σ] [LawfulCursor σ]

theorem Yields.ret {Q : α → Prop} {a : α} (h : Q a) : Yields Q (pure a : Decoding ρ σ α) := by
  intro r s b t hrun
  obtain ⟨rfl, -⟩ : a = b ∧ s = t := by simpa [run_pure] using hrun
  exact h

/-- What a decoding returns is what its last step returns. -/
theorem Yields.bind {Q : β → Prop} {d : Decoding ρ σ α} {f : α → Decoding ρ σ β}
    (hf : ∀ a, Yields Q (f a)) : Yields Q (d >>= f) := by
  intro r s b t h
  rw [run_bind] at h
  revert h
  rcases d r s with ⟨_ | a, u⟩
  · intro h; cases h
  · exact hf a r u b t

theorem Yields.ite {Q : α → Prop} {b : Prop} [Decidable b] {d e : Decoding ρ σ α}
    (hd : Yields Q d) (he : Yields Q e) : Yields Q (if b then d else e) := by
  split
  · exact hd
  · exact he

variable [HasCursor σ] {P : α → Prop}

theorem Continued.continuedFor {d e : Decoding ρ σ α} (h : Continued C x d e) :
    ContinuedFor P C x d e :=
  fun r r' s a t _ => h.run r r' s a t

/-- A decoding none of whose results satisfies `P`. -/
theorem ContinuedFor.of_yields {d e : Decoding ρ σ α} (h : Yields (¬ P ·) d) :
    ContinuedFor P C x d e :=
  fun r _ s a t ha _ hrun => absurd ha (h r s a t hrun)

/-- Of what `d` finds, only that matters which can lead to a result with `Q`. -/
theorem ContinuedFor.bind {Q : β → Prop} {d e : Decoding ρ σ α} {f f' : α → Decoding ρ σ β}
    (hd : ContinuedFor P C x d e) (hf : ∀ a, ContinuedFor Q C x (f a) (f' a))
    (hQ : ∀ a, Yields (fun b => Q b → P a) (f a)) : ContinuedFor Q C x (d >>= f) (e >>= f') := by
  intro r r' s b t hb hr h
  have hd := fun a u ha => hd r r' s a u ha hr
  rw [run_bind] at h ⊢
  revert h hd
  rcases d r s with ⟨_ | a, u⟩
  · intro h; cases h
  · intro h hd
    rw [hd a u (hQ a r u b t h hb) rfl]
    exact hf a r r' u b t hb hr h

/-- What a step gives decides only whether the next one is continued. -/
theorem Continued.bind_for {Q : β → Prop} {d e : Decoding ρ σ α} {f f' : α → Decoding ρ σ β}
    (hd : Continued C x d e) (hf : ∀ a, ContinuedFor Q C x (f a) (f' a)) :
    ContinuedFor Q C x (d >>= f) (e >>= f') :=
  (hd.continuedFor (P := fun _ => True)).bind hf fun _ _ _ _ _ _ _ => trivial

theorem ContinuedFor.ite {b : Prop} [Decidable b] {d d' e e' : Decoding ρ σ α}
    (hd : ContinuedFor P C x d d') (he : ContinuedFor P C x e e') :
    ContinuedFor P C x (if b then d else e) (if b then d' else e') := by
  split
  · exact hd
  · exact he

variable [LawfulCursor σ]

theorem continuedFor_remaining {f : Nat → Decoding ρ σ α}
    (hf : ∀ n m, n ≤ m → ContinuedFor P C x (f n) (f m)) :
    ContinuedFor P C x (remaining >>= f) (remaining >>= f) := by
  intro r r' s a t ha hr h
  refine hf _ _ ?_ r r' s a t ha hr h
  show _ ≤ (HasCursor.cursor (extend s x)).rest.length
  rw [cursor_extend, Cursor.extend, List.length_append]
  exact Nat.le_add_right _ _

theorem continuedFor_manyUntilFrom {c : Char} (hc : c.toUInt8 ∉ x.head?) {d : Decoding ρ σ α}
    (hd : ContinuedFor P C x d d) {n m : Nat} (h : n ≤ m) :
    ContinuedFor (∀ a ∈ ·, P a) C x (manyUntilFrom n c d) (manyUntilFrom m c d) := by
  induction n generalizing m with
  | zero =>
    have hfail : Continued C x failure (manyUntilFrom m c d) := inferInstance
    exact hfail.continuedFor
  | succ n ih =>
    obtain ⟨m, rfl⟩ : ∃ k, m = k + 1 := ⟨m - 1, by omega⟩
    have hnext : Stable C x (nextIf c : Decoding ρ σ Bool) := stable_nextIf hc
    have hret (as : List α) : Stable C x (pure as : Decoding ρ σ (List α)) := inferInstance
    rw [manyUntilFrom, manyUntilFrom]
    -- the list ends here, or an item comes first that has `P` if the whole list has
    refine hnext.bind_for fun _ => .ite (hret []).continuedFor (hd.bind (fun a => ?_) fun a => ?_)
    · refine (ih (m := m) (by omega)).bind (fun as => (hret _).continuedFor) fun as => .ret ?_
      exact fun hall b hb => hall b (List.mem_cons_of_mem a hb)
    · exact .bind fun as => .ret fun hall => hall a List.mem_cons_self

/-- The items of a list are found one by one, so those of a list with `P` are. -/
theorem continuedFor_manyUntil {c : Char} (hc : c.toUInt8 ∉ x.head?) {d : Decoding ρ σ α}
    (hd : ContinuedFor P C x d d) :
    ContinuedFor (∀ a ∈ ·, P a) C x (manyUntil c d) (manyUntil c d) :=
  continuedFor_remaining fun _ _ h => continuedFor_manyUntilFrom hc hd (Nat.succ_le_succ h)

end Decoding

end SwiftMangling
