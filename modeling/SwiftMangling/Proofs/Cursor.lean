import SwiftMangling.Cursor

/-!
# Cursors move forward

No reading moves a cursor back, and the readings that return a byte, a number or an index move it
past at least one byte. What a reading returns tells which bytes come next.
-/

namespace SwiftMangling.Cursor

variable {α : Type}

/-- The cursor operation moves forward, past at least one byte if its result satisfies `P`. -/
structure Forward (P : α → Prop) (f : Cursor → Option α × Cursor) : Prop where
  le : ∀ c, (f c).2.rest.length ≤ c.rest.length
  lt : ∀ c a, (f c).1 = some a → P a → (f c).2.rest.length < c.rest.length

theorem rest_skip (c : Cursor) (n : Nat) : (c.skip n).rest = c.rest.drop n := by
  induction n generalizing c with
  | zero => rfl
  | succ n ih =>
    obtain ⟨before, rest⟩ := c
    cases rest with
    | nil => rfl
    | cons b r => rw [skip, ih, List.drop_succ_cons]

theorem skip_append (before p rest : List UInt8) :
    (⟨before, p ++ rest⟩ : Cursor).skip p.length = ⟨p.reverse ++ before, rest⟩ := by
  induction p generalizing before with
  | nil => rfl
  | cons b p ih =>
    show (⟨b :: before, p ++ rest⟩ : Cursor).skip p.length = _
    rw [ih, List.reverse_cons, List.append_assoc]
    rfl

/-- Skipping any number of bytes moves forward. -/
theorem forward_skip (f : Cursor → α) (n : Cursor → Nat) :
    Forward (fun _ => False) fun c => (some (f c), c.skip (n c)) where
  le c := by
    rw [rest_skip, List.length_drop]
    exact Nat.sub_le ..
  lt _ _ _ hp := hp.elim

theorem forward_next : Forward (fun _ => True) next where
  le c := by
    obtain ⟨before, _ | ⟨b, r⟩⟩ := c <;> simp [next]
  lt c a ha _ := by
    obtain ⟨before, _ | ⟨b, r⟩⟩ := c <;> simp [next] at ha ⊢

theorem rest_nextIf (c : Cursor) (b : UInt8) :
    (c.nextIf b).2.rest = if (c.nextIf b).1 then c.rest.drop 1 else c.rest := by
  obtain ⟨before, _ | ⟨a, r⟩⟩ := c
  · rfl
  · by_cases ha : (a == b) = true <;> simp [nextIf, nextWhere, ha]

theorem nextIf_ne_nil {c : Cursor} {b : UInt8} (h : (c.nextIf b).1 = true) : c.rest ≠ [] := by
  obtain ⟨before, _ | ⟨a, r⟩⟩ := c
  · cases h
  · simp

theorem forward_nextIf (b : UInt8) :
    Forward (· = true) fun c => (some (c.nextIf b).1, (c.nextIf b).2) where
  le c := by
    dsimp only
    rw [rest_nextIf]
    split <;> simp
  lt c a ha hb := by
    obtain rfl := Option.some.inj ha
    have := List.length_pos_iff.mpr (nextIf_ne_nil hb)
    dsimp only
    rw [rest_nextIf, if_pos hb, List.length_drop]
    omega

theorem forward_nextIfBytes {s : List UInt8} (hs : s ≠ []) :
    Forward (· = true) fun c => (some (c.nextIfBytes s).1, (c.nextIfBytes s).2) where
  le c := by
    dsimp only
    unfold nextIfBytes
    split <;> simp [rest_skip]
  lt c a ha hb := by
    obtain rfl := Option.some.inj ha
    dsimp only at hb ⊢
    unfold nextIfBytes at hb ⊢
    split at hb
    next hprefix =>
      have hle := (List.isPrefixOf_iff_prefix.mp hprefix).length_le
      have := List.length_pos_iff.mpr hs
      rw [if_pos hprefix, rest_skip, List.length_drop]
      omega
    next => cases hb

theorem length_rest_digits (bound value : Nat) (before rest : List UInt8) :
    (digits bound value before rest).2.rest.length ≤ rest.length := by
  -- by induction on what is left; the run ends at the first byte that is no digit, or that makes
  -- the value too large
  induction rest generalizing value before with
  | nil => simp [digits]
  | cons b r ih =>
    rw [digits]
    split
    · dsimp only
      split
      · have := ih (value * 10 + (b.toNat - 0x30)) (b :: before)
        simp only [List.length_cons]
        omega
      · simp
    · simp

theorem forward_natural (width : Nat) : Forward (fun _ => True) (·.natural width) := by
  have hlt (c : Cursor) (hd : c.peekDigit = true) (a : Nat)
      (ha : (digits (1 <<< width) 0 c.before c.rest).1 = some a) :
      (digits (1 <<< width) 0 c.before c.rest).2.rest.length < c.rest.length := by
    -- the first digit is there, so at least one byte is read
    obtain ⟨before, _ | ⟨b, r⟩⟩ := c
    · cases hd
    · have hb : isDigit b = true := hd
      rw [digits, if_pos hb] at ha ⊢
      dsimp only at ha ⊢
      split at ha
      next hbound =>
        rw [if_pos hbound]
        have := length_rest_digits (1 <<< width) (0 * 10 + (b.toNat - 0x30)) (b :: before) r
        simp only [List.length_cons]
        omega
      next => cases ha
  constructor
  · intro c
    unfold natural
    split
    · exact length_rest_digits _ _ _ _
    · exact Nat.le_refl _
  · intro c a ha _
    unfold natural at ha ⊢
    split at ha
    next hd => rw [if_pos hd]; exact hlt c hd a ha
    next => cases ha

/-- Less is left exactly if what is asked for comes next. -/
theorem length_rest_nextIf (c : Cursor) (b : UInt8) :
    (c.nextIf b).2.rest.length ≤ c.rest.length ∧
      ((c.nextIf b).1 = true → (c.nextIf b).2.rest.length < c.rest.length) :=
  ⟨(forward_nextIf b).le c, (forward_nextIf b).lt c _ rfl⟩

/-- An index that is read has at least its end mark, so something is read. -/
theorem length_rest_index (c : Cursor) :
    c.index.2.rest.length ≤ c.rest.length ∧
      (c.index.1.isSome = true → c.index.2.rest.length < c.rest.length) := by
  have hunder := length_rest_nextIf c 0x5F
  unfold index
  revert hunder
  rcases c.nextIf 0x5F with ⟨_ | _, c₁⟩
  -- a `_` alone is an index already
  case true => exact fun hunder => ⟨hunder.1, fun _ => hunder.2 rfl⟩
  intro hunder
  have hnatural := (forward_natural 64).le c₁
  have hdigit := (forward_natural 64).lt c₁
  dsimp only at hunder ⊢
  revert hnatural hdigit
  rcases c₁.natural 64 with ⟨_ | n, c₂⟩
  case none => exact fun hnatural _ => ⟨Nat.le_trans hnatural hunder.1, fun h => by cases h⟩
  intro hnatural hdigit
  have hlt := hdigit n rfl trivial
  have hend := length_rest_nextIf c₂ 0x5F
  dsimp only at hlt ⊢
  revert hend
  rcases c₂.nextIf 0x5F with ⟨_ | _, c₃⟩
  all_goals
    intro hend
    dsimp only at hend ⊢
    exact ⟨by omega, fun _ => by omega⟩

theorem forward_index : Forward (fun _ => True) index where
  le c := (length_rest_index c).1
  lt c a ha _ := (length_rest_index c).2 (by rw [ha]; rfl)

theorem length_rest_slice (c : Cursor) (n : Nat) :
    (c.slice n).2.rest.length ≤ c.rest.length := by
  unfold slice
  split
  · simp [rest_skip]
  · exact Nat.le_refl _

theorem forward_text (n : Nat) : Forward (fun _ => False) (·.text n) where
  le c := by
    have hslice := length_rest_slice c n
    unfold text
    revert hslice
    rcases c.slice n with ⟨_ | b, c'⟩
    · exact id
    · intro hslice
      dsimp only
      split
      · exact hslice
      · exact Nat.le_refl _
  lt _ _ _ h := h.elim

/-! ## What comes next -/

theorem nextIfBytes_append (before s rest : List UInt8) :
    (⟨before, s ++ rest⟩ : Cursor).nextIfBytes s = (true, ⟨s.reverse ++ before, rest⟩) := by
  have hprefix : s.isPrefixOf (s ++ rest) = true :=
    List.isPrefixOf_iff_prefix.mpr (List.prefix_append s rest)
  rw [nextIfBytes, if_pos hprefix, skip_append]

theorem nextIfBytes_of_not_isPrefix {c : Cursor} {s : List UInt8} (h : ¬ s <+: c.rest) :
    c.nextIfBytes s = (false, c) :=
  if_neg fun hprefix => h (List.isPrefixOf_iff_prefix.mp hprefix)

theorem text_eq_some {c c' : Cursor} {n : Nat} {s : String} (h : c.text n = (some s, c')) :
    c'.rest = c.rest.drop n := by
  unfold text slice at h
  by_cases hn : n ≤ c.rest.length
  · rw [if_pos hn] at h
    dsimp only at h
    cases hdecode : Utf8.decode? (c.rest.take n) with
    | none => simp [hdecode] at h
    | some t =>
      rw [hdecode] at h
      have hskip : c.skip n = c' := congrArg Prod.snd h
      rw [← hskip, rest_skip]
  · rw [if_neg hn] at h
    cases h

/-- A number that is read starts with a digit. -/
theorem natural_eq_some {c c' : Cursor} {width n : Nat} (h : c.natural width = (some n, c')) :
    ∃ b rest, c.rest = b :: rest ∧ isDigit b = true := by
  unfold natural at h
  by_cases hd : c.peekDigit = true
  · obtain ⟨before, _ | ⟨b, rest⟩⟩ := c
    · cases hd
    · exact ⟨b, rest, rfl, hd⟩
  · rw [if_neg hd] at h
    cases h

/-- The ten digits follow each other. -/
theorem isDigit_eq {b : UInt8} (h : isDigit b = true) : ∃ d < 10, b = UInt8.ofNat (0x30 + d) := by
  obtain ⟨hlow, hhigh⟩ : 0x30 ≤ b.toNat ∧ b.toNat ≤ 0x39 := by
    simpa [isDigit, UInt8.le_iff_toNat_le] using h
  refine ⟨b.toNat - 0x30, by omega, ?_⟩
  rw [Nat.add_sub_cancel' hlow, UInt8.ofNat_toNat]

theorem nextIf_of_head {c : Cursor} {a b : UInt8} {rest : List UInt8} (hrest : c.rest = a :: rest)
    (hab : a ≠ b) : c.nextIf b = (false, c) := by
  obtain ⟨before, _⟩ := c
  subst hrest
  simp [nextIf, nextWhere, hab]

/-- What is asked for comes next, and the cursor stands behind it. -/
theorem nextIf_eq_true {c c' : Cursor} {b : UInt8} (h : c.nextIf b = (true, c')) :
    ∃ rest, c.rest = b :: rest ∧ c' = ⟨b :: c.before, rest⟩ := by
  obtain ⟨before, _ | ⟨a, rest⟩⟩ := c
  · cases h
  · by_cases hab : a = b
    · subst hab
      refine ⟨rest, rfl, ?_⟩
      simpa [nextIf, nextWhere] using h.symm
    · rw [nextIf_of_head rfl hab] at h
      cases h

/-- What is asked for does not come next, and the cursor stays. -/
theorem nextIf_eq_false {c c' : Cursor} {b : UInt8} (h : c.nextIf b = (false, c')) :
    c' = c ∧ c.rest.head? ≠ some b := by
  obtain ⟨before, _ | ⟨a, rest⟩⟩ := c
  · exact ⟨(congrArg Prod.snd h).symm, nofun⟩
  · by_cases hab : a = b
    · subst hab
      simp [nextIf, nextWhere] at h
    · rw [nextIf_of_head rfl hab] at h
      exact ⟨(congrArg Prod.snd h).symm, by simpa using hab⟩

end SwiftMangling.Cursor
