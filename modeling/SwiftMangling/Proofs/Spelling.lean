import SwiftMangling.Proofs.Continuation
import SwiftMangling.Proofs.Decimal

/-!
# Readings of a spelled input

Both decoders read through a cursor in their state. What a decoding does where the input is known is
said by `ReadsExactly`: in front of any rest it reads exactly the spelling and finds its value, and
nothing but the place in the input changes. The rules follow the readings, so that a production is
taken through its spelling step by step, whichever of the decoders it belongs to.
-/

namespace SwiftMangling

/-- The spelling of an index: `_` for 0, and for any other one the number before it and `_`. -/
def spelledIndex : Nat → List UInt8
  | 0 => ['_'.toUInt8]
  | n + 1 => decimal n ++ ['_'.toUInt8]

/-- An index starts with `_` or with a digit. -/
theorem spelledIndex_eq_cons (n : Nat) :
    ∃ b bs, spelledIndex n = b :: bs ∧ (b = '_'.toUInt8 ∨ Cursor.isDigit b = true) := by
  cases n with
  | zero => exact ⟨_, [], rfl, .inl rfl⟩
  | succ n =>
    obtain ⟨b, ds, hds, hb⟩ := Cursor.decimal_eq_cons n
    exact ⟨b, ds ++ ['_'.toUInt8], by rw [spelledIndex, hds, List.cons_append], .inr hb⟩

/-- No other byte can come next. -/
theorem clear_spelledIndex {x : UInt8} (hunder : x ≠ '_'.toUInt8)
    (hdigit : Cursor.isDigit x = false) (n : Nat) (rest : List UInt8) :
    Clear (· == x) (spelledIndex n ++ rest) := by
  obtain ⟨b, bs, hspelling, hb⟩ := spelledIndex_eq_cons n
  rw [hspelling]
  refine .cons (beq_eq_false_iff_ne.mpr ?_)
  rintro rfl
  rcases hb with hb | hb
  · exact hunder hb
  · rw [hdigit] at hb
    cases hb

/-- An index of 64 bits is read back from its spelling, the largest one too. -/
theorem Cursor.index_spelledIndex {n : Nat} (hn : n < UInt64.size) (before rest : List UInt8) :
    (⟨before, spelledIndex n ++ rest⟩ : Cursor).index =
      (some n, ⟨(spelledIndex n).reverse ++ before, rest⟩) := by
  have hend (before : List UInt8) : (⟨before, '_'.toUInt8 :: rest⟩ : Cursor).nextIf 0x5F =
      (true, ⟨'_'.toUInt8 :: before, rest⟩) := rfl
  cases n with
  | zero => rfl
  | succ n =>
    have hbound : n < 1 <<< 64 := Nat.lt_of_succ_lt hn
    have hnumber : (⟨before, decimal n ++ '_'.toUInt8 :: rest⟩ : Cursor).natural 64 =
        (some n, ⟨(decimal n).reverse ++ before, '_'.toUInt8 :: rest⟩) :=
      Cursor.natural_decimal hbound (.cons rfl) before
    -- an index above zero starts with a digit and not with the underscore
    have hstart : (⟨before, decimal n ++ '_'.toUInt8 :: rest⟩ : Cursor).nextIf 0x5F =
        (false, ⟨before, decimal n ++ '_'.toUInt8 :: rest⟩) := by
      obtain ⟨b, ds, hds, hb⟩ := Cursor.decimal_eq_cons n
      rw [hds]
      exact Cursor.nextIf_of_head rfl fun h => by subst h; cases hb
    have hspelling : spelledIndex (n + 1) ++ rest = decimal n ++ '_'.toUInt8 :: rest := by
      rw [spelledIndex, List.append_assoc, List.singleton_append]
    rw [hspelling, Cursor.index, hstart]
    dsimp only
    rw [hnumber]
    dsimp only
    rw [hend, spelledIndex, List.reverse_append]
    dsimp only
    rw [if_pos hn]
    rfl

namespace Decoding

variable {ρ σ α β : Type} [HasCursor σ] {r : ρ} {s : σ} {d : Decoding ρ σ α}
  {f : α → Decoding ρ σ β} {a : α} {b : β} {p q rest : List UInt8}

/-- In front of `rest`, the decoding reads `spelling` and finds `a`. -/
def ReadsExactly (r : ρ) (s : σ) (d : Decoding ρ σ α) (spelling rest : List UInt8) (a : α) : Prop :=
  ∀ before, d r (HasCursor.withCursor s ⟨before, spelling ++ rest⟩) =
    (some a, HasCursor.withCursor s ⟨spelling.reverse ++ before, rest⟩)

namespace ReadsExactly

theorem ret : ReadsExactly r s (pure a) [] rest a :=
  fun _ => rfl

theorem bind (hd : ReadsExactly r s d p (q ++ rest) a) (hf : ReadsExactly r s (f a) q rest b) :
    ReadsExactly r s (d >>= f) (p ++ q) rest b := by
  intro before
  have hfirst := hd before
  rw [← List.append_assoc] at hfirst
  rw [run_bind_of_eq hfirst, hf (p.reverse ++ before), List.reverse_append, List.append_assoc]

/-- A step that reads nothing. -/
theorem step (hd : ReadsExactly r s d [] (q ++ rest) a) (hf : ReadsExactly r s (f a) q rest b) :
    ReadsExactly r s (d >>= f) q rest b :=
  bind hd hf

/-- A step after which nothing is read. -/
theorem last (hd : ReadsExactly r s d p rest a) (hf : ReadsExactly r s (f a) [] rest b) :
    ReadsExactly r s (d >>= f) p rest b := by
  have h := bind (q := []) hd hf
  rwa [List.append_nil] at h

theorem require {x : Bool} (h : x = true) : ReadsExactly r s (require x) [] rest () := by
  subst h
  exact ret

theorem ofOption {m : Option α} (h : m = some a) : ReadsExactly r s (ofOption m) [] rest a := by
  subst h
  exact fun _ => rfl

theorem successor {n : Nat} (h : n + 1 < UInt64.size) :
    ReadsExactly r s (successor n) [] rest (n + 1) :=
  last (require (decide_eq_true h)) ret

variable [LawfulCursor σ]

theorem scan {g : Cursor → Option α × Cursor}
    (h : ∀ before, g ⟨before, p ++ rest⟩ = (some a, ⟨p.reverse ++ before, rest⟩)) :
    ReadsExactly r s (scan g) p rest a := by
  intro before
  rw [run_scan, LawfulCursor.cursor_withCursor, LawfulCursor.withCursor_withCursor, h before]

theorem move {g : Cursor → α × Cursor}
    (h : ∀ before, g ⟨before, p ++ rest⟩ = (a, ⟨p.reverse ++ before, rest⟩)) :
    ReadsExactly r s (move g) p rest a :=
  scan fun before => by rw [h before]

theorem look {g : Cursor → α} (h : ∀ before, g ⟨before, rest⟩ = a) :
    ReadsExactly r s (look g) [] rest a := by
  intro before
  rw [run_look, LawfulCursor.cursor_withCursor]
  exact congrArg (fun x => (some x, _)) (h before)

theorem nextByte {x : UInt8} : ReadsExactly r s nextByte [x] rest x :=
  scan fun _ => rfl

theorem nextChar {x : UInt8} : ReadsExactly r s nextChar [x] rest (charOfByte x) :=
  last nextByte ret

theorem nextIf {c : Char} : ReadsExactly r s (nextIf c) [c.toUInt8] rest true :=
  move fun _ => by simp [Cursor.nextIf, Cursor.nextWhere]

theorem nextIf_false {c : Char} (h : Clear (· == c.toUInt8) rest) :
    ReadsExactly r s (Decoding.nextIf c) [] rest false := by
  refine move fun before => ?_
  cases rest with
  | nil => rfl
  | cons x rest => exact Cursor.nextIf_of_head rfl (by simpa using h x rfl)

theorem peekChar? : ReadsExactly r s peekChar? [] rest (rest.head?.map charOfByte) :=
  look fun _ => rfl

theorem natural {n : Nat} (hn : n < UInt64.size) (h : Clear Cursor.isDigit rest) :
    ReadsExactly r s natural (decimal n) rest n :=
  scan (Cursor.natural_decimal (show n < 1 <<< 64 from hn) h)

theorem index {n : Nat} (hn : n < UInt64.size) : ReadsExactly r s index (spelledIndex n) rest n :=
  scan fun before => Cursor.index_spelledIndex hn before rest

end ReadsExactly

end Decoding

end SwiftMangling
