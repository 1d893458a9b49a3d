import SwiftMangling.Proofs.Continuation

/-!
# Decoding behind another beginning

A decoding works on the input from its place on. What was read before matters only where it steps
back, and it steps back over no more than it has read itself. `Beside` relates two states at the
same place of one input that stands behind two beginnings. `Paired` says that two decodings take
such states to such states, with the same result, whether they succeed or fail; a decoding that is
paired with itself does not depend on what stands before it.
-/

namespace SwiftMangling

/-! ## Cursors -/

namespace Cursor

variable {α β : Type}

/-- From the bytes `rest` on, the operation moves over some of them, and neither how far nor what it
returns depends on the bytes before. -/
def ReadingAt (rest : List UInt8) (f : Cursor → α × Cursor) : Prop :=
  ∃ a l rest', l.reverse ++ rest' = rest ∧ ∀ before, f ⟨before, rest⟩ = (a, ⟨l ++ before, rest'⟩)

/-- What the operation does depends on the bytes to come only, and it moves over some of them. -/
def Reading (f : Cursor → α × Cursor) : Prop :=
  ∀ rest, ReadingAt rest f

theorem ReadingAt.stay {f : Cursor → α × Cursor} {rest : List UInt8} (a : α)
    (h : ∀ before, f ⟨before, rest⟩ = (a, ⟨before, rest⟩)) : ReadingAt rest f :=
  ⟨a, [], rest, rfl, h⟩

theorem skip_eq (before rest : List UInt8) (n : Nat) :
    (⟨before, rest⟩ : Cursor).skip n = ⟨(rest.take n).reverse ++ before, rest.drop n⟩ := by
  induction n generalizing before rest with
  | zero => rfl
  | succ n ih =>
    cases rest with
    | nil => rfl
    | cons b r =>
      show (⟨b :: before, r⟩ : Cursor).skip n = _
      simp [ih]

theorem ReadingAt.skip {f : Cursor → α × Cursor} {rest : List UInt8} (a : α) (n : Nat)
    (h : ∀ before, f ⟨before, rest⟩ = (a, (⟨before, rest⟩ : Cursor).skip n)) :
    ReadingAt rest f := by
  refine ⟨a, (rest.take n).reverse, rest.drop n, ?_, fun before => ?_⟩
  · rw [List.reverse_reverse, List.take_append_drop]
  · rw [h, skip_eq]

theorem reading_next : Reading next := by
  rintro (_ | ⟨b, rest⟩)
  · exact .stay none fun _ => rfl
  · exact .skip (some b) 1 fun _ => rfl

theorem reading_nextIf (b : UInt8) : Reading (·.nextIf b) := by
  rintro (_ | ⟨a, rest⟩)
  · exact .stay false fun _ => rfl
  · by_cases hab : (a == b) = true
    · exact .skip true 1 fun _ => by simp [nextIf, nextWhere, hab, Cursor.skip]
    · exact .stay false fun _ => by simp [nextIf, nextWhere, hab]

theorem reading_nextIfBytes (s : List UInt8) : Reading (·.nextIfBytes s) := by
  intro rest
  by_cases hs : s.isPrefixOf rest = true
  · exact .skip true s.length fun _ => if_pos hs
  · exact .stay false fun _ => if_neg hs

theorem reading_takeRest : Reading takeRest :=
  fun rest => .skip rest rest.length fun _ => rfl

theorem reading_slice (n : Nat) : Reading (·.slice n) := by
  intro rest
  by_cases hn : n ≤ rest.length
  · exact .skip (some (rest.take n)) n fun _ => if_pos hn
  · exact .stay none fun _ => if_neg hn

/-- A slice that is no text stays unread. -/
theorem reading_text (n : Nat) : Reading (·.text n) := by
  intro rest
  obtain ⟨a, l, rest', hl, hslice⟩ := reading_slice n rest
  dsimp only at hslice
  cases a with
  | none => exact ⟨none, l, rest', hl, fun before => by simp [text, hslice]⟩
  | some bytes =>
    cases hdecode : Utf8.decode? bytes with
    | none => exact .stay none fun _ => by simp [text, hslice, hdecode]
    | some s => exact ⟨some s, l, rest', hl, fun before => by simp [text, hslice, hdecode]⟩

/-- Digits are read the same wherever the cursor stands. -/
theorem digits_readingAt (bound value : Nat) (rest : List UInt8) :
    ReadingAt rest fun c => digits bound value c.before c.rest := by
  induction rest generalizing value with
  | nil => exact .stay (some value) fun _ => rfl
  | cons b rest ih =>
    by_cases hb : isDigit b = true
    · by_cases hvalue : value * 10 + (b.toNat - 0x30) < bound
      · obtain ⟨a, l, rest', rfl, hrun⟩ := ih (value * 10 + (b.toNat - 0x30))
        dsimp only at hrun
        refine ⟨a, l ++ [b], rest', by simp, fun before => ?_⟩
        simp [digits, hb, hvalue, hrun]
      · exact .stay none fun _ => by simp [digits, hb, hvalue]
    · exact .stay (some value) fun _ => by simp [digits, hb]

theorem reading_natural (width : Nat) : Reading (·.natural width) := by
  intro rest
  by_cases hd : rest.head?.any isDigit = true
  · obtain ⟨a, l, rest', hl, hrun⟩ := digits_readingAt (1 <<< width) 0 rest
    exact ⟨a, l, rest', hl, fun before => (if_pos hd).trans (hrun before)⟩
  · exact .stay none fun _ => if_neg hd

theorem reading_index : Reading index := by
  intro rest
  obtain ⟨found, l, rest₁, rfl, hunder⟩ := reading_nextIf 0x5F rest
  dsimp only at hunder
  cases found with
  | true => exact ⟨some 0, l, rest₁, rfl, fun before => by simp [index, hunder]⟩
  | false =>
    -- a number has to come first, and then a `_`
    obtain ⟨n, l₂, rest₂, rfl, hnatural⟩ := reading_natural 64 rest₁
    dsimp only at hnatural
    cases n with
    | none =>
      exact ⟨none, l₂ ++ l, rest₂, by simp, fun before => by simp [index, hunder, hnatural]⟩
    | some n =>
      obtain ⟨found, l₃, rest₃, rfl, hend⟩ := reading_nextIf 0x5F rest₂
      dsimp only at hend
      cases found with
      | true =>
        exact ⟨if n + 1 < UInt64.size then some (n + 1) else none, l₃ ++ (l₂ ++ l), rest₃, by simp,
          fun before => by simp [index, hunder, hnatural, hend]⟩
      | false =>
        exact ⟨none, l₃ ++ (l₂ ++ l), rest₃, by simp,
          fun before => by simp [index, hunder, hnatural, hend]⟩

end Cursor

/-! ## The relations -/

namespace Decoding

variable {ρ σ α β γ : Type} [HasCursor σ] {C : ρ → ρ → Prop} {I : σ → Prop} {N j k : Nat}

/-- The states `s` and `s'` are at the same place of the input `x`, of which `l` has been read, the
last byte first. The input stands behind `b` in `s` and behind `b'` in `s'`, and nothing else is
different. The invariant `I` holds. -/
structure Beside (I : σ → Prop) (b b' x l : List UInt8) (s s' : σ) : Prop where
  keeps : I s
  before : (HasCursor.cursor s).before = l ++ b
  input : l.reverse ++ (HasCursor.cursor s).rest = x
  same : s' = HasCursor.withCursor s ⟨l ++ b', (HasCursor.cursor s).rest⟩

namespace Beside

variable {b b' x l l' : List UInt8} {s s' t t' : σ}

/-- What has been read can be counted among the beginnings. -/
theorem here (h : Beside I b b' x l s s') :
    Beside I (l ++ b) (l ++ b') (HasCursor.cursor s).rest [] s s' :=
  ⟨h.keeps, h.before, rfl, h.same⟩

/-- What is read after that has been read, too. -/
theorem behind (h : Beside I b b' x l s s')
    (ht : Beside I (l ++ b) (l ++ b') (HasCursor.cursor s).rest l' t t') :
    Beside I b b' x (l' ++ l) t t' where
  keeps := ht.keeps
  before := by rw [ht.before, List.append_assoc]
  input := by rw [List.reverse_append, List.append_assoc, ht.input, h.input]
  same := by rw [List.append_assoc, ← ht.same]

theorem length_add (h : Beside I b b' x l s s') :
    l.length + (HasCursor.cursor s).rest.length = x.length := by
  rw [← h.input, List.length_append, List.length_reverse]

end Beside

/-- Behind any two beginnings of an input of at most `N` bytes, of which at least `j + k` have been
read, `d` and `e` return the same and go to the same place. They step back over at most `k` of the
bytes that have been read. -/
class Paired (C : ρ → ρ → Prop) (I : σ → Prop) (N j k : Nat) (d e : Decoding ρ σ α) : Prop where
  run : ∀ {r r' b b' x l s s'}, C r r' → x.length ≤ N → j + k ≤ l.length →
    Beside I b b' x l s s' → (e r' s').1 = (d r s).1 ∧
      ∃ l', l.length ≤ l'.length + k ∧ Beside I b b' x l' (d r s).2 (e r' s').2

/-- The decoding does not depend on what stands before the input, provided that at least `j` bytes
of it have been read, and it does not step back over them. -/
abbrev Local (C : ρ → ρ → Prop) (I : σ → Prop) (N j : Nat) (d : Decoding ρ σ α) : Prop :=
  Paired C I N j 0 d d

/-- A byte that may be stepped back over need not be. -/
instance (priority := low) Paired.weaken {d e : Decoding ρ σ α} [h : Paired C I N (j + 1) k d e] :
    Paired C I N j (k + 1) d e where
  run hr hx hl hs := by
    obtain ⟨hresult, l', hl', hs'⟩ := h.run hr hx (by omega) hs
    exact ⟨hresult, l', by omega, hs'⟩

theorem Paired.bind {d d' : Decoding ρ σ α} {f f' : α → Decoding ρ σ β}
    (hd : Paired C I N j 0 d d') (hf : ∀ a, Paired C I N j 0 (f a) (f' a)) :
    Paired C I N j 0 (d >>= f) (d' >>= f') where
  run {r r' b b' x l s s'} hr hx hl hs := by
    obtain ⟨hresult, l₁, hl₁, hs₁⟩ := hd.run hr hx hl hs
    rw [run_bind, run_bind]
    revert hresult hs₁
    rcases d r s with ⟨_ | a, t⟩ <;> rcases d' r' s' with ⟨a', t'⟩ <;> rintro ⟨⟩ hs₁
    · exact ⟨rfl, l₁, hl₁, hs₁⟩
    · obtain ⟨hresult, l₂, hl₂, hs₂⟩ := (hf a).run hr hx (by omega) hs₁
      exact ⟨hresult, l₂, by omega, hs₂⟩

instance {d d' : Decoding ρ σ α} {f f' : α → Decoding ρ σ β} [hd : Paired C I N j 0 d d']
    [hf : ∀ a, Paired C I N j 0 (f a) (f' a)] : Paired C I N j 0 (d >>= f) (d' >>= f') :=
  hd.bind hf

theorem Paired.ite {b : Prop} [Decidable b] {d d' e e' : Decoding ρ σ α}
    (hd : Paired C I N j k d d') (he : Paired C I N j k e e') :
    Paired C I N j k (if b then d else e) (if b then d' else e') := by
  split
  · exact hd
  · exact he

instance {b : Prop} [Decidable b] {d d' e e' : Decoding ρ σ α} [hd : Paired C I N j k d d']
    [he : Paired C I N j k e e'] : Paired C I N j k (if b then d else e) (if b then d' else e') :=
  hd.ite he

/-- A decoding that leaves the state alone and whose result does not depend on it. -/
theorem Paired.of_const {d : Decoding ρ σ α} {a : Option α} (h : ∀ r s, d r s = (a, s)) :
    Paired C I N j k d d where
  run {r r' b b' x l s s'} _ _ _ hs := by
    rw [h, h]
    exact ⟨rfl, l, by omega, hs⟩

instance {a : α} : Paired C I N j k (pure a : Decoding ρ σ α) (pure a) :=
  .of_const fun _ _ => rfl

instance : Paired C I N j k (failure : Decoding ρ σ α) failure :=
  .of_const fun _ _ => rfl

instance {m : Option α} : Paired C I N j k (ofOption m : Decoding ρ σ α) (ofOption m) :=
  .of_const fun _ _ => rfl

instance {b : Bool} : Paired C I N j k (require b : Decoding ρ σ Unit) (require b) := by
  unfold require
  exact .ite inferInstance (inferInstanceAs (Paired C I N j k failure failure))

instance {n : Nat} : Local C I N j (successor n : Decoding ρ σ Nat) :=
  inferInstanceAs (Local C I N j (_ >>= _))

instance {d d' : Decoding ρ σ α} {f : α → β} [Paired C I N j 0 d d'] :
    Paired C I N j 0 (f <$> d) (f <$> d') := by
  rw [map_eq_pure_bind, map_eq_pure_bind]
  infer_instance

instance {d : Decoding ρ σ α} [hd : Local C I N j d] : Local C I N j (attempt d) where
  run hr hx hl hs := by
    obtain ⟨hresult, hend⟩ := hd.run hr hx hl hs
    rw [run_attempt, run_attempt, hresult]
    exact ⟨rfl, hend⟩

instance {d : Decoding ρ σ α} [Local C I N j d] {n : Nat} : Local C I N j (many n d) := by
  induction n with
  | zero => exact inferInstanceAs (Local C I N j (pure []))
  | succ n ih =>
    refine .bind (d := attempt d) inferInstance fun m => ?_
    cases m <;> dsimp only <;> infer_instance

/-- A decoding that never looks at the input, and keeps the invariant. -/
theorem Blind.local {C' : ρ → ρ → Prop} {d : Decoding ρ σ α} (hd : Blind C' d)
    (hC : ∀ {r r'}, C r r' → C' r r') (hI : ∀ r s, I s → I (d r s).2) : Local C I N j d where
  run {r r' b b' x l s s'} hr _ _ hs := by
    obtain ⟨hkeeps, hbefore, hinput, rfl⟩ := hs
    rw [hd.run r r' s _ (hC hr)]
    refine ⟨rfl, l, by omega, hI r s hkeeps, ?_, ?_, ?_⟩
    · rw [hd.cursor, hbefore]
    · rw [hd.cursor, hinput]
    · rw [hd.cursor]

/-! ## Readings -/

variable [LawfulCursor σ]

/-- A look is the same in both runs if it sees only what is left. -/
theorem local_look {f : Cursor → α} (hf : ∀ b b' rest, f ⟨b, rest⟩ = f ⟨b', rest⟩) :
    Local C I N j (look f : Decoding ρ σ α) where
  run {r r' b b' x l s s'} _ _ _ hs := by
    refine ⟨?_, l, by omega, hs⟩
    rw [run_look, run_look, hs.same, LawfulCursor.cursor_withCursor]
    exact congrArg some (hf _ _ _)

instance : Local C I N j (peekChar? : Decoding ρ σ (Option Char)) :=
  local_look fun _ _ _ => rfl

instance : Local C I N j (peekDigit : Decoding ρ σ Bool) :=
  local_look fun _ _ _ => rfl

instance : Local C I N j (atEnd : Decoding ρ σ Bool) :=
  local_look fun _ _ _ => rfl

instance : Local C I N j (remaining : Decoding ρ σ Nat) :=
  local_look fun _ _ _ => rfl

variable [hI : Placeless I]

/-- Two places in the same input behind two beginnings. -/
theorem beside_withCursor {s : σ} {b b' l rest : List UInt8} (hs : I s) :
    Beside I b b' (l.reverse ++ rest) l (HasCursor.withCursor s ⟨l ++ b, rest⟩)
      (HasCursor.withCursor s ⟨l ++ b', rest⟩) where
  keeps := hI.withCursor s _ hs
  before := by rw [LawfulCursor.cursor_withCursor]
  input := by rw [LawfulCursor.cursor_withCursor]
  same := by rw [LawfulCursor.cursor_withCursor, LawfulCursor.withCursor_withCursor]

/-- A step of the cursor depends only on what is left to read. -/
theorem local_scan {f : Cursor → Option α × Cursor} (hf : Cursor.Reading f) :
    Local C I N j (scan f : Decoding ρ σ α) where
  run {r r' b b' x l s s'} _ _ _ hs := by
    obtain ⟨hkeeps, hbefore, rfl, rfl⟩ := hs
    rw [run_scan, run_scan, LawfulCursor.cursor_withCursor, LawfulCursor.withCursor_withCursor]
    have hcursor : HasCursor.cursor s = ⟨l ++ b, (HasCursor.cursor s).rest⟩ := by rw [← hbefore]
    obtain ⟨a, l', rest', hrest, hrun⟩ := hf (HasCursor.cursor s).rest
    have hinput : l.reverse ++ (HasCursor.cursor s).rest = (l' ++ l).reverse ++ rest' := by
      rw [← hrest, List.reverse_append, List.append_assoc]
    rw [hrun, hcursor, hrun, hinput, ← List.append_assoc, ← List.append_assoc]
    exact ⟨rfl, l' ++ l, by simp, beside_withCursor hkeeps⟩

theorem local_move {f : Cursor → α × Cursor} (hf : Cursor.Reading f) :
    Local C I N j (move f : Decoding ρ σ α) := by
  refine local_scan fun rest => ?_
  obtain ⟨a, l, rest', hrest, hrun⟩ := hf rest
  exact ⟨some a, l, rest', hrest, fun before => by simp [hrun]⟩

instance : Local C I N j (nextByte : Decoding ρ σ UInt8) :=
  local_scan Cursor.reading_next

instance : Local C I N j (nextChar : Decoding ρ σ Char) :=
  inferInstanceAs (Local C I N j (_ >>= _))

instance {c : Char} : Local C I N j (nextIf c : Decoding ρ σ Bool) :=
  local_move (Cursor.reading_nextIf _)

instance {s : String} : Local C I N j (nextIfText s : Decoding ρ σ Bool) :=
  local_move (Cursor.reading_nextIfBytes _)

instance {c : Char} : Local C I N j (expect c : Decoding ρ σ Unit) :=
  inferInstanceAs (Local C I N j (_ >>= _))

instance : Local C I N j (takeRest : Decoding ρ σ (List UInt8)) :=
  local_move Cursor.reading_takeRest

instance {n : Nat} : Local C I N j (slice n : Decoding ρ σ (List UInt8)) :=
  local_scan (Cursor.reading_slice n)

instance {n : Nat} : Local C I N j (text n : Decoding ρ σ String) :=
  local_scan (Cursor.reading_text n)

instance : Local C I N j (natural : Decoding ρ σ Nat) :=
  local_scan (Cursor.reading_natural 64)

instance : Local C I N j (positive : Decoding ρ σ Nat) :=
  inferInstanceAs (Local C I N j (_ >>= _))

instance : Local C I N j (index : Decoding ρ σ Nat) :=
  local_scan Cursor.reading_index

instance {p : UInt8 → Bool} : Local C I N j (takeBytesWhile p : Decoding ρ σ (List UInt8)) :=
  local_move fun rest => .skip (rest.takeWhile p) (rest.takeWhile p).length fun _ => rfl

instance {p : UInt8 → Bool} : Local C I N j (takeWhile p : Decoding ρ σ (List Char)) :=
  inferInstanceAs (Local C I N j (_ >>= _))

instance {c : Char} {d : Decoding ρ σ α} [Local C I N j d] {n : Nat} :
    Local C I N j (manyUntilFrom n c d) := by
  induction n with
  | zero => exact inferInstanceAs (Local C I N j failure)
  | succ n ih =>
    rw [manyUntilFrom]
    infer_instance

instance {c : Char} {d : Decoding ρ σ α} [Local C I N j d] : Local C I N j (manyUntil c d) :=
  inferInstanceAs (Local C I N j (_ >>= _))

/-! ## Reading on and stepping back -/

/-- The decoding moves over at least one byte if its result satisfies `P`. -/
def Moves (P : α → Prop) (d : Decoding ρ σ α) : Prop :=
  ∀ r s a, (d r s).1 = some a → P a →
    (HasCursor.cursor (d r s).2).rest.length < (HasCursor.cursor s).rest.length

omit hI in
theorem moves_scan {P : α → Prop} {f : Cursor → Option α × Cursor} (hf : Cursor.Forward P f) :
    Moves P (scan f : Decoding ρ σ α) := by
  intro r s a ha hP
  rw [run_scan, LawfulCursor.cursor_withCursor]
  exact hf.lt (HasCursor.cursor s) a ha hP

omit [LawfulCursor σ] hI in
/-- A byte that has been moved over may be stepped back over. -/
theorem Paired.bind_moves {P : α → Prop} {d : Decoding ρ σ α} {f f' : α → Decoding ρ σ β}
    (hd : Local C I N (j + k) d) (hP : Moves P d)
    (hyes : ∀ a, P a → Paired C I N j (k + 1) (f a) (f' a))
    (hno : ∀ a, ¬ P a → Paired C I N j k (f a) (f' a)) :
    Paired C I N j k (d >>= f) (d >>= f') where
  run {r r' b b' x l s s'} hr hx hl hs := by
    obtain ⟨hresult, l₁, hl₁, hs₁⟩ := hd.run hr hx hl hs
    have hmoves := hP r s
    -- what is not left to read has been read
    have hlength := hs.length_add.trans hs₁.length_add.symm
    rw [run_bind, run_bind]
    revert hresult hs₁ hmoves hlength
    rcases d r s with ⟨_ | a, t⟩ <;> rcases d r' s' with ⟨a', t'⟩ <;>
      rintro ⟨⟩ hs₁ hmoves hlength
    · exact ⟨rfl, l₁, by omega, hs₁⟩
    by_cases ha : P a
    · have hlt := hmoves a rfl ha
      dsimp only at hlt hlength
      obtain ⟨hresult, l₂, hl₂, hs₂⟩ := (hyes a ha).run hr hx (by omega) hs₁
      exact ⟨hresult, l₂, by omega, hs₂⟩
    · obtain ⟨hresult, l₂, hl₂, hs₂⟩ := (hno a ha).run hr hx (by omega) hs₁
      exact ⟨hresult, l₂, by omega, hs₂⟩

section Step

variable {f f' : UInt8 → Decoding ρ σ α} {g g' : Char → Decoding ρ σ α} {d d' e e' : Decoding ρ σ α}

theorem paired_nextByte (hf : ∀ b, Paired C I N j (k + 1) (f b) (f' b)) :
    Paired C I N j k (nextByte >>= f) (nextByte >>= f') :=
  .bind_moves inferInstance (moves_scan Cursor.forward_next) (fun b _ => hf b)
    fun _ hno => absurd trivial hno

theorem paired_nextChar (hg : ∀ c, Paired C I N j (k + 1) (g c) (g' c)) :
    Paired C I N j k (nextChar >>= g) (nextChar >>= g') := by
  unfold nextChar
  simp only [bind_assoc, pure_bind]
  exact paired_nextByte fun b => hg _

omit [LawfulCursor σ] hI in
/-- What is tested for has been moved over where it is found. -/
theorem Paired.test {t : Decoding ρ σ Bool} (ht : Local C I N (j + k) t)
    (hmoves : Moves (· = true) t) (hd : Paired C I N j (k + 1) d d') (he : Paired C I N j k e e') :
    Paired C I N j k (t >>= fun b => if b = true then d else e)
      (t >>= fun b => if b = true then d' else e') := by
  refine ht.bind_moves hmoves ?_ fun b hb => ?_
  · rintro _ rfl
    exact hd
  · rw [if_neg hb, if_neg hb]
    exact he

/-- Where the byte is read, one byte less is left for what follows. -/
theorem paired_nextIf {c : Char} (hd : Paired C I N j (k + 1) d d')
    (he : Paired C I N j k e e') :
    Paired C I N j k (nextIf c >>= fun b => if b = true then d else e)
      (nextIf c >>= fun b => if b = true then d' else e') :=
  .test inferInstance (moves_scan (Cursor.forward_nextIf _)) hd he

theorem paired_nextIfText {s : String} (hs : Utf8.encode s ≠ [])
    (hd : Paired C I N j (k + 1) d d') (he : Paired C I N j k e e') :
    Paired C I N j k (nextIfText s >>= fun b => if b = true then d else e)
      (nextIfText s >>= fun b => if b = true then d' else e') :=
  .test inferInstance (moves_scan (Cursor.forward_nextIfBytes hs)) hd he

/-- Stepping back over a byte that has been read. -/
theorem paired_pushBack {f f' : Unit → Decoding ρ σ α} (hf : Paired C I N j k (f ()) (f' ())) :
    Paired C I N j (k + 1) (pushBack >>= f) (pushBack >>= f') where
  run {r r' b b' x l s s'} hr hx hl hs := by
    obtain ⟨hkeeps, hbefore, rfl, rfl⟩ := hs
    -- the byte to step back over is one that has been read
    obtain ⟨a, l, rfl⟩ := List.exists_cons_of_length_pos (l := l) (by omega)
    have hcursor : HasCursor.cursor s = ⟨a :: (l ++ b), (HasCursor.cursor s).rest⟩ := by
      rw [← List.cons_append, ← hbefore]
    have hback : pushBack r s = (some (),
        HasCursor.withCursor s ⟨l ++ b, a :: (HasCursor.cursor s).rest⟩) := by
      rw [pushBack, run_move, hcursor]
      rfl
    have hback' : pushBack r' (HasCursor.withCursor s
        ⟨a :: l ++ b', (HasCursor.cursor s).rest⟩) = (some (),
          HasCursor.withCursor s ⟨l ++ b', a :: (HasCursor.cursor s).rest⟩) := by
      rw [pushBack, run_move, LawfulCursor.cursor_withCursor, LawfulCursor.withCursor_withCursor]
      rfl
    have hinput : (a :: l).reverse ++ (HasCursor.cursor s).rest =
        l.reverse ++ a :: (HasCursor.cursor s).rest := by simp
    rw [hinput] at hx ⊢
    rw [run_bind, run_bind, hback, hback']
    rw [List.length_cons] at hl ⊢
    obtain ⟨hresult, l', hl', hs'⟩ := hf.run hr hx (by omega) (beside_withCursor hkeeps)
    exact ⟨hresult, l', by omega, hs'⟩

end Step

end Decoding

end SwiftMangling
