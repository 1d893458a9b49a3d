import Mathlib.Data.String.Basic
import SwiftMangling.Cursor
import SwiftMangling.Proofs.Punycode.Insertion
import SwiftMangling.Text.Operator

/-!
# Accesses in range

Positions and differences are computed from positions that were found before, and the places
computed that way are used without a look at whether they are there. This is stated with accesses
that may be out of range: a difference below zero, a position behind the end of a list, a cut
through the middle of a character. A function is written a second time, in `Indexed`, with such
accesses where the positions are used.

An access out of range has an outcome that nothing else has. Functions on texts and lists have two
failures, `refused` for an input that has been looked at and `outOfRange` for the access. Decoders,
printers and the scan for words have an arbitrary outcome, `fault`, which may leave any state behind
and be any error: with an access out of range, they would not have one outcome whatever `fault` is.
So all accesses are in range if a function agrees with the one that runs.

This module has the accesses, and the functions on texts: Punycode, the characters of operators and
the numbers that cursors read.
-/

namespace SwiftMangling

namespace Access

open String (utf8Len utf8Len_cons)

variable {α β : Type}

/-- Why there is no result. -/
inductive Failure where
  /-- The input is not one that has a result. -/
  | refused
  /-- An operation is not possible, or has no result in its range. -/
  | outOfRange

/-- A result that has been looked at: without one the input is refused. -/
def orRefuse : Option α → Except Failure α
  | some a => .ok a
  | none => .error .refused

/-- A result that is taken without a look. -/
def inRange : Option α → Except Failure α
  | some a => .ok a
  | none => .error .outOfRange

/-- The outcome of an access out of range. -/
abbrev Fault (m : Type → Type) :=
  ∀ α, m α

/-- What an access finds, or the outcome of an access out of range. -/
def found {m : Type → Type} [Pure m] (fault : Fault m) : Option α → m α
  | some a => pure a
  | none => fault α

/-- The difference of two numbers, which is out of range below zero. -/
def sub (a b : Nat) : Option Nat :=
  if b ≤ a then some (a - b) else none

/-- The elements from position `i` to before position `j`. -/
def slice (xs : List α) (i j : Nat) : Option (List α) :=
  if i ≤ j ∧ j ≤ xs.length then some ((xs.take j).drop i) else none

/-- The list with `a` put in at position `i`. -/
def insert (xs : List α) (i : Nat) (a : α) : Option (List α) :=
  if i ≤ xs.length then some (xs.insertIdx i a) else none

/-- The text before the byte at position `i`, where a character has to end. -/
def before : List Char → Nat → Option (List Char)
  | _, 0 => some []
  | [], _ + 1 => none
  | c :: cs, i + 1 =>
    if c.utf8Size ≤ i + 1 then (before cs (i + 1 - c.utf8Size)).map (c :: ·) else none

/-- The text from the byte at position `i` on, where a character has to end. -/
def after : List Char → Nat → Option (List Char)
  | cs, 0 => some cs
  | [], _ + 1 => none
  | c :: cs, i + 1 => if c.utf8Size ≤ i + 1 then after cs (i + 1 - c.utf8Size) else none

variable {m : Type → Type} [Pure m] {fault : Fault m} {xs : List α} {i j : Nat}

@[simp] theorem found_some (a : α) : found fault (some a) = pure a :=
  rfl

@[simp] theorem orRefuse_some (a : α) : orRefuse (some a) = .ok a :=
  rfl

@[simp] theorem inRange_some (a : α) : inRange (some a) = .ok a :=
  rfl

@[simp] theorem ok_bind (a : α) (f : α → Except Failure β) : (Except.ok a >>= f) = f a :=
  rfl

/-- One look after the other. -/
theorem orRefuse_bind (x : Option α) (f : α → Option β) :
    orRefuse (x >>= f) = orRefuse x >>= fun a => orRefuse (f a) := by
  cases x <;> rfl

theorem orRefuse_map (x : Option α) (f : α → β) :
    orRefuse (x.map f) = (orRefuse x).map f := by
  cases x <;> rfl

theorem orRefuse_eq_ok {x : Option α} {a : α} : orRefuse x = .ok a ↔ x = some a := by
  cases x <;> simp [orRefuse]

/-- Nothing comes after a failure. -/
theorem bind_eq_ok {x : Except Failure α} {f : α → Except Failure β} {y : β}
    (h : x >>= f = .ok y) : ∃ z, x = .ok z ∧ f z = .ok y := by
  cases x with
  | error e => cases h
  | ok z => exact ⟨z, rfl, h⟩

/-- A list is refused where one of its elements is. -/
theorem mapM_orRefuse {f : α → Except Failure β} {g : α → Option β}
    (h : ∀ a, f a = orRefuse (g a)) (xs : List α) : xs.mapM f = orRefuse (xs.mapM g) := by
  induction xs with
  | nil => rfl
  | cons x xs ih =>
    rw [List.mapM_cons, List.mapM_cons, h, ih, orRefuse_bind]
    refine bind_congr fun b => ?_
    rw [orRefuse_bind]
    rfl

theorem sub_of_le (h : j ≤ i) : sub i j = some (i - j) :=
  if_pos h

theorem slice_of_le (hi : i ≤ j) (hj : j ≤ xs.length) :
    slice xs i j = some ((xs.take j).drop i) :=
  if_pos ⟨hi, hj⟩

theorem slice_take (h : i ≤ xs.length) : slice xs 0 i = some (xs.take i) :=
  slice_of_le (Nat.zero_le i) h

theorem slice_drop (h : i ≤ xs.length) : slice xs i xs.length = some (xs.drop i) := by
  rw [slice_of_le h (Nat.le_refl _), List.take_length]

theorem take_length_takeWhile (p : α → Bool) (xs : List α) :
    xs.take (xs.takeWhile p).length = xs.takeWhile p :=
  (List.prefix_iff_eq_take.mp (List.takeWhile_prefix p)).symm

theorem drop_length_takeWhile (p : α → Bool) (xs : List α) :
    xs.drop (xs.takeWhile p).length = xs.dropWhile p := by
  have h := @List.drop_left' _ (xs.takeWhile p) (xs.dropWhile p) _ rfl
  rwa [List.takeWhile_append_dropWhile] at h

theorem insert_of_le {a : α} (h : i ≤ xs.length) : insert xs i a = some (xs.insertIdx i a) :=
  if_pos h

/-- A character has at least one byte, which is cut off with it. -/
theorem exists_utf8Len_cons (c : Char) (cs : List Char) :
    ∃ n, utf8Len (c :: cs) = n + 1 ∧ c.utf8Size ≤ n + 1 ∧ n + 1 - c.utf8Size = utf8Len cs := by
  have hpos := c.utf8Size_pos
  rw [utf8Len_cons]
  exact ⟨utf8Len cs + c.utf8Size - 1, by omega, by omega, by omega⟩

/-- A cut between characters is at the length of those in front of it. -/
theorem before_utf8Len (cs ds : List Char) : before (cs ++ ds) (utf8Len cs) = some cs := by
  induction cs with
  | nil => cases ds <;> rfl
  | cons c cs ih =>
    obtain ⟨n, hn, hle, hrest⟩ := exists_utf8Len_cons c cs
    rw [hn, List.cons_append, before, if_pos hle, hrest, ih]
    rfl

theorem after_utf8Len (cs ds : List Char) : after (cs ++ ds) (utf8Len cs) = some ds := by
  induction cs with
  | nil => cases ds <;> rfl
  | cons c cs ih =>
    obtain ⟨n, hn, hle, hrest⟩ := exists_utf8Len_cons c cs
    rw [hn, List.cons_append, after, if_pos hle, hrest, ih]

end Access

namespace Indexed

open Access

/-! ## Punycode -/

namespace Punycode

open SwiftMangling.Punycode

/-- `SwiftMangling.Punycode.digitValue?` with its differences. -/
def digitValue (c : Char) : Except Failure Nat := do
  if 'a' ≤ c && c ≤ 'z' then inRange (sub c.toNat 'a'.toNat)
  else if 'A' ≤ c && c ≤ 'J' then return (← inRange (sub c.toNat 'A'.toNat)) + 26
  else throw .refused

/-- `SwiftMangling.Punycode.threshold` with its difference. -/
def threshold (k bias : Nat) : Except Failure Nat :=
  if k ≤ bias then .ok tMin
  else if bias + tMax ≤ k then .ok tMax
  else inRange (sub k bias)

/-- `SwiftMangling.Punycode.readDelta` with its differences. -/
def readDelta (bias i weight k : Nat) : List Char → Except Failure (Nat × List Char)
  | [] => .error .refused
  | c :: r => do
    let digit ← digitValue c
    let step ← orRefuse (word? (digit * weight))
    let i ← orRefuse (word? (i + step))
    let t ← threshold k bias
    if digit < t then return (i, r)
    let factor ← inRange (sub base t)
    let weight ← orRefuse (word? (weight * factor))
    readDelta bias i weight (k + base) r

theorem digitValue_eq (c : Char) :
    digitValue c = orRefuse (SwiftMangling.Punycode.digitValue? c) := by
  have hle {d : Char} (h : d ≤ c) : d.toNat ≤ c.toNat := h
  unfold digitValue SwiftMangling.Punycode.digitValue?
  by_cases hlower : ('a' ≤ c && c ≤ 'z') = true
  · rw [if_pos hlower, if_pos hlower,
      sub_of_le (hle (of_decide_eq_true (Bool.and_eq_true_iff.mp hlower).1))]
    rfl
  · rw [if_neg hlower, if_neg hlower]
    by_cases hupper : ('A' ≤ c && c ≤ 'J') = true
    · rw [if_pos hupper, if_pos hupper,
        sub_of_le (hle (of_decide_eq_true (Bool.and_eq_true_iff.mp hupper).1))]
      rfl
    · rw [if_neg hupper, if_neg hupper]
      rfl

/-- The threshold is a difference only behind the bias. -/
theorem threshold_eq (k bias : Nat) :
    threshold k bias = .ok (SwiftMangling.Punycode.threshold k bias) := by
  unfold threshold SwiftMangling.Punycode.threshold
  split
  · rfl
  · split
    · rfl
    · rw [sub_of_le (by omega)]
      rfl

theorem threshold_le (k bias : Nat) : SwiftMangling.Punycode.threshold k bias ≤ base := by
  unfold SwiftMangling.Punycode.threshold
  split
  · decide
  · split
    · decide
    · simp only [tMax, base] at *
      omega

/-- The threshold is never above the base, so no difference falls below zero. -/
theorem readDelta_eq (bias i weight k : Nat) (cs : List Char) :
    readDelta bias i weight k cs =
      orRefuse (SwiftMangling.Punycode.readDelta bias i weight k cs) := by
  induction cs generalizing i weight k with
  | nil => rfl
  | cons c cs ih =>
    rw [readDelta, SwiftMangling.Punycode.readDelta]
    simp only [digitValue_eq, threshold_eq, sub_of_le (threshold_le k bias), ih, orRefuse_bind,
      inRange_some, ok_bind]
    refine bind_congr fun digit => bind_congr fun step => bind_congr fun i => ?_
    split
    · rfl
    · rw [orRefuse_bind]

/-- `SwiftMangling.Punycode.insertAll` with its difference and its insertions. -/
def insertAll (n i bias : Nat) (output : List Nat) (cs : List Char) :
    Except Failure (List Nat) :=
  if cs.isEmpty then .ok output
  else
    match _h : readDelta bias i 1 base cs with
    | .error e => .error e
    | .ok (j, r) => do
      let length := output.length + 1
      let delta ← inRange (sub j i)
      let n ← orRefuse (word? (n + j / length))
      if isCodePoint n then
        let output ← inRange (Access.insert output (j % length) n)
        insertAll n (j % length + 1) (adapt delta length (i == 0)) output r
      else .error .refused
termination_by cs.length
decreasing_by
  rw [readDelta_eq] at _h
  exact length_readDelta (orRefuse_eq_ok.mp _h)

theorem insertAll_eq (n i bias : Nat) (output : List Nat) (cs : List Char) :
    insertAll n i bias output cs =
      orRefuse (SwiftMangling.Punycode.insertAll n i bias output cs) := by
  induction hlength : cs.length using Nat.strongRecOn generalizing n i bias output cs with
  | ind l ih =>
    rw [insertAll, SwiftMangling.Punycode.insertAll]
    split
    · rfl
    · rw [readDelta_eq]
      generalize h : SwiftMangling.Punycode.readDelta bias i 1 base cs = read
      cases read with
      | none => rfl
      | some p =>
        obtain ⟨j, r⟩ := p
        -- what is read is at least `i`, and the remainder is at most the number of characters
        obtain ⟨-, q, -, -, hj, -⟩ := exists_spells_of_readDelta h
        have hle : i ≤ j := hj ▸ Nat.le_add_right ..
        have hmod : j % (output.length + 1) ≤ output.length :=
          Nat.le_of_lt_succ (Nat.mod_lt _ (Nat.succ_pos _))
        have hshorter : r.length < l := hlength ▸ length_readDelta h
        rw [orRefuse_some]
        dsimp only
        rw [sub_of_le hle, inRange_some, ok_bind]
        cases word? (n + j / (output.length + 1)) with
        | none => rfl
        | some n =>
          rw [orRefuse_some, ok_bind, insert_of_le hmod]
          dsimp only
          split
          · exact ih r.length hshorter _ _ _ _ r rfl
          · rfl

/-- `SwiftMangling.Punycode.toChar` with its difference. -/
def toChar (n : Nat) : Except Failure Char := do
  if 0xD800 ≤ n && n < 0xD880 then return Char.ofNat (← inRange (sub n 0xD800))
  else return Char.ofNat n

theorem toChar_eq (n : Nat) : toChar n = .ok (SwiftMangling.Punycode.toChar n) := by
  unfold toChar SwiftMangling.Punycode.toChar
  by_cases h : (0xD800 ≤ n && n < 0xD880) = true
  · rw [if_pos h, if_pos h, sub_of_le (of_decide_eq_true (Bool.and_eq_true_iff.mp h).1)]
    rfl
  · rw [if_neg h, if_neg h]
    rfl

/-- The position of the byte at which the last `_` stands. -/
def lastMark? : List Char → Option Nat
  | [] => none
  | c :: cs =>
    match lastMark? cs with
    | some i => some (i + c.utf8Size)
    | none => if c = '_' then some 0 else none

/-- `SwiftMangling.Punycode.splitBasic` with the cuts before and behind the last `_`. -/
def splitBasic (cs : List Char) : Except Failure (List Char × List Char) :=
  match lastMark? cs with
  | some i => do
    let basic ← inRange (before cs i)
    let extended ← inRange (after cs (i + 1))
    return (basic, extended)
  | none => return ([], cs)

theorem lastMark?_eq_none {cs : List Char} (h : '_' ∉ cs) : lastMark? cs = none := by
  induction cs with
  | nil => rfl
  | cons c cs ih =>
    rw [List.mem_cons, not_or] at h
    rw [lastMark?, ih h.2]
    exact if_neg fun hc => h.1 hc.symm

/-- The position of the last separator is counted in bytes. -/
theorem lastMark?_append {cs ds : List Char} (h : '_' ∉ ds) :
    lastMark? (cs ++ '_' :: ds) = some (String.utf8Len cs) := by
  induction cs with
  | nil =>
    rw [List.nil_append, lastMark?, lastMark?_eq_none h]
    rfl
  | cons c cs ih =>
    rw [List.cons_append, lastMark?, ih, String.utf8Len_cons]

/-- A text has no `_`, or a last one. -/
theorem exists_lastMark (cs : List Char) :
    '_' ∉ cs ∨ ∃ basic extended, cs = basic ++ '_' :: extended ∧ '_' ∉ extended := by
  induction cs with
  | nil => exact .inl (by simp)
  | cons c cs ih =>
    rcases ih with hno | ⟨basic, extended, rfl, hno⟩
    · by_cases hc : c = '_'
      · exact .inr ⟨[], cs, by rw [hc]; rfl, hno⟩
      · exact .inl fun h => (List.mem_cons.mp h).elim (fun h => hc h.symm) hno
    · exact .inr ⟨c :: basic, extended, rfl, hno⟩

theorem splitBasic_eq (cs : List Char) :
    splitBasic cs = .ok (SwiftMangling.Punycode.splitBasic cs) := by
  have hrun {ds : List Char} (h : '_' ∉ ds) : ∀ c ∈ ds.reverse, (c != '_') = true :=
    fun c hc => by
      have hc : c ∈ ds := List.mem_reverse.mp hc
      simpa using fun heq : c = '_' => h (heq ▸ hc)
  unfold splitBasic SwiftMangling.Punycode.splitBasic
  rcases exists_lastMark cs with hno | ⟨basic, extended, rfl, hno⟩
  · rw [lastMark?_eq_none hno]
    have htake : (cs.reverse ++ []).takeWhile (· != '_') = cs.reverse ++ [] :=
      List.takeWhile_append_of_pos (hrun hno)
    have hdrop : (cs.reverse ++ []).dropWhile (· != '_') = [] :=
      List.dropWhile_append_of_pos (hrun hno)
    rw [List.append_nil] at htake hdrop
    simp only [htake, hdrop, List.drop_nil, List.reverse_nil, List.reverse_reverse]
    rfl
  -- the mark is one byte long, so what follows it starts one further on
  · have hbefore := before_utf8Len basic ('_' :: extended)
    have hafter :
        after (basic ++ '_' :: extended) (String.utf8Len basic + 1) = some extended := by
      have hsplit : basic ++ '_' :: extended = (basic ++ ['_']) ++ extended := by simp
      have hlength : String.utf8Len basic + 1 = String.utf8Len (basic ++ ['_']) := by
        rw [String.utf8Len_append]
        rfl
      rw [hsplit, hlength, after_utf8Len]
    rw [lastMark?_append hno]
    have hreverse :
        (basic ++ '_' :: extended).reverse = extended.reverse ++ '_' :: basic.reverse := by simp
    dsimp only
    rw [hbefore, hafter, hreverse,
      List.takeWhile_append_of_pos (hrun hno), List.dropWhile_append_of_pos (hrun hno)]
    simp

/-- `SwiftMangling.Punycode.decode?` with all of its accesses. -/
def decode (s : String) : Except Failure String := do
  let (basic, extended) ← splitBasic s.toList
  if basic.all (·.toNat < 128) then
    let output ← insertAll initialCodePoint 0 initialBias (basic.map Char.toNat) extended
    return String.ofList (← output.mapM toChar)
  else throw .refused

theorem decode_eq (s : String) : decode s = orRefuse (SwiftMangling.Punycode.decode? s) := by
  have hchars (ns : List Nat) : ns.mapM toChar = .ok (ns.map SwiftMangling.Punycode.toChar) := by
    induction ns with
    | nil => rfl
    | cons n ns ih =>
      rw [List.mapM_cons, toChar_eq, ih]
      rfl
  unfold decode SwiftMangling.Punycode.decode?
  rw [splitBasic_eq, ok_bind]
  dsimp only
  split
  · rw [insertAll_eq]
    cases SwiftMangling.Punycode.insertAll initialCodePoint 0 initialBias _ _ with
    | none => rfl
    | some output =>
      rw [orRefuse_some, ok_bind, hchars]
      rfl
  · rfl

end Punycode

/-! ## Operators -/

namespace OperatorName

open SwiftMangling.OperatorName

/-- `SwiftMangling.OperatorName.char?` with its difference and its look into the table. -/
def char (c : Char) : Except Failure Char := do
  if c.toNat < 128 then
    if c.isLower then
      let spelled ← inRange chars[← inRange (sub c.toNat 'a'.toNat)]?
      if spelled == ' ' then throw .refused else return spelled
    else throw .refused
  else return c

/-- The table has a character for each of the letters. -/
theorem char_eq (c : Char) : char c = orRefuse (SwiftMangling.OperatorName.char? c) := by
  unfold char SwiftMangling.OperatorName.char?
  split
  · by_cases hlower : c.isLower = true
    · rw [if_pos hlower, if_pos hlower]
      obtain ⟨hle, hge⟩ : 'a'.toNat ≤ c.toNat ∧ c.toNat ≤ 'z'.toNat :=
        ⟨of_decide_eq_true (Bool.and_eq_true_iff.mp hlower).1,
          of_decide_eq_true (Bool.and_eq_true_iff.mp hlower).2⟩
      have hlength : chars.length = 26 := by decide
      -- there are as many letters as characters in the table
      have hindex : c.toNat - 'a'.toNat < chars.length := by
        have : 'a'.toNat = 97 ∧ 'z'.toNat = 122 := by decide
        omega
      rw [sub_of_le hle, inRange_some, ok_bind, List.getElem?_eq_getElem hindex, inRange_some,
        ok_bind, Option.filter_some]
      generalize chars[c.toNat - 'a'.toNat] = spelled
      by_cases hspace : (spelled == ' ') = true
      · rw [if_pos hspace, if_neg (by simpa using hspace)]
        rfl
      · rw [if_neg hspace, if_pos (by simpa using hspace)]
        rfl
    · rw [if_neg hlower, if_neg hlower]
      rfl
  · rfl

/-- `SwiftMangling.OperatorName.decode?` with the accesses of each character. -/
def decode (s : String) : Except Failure String :=
  (s.toList.mapM char).map String.ofList

theorem decode_eq (s : String) : decode s = orRefuse (SwiftMangling.OperatorName.decode? s) := by
  rw [decode, SwiftMangling.OperatorName.decode?, mapM_orRefuse char_eq, orRefuse_map]

end OperatorName

/-! ## Cursors -/

namespace Cursor

open SwiftMangling (Cursor)

/-- The bytes from the place of the cursor on, by their position. -/
def rest (c : Cursor) : Except Failure (List UInt8) :=
  inRange (slice c.bytes c.position c.bytes.length)

theorem rest_eq (c : Cursor) : rest c = .ok c.rest := by
  have hlength : c.position ≤ c.bytes.length := by
    simp [Cursor.position, Cursor.bytes]
  have hdrop : c.bytes.drop c.position = c.rest := by
    simp [Cursor.position, Cursor.bytes]
  rw [rest, slice_drop hlength, hdrop, inRange_some]

/-- `SwiftMangling.Cursor.pushBack` with its difference. -/
def pushBack (c : Cursor) : Except Failure (Bool × Cursor) := do
  if c.position == 0 then return (false, c)
  else return (true, c.moveTo (← inRange (sub c.position 1)))

theorem pushBack_eq (c : Cursor) : pushBack c = .ok c.pushBack := by
  obtain ⟨_ | ⟨b, before⟩, rest⟩ := c
  · rfl
  · have hsub : sub (Cursor.mk (b :: before) rest).position 1 = some before.length :=
      sub_of_le (Nat.le_add_left ..)
    have hmove : (Cursor.mk (b :: before) rest).moveTo before.length =
        ⟨before, b :: rest⟩ := by
      simp [Cursor.moveTo, Cursor.bytes]
    rw [pushBack, if_neg (by simp [Cursor.position]), hsub, inRange_some, ok_bind, hmove]
    rfl

/-- `SwiftMangling.Cursor.digits` with the differences that give the digits their values. -/
def digits (bound value : Nat) (before : List UInt8) :
    List UInt8 → Except Failure (Option Nat × Cursor)
  | [] => .ok (some value, ⟨before, []⟩)
  | b :: r => do
    if Cursor.isDigit b then
      let value := value * 10 + (← inRange (sub b.toNat 0x30))
      if value < bound then digits bound value (b :: before) r
      else return (none, ⟨before, b :: r⟩)
    else return (some value, ⟨before, b :: r⟩)

/-- A digit is not below the character it is counted from. -/
theorem digits_eq (bound value : Nat) (before rest : List UInt8) :
    digits bound value before rest =
      .ok (SwiftMangling.Cursor.digits bound value before rest) := by
  -- by induction on what is left; a digit is no less than the byte of zero
  induction rest generalizing value before with
  | nil => rfl
  | cons b r ih =>
    rw [digits, SwiftMangling.Cursor.digits]
    by_cases hb : Cursor.isDigit b = true
    · have hle : 0x30 ≤ b.toNat := by
        have := (Bool.and_eq_true_iff.mp hb).1
        simpa [UInt8.le_iff_toNat_le] using this
      rw [if_pos hb, if_pos hb, sub_of_le hle, inRange_some, ok_bind]
      dsimp only
      split
      · exact ih _ _
      · rfl
    · rw [if_neg hb, if_neg hb]
      rfl

/-- `SwiftMangling.Cursor.natural` with the differences that give the digits their values. -/
def natural (c : Cursor) (width : Nat) : Except Failure (Option Nat × Cursor) :=
  if c.peekDigit then digits (1 <<< width) 0 c.before c.rest else .ok (none, c)

theorem natural_eq (c : Cursor) (width : Nat) : natural c width = .ok (c.natural width) := by
  unfold natural SwiftMangling.Cursor.natural
  split
  · exact digits_eq ..
  · rfl

end Cursor

end Indexed

end SwiftMangling
