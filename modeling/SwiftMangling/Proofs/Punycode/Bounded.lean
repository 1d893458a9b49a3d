import SwiftMangling.Proofs.Punycode
import SwiftMangling.Proofs.Punycode.Insertion
import SwiftMangling.Proofs.Range.Text

/-!
# Punycode in 32 bits

The numbers of the decoder are words of 32 bits. Where a text decides how large a number gets, the
decoder looks whether it fits, and refuses the text if it does not. All other sums, differences,
products and quotients are computed without a look, and so are the positions of insertions. The
decoder is written a second time, in `Bounded`, with all of these operations in the order in which
they are made; one that has no result in 32 bits, a division by zero and an insertion behind the end
stop it with the failure `outOfRange`. No text does that (`decode_in_range`).

What is not looked at is bounded by what is. An integer has at most ten digits, because each makes
the weight at least ten times as large, and the weight has to fit; so places are small. The bias is
small because each division by 35 takes more from a delta than it adds to the bias. And the text has
fewer than `2 ^ 32 - 1` characters, because each of them takes at least a byte of the input.
-/

namespace SwiftMangling.Punycode.Bounded

open Access (Failure orRefuse inRange sub orRefuse_some inRange_some ok_bind orRefuse_bind
  bind_eq_ok)

variable {a b n i bias count weight k delta : Nat}

/-- The quotient of two numbers, which does not exist by zero. -/
def quotient (a b : Nat) : Option Nat :=
  if b = 0 then none else some (a / b)

/-- The remainder of two numbers, which does not exist by zero. -/
def remainder (a b : Nat) : Option Nat :=
  if b = 0 then none else some (a % b)

/-! ## The decoder -/

/-- `Punycode.adaptFrom` in 32 bits. -/
def adaptFrom (delta k : Nat) : Except Failure Nat :=
  if 455 < delta then do
    let k ← inRange (word? (k + base))
    adaptFrom (delta / (base - tMin)) k
  else do
    let product ← inRange (word? ((base - tMin + 1) * delta))
    let divisor ← inRange (word? (delta + skew))
    let share ← inRange (quotient product divisor)
    inRange (word? (k + share))
termination_by delta
decreasing_by simp only [base, tMin]; omega

/-- `Punycode.adapt` in 32 bits. -/
def adapt (delta count : Nat) (isFirst : Bool) : Except Failure Nat := do
  let delta := delta / (if isFirst then damp else 2)
  let share ← inRange (quotient delta count)
  let delta ← inRange (word? (delta + share))
  adaptFrom delta 0

/-- `Punycode.threshold` in 32 bits. -/
def threshold (k bias : Nat) : Except Failure Nat :=
  if k ≤ bias then return tMin
  else do
    let limit ← inRange (word? (bias + tMax))
    if limit ≤ k then return tMax
    inRange (sub k bias)

/-- `Punycode.readDelta` in 32 bits. -/
def readDelta (bias i weight k : Nat) : List Char → Except Failure (Nat × List Char)
  | [] => .error .refused
  | c :: r => do
    let digit ← orRefuse (digitValue? c)
    let step ← orRefuse (word? (digit * weight))
    let i ← orRefuse (word? (i + step))
    let t ← threshold k bias
    if digit < t then return (i, r)
    let factor ← inRange (sub base t)
    let weight ← orRefuse (word? (weight * factor))
    let k ← inRange (word? (k + base))
    readDelta bias i weight k r

theorem length_readDelta {cs r : List Char} {j : Nat}
    (h : readDelta bias i weight k cs = .ok (j, r)) : r.length < cs.length := by
  -- by induction on the letters, each of which is read or ends the integer
  induction cs generalizing i weight k with
  | nil => cases h
  | cons c cs ih =>
    rw [readDelta] at h
    obtain ⟨digit, -, h⟩ := bind_eq_ok h
    obtain ⟨step, -, h⟩ := bind_eq_ok h
    obtain ⟨i', -, h⟩ := bind_eq_ok h
    obtain ⟨t, -, h⟩ := bind_eq_ok h
    split at h
    · cases h
      exact Nat.lt_succ_self _
    · obtain ⟨factor, -, h⟩ := bind_eq_ok h
      obtain ⟨weight', -, h⟩ := bind_eq_ok h
      obtain ⟨k', -, h⟩ := bind_eq_ok h
      exact Nat.lt_succ_of_lt (ih h)

/-- `Punycode.insertAll` in 32 bits. -/
def insertAll (n i bias : Nat) (output : List Nat) (cs : List Char) :
    Except Failure (List Nat) :=
  if cs.isEmpty then .ok output
  else
    match _h : readDelta bias i 1 base cs with
    | .error e => .error e
    | .ok (j, r) => do
      let length ← orRefuse (word? (output.length + 1))
      let delta ← inRange (sub j i)
      let bias ← adapt delta length (i == 0)
      let steps ← inRange (quotient j length)
      let n ← orRefuse (word? (n + steps))
      let position ← inRange (remainder j length)
      if isCodePoint n then
        let output ← inRange (Access.insert output position n)
        let i ← inRange (word? (position + 1))
        insertAll n i bias output r
      else .error .refused
termination_by cs.length
decreasing_by exact length_readDelta _h

/-- `Punycode.decode?` in 32 bits. -/
def decode (s : String) : Except Failure String :=
  let (basic, extended) := splitBasic s.toList
  if basic.all (·.toNat < 128) then do
    let output ← insertAll initialCodePoint 0 initialBias (basic.map Char.toNat) extended
    return String.ofList (output.map toChar)
  else .error .refused

/-! ## Operations with a result -/

theorem inRange_word (h : n < UInt32.size) : inRange (word? n) = .ok n := by
  rw [word?_of_lt h, inRange_some]

theorem inRange_quotient (h : 0 < b) : inRange (quotient a b) = .ok (a / b) := by
  rw [quotient, if_neg (Nat.ne_of_gt h), inRange_some]

theorem inRange_remainder (h : 0 < b) : inRange (remainder a b) = .ok (a % b) := by
  rw [remainder, if_neg (Nat.ne_of_gt h), inRange_some]

theorem inRange_sub (h : b ≤ a) : inRange (sub a b) = .ok (a - b) := by
  rw [Access.sub_of_le h, inRange_some]

/-! ## The bias -/

/-- Each division takes more from a twelfth of the delta than it adds to the bias. -/
theorem twelfth_div (h : 455 < delta) : base + delta / (base - tMin) / 12 ≤ delta / 12 := by
  simp only [base, tMin]
  omega

/-- Every round divides the delta, so the bias grows by no more than this. -/
theorem adaptFrom_le (delta k : Nat) : Punycode.adaptFrom delta k ≤ k + delta / 12 + base := by
  fun_induction Punycode.adaptFrom delta k with
  | case1 delta k hlarge ih =>
    have := twelfth_div hlarge
    omega
  | case2 delta k hsmall =>
    have hshare : (base - tMin + 1) * delta / (delta + skew) ≤ base := by
      refine Nat.div_le_of_le_mul ?_
      simp only [base, tMin, skew]
      omega
    omega

theorem adaptFrom_eq (h : k + delta / 12 + base < UInt32.size) :
    adaptFrom delta k = .ok (Punycode.adaptFrom delta k) := by
  fun_induction Punycode.adaptFrom delta k with
  -- `k` grows by what is taken from the delta, so the bound is kept
  | case1 delta k hlarge ih =>
    have := twelfth_div hlarge
    rw [adaptFrom, if_pos hlarge, inRange_word (by omega), ok_bind]
    exact ih (by omega)
  | case2 delta k hsmall =>
    -- the last step divides by no less than `skew`, and adds less than `base`
    have hle := adaptFrom_le delta k
    rw [Punycode.adaptFrom, if_neg hsmall] at hle
    have hproduct : (base - tMin + 1) * delta < UInt32.size := by
      simp only [base, tMin, UInt32.size]
      omega
    have hdivisor : delta + skew < UInt32.size := by
      simp only [skew, UInt32.size]
      omega
    have hpos : 0 < delta + skew := Nat.add_pos_right _ (by decide)
    rw [adaptFrom, if_neg hsmall, inRange_word hproduct, ok_bind, inRange_word hdivisor, ok_bind,
      inRange_quotient hpos, ok_bind, inRange_word (Nat.lt_of_le_of_lt hle h)]

/-- The bias leaves room for the places that it is compared with. -/
def maxBias : Nat := 2 ^ 30

/-- A delta of 32 bits gives the next bias, which is far from 32 bits. -/
theorem adapt_eq (hdelta : delta < UInt32.size) (hcount : 0 < count) (isFirst : Bool) :
    adapt delta count isFirst = .ok (Punycode.adapt delta count isFirst) ∧
      Punycode.adapt delta count isFirst < maxBias := by
  -- damping halves the delta at least, so the share of all code points can be added to it
  have hhalf : delta / (if isFirst then damp else 2) ≤ delta / 2 :=
    Nat.div_le_div_left (by cases isFirst <;> decide) (by decide)
  have hshare : delta / (if isFirst then damp else 2) / count ≤ delta / 2 :=
    (Nat.div_le_self ..).trans hhalf
  unfold adapt Punycode.adapt
  dsimp only
  generalize delta / (if isFirst then damp else 2) = damped at hhalf hshare ⊢
  have hsum : damped + damped / count < UInt32.size := by
    simp only [UInt32.size] at hdelta ⊢
    omega
  have hle := adaptFrom_le (damped + damped / count) 0
  simp only [UInt32.size, base] at hsum hle
  rw [inRange_quotient hcount, ok_bind, inRange_word hsum, ok_bind]
  refine ⟨adaptFrom_eq ?_, ?_⟩
  · simp only [UInt32.size, base]
    omega
  · simp only [maxBias]
    omega

/-! ## Variable-length integers -/

theorem threshold_eq (h : bias < maxBias) :
    threshold k bias = .ok (Punycode.threshold k bias) := by
  have hlimit : bias + tMax < UInt32.size := by
    simp only [maxBias, tMax, UInt32.size] at h ⊢
    omega
  unfold threshold Punycode.threshold
  split
  · rfl
  · rw [inRange_word hlimit, ok_bind]
    split
    · rfl
    · exact inRange_sub (by omega)

/-- A weight of 32 bits is that of one of the first ten digits. -/
theorem digits_lt_ten {digits : Nat} (hweight : 10 ^ digits ≤ weight)
    (hlt : weight < UInt32.size) : digits < 10 := by
  have hpow : 10 ^ digits < 10 ^ 10 :=
    Nat.lt_of_le_of_lt hweight (Nat.lt_trans hlt (by decide))
  exact (Nat.pow_lt_pow_iff_right (by decide)).mp hpow

/-- After `digits` digits the weight is at least `10 ^ digits`. -/
theorem readDelta_eq (hbias : bias < maxBias) (digits : Nat) (hweight : 10 ^ digits ≤ weight)
    (cs : List Char) :
    readDelta bias i weight (base * (digits + 1)) cs =
      orRefuse (Punycode.readDelta bias i weight (base * (digits + 1)) cs) := by
  induction cs generalizing i weight digits with
  | nil => rfl
  | cons c cs ih =>
    rw [readDelta, Punycode.readDelta]
    simp only [orRefuse_bind, threshold_eq hbias, ok_bind]
    refine bind_congr fun digit => bind_congr fun step => bind_congr fun i => ?_
    have hle := threshold_le_tMax (base * (digits + 1)) bias
    generalize Punycode.threshold (base * (digits + 1)) bias = t at hle ⊢
    split
    · rfl
    · rw [inRange_sub (by unfold tMax at hle; unfold base; omega), ok_bind, orRefuse_bind]
      cases hw : word? (weight * (base - t)) with
      | none => rfl
      | some w =>
        obtain ⟨rfl, hlt⟩ := word?_eq_some hw
        have hnext : 10 ^ (digits + 1) ≤ weight * (base - t) :=
          Nat.mul_le_mul hweight (by unfold tMax at hle; unfold base; omega)
        -- the next weight still fits, so this was one of the first ten digits
        have hten := digits_lt_ten hnext hlt
        have hplace : base * (digits + 1) + base = base * (digits + 1 + 1) := by ring
        rw [orRefuse_some, ok_bind, ok_bind, hplace, inRange_word, ok_bind]
        · exact ih (digits + 1) hnext
        · simp only [base, UInt32.size]
          omega

/-! ## Insertions -/

/-- An integer from its first digit on. -/
theorem readDelta_base (hbias : bias < maxBias) (cs : List Char) :
    readDelta bias i 1 base cs = orRefuse (Punycode.readDelta bias i 1 base cs) :=
  readDelta_eq hbias 0 (Nat.le_refl 1) cs

theorem inRange_insert {xs : List α} {position : Nat} {x : α} (h : position ≤ xs.length) :
    inRange (Access.insert xs position x) = .ok (xs.insertIdx position x) := by
  rw [Access.insert_of_le h, inRange_some]

/-- As long as the text and the digits to come are together short enough, no operation is out of
range. -/
theorem insertAll_eq (hbias : bias < maxBias) {output : List Nat} {cs : List Char}
    (hlength : output.length + cs.length < UInt32.size - 1) :
    insertAll n i bias output cs = orRefuse (Punycode.insertAll n i bias output cs) := by
  induction hl : cs.length using Nat.strongRecOn generalizing n i bias output cs with
  | ind l ih =>
    rw [insertAll, Punycode.insertAll]
    split
    next => rfl
    next hcons =>
      rw [readDelta_base hbias]
      generalize hread : Punycode.readDelta bias i 1 base cs = read
      cases read with
      | none => rfl
      | some p =>
        obtain ⟨j, r⟩ := p
        obtain ⟨piece, q, -, -, hj, hlt⟩ := exists_spells_of_readDelta hread
        -- an integer takes a digit at least, which makes up for the character inserted
        have hshorter : r.length < cs.length := Punycode.length_readDelta hread
        have hcount : output.length + 1 < UInt32.size := by omega
        have hpos : 0 < output.length + 1 := Nat.succ_pos _
        have hposition : j % (output.length + 1) ≤ output.length :=
          Nat.le_of_lt_succ (Nat.mod_lt _ hpos)
        have hdelta : j - i < UInt32.size := Nat.lt_of_le_of_lt (Nat.sub_le j i) hlt
        obtain ⟨hadapt, hnext⟩ := adapt_eq hdelta hpos (i == 0)
        rw [orRefuse_some]
        dsimp only
        rw [word?_of_lt hcount, orRefuse_some, ok_bind, inRange_sub (by omega), ok_bind, hadapt,
          ok_bind, inRange_quotient hpos, ok_bind]
        cases word? (n + j / (output.length + 1)) with
        | none => rfl
        | some n' =>
          rw [orRefuse_some, ok_bind, inRange_remainder hpos, ok_bind]
          dsimp only
          split
          next =>
            have hgrown := List.length_insertIdx_of_le_length (a := n') hposition
            rw [inRange_insert hposition, ok_bind, inRange_word (by omega), ok_bind]
            exact ih r.length (hl ▸ hshorter) hnext (by omega) rfl
          next => rfl

/-! ## Texts -/

/-- A character takes at least one byte. -/
theorem length_toList_le (s : String) : s.toList.length ≤ s.utf8ByteSize := by
  have hbytes : s.utf8ByteSize = String.utf8Len s.toList := by
    have hend := congrArg String.Pos.Raw.byteIdx (String.rawEndPos_ofList s.toList)
    rwa [String.ofList_toList] at hend
  rw [hbytes]
  induction s.toList with
  | nil => exact Nat.le_refl 0
  | cons c cs ih =>
    have hpos := c.utf8Size_pos
    rw [List.length_cons, String.utf8Len_cons]
    omega

/-- The two parts of a text are no longer than the text. -/
theorem length_splitBasic_le (cs : List Char) :
    (splitBasic cs).1.length + (splitBasic cs).2.length ≤ cs.length := by
  have hwhole := congrArg List.length
    (List.takeWhile_append_dropWhile (p := (· != '_')) (l := cs.reverse))
  simp only [List.length_append, List.length_reverse] at hwhole
  simp only [splitBasic, List.length_reverse, List.length_drop]
  omega

/-- The pieces that the digits of a text are cut into, one for each insertion into its basic
part. -/
def EncodedInsertions (s : String) (pieces : List (List Char)) : Prop :=
  Insertions 0 initialBias (splitBasic s.toList).1.length pieces ∧
    pieces.flatten = (splitBasic s.toList).2

/-- A text that is decoded has a cut into insertions, and the result has a character for each of
them and for each basic one. -/
theorem length_of_decode? {s text : String} (h : decode? s = some text) :
    (∃ pieces, EncodedInsertions s pieces) ∧ ∀ pieces, EncodedInsertions s pieces →
      text.length = (splitBasic s.toList).1.length + pieces.length := by
  unfold decode? at h
  dsimp only at h
  split at h
  next =>
    obtain ⟨output, houtput, rfl⟩ := Option.map_eq_some_iff.mp h
    obtain ⟨pieces, hpieces, hflatten, hlength⟩ := exists_insertions houtput
    rw [List.length_map] at hpieces hlength
    refine ⟨⟨pieces, hpieces, hflatten⟩, fun others hothers => ?_⟩
    -- there is one cut only, so any cut has as many pieces
    obtain rfl := hothers.1.unique hpieces (hothers.2.trans hflatten.symm)
    rw [String.length_ofList, List.length_map, hlength]
  next => cases h

/-- Decoding never leaves 32 bits. For every text of fewer than `2 ^ 32 - 1` bytes, each sum,
difference, product and quotient that is taken without a look is in range, no divisor is zero and
no insertion is behind the end: with all of these operations made one by one, the decoder has the
same result, and fails only where the text is refused. The result has as many characters as the
basic part of the text and the insertions encoded in the other part together. -/
theorem decode_in_range (s : String) (h : s.utf8ByteSize < 2 ^ 32 - 1) :
    decode s = orRefuse (decode? s) ∧ ∀ text, decode? s = some text →
      (∃ pieces, EncodedInsertions s pieces) ∧ ∀ pieces, EncodedInsertions s pieces →
        text.length = (splitBasic s.toList).1.length + pieces.length := by
  refine ⟨?_, fun text => length_of_decode?⟩
  have hchars := length_toList_le s
  have hparts := length_splitBasic_le s.toList
  -- the basic part and the letters of the other part come from different bytes
  have hroom : ((splitBasic s.toList).1.map Char.toNat).length +
      (splitBasic s.toList).2.length < UInt32.size - 1 := by
    rw [List.length_map]
    exact Nat.lt_of_le_of_lt (hparts.trans hchars) h
  unfold decode decode?
  dsimp only
  split
  next =>
    rw [insertAll_eq (by decide) hroom]
    cases Punycode.insertAll initialCodePoint 0 initialBias _ _ <;> rfl
  next => rfl

/-- A text with two insertions into an empty basic part. -/
theorem decode_in_range_escaped : "scJbb".utf8ByteSize < 2 ^ 32 - 1 ∧
    decode "scJbb" = .ok ".-" ∧ ∀ pieces, EncodedInsertions "scJbb" pieces → pieces.length = 2 := by
  have hsize : "scJbb".utf8ByteSize < 2 ^ 32 - 1 := by decide
  have hdecode : decode? "scJbb" = some ".-" := by decide +kernel
  have hbasic : (splitBasic "scJbb".toList).1.length = 0 := by decide +kernel
  obtain ⟨hrun, hcount⟩ := decode_in_range "scJbb" hsize
  refine ⟨hsize, by rw [hrun, hdecode, orRefuse_some], fun pieces hpieces => ?_⟩
  have hlength : ".-".length = _ := (hcount ".-" hdecode).2 pieces hpieces
  rw [hbasic, Nat.zero_add] at hlength
  exact hlength.symm

end SwiftMangling.Punycode.Bounded
