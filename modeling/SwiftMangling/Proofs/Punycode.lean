import Mathlib.Tactic.Ring
import SwiftMangling.Proofs.Punycode.Bootstring
import SwiftMangling.Text.Punycode

/-!
# Punycode undone

`encode` writes the code points of a text as the Bootstring algorithm does, with the digits and the
delimiter of the mangling: the basic code points in order, and then the others from the least to the
greatest, each as the number of steps that the decoder makes between two insertions. `decode?`
undoes it (`decode?_encode`). The decoder has the numbers, the thresholds and the biases of the
algorithm (`threshold_eq`, `adapt_eq`).

A pass of the encoder over its input is followed place by place. `Follows` relates the place to the
decoder, which has inserted whatever lies before the place in this order: the decoder's index and
the delta that is not yet written add up to where the place is. So each delta that is written makes
the decoder insert the next code point where it belongs, and the deltas of 100 code points stay
within 32 bits.
-/

namespace SwiftMangling.Punycode

open Bootstring (digit writeDelta Progress least? least?_eq_some passes)

/-! ## The encoder -/

/-- What an identifier is made of: characters, and ASCII characters that are escaped because an
identifier cannot hold them. -/
inductive Letter where
  | plain (c : Char)
  | escaped (c : Char) (ascii : c.toNat < 128)

/-- The code point that is encoded. -/
def Letter.codePoint : Letter → Nat
  | plain c => c.toNat
  | escaped c _ => 0xD800 + c.toNat

/-- The character that is meant. -/
def Letter.char : Letter → Char
  | plain c | escaped c _ => c

/-- The code points of the letters, as the Bootstring algorithm writes them. -/
def encode (letters : List Letter) : String :=
  Bootstring.encode (letters.map Letter.codePoint)

example : encode [.plain '日', .plain '本', .plain '語'] = "wgvHBaBBJe" := by decide +kernel

/-! ## The same numbers -/

theorem base_eq : Bootstring.base = base :=
  rfl

theorem initialN_eq : Bootstring.initialN = initialCodePoint :=
  rfl

theorem initialBias_eq : Bootstring.initialBias = initialBias :=
  rfl

/-- At the place behind the bias, the least threshold is the distance to the bias. -/
theorem threshold_eq (k bias : Nat) : Bootstring.threshold k bias = threshold k bias := by
  unfold Bootstring.threshold threshold Bootstring.tmin Bootstring.tmax tMin tMax
  split_ifs <;> omega

/-- Dividing until the delta is small, and then finding the bias, is one loop. -/
theorem adaptFrom_eq (delta k : Nat) : (Bootstring.reduce delta k).2 +
    (Bootstring.base - Bootstring.tmin + 1) * (Bootstring.reduce delta k).1 /
      ((Bootstring.reduce delta k).1 + Bootstring.skew) = adaptFrom delta k := by
  have hlimit : (Bootstring.base - Bootstring.tmin) * Bootstring.tmax / 2 = 455 := rfl
  fun_induction adaptFrom delta k with
  | case1 delta k hlarge ih =>
    rw [Bootstring.reduce, hlimit, if_pos hlarge]
    exact ih
  | case2 delta k hsmall =>
    rw [Bootstring.reduce, hlimit, if_neg hsmall]
    rfl

theorem adapt_eq (delta count : Nat) (isFirst : Bool) :
    Bootstring.adapt delta count isFirst = adapt delta count isFirst := by
  have hdamp : (if isFirst then delta / Bootstring.damp else delta / 2) =
      delta / (if isFirst then damp else 2) := by
    cases isFirst <;> rfl
  rw [Bootstring.adapt, adapt, hdamp]
  exact adaptFrom_eq _ 0

theorem one_le_threshold (k bias : Nat) : 1 ≤ threshold k bias := by
  rw [← threshold_eq]
  exact Bootstring.one_le_threshold k bias

theorem threshold_le_tMax (k bias : Nat) : threshold k bias ≤ tMax := by
  unfold threshold tMin tMax
  split_ifs <;> omega

/-- A variable-length integer with the thresholds of the decoder. -/
theorem writeDelta_eq (bias k q : Nat) : writeDelta bias k q =
    if q < threshold k bias then [digit q]
    else digit (threshold k bias + (q - threshold k bias) % (base - threshold k bias)) ::
      writeDelta bias (k + base) ((q - threshold k bias) / (base - threshold k bias)) := by
  rw [writeDelta, threshold_eq]
  rfl

/-! ## Variable-length integers -/

theorem digit_spec {d : Nat} (h : d < base) : digitValue? (digit d) = some d ∧ digit d ≠ '_' := by
  have hall : ∀ e ∈ List.range base, digitValue? (digit e) = some e ∧ digit e ≠ '_' := by decide
  exact hall d (List.mem_range.mpr h)

theorem word?_of_lt {n : Nat} (h : n < UInt32.size) : word? n = some n :=
  if_pos h

/-- The digit at a threshold and what the digits after it are worth add up to the whole. -/
theorem digit_add_rest {t q : Nat} (h : t ≤ q) :
    (t + (q - t) % (base - t)) + (q - t) / (base - t) * (base - t) = q := by
  have := Nat.mod_add_div' (q - t) (base - t)
  omega

/-- Each digit is below the base, whatever the threshold is. -/
theorem digit_lt_base (k bias q : Nat) :
    threshold k bias + q % (base - threshold k bias) < base := by
  have hle := threshold_le_tMax k bias
  have hlt : q % (base - threshold k bias) < base - threshold k bias :=
    Nat.mod_lt _ (by unfold tMax at hle; unfold base; omega)
  omega

/-- What is written is read back, if the weight behind the last digit has room as well. -/
theorem readDelta_writeDelta (bias k q i w : Nat) (r : List Char)
    (h : i + (base - tMin) * (q * w) < UInt32.size) :
    readDelta bias i w k (writeDelta bias k q ++ r) = some (i + q * w, r) := by
  induction q using Nat.strongRecOn generalizing k i w with
  | ind q ih =>
    have hpos := one_le_threshold k bias
    have hmax := threshold_le_tMax k bias
    have hroom : q * w ≤ (base - tMin) * (q * w) := Nat.le_mul_of_pos_left _ (by decide)
    rw [writeDelta_eq]
    split
    next hlast =>
      obtain ⟨hdigit, -⟩ := digit_spec (d := q) (by unfold tMax at hmax; unfold base; omega)
      rw [List.singleton_append, readDelta, hdigit, Option.bind_eq_bind, Option.bind_some,
        word?_of_lt (by omega), Option.bind_some, word?_of_lt (by omega), Option.bind_some]
      exact if_pos hlast
    next hmore =>
      obtain ⟨hdigit, -⟩ := digit_spec (digit_lt_base k bias (q - threshold k bias))
      generalize ht : threshold k bias = t at hdigit hpos hmax hmore ⊢
      have hwhole := digit_add_rest (t := t) (q := q) (by omega)
      have hsmaller : (q - t) / (base - t) < q :=
        Nat.lt_of_le_of_lt (Nat.div_le_self ..) (by omega)
      have hagain : ¬ t + (q - t) % (base - t) < t := by omega
      generalize t + (q - t) % (base - t) = d at hdigit hwhole hagain ⊢
      generalize (q - t) / (base - t) = q' at hwhole hsmaller ⊢
      have hworth : d * w + q' * (w * (base - t)) = q * w := by
        rw [← hwhole]
        ring
      -- there is at least one digit to come, so the weight is no more than the number
      have hweight : w * (base - t) ≤ (base - tMin) * (q * w) := by
        rw [Nat.mul_comm w]
        refine Nat.mul_le_mul ?_ (Nat.le_mul_of_pos_left w (by omega))
        unfold tMin
        omega
      have hsum : (base - tMin) * (d * w) + (base - tMin) * (q' * (w * (base - t))) =
          (base - tMin) * (q * w) := by
        rw [← hworth, Nat.mul_add]
      have hle : d * w ≤ (base - tMin) * (d * w) := Nat.le_mul_of_pos_left _ (by decide)
      rw [List.cons_append, readDelta, hdigit, Option.bind_eq_bind, Option.bind_some,
        word?_of_lt (by omega), Option.bind_some, word?_of_lt (by omega), Option.bind_some, ht]
      dsimp only
      rw [if_neg hagain, word?_of_lt (by omega), Option.bind_some,
        ih q' hsmaller (k + base) (i + d * w) (w * (base - t)) (by omega), Nat.add_assoc, hworth]

theorem writeDelta_ne_nil (bias k q : Nat) : writeDelta bias k q ≠ [] := by
  rw [writeDelta_eq]
  split <;> simp

/-- No digit is the delimiter. -/
theorem not_mem_writeDelta (bias k q : Nat) : '_' ∉ writeDelta bias k q := by
  -- by induction on what is left of the number behind each digit
  induction q using Nat.strongRecOn generalizing k with
  | ind q ih =>
    have hpos := one_le_threshold k bias
    have hmax := threshold_le_tMax k bias
    rw [writeDelta_eq]
    split
    next hlast =>
      have hdigit := (digit_spec (d := q) (by unfold tMax at hmax; unfold base; omega)).2
      simpa using hdigit.symm
    next hmore =>
      have hdigit := (digit_spec (digit_lt_base k bias (q - threshold k bias))).2
      have hsmaller : (q - threshold k bias) / (base - threshold k bias) < q :=
        Nat.lt_of_le_of_lt (Nat.div_le_self ..) (by omega)
      exact List.not_mem_cons_of_ne_of_not_mem hdigit.symm (ih _ hsmaller _)

/-! ## Insertions -/

/-- The delta between two insertions makes the second one happen where it should. -/
theorem insertAll_writeDelta {n i bias delta m pos : Nat} {output : List Nat} (r : List Char)
    (hplace : i + delta = (m - n) * (output.length + 1) + pos) (hpos : pos ≤ output.length)
    (hn : n ≤ m) (hm : isCodePoint m = true) (hlength : output.length < 100) :
    insertAll n i bias output (writeDelta bias base delta ++ r) =
      insertAll m (pos + 1) (adapt delta (output.length + 1) (i == 0)) (output.insertIdx pos m)
        r := by
  have hcode : m ≤ 0x10FFFF := by
    simp only [isCodePoint, Bool.or_eq_true, Bool.and_eq_true, decide_eq_true_iff] at hm
    omega
  -- the delta stays within a machine word, even with all the digits that could be read
  have hroom : i + (base - tMin) * (delta * 1) < UInt32.size := by
    have hle : (m - n) * (output.length + 1) ≤ 0x10FFFF * 100 :=
      Nat.mul_le_mul (by omega) hlength
    simp only [base, tMin, UInt32.size] at *
    omega
  have hread := readDelta_writeDelta bias base delta i 1 r hroom
  -- the quotient is how far the code point goes up, the remainder is where it is inserted
  have hdiv : (i + delta * 1) / (output.length + 1) = m - n := by
    rw [Nat.mul_one, hplace, Nat.mul_comm, Nat.mul_add_div (by omega),
      Nat.div_eq_of_lt (by omega), Nat.add_zero]
  have hmod : (i + delta * 1) % (output.length + 1) = pos := by
    rw [Nat.mul_one, hplace, Nat.mul_comm, Nat.mul_add_mod, Nat.mod_eq_of_lt (by omega)]
  have hne : (writeDelta bias base delta ++ r).isEmpty = false := by
    simp [writeDelta_ne_nil]
  have hword : word? (n + (m - n)) = some m := by
    rw [Nat.add_sub_cancel' hn]
    exact word?_of_lt (by simp only [UInt32.size]; omega)
  rw [insertAll, hne]
  split
  next => contradiction
  split
  next hnone =>
    rw [hread] at hnone
    cases hnone
  next j r' hsome =>
    obtain ⟨rfl, rfl⟩ : i + delta * 1 = j ∧ r = r' := by simpa [hread] using hsome
    dsimp only
    rw [hdiv, hmod, hword, Nat.mul_one, Nat.add_sub_cancel_left]
    exact if_pos hm

/-! ## Passes -/

/-- In the pass for `m`, with `done` behind it and `cs` ahead of it, the encoder is followed by the
decoder at `n` and `i`: the output is what lies before the place in the order of insertions, and the
steps to the place are those to the decoder's index and the delta. -/
structure Follows (b m : Nat) (done cs : List Nat) (e : Progress) (n i : Nat)
    (output : List Nat) : Prop where
  inserted : output = done.filter (· ≤ m) ++ cs.filter (· < m)
  handled : e.handled = output.length
  le : n ≤ m
  place : i + e.delta = (m - n) * (e.handled + 1) + (done.filter (· ≤ m)).length
  basic : b ≤ e.handled
  first : i = 0 ↔ e.handled = b

variable {b m n i : Nat} {done cs input output : List Nat} {e : Progress}

/-- A smaller code point is in the output, and stepped over. -/
theorem Follows.step_over {c : Nat} (h : Follows b m done (c :: cs) e n i output) (hc : c < m) :
    Follows b m (done ++ [c]) cs { e with delta := e.delta + 1 } n i output where
  inserted := by simp [h.inserted, hc, hc.le]
  handled := h.handled
  le := h.le
  place := by
    have hplace := h.place
    have hone : ([c].filter (· ≤ m)).length = 1 := by simp [hc.le]
    rw [List.filter_append, List.length_append, hone]
    dsimp only
    omega
  basic := h.basic
  first := h.first

/-- A greater code point is left for a later pass. -/
theorem Follows.leave {c : Nat} (h : Follows b m done (c :: cs) e n i output) (hc : m < c) :
    Follows b m (done ++ [c]) cs e n i output where
  inserted := by simp [h.inserted, hc, hc.le]
  handled := h.handled
  le := h.le
  place := by simpa [hc] using h.place
  basic := h.basic
  first := h.first

theorem insertIdx_length_append {α : Type} (l l' : List α) (a : α) :
    (l ++ l').insertIdx l.length a = l ++ a :: l' := by
  induction l with
  | nil => rfl
  | cons x l ih => simp [ih]

/-- Behind the insertion of a code point nothing is left to be written. -/
theorem Follows.insert (h : Follows b m done (m :: cs) e n i output) (bias : Nat) :
    Follows b m (done ++ [m]) cs ⟨0, bias, e.handled + 1⟩ m ((done.filter (· ≤ m)).length + 1)
      (output.insertIdx (done.filter (· ≤ m)).length m) where
  inserted := by
    rw [h.inserted, insertIdx_length_append]
    simp
  handled := by
    rw [h.handled, h.inserted, insertIdx_length_append]
    simp
    omega
  le := Nat.le_refl m
  place := by simp
  basic := Nat.le_succ_of_le h.basic
  first := by
    have := h.basic
    simp
    omega

/-- A code point that is yet to be written leaves room in the output. -/
theorem Follows.length_output_lt (h : Follows b m done (m :: cs) e n i output)
    (hlength : (done ++ m :: cs).length ≤ 100) : output.length < 100 := by
  have hdone := List.length_filter_le (· ≤ m) done
  have hcs := List.length_filter_le (· < m) cs
  rw [h.inserted]
  simp at hlength ⊢
  omega

/-- Writing the delta in front of a code point makes the decoder insert it. -/
theorem Follows.insertAll_write (h : Follows b m done (m :: cs) e n i output)
    (hlength : (done ++ m :: cs).length ≤ 100) (hcode : isCodePoint m = true) (r : List Char) :
    insertAll n i e.bias output (writeDelta e.bias base e.delta ++ r) =
      insertAll m ((done.filter (· ≤ m)).length + 1)
        (adapt e.delta (e.handled + 1) (e.handled == b))
        (output.insertIdx (done.filter (· ≤ m)).length m) r := by
  have hpos : (done.filter (· ≤ m)).length ≤ output.length := by
    rw [h.inserted, List.length_append]
    omega
  have hfirst : (i == 0) = (e.handled == b) := by
    rw [Bool.eq_iff_iff, beq_iff_eq, beq_iff_eq]
    exact h.first
  rw [insertAll_writeDelta r (h.handled ▸ h.place) hpos h.le hcode (h.length_output_lt hlength),
    ← h.handled, hfirst]

/-- What a pass writes takes the decoder along. -/
theorem Follows.pass (h : Follows b m done cs e n i output)
    (hlength : (done ++ cs).length ≤ 100) (hcode : isCodePoint m = true) :
    ∃ n' i' output', Follows b m (done ++ cs) [] (Bootstring.pass b m e cs).2 n' i' output' ∧
      ∀ r, insertAll n i e.bias output ((Bootstring.pass b m e cs).1 ++ r) =
        insertAll n' i' (Bootstring.pass b m e cs).2.bias output' r := by
  -- by induction on what is ahead: a code point is smaller than that of the pass, or it, or greater
  induction cs generalizing done e n i output with
  | nil =>
    rw [List.append_nil]
    exact ⟨n, i, output, h, fun r => rfl⟩
  | cons c cs ih =>
    have hnext : ((done ++ [c]) ++ cs).length ≤ 100 := by rwa [← List.append_cons]
    rw [Bootstring.pass, adapt_eq, base_eq, List.append_cons]
    split_ifs with hless heq
    · exact ih (h.step_over hless) hnext
    · subst heq
      obtain ⟨n', i', output', hfollows, hrun⟩ :=
        ih (h.insert (adapt e.delta (e.handled + 1) (e.handled == b))) hnext
      refine ⟨n', i', output', hfollows, fun r => ?_⟩
      rw [List.append_assoc, h.insertAll_write hlength hcode]
      exact hrun r
    · exact ih (h.leave (by omega)) hnext

/-- The next pass starts with the least code point that is left. -/
theorem Follows.jump (h : Follows b n [] input e m i output) {k : Nat}
    (hk : least? input n = some k) :
    Follows b k [] input { e with delta := e.delta + (k - n) * (e.handled + 1) } m i output := by
  obtain ⟨-, hle, hleast⟩ := least?_eq_some hk
  refine ⟨?_, h.handled, h.le.trans hle, ?_, h.basic, h.first⟩
  · rw [h.inserted]
    refine congrArg _ (List.filter_congr fun c hc => ?_)
    have := hleast c hc
    rw [Bool.eq_iff_iff, decide_eq_true_iff, decide_eq_true_iff]
    omega
  -- a code point costs as many steps as there are places in the output, and one more
  · have hplace := h.place
    have hsub : k - m = (n - m) + (k - n) := by have := h.le; omega
    rw [hsub, Nat.add_mul]
    rw [List.filter_nil] at hplace ⊢
    dsimp only
    omega

/-- Behind a pass the next code point comes, from the start of the input. -/
theorem Follows.next (h : Follows b m input [] e n i output) :
    Follows b (m + 1) [] input { e with delta := e.delta + 1 } n i output := by
  have hinserted : output = input.filter (· ≤ m) := by simpa using h.inserted
  refine ⟨?_, h.handled, Nat.le_succ_of_le h.le, ?_, h.basic, h.first⟩
  · rw [List.filter_nil, List.nil_append, hinserted]
    exact List.filter_congr fun c _ => decide_eq_decide.mpr Nat.lt_succ_iff.symm
  · have hplace := h.place
    have hsub : m + 1 - n = (m - n) + 1 := by have := h.le; omega
    have hhandled := h.handled
    rw [← hinserted, ← hhandled] at hplace
    rw [hsub, Nat.add_mul]
    simp only [List.filter_nil, List.length_nil]
    omega

/-- The passes make the decoder insert everything. -/
theorem Follows.insertAll_passes (h : Follows b m [] input e n i output)
    (hlength : input.length ≤ 100) (hcode : ∀ c ∈ input, isCodePoint c = true) :
    insertAll n i e.bias output (passes b input m e) = some input := by
  fun_induction passes b input m e generalizing n i output with
  -- nothing is left, so all of the input is in the output
  | case1 m e hnone =>
    have hall : input.filter (· < m) = input := by
      rw [List.filter_eq_self]
      rw [least?, List.min?_eq_none_iff, List.filter_eq_nil_iff] at hnone
      intro c hc
      have := hnone c hc
      simp at this ⊢
      omega
    rw [insertAll]
    simp [h.inserted, hall]
  | case2 m e k hk out e' hpass ih =>
    obtain ⟨n', i', output', hfollows, hrun⟩ :=
      (h.jump hk).pass hlength (hcode k (least?_eq_some hk).1)
    rw [hpass] at hfollows hrun
    exact (hrun _).trans (ih hfollows.next)

/-! ## Texts -/

theorem not_mem_pass (b m : Nat) (e : Progress) (cs : List Nat) :
    '_' ∉ (Bootstring.pass b m e cs).1 := by
  induction cs generalizing e with
  | nil => simp [Bootstring.pass]
  | cons c cs ih =>
    rw [Bootstring.pass]
    split_ifs
    · exact ih _
    · exact List.not_mem_append (not_mem_writeDelta _ _ _) (ih _)
    · exact ih _

/-- The digits of the encoder are no separators, so the last separator is the one in front of them.
-/
theorem not_mem_passes (b : Nat) (input : List Nat) (n : Nat) (e : Progress) :
    '_' ∉ passes b input n e := by
  fun_induction passes b input n e with
  | case1 => simp
  | case2 n e m hm out e' hpass ih =>
    have hout := not_mem_pass b m { e with delta := e.delta + (m - n) * (e.handled + 1) } input
    rw [hpass] at hout
    exact List.not_mem_append hout ih

/-- The last delimiter is the one behind the basic code points. -/
theorem splitBasic_append (basic : List Char) {extended : List Char} (h : '_' ∉ extended) :
    splitBasic (basic ++ (if basic.isEmpty then [] else ['_']) ++ extended) =
      (basic, extended) := by
  have hall : ∀ c ∈ extended.reverse, (c != '_') = true := by
    intro c hc
    rw [bne_iff_ne]
    exact fun heq => h (heq ▸ List.mem_reverse.mp hc)
  unfold splitBasic
  cases basic with
  | nil => simp [List.takeWhile_eq_self_iff.mpr hall, List.dropWhile_eq_nil_iff.mpr hall]
  | cons c basic =>
    simp [List.takeWhile_append_of_pos hall, List.dropWhile_append_of_pos hall]

theorem Letter.isCodePoint_codePoint (l : Letter) : isCodePoint l.codePoint = true := by
  simp only [isCodePoint, Bool.or_eq_true, Bool.and_eq_true, decide_eq_true_iff]
  cases l with
  | plain c =>
    have hvalid : c.toNat.isValidChar := c.valid
    rw [Nat.isValidChar] at hvalid
    rw [codePoint]
    omega
  | escaped c ascii =>
    rw [codePoint]
    omega

theorem Letter.toChar_codePoint (l : Letter) : toChar l.codePoint = l.char := by
  cases l with
  | plain c =>
    have hvalid : c.toNat.isValidChar := c.valid
    rw [Nat.isValidChar] at hvalid
    rw [codePoint, toChar, if_neg (by simp; omega), Char.ofNat_toNat]
    rfl
  | escaped c ascii =>
    rw [codePoint, toChar, if_pos (by simp; omega), Nat.add_sub_cancel_left, Char.ofNat_toNat]
    rfl

theorem toNat_ofNat_of_lt {n : Nat} (h : n < initialCodePoint) : (Char.ofNat n).toNat = n := by
  have hall : ∀ k < initialCodePoint, (Char.ofNat k).toNat = k := by decide
  exact hall n h

/-- Of a text of up to 100 code points that is encoded, the decoder makes the characters that are
meant. -/
theorem decode?_encode (letters : List Letter) (h : letters.length ≤ 100) :
    decode? (encode letters) = some (String.ofList (letters.map Letter.char)) := by
  unfold encode Bootstring.encode
  rw [initialN_eq, initialBias_eq]
  dsimp only
  generalize hinput : letters.map Letter.codePoint = input
  generalize hbasic : input.filter (· < initialCodePoint) = basic
  have hstart : Follows basic.length initialCodePoint [] input ⟨0, initialBias, basic.length⟩
      initialCodePoint 0 basic :=
    ⟨by simp [hbasic], rfl, Nat.le_refl _, by simp, Nat.le_refl _, by simp⟩
  -- the encoder and the decoder start together, with the basic code points in the output
  have hrun := hstart.insertAll_passes (by simpa [← hinput] using h) fun c hc => by
    obtain ⟨l, -, rfl⟩ := List.mem_map.mp (hinput ▸ hc)
    exact l.isCodePoint_codePoint
  have hlt : ∀ c ∈ basic, c < initialCodePoint := by
    intro c hc
    rw [← hbasic, List.mem_filter, decide_eq_true_iff] at hc
    exact hc.2
  -- the basic code points are in front of the delimiter, as they are
  have hchars : (basic.map Char.ofNat).map Char.toNat = basic := by
    rw [List.map_map]
    exact (List.map_congr_left fun c hc => toNat_ofNat_of_lt (hlt c hc)).trans (List.map_id' _)
  have hascii : (basic.map Char.ofNat).all (·.toNat < 128) = true := by
    rw [List.all_map, List.all_eq_true]
    intro c hc
    exact decide_eq_true ((toNat_ofNat_of_lt (hlt c hc)).trans_lt (hlt c hc))
  have hmeant : input.map toChar = letters.map Letter.char := by
    rw [← hinput, List.map_map]
    exact List.map_congr_left fun l _ => l.toChar_codePoint
  rw [decode?, String.toList_ofList, ← List.isEmpty_map (f := Char.ofNat),
    splitBasic_append _ (not_mem_passes _ _ _ _)]
  dsimp only at hrun ⊢
  rw [if_pos hascii, hchars, hrun, Option.map_some, hmeant]

/-- A text with an escaped full stop. -/
theorem decode?_encode_escaped :
    let letters := [Letter.plain 'a', .escaped '.' (by decide), .plain 'b']
    letters.length ≤ 100 ∧ encode letters = "ab_xhJk" ∧
      decode? (encode letters) = some (String.ofList (letters.map Letter.char)) ∧
        String.ofList (letters.map Letter.char) = "a.b" := by
  intro letters
  exact ⟨by decide, by decide +kernel, decode?_encode letters (by decide), rfl⟩

end SwiftMangling.Punycode
