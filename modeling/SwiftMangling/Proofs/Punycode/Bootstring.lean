import Mathlib.Data.List.TakeWhile

/-!
# The Bootstring algorithm

How Punycode writes a list of code points: the basic ones as they are, and the others from the least
to the greatest, each as a variable-length integer that counts steps. The algorithm is stated with
numbers, thresholds and an adaptation of the bias of its own, apart from those of the decoder. Only
the digits are those of the mangling, where `A` to `J` come after `z`.
-/

namespace SwiftMangling.Bootstring

/-! ## Numbers -/

def base : Nat := 36

def tmin : Nat := 1

def tmax : Nat := 26

def skew : Nat := 38

def damp : Nat := 700

def initialBias : Nat := 72

/-- The first code point that is not basic. -/
def initialN : Nat := 128

/-- Where a digit ends a variable-length integer, at place `k`. -/
def threshold (k bias : Nat) : Nat :=
  if k ≤ bias + tmin then tmin else if bias + tmax ≤ k then tmax else k - bias

/-- Divides `delta` until it is small, and counts the divisions in `k`. -/
def reduce (delta k : Nat) : Nat × Nat :=
  if (base - tmin) * tmax / 2 < delta then reduce (delta / (base - tmin)) (k + base) else (delta, k)
termination_by delta
decreasing_by exact Nat.div_lt_self (by omega) (by decide)

/-- The bias after a delta, with `count` code points handled. -/
def adapt (delta count : Nat) (isFirst : Bool) : Nat :=
  let delta := if isFirst then delta / damp else delta / 2
  let (delta, k) := reduce (delta + delta / count) 0
  k + (base - tmin + 1) * delta / (delta + skew)

theorem one_le_threshold (k bias : Nat) : 1 ≤ threshold k bias := by
  unfold threshold tmin tmax
  split_ifs <;> omega

/-! ## Variable-length integers -/

/-- A digit as it is written. -/
def digit (d : Nat) : Char :=
  if d < 26 then Char.ofNat ('a'.toNat + d) else Char.ofNat ('A'.toNat + (d - 26))

/-- A variable-length integer, from place `k` on. -/
def writeDelta (bias k q : Nat) : List Char :=
  let t := threshold k bias
  if q < t then [digit q]
  else digit (t + (q - t) % (base - t)) :: writeDelta bias (k + base) ((q - t) / (base - t))
termination_by q
decreasing_by
  have hpos := one_le_threshold k bias
  exact Nat.lt_of_le_of_lt (Nat.div_le_self ..) (by omega)

/-! ## Passes over the input -/

/-- What the encoder carries along. -/
structure Progress where
  /-- The steps of the decoder that are not yet written. -/
  delta : Nat
  /-- The bias of the next variable-length integer. -/
  bias : Nat
  /-- How many code points are written. -/
  handled : Nat

/-- One pass over the code points `cs`: those that are `m` are written, and the smaller ones are
stepped over. There are `b` basic code points. -/
def pass (b m : Nat) (e : Progress) : List Nat → List Char × Progress
  | [] => ([], e)
  | c :: cs =>
    if c < m then pass b m { e with delta := e.delta + 1 } cs
    else if c = m then
      let bias := adapt e.delta (e.handled + 1) (e.handled == b)
      let (out, e') := pass b m ⟨0, bias, e.handled + 1⟩ cs
      (writeDelta e.bias base e.delta ++ out, e')
    else pass b m e cs

/-- The least code point of the input that is at least `n`. -/
def least? (input : List Nat) (n : Nat) : Option Nat :=
  (input.filter (n ≤ ·)).min?

/-- The least code point that is not handled yet. -/
theorem least?_eq_some {input : List Nat} {n m : Nat} (h : least? input n = some m) :
    m ∈ input ∧ n ≤ m ∧ ∀ c ∈ input, n ≤ c → m ≤ c := by
  obtain ⟨hmem, hle⟩ := List.min?_eq_some_iff.mp h
  rw [List.mem_filter, decide_eq_true_iff] at hmem
  exact ⟨hmem.1, hmem.2, fun c hc hn => hle c (List.mem_filter.mpr ⟨hc, decide_eq_true hn⟩)⟩

/-- A pass leaves less of the input to do. -/
theorem length_filter_lt {input : List Nat} {n m : Nat} (h : least? input n = some m) :
    (input.filter (m + 1 ≤ ·)).length < (input.filter (n ≤ ·)).length := by
  obtain ⟨hmem, hn, -⟩ := least?_eq_some h
  have hfilter : input.filter (m + 1 ≤ ·) = (input.filter (n ≤ ·)).filter (m + 1 ≤ ·) := by
    rw [List.filter_filter]
    refine List.filter_congr fun c _ => ?_
    rw [Bool.eq_iff_iff, Bool.and_eq_true, decide_eq_true_iff, decide_eq_true_iff]
    omega
  rw [hfilter, List.length_filter_lt_length_iff_exists]
  exact ⟨m, List.mem_filter.mpr ⟨hmem, decide_eq_true hn⟩, by simp⟩

/-- Passes over the input, one for each code point from `n` on that occurs in it. -/
def passes (b : Nat) (input : List Nat) (n : Nat) (e : Progress) : List Char :=
  match _h : least? input n with
  | none => []
  | some m =>
    let (out, e) := pass b m { e with delta := e.delta + (m - n) * (e.handled + 1) } input
    out ++ passes b input (m + 1) { e with delta := e.delta + 1 }
termination_by (input.filter (n ≤ ·)).length
decreasing_by exact length_filter_lt _h

/-- The basic code points as they are, and a delimiter if there are any; then the others. -/
def encode (input : List Nat) : String :=
  let basic := input.filter (· < initialN)
  String.ofList (basic.map Char.ofNat ++ (if basic.isEmpty then [] else ['_']) ++
    passes basic.length input initialN ⟨0, initialBias, basic.length⟩)

end SwiftMangling.Bootstring
