import SwiftMangling.Proofs.Current.Run
import SwiftMangling.Proofs.Node.Height

/-!
# How high trees of the current scheme get

The loop over operators refuses nodes above `maxHeight`, and the root adds one level. The assembly
of the root then puts every level of forwarders around the levels inside of it, which no limit
checks: the height of a tree exceeds `maxHeight + 1` by at most the number of its forwarder levels,
and a family of symbols reaches that bound for every number of levels.
-/

namespace SwiftMangling.Current

open Decoding Node

variable {r : Config} {s : State}

/-! ## A family of symbols -/

/-- `n` forwarders. -/
def forwarders : Nat → List UInt8
  | 0 => []
  | n + 1 => 'T'.toUInt8 :: 'A'.toUInt8 :: forwarders n

/-- A type as high as operators may build it, below `n` forwarders. -/
def forwardedType (n : Nat) : List UInt8 :=
  Utf8.encode "$s" ++ 'x'.toUInt8 :: (List.replicate 126 'm'.toUInt8 ++ 'D'.toUInt8 :: forwarders n)

/-- The metatype of what is given, `k` times over. -/
def metatypes : Nat → Node → Node
  | 0, n => n
  | k + 1, n => metatypes k (branch .metatype [typeOf n])

/-- A metatype is two levels higher than its instance type. -/
theorem height_metatypes (k : Nat) (n : Node) : (metatypes k n).height = n.height + 2 * k := by
  induction k generalizing n with
  | zero => rfl
  | succ k ih =>
    rw [metatypes, ih]
    simp
    omega

/-- Every `m` puts the type on the stack one level deeper, up to the bound on heights. -/
theorem operatorsFrom_metatypes (k : Nat) {fuel : Nat} {rest : List UInt8} {n : Node}
    (hrest : s.cursor.rest = List.replicate k 'm'.toUInt8 ++ rest) (hstack : s.stack = [typeOf n])
    (hle : n.height + 1 + 2 * k ≤ maxHeight) :
    ∃ t, operatorsFrom (fuel + k) r s = operatorsFrom fuel r t ∧ t.cursor.rest = rest ∧
      t.stack = [typeOf (metatypes k n)] := by
  induction k generalizing s n with
  | zero => exact ⟨s, rfl, hrest, hstack⟩
  | succ k ih =>
    obtain ⟨⟨before, _⟩, _, substitutions, words, references⟩ := s
    cases hrest
    cases hstack
    -- a metatype replaces the type on the stack and is two levels higher
    have hstep : operator r ⟨⟨before, 'm'.toUInt8 :: (List.replicate k 'm'.toUInt8 ++ rest)⟩,
        [typeOf n], substitutions, words, references⟩ =
        (some (typeOf (branch .metatype [typeOf n])), ⟨⟨'m'.toUInt8 :: before, _⟩, [],
          substitutions, words, references⟩) := rfl
    obtain ⟨t, hrun, ht⟩ := ih (s := ⟨⟨'m'.toUInt8 :: before, _⟩,
      [typeOf (branch .metatype [typeOf n])], substitutions, words, references⟩) rfl rfl
      (by simp; omega)
    exact ⟨t, (operatorsFrom_of_operator rfl hstep (by simp; omega)).trans hrun, ht⟩

/-- Every forwarder stays on the stack, and none of them takes anything off it. -/
theorem operatorsFrom_forwarders {fuel : Nat} (n : Nat) (hrest : s.cursor.rest = forwarders n)
    (hfuel : n < fuel) :
    ∃ t, operatorsFrom fuel r s = (some (), t) ∧
      t.stack = List.replicate n (leaf .partialApplyForwarder) ++ s.stack := by
  obtain ⟨fuel, rfl⟩ : ∃ f, fuel = f + 1 := ⟨fuel - 1, by omega⟩
  induction n generalizing s fuel with
  | zero => exact ⟨s, operatorsFrom_of_atEnd hrest, rfl⟩
  | succ n ih =>
    obtain ⟨⟨before, rest⟩, stack, substitutions, words, references⟩ := s
    obtain rfl : rest = _ := hrest
    -- a forwarder leaves the stack alone and is pushed as a leaf
    have hstep : operator r ⟨⟨before, forwarders (n + 1)⟩, stack, substitutions, words,
        references⟩ = (some (leaf .partialApplyForwarder),
        ⟨⟨'A'.toUInt8 :: 'T'.toUInt8 :: before, forwarders n⟩, stack, substitutions, words,
          references⟩) := rfl
    rw [operatorsFrom_of_operator rfl hstep (by decide)]
    obtain ⟨fuel, rfl⟩ : ∃ f, fuel = f + 1 := ⟨fuel - 1, by omega⟩
    obtain ⟨t, hrun, hstack⟩ := ih (s := ⟨⟨_, forwarders n⟩, leaf .partialApplyForwarder :: stack,
      _, _, _⟩) rfl fuel (by omega)
    refine ⟨t, hrun, ?_⟩
    rw [hstack, List.replicate_succ']
    simp

theorem forwarderDepth_addChildren_leaf {k : Kind} {p : Node} (hp : isForwarder p.kind = false) :
    forwarderDepth ((leaf k).addChildren [p]) = 0 := by
  rw [forwarderDepth.eq_def]
  split
  next => rfl
  next c hc =>
    obtain rfl : p = c := by
      simpa [addChildren, leaf, ofPayload, acceptsChildren, last?, restoreHeight] using hc
    rw [hp]
    rfl

/-- Every forwarder raises the root by one level. -/
theorem enclose_forwarders (n : Nat) {k : Kind} {p : Node} (hp : isForwarder p.kind = false) :
    (enclose (leaf k) [p] (List.replicate n (leaf .partialApplyForwarder))).height =
        p.height + 1 + n ∧
      forwarderDepth (enclose (leaf k) [p] (List.replicate n (leaf .partialApplyForwarder))) = n ∧
      (enclose (leaf k) [p] (List.replicate n (leaf .partialApplyForwarder))).kind = k ∧
      (enclose (leaf k) [p] (List.replicate n (leaf .partialApplyForwarder))).count = 1 := by
  -- by induction on the number of forwarders, each of which encloses the next ones
  induction n generalizing k with
  | zero =>
    refine ⟨?_, forwarderDepth_addChildren_leaf hp, rfl, rfl⟩
    simp [enclose, addChildren, leaf, ofPayload, acceptsChildren, restoreHeight, heightAbove]
  | succ n ih =>
    obtain ⟨hheight, hdepth, hkind, -⟩ := ih (k := .partialApplyForwarder)
    have hforwarder : isForwarder (leaf .partialApplyForwarder).kind = true := rfl
    rw [List.replicate_succ, enclose, if_pos hforwarder]
    generalize enclose _ _ _ = inner at hheight hdepth hkind ⊢
    refine ⟨?_, ?_, rfl, rfl⟩
    · show max 1 (inner.height + 1) = _
      omega
    · rw [forwarderDepth_of_last? (c := inner) rfl (by rw [hkind]; rfl), hdepth]

/-- The root of a part with forwarders above it on the stack. -/
theorem root?_forwarders {n : Nat} {p : Node} (hp : p.kind.isFunctionAttribute = false)
    (ht : part? p = some p) :
    root? (List.replicate n (leaf .partialApplyForwarder) ++ [p]) =
      let root := enclose (leaf .global) [p] (List.replicate n (leaf .partialApplyForwarder))
      if root.count != 0 then some root else none := by
  have hall : ∀ a ∈ List.replicate n (leaf .partialApplyForwarder),
      a.kind.isFunctionAttribute = true := by
    intro a ha
    rw [List.eq_of_mem_replicate ha]
    rfl
  unfold root?
  rw [List.dropWhile_append_of_pos hall, List.takeWhile_append_of_pos hall]
  simp [hp, ht]

theorem length_forwarders (n : Nat) : (forwarders n).length = 2 * n := by
  induction n with
  | zero => rfl
  | succ n ih =>
    rw [forwarders, List.length_cons, List.length_cons, ih]
    omega

/-- The loop over operators leaves the type, as high as it may be, and the forwarders. -/
theorem operators_forwardedType (before : List UInt8) (n : Nat) :
    ∃ t, operators r ⟨⟨before, 'x'.toUInt8 ::
        (List.replicate 126 'm'.toUInt8 ++ 'D'.toUInt8 :: forwarders n)⟩, [], #[], [], #[]⟩ =
        (some (), t) ∧ t.stack = List.replicate n (leaf .partialApplyForwarder) ++
          [branch .typeMangling [typeOf (metatypes 126 (genericParameter 0 0))]] := by
  have hheight : (typeOf (metatypes 126 (genericParameter 0 0))).height = 255 := by
    rw [height_typeOf, height_metatypes, height_genericParameter]
  generalize hinput : 'x'.toUInt8 ::
    (List.replicate 126 'm'.toUInt8 ++ 'D'.toUInt8 :: forwarders n) = input
  have hlength : input.length = 2 * n + 1 + 126 + 1 := by
    simp [← hinput, length_forwarders]
  have hfuel : operators r ⟨⟨before, input⟩, [], #[], [], #[]⟩ =
      operatorsFrom (2 * n + 2 + 126 + 1) r ⟨⟨before, input⟩, [], #[], [], #[]⟩ := by
    show operatorsFrom (input.length + 1) r _ = _
    rw [hlength]
  -- the generic parameter, its metatypes, the mangling of the type, and then the forwarders
  have hx : operator r ⟨⟨before, input⟩, [], #[], [], #[]⟩ =
      (some (typeOf (genericParameter 0 0)), ⟨⟨'x'.toUInt8 :: before,
        List.replicate 126 'm'.toUInt8 ++ 'D'.toUInt8 :: forwarders n⟩, [], #[], [], #[]⟩) := by
    rw [← hinput]
    rfl
  rw [hfuel, operatorsFrom_of_operator hinput.symm hx (by decide)]
  obtain ⟨⟨⟨before', _⟩, _, substitutions, words, references⟩, hm, hrest, hstack⟩ :=
    operatorsFrom_metatypes (r := r) 126 (s := ⟨⟨'x'.toUInt8 :: before, _⟩,
      [typeOf (genericParameter 0 0)], #[], [], #[]⟩) rfl rfl (by decide)
  cases hrest
  cases hstack
  rw [hm]
  have hD : operator r ⟨⟨before', 'D'.toUInt8 :: forwarders n⟩,
      [typeOf (metatypes 126 (genericParameter 0 0))], substitutions, words, references⟩ =
      (some (branch .typeMangling [typeOf (metatypes 126 (genericParameter 0 0))]),
        ⟨⟨'D'.toUInt8 :: before', forwarders n⟩, [], substitutions, words, references⟩) := rfl
  rw [operatorsFrom_of_operator rfl hD (by rw [height_branch, top_cons, hheight]; decide)]
  exact operatorsFrom_forwarders n rfl (by omega)

/-- The bound is reached for every number of forwarders. -/
theorem decodeSymbol_forwardedType (n : Nat) :
    ∃ t, (decodeSymbol none (forwardedType n)).tree = some t ∧ forwarderDepth t = n ∧
      t.height = maxHeight + 1 + n := by
  have hprefix : Utf8.encode "$s" ∈ Scheme.currentPrefixes := by decide
  generalize hp : branch .typeMangling [typeOf (metatypes 126 (genericParameter 0 0))] = p
  -- the type is as high as the stack admits
  have hheight : p.height = 256 := by
    rw [← hp, height_branch, top_cons, height_typeOf, height_metatypes, height_genericParameter]
    rfl
  obtain ⟨htop, hdepth, -, hcount⟩ :=
    enclose_forwarders n (k := .global) (p := p) (by rw [← hp]; rfl)
  refine ⟨enclose (leaf .global) [p] (List.replicate n (leaf .partialApplyForwarder)), ?_, hdepth,
    by rw [htop, hheight]; rfl⟩
  have hlength : Scheme.prefixLength (forwardedType n) ≠ 0 := by
    rw [forwardedType, Scheme.prefixLength_eq_length hprefix (List.prefix_append _ _)]
    decide
  obtain ⟨t, hrun, hstack⟩ := operators_forwardedType
    (r := ⟨Scheme.hasInlineLabels (forwardedType n), none⟩) (Utf8.encode "$s").reverse n
  have hafter : State.afterPrefix (forwardedType n) = ⟨⟨(Utf8.encode "$s").reverse, 'x'.toUInt8 ::
      (List.replicate 126 'm'.toUInt8 ++ 'D'.toUInt8 :: forwarders n)⟩, [], #[], [], #[]⟩ :=
    afterPrefix_append hprefix _
  rw [decodeSymbol_eq hlength, hafter, hrun]
  show root? t.stack = _
  rw [hp] at hstack
  rw [hstack, root?_forwarders (by rw [← hp]; rfl) (by rw [← hp]; rfl),
    if_pos (by rw [hcount]; rfl)]

/-- Only forwarders raise a tree above the limit on operators and the root. -/
theorem height_le_of_decodeSymbol {input : List UInt8} {t : Node}
    (h : (decodeSymbol none input).tree = some t) : t.height ≤ maxHeight + 1 + forwarderDepth t :=
  (isRoot_of_decodeSymbol h).height

theorem height_le_of_decodeSymbol_forwarder :
    ∃ t, (decodeSymbol none (Utf8.encode "$s4main3fooyyFTA")).tree = some t ∧
      t.height ≤ maxHeight + 1 + forwarderDepth t := by
  have hsome : (decodeSymbol none (Utf8.encode "$s4main3fooyyFTA")).tree.isSome = true := by
    decide +kernel
  obtain ⟨t, ht⟩ := Option.isSome_iff_exists.mp hsome
  exact ⟨t, ht, height_le_of_decodeSymbol ht⟩

/-- A single forwarder around a type as high as operators may build it is above the limit. -/
theorem decodeSymbol_forwardedType_one :
    ∃ t, (decodeSymbol none (forwardedType 1)).tree = some t ∧ maxHeight + 1 < t.height := by
  obtain ⟨t, ht, -, hheight⟩ := decodeSymbol_forwardedType 1
  exact ⟨t, ht, by omega⟩

end SwiftMangling.Current
