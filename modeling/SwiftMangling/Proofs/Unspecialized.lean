import SwiftMangling.Proofs.Depth
import SwiftMangling.Proofs.Module

/-!
# Declarations without arguments

Taking the arguments off a declaration leaves nothing specialized, and nothing deeper than the
declaration was. The walk from a declaration to its module takes arguments off or goes down to a
child, and what it takes arguments off is no longer specialized, so it ends on every tree and the
number of steps that it is given is large enough (`unspecialized?_removes`).

In a decoded tree the arguments of something specialized can be taken off exactly if this comes to
no protocol inside of something specialized, for which there is no rule
(`isSome_unspecialized?_iff`).
-/

namespace SwiftMangling.Node

variable {n r t : Node} {checked : Prop}

/-! ## Depth and height of what is left -/

/-- Taking arguments off never makes a tree deeper. -/
theorem depth_le_of_unspecialized? (h : n.unspecialized? = some r) : r.depth ≤ n.depth := by
  refine le_of_unspecialized? (I := fun _ => True) (fun _ _ c hc => ⟨trivial, ?_⟩) ?_ h trivial
  · exact depth_lt_of_mem_children hc
  · intro k cs m hm hcs
    have hle : depths cs ≤ m - 1 := depths_le_iff.mpr fun c hc => Nat.le_sub_one_of_lt (hcs c hc)
    rw [depth_eq]
    show depths cs + 1 ≤ m
    omega

theorem height_le_of_unspecialized? (hn : n.Sound checked) (h : n.unspecialized? = some r) :
    r.height ≤ n.height := by
  refine le_of_unspecialized? (fun _ hn c hc => ⟨hn.child hc, hn.lower hc⟩) ?_ h hn
  intro k cs m hm hcs
  have hle := heightAbove_le fun c hc => Nat.le_sub_one_of_lt (hcs c hc)
  show heightAbove cs ≤ m
  omega

/-- Stored heights are no smaller than depths, if they are above those of the children. -/
theorem Sound.depth_le_height (h : n.Sound checked) : n.depth ≤ n.height := by
  induction h with
  | @intro n _ positive lower _ ih =>
    have hle : depths n.children ≤ n.height - 1 :=
      depths_le_iff.mpr fun c hc => Nat.le_sub_one_of_lt (Nat.lt_of_le_of_lt (ih c hc) (lower c hc))
    rw [depth_eq]
    omega

/-! ## Protocols in the way -/

/-- Where arguments can be taken off, no protocol is hidden. -/
theorem not_hidesProtocol_of_unspecialized? (h : n.unspecialized? = some r) :
    n.hidesProtocol = false := by
  refine unspecialized?_induction (P := fun n _ => n.hidesProtocol = false)
    (fun _ => not_hidesProtocol) ?_ ?_ ?_ h
  · intro n p _ rest hk hcs hp
    have hnext : n.stripped? = some p := by
      rw [stripped?_declaration hk, first?, hcs, List.head?_cons]
    rw [hidesProtocol_eq hnext, hp]
  · intro n u _ hb hu hp
    rw [hidesProtocol_eq ((stripped?_bound hb).trans hu), hp]
  · intro n c p _ rest hk hcs hp
    have hnext : n.stripped? = some p := by rw [stripped?_extension hk, child?, hcs]; rfl
    rw [hidesProtocol_eq hnext, hp]

theorem Everywhere.follow? {P : Node → Prop} {path : List Nat} (h : t.Everywhere P)
    (hn : t.follow? path = some n) : n.Everywhere P := by
  induction path generalizing t with
  | nil =>
    obtain rfl := Option.some.inj hn
    exact h
  | cons i path ih =>
    rw [Node.follow?] at hn
    split at hn
    next c hc => exact ih (h.child (List.mem_of_getElem? hc)) hn
    next => cases hn

theorem exists_follow?_of_any {symbol : List UInt8} {path : List Nat} {p : Node → Bool}
    (h : ((decode symbol).bind (·.follow? path)).any p = true) :
    ∃ t n, decode symbol = some t ∧ t.follow? path = some n ∧ p n = true := by
  obtain ⟨n, hbind, hn⟩ := (Option.any_eq_true ..).mp h
  obtain ⟨t, ht, hpath⟩ := Option.bind_eq_some_iff.mp hbind
  exact ⟨t, n, ht, hpath, hn⟩

/-- In a decoded tree, of either scheme, the arguments of something specialized can be taken off
exactly if no protocol is hidden in it. -/
theorem isSome_unspecialized?_iff {symbol : List UInt8} {path : List Nat}
    (h : decode symbol = some t) (hn : t.follow? path = some n) (hs : n.isSpecialized = true) :
    n.unspecialized?.isSome = true ↔ n.hidesProtocol = false := by
  constructor
  · intro hsome
    obtain ⟨r, hr⟩ := Option.isSome_iff_exists.mp hsome
    exact not_hidesProtocol_of_unspecialized? hr
  · intro hfree
    obtain ⟨_, hformed⟩ := formed_of_decode h
    obtain ⟨r, hr, -⟩ := exists_unbound? (hformed.restorable.follow? hn) hfree
    rw [← unbound?_of_isSpecialized hs, hr]
    rfl

/-- A structure inside of a structure, both with arguments. -/
theorem isSome_unspecialized?_iff_nested :
    ∃ t n, decode (Utf8.encode "$s4main3FooV3BarVySi_SiGD") = some t ∧
      t.follow? [0, 0, 0] = some n ∧ n.isSpecialized = true ∧ n.unspecialized?.isSome = true := by
  have hcheck : ((decode (Utf8.encode "$s4main3FooV3BarVySi_SiGD")).bind
      (·.follow? [0, 0, 0])).any (fun n => n.isSpecialized && !n.hidesProtocol) = true := by
    decide +kernel
  obtain ⟨t, n, ht, hpath, hn⟩ := exists_follow?_of_any hcheck
  obtain ⟨hs, hfree⟩ : n.isSpecialized = true ∧ n.hidesProtocol = false := by simpa using hn
  exact ⟨t, n, ht, hpath, hs, (isSome_unspecialized?_iff ht hpath hs).mpr hfree⟩

/-- A protocol inside of a structure with arguments is specialized, and its arguments cannot be
taken off. -/
theorem unspecialized?_protocol_eq_none :
    ∃ t n, decode (Utf8.encode "$s4main3FooV1PPySi_SiGD") = some t ∧
      t.follow? [0, 0, 0, 0, 0] = some n ∧ n.isSpecialized = true ∧ n.unspecialized? = none := by
  have hcheck : ((decode (Utf8.encode "$s4main3FooV1PPySi_SiGD")).bind
      (·.follow? [0, 0, 0, 0, 0])).any
        (fun n => n.isSpecialized && n.unspecialized?.isNone) = true := by
    decide +kernel
  obtain ⟨t, n, ht, hpath, hn⟩ := exists_follow?_of_any hcheck
  obtain ⟨hs, hnone⟩ : n.isSpecialized = true ∧ n.unspecialized? = none := by simpa using hn
  exact ⟨t, n, ht, hpath, hs, hnone⟩

end SwiftMangling.Node

namespace SwiftMangling.Symbol

open Node

variable {m n : Node} {fuel : Nat}

/-! ## The walk ends -/

/-- The node at which the walk to the module goes on. -/
def onward? (n : Node) : Option Node :=
  match n.kind with
  | .moduleName => none
  | .typeMangling | .type => n.first?
  | .global => mainPart? n
  | k =>
    if n.isSpecialized then n.unspecialized?
    else if k.isContext then n.first?
    else none

/-- The walk ends at a module, and goes on from any other node or ends without a result. -/
theorem moduleFrom_eq_onward? (fuel : Nat) (n : Node) : moduleFrom (fuel + 1) n =
    if n.kind == .moduleName then n.text? else (onward? n).bind (moduleFrom fuel) := by
  rw [moduleFrom, onward?]
  split <;> simp_all
  split
  · rfl
  · split <;> rfl

/-- How many steps the walk can still take: two for each level, of which one takes arguments off. -/
def walkBound (n : Node) : Nat :=
  2 * n.depth + if n.isSpecialized then 1 else 0

theorem walkBound_lt_of_child {c : Node} (hc : c ∈ n.children) : walkBound c < walkBound n := by
  have := depth_lt_of_mem_children hc
  unfold walkBound
  split <;> omega

/-- Every step of the walk lowers the bound. -/
theorem walkBound_lt (h : onward? n = some m) : walkBound m < walkBound n := by
  unfold onward? at h
  split at h
  case h_1 => cases h
  case h_4 => exact walkBound_lt_of_child (List.mem_of_find?_eq_some h)
  case h_5 =>
    split at h
    next hs =>
      -- what is rebuilt is no deeper, and no longer specialized
      have hdepth := depth_le_of_unspecialized? h
      rw [walkBound, walkBound, hs, not_isSpecialized_of_unspecialized? h]
      simp only [Bool.false_eq_true, if_false, if_true]
      omega
    next =>
      split at h
      · exact walkBound_lt_of_child (List.mem_of_head? h)
      · cases h
  all_goals exact walkBound_lt_of_child (List.mem_of_head? h)

/-- Walks from a node to the module that declares it, in as many steps as it takes. -/
def walk (n : Node) : Option String :=
  if n.kind == .moduleName then n.text?
  else
    match _h : onward? n with
    | none => none
    | some m => walk m
termination_by walkBound n
decreasing_by exact walkBound_lt _h

theorem walk_eq (n : Node) :
    walk n = if n.kind == .moduleName then n.text? else (onward? n).bind walk := by
  rw [walk]
  split
  · rfl
  · split <;> simp_all

/-- Enough steps are as good as no bound. -/
theorem moduleFrom_eq_walk (h : walkBound n < fuel) : moduleFrom fuel n = walk n := by
  induction fuel generalizing n with
  | zero => omega
  | succ fuel ih =>
    rw [moduleFrom_eq_onward?, walk_eq]
    split
    · rfl
    · cases hnext : onward? n with
      | none => rfl
      | some m =>
        have := walkBound_lt hnext
        exact ih (by omega)

/-- The module that a symbol tells is where the walk from its tree ends. -/
theorem module?_eq_walk (symbol : String) :
    module? symbol = (decode (Utf8.encode symbol)).bind walk := by
  unfold module?
  cases h : decode (Utf8.encode symbol) with
  | none => rfl
  | some t =>
    refine moduleFrom_eq_walk ?_
    have := (sound_of_decode h).1.depth_le_height
    unfold walkBound
    split <;> omega

/-- Nothing is specialized that arguments have been taken off, and it is no deeper and, in every
tree that can be built, no higher than before. So the walk to the module ends wherever it starts,
and what a symbol tells is what the walk without a bound on its steps finds. -/
theorem unspecialized?_removes :
    (∀ n r : Node, n.unspecialized? = some r →
      r.isSpecialized = false ∧ r.depth ≤ n.depth ∧ (n.Built → r.height ≤ n.height)) ∧
    (WellFounded fun m n => onward? n = some m) ∧
    ∀ symbol, module? symbol = (decode (Utf8.encode symbol)).bind walk := by
  refine ⟨fun n r h => ⟨not_isSpecialized_of_unspecialized? h, depth_le_of_unspecialized? h,
    fun hn => height_le_of_unspecialized? hn.sound h⟩, ?_, module?_eq_walk⟩
  exact Subrelation.wf walkBound_lt (measure walkBound).wf

/-- A method of a structure with arguments. -/
theorem unspecialized?_removes_method :
    let foo := branch .structureType [.module "main", .identifier "Foo"]
    let bound := branch .boundGenericStructure [typeOf foo, branch .typeList [.builtin "Int1"]]
    let n := branch .function [bound, .identifier "f"]
    n.Built ∧ ∃ r, n.unspecialized? = some r ∧ r.isSpecialized = false ∧ r.depth ≤ n.depth ∧
      r.height ≤ n.height := by
  intro foo bound n
  have hleaf (k : Kind) (p : Payload) : (ofPayload k p).Built := .ofPayload k p
  have hfoo : (typeOf foo).Built := by
    refine .branch .type fun c hc => ?_
    obtain rfl := List.mem_singleton.mp hc
    refine .branch .structureType fun c hc => ?_
    obtain rfl | rfl := by simpa using hc
    all_goals exact hleaf ..
  have harguments : (branch .typeList [.builtin "Int1"]).Built := by
    refine .branch .typeList fun c hc => ?_
    obtain rfl := List.mem_singleton.mp hc
    exact hleaf ..
  have hn : n.Built := by
    refine .branch .function fun c hc => ?_
    obtain rfl | rfl := by simpa using hc
    · refine .branch .boundGenericStructure fun c hc => ?_
      obtain rfl | rfl := by simpa using hc
      · exact hfoo
      · exact harguments
    · exact hleaf ..
  have hsome : n.unspecialized?.isSome = true := by decide +kernel
  obtain ⟨r, hr⟩ := Option.isSome_iff_exists.mp hsome
  obtain ⟨hplain, hdepth, hheight⟩ := unspecialized?_removes.1 n r hr
  exact ⟨hn, r, hr, hplain, hdepth, hheight hn⟩

end SwiftMangling.Symbol
