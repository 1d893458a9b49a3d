import SwiftMangling.Proofs.Legacy.Generic
import SwiftMangling.Proofs.Legacy.Progress
import SwiftMangling.Proofs.Node.Same
import SwiftMangling.Proofs.Node.Unbound
import SwiftMangling.Symbol

/-!
# What binding does to a declaration

A list of arguments is read for a declaration and for each declaration around it, the outermost
first, up to one that stands in a context without arguments. All but the outermost are rebuilt, from
their parent and their name only. So, with the bound generic nodes replaced by what they bind, the
result is the declaration that was bound if none of the rebuilt ones had more than these two
children, and lacks the other children if one had (`unbind_of_bindArguments`): a variable loses its
type (`unbind_variable`).
-/

namespace SwiftMangling.Legacy

open Decoding Node

variable {g : Grammar} {s t : State} {n r p : Node} {parts own : List Node}

/-! ## Argument lists -/

/-- Reads `k` lists of arguments and returns the last one first. -/
def argumentLists : Nat → Decoder (List (List Node))
  | 0 => return []
  | k + 1 => do
    let outer ← argumentLists k
    return (← manyUntil '_' genericArgument) :: outer

/-- There is one list for each level that is asked for. -/
theorem length_of_argumentLists {k : Nat} {lists : List (List Node)}
    (h : argumentLists k g s = (some lists, t)) : lists.length = k := by
  induction k generalizing lists t with
  | zero =>
    cases h
    rfl
  | succ k ih =>
    obtain ⟨outer, u, houter, h⟩ := bind_eq_some_iff.mp h
    obtain ⟨own, v, -, h⟩ := bind_eq_some_iff.mp h
    cases h
    rw [List.length_cons, ih houter]

/-- The declarations that are rebuilt if `n` is bound: `n` itself and those around it, up to one
that stands in a context without arguments. -/
def rebuiltLevels (n : Node) : List Node :=
  match _h : n.children with
  | [] => []
  | parent :: _ => if isUnboundContext parent.kind then [] else n :: rebuiltLevels parent
termination_by sizeOf n
decreasing_by exact sizeOf_lt_of_mem_children (by simp [_h])

/-- The declaration with nothing but parent and name in each level that is rebuilt. -/
def trimmed (n : Node) : Node :=
  match _h : n.children with
  | [] => n
  | parent :: parts =>
    if isUnboundContext parent.kind then n else branch n.kind (trimmed parent :: parts.take 1)
termination_by sizeOf n
decreasing_by exact sizeOf_lt_of_mem_children (by simp [_h])

/-- Nothing is trimmed off exactly if no level that is rebuilt has more than two children. -/
theorem same_trimmed_iff (n : Node) : (trimmed n).same n = true ↔
    ∀ d ∈ rebuiltLevels n, d.payload = .none ∧ d.count ≤ 2 := by
  -- by induction on the size: a level that is not rebuilt is not trimmed
  induction hsize : sizeOf n using Nat.strongRecOn generalizing n with
  | _ size ih =>
  subst hsize
  rw [trimmed, rebuiltLevels]
  split
  next => simp [same_refl]
  next parent parts hcs =>
    split
    next => simp [same_refl]
    next =>
      have hcount : n.count ≤ 2 ↔ parts.length ≤ 1 := by simp [count, hcs]
      have hparent := ih _ (sizeOf_lt_of_mem_children (by simp [hcs])) parent rfl
      rw [same_branch_iff, hcs, sameList, Bool.and_eq_true, hparent, sameList_take_iff,
        List.forall_mem_cons, hcount, and_assoc, and_comm (a := parts.length ≤ 1)]

/-- The structure `Foo` inside of another declaration. -/
def fooIn (parent : Node) : Node :=
  branch .structureType [parent, .identifier "Foo"]

/-- The structure `Bar` of the module `main`. -/
def bar : Node :=
  branch .structureType [.module "main", .identifier "Bar"]

example : (trimmed (fooIn bar)).same (fooIn bar) = true := by decide +kernel

/-! ## Taking the bound nodes off again -/

/-- What `r` is without the node that binds it to the given arguments; no arguments bind nothing. -/
def unbindOne (own : List Node) (r : Node) : Option Node :=
  if own.isEmpty then some r
  else if isBoundKind r.kind then r.bound?
  else none

/-- Replaces the nodes that bind a declaration and those around it to the given lists of arguments,
its own list first, by what they bind. -/
def unbind : List (List Node) → Node → Option Node
  | [], _ => none
  | [own], r => unbindOne own r
  | own :: outer, r => do
    let d ← unbindOne own r
    match d.children with
    | [] => none
    | bound :: parts => return branch d.kind ((← unbind outer bound) :: parts)

/-- The lists of the outer levels belong to the context of a declaration. -/
theorem unbind_cons {outer : List (List Node)} {k : Kind} (houter : outer ≠ [])
    (h : unbindOne own r = some (branch k (p :: parts))) :
    unbind (own :: outer) r = (unbind outer p).map fun d => branch k (d :: parts) := by
  rw [unbind, h, Option.map_eq_bind]
  · rfl
  · exact houter

/-- Taking off the arguments that a level was bound to gives the level back. -/
theorem unbindOne_of_bindOne (h : bindOne n g s = (some r, t)) :
    ∃ own, manyUntil '_' genericArgument g s = (some own, t) ∧ unbindOne own r = some n := by
  obtain ⟨own, u, hown, h⟩ := bind_eq_some_iff.mp h
  cases own with
  -- an empty list binds nothing, and takes nothing away
  | nil =>
    cases h
    exact ⟨[], hown, rfl⟩
  | cons a as =>
    obtain ⟨k, v, hlookup, h⟩ := bind_eq_some_iff.mp h
    obtain ⟨hk, rfl⟩ := Prod.mk.inj hlookup
    cases h
    obtain ⟨hbound, hfunction, -⟩ := boundKind?_spec hk
    refine ⟨a :: as, hown, ?_⟩
    simp [unbindOne, branch, hbound, bound?, hfunction, first?, typeOf]

/-- Without the nodes that bind it and the declarations around it to the arguments that are read, a
bound declaration is the trimmed one. -/
theorem exists_lists_of_bindArguments (h : bindArguments n g s = (some r, t)) :
    ∃ lists, argumentLists ((rebuiltLevels n).length + 1) g s = (some lists, t) ∧
      unbind lists r = some (trimmed n) := by
  -- by induction on the declaration, outward; what is left of the parent is its first child again
  induction hsize : sizeOf n using Nat.strongRecOn generalizing n r t with
  | _ size ih =>
  subst hsize
  rw [bindArguments_eq, bindBody] at h
  rcases hcs : n.children with _ | ⟨parent, parts⟩
  · rw [hcs] at h
    cases h
  · rw [hcs] at h
    rw [trimmed, rebuiltLevels, hcs]
    dsimp only at h ⊢
    split at h
    next hk =>
      obtain ⟨own, hown, hr⟩ := unbindOne_of_bindOne h
      rw [if_pos hk, if_pos hk]
      exact ⟨[own], bind_eq_some_iff.mpr ⟨[], s, rfl, bind_eq_some_iff.mpr ⟨own, t, hown, rfl⟩⟩, hr⟩
    next hk =>
      obtain ⟨bound, u, hbound, h⟩ := bind_eq_some_iff.mp h
      obtain ⟨name, v, hlookup, h⟩ := bind_eq_some_iff.mp h
      obtain ⟨hname, rfl⟩ := Prod.mk.inj hlookup
      obtain ⟨own, hown, hr⟩ := unbindOne_of_bindOne h
      obtain ⟨outer, houter, hparent⟩ :=
        ih _ (sizeOf_lt_of_mem_children (by simp [hcs])) hbound rfl
      rw [if_neg hk, if_neg hk]
      refine ⟨own :: outer, bind_eq_some_iff.mpr ⟨outer, u, houter, bind_eq_some_iff.mpr
        ⟨own, t, hown, rfl⟩⟩, ?_⟩
      have houterNe : outer ≠ [] :=
        List.ne_nil_of_length_eq_add_one (length_of_argumentLists houter)
      obtain ⟨others, rfl⟩ := List.head?_eq_some_iff.mp hname
      rw [unbind_cons houterNe hr, hparent, List.take_succ_cons, List.take_zero]
      rfl

/-- Binding a declaration reads a list of arguments for each level that is rebuilt and one more.
Without the nodes that bind something to these arguments, the result is the trimmed declaration: the
one that was bound exactly if no rebuilt level has a payload or more than two children. -/
theorem unbind_of_bindArguments (h : bindArguments n g s = (some r, t)) :
    ∃ lists, argumentLists ((rebuiltLevels n).length + 1) g s = (some lists, t) ∧
      unbind lists r = some (trimmed n) ∧
      ((trimmed n).same n = true ↔ ∀ d ∈ rebuiltLevels n, d.payload = .none ∧ d.count ≤ 2) := by
  obtain ⟨lists, hlists, hr⟩ := exists_lists_of_bindArguments h
  exact ⟨lists, hlists, hr, same_trimmed_iff n⟩

/-- A structure inside of another one, both with arguments. -/
theorem unbind_of_bindArguments_nested :
    let s := State.start (Utf8.encode "Si_Si_.")
    ∃ r t, bindArguments (fooIn bar) descent s = (some r, t) ∧
      (∃ lists, argumentLists 2 descent s = (some lists, t) ∧
        unbind lists r = some (trimmed (fooIn bar))) ∧
      (trimmed (fooIn bar)).same (fooIn bar) = true := by
  intro s
  have hsome : (bindArguments (fooIn bar) descent s).1.isSome = true := by decide +kernel
  have hlevels : (rebuiltLevels (fooIn bar)).length + 1 = 2 := by decide +kernel
  have hplain : ∀ d ∈ rebuiltLevels (fooIn bar), d.payload = .none ∧ d.count ≤ 2 := by
    decide +kernel
  obtain ⟨r, t, hbind⟩ := exists_run_of_isSome hsome
  obtain ⟨lists, hlists, hunbind, hsame⟩ := unbind_of_bindArguments hbind
  rw [hlevels] at hlists
  exact ⟨r, t, hbind, ⟨lists, hlists, hunbind⟩, hsame.mpr hplain⟩

/-- With the bound node replaced by what it binds, a structure inside of a variable's accessor does
not get the type of the variable back. -/
theorem unbind_variable :
    let n := fooIn (branch .variableDecl [bar, .identifier "x", standardType .structureType "Int"])
    let start := State.start (Utf8.encode "VvV4main3Bar1xSi3Foo__Si_.")
    let s := (nominalType descent start).2
    (nominalType descent start).1.any n.same = true ∧
      ∃ r t, bindArguments n descent s = (some r, t) ∧
        ∀ lists m, argumentLists ((rebuiltLevels n).length + 1) descent s = (some lists, t) →
          unbind lists r = some m → m.same n = false := by
  intro n start s
  have hsome : (bindArguments n descent s).1.isSome = true := by decide +kernel
  obtain ⟨r, t, hbind⟩ := exists_run_of_isSome hsome
  refine ⟨by decide +kernel, r, t, hbind, fun lists m hlists hm => ?_⟩
  obtain ⟨lists', hlists', hm'⟩ := exists_lists_of_bindArguments hbind
  have hsame : lists = lists' := by
    rw [hlists] at hlists'
    cases hlists'
    rfl
  have htrimmed : (trimmed n).same n = false := by decide +kernel
  rw [hsame, hm'] at hm
  cases hm
  exact htrimmed

end SwiftMangling.Legacy
