import Mathlib.Data.List.Induction
import SwiftMangling.Proofs.Current.Operand

/-!
# Lists on the stack

The elements of a list stand on the stack one after the other, and the nodes of each in their order.
A mark behind the first element tells where the list begins. Elements are taken from the top, the
last one first, and a mark on top of the stack says that the element below it is the first one. So a
list is found in its order and nothing below it is touched (`popList_listNodes`), as long as each
element takes its own nodes only (`TakesEach`). Tuples and lists of types are two such lists
(`popTuple_and_popTypeList`).
-/

namespace SwiftMangling.Current

open Decoding Node

/-! ## Lists of any elements -/

/-- The nodes of a list, the oldest first: `mark` follows the nodes of the first element. -/
def listNodes {γ : Type} (nodes : γ → List Node) (mark : Node) (first : γ) (others : List γ) :
    List Node :=
  nodes first ++ mark :: others.flatMap nodes

section Elements

variable {γ : Type} {r : Config} {s : State} {element : Decoder Node} {nodes : γ → List Node}
  {result : γ → Node} {rest : List UInt8} {below : List Node}

/-- The decoder takes the nodes of any element, and finds `result` there. There are such nodes, and
none of them is a mark. -/
structure TakesEach (r : Config) (s : State) (element : Decoder Node) (nodes : γ → List Node)
    (result : γ → Node) : Prop where
  takes : ∀ e rest below, Turns r s element [] rest ((nodes e).reverse ++ below) below (result e)
  nonempty : ∀ e, nodes e ≠ []
  unmarked : ∀ e, ∀ n ∈ nodes e, n.kind ≠ .firstElementMarker ∧ n.kind ≠ .emptyList

namespace TakesEach

/-- No mark is on top where an element is. -/
theorem bare (h : TakesEach r s element nodes result) (e : γ) (below : List Node) :
    Bare .firstElementMarker ((nodes e).reverse ++ below) ∧
      Bare .emptyList ((nodes e).reverse ++ below) := by
  obtain ⟨n, ns, hns⟩ := List.exists_cons_of_ne_nil (mt List.reverse_eq_nil_iff.mp (h.nonempty e))
  have hn := h.unmarked e n (List.mem_reverse.mp (hns ▸ List.mem_cons_self))
  rw [hns, List.cons_append]
  exact ⟨.cons hn.1, .cons hn.2⟩

/-- There are no more elements than nodes on the stack. -/
theorem length_le (h : TakesEach r s element nodes result) (mark : Node) (first : γ)
    (others : List γ) : others.length ≤ (listNodes nodes mark first others).length := by
  have hothers := length_le_flatMap h.nonempty others
  rw [listNodes, List.length_append, List.length_cons]
  omega

/-- The elements behind the first are taken one by one, and then the marked one. -/
theorem popMarkedFrom (h : TakesEach r s element nodes result) {mark : Node}
    (hmark : mark.kind = .firstElementMarker) (first : γ) {others : List γ} {n : Nat}
    (hn : others.length < n) (later : List Node) :
    Turns r s (popMarkedFrom element n later) [] rest
      ((listNodes nodes mark first others).reverse ++ below) below
      ((first :: others).map result ++ later) := by
  obtain ⟨n, rfl⟩ := Nat.exists_eq_add_one_of_ne_zero (Nat.ne_zero_of_lt hn)
  -- the last element lies on top of the stack, so the list is followed from its end
  induction others using List.reverseRecOn generalizing n later with
  | nil =>
    have hstack : (listNodes nodes mark first []).reverse ++ below =
        mark :: ((nodes first).reverse ++ below) := by
      simp [listNodes]
    rw [hstack]
    exact .step (.popMarker hmark) (.step (h.takes first _ below) .ret)
  | append_singleton others e ih =>
    have hstack : (listNodes nodes mark first (others ++ [e])).reverse ++ below =
        (nodes e).reverse ++ ((listNodes nodes mark first others).reverse ++ below) := by
      simp [listNodes]
    have hmap : (first :: (others ++ [e])).map result ++ later =
        (first :: others).map result ++ result e :: later := by
      simp
    rw [List.length_append, List.length_singleton, Nat.add_lt_add_iff_right] at hn
    obtain ⟨n, rfl⟩ := Nat.exists_eq_add_one_of_ne_zero (Nat.ne_zero_of_lt hn)
    rw [hstack, hmap]
    exact .step (.popMarker_false (h.bare e _).1) (.step (h.takes e _ _) (ih _ n hn))

end TakesEach

/-- The mark of an empty list is taken, and no element. -/
theorem popList_emptyList {mark : Node} (hmark : mark.kind = .emptyList) :
    Turns r s (popList element) [] rest (mark :: below) below [] :=
  .step (.popMarker hmark) .ret

/-- A list is found in its order, and what lies below it stays. -/
theorem popList_listNodes (h : TakesEach r s element nodes result) {mark : Node}
    (hmark : mark.kind = .firstElementMarker) (first : γ) (others : List γ) :
    Turns r s (popList element) [] rest
      ((listNodes nodes mark first others).reverse ++ below) below
      ((first :: others).map result) := by
  -- the first node marks the start of a list, so the list is not the empty one
  have hbare : Bare .emptyList ((listNodes nodes mark first others).reverse ++ below) := by
    cases others using List.reverseRecOn with
    | nil => simp [listNodes, Bare, hmark]
    | append_singleton others e => simpa [listNodes] using (h.bare e _).2
  have hlength := h.length_le mark first others
  have hn : others.length < ((listNodes nodes mark first others).reverse ++ below).length + 1 := by
    simp only [List.length_append, List.length_reverse]
    omega
  rw [← List.append_nil ((first :: others).map result)]
  exact .step (.popMarker_false hbare) (.step .stackSize (h.popMarkedFrom hmark first hn []))

end Elements

/-! ## Tuples and lists of types -/

variable {r : Config} {s : State}

/-- The parts of a tuple element. -/
structure TupleElement where
  type : NodeOf .type
  label : Option (NodeOf .identifier)
  /-- The mark of an element of any number of values. -/
  variadic : Option (NodeOf .variadicMarker)

namespace TupleElement

/-- The nodes of an element in the order in which they are pushed. -/
def nodes (e : TupleElement) : List Node :=
  e.type.val :: NodeOf.toNodes e.label ++ NodeOf.toNodes e.variadic

/-- The element with its mark, its name and its type. -/
def node (e : TupleElement) : Node :=
  .branch .tupleElement (NodeOf.toNodes e.variadic ++
    (NodeOf.toNodes e.label).map (·.withKind .tupleElementName) ++ [e.type.val])

end TupleElement

/-- An element takes its type, its name and its marker, as many of them as there are. -/
theorem takesEach_popTupleElement :
    TakesEach r s popTupleElement TupleElement.nodes TupleElement.node where
  takes e rest below := by
    obtain ⟨⟨type, htype⟩, label, variadic⟩ := e
    -- the parts of an element are taken from the top, the marker first and the type last
    have hstack : (TupleElement.nodes ⟨⟨type, htype⟩, label, variadic⟩).reverse ++ below =
        NodeOf.toNodes variadic ++ (NodeOf.toNodes label ++ type :: below) := by
      cases label <;> cases variadic <;> rfl
    have hnode : TupleElement.node ⟨⟨type, htype⟩, label, variadic⟩ =
        .branch .tupleElement ((variadic.map Subtype.val).toList ++
          ((label.map Subtype.val).map (·.withKind .tupleElementName)).toList ++ [type]) := by
      cases label <;> rfl
    have hname : Bare .identifier (type :: below) := .cons (by rw [htype]; decide)
    have hmark : Bare .variadicMarker (NodeOf.toNodes label ++ type :: below) :=
      .toNodes (by decide) (.cons (by rw [htype]; decide))
    rw [hstack, hnode]
    exact .step (.popKind?_toNodes hmark)
      (.step (.popKind?_toNodes hname) (.step (.popKind htype) .ret))
  nonempty e := by simp [TupleElement.nodes]
  unmarked e n hn := by
    have hkind : n.kind = .type ∨ n.kind = .identifier ∨ n.kind = .variadicMarker := by
      simp only [TupleElement.nodes, NodeOf.toNodes, List.mem_append, List.mem_cons,
        Option.mem_toList, Option.map_eq_some_iff] at hn
      rcases hn with (rfl | ⟨l, -, rfl⟩) | ⟨v, -, rfl⟩
      · exact .inl e.type.property
      · exact .inr (.inl l.property)
      · exact .inr (.inr v.property)
    rcases hkind with h | h | h <;> rw [h] <;> decide

theorem takesEach_popType :
    TakesEach r s (popKind .type) (fun t : NodeOf .type => [t.val]) Subtype.val where
  takes t _ _ := .popKind t.property
  nonempty _ := List.cons_ne_nil _ _
  unmarked t n hn := by
    rw [List.mem_singleton.mp hn, t.property]
    decide

/-- A tuple and a list of types are found with their elements in the order in which these stand on
the stack, each element with its own parts, and what lies below is left as it was. So are the empty
ones. -/
theorem popTuple_and_popTypeList (r : Config) (s : State) (mark : NodeOf .firstElementMarker)
    (empty : NodeOf .emptyList) :
    (∀ (e : TupleElement) (es : List TupleElement),
      popTuple r { s with stack := (listNodes TupleElement.nodes mark e es).reverse ++ s.stack } =
        (some (.typeOf (.branch .tuple ((e :: es).map TupleElement.node))), s)) ∧
    popTuple r { s with stack := empty :: s.stack } = (some (.typeOf (.branch .tuple [])), s) ∧
    (∀ (t : NodeOf .type) (ts : List (NodeOf .type)),
      popTypeList r { s with
          stack := (listNodes (fun t => [t.val]) mark t ts).reverse ++ s.stack } =
        (some (.branch .typeList ((t :: ts).map Subtype.val)), s)) ∧
    popTypeList r { s with stack := empty :: s.stack } = (some (.branch .typeList []), s) := by
  have htuple (e : TupleElement) (es : List TupleElement) :
      Turns r s popTuple [] s.cursor.rest
        ((listNodes TupleElement.nodes mark e es).reverse ++ s.stack) s.stack
        (.typeOf (.branch .tuple ((e :: es).map TupleElement.node))) :=
    .step (popList_listNodes takesEach_popTupleElement mark.property e es) .ret
  have htypes (t : NodeOf .type) (ts : List (NodeOf .type)) :
      Turns r s popTypeList [] s.cursor.rest
        ((listNodes (fun t => [t.val]) mark t ts).reverse ++ s.stack) s.stack
        (.branch .typeList ((t :: ts).map Subtype.val)) :=
    .step (popList_listNodes takesEach_popType mark.property t ts) .ret
  have hnone : Turns r s popTuple [] s.cursor.rest (empty :: s.stack) s.stack
      (.typeOf (.branch .tuple [])) :=
    .step (popList_emptyList empty.property) .ret
  have hnoTypes : Turns r s popTypeList [] s.cursor.rest (empty :: s.stack) s.stack
      (.branch .typeList []) :=
    .step (popList_emptyList empty.property) .ret
  exact ⟨fun e es => htuple e es s.cursor.before, hnone s.cursor.before,
    fun t ts => htypes t ts s.cursor.before, hnoTypes s.cursor.before⟩

end SwiftMangling.Current
