import SwiftMangling.Proofs.Current.Run

/-!
# The tables between two rounds

The stack decoder reads a symbol in rounds: an operator builds a node, the node is checked against
`maxHeight` and pushed. Between two rounds the nodes on the stack and in the table of substitutions
are no higher than the limit, store their exact heights and hold only what their kinds allow, however
the operators have rebuilt them (`ordered_of_reached`). A type that is read without a prefix is taken
from the stack, also where the input goes wrong, and so it is no higher either.
-/

namespace SwiftMangling.Node

/-- A node with its exact height, with one child if it is a type, and with none beside a payload. -/
structure Proper (n : Node) : Prop where
  height : n.height = n.depth
  type : n.kind = .type → n.count = 1
  bare : n.payload ≠ .none → n.children = []

/-- Every node of a well-formed tree is proper. -/
theorem Formed.proper [Labelling] {n : Node} (h : n.Formed) : n.Everywhere Proper := by
  have hneat : n.Neat := h.neat
  induction hneat with
  | intro here below ih =>
    refine .intro ⟨?_, here.framed.type, h.sound.bare trivial⟩ fun c hc => ih c hc (h.child hc)
    exact height_eq_depth (h.neat.mono fun _ hm => hm.height)

end SwiftMangling.Node

namespace SwiftMangling.Current

open Decoding Node

variable {r : Config} {s t u : State}

/-! ## Rounds -/

/-- The state of a decoder that has not read anything from where it stands. -/
def State.ofCursor (c : Cursor) : State :=
  { State.start [] with cursor := c }

/-- The states that the loop over operators comes to from `s`, one completed round after another. -/
inductive Reached (r : Config) (s : State) : State → Prop where
  | start : Reached r s s
  | next {t u : State} (before : Reached r s t) (more : t.cursor.rest ≠ [])
      (run : round r t = (some (), u)) : Reached r s u

theorem Reached.trans (hst : Reached r s t) (htu : Reached r t u) : Reached r s u := by
  induction htu with
  | start => exact hst
  | next _ more run ih => exact .next ih more run

/-- A run of the loop goes through completed rounds up to the end of the input. -/
theorem reached_of_operatorsFrom {n : Nat} (h : operatorsFrom n r s = (some (), t)) :
    Reached r s t ∧ t.cursor.rest = [] := by
  -- by induction on the fuel, of which a completed round takes one
  induction n generalizing s with
  | zero => cases h
  | succ n ih =>
    by_cases hrest : s.cursor.rest = []
    · rw [operatorsFrom_of_atEnd hrest] at h
      obtain rfl := (Prod.mk.inj h).2
      exact ⟨.start, hrest⟩
    · have hend : (atEnd : Decoder Bool) r s = (some false, s) := by
        show (some s.cursor.isAtEnd, s) = _
        simpa [Cursor.isAtEnd] using hrest
      rw [operatorsFrom_succ, run_bind, hend] at h
      dsimp only at h
      rw [if_neg (by decide), run_bind] at h
      rcases hround : round r s with ⟨_ | _, u⟩
      · rw [hround] at h
        cases h
      · rw [hround] at h
        obtain ⟨hreached, hnil⟩ := ih h
        exact ⟨Reached.trans (.next .start hrest hround) hreached, hnil⟩

/-! ## The invariant -/

/-- The stack and the table hold proper nodes within the limit, the table holds identifiers and
types, and there are no more words than letters to name them. -/
structure State.Ordered (s : State) : Prop where
  stack : ∀ n ∈ s.stack, n.height ≤ maxHeight ∧ n.Everywhere Proper
  table : ∀ n ∈ s.substitutions, n.height ≤ maxHeight ∧ n.Everywhere Proper
  nameable : ∀ n ∈ s.substitutions, n.kind = .identifier ∨ n.kind = .type
  words : s.words.length ≤ 26

theorem State.Sound.ordered (h : s.Sound maxHeight) : s.Ordered where
  stack n hn := ⟨(h.stack n hn).2, (h.stack n hn).1.formed.proper⟩
  table n hn := ⟨(h.table n hn).2, (h.table n hn).1.formed.proper⟩
  nameable := h.nameable
  words := h.words

/-- The invariant holds after every number of rounds. -/
theorem sound_of_reached (hr : r.resolver = none) (hs : s.Sound maxHeight) (h : Reached r s t) :
    t.Sound maxHeight := by
  induction h with
  | start => exact hs
  | next _ _ run ih =>
    have := round_spec.run r _ hr ih
    rw [run] at this
    exact this

/-- Whatever becomes of the loop, what it leaves on the stack is within the limit. -/
theorem sound_operators (hr : r.resolver = none) (hs : s.Sound maxHeight) :
    ∃ H, State.Sound H (operators r s).2 := by
  have := operators_spec.run r s hr hs
  revert this
  rcases operators r s with ⟨_ | _, t⟩
  · exact id
  · exact fun ht => ⟨_, ht⟩

/-- A type is taken from the stack, or it is a leaf. -/
theorem type_low (hr : r.resolver = none) (hs : s.Sound maxHeight) :
    ∃ n, (type r s).1 = some n ∧ n.height ≤ maxHeight ∧ n.Everywhere Proper := by
  -- whether the loop succeeds or not, what it leaves behind is sound
  obtain ⟨H, ht⟩ := sound_operators hr hs
  unfold type
  rw [run_bind, run_attempt]
  dsimp only
  rw [run_bind, run_attempt]
  generalize (operators r s).2 = t at ht
  have hpop := pop_low.run r t hr ht
  revert hpop
  rcases pop r t with ⟨_ | n, u⟩
  · intro _
    have hsuffix : (ofText .suffix (Utf8.lossy u.cursor.bytes)).Part := part_ofText rfl (by decide)
    exact ⟨_, rfl, Nat.le_of_ble_eq_true rfl, hsuffix.formed.proper⟩
  · rintro ⟨⟨hpart, hle⟩, -⟩
    exact ⟨n, rfl, hle, hpart.formed.proper⟩

/-- Without a resolver the tables are in order after every completed round, from wherever the loop
starts; a run of the loop goes through such rounds to the end of the input; and a type that is read
without a prefix is no higher than the limit. -/
theorem ordered_of_reached (inlineLabels : Bool) (c : Cursor) (input : List UInt8) :
    (∀ t, Reached ⟨inlineLabels, none⟩ (.ofCursor c) t → t.Ordered) ∧
      (∀ t, operators ⟨inlineLabels, none⟩ (.ofCursor c) = (some (), t) →
        Reached ⟨inlineLabels, none⟩ (.ofCursor c) t ∧ t.cursor.rest = []) ∧
      ∃ n, (decodeType none input).tree = some n ∧ n.height ≤ maxHeight ∧ n.Everywhere Proper := by
  have hstart : (State.ofCursor c).Sound maxHeight := Placeless.withCursor _ c (sound_start [])
  refine ⟨fun t ht => (sound_of_reached rfl hstart ht).ordered, fun t ht => ?_, ?_⟩
  · exact reached_of_operatorsFrom ht
  · exact type_low (s := State.start input) rfl (sound_start input)

/-- A function with inline labels: taking them out of the parameter tuple leaves the tables in
order. -/
theorem ordered_of_reached_inlineLabels :
    ∃ t, Reached ⟨true, none⟩ (.ofCursor (.ofBytes (Utf8.encode "4main3fooySi1x_Si1ytF"))) t ∧
      t.stack.length = 1 ∧ t.Ordered ∧ ∃ n, (decodeType none (Utf8.encode "Si_SStz!")).tree = some n ∧
        n.height ≤ maxHeight := by
  have hrun : (operators ⟨true, none⟩
      (.ofCursor (.ofBytes (Utf8.encode "4main3fooySi1x_Si1ytF")))).1 = some () ∧
        (operators ⟨true, none⟩
          (.ofCursor (.ofBytes (Utf8.encode "4main3fooySi1x_Si1ytF")))).2.stack.length = 1 := by
    decide +kernel
  obtain ⟨hordered, hreached, n, hn, hle, -⟩ := ordered_of_reached true
    (.ofBytes (Utf8.encode "4main3fooySi1x_Si1ytF")) (Utf8.encode "Si_SStz!")
  generalize operators ⟨true, none⟩ _ = result at hrun hreached
  obtain ⟨done, t⟩ := result
  obtain ⟨rfl, hstack⟩ := hrun
  have ht := (hreached t rfl).1
  exact ⟨t, ht, hstack, hordered t ht, n, hn, hle⟩

end SwiftMangling.Current
