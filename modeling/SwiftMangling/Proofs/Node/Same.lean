import SwiftMangling.Node

/-!
# Structural equality

Nodes are the same if their kinds, their payloads and their children are, whatever heights they
store.
-/

namespace SwiftMangling.Node

variable {n : Node} {as bs cs : List Node}

mutual

theorem same_refl : (n : Node) → n.same n = true
  | ⟨k, p, cs, _⟩ => by rw [same, beq_self_eq_true, beq_self_eq_true, sameList_refl cs]; rfl

theorem sameList_refl : (cs : List Node) → sameList cs cs = true
  | [] => rfl
  | c :: cs => by rw [sameList, same_refl c, sameList_refl cs]; rfl

end

theorem length_eq_of_sameList (h : sameList as bs = true) : as.length = bs.length := by
  induction as generalizing bs with
  | nil =>
    cases bs with
    | nil => rfl
    | cons b bs => cases h
  | cons a as ih =>
    cases bs with
    | nil => cases h
    | cons b bs =>
      rw [sameList, Bool.and_eq_true] at h
      rw [List.length_cons, List.length_cons, ih h.2]

/-- The first elements of a list are the same as the list only if they are all of it. -/
theorem sameList_take_iff {m : Nat} : sameList (cs.take m) cs = true ↔ cs.length ≤ m := by
  constructor
  · intro h
    have := length_eq_of_sameList h
    rw [List.length_take] at this
    omega
  · intro h
    rw [List.take_of_length_le h]
    exact sameList_refl cs

/-- A node that is rebuilt without a payload equals the node that it was made from if that had no
payload and their children are the same. -/
theorem same_branch_iff :
    (branch n.kind cs).same n = true ↔ n.payload = .none ∧ sameList cs n.children = true := by
  obtain ⟨kind, payload, children, height⟩ := n
  rw [branch, same, beq_self_eq_true, Bool.true_and, Bool.and_eq_true, beq_iff_eq, eq_comm]

end SwiftMangling.Node
