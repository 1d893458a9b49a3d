import SwiftMangling.Proofs.Range.Text
import SwiftMangling.Render.Rule

/-!
# Accesses of the printers

A tree can have any kinds, children and payloads, so a rule that takes children by a position
counted from the end, or from a position that it has found, does so for every tree. Where the
position depends on how many children there are, the rule has refused a node with fewer of them, or
a child that stands behind the position has been printed before: `print` fails on a child that is
not there, so nothing comes after it.
-/

namespace SwiftMangling.Indexed.Render

open Access
open SwiftMangling.Render

variable {fault : Fault Printer} {α : Type} {n : Node} {i : Nat}

theorem le_of_findIdx? {p : Node → Bool} {ns : List Node} (h : ns.findIdx? p = some i) :
    i ≤ ns.length :=
  Nat.le_of_lt (List.findIdx?_eq_some_iff_findIdx_eq.mp h).1

/-- What comes after a child is reached only if the child is there. -/
theorem printChild_bind_congr {f g : Unit → Printer α} (h : i < n.count → f () = g ()) :
    printChild n i >>= f = printChild n i >>= g := by
  unfold printChild child
  cases hc : n.child? i with
  | none => rfl
  | some c =>
    have hlt : i < n.count := (List.getElem?_eq_some_iff.mp hc).1
    simp only [pure_bind]
    exact bind_congr fun _ => h hlt

theorem printChild_eq {c : Node} (h : n.child? i = some c) : printChild n i = print c := by
  rw [printChild, child, h, pure_bind]

/-! ## Types -/

/-- `SwiftMangling.Render.printFunctionType` with its difference and the part before the position
of the parameters. -/
def printFunctionType (fault : Fault Printer) (labels : Option Node) (f : Node) : Printer Unit := do
  let count := f.count
  if count < 2 then throw (.missing f.kind count)
  printFunctionKind f
  let parameters ← found fault (sub count 2)
  let annotations ← found fault (slice f.children 0 parameters)
  let marks ← annotations.foldlM noteMark ⟨none, false, false, false⟩
  match marks.differentiability with
  | some .nonDifferentiable | none => pure ()
  | some d => write ((← differentiableAttribute d) ++ " ")
  if marks.isSendable then write "@Sendable "
  let showTypes ← flag .functionArgumentTypes
  printParameters labels (← child f parameters) showTypes
  if showTypes then
    if marks.isAsync then write " async"
    if marks.isThrowing then write " throws"
    printChild f (parameters + 1)

theorem printFunctionType_eq (labels : Option Node) (f : Node) :
    printFunctionType fault labels f = SwiftMangling.Render.printFunctionType labels f := by
  unfold printFunctionType SwiftMangling.Render.printFunctionType
  dsimp only
  by_cases hcount : f.count < 2
  · rw [if_pos hcount, if_pos hcount]
    rfl
  · have hle : 2 ≤ f.count := Nat.le_of_not_lt hcount
    have hnext : f.count - 2 + 1 = f.count - 1 := by omega
    rw [if_neg hcount, if_neg hcount, sub_of_le hle, ← hnext]
    refine bind_congr fun _ => (pure_bind _ _).trans ?_
    rw [slice_take (Nat.sub_le f.count 2)]
    exact pure_bind _ _

/-- `SwiftMangling.Render.printSignature` with the parts before and behind the position of the
first requirement. -/
def printSignature (fault : Fault Printer) (n : Node) : Printer Unit := do
  let depths := (n.children.takeWhile (·.kind == .dependentGenericParamCount)).length
  write "<"
  printParameterCounts 0 (← found fault (slice n.children 0 depths))
  let requirements ← found fault (slice n.children depths n.children.length)
  if !requirements.isEmpty && (← flag .whereClauses) then
    write " where "
    printSeparated ", " requirements
  write ">"

/-- The counts are a beginning of the children, so both cuts are within them. -/
theorem printSignature_eq (n : Node) :
    printSignature fault n = SwiftMangling.Render.printSignature n := by
  have hrun : n.children.takeWhile (·.kind == .dependentGenericParamCount) <+: n.children :=
    List.takeWhile_prefix _
  unfold printSignature SwiftMangling.Render.printSignature
  dsimp only
  rw [slice_take hrun.length_le, slice_drop hrun.length_le, take_length_takeWhile,
    drop_length_takeWhile]
  simp only [found_some, pure_bind]

/-- `SwiftMangling.Render.printLoweredItem` with its difference. -/
def printLoweredItem (fault : Fault Printer) (n : Node) : Printer Unit := do
  printChild n 0
  write " "
  if n.count == 3 then printChild n 1
  printChild n (← found fault (sub n.count 1))

theorem printLoweredItem_eq (n : Node) :
    printLoweredItem fault n = SwiftMangling.Render.printLoweredItem n := by
  refine printChild_bind_congr fun hcount => ?_
  rw [sub_of_le hcount]
  simp only [found_some, pure_bind]

/-! ## Specializations -/

/-- `SwiftMangling.Render.printKeyPathConstant` with the part from position 2 on. -/
def printKeyPathConstant (fault : Fault Printer) (p : Node) : Printer Unit := do
  printChild p 1
  write "<"
  printSeparated "," (← found fault (slice p.children 2 p.children.length))
  write ">"

theorem printKeyPathConstant_eq (p : Node) :
    printKeyPathConstant fault p = SwiftMangling.Render.printKeyPathConstant p := by
  refine printChild_bind_congr fun hcount => ?_
  rw [slice_drop hcount]
  simp only [found_some, pure_bind]

/-- `SwiftMangling.Render.printClosureConstant` with the part from position 2 on, and the part of
it that holds types. -/
def printClosureConstant (fault : Fault Printer) (p : Node) : Printer Unit := do
  printChild p 1
  write ", Argument Types : ["
  let items ← found fault (slice p.children 2 p.children.length)
  let types := (items.takeWhile (·.kind == .type)).length
  printSeparated ", " (← found fault (slice p.children 2 (2 + types)))
  write "]"

theorem printClosureConstant_eq (p : Node) :
    printClosureConstant fault p = SwiftMangling.Render.printClosureConstant p := by
  refine printChild_bind_congr fun hcount => ?_
  rw [slice_drop hcount]
  simp only [found_some, pure_bind]
  have hrun := @List.takeWhile_prefix _ (p.children.drop 2) (·.kind == .type)
  -- the run of types ends within the children
  have hlength : 2 + ((p.children.drop 2).takeWhile (·.kind == .type)).length ≤ p.children.length := by
    have := hrun.length_le
    rw [List.length_drop] at this
    have : 2 ≤ p.children.length := hcount
    omega
  rw [slice_of_le (Nat.le_add_right ..) hlength, List.drop_take, Nat.add_sub_cancel_left,
    take_length_takeWhile]
  simp only [found_some, pure_bind]

/-! ## Thunks -/

/-- `SwiftMangling.Render.printKeyPathAccessor` with the part from position 1 on. -/
def printKeyPathAccessor (fault : Fault Printer) (n : Node) : Printer Unit := do
  write (if n.kind == .keyPathGetterThunkHelper then "key path getter for "
    else "key path setter for ")
  printChild n 0
  write " : "
  printKeyPathParts (← found fault (slice n.children 1 n.children.length))

theorem printKeyPathAccessor_eq (n : Node) :
    printKeyPathAccessor fault n = SwiftMangling.Render.printKeyPathAccessor n := by
  refine bind_congr fun _ => printChild_bind_congr fun hcount => ?_
  rw [slice_drop hcount]
  simp only [found_some, pure_bind]

/-- `SwiftMangling.Render.printKeyPathHash` with the difference that leaves out the last child. -/
def printKeyPathHash (fault : Fault Printer) (n : Node) : Printer Unit := do
  write (if n.kind == .keyPathEqualsThunkHelper then "key path index equality operator for "
    else "key path index hash operator for ")
  let isSerialized := n.last?.any (·.kind == .isSerialized)
  let items ←
    if isSerialized then
      found fault (slice n.children 0 (← found fault (sub n.children.length 1)))
    else pure n.children
  let (types, signature) := splitSignature items
  printIfAny signature
  write "("
  printSeparated ", " types
  write ")"
  if isSerialized then write ", serialized"

theorem printKeyPathHash_eq (n : Node) :
    printKeyPathHash fault n = SwiftMangling.Render.printKeyPathHash n := by
  refine bind_congr fun _ => ?_
  dsimp only
  by_cases hlast : (n.last?.any (·.kind == .isSerialized)) = true
  · have hpos : 1 ≤ n.children.length := by
      cases hchildren : n.children with
      | nil => simp [Node.last?, hchildren] at hlast
      | cons c cs => exact Nat.le_add_left ..
    simp only [hlast, if_true, sub_of_le hpos, found_some, pure_bind, slice_take (Nat.sub_le ..),
      List.dropLast_eq_take]
  · simp only [hlast, Bool.false_eq_true, if_false, pure_bind]

/-- `SwiftMangling.Render.printDerivative` with the part before the position of its kind. -/
def printDerivative (fault : Fault Printer) (n : Node) : Printer Unit := do
  let i ←
    match n.children.findIdx? (·.kind == .autoDiffFunctionKind) with
    | some i => pure i
    | none => throw (.missing n.kind n.count)
  if n.kind == .autoDiffDerivativeVTableThunk then write "vtable thunk for "
  printChild n i
  write " of "
  let (base, signature) := splitSignature (← found fault (slice n.children 0 i))
  printSeparated "" base
  if !(← flag .shortThunk) then
    write " with respect to parameters "
    printChild n (i + 1)
    write " and results "
    printChild n (i + 2)
    printDerivativeSignature " with " signature

/-- The kind is one of the children, so the cut in front of it is within them. -/
theorem printDerivative_eq (n : Node) :
    printDerivative fault n = SwiftMangling.Render.printDerivative n := by
  unfold printDerivative SwiftMangling.Render.printDerivative
  cases hi : n.children.findIdx? (·.kind == .autoDiffFunctionKind) with
  | none => rfl
  | some i =>
    dsimp only
    rw [pure_bind, pure_bind, slice_take (le_of_findIdx? hi)]
    simp only [found_some, pure_bind]

/-- `SwiftMangling.Render.printSubsetParameters` with its difference, and the parts before and
behind the position. -/
def printSubsetParameters (fault : Fault Printer) (n : Node) : Printer Unit := do
  write "autodiff subset parameters thunk for "
  if n.count < 5 then throw (.missing n.kind n.count)
  let i ← found fault (sub n.count 4)
  let front ← found fault (slice n.children 0 i)
  match ← found fault (slice n.children i n.children.length) with
  | [kind, parameters, results, targetParameters] =>
    let (base, signature) := splitSignature front
    print kind
    write " from "
    printSeparated "" base
    if !(← flag .shortThunk) then
      write " with respect to parameters "
      print parameters
      write " and results "
      print results
      write " to parameters "
      print targetParameters
      printDerivativeSignature " of type " signature
  | _ => throw (.unexpectedKind n.kind)

theorem printSubsetParameters_eq (n : Node) :
    printSubsetParameters fault n = SwiftMangling.Render.printSubsetParameters n := by
  refine bind_congr fun _ => ?_
  by_cases hcount : n.count < 5
  · rw [if_pos hcount, if_pos hcount]
    rfl
  · -- the last four children are there, and they are the children from the position on
    have hlength : (n.children.drop (n.count - 4)).length = 4 := by
      rw [List.length_drop]
      show n.count - (n.count - 4) = 4
      omega
    obtain ⟨kind, parameters, results, targetParameters, htail⟩ : ∃ a b c d,
        n.children.drop (n.count - 4) = [a, b, c, d] := by
      rcases h : n.children.drop (n.count - 4) with _ | ⟨a, _ | ⟨b, _ | ⟨c, _ | ⟨d, _ | _⟩⟩⟩⟩ <;>
        simp [h] at hlength ⊢
    have hchild (k : Nat) : n.child? (n.count - 4 + k) =
        [kind, parameters, results, targetParameters][k]? := by
      rw [← htail, List.getElem?_drop]
      rfl
    have hfirst : n.child? (n.count - 4) = some kind := hchild 0
    rw [if_neg hcount, if_neg hcount, sub_of_le (by omega)]
    simp only [found_some, pure_bind, slice_take (Nat.sub_le n.count 4),
      slice_drop (Nat.sub_le n.count 4), htail, printChild_eq hfirst, printChild_eq (hchild 1),
      printChild_eq (hchild 2), printChild_eq (hchild 3)]

/-- `SwiftMangling.Render.printDifferentiabilityWitness` with the child at the position of its kind
and the part before it. -/
def printDifferentiabilityWitness (fault : Fault Printer) (n : Node) : Printer Unit := do
  match n.children.findIdx? (·.kind == .index) with
  | none => throw (.missing n.kind n.count)
  | some i =>
    match (← found fault n.children[i]?).payload with
    | .differentiability d =>
      write (← witnessMode d)
      write " differentiability witness for "
      printSeparated "" (← found fault (slice n.children 0 i))
      write " with respect to parameters "
      printChild n (i + 1)
      write " and results "
      printChild n (i + 2)
      match n.child? (i + 3) with
      | some signature =>
        write " with "
        print signature
      | none => pure ()
    | _ => throw (.invalidPayload n.kind)

theorem printDifferentiabilityWitness_eq (n : Node) : printDifferentiabilityWitness fault n =
    SwiftMangling.Render.printDifferentiabilityWitness n := by
  unfold printDifferentiabilityWitness SwiftMangling.Render.printDifferentiabilityWitness
  cases hi : n.children.findIdx? (·.kind == .index) with
  | none => rfl
  | some i =>
    obtain ⟨hlt, -⟩ := List.findIdx?_eq_some_iff_findIdx_eq.mp hi
    have hchild : n.children[i]? = some n.children[i] := List.getElem?_eq_getElem hlt
    dsimp only
    rw [slice_take (le_of_findIdx? hi), show n.child? i = some n.children[i] from hchild, hchild,
      found_some, pure_bind, Option.map_some]
    cases n.children[i].payload <;> rfl

end SwiftMangling.Indexed.Render
