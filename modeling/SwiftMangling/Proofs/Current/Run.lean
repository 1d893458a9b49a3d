import SwiftMangling.Proofs.Current.Symbol
import SwiftMangling.Proofs.Cursor
import SwiftMangling.Proofs.Node.Height
import SwiftMangling.Proofs.Scheme

/-!
# Runs of the stack decoder

What the loop over operators and the assembly of the root compute: an operator takes the loop one
step further (`operatorsFrom_of_operator`), the root is a function of the stack (`symbolRoot_eq`,
`root?_eq_some_iff`), and a symbol is decoded by running the loop after the prefix and building the
root from the stack that it leaves (`decodeSymbol_eq`).
-/

namespace SwiftMangling.Current

open Decoding Node

variable {r : Config} {s t : State}

/-! ## The loop over operators -/

/-- One operator, which leaves one node more on the stack. -/
theorem operatorsFrom_of_operator {n : Nat} {b : UInt8} {rest : List UInt8} {node : Node}
    (hrest : s.cursor.rest = b :: rest) (hrun : operator r s = (some node, t))
    (hle : node.height ≤ maxHeight) :
    operatorsFrom (n + 1) r s = operatorsFrom n r { t with stack := node :: t.stack } := by
  -- something is left to read, and the node is low enough to be pushed
  have hend : (atEnd : Decoder Bool) r s = (some false, s) := by
    show (some s.cursor.isAtEnd, s) = _
    simp [Cursor.isAtEnd, hrest]
  rw [operatorsFrom, run_bind, hend]
  dsimp only
  rw [if_neg (by decide), run_bind, hrun]
  dsimp only
  rw [require, if_pos (by simpa using hle)]
  rfl

/-- The run ends with the input. -/
theorem operatorsFrom_of_atEnd {n : Nat} (hrest : s.cursor.rest = []) :
    operatorsFrom (n + 1) r s = (some (), s) := by
  have hend : (atEnd : Decoder Bool) r s = (some true, s) := by
    show (some s.cursor.isAtEnd, s) = _
    simp [Cursor.isAtEnd, hrest]
  rw [operatorsFrom, run_bind, hend]
  rfl

/-! ## The root -/

/-- Taking nodes as long as their kinds satisfy `p`. -/
theorem many_popWhere (p : Kind → Bool) {n : Nat} (hn : s.stack.length ≤ n) :
    many n (popWhere p) r s = (some (s.stack.takeWhile (p ·.kind)),
      { s with stack := s.stack.dropWhile (p ·.kind) }) := by
  -- by induction on the fuel, which is as much as the stack has nodes
  induction n generalizing s with
  | zero =>
    have hstack : s.stack = [] := List.length_eq_zero_iff.mp (Nat.le_zero.mp hn)
    obtain ⟨cursor, stack, substitutions, words, references⟩ := s
    cases hstack
    rfl
  | succ n ih =>
    obtain ⟨cursor, stack, substitutions, words, references⟩ := s
    cases stack with
    | nil => rfl
    | cons node rest =>
      rw [many, run_bind, run_attempt, popWhere]
      dsimp only
      split
      next hp =>
        simp [hp, run_bind, run_pure, ih (s := ⟨cursor, rest, _, _, _⟩) (by simpa using hn)]
      next hp => simp [hp, run_pure]

/-- The root that is built from a stack. -/
def root? (stack : List Node) : Option Node := do
  let parts ← (stack.dropWhile (·.kind.isFunctionAttribute)).reverse.mapM part?
  let root := enclose (leaf .global) parts (stack.takeWhile (·.kind.isFunctionAttribute))
  if root.count != 0 then some root else none

/-- The root depends on nothing but the nodes on the stack. -/
theorem symbolRoot_eq : (symbolRoot r s).1 = root? s.stack := by
  -- the stack is taken apart in two steps, first the attributes and then everything else
  have hmany := many_popWhere (r := r) Kind.isFunctionAttribute (Nat.le_refl s.stack.length)
  have hsize : stackSize r s = (some s.stack.length, s) := rfl
  have hall (t : State) : popAll r t = (some t.stack.reverse, { t with stack := [] }) := rfl
  have hoption {α : Type} (a : Option α) (t : State) : (ofOption a : Decoder α) r t = (a, t) := rfl
  unfold symbolRoot root?
  rw [run_bind, hsize]
  dsimp only
  rw [run_bind, hmany]
  dsimp only
  rw [run_bind, hall]
  dsimp only
  rw [run_bind, hoption]
  cases (s.stack.dropWhile (·.kind.isFunctionAttribute)).reverse.mapM part? with
  | none => rfl
  | some parts =>
    dsimp only
    rw [foldl_attributeLevels, List.foldl_nil, run_bind, Option.bind_eq_bind, Option.bind_some]
    cases (enclose _ parts _).count != 0 with
    | true => simp [require, run_pure]
    | false => simp [require, Decoding.fail]

/-- The children of a root with the given parts and attributes, the last attribute first. -/
def enclosed (parts : List Node) : List Node → List Node
  | [] => parts
  | a :: as => if isForwarder a.kind then [enclose a parts as] else a :: enclosed parts as

theorem addChild_branch (k : Kind) (cs : List Node) (c : Node) :
    (branch k cs).addChild c = branch k (cs ++ [c]) := by
  have hheight : max (top cs + 1) (c.height + 1) = top (cs ++ [c]) + 1 := by
    simp
  show Node.mk k .none (cs ++ [c]) (max (top cs + 1) (c.height + 1)) = _
  rw [hheight]
  rfl

theorem addChildren_branch (k : Kind) (cs ds : List Node) :
    (branch k cs).addChildren ds = branch k (cs ++ ds) :=
  rfl

/-- A level takes its attributes and the innermost parts after the children that it has. -/
theorem enclose_branch (k : Kind) (cs parts as : List Node) :
    enclose (branch k cs) parts as = branch k (cs ++ enclosed parts as) := by
  induction as generalizing cs with
  | nil => exact addChildren_branch k cs parts
  | cons a as ih =>
    rw [enclose, enclosed]
    split
    · exact addChild_branch k cs _
    · rw [addChild_branch, ih, List.append_assoc, List.singleton_append]

theorem enclose_leaf (k : Kind) (parts as : List Node) :
    enclose (leaf k) parts as = branch k (enclosed parts as) :=
  enclose_branch k [] parts as

theorem kind_enclose (level : Node) (parts as : List Node) :
    (enclose level parts as).kind = level.kind := by
  induction as generalizing level with
  | nil => exact kind_addChildren
  | cons a as ih =>
    rw [enclose]
    split
    · exact kind_addChild
    · rw [ih, kind_addChild]

/-- The attributes on top of a stack. -/
def topAttributes (stack : List Node) : List Node :=
  stack.takeWhile (·.kind.isFunctionAttribute)

/-- What is below the attributes on top of a stack. -/
def belowAttributes (stack : List Node) : List Node :=
  stack.dropWhile (·.kind.isFunctionAttribute)

section Attributes

variable {n : Node} {stack : List Node}

theorem topAttributes_cons (h : n.kind.isFunctionAttribute = true) :
    topAttributes (n :: stack) = n :: topAttributes stack :=
  List.takeWhile_cons_of_pos h

theorem belowAttributes_cons (h : n.kind.isFunctionAttribute = true) :
    belowAttributes (n :: stack) = belowAttributes stack :=
  List.dropWhile_cons_of_pos h

theorem topAttributes_cons_of_not (h : n.kind.isFunctionAttribute = false) :
    topAttributes (n :: stack) = [] :=
  List.takeWhile_cons_of_neg (by simp [h])

theorem belowAttributes_cons_of_not (h : n.kind.isFunctionAttribute = false) :
    belowAttributes (n :: stack) = n :: stack :=
  List.dropWhile_cons_of_neg (by simp [h])

end Attributes

/-- The root holds the parts of the stack, with the attributes on top of the stack around them. -/
theorem root?_eq_some_iff {stack : List Node} {root : Node} :
    root? stack = some root ↔
      ∃ parts, (belowAttributes stack).reverse.mapM part? = some parts ∧
        enclosed parts (topAttributes stack) ≠ [] ∧
        branch .global (enclosed parts (topAttributes stack)) = root := by
  have hcount (cs : List Node) : ((branch .global cs).count != 0) = true ↔ cs ≠ [] := by
    cases cs <;> simp [branch, count]
  rw [root?, Option.bind_eq_bind, Option.bind_eq_some_iff]
  refine exists_congr fun parts => and_congr_right fun _ => ?_
  rw [enclose_leaf, topAttributes]
  dsimp only
  split
  next h => simp [(hcount _).mp h]
  next h => simp [mt (hcount _).mpr h]

/-! ## Symbols -/

/-- The state after the prefix of a symbol. -/
def State.afterPrefix (input : List UInt8) : State :=
  ⟨(Cursor.ofBytes input).skip (Scheme.prefixLength input), [], #[], [], #[]⟩

/-- Behind a prefix nothing is on the stack or on a table. -/
theorem afterPrefix_append {p : List UInt8} (hp : p ∈ Scheme.currentPrefixes) (rest : List UInt8) :
    State.afterPrefix (p ++ rest) = ⟨⟨p.reverse, rest⟩, [], #[], [], #[]⟩ := by
  rw [State.afterPrefix, Scheme.prefixLength_eq_length hp (List.prefix_append p rest),
    Cursor.ofBytes, Cursor.skip_append, List.append_nil]

/-- A symbol with a prefix of the current scheme is decoded by the loop over operators and the
assembly of the root. -/
theorem decodeSymbol_eq {input : List UInt8} (h : Scheme.prefixLength input ≠ 0)
    (resolver : Option Resolver) :
    (decodeSymbol resolver input).tree =
      match operators ⟨Scheme.hasInlineLabels input, resolver⟩ (.afterPrefix input) with
      | (some (), t) => root? t.stack
      | (none, _) => none := by
  -- a symbol with a prefix is no name of the runtime
  have hruntime : (nextIfText "_Tt" : Decoder Bool) ⟨Scheme.hasInlineLabels input, resolver⟩
      (.start input) = (some false, .start input) := by
    have hprefix : ¬ (Utf8.encode "_Tt").isPrefixOf input = true :=
      fun ht => Scheme.not_runtimePrefix h (List.isPrefixOf_iff_prefix.mp ht)
    have hread : (Cursor.ofBytes input).nextIfBytes (Utf8.encode "_Tt") =
        (false, Cursor.ofBytes input) := if_neg hprefix
    rw [nextIfText, run_move]
    show (some ((Cursor.ofBytes input).nextIfBytes _).1, HasCursor.withCursor _ _) = _
    rw [show HasCursor.cursor (State.start input) = Cursor.ofBytes input from rfl, hread]
    rfl
  have hlength : (look fun c => Scheme.prefixLength c.bytes : Decoder Nat)
      ⟨Scheme.hasInlineLabels input, resolver⟩ (.start input) =
        (some (Scheme.prefixLength input), .start input) := rfl
  have hsymbol : symbol ⟨Scheme.hasInlineLabels input, resolver⟩ (.start input) =
      (operators >>= fun _ => symbolRoot) ⟨Scheme.hasInlineLabels input, resolver⟩
        (.afterPrefix input) := by
    rw [symbol, run_bind, hruntime]
    dsimp only
    rw [if_neg (by decide), run_bind, hlength]
    dsimp only
    rw [require, if_pos (by simpa using h)]
    rfl
  show (symbol ⟨Scheme.hasInlineLabels input, resolver⟩ (.start input)).1 = _
  rw [hsymbol, run_bind]
  rcases operators _ (State.afterPrefix input) with ⟨_ | _, t⟩
  · rfl
  · exact symbolRoot_eq

/-- The root of a symbol is a plain branch. -/
theorem eq_branch_of_decodeSymbol {input : List UInt8} {root : Node}
    (hinput : Scheme.prefixLength input ≠ 0) {resolver : Option Resolver}
    (h : (decodeSymbol resolver input).tree = some root) : root = branch .global root.children := by
  rw [decodeSymbol_eq hinput] at h
  revert h
  rcases operators _ (State.afterPrefix input) with ⟨_ | _, t⟩
  · intro h; cases h
  · intro h
    obtain ⟨parts, -, -, rfl⟩ := root?_eq_some_iff.mp h
    rfl

end SwiftMangling.Current
