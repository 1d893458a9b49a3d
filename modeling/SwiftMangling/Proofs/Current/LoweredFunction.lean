import Mathlib.Data.List.Induction
import SwiftMangling.Current.LoweredFunction
import SwiftMangling.Proofs.Current.Operand
import SwiftMangling.Proofs.Render.LoweredFunction

/-!
# Items of lowered function types

The conventions of the parameters, results, yields and of the error result are read one after the
other, and only then their types are taken from the stack, the last one first. The families share
letters, but each is read as far as it goes, and what follows it starts with no letter of its own
(`turns_loweredItems`). So every convention meets the type that stands at its place
(`turns_popItemTypes`), and the items come in the order in which their sections are printed
(`loweredFunctionType_items`).
-/

namespace SwiftMangling.Current

open Decoding Node Render

/-! ## Letters of a table -/

/-- The byte is a letter of the table. -/
def isKnown {α : Type} (table : Char → Option α) (b : UInt8) : Bool :=
  (table (charOfByte b)).isSome

/-- A letter of a table. -/
structure Known {α : Type} (table : Char → Option α) where
  letter : UInt8
  meaning : α
  known : table (charOfByte letter) = some meaning

/-- A letter of a table is none of the characters that the table does not know. -/
theorem Known.oneOf_eq_false {α : Type} {table : Char → Option α} (k : Known table) {cs : List Char}
    (h : cs.any (isKnown table ·.toUInt8) = false := by decide) : oneOf cs k.letter = false := by
  rw [oneOf, List.any_eq_false]
  intro c hc heq
  rw [List.any_eq_false] at h
  refine h c hc ?_
  rw [← beq_iff_eq.mp heq, isKnown, k.known]
  rfl

/-- The table of the calling conventions that name no foreign type. -/
def callingConvention? : Char → Option String
  | 'B' => some "block"
  | 'C' => some "c"
  | 'M' => some "method"
  | 'O' => some "objc_method"
  | 'K' => some "closure"
  | 'W' => some "witness_method"
  | _ => none

/-- No letter of a result is one of a parameter. -/
theorem isKnown_parameter_result (k : Known resultConvention?) :
    isKnown parameterConvention? k.letter = false := by
  have hknown := k.known
  unfold resultConvention? at hknown
  unfold isKnown
  split at hknown <;> simp_all [parameterConvention?]

/-! ## Items -/

/-- An item of a lowered function type. -/
structure LoweredItem (table : Char → Option String) where
  convention : Known table
  type : NodeOf .type

/-- An item that can be marked as not differentiated. -/
structure MarkedItem (table : Char → Option String) extends LoweredItem table where
  marked : Bool

section Item

variable {table : Char → Option String}

/-- The node of a convention. -/
def Known.node (k : Known table) : Node :=
  .ofText .implConvention k.meaning

/-- The spelling of an item behind the letter of its family. -/
def LoweredItem.spelling (c : Char) (x : LoweredItem table) : List UInt8 :=
  [c.toUInt8, x.convention.letter]

/-- An item before its type is taken. -/
def LoweredItem.item (k : Kind) (x : LoweredItem table) : Item :=
  ⟨k, [x.convention.node]⟩

/-- The node of an item: its convention and its type. -/
def LoweredItem.node (k : Kind) (x : LoweredItem table) : Node :=
  .branch k [x.convention.node, x.type]

namespace MarkedItem

/-- The spelling of an item. -/
def spelling (x : MarkedItem table) : List UInt8 :=
  x.convention.letter :: optional x.marked 'w'

/-- The mark of an item that is not differentiated. -/
def marks (x : MarkedItem table) : List Node :=
  if x.marked then [.ofText .implParameterResultDifferentiability "@noDerivative"] else []

/-- An item before its type is taken. -/
def item (k : Kind) (x : MarkedItem table) : Item :=
  ⟨k, x.convention.node :: x.marks⟩

/-- The node of an item: its convention, its mark and its type. -/
def node (k : Kind) (x : MarkedItem table) : Node :=
  .branch k (x.convention.node :: x.marks ++ [x.type.val])

end MarkedItem

end Item

/-- The items of a lowered function type. -/
structure LoweredItems where
  parameters : List (MarkedItem parameterConvention?)
  results : List (MarkedItem resultConvention?)
  yields : List (LoweredItem parameterConvention?)
  error : Option (LoweredItem resultConvention?)

namespace LoweredItems

/-- The types of the items, in order. -/
def types (f : LoweredItems) : List Node :=
  f.parameters.map (·.type.val) ++ f.results.map (·.type.val) ++ f.yields.map (·.type.val) ++
    f.error.toList.map (·.type.val)

/-- The nodes of the items that are printed as parameters. -/
def inputs (f : LoweredItems) : List Node :=
  f.parameters.map (·.node .implParameter)

/-- The nodes of the items that are printed as results. -/
def outputs (f : LoweredItems) : List Node :=
  f.results.map (·.node .implResult) ++ f.yields.map (·.node .implYield) ++
    f.error.toList.map (·.node .implErrorResult)

/-- The spelling of what comes behind parameters and results. -/
def lastSpelling (f : LoweredItems) : List UInt8 :=
  f.yields.flatMap (·.spelling 'Y') ++ f.error.toList.flatMap (·.spelling 'z')

/-- The spelling of the items. -/
def spelling (f : LoweredItems) : List UInt8 :=
  f.parameters.flatMap MarkedItem.spelling ++
    (f.results.flatMap MarkedItem.spelling ++ f.lastSpelling)

/-- The items as they are read, with the types that they take. -/
def typed (f : LoweredItems) : List (Item × NodeOf .type) :=
  f.parameters.map (fun x => (x.item .implParameter, x.type)) ++
    f.results.map (fun x => (x.item .implResult, x.type)) ++
    f.yields.map (fun x => (x.item .implYield, x.type)) ++
    f.error.toList.map (fun x => (x.item .implErrorResult, x.type))

end LoweredItems

/-- The node of an item that has taken its type. -/
def typedNode (x : Item × NodeOf .type) : Node :=
  .branch x.1.kind (x.1.parts ++ [x.2.val])

theorem typed_types (f : LoweredItems) : f.typed.map (·.2.val) = f.types := by
  simp [LoweredItems.typed, LoweredItems.types, Function.comp_def]

theorem typed_nodes (f : LoweredItems) : f.typed.map typedNode = f.inputs ++ f.outputs := by
  simp [LoweredItems.typed, LoweredItems.inputs, LoweredItems.outputs, Function.comp_def, typedNode,
    MarkedItem.item, MarkedItem.node, LoweredItem.item, LoweredItem.node]

/-! ### Reading -/

variable {r : Config} {s : State} {rest : List UInt8} {stack below : List Node}

section Reading

variable {table : Char → Option String}

theorem turns_itemConvention (k : Known table) :
    Turns r s (itemConvention table) [k.letter] rest stack stack k.node :=
  .step .peekChar? (.step (.ofOption k.known) (.last .nextByte .ret))

/-- An item stands at its letter, so no item is read where another list starts. -/
theorem readsEach_markedItem (k : Kind) (h : ∀ x : Known table, oneOf ['w'] x.letter = false) :
    ReadsEach r s (markedItem k table) (fun x : MarkedItem table => x.spelling)
      (fun x => x.item k) (oneOf ['w']) where
  reads x rest stack hrest := by
    refine .bind (p := [_]) (turns_itemConvention x.convention)
      (.last (.nextIf_optional hrest.ne) ?_)
    rw [MarkedItem.item, MarkedItem.marks]
    cases x.marked <;> exact .step .ret .ret
  nonempty _ := List.cons_ne_nil _ _
  clear x := .cons (h x.convention)

theorem declines_markedItem (k : Kind) (h : Clear (isKnown table) rest) :
    Declines r s (markedItem k table) rest stack := by
  have hnone : (rest.head?.map charOfByte).bind table = none := by
    cases rest with
    | nil => rfl
    | cons b rest => simpa [isKnown] using h b rfl
  exact .bind (.step .peekChar? (.bind (.ofOption hnone)))

theorem turns_yields {xs : List (LoweredItem parameterConvention?)}
    (hrest : Clear (· == 'Y'.toUInt8) rest) {n : Nat} (hn : xs.length ≤ n) :
    Turns r s (yields n) (xs.flatMap (·.spelling 'Y')) rest stack stack
      (xs.map (·.item .implYield)) := by
  -- by induction on the fuel, of which each item takes one
  induction n generalizing xs with
  | zero =>
    obtain rfl : xs = [] := List.length_eq_zero_iff.mp (Nat.le_zero.mp hn)
    exact .ret
  | succ n ih =>
    rw [yields]
    cases xs with
    | nil => exact .last (.nextIf_false hrest) .ret
    | cons x xs =>
      exact .bind (p := [_]) .nextIf (.bind (p := [_]) (turns_itemConvention x.convention)
        (.last (ih (Nat.le_of_succ_le_succ hn)) .ret))

end Reading

namespace LoweredItems

variable {p : UInt8 → Bool}

theorem clear_lastSpelling (f : LoweredItems) (hY : p 'Y'.toUInt8 = false)
    (hz : p 'z'.toUInt8 = false) : Clear p f.lastSpelling :=
  .append (.flatMap (fun _ => .cons hY) _) (.flatMap (fun _ => .cons hz) _)

/-- The results start with nothing that `p` holds of. -/
theorem clear_results (f : LoweredItems) (h : ∀ k : Known resultConvention?, p k.letter = false)
    (hY : p 'Y'.toUInt8 = false) (hz : p 'z'.toUInt8 = false) :
    Clear p (f.results.flatMap MarkedItem.spelling ++ f.lastSpelling) :=
  .append (.flatMap (fun x : MarkedItem _ => .cons (h x.convention)) _) (f.clear_lastSpelling hY hz)

/-- What starts neither a family of items nor the letter of an item starts no items. -/
theorem clear_spelling (f : LoweredItems)
    (hp : ∀ k : Known parameterConvention?, p k.letter = false)
    (hr : ∀ k : Known resultConvention?, p k.letter = false)
    (hY : p 'Y'.toUInt8 = false) (hz : p 'z'.toUInt8 = false) : Clear p f.spelling :=
  .append (.flatMap (fun x : MarkedItem _ => .cons (hp x.convention)) _) (f.clear_results hr hY hz)

end LoweredItems

/-- All items are read, each family up to its end. -/
theorem turns_loweredItems (f : LoweredItems) :
    Turns r s loweredItems f.spelling ('_'.toUInt8 :: rest) stack stack (f.typed.map (·.1)) := by
  have hparameters := readsEach_markedItem (r := r) (s := s) .implParameter
    fun x : Known parameterConvention? => x.oneOf_eq_false
  have hresults := readsEach_markedItem (r := r) (s := s) .implResult
    fun x : Known resultConvention? => x.oneOf_eq_false
  have htyped : f.typed.map (·.1) = f.parameters.map (·.item .implParameter) ++
      f.results.map (·.item .implResult) ++ f.yields.map (·.item .implYield) ++
      f.error.toList.map (·.item .implErrorResult) := by
    simp [LoweredItems.typed, Function.comp_def]
  rw [htyped]
  refine hparameters.bind_many ?_ (declines_markedItem _ ?_) (hresults.bind_many ?_
    (declines_markedItem _ ?_) (.step .remaining (.bind (turns_yields ?_ ?_) ?_)))
  -- what follows a family neither marks its last item nor starts one more item of it
  · exact (f.clear_results (·.oneOf_eq_false) rfl rfl).append .cons
  · exact (f.clear_results isKnown_parameter_result rfl rfl).append .cons
  · exact (f.clear_lastSpelling rfl rfl).append .cons
  · exact (f.clear_lastSpelling rfl rfl).append .cons
  · exact (Clear.flatMap (fun _ => .cons) _).append .cons
  · have hlength := length_le_flatMap (f := fun x => LoweredItem.spelling 'Y' x)
      (fun _ => List.cons_ne_nil _ _) f.yields
    simp only [LoweredItems.lastSpelling, List.length_append]
    omega
  · cases f.error with
    | none => exact .last (.nextIf_false .cons) (.step .ret .ret)
    | some e =>
      exact .bind (p := [_]) .nextIf (.last (turns_itemConvention e.convention) (.step .ret .ret))

/-! ### Types -/

/-- The items take their types from the last to the first, so each finds its own on top. -/
theorem turns_popItemTypes (is : List (Item × NodeOf .type)) (later : List Node) :
    Turns r s (popItemTypes (is.map (·.1)).reverse later) [] rest
      ((is.map (·.2.val)).reverse ++ below) below (is.map typedNode ++ later) := by
  induction is using List.reverseRecOn generalizing later with
  | nil => exact .ret
  | append_singleton is i ih =>
    simp only [List.map_append, List.map_cons, List.map_nil, List.reverse_append,
      List.reverse_singleton, List.append_assoc, List.singleton_append]
    exact .step (.popKind i.2.property) (ih (typedNode i :: later))

/-! ## Whole types -/

/-- A lowered function type without substitutions, a signature and a foreign type. -/
structure LoweredFunction where
  escaping : Bool
  differentiability : Option (Known Differentiability.ofCode?)
  callee : Known calleeConvention?
  convention : Option (Known callingConvention?)
  yieldsOnce : Bool
  yieldsMany : Bool
  once_or_many : (yieldsOnce && yieldsMany) = false
  sendable : Bool
  async : Bool
  items : LoweredItems

namespace LoweredFunction

/-- The spelling of a lowered function type. -/
def spelling (f : LoweredFunction) : List UInt8 :=
  optional f.escaping 'e' ++ (f.differentiability.toList.flatMap (['d'.toUInt8, ·.letter]) ++
    f.callee.letter :: (f.convention.toList.map (·.letter) ++
      (optional f.yieldsOnce 'A' ++ (optional f.yieldsMany 'G' ++ (optional f.sendable 'h' ++
        (optional f.async 'H' ++ (f.items.spelling ++ ['_'.toUInt8])))))))

/-- What is said about the function itself. -/
def attributes (f : LoweredFunction) : List Node :=
  (if f.escaping then [.leaf .implEscaping] else []) ++
    f.differentiability.toList.map
      (fun d => .ofPayload .implDifferentiability (.differentiability d.meaning)) ++
    [.ofText .implConvention f.callee.meaning] ++
    (f.convention.map (conventionNode ·.meaning none)).toList ++
    attributeIf f.yieldsOnce "@yield_once" ++ attributeIf f.yieldsMany "@yield_many" ++
    attributeIf f.sendable "@Sendable" ++ attributeIf f.async "@async"

/-- The node of a lowered function type. -/
def node (f : LoweredFunction) : Node :=
  .branch .implFunctionType (f.attributes ++ (f.items.inputs ++ f.items.outputs))

end LoweredFunction

/-- The letters that a calling convention starts with. -/
def conventionLetters : List Char :=
  ['B', 'C', 'z', 'M', 'O', 'K', 'W']

/-- The input goes on with something else than a calling convention. An error result starts like the
convention of a function with a foreign type. -/
inductive Unconventional : List UInt8 → Prop where
  | other {b : UInt8} {rest : List UInt8} (hb : conventionLetters.contains (charOfByte b) = false) :
    Unconventional (b :: rest)
  | error (e : Known resultConvention?) {rest : List UInt8} :
    Unconventional ('z'.toUInt8 :: e.letter :: rest)

namespace Unconventional

theorem letter {table : Char → Option String} (k : Known table)
    (h : conventionLetters.any (fun c => (table c).isSome) = false := by decide) :
    Unconventional (k.letter :: rest) := by
  refine .other (Bool.eq_false_iff.mpr fun hmem => ?_)
  have hnone := List.any_eq_false.mp h _ (List.contains_iff_mem.mp hmem)
  rw [k.known] at hnone
  exact hnone rfl

theorem optional {present : Bool} {c : Char} (h : Unconventional rest)
    (hc : conventionLetters.contains (charOfByte c.toUInt8) = false := by decide) :
    Unconventional (optional present c ++ rest) := by
  cases present with
  | false => exact h
  | true => exact .other hc

/-- What does not start like a convention, as often as there are items of it. -/
theorem flatMap {γ : Type} {f : γ → List UInt8} (hf : ∀ x tail, Unconventional (f x ++ tail))
    (h : Unconventional rest) (xs : List γ) : Unconventional (xs.flatMap f ++ rest) := by
  cases xs with
  | nil => exact h
  | cons x xs =>
    rw [List.flatMap_cons, List.append_assoc]
    exact hf x _

theorem items (f : LoweredItems) : Unconventional (f.spelling ++ '_'.toUInt8 :: rest) := by
  have herror : Unconventional
      (f.error.toList.flatMap (·.spelling 'z') ++ '_'.toUInt8 :: rest) := by
    cases f.error with
    | none => exact .other (by decide)
    | some e => exact .error e.convention
  have hyields := flatMap (f := fun x => LoweredItem.spelling 'Y' x)
    (fun _ _ => .other (by decide)) herror f.yields
  have hresults := flatMap (f := MarkedItem.spelling) (fun x _ => letter x.convention) hyields
    f.results
  rw [LoweredItems.spelling, LoweredItems.lastSpelling]
  simp only [List.append_assoc]
  exact flatMap (fun x _ => letter x.convention) hresults f.parameters

end Unconventional

/-- No convention is read where none is spelled. -/
theorem turns_functionConvention_none (h : Unconventional rest) :
    Turns r s functionConvention [] rest stack stack none := by
  cases h with
  | @other b rest hb =>
    refine .unread (x := b) (d := pure none) rfl ?_ .ret
    split
    case h_8 => rfl
    all_goals
      rename_i hc
      rw [hc] at hb
      cases hb
  | @error e rest =>
    obtain ⟨b, m, hm⟩ := e
    intro before
    -- the letter of the error result is looked at as well, and both are given back
    refine Eq.trans (run_bind_of_eq (Turns.nextChar before)) ?_
    refine Eq.trans (run_bind_of_eq (Turns.nextChar _)) ?_
    unfold resultConvention? at hm
    split at hm <;> rename_i hc <;> cases hm <;> (rw [hc]; rfl)

theorem turns_functionConvention (m : Option (Known callingConvention?)) (h : Unconventional rest) :
    Turns r s functionConvention (m.toList.map (·.letter)) rest stack stack
      (m.map (conventionNode ·.meaning none)) := by
  cases m with
  | none => exact turns_functionConvention_none h
  | some k =>
    obtain ⟨b, m, hm⟩ := k
    refine .last (p := [b]) .nextChar ?_
    unfold callingConvention? at hm
    split at hm <;> rename_i hc <;> cases hm <;> (rw [hc]; exact .ret)

theorem turns_loweredSubstitutions (h : Clear (oneOf ['s', 'I']) rest) :
    Turns r s loweredSubstitutions [] rest stack stack [] :=
  .step (.nextIf_false h.ne) (.step .ret (.step (.nextIf_false h.ne) (.step .ret .ret)))

theorem turns_loweredSignature (h : Bare .dependentGenericSignature stack) :
    Turns r s loweredSignature [] rest stack stack none :=
  .step (.popKind?_none h) .ret

theorem turns_differentiability {β : Type} {b : β} {q : List UInt8} {stack' : List Node}
    (m : Option (Known Differentiability.ofCode?)) {f : List Node → Decoder β}
    (h : Clear (· == 'd'.toUInt8) (q ++ rest))
    (hf : Turns r s (f (m.toList.map fun d =>
      .ofPayload .implDifferentiability (.differentiability d.meaning))) q rest stack stack' b) :
    Turns r s (nextIf 'd' >>= fun found =>
        if found then nextChar >>= fun c => ofOption (Differentiability.ofCode? c) >>= fun d =>
          pure [Node.ofPayload .implDifferentiability (.differentiability d)] >>= f
        else pure [] >>= f)
      (m.toList.flatMap (['d'.toUInt8, ·.letter]) ++ q) rest stack stack' b := by
  cases m with
  | none => exact .step (.nextIf_false h) (.step .ret hf)
  | some d =>
    exact .bind (p := [_]) .nextIf (.bind (p := [_]) .nextChar
      (.step (.ofOption d.known) (.step .ret hf)))

theorem turns_yieldsMany {once many : Bool} (hmany : (once && many) = false)
    (h : Clear (· == 'G'.toUInt8) rest) :
    Turns r s (if once then pure false else nextIf 'G') (optional many 'G') rest stack stack
      many := by
  cases once with
  | false => exact .nextIf_optional h
  | true =>
    obtain rfl : many = false := hmany
    exact .ret

/-- The whole type is read, and its items take their types. -/
theorem turns_loweredFunctionType (f : LoweredFunction)
    (h : Bare .dependentGenericSignature (f.items.types.reverse ++ below)) :
    Turns r s loweredFunctionType f.spelling rest (f.items.types.reverse ++ below) below
      (.typeOf f.node) := by
  have hcallee (tail : List UInt8) : Clear (oneOf ['e', 'd']) (f.callee.letter :: tail) :=
    .cons f.callee.oneOf_eq_false
  have hitems : Clear (oneOf ['A', 'G', 'h', 'H']) (f.items.spelling ++ '_'.toUInt8 :: rest) :=
    (f.items.clear_spelling (·.oneOf_eq_false) (·.oneOf_eq_false) rfl rfl).append .cons
  have hpop : Turns r s (popItemTypes (f.items.typed.map (·.1)).reverse []) [] rest
      ((f.items.typed.map (·.2.val)).reverse ++ below) below (f.items.typed.map typedNode ++ []) :=
    turns_popItemTypes f.items.typed []
  rw [typed_types, typed_nodes, List.append_nil] at hpop
  unfold loweredFunctionType
  -- each optional part is followed by other letters than its own, which is shown below
  refine .step (turns_loweredSubstitutions ?_) (.step (turns_loweredSignature h)
    (.bind (.nextIf_optional ?_) (turns_differentiability _ ?_ (.bind (p := [_]) .nextChar
      (.step (.ofOption f.callee.known) (.bind (turns_functionConvention _ ?_)
        (.bind (.nextIf_optional ?_) (.bind_ite (turns_yieldsMany f.once_or_many ?_)
          (.bind (.nextIf_optional ?_) (.bind (.nextIf_optional ?_)
            (.bind (turns_loweredItems _) (.last .expect (.step hpop ?_)))))))))))))
  on_goal 9 =>
    rw [Option.toList_none, List.append_nil]
    exact .ret
  all_goals try simp only [LoweredFunction.spelling, List.append_assoc, List.cons_append,
    List.nil_append]
  · exact .append clear_optional
      (.append (.flatMap (fun _ => .cons) _) (.cons f.callee.oneOf_eq_false))
  · exact .append (.flatMap (fun _ => .cons) _) (hcallee _).ne
  · exact (hcallee _).ne
  · exact .optional (.optional (.optional (.optional (.items f.items))))
  · exact .append clear_optional (.append clear_optional (.append clear_optional hitems.ne))
  · exact .append clear_optional (.append clear_optional hitems.ne)
  · exact .append clear_optional hitems.ne
  · exact hitems.ne

/-! ## Sections -/

theorem partSection_attributeIf (isPresent : Bool) (text : String) :
    ∀ n ∈ attributeIf isPresent text, partSection? n.kind = some .attributes := by
  cases isPresent with
  | false => nofun
  | true => exact List.forall_mem_singleton.mpr rfl

/-- All attributes belong to the same section of the printed type. -/
theorem partSection_attributes (f : LoweredFunction) :
    ∀ n ∈ f.attributes, partSection? n.kind = some .attributes := by
  have hescaping : ∀ n ∈ (if f.escaping then [Node.leaf .implEscaping] else []),
      partSection? n.kind = some .attributes := by
    cases f.escaping with
    | false => nofun
    | true => exact List.forall_mem_singleton.mpr rfl
  have hdifferentiability : ∀ n ∈ f.differentiability.toList.map
      (fun d => Node.ofPayload .implDifferentiability (.differentiability d.meaning)),
      partSection? n.kind = some .attributes := by
    intro n hn
    obtain ⟨d, -, rfl⟩ := List.mem_map.mp hn
    rfl
  have hconvention : ∀ n ∈ (f.convention.map (conventionNode ·.meaning none)).toList,
      partSection? n.kind = some .attributes := by
    intro n hn
    obtain ⟨c, -, rfl⟩ := Option.map_eq_some_iff.mp (Option.mem_toList.mp hn)
    rfl
  -- the attributes in the order in which they are read
  simp only [LoweredFunction.attributes, List.forall_mem_append]
  exact ⟨⟨⟨⟨⟨⟨⟨hescaping, hdifferentiability⟩, List.forall_mem_singleton.mpr rfl⟩, hconvention⟩,
    partSection_attributeIf _ _⟩, partSection_attributeIf _ _⟩, partSection_attributeIf _ _⟩,
    partSection_attributeIf _ _⟩

/-- Parameters belong to the section of the inputs. -/
theorem partSection_inputs (f : LoweredItems) :
    ∀ n ∈ f.inputs, partSection? n.kind = some .inputs := by
  intro n hn
  obtain ⟨x, -, rfl⟩ := List.mem_map.mp hn
  rfl

/-- Results, yields and the error belong to the section of the results. -/
theorem partSection_outputs (f : LoweredItems) :
    ∀ n ∈ f.outputs, partSection? n.kind = some .results := by
  intro n hn
  simp only [LoweredItems.outputs, List.mem_append, List.mem_map] at hn
  obtain (⟨x, -, rfl⟩ | ⟨x, -, rfl⟩) | ⟨x, -, rfl⟩ := hn <;> rfl

/-- Types hide what is below them; without any, it is on top itself. -/
theorem bare_types {k : Kind} (hk : k ≠ .type) (f : LoweredItems) (h : Bare k below) :
    Bare k (f.types.reverse ++ below) := by
  have hkind : ∀ n ∈ f.types.reverse, n.kind = .type := by
    intro n hn
    rw [List.mem_reverse, ← typed_types] at hn
    obtain ⟨x, -, rfl⟩ := List.mem_map.mp hn
    exact x.2.property
  cases htypes : f.types.reverse with
  | nil => exact h
  | cons n ns =>
    rw [htypes] at hkind
    exact .cons fun hn => hk (hn.symm.trans (hkind n List.mem_cons_self))

/-- Every item of a lowered function type gets the type that stands at its place, whatever the other
items are, and nothing below the types is taken. The items come in the order in which they are
printed: the text is that of the three sections, and only a part that cannot be printed makes the
whole fail. -/
theorem loweredFunctionType_items (r : Config) (s : State)
    (h : Bare .dependentGenericSignature s.stack) (f : LoweredFunction) (before rest : List UInt8) :
    loweredFunctionType r
        { s with
          cursor := ⟨before, f.spelling ++ rest⟩
          stack := f.items.types.reverse ++ s.stack } =
      (some (.typeOf f.node), { s with cursor := ⟨f.spelling.reverse ++ before, rest⟩ }) ∧
    printLoweredFunctionType f.node =
      printSections f.attributes f.items.inputs f.items.outputs ∧
    ∀ S : Setting, FailsAsParts S f.node.children (printLoweredFunctionType f.node) := by
  have hread : Turns r s loweredFunctionType f.spelling rest (f.items.types.reverse ++ s.stack)
      s.stack (.typeOf f.node) :=
    turns_loweredFunctionType f (bare_types (by decide) f.items h)
  have hprint : printLoweredFunctionType f.node =
      printSections f.attributes f.items.inputs f.items.outputs :=
    printLoweredFunctionType_sections (List.append_assoc ..).symm (partSection_attributes f)
      (partSection_inputs f.items) (partSection_outputs f.items)
  refine ⟨hread before, hprint, fun S => ?_⟩
  rw [hprint]
  exact .printSections (List.subset_append_left ..)
    (List.subset_append_of_subset_right _ (List.subset_append_left ..))
    (List.subset_append_of_subset_right _ (List.subset_append_right ..))

/-- A parameter and a result, the first not differentiated, a yield and an error result. -/
theorem loweredFunctionType_items_each :
    let t (name : String) : Node := .typeOf (.ofText .identifier name)
    let convention (name : String) : Node := .ofText .implConvention name
    let mark : Node := .ofText .implParameterResultDifferentiability "@noDerivative"
    Bare .dependentGenericSignature [] ∧
    loweredFunctionType ⟨false, none⟩
        { State.start [] with
          cursor := Cursor.ofBytes (Utf8.encode "egywdYizo_")
          stack := [t "E", t "Y", t "R", t "P"] } =
      (some (.typeOf (.branch .implFunctionType [.leaf .implEscaping,
          convention "@callee_guaranteed",
          .branch .implParameter [convention "@unowned", mark, t "P"],
          .branch .implResult [convention "@unowned", t "R"],
          .branch .implYield [convention "@in", t "Y"],
          .branch .implErrorResult [convention "@owned", t "E"]])),
        { State.start [] with cursor := ⟨(Utf8.encode "egywdYizo_").reverse, []⟩ }) := by
  intro t convention mark
  let item {table : Char → Option String} (k : Known table) (name : String) : LoweredItem table :=
    ⟨k, t name, rfl⟩
  -- escaping, with a convention for the callee and one item of each kind
  let f : LoweredFunction :=
    { escaping := true
      differentiability := none
      callee := ⟨'g'.toUInt8, _, rfl⟩
      convention := none
      yieldsOnce := false
      yieldsMany := false
      once_or_many := rfl
      sendable := false
      async := false
      items :=
        { parameters := [⟨item ⟨'y'.toUInt8, _, rfl⟩ "P", true⟩]
          results := [⟨item ⟨'d'.toUInt8, _, rfl⟩ "R", false⟩]
          yields := [item ⟨'i'.toUInt8, _, rfl⟩ "Y"]
          error := some (item ⟨'o'.toUInt8, _, rfl⟩ "E") } }
  have hbare : Bare .dependentGenericSignature (State.start []).stack := nofun
  exact ⟨hbare, (loweredFunctionType_items ⟨false, none⟩ (State.start []) hbare f [] []).1⟩

end SwiftMangling.Current
