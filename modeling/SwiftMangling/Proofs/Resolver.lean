import SwiftMangling.Proofs.Current.Continuation

/-!
# Symbols with and without a resolver

A symbolic reference that nobody answers makes the symbol undecodable. So a symbol that is decoded
without a resolver has no references, and it is decoded into the same tree with any resolver, which
is never asked; and a resolver that never answers is as good as none (`decodeWith_resolver`). Both
are instances of one fact about a run without answers: whatever it finds, a run with any resolver
finds as well (`symbol_stays`).
-/

namespace SwiftMangling

namespace Cursor

theorem extend_nil (c : Cursor) : c.extend [] = c := by
  simp [extend]

end Cursor

namespace Current

open Decoding

theorem extend_nil (s : State) : extend s [] = s := by
  show HasCursor.withCursor s (s.cursor.extend []) = s
  rw [Cursor.extend_nil]
  rfl

instance : Ending [] :=
  ⟨fun _ hb => by cases hb⟩

/-! ## Runs without answers -/

section Unanswered

variable {α : Type}

/-- Without an ending every reading stays what it is. -/
theorem stays_move (f : Cursor → α × Cursor) : Stays [] (move f) :=
  stable_move fun c => by rw [Cursor.extend_nil, Cursor.extend_nil]

theorem stays_look (f : Cursor → α) : Stays [] (look f) :=
  stable_look fun c => by rw [Cursor.extend_nil]

instance {c : Char} : Stays [] (nextIf c) :=
  stays_move _

instance {s : String} : Stays [] (nextIfText s) :=
  stays_move _

instance : Stays [] takeRest :=
  stays_move _

instance : Stays [] atEnd :=
  stays_look _

instance : Stays [] remaining :=
  stays_look _

instance : Stays [] suffix :=
  inferInstanceAs (Stays [] (_ >>= _))

instance {c : Char} : Stays [] (operatorOf c) := by
  by_cases hc : c = '.'
  · rw [hc]
    exact inferInstanceAs (Stays [] suffix)
  · exact operatorOf_stays hc

instance : Stays [] operator :=
  inferInstanceAs (Stays [] (_ >>= _))

instance {n : Nat} : Stays [] (operatorsFrom n) := by
  induction n with
  | zero => exact inferInstanceAs (Stays [] failure)
  | succ n ih =>
    rw [operatorsFrom]
    infer_instance

instance : Stays [] operators :=
  inferInstanceAs (Stays [] (_ >>= _))

instance : Stays [] symbolRoot :=
  inferInstanceAs (Stays [] (_ >>= _))

instance : Stays [] runtimeTypeName := by
  unfold runtimeTypeName
  refine .bind inferInstance fun _ => ?_
  dsimp only
  refine .ite (.bind inferInstance fun isProtocol => ?_)
    (.bind inferInstance fun _ => .bind inferInstance fun isProtocol => ?_)
  all_goals
    exact .bind inferInstance fun _ => .ite (.bind inferInstance inferInstance)
      (.bind inferInstance fun _ => .bind inferInstance inferInstance)

/-- What is found without an answer from a resolver is found with any resolver. -/
theorem symbol_stays : Stays [] symbol := by
  have hlength : Stays [] (look fun c => Scheme.prefixLength c.bytes) := stays_look _
  have hskip (n : Nat) : Stays [] (move fun c => ((), c.skip n)) := stays_move _
  unfold symbol
  infer_instance

end Unanswered

variable {resolver : Resolver} {input : List UInt8}

theorem symbol_resolver {inlineLabels : Bool} {s t : State} {a : Node} {r r' : Option Resolver}
    (hr : Config.Unanswered ⟨inlineLabels, r⟩) (h : symbol ⟨inlineLabels, r⟩ s = (some a, t)) :
    symbol ⟨inlineLabels, r'⟩ s = (some a, t) := by
  have hrun := symbol_stays.run ⟨inlineLabels, r⟩ ⟨inlineLabels, r'⟩ s a t ⟨hr, rfl⟩ h
  rwa [extend_nil, extend_nil] at hrun

/-- What is decoded without a resolver needs none. -/
theorem decodeSymbol_of_none (resolver : Resolver) {t : Node}
    (h : (decodeSymbol none input).tree = some t) :
    (decodeSymbol (some resolver) input).tree = some t ∧
      (decodeSymbol (some resolver) input).references = [] := by
  have hreferences := references_symbol (Scheme.hasInlineLabels input) input
  unfold decodeSymbol run at h ⊢
  rcases hrun : symbol ⟨Scheme.hasInlineLabels input, none⟩ (State.start input) with ⟨a, u⟩
  rw [hrun] at h hreferences
  obtain rfl : a = some t := h
  -- the run with the resolver ends in the same state, in which nothing has been asked
  rw [symbol_resolver (fun f hf => by cases hf) hrun]
  exact ⟨rfl, congrArg Array.toList hreferences⟩

/-- A resolver that never answers is as good as none. -/
theorem decodeSymbol_of_unanswered (h : ∀ reference, resolver reference = none) :
    (decodeSymbol (some resolver) input).tree = (decodeSymbol none input).tree := by
  cases hnone : (decodeSymbol none input).tree with
  | some t => exact (decodeSymbol_of_none resolver hnone).1
  | none =>
    -- what is found without an answer would be found without the resolver
    unfold decodeSymbol run at hnone ⊢
    rcases hrun : symbol ⟨Scheme.hasInlineLabels input, some resolver⟩ (State.start input) with
      ⟨_ | a, u⟩
    · rfl
    · have hunanswered : Config.Unanswered ⟨Scheme.hasInlineLabels input, some resolver⟩ := by
        intro f hf reference
        obtain rfl := Option.some.inj hf
        exact h reference
      rw [symbol_resolver hunanswered hrun] at hnone
      cases hnone

end Current

/-- A resolver only adds to what can be decoded. A symbol that is decoded without one is decoded
into the same tree with any resolver, which is never asked, and a resolver that never answers
changes nothing; the same holds for the decoder of the current scheme on its own. -/
theorem decodeWith_resolver (resolver : Resolver) (symbol : List UInt8) :
    (∀ t, decode symbol = some t → (decodeWith (some resolver) symbol).tree = some t ∧
      (decodeWith (some resolver) symbol).references = []) ∧
    ((∀ reference, resolver reference = none) →
      (decodeWith (some resolver) symbol).tree = decode symbol) ∧
    (∀ t, (Current.decodeSymbol none symbol).tree = some t →
      (Current.decodeSymbol (some resolver) symbol).tree = some t ∧
        (Current.decodeSymbol (some resolver) symbol).references = []) ∧
    ((∀ reference, resolver reference = none) →
      (Current.decodeSymbol (some resolver) symbol).tree =
        (Current.decodeSymbol none symbol).tree) := by
  refine ⟨fun t ht => ?_, fun h => ?_, fun t => Current.decodeSymbol_of_none resolver,
    Current.decodeSymbol_of_unanswered⟩
  · unfold decode decodeWith at ht
    unfold decodeWith
    -- only the decoder of the current scheme is given the resolver
    split at ht
    · exact ⟨ht, rfl⟩
    · exact Current.decodeSymbol_of_none resolver ht
    · exact ⟨ht, rfl⟩
  · unfold decode decodeWith
    split
    · rfl
    · exact Current.decodeSymbol_of_unanswered h
    · rfl

/-- A function is decoded without asking the resolver, and a type that is a reference is not decoded
if the resolver does not answer. -/
theorem decodeWith_resolver_function :
    ∃ t, decode (Utf8.encode "$s4main3fooyyF") = some t ∧
      (decodeWith (some fun _ => some (.leaf .emptyList)) (Utf8.encode "$s4main3fooyyF")).tree =
        some t ∧
      (decodeWith (some fun _ => some (.leaf .emptyList))
        (Utf8.encode "$s4main3fooyyF")).references = [] ∧
      (∀ reference : Reference, (fun _ => none : Resolver) reference = none) ∧
      (decodeWith (some fun _ => none) (Utf8.encode "$s" ++ [1, 0, 0, 0, 0])).tree =
        decode (Utf8.encode "$s" ++ [1, 0, 0, 0, 0]) := by
  have hdecoded : (decode (Utf8.encode "$s4main3fooyyF")).isSome = true := by decide +kernel
  obtain ⟨t, ht⟩ := Option.isSome_iff_exists.mp hdecoded
  obtain ⟨htree, hreferences⟩ := (decodeWith_resolver (fun _ => some (.leaf .emptyList)) _).1 t ht
  exact ⟨t, ht, htree, hreferences, fun _ => rfl,
    (decodeWith_resolver (fun _ => none) _).2.1 fun _ => rfl⟩

end SwiftMangling
