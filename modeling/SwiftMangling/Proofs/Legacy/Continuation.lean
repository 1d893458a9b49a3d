import SwiftMangling.Proofs.Legacy.Stable

/-!
# Legacy symbols with a suffix

A symbol of the legacy scheme with a suffix behind it has the parts of the symbol alone, and the
suffix as one more part (`decodeSymbol_append`). The exception is a specialization for a closure:
the types of its arguments are read as long as there are types, and a type that fails because the
input ends may well be found with the suffix behind it.
-/

namespace SwiftMangling.Legacy

open Decoding Node

/-- Whether a parameter was specialized for a closure. -/
def takesClosure (changes : List Node) : Bool :=
  changes.head?.any (·.payload == .specialization (.ofChange .closure))

/-- None of the parts is a specialization for a closure. -/
def ClosureFree (parts : List Node) : Prop :=
  ∀ part ∈ parts, ∀ param ∈ part.children, takesClosure param.children = false

instance (parts : List Node) : Decidable (ClosureFree parts) :=
  inferInstanceAs (Decidable (∀ part ∈ parts, ∀ param ∈ part.children, _))

/-- What the decoder finds, it finds with `x` behind the input, as far as it satisfies `P`. -/
abbrev StaysFor {α : Type} (P : α → Prop) (x : List UInt8) (d : Decoder α) : Prop :=
  ContinuedFor P (Grammar.Continues x) x d d

variable {x : List UInt8} [hx : Ending x]

/-! ## Specializations -/

theorem staysFor_paramChange : StaysFor (takesClosure · = false) x paramChange := by
  -- a propagated closure always says that it is one
  have hclosure : Yields (¬ takesClosure · = false) propagatedClosure := by
    refine .bind fun name => .bind fun n => .bind fun types => .bind fun _ => .ret ?_
    simp [takesClosure, changeNodes, paramKind, ofPayload]
  have hconstant : Stays x propagatedConstant := inferInstance
  have hoption : Stays x optionParam := inferInstance
  have hret (cs : List Node) : Stays x (pure cs) := inferInstance
  unfold paramChange
  exact (stays_nextIfText "n_").bind_for fun _ => .ite (hret _).continuedFor <|
    (stays_nextIfText "cp").bind_for fun _ => .ite hconstant.continuedFor <|
    (stays_nextIfText "cl").bind_for fun _ => .ite (.of_yields hclosure) <|
    (stays_nextIfText "i_").bind_for fun _ => .ite (hret _).continuedFor <|
    (stays_nextIfText "k_").bind_for fun _ => .ite (hret _).continuedFor <|
    (stays_nextIfText "r_").bind_for fun _ => .ite (hret _).continuedFor hoption.continuedFor

theorem staysFor_signatureParam :
    StaysFor (fun param => takesClosure param.children = false) x signatureParam := by
  have hret (n : Node) : Stays x (pure n) := inferInstance
  exact staysFor_paramChange.bind (fun _ => (hret _).continuedFor) fun _ => .ret id

/-- A specialization without closures stays the same with something behind it. -/
theorem staysFor_specialization :
    StaysFor (fun part => ∀ param ∈ part.children, takesClosure param.children = false) x
      specialization := by
  have hret (n : Node) : Stays x (pure n) := inferInstance
  have hkind (k : Kind) : Stays x (pure k) := inferInstance
  have hserialized : Stays x (nextIf 'q') := stays_nextIf 'q'
  have hpass : Stays x nextChar := inferInstance
  have hrequire (pass : Char) : Stays x (require ('0' ≤ pass)) := inferInstance
  have hgeneric : Stays x genericParam := inferInstance
  -- only the parameters of a signature specialization can be closures
  have hparams (k : Kind) : StaysFor
      (∀ param ∈ ·, takesClosure param.children = false) x
      (manyUntil '_' (if k == .functionSignatureSpecialization then signatureParam
        else genericParam)) :=
    continuedFor_manyUntil (Ending.not_mem_head (by decide))
      (.ite staysFor_signatureParam hgeneric.continuedFor)
  unfold specialization
  refine Continued.bind_for hpass fun c => ?_
  dsimp only
  split
  case h_4 =>
    have hfail : Stays x (failure : Decoder Node) := inferInstance
    exact hfail.continuedFor
  all_goals
    refine (hkind _).bind_for fun k => hserialized.bind_for fun serialized =>
      hpass.bind_for fun pass => (hrequire pass).bind_for fun _ =>
        (hparams k).bind (fun _ => (hret _).continuedFor) fun params => .ret ?_
    exact fun hpart param hparam => hpart param (by simp [branch, hparam])

/-- One header after the other, with as much fuel as there is or more. -/
theorem continuedFor_specializations {n m : Nat} (h : n ≤ m) :
    ContinuedFor ClosureFree (Grammar.Continues x) x (specializations n) (specializations m) := by
  induction n generalizing m with
  | zero =>
    have hfail : Continued (Grammar.Continues x) x failure (specializations m) := inferInstance
    exact hfail.continuedFor
  | succ n ih =>
    obtain ⟨m, rfl⟩ : ∃ k, m = k + 1 := ⟨m - 1, by omega⟩
    have hret (ns : List Node) : Stays x (pure ns) := inferInstance
    have hclear : Stays x clearSubstitutions := inferInstance
    have hmore : Stays x (nextIfText "_TTS") := stays_nextIfText "_TTS"
    rw [specializations, specializations]
    -- the first header and those that follow it are all parts of the result
    refine staysFor_specialization.bind (fun part => ?_) fun part => ?_
    · refine hclear.bind_for fun _ => hmore.bind_for fun _ => .ite ?_ (hret _).continuedFor
      refine (ih (m := m) (by omega)).bind (fun _ => (hret _).continuedFor) fun parts => .ret ?_
      exact fun hall p hp => hall p (List.mem_cons_of_mem part hp)
    · refine .bind fun _ => .bind fun _ => .ite (.bind fun parts => .ret ?_) (.ret ?_)
      · exact fun hall => hall part List.mem_cons_self
      · exact fun hall => hall part List.mem_cons_self

/-! ## Symbols -/

/-- Reads what stands in front of a symbol, and the symbol itself. -/
def symbolParts : Decoder (List Node) := do
  require (← nextIfText "_T")
  let front ←
    if ← nextIfText "TS" then
      let headers ← specializations ((← remaining) + 1)
      require (← nextIfText "_T")
      pure headers
    else symbolAttribute attributes
  return front ++ [← global]

/-- Reads the suffix behind the parts of a symbol, if there is one. -/
def withSuffix (parts : List Node) : Decoder Node := do
  let suffix ←
    if ← atEnd then pure []
    else do pure [.ofText .suffix (Utf8.lossy (← takeRest))]
  return .branch .global (parts ++ suffix)

/-- A symbol is what its parts say, with a suffix behind them if anything is left. -/
theorem symbol_eq : symbol = symbolParts >>= withSuffix := by
  unfold symbol symbolParts withSuffix
  simp only [bind_assoc]
  refine bind_congr fun _ => bind_congr fun _ => bind_congr fun specialized => ?_
  split <;> simp only [bind_assoc, pure_bind, List.append_assoc, List.singleton_append]

/-- The parts of a symbol do not depend on what follows it, unless it is specialized for a
closure. -/
theorem staysFor_symbolParts : StaysFor ClosureFree x symbolParts := by
  have hret (ns : List Node) : Stays x (pure ns) := inferInstance
  have hrequire (b : Bool) : Stays x (require b) := inferInstance
  have hglobal : Stays x global := inferInstance
  have hattribute : Stays x (symbolAttribute attributes) := stays_symbolAttribute (by decide)
  have hfront (front : List Node) : Stays x (global >>= fun body => pure (front ++ [body])) :=
    inferInstance
  have hfree (front : List Node) : Yields (fun parts => ClosureFree parts → ClosureFree front)
      (global >>= fun body => pure (front ++ [body]) : Decoder (List Node)) :=
    .bind fun body => .ret fun hparts part hpart => hparts part (List.mem_append_left _ hpart)
  unfold symbolParts
  refine (stays_nextIfText "_T").bind_for fun _ => (hrequire _).bind_for fun _ =>
    (stays_nextIfText "TS").bind_for fun _ => ?_
  dsimp only
  -- attributes are leaves, and only headers can be specializations
  refine .ite ?_ (hattribute.bind hfront).continuedFor
  refine continuedFor_remaining fun n m h => ?_
  refine (continuedFor_specializations (Nat.succ_le_succ h)).bind (fun headers => ?_)
    fun headers => ?_
  · refine (stays_nextIfText "_T").bind_for fun _ => (hrequire _).bind_for fun _ => ?_
    exact ((hret _).bind hfront).continuedFor
  · exact .bind fun _ => .bind fun _ => hfree headers

omit hx in
/-- A suffix is everything that is left. -/
theorem run_withSuffix (parts : List Node) (g : Grammar) (s : State) :
    (withSuffix parts g s).1 = some (branch .global (parts ++
      if s.cursor.rest = [] then [] else [ofText .suffix (Utf8.lossy s.cursor.rest)])) := by
  obtain ⟨⟨before, _ | ⟨b, rest⟩⟩, substitutions, depth⟩ := s <;> rfl

omit hx in
/-- What a symbol is decoded into: its parts and perhaps a suffix. -/
theorem decodeSymbol_eq_some_iff {input : List UInt8} {root : Node} :
    decodeSymbol input = some root ↔
      ∃ parts t, symbolParts ⟨parse (input.length + 1)⟩ (State.start input) = (some parts, t) ∧
        branch .global (parts ++ if t.cursor.rest = [] then []
          else [ofText .suffix (Utf8.lossy t.cursor.rest)]) = root := by
  rw [decodeSymbol, run, symbol_eq, run_bind]
  rcases symbolParts ⟨parse (input.length + 1)⟩ (State.start input) with ⟨_ | parts, t⟩
  · simp
  · dsimp only
    rw [run_withSuffix, Option.some_inj]
    constructor
    · exact fun h => ⟨parts, t, rfl, h⟩
    · rintro ⟨_, _, ⟨⟩, h⟩
      exact h

omit hx in
theorem eq_branch_of_decodeSymbol {input : List UInt8} {root : Node}
    (h : decodeSymbol input = some root) : root = branch .global root.children := by
  obtain ⟨parts, t, -, rfl⟩ := decodeSymbol_eq_some_iff.mp h
  rfl

/-- A suffix behind a symbol is one more part of it. -/
theorem decodeSymbol_append {input : List UInt8} {root : Node}
    (h : decodeSymbol input = some root) (hsuffix : ∀ c ∈ root.children, c.kind ≠ .suffix)
    (hclosure : ClosureFree root.children) (hne : x ≠ []) :
    decodeSymbol (input ++ x) =
      some (branch .global (root.children ++ [ofText .suffix (Utf8.lossy x)])) := by
  obtain ⟨parts, t, hparts, rfl⟩ := decodeSymbol_eq_some_iff.mp h
  -- what is left to read would be a suffix
  have hrest : t.cursor.rest = [] := by
    refine Decidable.byContradiction fun hrest => ?_
    exact hsuffix (ofText .suffix (Utf8.lossy t.cursor.rest)) (by simp [branch, hrest]) rfl
  rw [hrest, if_pos rfl, List.append_nil] at hclosure ⊢
  have hcontinues : Grammar.Continues x ⟨parse (input.length + 1)⟩
      ⟨parse ((input ++ x).length + 1)⟩ :=
    parse_continues (by rw [List.length_append]; omega)
  have hextend : (extend t x).cursor.rest = x := by
    show t.cursor.rest ++ x = x
    rw [hrest, List.nil_append]
  refine decodeSymbol_eq_some_iff.mpr ⟨parts, extend t x, ?_, ?_⟩
  · exact staysFor_symbolParts _ _ (State.start input) parts t hclosure hcontinues hparts
  · rw [hextend, if_neg hne]
    rfl

end SwiftMangling.Legacy
