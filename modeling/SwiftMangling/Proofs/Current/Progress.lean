import SwiftMangling.Proofs.Current.Invariant
import SwiftMangling.Proofs.Current.Local
import SwiftMangling.Proofs.Loop

/-!
# Operators read on

An operator that succeeds has read at least one byte, and one that fails does not end before its
start, although some operators step back over one or two bytes and start again as an identifier.
So the loop over operators has at most as many rounds as there are bytes left, and every loop inside
of an operator ends: what is repeated reads a byte or takes a node from the stack each time.
-/

namespace SwiftMangling.Current

open Decoding

variable {α β : Type} {r : Config} {s t : State}

/-- How many bytes are left to read. -/
def State.left (s : State) : Nat :=
  s.cursor.rest.length

/-- How many nodes are on the stack. -/
def State.size (s : State) : Nat :=
  s.stack.length

/-! ## Reading on -/

/-- A decoder that does not look behind itself ends in the same input, not before its start. -/
theorem onward {d : Decoder α} (h : ∀ N, Portable N 0 d) (r : Config) (s : State) :
    (d r s).2.cursor.bytes = s.cursor.bytes ∧ s.cursor.position ≤ (d r s).2.cursor.position := by
  have hs : Beside (fun _ => True) s.cursor.before s.cursor.before s.cursor.rest [] s s :=
    ⟨trivial, rfl, rfl, rfl⟩
  obtain ⟨-, l, -, hend⟩ :=
    (h s.cursor.rest.length).run (r := r) rfl (Nat.le_refl _) (Nat.zero_le _) hs
  have hbefore : (d r s).2.cursor.before = l ++ s.cursor.before := hend.before
  have hinput : l.reverse ++ (d r s).2.cursor.rest = s.cursor.rest := hend.input
  constructor
  · rw [Cursor.bytes, Cursor.bytes, hbefore, ← hinput, List.reverse_append, List.append_assoc]
  · rw [Cursor.position, Cursor.position, hbefore, List.length_append]
    omega

theorem position_add_left (s : State) :
    s.cursor.position + s.left = s.cursor.bytes.length := by
  rw [Cursor.bytes, List.length_append, List.length_reverse]
  rfl

instance {d : Decoder α} [h : ∀ N, Portable N 0 d] : Sinks State.left d where
  le r s := by
    obtain ⟨hbytes, hle⟩ := onward h r s
    have hs := position_add_left s
    have ht := position_add_left (d r s).2
    rw [hbytes] at ht
    omega

/-- If the decoder succeeds, it ends at least `i` bytes further than `j` bytes before its start. -/
def Nets (i j : Nat) (d : Decoder α) : Prop :=
  ∀ r s a, (d r s).1 = some a → (d r s).2.left + i ≤ s.left + j

theorem nets_of_portable {d : Decoder α} [h : Sinks State.left d] (k : Nat) : Nets k k d := by
  intro r s _ _
  have := h.le r s
  omega

theorem Nets.lowers {d : Decoder α} (h : Nets 1 0 d) : Lowers State.left (fun _ => True) d :=
  fun r s a ha _ => h r s a ha

theorem Nets.ofLowers {d : Decoder α} (h : Lowers State.left (fun _ => True) d) : Nets 1 0 d :=
  fun r s a ha => h r s a ha trivial

/-- A byte that has been read makes up for one that is stepped back over. -/
theorem nets_nextByte {i j : Nat} {f : UInt8 → Decoder α} (hf : ∀ b, Nets i (j + 1) (f b)) :
    Nets i j (nextByte >>= f) := by
  intro r s a ha
  have hmoves : Moves (fun _ => True) (nextByte : Decoder UInt8) := moves_scan Cursor.forward_next
  have hlt := hmoves r s
  rw [run_bind] at ha ⊢
  revert ha hlt
  rcases (nextByte : Decoder UInt8) r s with ⟨_ | b, t⟩
  · intro ha
    cases ha
  · intro ha hlt
    have hlt : t.left < s.left := hlt b rfl trivial
    have := hf b r t a ha
    dsimp only at this ⊢
    omega

/-- The character that is read makes up for one that is put back. -/
theorem nets_nextChar {i j : Nat} {f : Char → Decoder α} (hf : ∀ c, Nets i (j + 1) (f c)) :
    Nets i j (nextChar >>= f) := by
  unfold nextChar
  simp only [bind_assoc, pure_bind]
  exact nets_nextByte fun b => hf _

/-- Putting back gives one byte back, or none at the start. -/
theorem left_pushBack (r : Config) (s : State) :
    ((pushBack : Decoder Unit) r s).2.left ≤ s.left + 1 := by
  obtain ⟨⟨_ | ⟨b, before⟩, rest⟩, stack, substitutions, words, references⟩ := s
  · exact Nat.le_succ _
  · exact Nat.le_refl _

theorem nets_pushBack {i j : Nat} {f : Unit → Decoder α} (hf : Nets i j (f ())) :
    Nets i (j + 1) (pushBack >>= f) := by
  intro r s a ha
  have hle := left_pushBack r s
  have hrun : (pushBack >>= f) r s = f () r ((pushBack : Decoder Unit) r s).2 := rfl
  rw [hrun] at ha ⊢
  have := hf r _ a ha
  omega

/-! ## What reads at least one byte -/

theorem nextIf_lowers (c : Char) : Lowers State.left (· = true) (nextIf c : Decoder Bool) :=
  moves_scan (Cursor.forward_nextIf _)

theorem natural_lowers : Lowers State.left (fun _ => True) (natural : Decoder Nat) :=
  moves_scan (Cursor.forward_natural 64)

theorem index_lowers : Lowers State.left (fun _ => True) (index : Decoder Nat) :=
  moves_scan Cursor.forward_index

theorem nextByte_lowers : Lowers State.left (fun _ => True) (nextByte : Decoder UInt8) :=
  moves_scan Cursor.forward_next

theorem nextChar_lowers : Lowers State.left (fun _ => True) (nextChar : Decoder Char) :=
  nextByte_lowers.first inferInstance inferInstance

theorem identifierText_lowers (punycoded : Bool) :
    Lowers State.left (fun _ => True) (identifierText punycoded) := by
  have hpositive : Lowers State.left (fun _ => True) (positive : Decoder Nat) :=
    natural_lowers.first inferInstance inferInstance
  exact hpositive.first inferInstance inferInstance

/-- What stops or starts with a text reads something in either case. -/
theorem identifierPieces_lowers (punycoded : Bool) (n : Nat) (read : String) :
    Lowers State.left (fun _ => True) (identifierPieces punycoded n false read) := by
  cases n with
  | zero => exact fun _ _ _ ha => nomatch ha
  | succ n =>
    rw [identifierPieces]
    refine .next inferInstance fun _ => ?_
    rw [if_neg (by simp)]
    refine (nextIf_lowers '0').bind inferInstance inferInstance fun b hb => ?_
    rw [if_neg hb]
    exact (identifierText_lowers punycoded).first inferInstance inferInstance

/-- An identifier takes at least one byte in the end. -/
theorem identifier_nets : Nets 1 0 identifier := by
  refine .ofLowers (.next inferInstance fun _ => .next inferInstance fun _ => ?_)
  -- an identifier without a mark has to have a text
  refine (nextIf_lowers '0').bind inferInstance inferInstance fun hasMark hno => ?_
  obtain rfl : hasMark = false := by simpa using hno
  exact .next inferInstance fun _ => .next inferInstance fun _ =>
    Lowers.first (identifierPieces_lowers _ _ _) inferInstance inferInstance

theorem conformance_nets : Nets 1 1 conformance := by
  refine nets_nextChar fun c => ?_
  split
  case h_7 => exact nets_pushBack (nets_pushBack identifier_nets)
  all_goals exact fun r s a ha => Nat.le_succ_of_le (nets_of_portable 1 r s a ha)

/-- A suffix reads everything. -/
theorem suffix_nets : Nets 1 1 suffix := by
  intro r s a _
  have hend (t : State) : ((takeRest : Decoder (List UInt8)) r t).2.left = 0 := by
    show (t.cursor.skip t.cursor.rest.length).rest.length = 0
    rw [Cursor.rest_skip, List.drop_length]
    rfl
  have hleft : (suffix r s).2.left = 0 := hend _
  omega

/-- In the end an operator has read at least as much as it puts back. -/
theorem operatorOf_nets (c : Char) : Nets 1 1 (operatorOf c) := by
  unfold operatorOf
  split
  case h_8 => exact conformance_nets
  case h_48 => exact suffix_nets
  case h_49 => exact nets_pushBack identifier_nets
  all_goals exact nets_of_portable 1

/-- An operator that succeeds has read at least one byte. -/
theorem operator_lowers : Lowers State.left (fun _ => True) operator := by
  refine .next inferInstance fun _ => Nets.lowers (nets_nextByte fun b => ?_)
  split
  · exact nets_of_portable 1
  · exact operatorOf_nets _

/-! ## The loop over operators -/

instance {N j : Nat} : Portable N j round :=
  inferInstanceAs (Portable N j (_ >>= _))

theorem round_lowers : Lowers State.left (fun _ => True) round :=
  operator_lowers.first inferInstance inferInstance

/-- From `s`, the loop over operators comes to `t` after `n` completed rounds. -/
inductive Rounds (r : Config) (s : State) : Nat → State → Prop where
  | start : Rounds r s 0 s
  | next {n : Nat} {t u : State} (before : Rounds r s n t) (more : t.cursor.rest ≠ [])
      (run : round r t = (some (), u)) : Rounds r s (n + 1) u

/-- Each round that is completed reads something. -/
theorem Rounds.add_left_le {n : Nat} (h : Rounds r s n t) : n + t.left ≤ s.left := by
  induction h with
  | start => omega
  | next _ _ run ih =>
    have hlt := round_lowers r _ () (congrArg Prod.fst run) trivial
    rw [run] at hlt
    dsimp only at hlt
    omega

/-- One round, and the rest of the loop if it is completed. -/
def operatorsBody (go : Decoder Unit) : Decoder Unit := do
  if ← atEnd then return ()
  round
  go

/-- Each round of the loop starts with fewer bytes left. -/
theorem contracts_operatorsBody :
    Contracts State.left fun go (_ : Unit) => operatorsBody (go ()) := by
  intro m d e hde _
  refine .bind inferInstance fun _ => .ite (.refl _) ?_
  exact .after inferInstance round_lowers (fun _ _ => hde ()) fun _ hno => absurd trivial hno

theorem completes_operators : Completes operatorsBody operators :=
  .ofUnit (contracts_operatorsBody.completes_succ (f := fun n _ => operatorsFrom n)
    fun n => funext fun _ => operatorsFrom_succ n)

/-- The loop of the operators against one round of it, without a bound on the rounds. -/
theorem run_operators (r : Config) (s : State) :
    operators r s =
      if s.cursor.rest = [] then (some (), s)
      else match round r s with
        | (some _, t) => operators r t
        | (none, t) => (none, t) := by
  -- the loop is the solution of its equation
  have hbody : operatorsBody operators r s = operators r s :=
    congrFun (congrFun ((completes_operators _).mpr rfl) r) s
  have hend : (atEnd : Decoder Bool) r s = (some s.cursor.rest.isEmpty, s) := rfl
  rw [operatorsBody, run_bind, hend] at hbody
  rw [← hbody]
  cases s.cursor.rest with
  | nil => rfl
  | cons b rest =>
    rw [if_neg (List.cons_ne_nil b rest)]
    show (round >>= fun _ => operators) r s = _
    rw [run_bind]
    rcases round r s with ⟨_ | _, t⟩ <;> rfl

/-- The loop goes through completed rounds, up to the end of the input or to a round that fails. -/
theorem exists_rounds (r : Config) (s : State) :
    ∃ n t, Rounds r s n t ∧
      (t.cursor.rest = [] ∧ operators r s = (some (), t) ∨
        t.cursor.rest ≠ [] ∧ (round r t).1 = none ∧ operators r s = (none, (round r t).2)) := by
  -- from wherever the loop has come to, by induction on what is left to read there
  have hfrom (k : Nat) : ∀ n t, t.left ≤ k → Rounds r s n t → operators r s = operators r t →
      ∃ n t, Rounds r s n t ∧
        (t.cursor.rest = [] ∧ operators r s = (some (), t) ∨
          t.cursor.rest ≠ [] ∧ (round r t).1 = none ∧ operators r s = (none, (round r t).2)) := by
    induction k with
    | zero =>
      intro n t hk hn hrun
      have hrest : t.cursor.rest = [] := List.length_eq_zero_iff.mp (Nat.le_zero.mp hk)
      rw [run_operators r t, if_pos hrest] at hrun
      exact ⟨n, t, hn, .inl ⟨hrest, hrun⟩⟩
    | succ k ih =>
      intro n t hk hn hrun
      by_cases hrest : t.cursor.rest = []
      · rw [run_operators r t, if_pos hrest] at hrun
        exact ⟨n, t, hn, .inl ⟨hrest, hrun⟩⟩
      rw [run_operators r t, if_neg hrest] at hrun
      have hlt := round_lowers r t
      rcases hround : round r t with ⟨_ | _, u⟩ <;> rw [hround] at hrun hlt
      · exact ⟨n, t, hn, .inr ⟨hrest, by rw [hround], by rw [hround]; exact hrun⟩⟩
      · have := hlt () rfl trivial
        exact ih (n + 1) u (by dsimp only at this; omega) (.next hn hrest hround) hrun
  exact hfrom s.left 0 s (Nat.le_refl _) .start rfl

/-! ## Loops over the input -/

theorem AgreeBelow.pushBack {m : Nat} {f g : Unit → Decoder α}
    (h : AgreeBelow State.left (m + 1) (f ()) (g ())) :
    AgreeBelow State.left m (Decoding.pushBack >>= f) (Decoding.pushBack >>= g) := by
  intro r s hs
  have hle := left_pushBack r s
  exact h r ((Decoding.pushBack : Decoder Unit) r s).2 (by omega)

/-- One step of a list of references to the table. -/
def substitutionsBody (go : Option Nat → Decoder Node) (count : Option Nat) : Decoder Node := do
  let c ← nextChar
  if c.isLower then
    push (← repeated count (c.toNat - 'a'.toNat))
    go none
  else if c.isUpper then
    repeated count (c.toNat - 'A'.toNat)
  else if c == '_' then
    substitution (count.elim 26 (· + 27))
  else
    pushBack
    go (some (← natural))

theorem contracts_substitutionsBody : Contracts State.left substitutionsBody := by
  intro m d e hde count
  refine .after inferInstance nextChar_lowers (fun c _ => ?_) fun _ hno => absurd trivial hno
  refine .ite ?_ (.ite (.refl _) (.ite (.refl _) ?_))
  · exact .bind inferInstance fun n => .bind inferInstance fun _ => hde none
  · -- the letter is given back, and then a number is read
    refine AgreeBelow.pushBack (.after inferInstance natural_lowers (fun n _ => hde (some n)) ?_)
    exact fun _ hno => absurd trivial hno

/-- One piece of an identifier, where the loop carries along whether words may follow and what has
been read. -/
def piecesBody (punycoded : Bool) (go : Bool × String → Decoder String) :
    Bool × String → Decoder String
  | (wordsFollow, read) => do
    if wordsFollow && (← peekChar?).any Char.isAlpha then
      let c ← nextChar
      let word ← namedWord c
      go (c.isLower, read ++ word)
    else if ← nextIf '0' then
      return read
    else
      let piece ← identifierText punycoded
      if wordsFollow then go (true, read ++ piece) else return read ++ piece

theorem contracts_piecesBody (punycoded : Bool) :
    Contracts State.left (piecesBody punycoded) := by
  rintro m d e hde ⟨wordsFollow, read⟩
  refine .bind inferInstance fun next => .ite ?_ (.bind inferInstance fun _ => .ite (.refl _) ?_)
  · refine .after inferInstance nextChar_lowers (fun c _ => ?_) fun _ hno => absurd trivial hno
    exact .bind inferInstance fun word => hde _
  · refine .after inferInstance (identifierText_lowers punycoded) (fun piece _ => ?_) ?_
    · exact .ite (hde _) (.refl _)
    · exact fun _ hno => absurd trivial hno

/-- A list ends if each of its items reads something. -/
theorem completes_manyUntil (c : Char) {x : Decoder α} [Sinks State.left x]
    (hx : Lowers State.left (fun _ => True) x) : Completes (untilBody c x) (manyUntil c x) :=
  .ofUnit ((contracts_untilBody inferInstance inferInstance hx).completes_succ
    (f := fun n _ => manyUntilFrom n c x) fun _ => rfl)

theorem parameterCount_lowers : Lowers State.left (fun _ => True) parameterCount := by
  refine (nextIf_lowers 'z').bind inferInstance inferInstance fun b hb => ?_
  rw [if_neg hb]
  exact index_lowers.first inferInstance inferInstance

theorem paramNode_lowers (k : Kind) : Lowers State.left (fun _ => True) (paramNode k) := by
  have hchange : Lowers State.left (fun _ => True) paramChange := by
    refine nextChar_lowers.first inferInstance fun c => ?_
    split
    case h_3 => exact .bind inferInstance fun c => by split <;> infer_instance
    all_goals infer_instance
  exact hchange.first inferInstance inferInstance

theorem bridgedArgument_lowers : Lowers State.left (fun _ => True) bridgedArgument :=
  nextChar_lowers.first inferInstance inferInstance

theorem itemConvention_lowers (table : Char → Option String) :
    Lowers State.left (fun _ => True) (itemConvention table) :=
  .next inferInstance fun _ => .next inferInstance fun _ =>
    nextByte_lowers.first inferInstance inferInstance

theorem completes_markedItems (k : Kind) (table : Char → Option String) :
    Completes (manyBody (markedItem k table)) (do many (← remaining) (markedItem k table)) := by
  refine completes_many (μ := State.left) ((itemConvention_lowers table).first inferInstance inferInstance) ?_
  rintro r ⟨⟨before, _ | ⟨b, rest⟩⟩, stack, substitutions, words, references⟩ hs
  · rfl
  · cases hs

/-- One yield, and the rest of them. -/
def yieldsBody (go : Decoder (List Item)) : Decoder (List Item) := do
  if ← nextIf 'Y' then
    let item := ⟨.implYield, [← itemConvention parameterConvention?]⟩
    return item :: (← go)
  else return []

theorem completes_yields : Completes yieldsBody (do yields (← remaining)) := by
  have hcontracts : Contracts State.left fun go (_ : Unit) => yieldsBody (go ()) := by
    intro m d e hde _
    refine .bind inferInstance fun _ => .ite ?_ (.refl _)
    refine .after inferInstance (itemConvention_lowers _) (fun _ _ => (hde ()).map) ?_
    exact fun _ hno => absurd trivial hno
  refine .ofUnit (hcontracts.completes (f := fun n _ => yields n) (fun _ => rfl) fun _ => ?_)
  rintro r ⟨⟨before, _ | ⟨b, rest⟩⟩, stack, substitutions, words, references⟩ hs
  · rfl
  · exact absurd hs (by simp [State.left])

/-! ## Loops over the stack -/

instance {p : Kind → Bool} : Sinks State.size (popWhere p) where
  le r s := by
    obtain ⟨cursor, _ | ⟨n, rest⟩, substitutions, words, references⟩ := s
    · exact Nat.le_refl _
    · by_cases hn : p n.kind <;> simp [popWhere, State.size, hn]

theorem popWhere_lowers (p : Kind → Bool) : Lowers State.size (fun _ => True) (popWhere p) := by
  rintro r ⟨cursor, _ | ⟨n, rest⟩, substitutions, words, references⟩ a ha -
  · cases ha
  · by_cases hn : p n.kind <;> simp [popWhere, State.size, hn] at ha ⊢

instance : Sinks State.size pop :=
  inferInstanceAs (Sinks State.size (popWhere _))

instance {k : Kind} : Sinks State.size (popKind k) :=
  inferInstanceAs (Sinks State.size (popWhere _))

instance {k : Kind} : Sinks State.size (popKind? k) :=
  inferInstanceAs (Sinks State.size (attempt _))

instance {k : Kind} : Sinks State.size (popMarker k) :=
  inferInstanceAs (Sinks State.size (_ >>= _))

instance : Sinks State.size popDeclName :=
  inferInstanceAs (Sinks State.size (popWhere _))

instance : Sinks State.size stackSize :=
  ⟨fun _ _ => Nat.le_refl _⟩

instance {p : Kind → Bool} : Sinks State.size (popRun p) :=
  inferInstanceAs (Sinks State.size (_ >>= _))

instance : Sinks State.size popModule :=
  .bind inferInstance fun n => by split <;> infer_instance

instance : Sinks State.size popContext := by
  refine .bind inferInstance fun n => ?_
  split
  · infer_instance
  · refine .bind inferInstance fun n => ?_
    split
    · split <;> infer_instance
    · infer_instance

instance : Sinks State.size popProtocol := by
  refine .bind inferInstance fun t => ?_
  split
  · infer_instance
  · exact .bind inferInstance fun r => by split <;> infer_instance

instance : Sinks State.size popTupleElement :=
  inferInstanceAs (Sinks State.size (_ >>= _))

theorem popKind_lowers (k : Kind) : Lowers State.size (fun _ => True) (popKind k) :=
  popWhere_lowers _

theorem popDeclName_lowers : Lowers State.size (fun _ => True) popDeclName :=
  popWhere_lowers _

theorem popKind?_lowers (k : Kind) : Lowers State.size (· ≠ none) (popKind? k) := by
  intro r s a ha hne
  obtain ⟨n, hn⟩ := Option.ne_none_iff_exists'.mp hne
  exact popKind_lowers k r s n ((Option.some.inj ha).trans hn) trivial

/-- A first step that may take a node, and what takes one if it has not. -/
theorem lowers_popKind? {P : α → Prop} {k : Kind} {f : Option Node → Decoder α}
    (hf : ∀ n, Sinks State.size (f n)) (hnone : Lowers State.size P (f none)) :
    Lowers State.size P (popKind? k >>= f) := by
  refine (popKind?_lowers k).bind inferInstance hf fun n hn => ?_
  obtain rfl := Classical.not_not.mp hn
  exact hnone

theorem popProtocol_lowers : Lowers State.size (fun _ => True) popProtocol := by
  refine lowers_popKind? (fun t => ?_) (lowers_popKind? (fun r => ?_) ?_)
  · cases t with
    | some t => infer_instance
    | none => exact .bind inferInstance fun r => by cases r <;> dsimp only <;> infer_instance
  · cases r <;> dsimp only <;> infer_instance
  · exact popDeclName_lowers.first inferInstance inferInstance

theorem popTupleElement_lowers : Lowers State.size (fun _ => True) popTupleElement :=
  .next inferInstance fun _ => .next inferInstance fun _ =>
    (popKind_lowers .type).first inferInstance inferInstance

instance : Sinks State.size popAssociatedTypeName := by
  refine .bind inferInstance fun t => ?_
  cases t <;> dsimp only <;> infer_instance

/-- The name takes the node it is built from off the stack. -/
theorem popAssociatedTypeName_lowers : Lowers State.size (fun _ => True) popAssociatedTypeName := by
  refine .next inferInstance fun t => ?_
  cases t with
  | some t =>
    exact .next inferInstance fun _ => .next inferInstance fun _ =>
      (popKind_lowers .identifier).first inferInstance inferInstance
  | none =>
    exact .next inferInstance fun _ =>
      (popKind_lowers .identifier).first inferInstance inferInstance

/-- A run of nodes ends with the stack. -/
theorem completes_popRun (p : Kind → Bool) :
    Completes (manyBody (popWhere p)) (do many (← stackSize) (popWhere p)) := by
  refine completes_many (μ := State.size) (popWhere_lowers p) ?_
  rintro r ⟨cursor, _ | ⟨n, rest⟩, substitutions, words, references⟩ hs
  · rfl
  · cases hs

/-- One element of a list whose first element is marked, and those before it. -/
def markedBody (element : Decoder Node) (go : List Node → Decoder (List Node))
    (later : List Node) : Decoder (List Node) := do
  let isFirst ← popMarker .firstElementMarker
  let e ← element
  if isFirst then return e :: later else go (e :: later)

/-- Each element takes something off the stack, so there are no more rounds than nodes on it. -/
theorem completes_popMarked {element : Decoder Node} (hle : Sinks State.size element)
    (hlow : Lowers State.size (fun _ => True) element) :
    Completes (markedBody element) fun later =>
      (do popMarkedFrom element ((← stackSize) + 1) later) := by
  have hcontracts : Contracts State.size (markedBody element) := by
    intro m d e hde later
    refine .bind inferInstance fun isFirst => .after hle hlow (fun n _ => ?_) ?_
    · exact .ite (.refl _) (hde _)
    · exact fun _ hno => absurd trivial hno
  exact hcontracts.completes_succ (f := popMarkedFrom element) fun _ => rfl

/-- One list of generic arguments, and those around it. -/
def argumentListsBody (go : Decoder (List Node)) : Decoder (List Node) := do
  let types ← popRun (· == .type)
  let list := Node.branch .typeList types
  if ← popMarker .emptyList then return [list]
  let _ ← popKind .firstElementMarker
  return list :: (← go)

theorem completes_popArgumentLists :
    Completes argumentListsBody (do popArgumentLists ((← stackSize) + 1)) := by
  have hcontracts : Contracts State.size fun go (_ : Unit) => argumentListsBody (go ()) := by
    intro m d e hde _
    refine .bind inferInstance fun types => .bind inferInstance fun _ => .ite (.refl _) ?_
    refine .after inferInstance (popKind_lowers _) (fun _ _ => (hde ()).map) ?_
    exact fun _ hno => absurd trivial hno
  exact .ofUnit (hcontracts.completes_succ (f := fun n _ => popArgumentLists n) fun _ => rfl)

/-- One type above a base, and what is below it. -/
def typesAndBaseBody (go : List Node → Decoder (List Node × Node)) (types : List Node) :
    Decoder (List Node × Node) := do
  let next ← pop
  if next.kind == .type then go (next :: types) else return (types, next)

theorem completes_popTypesAndBase :
    Completes typesAndBaseBody fun types =>
      (do popTypesAndBase ((← stackSize) + 1) types) := by
  have hcontracts : Contracts State.size typesAndBaseBody := by
    intro m d e hde types
    refine .after inferInstance (popWhere_lowers _) (fun next _ => .ite (hde _) (.refl _)) ?_
    exact fun _ hno => absurd trivial hno
  exact hcontracts.completes_succ (f := popTypesAndBase) fun _ => rfl

/-- One marked name, and those below it. -/
def markedNamesBody (go : List Node → Decoder (List Node)) (later : List Node) :
    Decoder (List Node) := do
  if ← popMarker .firstElementMarker then
    let name ← popDeclName
    go (name :: later)
  else return later

theorem completes_popMarkedNames :
    Completes markedNamesBody fun later =>
      (do popMarkedNames ((← stackSize) + 1) later) := by
  have hcontracts : Contracts State.size markedNamesBody := by
    intro m d e hde later
    refine .bind inferInstance fun _ => .ite ?_ (.refl _)
    refine .after inferInstance popDeclName_lowers (fun name _ => hde _) ?_
    exact fun _ hno => absurd trivial hno
  exact hcontracts.completes_succ (f := popMarkedNames) fun _ => rfl

/-! ## All loops -/

/-- Every loop of the decoder ends, over the input or over the stack, and the production that runs
it gives it enough rounds. -/
structure LoopsComplete : Prop where
  operators : Completes operatorsBody operators
  substitutions : Completes substitutionsBody fun count =>
    (do substitutionsFrom ((← remaining) + 1) count)
  pieces (punycoded : Bool) : Completes (piecesBody punycoded) fun (wordsFollow, read) =>
    (do identifierPieces punycoded ((← remaining) + 1) wordsFollow read)
  parameterCounts : Completes (untilBody 'l' parameterCount) (manyUntil 'l' parameterCount)
  params (k : Kind) : Completes (untilBody '_' (paramNode k)) (manyUntil '_' (paramNode k))
  bridgedArguments : Completes (untilBody '_' bridgedArgument) (manyUntil '_' bridgedArgument)
  items (k : Kind) (table : Char → Option String) :
    Completes (manyBody (markedItem k table)) (do many (← remaining) (markedItem k table))
  yields : Completes yieldsBody (do yields (← remaining))
  runs (p : Kind → Bool) :
    Completes (manyBody (popWhere p)) (do many (← stackSize) (popWhere p))
  lists : ∀ element ∈ [popKind .type, popProtocol, popTupleElement, popAssociatedTypeName,
    popWhere isAnyConformance], Completes (markedBody element) fun later =>
      (do popMarkedFrom element ((← stackSize) + 1) later)
  argumentLists : Completes argumentListsBody (do popArgumentLists ((← stackSize) + 1))
  typesAndBase : Completes typesAndBaseBody fun types =>
    (do popTypesAndBase ((← stackSize) + 1) types)
  markedNames : Completes markedNamesBody fun later =>
    (do popMarkedNames ((← stackSize) + 1) later)

/-- No loop stops for want of rounds. -/
theorem loopsComplete : LoopsComplete where
  operators := completes_operators
  substitutions := contracts_substitutionsBody.completes_succ (f := substitutionsFrom) fun _ => rfl
  pieces punycoded := (contracts_piecesBody punycoded).completes_succ
    (f := fun n (wordsFollow, read) => identifierPieces punycoded n wordsFollow read) fun _ => rfl
  parameterCounts := completes_manyUntil 'l' parameterCount_lowers
  params k := completes_manyUntil '_' (paramNode_lowers k)
  bridgedArguments := completes_manyUntil '_' bridgedArgument_lowers
  items := completes_markedItems
  yields := completes_yields
  runs := completes_popRun
  lists element h := by
    simp only [List.mem_cons, List.not_mem_nil, or_false] at h
    rcases h with rfl | rfl | rfl | rfl | rfl
    · exact completes_popMarked inferInstance (popKind_lowers .type)
    · exact completes_popMarked inferInstance popProtocol_lowers
    · exact completes_popMarked inferInstance popTupleElement_lowers
    · exact completes_popMarked inferInstance popAssociatedTypeName_lowers
    · exact completes_popMarked inferInstance (popWhere_lowers _)
  argumentLists := completes_popArgumentLists
  typesAndBase := completes_popTypesAndBase
  markedNames := completes_popMarkedNames

/-- With any resolver and from any state, an operator stays in its input and does not end before its
start; if it succeeds, it ends behind at least one more byte. So the loop over operators completes
at most as many rounds as there are bytes left, and fewer if it fails in a further one, and every
loop inside of the operators ends. -/
theorem operator_reads_on (r : Config) (s : State) :
    ((operator r s).2.cursor.bytes = s.cursor.bytes ∧
      s.cursor.position ≤ (operator r s).2.cursor.position ∧
      (operator r s).2.cursor.position ≤ s.cursor.bytes.length ∧
      ∀ n, (operator r s).1 = some n →
        s.cursor.position < (operator r s).2.cursor.position) ∧
    (∃ n t, Rounds r s n t ∧
      (t.cursor.rest = [] ∧ n ≤ s.cursor.rest.length ∧ operators r s = (some (), t) ∨
        t.cursor.rest ≠ [] ∧ n + 1 ≤ s.cursor.rest.length ∧ (round r t).1 = none ∧
          operators r s = (none, (round r t).2))) ∧
    LoopsComplete := by
  obtain ⟨hbytes, hle⟩ := onward (d := operator) inferInstance r s
  have hs := position_add_left s
  have ht := position_add_left (operator r s).2
  rw [hbytes] at ht
  refine ⟨⟨hbytes, hle, by omega, fun n hn => ?_⟩, ?_, loopsComplete⟩
  · have hlt := operator_lowers r s n hn trivial
    omega
  -- each round takes a byte from what is left
  · obtain ⟨n, t, hn, hend⟩ := exists_rounds r s
    have hrounds : n + t.cursor.rest.length ≤ s.cursor.rest.length := hn.add_left_le
    refine ⟨n, t, hn, hend.imp ?_ ?_⟩
    · rintro ⟨hrest, hrun⟩
      exact ⟨hrest, by omega, hrun⟩
    · rintro ⟨hrest, hfail, hrun⟩
      have := List.length_pos_iff.mpr hrest
      exact ⟨hrest, by omega, hfail, hrun⟩

end SwiftMangling.Current
