import SwiftMangling.Proofs.Current.Operand

/-!
# References to the table of substitutions

A reference spells the position of a node in the table: a capital letter up to 25, `_` for 26, and a
number in front of `_` from 27 on. Several references can be written as one, with small letters for
all but the last, and a number in front of a letter repeats what the letter names. Each step of the
reader either takes a number, which is kept for the next letter only, or a letter, which puts its
copies on the stack; so by induction on the references their copies are appended in order
(`turns_references`).
-/

namespace SwiftMangling.Current

open Decoding Node

/-! ## Spelling -/

/-- The spelling of a position in the table. -/
def spelledPosition (i : Nat) : List UInt8 :=
  if i < 26 then [letterFrom 'A' i]
  else if i = 26 then ['_'.toUInt8]
  else decimal (i - 27) ++ ['_'.toUInt8]

/-- A node of the table, named by a letter, that may be repeated. -/
structure RepeatedReference (table : Array Node) where
  count : Option Nat
  position : Nat
  count_le : ∀ n ∈ count, n ≤ maxRepeatCount
  hasLetter : position < 26
  inTable : position < table.size

namespace RepeatedReference

variable {table : Array Node}

/-- The node that a reference names. -/
def entry : RepeatedReference table → Node
  | ⟨_, position, _, _, _⟩ => table[position]

/-- How often a reference names its node: no count and a count of 0 mean once. -/
def times (p : RepeatedReference table) : Nat :=
  max (p.count.getD 0) 1

/-- All that a reference names. -/
def copies (p : RepeatedReference table) : List Node :=
  List.replicate p.times p.entry

/-- A reference stands for at least one copy. -/
theorem copies_eq_cons (p : RepeatedReference table) :
    p.copies = p.entry :: List.replicate (p.times - 1) p.entry := by
  have htimes : p.times = p.times - 1 + 1 := (Nat.sub_add_cancel (Nat.le_max_right _ _)).symm
  rw [copies, htimes, List.replicate_succ, Nat.add_sub_cancel]

theorem reverse_copies (p : RepeatedReference table) : p.copies.reverse = p.copies :=
  List.reverse_replicate ..

/-- The spelling of a reference with letters from `start` on. -/
def spelling (start : Char) (p : RepeatedReference table) : List UInt8 :=
  p.count.toList.flatMap decimal ++ [letterFrom start p.position]

end RepeatedReference

/-- The spelling of references: small letters for all but the last one. -/
def spelledReferences {table : Array Node} (xs : List (RepeatedReference table))
    (last : RepeatedReference table) : List UInt8 :=
  xs.flatMap (·.spelling 'a') ++ last.spelling 'A'

theorem charOfByte_lowerLetter {i : Nat} (hi : i < 26) :
    (charOfByte (letterFrom 'a' i)).isLower = true ∧
      (charOfByte (letterFrom 'a' i)).toNat - 'a'.toNat = i := by
  revert i
  decide

theorem charOfByte_upperLetter {i : Nat} (hi : i < 26) :
    (charOfByte (letterFrom 'A' i)).isLower = false ∧
      (charOfByte (letterFrom 'A' i)).isUpper = true ∧
      (charOfByte (letterFrom 'A' i)).toNat - 'A'.toNat = i := by
  revert i
  decide

theorem isDigit_letterFrom {start : Char} (hstart : start = 'a' ∨ start = 'A') {i : Nat}
    (hi : i < 26) : Cursor.isDigit (letterFrom start i) = false := by
  rcases hstart with rfl | rfl <;> (revert i; decide)

theorem charOfByte_digit {b : UInt8} (hb : Cursor.isDigit b = true) :
    (charOfByte b).isLower = false ∧ (charOfByte b).isUpper = false ∧
      (charOfByte b == '_') = false := by
  obtain ⟨d, hd, rfl⟩ := Cursor.isDigit_eq hb
  revert d
  decide

/-! ## Single steps -/

variable {r : Config} {s : State} {p rest : List UInt8} {stack stack' : List Node} {node : Node}

theorem turns_substitution {i : Nat} (hi : s.substitutions[i]? = some node) :
    Turns r s (substitution i) [] rest stack stack node :=
  fun _ => congrArg (fun m => (m, _)) hi

/-- All copies but the last are put on the stack. -/
theorem turns_repeated (x : RepeatedReference s.substitutions) :
    Turns r s (repeated x.count x.position) [] rest stack
      (List.replicate (x.times - 1) x.entry ++ stack) x.entry := by
  obtain ⟨count, position, hcount, hletter, htable⟩ := x
  have hentry : s.substitutions[position]? = some s.substitutions[position] :=
    Array.getElem?_eq_getElem htable
  have hle : count.getD 0 ≤ maxRepeatCount := by
    cases count with
    | none => exact Nat.zero_le _
    | some n => exact hcount n rfl
  have htimes : max (count.getD 0) 1 - 1 = count.getD 0 - 1 := by omega
  have hpush : Turns r s (pushCopies (count.getD 0 - 1) s.substitutions[position]) [] rest stack
      (List.replicate (count.getD 0 - 1) s.substitutions[position] ++ stack) () := fun _ => rfl
  rw [RepeatedReference.times, htimes]
  exact .step (turns_substitution hentry) (.step (.require (by simpa using hle)) (.step hpush .ret))

/-- A number is kept for what comes next. -/
theorem turns_count {n k : Nat} {count : Option Nat} (hk : k < UInt64.size)
    (hp : Clear Cursor.isDigit (p ++ rest))
    (h : Turns r s (substitutionsFrom n (some k)) p rest stack stack' node) :
    Turns r s (substitutionsFrom (n + 1) count) (decimal k ++ p) rest stack stack' node := by
  obtain ⟨b, ds, hds, hb⟩ := Cursor.decimal_eq_cons k
  obtain ⟨hlower, hupper, hunder⟩ := charOfByte_digit hb
  have hhead : (decimal k ++ p ++ rest).head? = some b := by
    rw [hds]
    rfl
  have hnumber : Turns r s (natural >>= fun k => substitutionsFrom n (some k)) (decimal k ++ p)
      rest stack stack' node := .bind (.natural hk hp) h
  rw [substitutionsFrom]
  refine .unread hhead ?_ hnumber
  rw [hlower, hupper, hunder]
  rfl

/-- A small letter puts its copies on the stack, and reading goes on without a number. -/
theorem turns_small {n : Nat} (x : RepeatedReference s.substitutions)
    (h : Turns r s (substitutionsFrom n none) p rest (x.copies ++ stack) stack' node) :
    Turns r s (substitutionsFrom (n + 1) x.count) (letterFrom 'a' x.position :: p) rest stack stack'
      node := by
  obtain ⟨hlower, hposition⟩ := charOfByte_lowerLetter x.hasLetter
  rw [x.copies_eq_cons, List.cons_append] at h
  rw [substitutionsFrom]
  refine .bind (p := [_]) .nextChar ?_
  rw [hlower, if_pos rfl, hposition]
  exact .step (turns_repeated x) (.step .push h)

/-- A capital letter ends a reference. -/
theorem turns_capital {n : Nat} (x : RepeatedReference s.substitutions) :
    Turns r s (substitutionsFrom (n + 1) x.count) [letterFrom 'A' x.position] rest stack
      (List.replicate (x.times - 1) x.entry ++ stack) x.entry := by
  obtain ⟨hlower, hupper, hposition⟩ := charOfByte_upperLetter x.hasLetter
  rw [substitutionsFrom]
  refine .last .nextChar ?_
  rw [hlower, if_neg Bool.false_ne_true, hupper, if_pos rfl, hposition]
  exact turns_repeated x

/-! ## Whole references -/

/-- The number in front of a letter is the letter's. -/
theorem turns_counted {n : Nat} {l : UInt8} (x : RepeatedReference s.substitutions)
    (hl : Cursor.isDigit l = false) (hn : (x.count.toList.flatMap decimal ++ l :: p).length ≤ n)
    (h : ∀ m, p.length ≤ m →
      Turns r s (substitutionsFrom (m + 1) x.count) (l :: p) rest stack stack' node) :
    Turns r s (substitutionsFrom n none) (x.count.toList.flatMap decimal ++ l :: p) rest stack
      stack' node := by
  cases hcount : x.count with
  -- the letter comes at once
  | none =>
    rw [hcount] at h hn
    have hlength : p.length + 1 ≤ n := hn
    obtain ⟨m, rfl⟩ := Nat.exists_eq_add_of_le' (Nat.one_le_of_lt hlength)
    exact h m (by omega)
  -- the number costs a step of its own
  | some k =>
    rw [hcount] at h hn
    obtain ⟨b, ds, hds, -⟩ := Cursor.decimal_eq_cons k
    have hlength : p.length + 2 ≤ n := by
      simp [hds] at hn
      omega
    obtain ⟨m, rfl⟩ := Nat.exists_eq_add_of_le' (show 2 ≤ n by omega)
    have hk : k < UInt64.size := Nat.lt_of_le_of_lt (x.count_le k hcount) (by decide)
    have hcounted : Turns r s (substitutionsFrom (m + 1 + 1) none) (decimal k ++ l :: p) rest stack
        stack' node := turns_count hk (.cons hl) (h m (by omega))
    simpa using hcounted

/-- The copies of all references are appended in order; the last copy of the last one is found. -/
theorem turns_references (xs : List (RepeatedReference s.substitutions))
    (last : RepeatedReference s.substitutions) {n : Nat}
    (hn : (spelledReferences xs last).length ≤ n) :
    Turns r s (substitutionsFrom n none) (spelledReferences xs last) rest stack
      (List.replicate (last.times - 1) last.entry ++
        ((xs.flatMap RepeatedReference.copies).reverse ++ stack)) last.entry := by
  -- by induction on the references in front of the last one, whose copies are on the stack by then
  induction xs generalizing n stack with
  | nil =>
    exact turns_counted last (isDigit_letterFrom (.inr rfl) last.hasLetter) hn fun _ _ =>
      turns_capital last
  | cons x xs ih =>
    have hspelling : spelledReferences (x :: xs) last =
        x.count.toList.flatMap decimal ++ letterFrom 'a' x.position ::
          spelledReferences xs last := by
      simp [spelledReferences, RepeatedReference.spelling]
    have hstack : ((x :: xs).flatMap RepeatedReference.copies).reverse ++ stack =
        (xs.flatMap RepeatedReference.copies).reverse ++ (x.copies ++ stack) := by
      simp [RepeatedReference.reverse_copies]
    rw [hspelling] at hn ⊢
    rw [hstack]
    exact turns_counted x (isDigit_letterFrom (.inl rfl) x.hasLetter) hn fun m hm =>
      turns_small x (ih hm)

/-- Behind `_` the position is 26, or comes from the number in front of it. -/
theorem turns_underscore {n : Nat} {count : Option Nat}
    (hi : s.substitutions[count.elim 26 (· + 27)]? = some node) :
    Turns r s (substitutionsFrom (n + 1) count) ['_'.toUInt8] rest stack stack node := by
  rw [substitutionsFrom]
  exact .last .nextChar (turns_substitution hi)

/-- A position on the table is read back from its letter, or from its number. -/
theorem turns_position {i : Nat} (hi : s.substitutions[i]? = some node) (hlt : i < UInt64.size)
    {n : Nat} (hn : (spelledPosition i).length ≤ n) :
    Turns r s (substitutionsFrom n none) (spelledPosition i) rest stack stack node := by
  obtain ⟨hsize, rfl⟩ := Array.getElem?_eq_some_iff.mp hi
  unfold spelledPosition at hn ⊢
  split
  -- a position below 26 is a letter, with nothing in front of it
  next hletter =>
    rw [if_pos hletter] at hn
    exact turns_references [] ⟨none, i, nofun, hletter, hsize⟩ hn
  next hletter =>
    rw [if_neg hletter] at hn
    split
    -- the letters end at 26, which is an underscore alone; further on the number counts from 27
    next h26 =>
      subst h26
      obtain ⟨m, rfl⟩ := Nat.exists_eq_add_of_le' hn
      have hposition : s.substitutions[(none : Option Nat).elim 26 (· + 27)]? =
          some s.substitutions[26] := hi
      exact turns_underscore hposition
    next h26 =>
      rw [if_neg h26] at hn
      obtain ⟨b, ds, hds, -⟩ := Cursor.decimal_eq_cons (i - 27)
      have hlength : 2 ≤ n := by
        simp [hds] at hn
        omega
      obtain ⟨m, rfl⟩ := Nat.exists_eq_add_of_le' hlength
      have hposition : s.substitutions[(some (i - 27)).elim 26 (· + 27)]? =
          some s.substitutions[i] := by
        show s.substitutions[i - 27 + 27]? = _
        rwa [Nat.sub_add_cancel (by omega)]
      exact turns_count (by omega) (.cons rfl) (turns_underscore hposition)

/-! ## The operator -/

/-- An operator at its character, which is neither padding nor a control character. -/
theorem turns_operator {b : UInt8} (hb : b ≠ padding) (hcontrol : (1 ≤ b && b ≤ 12) = false)
    (h : Turns r s (operatorOf (charOfByte b)) p rest stack stack' node) :
    Turns r s operator (b :: p) rest stack stack' node := by
  have hread : Turns r s (takeWhile (· == padding)) [] (b :: p ++ rest) stack stack [] :=
    .takeWhile nofun (.cons (by simpa using hb))
  have hskip : Turns r s skipPadding [] (b :: p ++ rest) stack stack () := .last hread .ret
  refine .step hskip (.bind (p := [b]) .nextByte ?_)
  rw [hcontrol, if_neg Bool.false_ne_true]
  exact h

/-- The letter comes first, and there is fuel for what follows it. -/
theorem turns_substitutionReference
    (h : ∀ n, p.length ≤ n → Turns r s (substitutionsFrom n none) p rest stack stack' node) :
    Turns r s operator ('A'.toUInt8 :: p) rest stack stack' node := by
  refine turns_operator (by decide) (by decide) (.step .remaining (h _ ?_))
  rw [List.length_append]
  omega

/-- References address the table exactly. The spelling of a position finds the node there, and
changes neither the stack nor the table; a position is a 64-bit number, as the size of a table is.
Repeated references append their copies in order, the very last one as what is found. -/
theorem operator_reference (r : Config) (s : State) (before rest : List UInt8) :
    (∀ (i : Nat) (h : i < s.substitutions.size), i < UInt64.size →
      operator r { s with cursor := ⟨before, 'A'.toUInt8 :: spelledPosition i ++ rest⟩ } =
        (some s.substitutions[i],
          { s with cursor := ⟨('A'.toUInt8 :: spelledPosition i).reverse ++ before, rest⟩ })) ∧
    ∀ (xs : List (RepeatedReference s.substitutions)) (last : RepeatedReference s.substitutions),
      ∃ node stack,
        operator r { s with
            cursor := ⟨before, 'A'.toUInt8 :: spelledReferences xs last ++ rest⟩ } =
          (some node, { s with
            cursor := ⟨('A'.toUInt8 :: spelledReferences xs last).reverse ++ before, rest⟩
            stack := stack }) ∧
        node :: stack = ((xs ++ [last]).flatMap RepeatedReference.copies).reverse ++ s.stack := by
  refine ⟨fun i h hlt => ?_, fun xs last => ?_⟩
  · have hrun : Turns r s operator ('A'.toUInt8 :: spelledPosition i) rest s.stack s.stack
        s.substitutions[i] :=
      turns_substitutionReference fun n hn => turns_position (Array.getElem?_eq_getElem h) hlt hn
    exact hrun before
  -- the last copy of the last reference is the result, so it stands in front of the stack
  · have hrun : Turns r s operator ('A'.toUInt8 :: spelledReferences xs last) rest s.stack
        (List.replicate (last.times - 1) last.entry ++
          ((xs.flatMap RepeatedReference.copies).reverse ++ s.stack)) last.entry :=
      turns_substitutionReference fun n hn => turns_references xs last hn
    refine ⟨_, _, hrun before, ?_⟩
    rw [List.flatMap_append, List.flatMap_singleton, List.reverse_append, last.reverse_copies,
      last.copies_eq_cons]
    simp

/-- The last of 28 nodes by its number, and two copies of the first in front of the second. -/
theorem operator_reference_number :
    let table := Array.ofFn fun i : Fin 28 => ofIndex .number (UInt64.ofNat i)
    let s := { State.start [] with substitutions := table }
    27 < s.substitutions.size ∧ 27 < UInt64.size ∧
    operator ⟨false, none⟩ { s with cursor := Cursor.ofBytes (Utf8.encode "A0_") } =
      (some (ofIndex .number 27), { s with cursor := ⟨(Utf8.encode "A0_").reverse, []⟩ }) ∧
    operator ⟨false, none⟩ { s with cursor := Cursor.ofBytes (Utf8.encode "A2aB") } =
      (some (ofIndex .number 1), { s with
        cursor := ⟨(Utf8.encode "A2aB").reverse, []⟩
        stack := [ofIndex .number 0, ofIndex .number 0] }) := by
  intro table s
  have hreference := operator_reference ⟨false, none⟩ s [] []
  obtain ⟨node, stack, hrun, hcopies⟩ :=
    hreference.2 [⟨some 2, 0, by decide, by decide, by decide⟩]
      ⟨none, 1, nofun, by decide, by decide⟩
  obtain ⟨rfl, rfl⟩ := List.cons.inj hcopies
  exact ⟨by decide, by decide, hreference.1 27 (by decide) (by decide), hrun⟩

end SwiftMangling.Current
