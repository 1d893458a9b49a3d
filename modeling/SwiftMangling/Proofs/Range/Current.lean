import SwiftMangling.Current.BoundGeneric
import SwiftMangling.Current.Conformance
import SwiftMangling.Current.Identifier
import SwiftMangling.Current.Specialization
import SwiftMangling.Current.Substitution
import SwiftMangling.Proofs.Range.Text

/-!
# Accesses of the stack decoder

Letters are positions in the tables of nodes and words, counted from the first letter; an index
that counts from 2 is a number of a conformance; an underscore in front of the name of a string is
cut off; and the lists of generic arguments are gone through by position. Each position is computed
only where the character, the index or the number of lists has been looked at.
-/

namespace SwiftMangling.Indexed.Current

open Access Decoding
open SwiftMangling.Current

/-! ## Letters -/

/-- The distance of a letter from the first one, as a position. -/
theorem sub_of_isLower {c : Char} (h : c.isLower = true) :
    sub c.toNat 'a'.toNat = some (c.toNat - 'a'.toNat) :=
  sub_of_le (of_decide_eq_true (Bool.and_eq_true_iff.mp h).1)

theorem sub_of_isUpper {c : Char} (h : c.isUpper = true) :
    sub c.toNat 'A'.toNat = some (c.toNat - 'A'.toNat) :=
  sub_of_le (of_decide_eq_true h).1

variable {fault : Fault (Decoding Config State)}

/-- `SwiftMangling.Current.substitutionsFrom` with the differences of its letters. -/
def substitutionsFrom (fault : Fault (Decoding Config State)) (n : Nat) (count : Option Nat) :
    Decoder Node :=
  match n with
  | 0 => failure
  | n + 1 => do
    let c ← nextChar
    if c.isLower then
      push (← repeated count (← found fault (sub c.toNat 'a'.toNat)))
      substitutionsFrom fault n none
    else if c.isUpper then
      repeated count (← found fault (sub c.toNat 'A'.toNat))
    else if c == '_' then
      substitution (count.elim 26 (· + 27))
    else
      pushBack
      substitutionsFrom fault n (some (← natural))

theorem substitutionsFrom_eq (n : Nat) (count : Option Nat) :
    substitutionsFrom fault n count = SwiftMangling.Current.substitutionsFrom n count := by
  induction n generalizing count with
  | zero => rfl
  | succ n ih =>
    rw [substitutionsFrom, SwiftMangling.Current.substitutionsFrom]
    refine bind_congr fun c => ?_
    -- a letter is no less than the first one, so its position is a difference in range
    by_cases hlower : c.isLower = true
    · rw [if_pos hlower, if_pos hlower, sub_of_isLower hlower, found_some, pure_bind]
      simp only [ih]
    · rw [if_neg hlower, if_neg hlower]
      by_cases hupper : c.isUpper = true
      · rw [if_pos hupper, if_pos hupper, sub_of_isUpper hupper, found_some, pure_bind]
      · rw [if_neg hupper, if_neg hupper]
        simp only [ih]

/-- `SwiftMangling.Current.namedWord` with the difference of its letter. -/
def namedWord (fault : Fault (Decoding Config State)) (c : Char) : Decoder String := do
  let number ←
    if c.isLower then found fault (sub c.toNat 'a'.toNat)
    else found fault (sub c.toNat 'A'.toNat)
  ofOption (← get).words[number]?

/-- A word is named by a letter, which is a small one or a capital one. -/
theorem namedWord_eq {c : Char} (h : c.isAlpha = true) :
    namedWord fault c = SwiftMangling.Current.namedWord c := by
  unfold namedWord SwiftMangling.Current.namedWord
  by_cases hlower : c.isLower = true
  · rw [if_pos hlower, if_pos hlower, sub_of_isLower hlower]
    rfl
  · have hupper : c.isUpper = true := by
      have := Bool.or_eq_true_iff.mp h
      exact this.resolve_right hlower
    rw [if_neg hlower, if_neg hlower, sub_of_isUpper hupper]
    rfl

/-- `SwiftMangling.Current.identifierPieces` with the differences of its letters. -/
def identifierPieces (fault : Fault (Decoding Config State)) (punycoded : Bool) (n : Nat)
    (wordsFollow : Bool) (read : String) : Decoder String :=
  match n with
  | 0 => failure
  | n + 1 => do
    if wordsFollow && (← peekChar?).any Char.isAlpha then
      let c ← nextChar
      let word ← namedWord fault c
      identifierPieces fault punycoded n c.isLower (read ++ word)
    else if ← nextIf '0' then
      return read
    else
      let piece ← identifierText punycoded
      if wordsFollow then identifierPieces fault punycoded n true (read ++ piece)
      else return read ++ piece

/-- What follows a look at the next character has to agree only for the character that is there. -/
theorem peekChar?_bind_congr {α : Type} {f g : Option Char → Decoder α}
    (h : ∀ r s c, s.cursor.peek?.map charOfByte = c → f c r s = g c r s) :
    peekChar? >>= f = peekChar? >>= g :=
  funext fun r => funext fun s => h r s _ rfl

/-- The character that is read is the one that was looked at. -/
theorem nextChar_bind_congr {α : Type} {f g : Char → Decoder α} {r : Config} {s : State} {c : Char}
    (hpeek : s.cursor.peek?.map charOfByte = some c) (h : f c = g c) :
    (nextChar >>= f) r s = (nextChar >>= g) r s := by
  obtain ⟨⟨before, rest⟩, stack, substitutions, words, references⟩ := s
  cases rest with
  | nil => cases hpeek
  | cons b rest =>
    obtain rfl : charOfByte b = c := Option.some.inj hpeek
    show f (charOfByte b) r _ = g (charOfByte b) r _
    rw [h]

theorem identifierPieces_eq (punycoded : Bool) (n : Nat) (wordsFollow : Bool) (read : String) :
    identifierPieces fault punycoded n wordsFollow read =
      SwiftMangling.Current.identifierPieces punycoded n wordsFollow read := by
  induction n generalizing wordsFollow read with
  | zero => rfl
  | succ n ih =>
    rw [identifierPieces, SwiftMangling.Current.identifierPieces]
    simp only [ih]
    refine peekChar?_bind_congr fun r s next hnext => ?_
    by_cases hletter : (wordsFollow && next.any Char.isAlpha) = true
    · obtain ⟨-, hany⟩ := Bool.and_eq_true_iff.mp hletter
      obtain ⟨c, rfl, halpha⟩ : ∃ c, next = some c ∧ c.isAlpha = true := by
        cases next with
        | none => cases hany
        | some c => exact ⟨c, rfl, hany⟩
      rw [if_pos hletter, if_pos hletter]
      refine nextChar_bind_congr hnext ?_
      rw [namedWord_eq halpha]
    · rw [if_neg hletter, if_neg hletter]

/-! ## Numbers and names -/

/-- `SwiftMangling.Current.conformanceIndex` with its difference. -/
def conformanceIndex (fault : Fault (Decoding Config State)) : Decoder Node := do
  match ← index with
  | 0 => failure
  | 1 => return .leaf .unknownIndex
  | i => return .ofIndex .index (UInt64.ofNat (← found fault (sub i 2)))

theorem conformanceIndex_eq :
    conformanceIndex fault = SwiftMangling.Current.conformanceIndex := by
  refine bind_congr fun i => ?_
  match i with
  | 0 | 1 => rfl
  | n + 2 =>
    have h : sub (n + 2) 2 = some n := sub_of_le (Nat.le_add_left ..)
    simp only [h]
    rfl

/-- `SwiftMangling.Current.constantName` with the cut behind its first byte. -/
def constantName (c : ParamChange) (s : String) : Except Failure String := do
  if c == .constantString && s.toList.head? == some '_' then
    return String.ofList (← inRange (after s.toList 1))
  else return s

/-- The byte that is cut off is all of a character. -/
theorem constantName_eq (c : ParamChange) (s : String) :
    constantName c s = .ok (SwiftMangling.Current.constantName c s) := by
  have hcut (cs : List Char) : after ('_' :: cs) 1 = some cs := after_utf8Len ['_'] cs
  unfold constantName
  by_cases h : (c == .constantString && s.toList.head? == some '_') = true
  · obtain ⟨hc, hs⟩ := Bool.and_eq_true_iff.mp h
    obtain rfl := beq_iff_eq.mp hc
    obtain ⟨cs, hs⟩ := List.head?_eq_some_iff.mp (beq_iff_eq.mp hs)
    rw [if_pos h, SwiftMangling.Current.constantName.eq_def, hs, hcut]
    rfl
  · rw [if_neg h, SwiftMangling.Current.constantName.eq_def]
    split
    · rename_i cs hs
      exact absurd (by simp [hs]) h
    · rfl

/-! ## Lists of arguments -/

/-- `SwiftMangling.Current.bindArguments` for the lists from position `i` on, which are looked up
by their positions. -/
def bindArguments (lists : List Node) (i : Nat) (n : Node) : Except Failure Node :=
  if lists.length ≤ i then .error .refused
  else if n.kind == .typeSymbolicReference || n.kind == .protocolSymbolicReference then do
    let remaining ← inRange (Access.slice lists i lists.length)
    return .branch .boundGenericOtherNominalType
      [.typeOf n, .branch .typeList (remaining.reverse.flatMap Node.children)]
  else
    match _h : n.children with
    | [] => .error .refused
    | context :: parts => do
      let arguments ← inRange lists[i]?
      let consumes := !takesNoArguments n.kind
      let next := if consumes then i + 1 else i
      let rebuilt :=
        if lists.length ≤ next then .ok n
        else
          let bound :=
            if context.kind == .extension then
              match _he : context.children with
              | m :: extended :: more =>
                (bindArguments lists next extended).map fun b =>
                  .branch .extension (m :: b :: more.take 1)
              | _ => .error .refused
            else bindArguments lists next context
          bound.map fun b => .branch n.kind (b :: parts)
      if !consumes || arguments.count == 0 then rebuilt
      else
        let b ← rebuilt
        orRefuse (bindOne? b arguments)
termination_by sizeOf n
decreasing_by
  · have h1 := @Node.sizeOf_lt_of_mem_children context n (by simp [_h])
    have h2 := @Node.sizeOf_lt_of_mem_children extended context (by simp [_he])
    omega
  · exact Node.sizeOf_lt_of_mem_children (by simp [_h])

/-- The position stays below the number of lists wherever a list is looked up. -/
theorem bindArguments_eq (lists : List Node) (i : Nat) (n : Node) :
    bindArguments lists i n =
      orRefuse (SwiftMangling.Current.bindArguments n (lists.drop i)) := by
  rw [bindArguments, SwiftMangling.Current.bindArguments.eq_def]
  by_cases hi : lists.length ≤ i
  · rw [if_pos hi, List.drop_of_length_le hi]
    rfl
  · have hlt : i < lists.length := Nat.lt_of_not_le hi
    have hdrop : lists.drop i = lists[i] :: lists.drop (i + 1) := List.drop_eq_getElem_cons hlt
    rw [if_neg hi, hdrop]
    dsimp only
    by_cases hreference :
        (n.kind == .typeSymbolicReference || n.kind == .protocolSymbolicReference) = true
    · rw [if_pos hreference, if_pos hreference, slice_drop (Nat.le_of_lt hlt), hdrop]
      rfl
    · rw [if_neg hreference, if_neg hreference]
      obtain ⟨kind, payload, children, height⟩ := n
      cases children with
      | nil => rfl
      | cons context parts =>
        -- what is left behind this declaration starts at the next position
        have hleft : (if (!takesNoArguments kind) = true then lists.drop (i + 1)
            else lists[i] :: lists.drop (i + 1)) =
              lists.drop (if (!takesNoArguments kind) = true then i + 1 else i) := by
          rw [← hdrop]
          split <;> rfl
        rw [List.getElem?_eq_getElem hlt]
        dsimp only [inRange_some, ok_bind]
        rw [hleft, bindArguments_eq lists _ context]
        simp only [List.isEmpty_iff, List.drop_eq_nil_iff, ← Option.bind_eq_bind, orRefuse_bind,
          orRefuse_map, apply_ite orRefuse, orRefuse_some]
        obtain ⟨_, _, _ | ⟨m, _ | ⟨extended, more⟩⟩, _⟩ := context
        · rfl
        · rfl
        · dsimp only
          rw [bindArguments_eq lists _ extended, orRefuse_map]
termination_by sizeOf n

end SwiftMangling.Indexed.Current
