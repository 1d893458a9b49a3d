import SwiftMangling.Current.Word
import SwiftMangling.Proofs.Decoding
import SwiftMangling.Proofs.Range.Text

/-!
# Words by their positions

The words of an identifier are found by going through the bytes of its text with the position at
which the present word has started. The byte before the present one is looked at, and the distance
to the start is taken, only while a word is going on, and then there are bytes before the present
one. Words start and end next to characters of one byte, or at the ends of the text, so they are
never cut through a character.
-/

namespace SwiftMangling.Indexed.Word

open Access SwiftMangling.Word
open Decoding (charOfByte toNat_charOfByte)
open String (utf8Len utf8Len_append utf8Len_cons utf8Len_nil utf8EncodeChar)

/-- The text between the bytes at two positions, if characters end there. -/
def piece? (text : List Char) (i j : Nat) : Option String :=
  ((after text i).bind (before · (j - i))).map String.ofList

/-- Looks at one position of the text, where `start` is the position at which a word that is going
on has started, and `table` holds the words found so far. -/
def visit (fault : Fault Option) (text : List Char) (bytes : List UInt8) (position : Nat)
    (start : Option Nat) (table : List String) : Option (Option Nat × List String) := do
  let c := charOfByte (bytes[position]?.getD 0)
  let (start, table) ←
    match start with
    | none => pure (none, table)
    | some first => do
      let previous ← found fault bytes[← found fault (sub position 1)]?
      if isEnd c (charOfByte previous) then
        let length ← found fault (sub position first)
        if 2 ≤ length && table.length < tableSize then
          pure (none, table ++ (piece? text first position).toList)
        else pure (none, table)
      else pure (some first, table)
  if start.isNone && isStart c then return (some position, table) else return (start, table)

/-- Looks at `n` positions, one after the other. -/
def visitFrom (fault : Fault Option) (text : List Char) (bytes : List UInt8) :
    Nat → Nat → Option Nat → List String → Option (List String)
  | 0, _, _, table => some table
  | n + 1, position, start, table => do
    let (start, table) ← visit fault text bytes position start table
    visitFrom fault text bytes n (position + 1) start table

/-- `SwiftMangling.Word.harvest` by the positions of the bytes. -/
def harvest (fault : Fault Option) (table : List String) (text : String) : Option (List String) :=
  let bytes := Utf8.encode text
  visitFrom fault text.toList bytes (bytes.length + 1) 0 none table

/-! ## Bytes and characters -/

/-- What is not ASCII starts words and ends none. -/
theorem isStart_of_high {c : Char} (h : 128 ≤ c.toNat) : isStart c = true := by
  have hne (d : Char) (hd : d.toNat < 128) : c ≠ d := by
    rintro rfl
    omega
  have hdigit : c.isDigit = false := by
    have : ¬ c.toNat ≤ 57 := by omega
    unfold Char.isDigit
    rw [Bool.and_eq_false_iff]
    exact .inr (decide_eq_false this)
  simp [isStart, hdigit, hne '_' (by decide), hne '\x00' (by decide)]

theorem isUpper_of_high {c : Char} (h : 128 ≤ c.toNat) : c.isUpper = false := by
  have : ¬ c.toNat ≤ 90 := by omega
  exact decide_eq_false fun hupper => this hupper.2

/-- A word does not end at a character of more than one byte. -/
theorem isEnd_of_high {c : Char} (h : 128 ≤ c.toNat) (previous : Char) :
    isEnd c previous = false := by
  have hne (d : Char) (hd : d.toNat < 128) : c ≠ d := by
    rintro rfl
    omega
  simp [isEnd, isUpper_of_high h, hne '_' (by decide), hne '\x00' (by decide)]

/-- A character is one byte, or its bytes are not ASCII. -/
theorem utf8EncodeChar_cases (c : Char) :
    (∃ b, utf8EncodeChar c = [b] ∧ charOfByte b = c) ∨
      128 ≤ c.toNat ∧ ∀ b ∈ utf8EncodeChar c, 128 ≤ (charOfByte b).toNat := by
  have hhigh (v : Nat) (h : 128 ≤ v % 256) : 128 ≤ (charOfByte (UInt8.ofNat v)).toNat := by
    rw [toNat_charOfByte, UInt8.toNat_ofNat']
    exact h
  have hval : c.val.toNat = c.toNat := rfl
  unfold utf8EncodeChar
  dsimp only
  rw [hval]
  split
  next h =>
    refine .inl ⟨_, rfl, Char.toNat_inj.mp ?_⟩
    rw [toNat_charOfByte, UInt8.toNat_ofNat', Nat.mod_eq_of_lt (by omega)]
  next h =>
    refine .inr ⟨by omega, ?_⟩
    split
    -- every byte of a longer encoding has its high bit set
    · intro b hb
      simp only [List.mem_cons, List.not_mem_nil, or_false] at hb
      rcases hb with rfl | rfl <;> exact hhigh _ (by omega)
    · split
      · intro b hb
        simp only [List.mem_cons, List.not_mem_nil, or_false] at hb
        rcases hb with rfl | rfl | rfl <;> exact hhigh _ (by omega)
      · intro b hb
        simp only [List.mem_cons, List.not_mem_nil, or_false] at hb
        rcases hb with rfl | rfl | rfl | rfl <;> exact hhigh _ (by omega)

/-- The bytes of a text. -/
def encode (cs : List Char) : List UInt8 :=
  cs.flatMap utf8EncodeChar

theorem length_encode (cs : List Char) : (encode cs).length = utf8Len cs := by
  induction cs with
  | nil => rfl
  | cons c cs ih =>
    rw [encode, List.flatMap_cons, List.length_append, String.length_utf8EncodeChar, ← encode, ih,
      utf8Len_cons]
    omega

theorem encode_append (cs ds : List Char) : encode (cs ++ ds) = encode cs ++ encode ds :=
  List.flatMap_append

/-- The bytes of the character behind `pre`. -/
theorem getElem?_encode (pre cs : List Char) (c : Char) {i : Nat} (h : i < c.utf8Size) :
    (encode (pre ++ c :: cs))[utf8Len pre + i]? = (utf8EncodeChar c)[i]? := by
  have hlength : i < (utf8EncodeChar c).length := by rwa [String.length_utf8EncodeChar]
  rw [encode_append, List.getElem?_append_right (by rw [length_encode]; omega), length_encode,
    Nat.add_sub_cancel_left, encode, List.flatMap_cons, List.getElem?_append_left hlength]

/-- A byte of a character is the character, or neither of them is ASCII. -/
theorem charOfByte_cases {c : Char} {b : UInt8} (hb : b ∈ utf8EncodeChar c) :
    charOfByte b = c ∨ 128 ≤ c.toNat ∧ 128 ≤ (charOfByte b).toNat := by
  rcases utf8EncodeChar_cases c with ⟨b', hb', hc⟩ | ⟨hc, hall⟩
  · rw [hb', List.mem_singleton] at hb
    exact .inl (hb ▸ hc)
  · exact .inr ⟨hc, hall b hb⟩

/-- The first byte of a character stands for it where words start and end. -/
theorem exists_first (c : Char) : ∃ b, (utf8EncodeChar c)[0]? = some b ∧
    isStart (charOfByte b) = isStart c ∧
      ∀ previous, isEnd (charOfByte b) previous = isEnd c previous := by
  obtain ⟨b, bs, hb⟩ := List.exists_cons_of_ne_nil (String.utf8EncodeChar_ne_nil (c := c))
  refine ⟨b, by rw [hb]; rfl, ?_⟩
  rcases charOfByte_cases (hb ▸ List.mem_cons_self) with hc | ⟨hc, hhigh⟩
  · rw [hc]
    exact ⟨rfl, fun _ => rfl⟩
  · rw [isStart_of_high hhigh, isStart_of_high hc]
    exact ⟨rfl, fun previous => by rw [isEnd_of_high hhigh, isEnd_of_high hc]⟩

/-- The last byte of a character stands for it behind which words end. -/
theorem exists_last (c : Char) : ∃ b, (utf8EncodeChar c)[c.utf8Size - 1]? = some b ∧
    ∀ next, isEnd next (charOfByte b) = isEnd next c := by
  have hlt : c.utf8Size - 1 < (utf8EncodeChar c).length := by
    have := c.utf8Size_pos
    rw [String.length_utf8EncodeChar]
    omega
  refine ⟨_, List.getElem?_eq_getElem hlt, fun next => ?_⟩
  rcases charOfByte_cases (List.getElem_mem hlt) with hc | ⟨hc, hhigh⟩
  · rw [hc]
  · rw [isEnd, isEnd, isUpper_of_high hc, isUpper_of_high hhigh]

/-! ## One position -/

variable {fault : Fault Option} {text : List Char} {bytes : List UInt8} {position first n : Nat}
  {table : List String} {b previous : UInt8}

/-- The table with a word that it has room for. -/
def add (table : List String) (word : String) : List String :=
  if 2 ≤ word.utf8ByteSize && table.length < tableSize then table ++ [word] else table

/-- Words of one byte are left out, and so are those for which the table has no place. -/
theorem foldl_add (words : List String) (table : List String) : words.foldl add table =
    table ++ (words.filter (2 ≤ ·.utf8ByteSize)).take (tableSize - table.length) := by
  induction words generalizing table with
  | nil => simp
  | cons w words ih =>
    rw [List.foldl_cons, ih, add]
    by_cases hlong : 2 ≤ w.utf8ByteSize
    · by_cases hroom : table.length < tableSize
      · have hleft : tableSize - table.length = (tableSize - (table.length + 1)) + 1 := by omega
        simp [hlong, hroom, hleft]
      · have hleft : tableSize - table.length = 0 := by omega
        simp [hlong, hroom, hleft]
    · simp [hlong]

theorem visit_none (hb : bytes[position]?.getD 0 = b) :
    visit fault text bytes position none table =
      some (if isStart (charOfByte b) then some position else none, table) := by
  rw [visit, hb]
  cases isStart (charOfByte b) <;> simp

/-- Where a word is going on, there is a byte before the present one, and the start is before it. -/
theorem visit_some (hb : bytes[position]?.getD 0 = b) (hpos : 0 < position)
    (hprevious : bytes[position - 1]? = some previous) (hfirst : first ≤ position) :
    visit fault text bytes position (some first) table =
      if isEnd (charOfByte b) (charOfByte previous) then
        some (if isStart (charOfByte b) then some position else none,
          if 2 ≤ position - first && table.length < tableSize then
            table ++ (piece? text first position).toList
          else table)
      else some (some first, table) := by
  rw [visit, hb]
  simp only [sub_of_le (Nat.succ_le_of_lt hpos), sub_of_le hfirst, found_some, hprevious,
    Option.pure_def, Option.bind_eq_bind, Option.bind_some]
  -- both sides are the same three conditions, so every case is computed
  cases isEnd (charOfByte b) (charOfByte previous) with
  | false => rfl
  | true =>
    rw [if_pos rfl, if_pos rfl]
    cases 2 ≤ position - first && decide (table.length < tableSize) <;>
      cases isStart (charOfByte b) <;> simp

/-! ## All positions -/

/-- Bytes that are not ASCII go on with a word. -/
theorem visitFrom_high {k : Nat}
    (hall : ∀ i < k, ∃ b, bytes[position + i]? = some b ∧ 128 ≤ (charOfByte b).toNat)
    (hpos : 0 < position) (hprevious : bytes[position - 1]? = some previous)
    (hfirst : first ≤ position) :
    visitFrom fault text bytes (k + n) position (some first) table =
      visitFrom fault text bytes n (position + k) (some first) table := by
  -- by induction on the number of bytes, each of which has one that is not ASCII in front of it or
  -- the start of the word
  induction k generalizing position previous with
  | zero => rw [Nat.zero_add, Nat.add_zero]
  | succ k ih =>
    obtain ⟨b, hb, hhigh⟩ := hall 0 (Nat.succ_pos k)
    rw [Nat.add_zero] at hb
    have hbyte : bytes[position]?.getD 0 = b := by rw [hb]; rfl
    rw [Nat.succ_add, visitFrom, visit_some hbyte hpos hprevious hfirst, isEnd_of_high hhigh]
    have hnext : ∀ i < k, ∃ b, bytes[position + 1 + i]? = some b ∧
        128 ≤ (charOfByte b).toNat := fun i hi => by
      have := hall (i + 1) (by omega)
      rwa [show position + (i + 1) = position + 1 + i by omega] at this
    have := ih hnext (Nat.succ_pos _) hb (by omega)
    rw [show position + (k + 1) = position + 1 + k by omega]
    exact this

/-- Behind its first byte, a character changes nothing. -/
theorem visitFrom_rest (pre cs : List Char) (c : Char) {start : Option Nat}
    (hnone : start = none → c.utf8Size = 1) (hfirst : ∀ first ∈ start, first ≤ utf8Len pre) :
    visitFrom fault text (encode (pre ++ c :: cs)) (c.utf8Size - 1 + n) (utf8Len pre + 1) start
        table =
      visitFrom fault text (encode (pre ++ c :: cs)) n (utf8Len pre + c.utf8Size) start table := by
  have hpos := c.utf8Size_pos
  by_cases hone : c.utf8Size = 1
  · rw [hone, Nat.zero_add]
  · cases start with
    | none => exact absurd (hnone rfl) hone
    | some first =>
      obtain ⟨b, hb, -⟩ := exists_first c
      -- a character with a second byte is not ASCII, and so are all its bytes
      have hhigh : ∀ b ∈ utf8EncodeChar c, 128 ≤ (charOfByte b).toNat := by
        rcases utf8EncodeChar_cases c with ⟨b, hb, -⟩ | ⟨-, hall⟩
        · rw [← String.length_utf8EncodeChar, hb] at hone
          exact absurd rfl hone
        · exact hall
      have hall : ∀ i < c.utf8Size - 1, ∃ b,
          (encode (pre ++ c :: cs))[utf8Len pre + 1 + i]? = some b ∧
            128 ≤ (charOfByte b).toNat := fun i hi => by
        have hlt : 1 + i < (utf8EncodeChar c).length := by
          rw [String.length_utf8EncodeChar]
          omega
        refine ⟨(utf8EncodeChar c)[1 + i], ?_, hhigh _ (List.getElem_mem hlt)⟩
        rw [Nat.add_assoc, getElem?_encode pre cs c (by omega), List.getElem?_eq_getElem hlt]
      have hprevious : (encode (pre ++ c :: cs))[utf8Len pre + 1 - 1]? = some b := by
        rw [← hb]
        exact getElem?_encode pre cs c hpos
      rw [visitFrom_high hall (Nat.succ_pos _) hprevious
          (Nat.le_succ_of_le (hfirst first rfl)),
        show utf8Len pre + 1 + (c.utf8Size - 1) = utf8Len pre + c.utf8Size by omega]

/-- The word `word`, last character first, is going on behind `pre`, and has started at the byte
`start`. -/
def Going (pre : List Char) : Option Nat → Option (List Char) → Prop
  | none, none => True
  | some first, some word =>
    word ≠ [] ∧ ∃ front, pre = front ++ word.reverse ∧ first = utf8Len front
  | _, _ => False

/-- A word that is going on has a byte before the present one and is as long as the positions
say. -/
theorem visit_going {pre cs word : List Char} {last : Char} (h : Going pre (some first) (some word))
    (hlast : word.head? = some last)
    (hb : (encode (pre ++ cs))[utf8Len pre]?.getD 0 = b) :
    visit fault (pre ++ cs) (encode (pre ++ cs)) (utf8Len pre) (some first) table =
      if isEnd (charOfByte b) last then
        some (if isStart (charOfByte b) then some (utf8Len pre) else none,
          add table (String.ofList word.reverse))
      else some (some first, table) := by
  obtain ⟨-, front, rfl, rfl⟩ := h
  obtain ⟨word, rfl⟩ : ∃ w, word = last :: w := by
    cases word with
    | nil => cases hlast
    | cons c w => exact ⟨w, by rw [Option.some.inj hlast]⟩
  obtain ⟨b', hb', hend⟩ := exists_last last
  have hsize := last.utf8Size_pos
  have hlength : utf8Len (front ++ (last :: word).reverse) =
      utf8Len (front ++ word.reverse) + last.utf8Size := by
    rw [List.reverse_cons, ← List.append_assoc, utf8Len_append _ [last]]
    simp
  have hfront : utf8Len (front ++ (last :: word).reverse) =
      utf8Len front + utf8Len (last :: word).reverse := utf8Len_append ..
  -- the byte before the position is the last one of the last character
  have hprevious : (encode (front ++ (last :: word).reverse ++ cs))[
      utf8Len (front ++ (last :: word).reverse) - 1]? = some b' := by
    rw [hlength, Nat.add_sub_assoc hsize, ← hb',
      ← getElem?_encode (front ++ word.reverse) cs last (by omega)]
    simp
  -- from the start of the word to the position there are exactly its characters
  have hpiece : piece? (front ++ (last :: word).reverse ++ cs) (utf8Len front)
      (utf8Len (front ++ (last :: word).reverse)) = some (String.ofList (last :: word).reverse) := by
    rw [piece?, hfront, Nat.add_sub_cancel_left, List.append_assoc, after_utf8Len,
      Option.bind_some, before_utf8Len]
    rfl
  have hbytes : utf8Len (last :: word).reverse =
      (String.ofList (last :: word).reverse).utf8ByteSize :=
    (congrArg String.Pos.Raw.byteIdx (String.rawEndPos_ofList _)).symm
  rw [visit_some hb (by omega) hprevious (by omega), hend, hpiece, hfront,
    Nat.add_sub_cancel_left, hbytes]
  rfl

/-- No word is going on, or one that has started behind `front`. -/
theorem Going.cases {pre : List Char} {start : Option Nat} {word : Option (List Char)}
    (h : Going pre start word) : start = none ∧ word = none ∨
      ∃ front w, w ≠ [] ∧ pre = front ++ w.reverse ∧ start = some (utf8Len front) ∧
        word = some w := by
  match start, word, h with
  | none, none, _ => exact .inl ⟨rfl, rfl⟩
  | some _, some w, ⟨hne, front, hpre, hfirst⟩ =>
    exact .inr ⟨front, w, hne, hpre, congrArg some hfirst, rfl⟩

/-- A word that is going on has started before the present byte. -/
theorem Going.le {pre : List Char} {start : Option Nat} {word : Option (List Char)}
    (h : Going pre start word) : ∀ first ∈ start, first ≤ utf8Len pre := by
  rintro first rfl
  rcases h.cases with ⟨hnone, -⟩ | ⟨front, w, -, rfl, hstart, -⟩
  · cases hnone
  · obtain rfl := Option.some.inj hstart
    rw [utf8Len_append]
    exact Nat.le_add_right ..

/-- Characters of more than one byte start words. -/
theorem utf8Size_of_not_isStart {c : Char} (h : isStart c = false) : c.utf8Size = 1 := by
  rcases utf8EncodeChar_cases c with ⟨b, hb, -⟩ | ⟨hhigh, -⟩
  · rw [← String.length_utf8EncodeChar, hb]
    rfl
  · rw [isStart_of_high hhigh] at h
    cases h

/-- The bytes of `cs` behind `pre` tell the words that the characters tell, whatever word is going
on in front of them. -/
def Tells (fault : Fault Option) (pre cs : List Char) (last : Char) : Prop :=
  ∀ start word table, Going pre start word → (∀ w ∈ word, w.head? = some last) →
    visitFrom fault (pre ++ cs) (encode (pre ++ cs)) (utf8Len cs + 1) (utf8Len pre) start table =
      some (((splitFrom last word cs).map String.ofList).foldl add table)

/-- Behind the last byte, a word that is going on ends. -/
theorem tells_nil (pre : List Char) (last : Char) : Tells fault pre [] last := by
  intro start word table hgoing hlast
  have hbyte : (encode (pre ++ []))[utf8Len pre]?.getD 0 = 0 := by
    rw [List.append_nil, List.getElem?_eq_none (Nat.le_of_eq (length_encode pre))]
    rfl
  rcases hgoing.cases with ⟨rfl, rfl⟩ | ⟨front, w, -, -, rfl, rfl⟩
  · rw [utf8Len_nil, visitFrom, visit_none hbyte]
    rfl
  · rw [utf8Len_nil, visitFrom, visit_going hgoing (hlast w rfl) hbyte]
    rfl

namespace Tells

variable {pre cs : List Char} {c : Char} {start : Option Nat} {word : Option (List Char)}

/-- What is left of a character behind its first byte changes nothing. -/
theorem behind (h : Tells fault (pre ++ [c]) cs c) (hgoing : Going (pre ++ [c]) start word)
    (hlast : ∀ w ∈ word, w.head? = some c) (hnone : start = none → c.utf8Size = 1)
    (hfirst : ∀ first ∈ start, first ≤ utf8Len pre) (table : List String) :
    visitFrom fault (pre ++ c :: cs) (encode (pre ++ c :: cs)) (c.utf8Size - 1 + (utf8Len cs + 1))
        (utf8Len pre + 1) start table =
      some (((splitFrom c word cs).map String.ofList).foldl add table) := by
  have htext : pre ++ c :: cs = (pre ++ [c]) ++ cs := by simp
  have hnext : utf8Len pre + c.utf8Size = utf8Len (pre ++ [c]) := by
    rw [utf8Len_append]
    simp
  rw [visitFrom_rest pre cs c hnone hfirst, htext, hnext]
  exact h start word table hgoing hlast

/-- Where no word is going on, the character starts one or it does not. -/
theorem fresh (h : Tells fault (pre ++ [c]) cs c) (table : List String) :
    visitFrom fault (pre ++ c :: cs) (encode (pre ++ c :: cs)) (c.utf8Size - 1 + (utf8Len cs + 1))
        (utf8Len pre + 1) (if isStart c then some (utf8Len pre) else none) table =
      some (((if isStart c then splitFrom c (some [c]) cs else splitFrom c none cs).map
        String.ofList).foldl add table) := by
  cases hs : isStart c with
  | true =>
    have hgoing : Going (pre ++ [c]) (some (utf8Len pre)) (some [c]) := ⟨by simp, pre, rfl, rfl⟩
    refine h.behind hgoing (fun w hw => ?_) nofun (fun first hf => ?_) table
    · obtain rfl := Option.some.inj hw
      rfl
    · obtain rfl := Option.some.inj hf
      exact Nat.le_refl _
  | false =>
    have hgoing : Going (pre ++ [c]) none none := trivial
    exact h.behind hgoing nofun (fun _ => utf8Size_of_not_isStart hs) nofun table

/-- The first byte of a character decides what becomes of the word in front of it. -/
theorem cons (h : Tells fault (pre ++ [c]) cs c) (last : Char) :
    Tells fault pre (c :: cs) last := by
  intro start word table hgoing hlast
  obtain ⟨b, hb, hstart, hend⟩ := exists_first c
  have hbyte : (encode (pre ++ c :: cs))[utf8Len pre]?.getD 0 = b := by
    have := getElem?_encode pre cs c c.utf8Size_pos
    rw [Nat.add_zero, hb] at this
    rw [this]
    rfl
  have hlength : utf8Len (c :: cs) + 1 = (c.utf8Size - 1 + (utf8Len cs + 1)) + 1 := by
    have hpos := c.utf8Size_pos
    rw [utf8Len_cons]
    omega
  rw [hlength, visitFrom]
  rcases hgoing.cases with ⟨rfl, rfl⟩ | ⟨front, w, hne, hpre, rfl, rfl⟩
  · rw [visit_none hbyte, hstart]
    exact h.fresh table
  · rw [visit_going hgoing (hlast w rfl) hbyte, hend, hstart, splitFrom]
    cases isEnd c last with
    | true => exact h.fresh _
    | false =>
      -- the word goes on with the character
      have hlonger : Going (pre ++ [c]) (some (utf8Len front)) (some (c :: w)) :=
        ⟨by simp, front, by simp [hpre], rfl⟩
      refine h.behind hlonger (fun v hv => ?_) nofun hgoing.le table
      obtain rfl := Option.some.inj hv
      rfl

end Tells

/-- The bytes tell the words that the characters tell, by induction on the characters to come. -/
theorem tells (pre cs : List Char) (last : Char) : Tells fault pre cs last := by
  induction cs generalizing pre last with
  | nil => exact tells_nil pre last
  | cons c cs ih => exact (ih (pre ++ [c]) c).cons last

theorem harvest_eq (table : List String) (text : String) :
    harvest fault table text = some (SwiftMangling.Word.harvest table text) := by
  have hgoing : Going [] none none := trivial
  have h := @tells fault [] text.toList '\x00' none none table hgoing nofun
  rw [foldl_add] at h
  rw [SwiftMangling.Word.harvest, split, ← h, harvest]
  show visitFrom fault text.toList (encode text.toList) ((encode text.toList).length + 1) 0 none
    table = _
  rw [length_encode]
  rfl

end SwiftMangling.Indexed.Word
