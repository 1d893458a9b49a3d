import Mathlib.Data.List.SplitBy
import Mathlib.Data.List.TakeWhile
import SwiftMangling.Proofs.Range.Word

/-!
# Words are the pieces between cuts

Identifiers are cut into words by what their bytes are: a cut goes before a capital that follows
something else, and around a separator. `pieces` says so of a list of bytes, with the positions of
the pieces, and `harvest_pieces` that a text has just these words.

The scan for words goes over characters, so the cuts are taken over to characters first
(`splitBy_encode`). That is possible because only ASCII characters are looked at: the first byte of
a character stands for it behind a cut, the last one before a cut, and no cut goes between the two.
Then the scan takes one part after the other (`splitFrom_eq`).
-/

namespace SwiftMangling.Word

open Decoding (charOfByte charOfByte_inj toNat_charOfByte)
open Indexed.Word (charOfByte_cases encode encode_append isEnd_of_high isStart_of_high
  isUpper_of_high length_encode piece? utf8EncodeChar_cases)
open String (utf8Len utf8Len_append utf8EncodeChar)

/-! ## Pieces -/

/-- The bytes that belong to no piece: underscores and NUL. -/
def isSeparator (b : UInt8) : Bool :=
  b == '_'.toUInt8 || b == 0

/-- The bytes `A` to `Z`. -/
def isCapital (b : UInt8) : Bool :=
  'A'.toUInt8 ≤ b && b ≤ 'Z'.toUInt8

/-- Whether there is no cut between `a` and `b`, where `b` follows `a`. -/
def joined (a b : UInt8) : Bool :=
  !isSeparator a && !isSeparator b && (isCapital a || !isCapital b)

/-- A piece of a list of bytes. -/
structure Piece where
  /-- The position of its first byte. -/
  start : Nat
  /-- Its bytes. -/
  bytes : List UInt8

/-- The position behind the last byte. -/
def Piece.stop (p : Piece) : Nat :=
  p.start + p.bytes.length

/-- A piece without the digits in front of it. -/
def Piece.dropDigits (p : Piece) : Piece :=
  ⟨p.start + (p.bytes.takeWhile Cursor.isDigit).length, p.bytes.dropWhile Cursor.isDigit⟩

/-- Parts that follow each other from `position` on, as pieces. -/
def located (position : Nat) : List (List UInt8) → List Piece
  | [] => []
  | part :: parts => ⟨position, part⟩ :: located (position + part.length) parts

/-- What cutting leaves of a list of bytes, less the separators and the digits in front of each
piece. -/
def pieces (bytes : List UInt8) : List Piece :=
  ((located 0 (bytes.splitBy joined)).filter (!·.bytes.any isSeparator)).map Piece.dropDigits

/-! ## Cuts between characters -/

/-- The characters that belong to no piece. -/
def isMark (c : Char) : Bool :=
  c == '_' || c == '\x00'

/-- Whether there is no cut between two characters that follow each other. -/
def goesOn (a b : Char) : Bool :=
  !isMark a && !isEnd b a

variable {a b c : Char} {cs rest part : List Char} {x y : UInt8} {α : Type}

theorem isStart_eq (c : Char) : isStart c = (!c.isDigit && !isMark c) := by
  simp [isStart, isMark, bne, Bool.and_assoc]

/-- All marks are ASCII. -/
theorem isMark_of_high (h : 128 ≤ c.toNat) : isMark c = false := by
  have hstart := isStart_of_high h
  rw [isStart_eq, Bool.and_eq_true] at hstart
  simpa using hstart.2

theorem isDigit_of_high (h : 128 ≤ c.toNat) : c.isDigit = false := by
  have hstart := isStart_of_high h
  rw [isStart_eq, Bool.and_eq_true] at hstart
  simpa using hstart.1

theorem isSeparator_eq (x : UInt8) : isSeparator x = isMark (charOfByte x) := by
  show (x == '_'.toUInt8 || x == 0) =
    (charOfByte x == charOfByte '_'.toUInt8 || charOfByte x == charOfByte 0)
  rw [Bool.eq_iff_iff]
  simp only [Bool.or_eq_true, beq_iff_eq, charOfByte_inj]

/-- Among the bytes of a character none but a capital letter itself is a capital letter. -/
theorem isCapital_eq (x : UInt8) : isCapital x = (charOfByte x).isUpper := by
  have hval : (charOfByte x).val.toNat = x.toNat := toNat_charOfByte x
  have hfirst : 'A'.toUInt8.toNat = 65 := rfl
  have hlast : 'Z'.toUInt8.toNat = 90 := rfl
  have hupper : (charOfByte x).isUpper = true ↔ 65 ≤ (charOfByte x).val ∧ (charOfByte x).val ≤ 90 :=
    decide_eq_true_iff
  rw [Bool.eq_iff_iff, hupper]
  simp [isCapital, UInt8.le_iff_toNat_le, UInt32.le_iff_toNat_le, hval, hfirst, hlast]

theorem isDigit_eq_isDigit (x : UInt8) : Cursor.isDigit x = (charOfByte x).isDigit := by
  have hval : (charOfByte x).val.toNat = x.toNat := toNat_charOfByte x
  simp [Cursor.isDigit, Char.isDigit, UInt8.le_iff_toNat_le, UInt32.le_iff_toNat_le, hval]

/-! ## Characters and their bytes -/

/-- Each byte of a character is in the classes that the character is in. -/
theorem classes_of_mem (hx : x ∈ utf8EncodeChar c) : isSeparator x = isMark c ∧
    isCapital x = c.isUpper ∧ Cursor.isDigit x = c.isDigit := by
  rw [isSeparator_eq, isCapital_eq, isDigit_eq_isDigit]
  rcases charOfByte_cases hx with hc | ⟨hc, hhigh⟩
  · rw [hc]
    exact ⟨rfl, rfl, rfl⟩
  · rw [isMark_of_high hc, isMark_of_high hhigh, isUpper_of_high hc, isUpper_of_high hhigh,
      isDigit_of_high hc, isDigit_of_high hhigh]
    exact ⟨rfl, rfl, rfl⟩

/-- Bytes of two characters are cut like the characters. -/
theorem joined_of_mem (hx : x ∈ utf8EncodeChar a) (hy : y ∈ utf8EncodeChar b) :
    joined x y = goesOn a b := by
  obtain ⟨hmark, hupper, -⟩ := classes_of_mem hx
  obtain ⟨hmark', hupper', -⟩ := classes_of_mem hy
  rw [joined, hmark, hupper, hmark', hupper', goesOn, isEnd, ← isMark]
  simp [Bool.and_assoc]

/-- There is no cut within a character. -/
theorem isChain_utf8EncodeChar (c : Char) :
    (utf8EncodeChar c).IsChain fun x y => joined x y := by
  rcases utf8EncodeChar_cases c with ⟨x, hx, -⟩ | ⟨hc, -⟩
  · rw [hx]
    exact List.isChain_singleton x
  · -- no byte of the character is a separator or a capital
    have hjoined : ∀ x ∈ utf8EncodeChar c, ∀ y ∈ utf8EncodeChar c, joined x y := by
      intro x hx y hy
      rw [joined_of_mem hx hy, goesOn, isMark_of_high hc, isEnd_of_high hc]
      rfl
    exact (List.pairwise_of_forall_mem_list hjoined).isChain

theorem encode_cons (c : Char) (cs : List Char) : encode (c :: cs) = utf8EncodeChar c ++ encode cs :=
  List.flatMap_cons

theorem encode_ne_nil (h : cs ≠ []) : encode cs ≠ [] := by
  obtain ⟨c, cs, rfl⟩ := List.exists_cons_of_ne_nil h
  rw [encode_cons]
  exact List.append_ne_nil_of_left_ne_nil String.utf8EncodeChar_ne_nil _

/-- What comes first is a byte of the first character. -/
theorem exists_head?_encode (h : x ∈ (encode cs).head?) : ∃ c ∈ cs.head?, x ∈ utf8EncodeChar c := by
  cases cs with
  | nil => cases h
  | cons c cs =>
    rw [encode_cons, List.head?_append_of_ne_nil _ String.utf8EncodeChar_ne_nil] at h
    exact ⟨c, rfl, List.mem_of_mem_head? h⟩

/-- What comes last is a byte of the last character. -/
theorem exists_getLast?_encode (h : x ∈ (encode cs).getLast?) :
    ∃ c ∈ cs.getLast?, x ∈ utf8EncodeChar c := by
  rcases List.eq_nil_or_concat' cs with rfl | ⟨cs, c, rfl⟩
  · cases h
  · rw [encode_append, encode_cons, show encode [] = [] from rfl, List.append_nil,
      List.getLast?_append_of_ne_nil _ String.utf8EncodeChar_ne_nil] at h
    exact ⟨c, by simp, List.mem_of_getLast? h⟩

/-- There is no cut within what goes on. -/
theorem isChain_encode (h : part.IsChain fun a b => goesOn a b) :
    (encode part).IsChain fun x y => joined x y := by
  induction part with
  | nil => exact List.isChain_nil
  | cons c cs ih =>
    rw [List.isChain_cons] at h
    rw [encode_cons, List.isChain_append]
    refine ⟨isChain_utf8EncodeChar c, ih h.2, fun x hx y hy => ?_⟩
    obtain ⟨d, hd, hy⟩ := exists_head?_encode hy
    rw [joined_of_mem (List.mem_of_getLast? hx) hy]
    exact h.1 d hd

/-! ## Parts -/

/-- A part is followed by the parts of what is behind it. -/
theorem splitBy_part_append {r : α → α → Bool} {part rest : List α} (hne : part ≠ [])
    (hchain : part.IsChain fun a b => r a b)
    (hcut : ∀ a ∈ part.getLast?, ∀ b ∈ rest.head?, r a b = false) :
    (part ++ rest).splitBy r = part :: rest.splitBy r := by
  rw [List.splitBy_append hcut, List.splitBy_of_isChain hne hchain, List.singleton_append]

/-- Induction on the parts that a list is cut into. -/
theorem induction_splitBy {motive : List α → Prop} (r : α → α → Bool) (nil : motive [])
    (append : ∀ part rest, part ≠ [] → (part.IsChain fun a b => r a b) →
      (∀ a ∈ part.getLast?, ∀ b ∈ rest.head?, r a b = false) → motive rest →
      motive (part ++ rest)) (xs : List α) : motive xs := by
  generalize hparts : xs.splitBy r = parts
  -- by induction on the parts, of which the list is put together again
  induction parts generalizing xs with
  | nil => rwa [List.splitBy_eq_nil.mp hparts]
  | cons part parts ih =>
    obtain ⟨rfl, hnil, hchains, hcuts⟩ := List.splitBy_eq_iff.mp hparts
    rw [List.mem_cons, not_or] at hnil
    refine append part parts.flatten (Ne.symm hnil.1) (hchains part (.head parts)) ?_ (ih _ ?_)
    · intro a ha b hb
      cases parts with
      | nil => cases hb
      | cons next parts =>
        obtain ⟨_, hfirst, hcut⟩ := hcuts.rel
        rw [List.flatten_cons, List.head?_append_of_ne_nil _ hfirst] at hb
        rwa [List.getLast_of_mem_getLast? ha, List.head_of_mem_head? hb] at hcut
    · exact List.splitBy_flatten hnil.2 (fun m hm => hchains m (.tail part hm)) hcuts.tail

/-- Cuts between bytes are cuts between characters. -/
theorem splitBy_encode (cs : List Char) :
    (encode cs).splitBy joined = (cs.splitBy goesOn).map encode := by
  induction cs using induction_splitBy goesOn with
  | nil => rfl
  | append part rest hne hchain hcut ih =>
    have hbytes : ∀ x ∈ (encode part).getLast?, ∀ y ∈ (encode rest).head?, joined x y = false := by
      intro x hx y hy
      obtain ⟨a, ha, hx⟩ := exists_getLast?_encode hx
      obtain ⟨b, hb, hy⟩ := exists_head?_encode hy
      rw [joined_of_mem hx hy]
      exact hcut a ha b hb
    rw [splitBy_part_append hne hchain hcut, encode_append,
      splitBy_part_append (encode_ne_nil hne) (isChain_encode hchain) hbytes, ih, List.map_cons]

/-! ## The scan -/

/-- Without a word that goes on, it does not matter what stands in front. -/
theorem splitFrom_none (a b : Char) (cs : List Char) : splitFrom a none cs = splitFrom b none cs := by
  cases cs <;> rfl

/-- Characters that start no word are passed over. -/
theorem splitFrom_append_of_not_isStart {ds : List Char} (h : ∀ d ∈ ds, isStart d = false)
    (previous : Char) : splitFrom previous none (ds ++ rest) = splitFrom previous none rest := by
  induction ds generalizing previous with
  | nil => rfl
  | cons d ds ih =>
    rw [List.forall_mem_cons] at h
    rw [List.cons_append, splitFrom, if_neg (by simp [h.1])]
    exact (ih h.2 d).trans (splitFrom_none ..)

/-- A word goes on to the next cut. -/
theorem splitFrom_append_of_isChain {word w : List Char} {last : Char}
    (hchain : (last :: w).IsChain fun a b => goesOn a b)
    (hmark : ∀ c ∈ last :: w, isMark c = false)
    (hcut : ∀ a ∈ (last :: w).getLast?, ∀ b ∈ rest.head?, goesOn a b = false) :
    splitFrom last (some word) (w ++ rest) =
      (word.reverse ++ w) :: splitFrom last none rest := by
  -- by induction on the word that is left, none of whose characters ends it
  induction w generalizing word last with
  | nil =>
    rw [List.append_nil, List.nil_append]
    cases rest with
    | nil => rfl
    | cons b rest =>
      have hend : isEnd b last = true := by
        have := hcut last rfl b rfl
        simpa [goesOn, hmark last (.head [])] using this
      show (if isEnd b last then _ else _) = _
      rw [if_pos hend]
      rfl
  | cons c w ih =>
    rw [List.isChain_cons_cons] at hchain
    have hgo : isEnd c last = false := by
      have := hchain.1
      simp [goesOn] at this
      exact this.2
    rw [List.cons_append, splitFrom, if_neg (by simp [hgo]),
      ih hchain.2 (fun d hd => hmark d (.tail last hd)) hcut, List.reverse_cons, List.append_assoc,
      splitFrom_none c last]
    rfl

/-- A word goes on neither from a mark nor to one. -/
theorem isMark_of_goesOn (h : goesOn a b = true) : isMark a = false ∧ isMark b = false := by
  rw [goesOn, isEnd, ← isMark] at h
  simp only [Bool.and_eq_true, Bool.not_eq_true', Bool.or_eq_false_iff] at h
  exact ⟨h.1, h.2.1⟩

/-- A part with a separator is that separator. -/
theorem eq_singleton_of_isMark (hchain : part.IsChain fun a b => goesOn a b)
    (h : part.any isMark = true) : ∃ m, part = [m] ∧ isMark m = true := by
  induction part with
  | nil => cases h
  | cons a part ih =>
    cases part with
    | nil => exact ⟨a, rfl, by simpa using h⟩
    | cons b part =>
      obtain ⟨hgo, hchain⟩ := List.isChain_cons_cons.mp hchain
      obtain ⟨ha, hb⟩ := isMark_of_goesOn hgo
      rw [List.any_cons, ha, Bool.false_or] at h
      -- the separator would be `b`, and nothing goes on to it
      obtain ⟨m, hpart, hm⟩ := ih hchain h
      rw [List.cons_eq_cons.mp hpart |>.1, hm] at hb
      cases hb

/-- Of a part without separators, the scan finds what is behind the digits in front. -/
theorem splitFrom_part_append (hchain : part.IsChain fun a b => goesOn a b)
    (hmark : ∀ c ∈ part, isMark c = false)
    (hcut : ∀ a ∈ part.getLast?, ∀ b ∈ rest.head?, goesOn a b = false) (previous : Char) :
    splitFrom previous none (part ++ rest) =
      [part.dropWhile Char.isDigit].filter (!·.isEmpty) ++ splitFrom previous none rest := by
  have hdigits : ∀ d ∈ part.takeWhile Char.isDigit, isStart d = false := fun d hd => by
    rw [isStart_eq, List.mem_takeWhile_imp hd]
    rfl
  have hfirst := List.head?_dropWhile_not Char.isDigit part
  obtain ⟨ds, hpart⟩ : ∃ ds, part = ds ++ part.dropWhile Char.isDigit ∧
      ∀ d ∈ ds, isStart d = false :=
    ⟨_, (List.takeWhile_append_dropWhile ..).symm, hdigits⟩
  generalize part.dropWhile Char.isDigit = word at hfirst hpart ⊢
  obtain ⟨rfl, hds⟩ := hpart
  rw [List.append_assoc, splitFrom_append_of_not_isStart hds]
  cases word with
  | nil => rfl
  | cons c w =>
    -- what is behind the digits in front is neither a digit nor a separator
    have hstart : isStart c = true := by
      have hc := hmark c (by simp)
      simp [isStart_eq, hc, show c.isDigit = false from hfirst]
    have hlast : (ds ++ c :: w).getLast? = (c :: w).getLast? :=
      List.getLast?_append_of_ne_nil _ (List.cons_ne_nil c w)
    rw [hlast] at hcut
    rw [List.cons_append, splitFrom, if_pos hstart,
      splitFrom_append_of_isChain hchain.right_of_append (fun d hd => hmark d (by simp_all)) hcut,
      splitFrom_none c previous]
    rfl

/-- The scan finds what is left of each part. -/
theorem splitFrom_eq (previous : Char) (cs : List Char) :
    splitFrom previous none cs =
      (((cs.splitBy goesOn).filter (!·.any isMark)).map (·.dropWhile Char.isDigit)).filter
        (!·.isEmpty) := by
  induction cs using induction_splitBy goesOn with
  | nil => rfl
  | append part rest hne hchain hcut ih =>
    rw [splitBy_part_append hne hchain hcut]
    cases hmark : part.any isMark with
    -- a part with a mark is the mark alone, which starts no word
    | true =>
      obtain ⟨m, rfl, hm⟩ := eq_singleton_of_isMark hchain hmark
      rw [List.filter_cons_of_neg (by simp [hmark]), ← ih]
      exact splitFrom_append_of_not_isStart (by simp [isStart_eq, hm]) previous
    -- a part without a mark is a word without the digits in front of it
    | false =>
      have hmarks : ∀ c ∈ part, isMark c = false := by simpa using hmark
      have hkept : (part :: rest.splitBy goesOn).filter (!·.any isMark) =
          part :: (rest.splitBy goesOn).filter (!·.any isMark) :=
        List.filter_cons_of_pos (by rw [hmark]; rfl)
      rw [splitFrom_part_append hchain hmarks hcut, ih, hkept, List.map_cons, ← List.filter_append]
      rfl

/-! ## Pieces of texts -/

/-- Separators are characters of one byte. -/
theorem any_isSeparator_encode (cs : List Char) :
    (encode cs).any isSeparator = cs.any isMark := by
  have hchar : ∀ c, (utf8EncodeChar c).any isSeparator = isMark c := by
    intro c
    rw [Bool.eq_iff_iff, List.any_eq_true]
    refine ⟨fun ⟨x, hx, hsep⟩ => (classes_of_mem hx).1 ▸ hsep, fun hmark => ?_⟩
    obtain ⟨x, xs, hx⟩ := List.exists_cons_of_ne_nil (String.utf8EncodeChar_ne_nil (c := c))
    have hx : x ∈ utf8EncodeChar c := hx ▸ List.mem_cons_self
    exact ⟨x, hx, (classes_of_mem hx).1.trans hmark⟩
  rw [encode, List.any_flatMap, funext hchar]

/-- The digits in front of a text are the ones in front of its bytes. -/
theorem digits_encode (cs : List Char) :
    (encode cs).takeWhile Cursor.isDigit = encode (cs.takeWhile Char.isDigit) ∧
      (encode cs).dropWhile Cursor.isDigit = encode (cs.dropWhile Char.isDigit) := by
  -- by induction on the text; the bytes of a character are digits if it is one, and the first is
  -- none otherwise
  induction cs with
  | nil => exact ⟨rfl, rfl⟩
  | cons c cs ih =>
    rw [encode_cons]
    cases hc : c.isDigit with
    | true =>
      have hdigits : ∀ x ∈ utf8EncodeChar c, Cursor.isDigit x = true := fun x hx =>
        (classes_of_mem hx).2.2.trans hc
      rw [List.takeWhile_cons_of_pos hc, List.dropWhile_cons_of_pos hc, encode_cons,
        List.takeWhile_append_of_pos hdigits, List.dropWhile_append_of_pos hdigits, ih.1, ih.2]
      exact ⟨rfl, rfl⟩
    | false =>
      obtain ⟨x, xs, hx⟩ := List.exists_cons_of_ne_nil (String.utf8EncodeChar_ne_nil (c := c))
      have hdigit : ¬ Cursor.isDigit x = true := by
        rw [(classes_of_mem (hx ▸ List.mem_cons_self)).2.2, hc]
        exact Bool.false_ne_true
      have hc : ¬ c.isDigit = true := Bool.not_eq_true _ ▸ hc
      rw [List.takeWhile_cons_of_neg hc, List.dropWhile_cons_of_neg hc, encode_cons, hx,
        List.cons_append, List.takeWhile_cons_of_neg hdigit, List.dropWhile_cons_of_neg hdigit]
      exact ⟨rfl, rfl⟩

/-- The text of a piece of `text`, if it lies on character boundaries. -/
def Piece.text? (text : String) (p : Piece) : Option String :=
  piece? text.toList p.start p.stop

/-- `word` is what stands in a text at the place of a piece. -/
structure Piece.IsText (text : String) (p : Piece) (word : String) : Prop where
  text : p.text? text = some word
  bytes : Utf8.encode word = p.bytes

/-- The part behind `pre`, without the digits in front of it. -/
theorem isText_dropDigits (pre part rest : List Char) :
    (Piece.dropDigits ⟨utf8Len pre, encode part⟩).IsText (String.ofList (pre ++ part ++ rest))
      (String.ofList (part.dropWhile Char.isDigit)) := by
  obtain ⟨htake, hdrop⟩ := digits_encode part
  have hpart := List.takeWhile_append_dropWhile (p := Char.isDigit) (l := part)
  have hstart : utf8Len pre + (encode (part.takeWhile Char.isDigit)).length =
      utf8Len (pre ++ part.takeWhile Char.isDigit) := by
    rw [length_encode, utf8Len_append]
  -- the digits go to the text in front of the piece
  have htext : pre ++ part ++ rest =
      (pre ++ part.takeWhile Char.isDigit) ++ (part.dropWhile Char.isDigit ++ rest) := by
    rw [List.append_assoc, List.append_assoc, ← List.append_assoc (part.takeWhile _), hpart]
  rw [Piece.dropDigits, htake, hdrop, hstart]
  refine ⟨?_, congrArg encode String.toList_ofList⟩
  rw [Piece.text?, Piece.stop, piece?, String.toList_ofList, htext, Nat.add_sub_cancel_left,
    length_encode, Access.after_utf8Len, Option.bind_some, Access.before_utf8Len]
  rfl

/-- What is left of parts without the separators and the digits in front of each part. -/
def left (parts : List (List Char)) : List String :=
  ((parts.filter (!·.any isMark)).map (·.dropWhile Char.isDigit)).map String.ofList

/-- The pieces of a text are what is left of its parts. The induction is on the parts, with the text
in front of them. -/
theorem forall₂_located (pre : List Char) (parts : List (List Char)) :
    List.Forall₂ (Piece.IsText (String.ofList (pre ++ parts.flatten)))
      (((located (utf8Len pre) (parts.map encode)).filter (!·.bytes.any isSeparator)).map
        Piece.dropDigits) (left parts) := by
  induction parts generalizing pre with
  | nil => exact .nil
  | cons part parts ih =>
    have hnext : utf8Len pre + (encode part).length = utf8Len (pre ++ part) := by
      rw [length_encode, utf8Len_append]
    have ih := ih (pre ++ part)
    rw [List.map_cons, located, hnext, List.flatten_cons, ← List.append_assoc, left]
    cases hmark : part.any isMark with
    | true =>
      rw [List.filter_cons_of_neg (by simp [any_isSeparator_encode, hmark]),
        List.filter_cons_of_neg (by rw [hmark]; decide)]
      exact ih
    | false =>
      rw [List.filter_cons_of_pos (by simp [any_isSeparator_encode, hmark]),
        List.filter_cons_of_pos (by rw [hmark]; decide)]
      exact .cons (isText_dropDigits pre part parts.flatten) ih

/-! ## Words -/

/-- The words that later identifiers can name are the pieces that are long enough. -/
theorem split_eq (text : String) :
    split text = (left (text.toList.splitBy goesOn)).filter (2 ≤ ·.utf8ByteSize) := by
  rw [split, splitFrom_eq, left]
  generalize ((text.toList.splitBy goesOn).filter (!·.any isMark)).map (·.dropWhile Char.isDigit) =
    words
  rw [List.filter_map, List.filter_map, List.filter_filter]
  refine congrArg _ (List.filter_congr fun word _ => ?_)
  -- a piece that is empty is too short as well
  cases word with
  | nil => rfl
  | cons c w => exact Bool.and_true _

/-- A text adds to the table the pieces that it is cut into. There is a word for each piece, in the
order of the text: it is what stands in the text at the place of the piece, which therefore lies on
character boundaries. The words of at least two bytes are put behind the words that the table holds,
as long as there is room for them. The scan over the bytes finds this table as well, so it loses no
word to a slice that fails. -/
theorem harvest_pieces (table : List String) (text : String) :
    (∃ words, List.Forall₂ (Piece.IsText text) (pieces (Utf8.encode text)) words ∧
      harvest table text =
        table ++ (words.filter (2 ≤ ·.utf8ByteSize)).take (tableSize - table.length)) ∧
      ∀ fault, Indexed.Word.harvest fault table text = some (harvest table text) := by
  refine ⟨⟨left (text.toList.splitBy goesOn), ?_, by rw [harvest, split_eq]⟩,
    fun fault => Indexed.Word.harvest_eq table text⟩
  have hpieces := forall₂_located [] (text.toList.splitBy goesOn)
  rwa [List.nil_append, List.flatten_splitBy, String.ofList_toList, ← splitBy_encode] at hpieces

/-- Digits in front and single letters are no words, and a run of capitals is one word. -/
example : harvest [] "2ndURLSession_x_élan" = ["nd", "URLSession", "élan"] := by decide +kernel

end SwiftMangling.Word
