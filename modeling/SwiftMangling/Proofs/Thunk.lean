import SwiftMangling.Symbol.Facts
import SwiftMangling.Proofs.Current.Continuation

/-!
# Thunks and what they forward to

Two letters behind a symbol of the current scheme make it a thunk. They do to its tree what the
attribute does that they stand for, and the text without them is the symbol that the thunk forwards
to.
-/

namespace SwiftMangling

open Node Current

/-- The endings that turn a symbol into a thunk for it, with their attributes. -/
def attributeEndings : List (String × Kind) :=
  [("TA", .partialApplyForwarder), ("Ta", .partialApplyObjCForwarder), ("To", .objCAttribute),
   ("TO", .nonObjCAttribute)]

theorem encode_append (a b : String) : Utf8.encode (a ++ b) = Utf8.encode a ++ Utf8.encode b := by
  simp [Utf8.encode]

/-- An attribute behind a symbol stands in front of what the root holds, or encloses it. -/
theorem decode_append_attribute {symbol : List UInt8} {root : Node}
    (hsymbol : Scheme.prefixLength symbol ≠ 0) (h : decode symbol = some root)
    (hsuffix : ∀ c ∈ root.children, c.kind ≠ .suffix) {text : String} {k : Kind}
    (hk : (text, k) ∈ attributeEndings) :
    decode (symbol ++ Utf8.encode text) = some (branch .global
      (if isForwarder k then [branch k root.children] else leaf k :: root.children)) := by
  -- each of the endings is one operator, which pushes the node of the attribute
  have hoperator : ∀ e ∈ attributeEndings, ∀ (r : Config) (s : State),
      s.cursor.rest = Utf8.encode e.1 → ∃ c : Cursor, c.rest = [] ∧
        operator r s = (some (leaf e.2), { s with cursor := c }) := by
    intro e he r s hs
    obtain ⟨⟨before, rest⟩, stack, substitutions, words, references⟩ := s
    obtain rfl : rest = _ := hs
    simp only [attributeEndings, List.mem_cons, List.not_mem_nil, or_false] at he
    rcases he with rfl | rfl | rfl | rfl
    all_goals exact ⟨⟨_ :: _ :: before, []⟩, rfl, rfl⟩
  have hending : ∀ e ∈ attributeEndings, Utf8.encode e.1 ≠ [] ∧
      (Utf8.encode e.1).head? = some 'T'.toUInt8 ∧ e.2.isFunctionAttribute = true := by
    decide
  obtain ⟨hne, hhead, hattribute⟩ := hending _ hk
  have : Ending (Utf8.encode text) :=
    ⟨fun b hb => .inl (Option.some.inj (hb.symm.trans hhead))⟩
  rw [decode_of_current hsymbol] at h
  -- what the ending does to the tree is what its node does on top of the stack
  obtain ⟨stack, hroot, htree⟩ := decodeSymbol_append_operator (x := Utf8.encode text)
    (leaf k) hsymbol h hsuffix hne (by rw [height_leaf]; decide) (hoperator _ hk)
  rw [decode_of_current (by rwa [Scheme.prefixLength_append hsymbol]), htree,
    root?_attribute hattribute hroot]

namespace Symbol

/-- A text ends with another one of the same length as what it was made to end with exactly if the
two are the same. -/
theorem endsWith_append {a b : String} (text : String) (h : a.toList.length = b.toList.length) :
    endsWith (text ++ a) b = true ↔ a = b := by
  rw [endsWith, List.isSuffixOf_iff_suffix, String.toList_append]
  refine ⟨fun hb => ?_, fun hab => hab ▸ List.suffix_append _ _⟩
  have hsuffix : b.toList <:+ a.toList :=
    List.suffix_of_suffix_length_le hb (List.suffix_append _ _) (by omega)
  exact String.toList_inj.mp (hsuffix.eq_of_length h.symm).symm

theorem dropLast_append (text a : String) : dropLast (text ++ a) a.toList.length = text := by
  simp [dropLast]

theorem isCurrent_append {text : String} (h : isCurrent text = true) (a : String) :
    isCurrent (text ++ a) = true := by
  have hlength : Scheme.prefixLength (Utf8.encode text) ≠ 0 := by simpa [isCurrent] using h
  simpa [isCurrent, encode_append, Scheme.prefixLength_append hlength] using hlength

theorem first?_of_decode {symbol : String} {c : Node} {cs : List Node}
    (h : decode (Utf8.encode symbol) = some (branch .global (c :: cs))) :
    (root? symbol).bind Node.first? = some c := by
  rw [root?, h]
  rfl

/-- A symbol with one of the endings is a thunk, and the symbol is what it forwards to. -/
theorem thunkTarget_append {symbol text : String} {k : Kind} {root : Node}
    (hsymbol : isCurrent symbol = true) (h : decode (Utf8.encode symbol) = some root)
    (hsuffix : ∀ c ∈ root.children, c.kind ≠ .suffix) (hk : (text, k) ∈ attributeEndings) :
    isThunk (symbol ++ text) = true ∧ thunkTarget (symbol ++ text) = symbol := by
  have hlength : Scheme.prefixLength (Utf8.encode symbol) ≠ 0 := by simpa [isCurrent] using hsymbol
  have hfacts : ∀ e ∈ attributeEndings, e.1 ∈ thunkEndings ∧ isThunkKind e.2 = true ∧
      e.1.toList.length = 2 ∧ e.1 ≠ "TR" ∧ e.1 ≠ "Tr" ∧ e.1 ≠ "TW" ∧ e.1 ≠ "fC" := by
    decide
  obtain ⟨hmem, hkind, htwo, hR, hr, hW, hC⟩ := hfacts _ hk
  -- both the ending and the first node of the tree name a thunk
  have hthunk : isThunk (symbol ++ text) = true := by
    have hdecode := decode_append_attribute hlength h hsuffix hk
    rw [← encode_append] at hdecode
    have hends : thunkEndings.any (endsWith (symbol ++ text)) = true :=
      List.any_eq_true.mpr ⟨text, hmem, (endsWith_append symbol rfl).mpr rfl⟩
    have hfirst : ((root? (symbol ++ text)).bind Node.first?).any (isThunkKind ·.kind) = true := by
      split at hdecode
      · rw [first?_of_decode hdecode]
        exact hkind
      · rw [first?_of_decode hdecode]
        exact hkind
    rw [isThunk, if_pos (isCurrent_append hsymbol text), hends, hfirst]
    rfl
  -- no ending that is treated in its own way fits, so two letters are taken away
  have hother (b : String) (hb : b.toList.length = 2) (hne : text ≠ b) :
      endsWith (symbol ++ text) b = false := by
    rw [Bool.eq_false_iff]
    exact fun he => hne ((endsWith_append symbol (htwo.trans hb.symm)).mp he)
  refine ⟨hthunk, ?_⟩
  rw [thunkTarget, hthunk, isCurrent_append hsymbol text]
  simp only [Bool.not_true, Bool.false_eq_true, if_false, if_true, List.any_cons, List.any_nil,
    hother "TR" rfl hR, hother "Tr" rfl hr, hother "TW" rfl hW, hother "fC" rfl hC, Bool.or_false]
  rw [← htwo, dropLast_append]

end Symbol

/-- The letters of a forwarder or of an attribute behind a symbol make it a thunk, whose tree holds
the children of the symbol's tree below the forwarder or after the attribute. Taking the letters
away gives the target of the thunk. -/
theorem decode_append_thunk {symbol : String} {root : Node}
    (hsymbol : Symbol.isCurrent symbol = true) (h : decode (Utf8.encode symbol) = some root)
    (hsuffix : ∀ c ∈ root.children, c.kind ≠ .suffix) :
    root = branch .global root.children ∧
    decode (Utf8.encode (symbol ++ "TA")) =
      some (branch .global [branch .partialApplyForwarder root.children]) ∧
    decode (Utf8.encode (symbol ++ "Ta")) =
      some (branch .global [branch .partialApplyObjCForwarder root.children]) ∧
    decode (Utf8.encode (symbol ++ "To")) =
      some (branch .global (leaf .objCAttribute :: root.children)) ∧
    decode (Utf8.encode (symbol ++ "TO")) =
      some (branch .global (leaf .nonObjCAttribute :: root.children)) ∧
    ∀ text ∈ ["TA", "Ta", "To", "TO"], Symbol.isThunk (symbol ++ text) = true ∧
      Symbol.thunkTarget (symbol ++ text) = symbol := by
  have hlength : Scheme.prefixLength (Utf8.encode symbol) ≠ 0 := by
    simpa [Symbol.isCurrent] using hsymbol
  have hdecode (text : String) (k : Kind) (hk : (text, k) ∈ attributeEndings) :=
    decode_append_attribute hlength h hsuffix hk
  simp only [← encode_append] at hdecode
  refine ⟨?_, hdecode _ .partialApplyForwarder (by decide),
    hdecode _ .partialApplyObjCForwarder (by decide), hdecode _ .objCAttribute (by decide),
    hdecode _ .nonObjCAttribute (by decide), fun text htext => ?_⟩
  · rw [decode_of_current hlength] at h
    exact eq_branch_of_decodeSymbol hlength h
  -- each of the four endings is one of those that make a thunk
  · have hk : ∀ text ∈ ["TA", "Ta", "To", "TO"], ∃ e ∈ attributeEndings, e.1 = text := by decide
    obtain ⟨e, he, rfl⟩ := hk text htext
    exact Symbol.thunkTarget_append hsymbol h hsuffix he

theorem decode_append_thunk_function :
    Symbol.isCurrent "$s4main3fooyyFTo" = true ∧ ∃ root,
      decode (Utf8.encode "$s4main3fooyyFTo") = some root ∧
      (∀ c ∈ root.children, c.kind ≠ .suffix) ∧
      decode (Utf8.encode ("$s4main3fooyyFTo" ++ "TA")) =
        some (branch .global [branch .partialApplyForwarder root.children]) ∧
      Symbol.thunkTarget ("$s4main3fooyyFTo" ++ "TA") = "$s4main3fooyyFTo" := by
  have hsymbol : Symbol.isCurrent "$s4main3fooyyFTo" = true := by decide
  have hdecoded : (decode (Utf8.encode "$s4main3fooyyFTo")).any
      (·.children.all (·.kind != .suffix)) = true := by decide +kernel
  obtain ⟨root, hroot⟩ : ∃ root, decode (Utf8.encode "$s4main3fooyyFTo") = some root :=
    Option.isSome_iff_exists.mp (Option.isSome_of_any hdecoded)
  have hsuffix : ∀ c ∈ root.children, c.kind ≠ .suffix := by
    rw [hroot] at hdecoded
    simpa using hdecoded
  have hthunk := decode_append_thunk hsymbol hroot hsuffix
  exact ⟨hsymbol, root, hroot, hsuffix, hthunk.2.1, (hthunk.2.2.2.2.2 "TA" (by decide)).2⟩

end SwiftMangling
