import Mathlib.Data.String.Basic
import Mathlib.Data.List.Chain
import SwiftMangling.Document

/-!
# Rewriting a text token by token

`replaceSymbols` computes byte ranges in a text and edits the text from its end. A `Division` is the
text cut into its delimiters and its tokens, and `replaceSymbols_eq_rewrite` shows that the edits
amount to rewriting a division piece by piece. What is said about whole texts is derived from there:
a delimiter cuts the rewriting in two, rewriting twice is rewriting once where the renderings of the
tokens stay as they are, and a single token is rewritten to what `showSymbol` shows unless it is
rendered as nothing.
-/

namespace SwiftMangling.Document

/-- What a token is rewritten to: the rendering of its tree, if it is a symbol that has a tree and
the tree can be rendered, and itself otherwise. -/
def rewriteToken (options : Options) (token : String) : String :=
  if Symbol.isMangled token then
    match decode (Utf8.encode token) with
    | none => token
    | some tree =>
      match render options tree with
      | .ok rendering => rendering
      | .error _ => token
  else token

theorem rewriteToken_eq (options : Options) (token : String) :
    rewriteToken options token = (replacement? options token).getD token := by
  unfold rewriteToken replacement? renderSymbol?
  split
  · cases decode (Utf8.encode token) with
    | none => rfl
    | some tree =>
      dsimp only [Option.bind_some]
      cases render options tree <;> rfl
  · rfl

/-- A delimiter of a text, or characters of it without a delimiter. -/
inductive Piece where
  | delimiter (c : Char) (h : isDelimiter c = true)
  | token (cs : List Char) (ne_nil : cs ≠ []) (h : ∀ c ∈ cs, isDelimiter c = false)

namespace Piece

/-- The characters of a piece. -/
def chars : Piece → List Char
  | delimiter c _ => [c]
  | token cs _ _ => cs

/-- The text of a piece. -/
def text (p : Piece) : String :=
  String.ofList p.chars

/-- The text of a piece that is rewritten: a delimiter stays. -/
def rewrite (options : Options) : Piece → String
  | p@(delimiter ..) => p.text
  | p@(token ..) => rewriteToken options p.text

/-- The text of a piece that is a token. -/
def token? : Piece → Option String
  | delimiter .. => none
  | p@(token ..) => some p.text

/-- Whether two pieces can stand next to each other: two tokens would be one. -/
def Separate : Piece → Piece → Prop
  | token .., token .. => False
  | _, _ => True

@[simp] theorem separate_delimiter {c : Char} {h : isDelimiter c = true} (p : Piece) :
    Separate (delimiter c h) p :=
  trivial

@[simp] theorem separate_delimiter_right {c : Char} {h : isDelimiter c = true} (p : Piece) :
    Separate p (delimiter c h) := by
  cases p <;> trivial

end Piece

/-- A text cut into delimiters and tokens, where every token goes as far as it can. -/
structure Division (text : String) where
  /-- The pieces in the order of the text. -/
  pieces : List Piece
  /-- The pieces are the whole text. -/
  join : String.join (pieces.map Piece.text) = text
  /-- No two tokens stand next to each other. -/
  maximal : pieces.IsChain Piece.Separate

/-- The text with every piece rewritten. -/
def Division.rewrite (options : Options) {text : String} (d : Division text) : String :=
  String.join (d.pieces.map (Piece.rewrite options))

/-- The tokens of a text, in order. -/
def Division.tokens {text : String} (d : Division text) : List String :=
  d.pieces.filterMap Piece.token?

/-! ## Every text has a division -/

/-- The pieces of a text after one more character in front of it. -/
def push (c : Char) (ps : List Piece) : List Piece :=
  if hc : isDelimiter c then .delimiter c hc :: ps
  else
    match ps with
    | .token cs _ h :: rest =>
      .token (c :: cs) (List.cons_ne_nil c cs) (by simpa using ⟨by simpa using hc, h⟩) :: rest
    | ps => .token [c] (List.cons_ne_nil c []) (by simpa using hc) :: ps

/-- Putting a character in front adds it in front of what is there. -/
theorem flatMap_push (c : Char) (ps : List Piece) :
    (push c ps).flatMap Piece.chars = c :: ps.flatMap Piece.chars := by
  unfold push
  split
  · simp [Piece.chars]
  · split <;> simp [Piece.chars]

/-- A character that is put in front goes to the first word, or stands alone before it. -/
theorem isChain_push (c : Char) {ps : List Piece} (h : ps.IsChain Piece.Separate) :
    (push c ps).IsChain Piece.Separate := by
  unfold push
  split
  next hc => exact h.cons fun p _ => Piece.separate_delimiter p
  next hc =>
    split
    next cs _ _ rest =>
      -- the longer token has the same neighbour
      rw [List.isChain_cons] at h ⊢
      refine ⟨fun p hp => ?_, h.2⟩
      have hseparate := h.1 p hp
      cases p with
      | delimiter => trivial
      | token => exact hseparate.elim
    next ps hps =>
      refine h.cons fun p hp => ?_
      cases p with
      | delimiter => trivial
      | token cs hne hcs =>
        obtain ⟨rest, rfl⟩ := List.head?_eq_some_iff.mp hp
        exact absurd rfl (hps cs hne hcs rest)

theorem join_map_text (ps : List Piece) :
    String.join (ps.map Piece.text) = String.ofList (ps.flatMap Piece.chars) := by
  induction ps with
  | nil => rfl
  | cons p ps ih => simp [Piece.text, String.join_cons, ih]

/-- The pieces of a text. -/
def divide (text : String) : Division text where
  pieces := text.toList.foldr push []
  join := by
    have hchars : ∀ cs : List Char, (cs.foldr push []).flatMap Piece.chars = cs := by
      intro cs
      induction cs with
      | nil => rfl
      | cons c cs ih => rw [List.foldr_cons, flatMap_push, ih]
    rw [join_map_text, hchars, String.ofList_toList]
  maximal := by
    induction text.toList with
    | nil => exact List.IsChain.nil
    | cons c cs ih => exact isChain_push c ih

/-! ## Ranges -/

open String (utf8Len)

/-- The range of a text that follows another one. -/
def Span.after (l t : List Char) : Span :=
  ⟨⟨utf8Len l⟩, ⟨utf8Len (l ++ t)⟩⟩

/-- A range between two texts cuts out what stands between them. -/
theorem Span.slice_after (l t r : List Char) :
    (Span.after l t).slice (String.ofList (l ++ t ++ r)) = String.ofList t := by
  rw [Span.slice, Span.after, String.utf8Len_append]
  exact String.extract_of_valid l t r

theorem Span.replace_after (l t r : List Char) (new : String) :
    (Span.after l t).replace (String.ofList (l ++ t ++ r)) new =
      String.ofList l ++ new ++ String.ofList r := by
  have hfront := String.extract_of_valid [] l (t ++ r)
  have hback := String.extract_of_valid (l ++ t) r []
  simp only [List.nil_append, List.append_nil, String.utf8Len_nil, Nat.zero_add,
    ← List.append_assoc] at hfront hback
  rw [Span.replace, Span.after, String.rawEndPos_ofList, String.utf8Len_append (l ++ t) r, hback,
    ← hfront]
  rfl

/-- The place behind a text and one more character. -/
theorem utf8Len_concat (l : List Char) (c : Char) :
    (⟨utf8Len l⟩ : String.Pos.Raw) + c = ⟨utf8Len (l ++ [c])⟩ := by
  rw [String.utf8Len_append, String.utf8Len_cons, String.utf8Len_nil, Nat.zero_add]
  rfl

/-- A token that is going on ends at the next delimiter, or with the text. -/
theorem spansFrom_token {s : String.Pos.Raw} (l : List Char) {t r : List Char}
    (ht : ∀ c ∈ t, isDelimiter c = false) (hr : ∀ c ∈ r.head?, isDelimiter c = true) :
    spansFrom ⟨utf8Len l⟩ (some s) (t ++ r) =
      ⟨s, ⟨utf8Len (l ++ t)⟩⟩ :: spansFrom ⟨utf8Len (l ++ t)⟩ none r := by
  induction t generalizing l with
  | nil =>
    cases r with
    | nil => simp [spansFrom]
    | cons c r => simp [spansFrom, hr c rfl]
  | cons c t ih =>
    obtain ⟨hc, ht⟩ := List.forall_mem_cons.mp ht
    rw [List.cons_append, spansFrom, hc, utf8Len_concat]
    simpa using ih (l ++ [c]) ht

/-- The first span of characters that start with a token is the one of that token. -/
theorem spansFrom_none_token (l : List Char) {t r : List Char} (hne : t ≠ [])
    (ht : ∀ c ∈ t, isDelimiter c = false) (hr : ∀ c ∈ r.head?, isDelimiter c = true) :
    spansFrom ⟨utf8Len l⟩ none (t ++ r) =
      Span.after l t :: spansFrom ⟨utf8Len (l ++ t)⟩ none r := by
  obtain ⟨c, t, rfl⟩ := List.exists_cons_of_ne_nil hne
  obtain ⟨hc, ht⟩ := List.forall_mem_cons.mp ht
  rw [List.cons_append, spansFrom, hc, utf8Len_concat]
  simpa [Span.after] using spansFrom_token (s := ⟨utf8Len l⟩) (l ++ [c]) ht hr

/-- After a token comes a delimiter, or the end of the text. -/
theorem isDelimiter_of_isChain {cs : List Char} {hne : cs ≠ []}
    {h : ∀ c ∈ cs, isDelimiter c = false} {ps : List Piece}
    (hchain : (Piece.token cs hne h :: ps).IsChain Piece.Separate) :
    ∀ c ∈ (ps.flatMap Piece.chars).head?, isDelimiter c = true := by
  cases ps with
  | nil => simp
  | cons p ps =>
    have hsep := (List.isChain_cons_cons.mp hchain).1
    cases p with
    | delimiter c hc => simpa [Piece.chars] using hc
    | token => exact hsep.elim

/-! ## The edits are the rewriting of the pieces -/

/-- An edit of a token that follows `l`, where what comes after the token has been edited. -/
theorem replaceSpan_after (options : Options) (l : List Char) {t : List Char} (r : List Char)
    (rest : String) (hne : t ≠ []) (ht : ∀ c ∈ t, isDelimiter c = false) :
    replaceSpan options (String.ofList (l ++ t ++ r)) (Span.after l t)
        (String.ofList (l ++ t) ++ rest) =
      String.ofList l ++ (Piece.rewrite options (.token t hne ht) ++ rest) := by
  -- what was edited lies behind the token, so the places up to its end are the same
  have hedited : String.ofList (l ++ t) ++ rest = String.ofList (l ++ t ++ rest.toList) := by
    rw [← String.toList_inj, String.toList_append, String.toList_ofList, String.toList_ofList]
  have hrewrite : Piece.rewrite options (.token t hne ht) =
      (replacement? options (String.ofList t)).getD (String.ofList t) := rewriteToken_eq options _
  rw [hrewrite]
  unfold replaceSpan
  rw [Span.slice_after]
  cases replacement? options (String.ofList t) with
  | none => simp [String.append_assoc]
  | some new =>
    show (Span.after l t).replace (String.ofList (l ++ t) ++ rest) new = _
    rw [hedited, Span.replace_after, String.ofList_toList, String.append_assoc]
    rfl

/-- The edits of the spans behind `l` leave `l` alone and rewrite what follows it piece by piece. -/
theorem foldr_replaceSpan (options : Options) (ps : List Piece) (l : List Char)
    (hps : ps.IsChain Piece.Separate) :
    (spansFrom ⟨utf8Len l⟩ none (ps.flatMap Piece.chars)).foldr
        (replaceSpan options (String.ofList (l ++ ps.flatMap Piece.chars)))
        (String.ofList (l ++ ps.flatMap Piece.chars)) =
      String.ofList l ++ String.join (ps.map (Piece.rewrite options)) := by
  -- the invariant: what stands in front of the spans is still the original text
  induction ps generalizing l with
  | nil => simp [spansFrom]
  | cons p ps ih =>
    have htail := hps.tail
    rw [List.flatMap_cons, List.map_cons, String.join_cons]
    cases p with
    | delimiter c hc =>
      have hspans : spansFrom ⟨utf8Len l⟩ none (c :: ps.flatMap Piece.chars) =
          spansFrom ⟨utf8Len (l ++ [c])⟩ none (ps.flatMap Piece.chars) := by
        rw [spansFrom, if_pos hc, utf8Len_concat]
        rfl
      have hedits := ih (l ++ [c]) htail
      rw [List.append_assoc] at hedits
      rw [Piece.chars, List.singleton_append, hspans, ← List.singleton_append, hedits]
      rw [String.ofList_append, String.append_assoc]
      rfl
    | token t hne ht =>
      have hedits := ih (l ++ t) htail
      rw [Piece.chars, spansFrom_none_token l hne ht (isDelimiter_of_isChain hps),
        List.foldr_cons, ← List.append_assoc, hedits]
      exact replaceSpan_after options l _ _ hne ht

/-- Rewriting a text by the ranges of its words is rewriting its division word by word. -/
theorem replaceSymbols_eq_rewrite (options : Options) {text : String} (d : Division text) :
    replaceSymbols options text = d.rewrite options := by
  have hedits := foldr_replaceSpan options d.pieces [] d.maximal
  have htext : String.ofList (d.pieces.flatMap Piece.chars) = text := by
    rw [← join_map_text, d.join]
  have hchars : d.pieces.flatMap Piece.chars = text.toList := by
    rw [← String.toList_ofList (l := d.pieces.flatMap Piece.chars), htext]
  rw [List.nil_append, htext, hchars, String.utf8Len_nil] at hedits
  simpa [replaceSymbols, spans, Division.rewrite] using hedits

/-! ## Delimiters cut the rewriting -/

/-- Two texts with a delimiter between them, cut where they are cut. -/
def Division.append {a b : String} (x : Division a) (c : Char) (hc : isDelimiter c = true)
    (y : Division b) : Division (a ++ String.singleton c ++ b) where
  pieces := x.pieces ++ .delimiter c hc :: y.pieces
  join := by
    rw [List.map_append, List.map_cons, String.join_append, String.join_cons, x.join, y.join,
      String.append_assoc]
    rfl
  maximal := by
    refine List.isChain_append.mpr ⟨x.maximal, y.maximal.cons fun p _ => ?_, fun p _ q hq => ?_⟩
    · exact Piece.separate_delimiter p
    · obtain rfl : q = .delimiter c hc := by simpa [eq_comm] using hq
      exact Piece.separate_delimiter_right p

/-- The two sides of a delimiter are rewritten on their own. -/
theorem replaceSymbols_delimiter (options : Options) (a b : String) {c : Char}
    (hc : isDelimiter c = true) :
    replaceSymbols options (a ++ String.singleton c ++ b) =
      replaceSymbols options a ++ String.singleton c ++ replaceSymbols options b := by
  rw [replaceSymbols_eq_rewrite options ((divide a).append c hc (divide b)),
    replaceSymbols_eq_rewrite options (divide a), replaceSymbols_eq_rewrite options (divide b)]
  rw [Division.rewrite, Division.append, List.map_append, List.map_cons, String.join_append,
    String.join_cons, String.append_assoc]
  rfl

/-- The edits of byte ranges are the rewriting of a text token by token: every text has a division,
the result is any division rewritten, and so a delimiter cuts the rewriting in two. -/
theorem replaceSymbols_tokenwise (options : Options) :
    (∀ text : String, Nonempty (Division text)) ∧
    (∀ (text : String) (d : Division text), replaceSymbols options text = d.rewrite options) ∧
    ∀ (a b : String) (c : Char), isDelimiter c = true →
      replaceSymbols options (a ++ String.singleton c ++ b) =
        replaceSymbols options a ++ String.singleton c ++ replaceSymbols options b :=
  ⟨fun text => ⟨divide text⟩, fun _ d => replaceSymbols_eq_rewrite options d,
    fun a b _ hc => replaceSymbols_delimiter options a b hc⟩

theorem replaceSymbols_tokenwise_colon :
    isDelimiter ':' = true ∧
    replaceSymbols .full ("$s4main3fooyyF" ++ String.singleton ':' ++ "é$s4main3baryyF") =
      replaceSymbols .full "$s4main3fooyyF" ++ String.singleton ':' ++
        replaceSymbols .full "é$s4main3baryyF" :=
  ⟨by decide, (replaceSymbols_tokenwise .full).2.2 _ _ _ (by decide)⟩

/-! ## A single token -/

theorem replaceSymbols_empty (options : Options) : replaceSymbols options "" = "" :=
  rfl

theorem replacement?_empty (options : Options) : replacement? options "" = none :=
  rfl

theorem not_isDelimiter_of_all {text : String} (h : text.toList.all (!isDelimiter ·) = true) :
    ∀ c ∈ text.toList, isDelimiter c = false := by
  simpa using h

/-- A text without delimiters is rewritten as one token. -/
theorem replaceSymbols_token (options : Options) {text : String}
    (h : ∀ c ∈ text.toList, isDelimiter c = false) :
    replaceSymbols options text = (replacement? options text).getD text := by
  by_cases hempty : text = ""
  · rw [hempty, replaceSymbols_empty, replacement?_empty, Option.getD_none]
  · have hne : text.toList ≠ [] := by simpa using hempty
    have hjoin : String.join ([Piece.token text.toList hne h].map Piece.text) = text := by
      simp [Piece.text, Piece.chars]
    rw [replaceSymbols_eq_rewrite options ⟨[.token text.toList hne h], hjoin, .singleton _⟩]
    simp [Division.rewrite, Piece.rewrite, Piece.text, Piece.chars, rewriteToken_eq]

/-- A text that is no symbol has no tree, so only symbols are rendered. -/
theorem replacement?_eq (options : Options) (token : String) :
    replacement? options token = renderSymbol? options token := by
  rw [replacement?]
  split
  · rfl
  next h =>
    have hscheme : Scheme.detect (Utf8.encode token) = none := by
      simpa [Symbol.isMangled, Scheme.isMangled] using h
    simp [renderSymbol?, decode, decodeWith, hscheme]

theorem renderSymbol?_empty (options : Options) : renderSymbol? options "" = none :=
  rfl

/-- A text without delimiters is rewritten to what is shown for it exactly if it is not rendered as
nothing. Nothing is never shown for a text; a text that is rendered as nothing is removed. -/
theorem replaceSymbols_eq_showSymbol_iff (options : Options) {text : String}
    (h : ∀ c ∈ text.toList, isDelimiter c = false) :
    (replaceSymbols options text = showSymbol options false text ↔
      renderSymbol? options text ≠ some "") ∧
    (text ≠ "" → showSymbol options false text ≠ "" ∧
      (replaceSymbols options text = "" ↔ renderSymbol? options text = some "")) := by
  have hshow : showSymbol options false text =
      ((renderSymbol? options text).filter (!·.isEmpty)).getD text := by
    simp [showSymbol]
  rw [replaceSymbols_token options h, replacement?_eq, hshow]
  -- both start from the same rendering and differ in what they do with an empty one
  cases hrender : renderSymbol? options text with
  | none => simp
  | some shown =>
    by_cases hshown : shown = ""
    · have hne : text ≠ "" := by
        rintro rfl
        simp [renderSymbol?_empty] at hrender
      simp [Option.filter, hshown, hne, Ne.symm hne]
    · simp [Option.filter, hshown]

theorem replaceSymbols_eq_showSymbol_iff_function :
    (∀ c ∈ "$s4main3fooyyF".toList, isDelimiter c = false) ∧
    (replaceSymbols .simplified "$s4main3fooyyF" = showSymbol .simplified false "$s4main3fooyyF" ↔
      renderSymbol? .simplified "$s4main3fooyyF" ≠ some "") ∧
    ("$s4main3fooyyF" ≠ "" → showSymbol .simplified false "$s4main3fooyyF" ≠ "" ∧
      (replaceSymbols .simplified "$s4main3fooyyF" = "" ↔
        renderSymbol? .simplified "$s4main3fooyyF" = some "")) :=
  ⟨not_isDelimiter_of_all (by decide),
    replaceSymbols_eq_showSymbol_iff .simplified (not_isDelimiter_of_all (by decide))⟩

/-- Under the options that leave suffixes out, a symbol that is nothing but a suffix is shown as it
is and removed from a text. -/
theorem replaceSymbols_suffix :
    (∀ c ∈ "$s.cold".toList, isDelimiter c = false) ∧
    replaceSymbols .simplified "$s.cold" = "" ∧
    showSymbol .simplified false "$s.cold" = "$s.cold" := by
  refine ⟨not_isDelimiter_of_all (by decide), ?_, ?_⟩
  · decide +kernel
  · decide +kernel

/-! ## Rewriting twice -/

/-- A delimiter in front of a text stays. -/
theorem replaceSymbols_cons (options : Options) {c : Char} (hc : isDelimiter c = true)
    (b : String) :
    replaceSymbols options (String.singleton c ++ b) =
      String.singleton c ++ replaceSymbols options b := by
  have hcut := replaceSymbols_delimiter options "" b hc
  rwa [replaceSymbols_empty, String.empty_append] at hcut

/-- Texts in the places of the tokens of a division are rewritten one by one. -/
theorem replaceSymbols_join (options : Options) (f : Piece → String) {ps : List Piece}
    (hps : ps.IsChain Piece.Separate)
    (hf : ∀ (c : Char) (hc : isDelimiter c = true), f (.delimiter c hc) = String.singleton c) :
    replaceSymbols options (String.join (ps.map f)) =
      String.join (ps.map fun p => replaceSymbols options (f p)) := by
  induction ps with
  | nil => rfl
  | cons p ps ih =>
    have hrest := ih hps.tail
    rw [List.map_cons, List.map_cons, String.join_cons, String.join_cons, ← hrest]
    cases p with
    | delimiter c hc =>
      have hself := replaceSymbols_cons options hc ""
      rw [replaceSymbols_empty, String.append_empty] at hself
      rw [hf, replaceSymbols_cons options hc, hself]
    | token t hne ht =>
      cases ps with
      | nil => simp [replaceSymbols_empty]
      | cons q ps =>
        -- only a delimiter can follow a token
        cases q with
        | token => exact (List.isChain_cons_cons.mp hps).1.elim
        | delimiter c hc =>
          rw [List.map_cons, String.join_cons, hf, ← String.append_assoc,
            replaceSymbols_delimiter options _ _ hc, replaceSymbols_cons options hc,
            String.append_assoc]

/-- What a piece is rewritten to stays as it is if this holds of its rendering. -/
theorem replaceSymbols_rewrite (options : Options) {p : Piece}
    (h : ∀ t ∈ p.token?, ∀ s, replacement? options t = some s → replaceSymbols options s = s) :
    replaceSymbols options (p.rewrite options) = p.rewrite options := by
  cases p with
  -- a delimiter is copied
  | delimiter c hc =>
    have hself := replaceSymbols_cons options hc ""
    rwa [replaceSymbols_empty, String.append_empty] at hself
  | token t hne ht =>
    rw [Piece.rewrite, rewriteToken_eq]
    cases hnew : replacement? options (Piece.token t hne ht).text with
    | none =>
      rw [Option.getD_none, replaceSymbols_token options (by simpa [Piece.text, Piece.chars]), hnew,
        Option.getD_none]
    -- a token with a rendering becomes the rendering, which `h` is about
    | some s => exact h _ rfl s hnew

/-- Rewriting a text again changes nothing if it changes none of the renderings of its tokens. -/
theorem replaceSymbols_replaceSymbols (options : Options) {text : String}
    (h : ∀ t ∈ (divide text).tokens, ∀ s, replacement? options t = some s →
      replaceSymbols options s = s) :
    replaceSymbols options (replaceSymbols options text) = replaceSymbols options text := by
  rw [replaceSymbols_eq_rewrite options (divide text), Division.rewrite,
    replaceSymbols_join options _ (divide text).maximal fun _ _ => rfl]
  refine congrArg String.join (List.map_congr_left fun p hp => ?_)
  exact replaceSymbols_rewrite options fun t ht =>
    h t (List.mem_filterMap.mpr ⟨p, hp, Option.mem_def.mp ht⟩)

/-- No word of a division holds a delimiter. -/
theorem not_isDelimiter_of_mem_tokens {text t : String} {d : Division text} (h : t ∈ d.tokens) :
    ∀ c ∈ t.toList, isDelimiter c = false := by
  obtain ⟨p, -, hp⟩ := List.mem_filterMap.mp h
  cases p with
  | delimiter => simp [Piece.token?] at hp
  | token cs _ hcs =>
    obtain rfl : String.ofList cs = t := by simpa [Piece.token?, Piece.text, Piece.chars] using hp
    simpa using hcs

/-- Rewriting a text again changes nothing if it changes none of the renderings of its tokens, and
rewriting is idempotent exactly if this holds of every token. -/
theorem replaceSymbols_twice (options : Options) :
    (∀ text : String,
      (∀ t ∈ (divide text).tokens, ∀ s, replacement? options t = some s →
        replaceSymbols options s = s) →
      replaceSymbols options (replaceSymbols options text) = replaceSymbols options text) ∧
    ((∀ text : String,
        replaceSymbols options (replaceSymbols options text) = replaceSymbols options text) ↔
      ∀ t s : String, (∀ c ∈ t.toList, isDelimiter c = false) →
        replacement? options t = some s → replaceSymbols options s = s) := by
  refine ⟨fun _ => replaceSymbols_replaceSymbols options, fun h t s ht hs => ?_, fun h text => ?_⟩
  -- a text without delimiters is a single token, and rewritten to its rendering
  · have htwice := h t
    rwa [replaceSymbols_token options ht, hs, Option.getD_some] at htwice
  · exact replaceSymbols_replaceSymbols options fun t ht s hs =>
      h t s (not_isDelimiter_of_mem_tokens ht) hs

theorem replaceSymbols_twice_function :
    (divide "at $s4main3fooyyF:").tokens = ["at", "$s4main3fooyyF"] ∧
    replacement? .full "$s4main3fooyyF" = some "main.foo() -> ()" ∧
    replaceSymbols .full (replaceSymbols .full "at $s4main3fooyyF:") =
      replaceSymbols .full "at $s4main3fooyyF:" := by
  have htokens : (divide "at $s4main3fooyyF:").tokens = ["at", "$s4main3fooyyF"] := by
    decide +kernel
  have hat : replacement? .full "at" = none := by decide +kernel
  have hfunction : replacement? .full "$s4main3fooyyF" = some "main.foo() -> ()" := by
    decide +kernel
  have hstays : replaceSymbols .full "main.foo() -> ()" = "main.foo() -> ()" := by decide +kernel
  refine ⟨htokens, hfunction, (replaceSymbols_twice .full).1 _ ?_⟩
  rw [htokens]
  simp [hat, hfunction, hstays]

/-- A label can be a symbol, and the bracket in front of it makes a token of it: the rendering of
this function is not the end. -/
theorem replaceSymbols_label :
    replaceSymbols .full "$s4main3foo14$s4main3fooyyFySi_tF" =
      "main.foo($s4main3fooyyF: Swift.Int) -> ()" ∧
    replaceSymbols .full (replaceSymbols .full "$s4main3foo14$s4main3fooyyFySi_tF") =
      "main.foo(main.foo() -> (): Swift.Int) -> ()" := by
  decide +kernel

end SwiftMangling.Document
