import SwiftMangling.Proofs.Current.Symbol
import SwiftMangling.Proofs.Legacy.Header

/-!
# Runtime type names

The names of classes and protocols that the runtime uses are read by both decoders: by a production
of its own in the stack decoder, and as a type like any other in the descent decoder. What such a
name is made of is said by `SpellsType`. The stack decoder accepts nothing else, as long as no
length has a leading zero (`Current.spellsType_of_decodeSymbol`), and the descent decoder finds the
same tree there (`Legacy.decodeSymbol_of_spellsType`).
-/

namespace SwiftMangling

/-! ## Spelling -/

/-- A text with its length in front of it stands between the two places. -/
def SpellsName (c : Cursor) (name : String) (c' : Cursor) : Prop :=
  ∃ n c₁, c.natural 64 = (some n, c₁) ∧ c₁.text n = (some name, c') ∧ name.isEmpty = false

/-- A module stands between the two places: the standard library, or the name of another one. -/
inductive SpellsModule (c : Cursor) : String → Cursor → Prop
  | standard {c' : Cursor} (h : c.nextIf 's'.toUInt8 = (true, c')) :
    SpellsModule c Node.standardLibrary c'
  | named {m : String} {c' : Cursor} (h : SpellsName c m c') : SpellsModule c m c'

/-- The letter that introduces a class or a protocol. -/
def typeLetter (isProtocol : Bool) : Char :=
  if isProtocol then 'P' else 'C'

/-- What follows the name of a class or a protocol. -/
def typeEnd (isProtocol : Bool) : List UInt8 :=
  if isProtocol then ['_'.toUInt8] else []

/-- From the given place on, the input is the name of a class or a protocol. -/
def SpellsType (c : Cursor) (isProtocol : Bool) (m name : String) : Prop :=
  ∃ c₁ c₂ c₃, c.nextIf (typeLetter isProtocol).toUInt8 = (true, c₁) ∧ SpellsModule c₁ m c₂ ∧
    SpellsName c₂ name c₃ ∧ c₃.rest = typeEnd isProtocol

/-- No number with a leading zero comes first. -/
def PlainStart (bytes : List UInt8) : Prop :=
  bytes.head? ≠ some '0'.toUInt8

/-- What follows a text with its length in front of it. -/
def afterName (bytes : List UInt8) : List UInt8 :=
  match (Cursor.ofBytes bytes).natural 64 with
  | (some n, c) => c.rest.drop n
  | (none, c) => c.rest

/-- The lengths of a module and of a name are written without leading zeros. The module may be the
letter `s`. -/
def PlainLengths (bytes : List UInt8) : Prop :=
  if bytes.head? = some 's'.toUInt8 then PlainStart bytes.tail
  else PlainStart bytes ∧ PlainStart (afterName bytes)

instance (bytes : List UInt8) : Decidable (PlainStart bytes) :=
  inferInstanceAs (Decidable (_ ≠ _))

instance (bytes : List UInt8) : Decidable (PlainLengths bytes) := by
  unfold PlainLengths
  infer_instance

namespace SpellsName

variable {c c' : Cursor} {name : String}

theorem head (h : SpellsName c name c') :
    ∃ b rest, c.rest = b :: rest ∧ Cursor.isDigit b = true := by
  obtain ⟨n, c₁, hnatural, -⟩ := h
  exact Cursor.natural_eq_some hnatural

/-- A name starts with a digit, so no letter comes next. -/
theorem nextIf (h : SpellsName c name c') {b : UInt8} (hb : Cursor.isDigit b = false) :
    c.nextIf b = (false, c) := by
  obtain ⟨a, rest, hrest, ha⟩ := h.head
  refine Cursor.nextIf_of_head hrest ?_
  rintro rfl
  rw [ha] at hb
  cases hb

/-- What stands before a name does not matter for where it ends. -/
theorem afterName_eq (h : SpellsName c name c') : afterName c.rest = c'.rest := by
  obtain ⟨n, c₁, hnatural, htext, -⟩ := h
  obtain ⟨a, l, rest, -, hrun⟩ := Cursor.reading_natural 64 c.rest
  dsimp only at hrun
  obtain ⟨rfl, rfl⟩ : some n = a ∧ c₁ = ⟨l ++ c.before, rest⟩ := by
    simpa [hnatural] using hrun c.before
  rw [afterName, Cursor.ofBytes, hrun [], Cursor.text_eq_some htext]

end SpellsName

namespace SpellsModule

variable {c c' : Cursor} {m : String}

/-- A module starts with a digit or an `s`. -/
theorem nextIf (h : SpellsModule c m c') {b : UInt8} (hb : Cursor.isDigit b = false)
    (hstandard : 's'.toUInt8 ≠ b) : c.nextIf b = (false, c) := by
  cases h with
  | standard hnext =>
    obtain ⟨rest, hrest, -⟩ := Cursor.nextIf_eq_true hnext
    exact Cursor.nextIf_of_head hrest hstandard
  | named hname => exact hname.nextIf hb

theorem rest_ne_nil (h : SpellsModule c m c') : c.rest ≠ [] := by
  cases h with
  | standard hnext => exact Cursor.nextIf_ne_nil (congrArg Prod.fst hnext)
  | named hname =>
    obtain ⟨b, rest, hrest, -⟩ := hname.head
    rw [hrest]
    exact List.cons_ne_nil b rest

end SpellsModule

/-! ## The stack decoder -/

namespace Current

open Decoding

variable {r : Config} {s t : State} {n : Node}

/-- The piece of an identifier that is no word is a text with its length in front of it. -/
theorem natural_of_identifierText {name : String} (h : identifierText false r s = (some name, t)) :
    ∃ n c, s.cursor.natural 64 = (some n, c) ∧ c.text n = (some name, t.cursor) := by
  obtain ⟨length, s₁, hlength, h⟩ := bind_eq_some_iff.mp h
  obtain ⟨m, s₂, hnatural, hlength⟩ := bind_eq_some_iff.mp hlength
  obtain ⟨_, s₃, hpositive, ⟨⟩⟩ := bind_eq_some_iff.mp hlength
  obtain ⟨-, rfl⟩ := require_eq_some_iff.mp hpositive
  obtain ⟨text, s₄, htext, h⟩ := bind_eq_some_iff.mp h
  obtain ⟨_, s₅, ⟨⟩, ⟨⟩⟩ := bind_eq_some_iff.mp h
  obtain ⟨hnatural, rfl⟩ := Prod.ext_iff.mp hnatural
  obtain ⟨htext, rfl⟩ := Prod.ext_iff.mp htext
  exact ⟨length, _, Prod.ext hnatural rfl, Prod.ext htext rfl⟩

/-- No zero is read where no number with a leading zero stands. -/
theorem run_nextIf_of_plainStart (h : PlainStart s.cursor.rest) :
    nextIf '0' r s = (some false, s) := by
  have hcursor : s.cursor.nextIf '0'.toUInt8 = (false, s.cursor) := by
    rcases hrest : s.cursor.rest with _ | ⟨b, rest⟩
    · simp [Cursor.nextIf, Cursor.nextWhere, hrest]
    · refine Cursor.nextIf_of_head hrest fun hb => h ?_
      rw [hrest, hb]
      rfl
  show (some (s.cursor.nextIf _).1, { s with cursor := (s.cursor.nextIf _).2 }) = _
  rw [hcursor]

/-- Without a leading zero an identifier is a text with its length in front of it. -/
theorem spellsName_of_identifier (hplain : PlainStart s.cursor.rest)
    (h : identifier r s = (some n, t)) :
    ∃ name, SpellsName s.cursor name t.cursor ∧ n = .identifier name := by
  -- a `0` in front would announce words or Punycode
  have hmark : nextIf '0' r s = (some false, s) := run_nextIf_of_plainStart hplain
  obtain ⟨_, _, ⟨⟩, h⟩ := bind_eq_some_iff.mp h
  obtain ⟨_, _, hdigit, h⟩ := bind_eq_some_iff.mp h
  obtain ⟨-, rfl⟩ := require_eq_some_iff.mp hdigit
  rw [run_bind_of_eq hmark] at h
  obtain ⟨_, _, ⟨⟩, h⟩ := bind_eq_some_iff.mp h
  obtain ⟨_, _, ⟨⟩, h⟩ := bind_eq_some_iff.mp h
  obtain ⟨name, u, hpieces, h⟩ := bind_eq_some_iff.mp h
  -- without words there is only one piece
  obtain ⟨_, _, ⟨⟩, hpieces⟩ := bind_eq_some_iff.mp hpieces
  obtain ⟨_, _, hmark', hpieces⟩ := bind_eq_some_iff.mp hpieces
  rw [hmark] at hmark'
  cases hmark'
  obtain ⟨piece, v, hpiece, hpieces⟩ := bind_eq_some_iff.mp hpieces
  obtain ⟨rfl, rfl⟩ : piece = name ∧ v = u := by simpa [run_pure] using hpieces
  obtain ⟨_, _, hrequire, ⟨⟩⟩ := bind_eq_some_iff.mp h
  obtain ⟨hnonempty, rfl⟩ := require_eq_some_iff.mp hrequire
  obtain ⟨length, c, hnatural, htext⟩ := natural_of_identifierText hpiece
  exact ⟨piece, ⟨length, c, hnatural, htext, by simpa using hnonempty⟩, rfl⟩

theorem nextIf_eq_some {c : Char} {b : Bool} (h : nextIf c r s = (some b, t)) :
    ∃ c', s.cursor.nextIf c.toUInt8 = (b, c') ∧ t = { s with cursor := c' } := by
  obtain ⟨hfound, rfl⟩ := Prod.ext_iff.mp h
  exact ⟨_, Prod.ext (Option.some.inj hfound) rfl, rfl⟩

theorem expect_eq_some {c : Char} {u : Unit} (h : expect c r s = (some u, t)) :
    ∃ c', s.cursor.nextIf c.toUInt8 = (true, c') ∧ t = { s with cursor := c' } := by
  obtain ⟨_, s₁, hnext, hrequire⟩ := bind_eq_some_iff.mp h
  obtain ⟨rfl, rfl⟩ := require_eq_some_iff.mp hrequire
  exact nextIf_eq_some hnext

/-- The lengths are plain, so that of the name is where the module ends. -/
theorem spellsModule_of_runtimeModule (hplain : PlainLengths s.cursor.rest)
    (h : runtimeModule r s = (some n, t)) :
    ∃ m, SpellsModule s.cursor m t.cursor ∧ n = .module m ∧ PlainStart t.cursor.rest := by
  unfold PlainLengths at hplain
  obtain ⟨isStandard, s₁, hletter, h⟩ := bind_eq_some_iff.mp h
  obtain ⟨c, hnext, rfl⟩ := nextIf_eq_some hletter
  cases isStandard with
  -- the standard library is a letter alone
  | true =>
    obtain ⟨⟩ := h
    obtain ⟨rest, hrest, rfl⟩ := Cursor.nextIf_eq_true hnext
    rw [hrest, if_pos List.head?_cons] at hplain
    exact ⟨Node.standardLibrary, .standard hnext, rfl, hplain⟩
  | false =>
    obtain ⟨rfl, hhead⟩ := Cursor.nextIf_eq_false hnext
    rw [if_neg hhead] at hplain
    obtain ⟨node, s₂, hidentifier, ⟨⟩⟩ := bind_eq_some_iff.mp h
    obtain ⟨m, hname, rfl⟩ := spellsName_of_identifier hplain.1 hidentifier
    exact ⟨m, .named hname, rfl, hname.afterName_eq ▸ hplain.2⟩

/-- Behind the letter there are a module, a name and the end. -/
theorem spells_of_runtimeType {isProtocol : Bool} (hplain : PlainLengths s.cursor.rest)
    (h : runtimeType isProtocol r s = (some n, t)) :
    ∃ m name c₁ c₂, SpellsModule s.cursor m c₁ ∧ SpellsName c₁ name c₂ ∧
      c₂.rest = typeEnd isProtocol ∧ n = typeTree isProtocol (.module m) (.identifier name) := by
  obtain ⟨module, s₁, hmodule, h⟩ := bind_eq_some_iff.mp h
  obtain ⟨m, hm, rfl, hstart⟩ := spellsModule_of_runtimeModule hplain hmodule
  obtain ⟨node, s₂, hidentifier, h⟩ := bind_eq_some_iff.mp h
  obtain ⟨name, hname, rfl⟩ := spellsName_of_identifier hstart hidentifier
  -- both kinds of types end where the input does
  have hend {u : State} (h : (atEnd >>= fun b => require b >>= fun _ =>
      pure (typeTree isProtocol (.module m) (.identifier name))) r u = (some n, t)) :
      u.cursor.rest = [] ∧ n = typeTree isProtocol (.module m) (.identifier name) := by
    obtain ⟨_, _, ⟨⟩, h⟩ := bind_eq_some_iff.mp h
    obtain ⟨_, _, hrequire, ⟨⟩⟩ := bind_eq_some_iff.mp h
    obtain ⟨hatEnd, rfl⟩ := require_eq_some_iff.mp hrequire
    exact ⟨List.isEmpty_iff.mp hatEnd, rfl⟩
  refine ⟨m, name, s₁.cursor, s₂.cursor, hm, hname, ?_⟩
  cases isProtocol with
  | false => exact hend h
  -- a protocol ends with one more underscore
  | true =>
    obtain ⟨_, s₃, hunder, h⟩ := bind_eq_some_iff.mp h
    obtain ⟨c, hnext, rfl⟩ := expect_eq_some hunder
    obtain ⟨rest, hrest, rfl⟩ := Cursor.nextIf_eq_true hnext
    obtain ⟨hempty, htree⟩ := hend h
    obtain rfl : rest = [] := hempty
    exact ⟨hrest, htree⟩

/-- A runtime name starts with the letter of its sort. -/
theorem exists_letter_of_runtimeTypeName (h : runtimeTypeName r s = (some n, t)) :
    ∃ isProtocol s₁, s.cursor.nextIf (typeLetter isProtocol).toUInt8 = (true, s₁.cursor) ∧
      runtimeType isProtocol r s₁ = (some n, t) := by
  rw [runtimeTypeName_eq] at h
  obtain ⟨isClass, s₁, hletter, h⟩ := bind_eq_some_iff.mp h
  obtain ⟨c, hnext, rfl⟩ := nextIf_eq_some hletter
  cases isClass with
  | true => exact ⟨false, { s with cursor := c }, hnext, h⟩
  | false =>
    obtain ⟨rfl, -⟩ := Cursor.nextIf_eq_false hnext
    obtain ⟨_, s₂, hletter, h⟩ := bind_eq_some_iff.mp h
    obtain ⟨c, hnext, rfl⟩ := expect_eq_some hletter
    exact ⟨true, { s with cursor := c }, hnext, h⟩

/-- What is read from a runtime name with plain lengths is what it spells. -/
theorem spellsType_of_runtimeTypeName (hplain : PlainLengths s.cursor.rest.tail)
    (h : runtimeTypeName r s = (some n, t)) :
    ∃ isProtocol m name, SpellsType s.cursor isProtocol m name ∧
      n = typeTree isProtocol (.module m) (.identifier name) := by
  obtain ⟨isProtocol, s₁, hletter, h⟩ := exists_letter_of_runtimeTypeName h
  have hplain₁ : PlainLengths s₁.cursor.rest := by
    obtain ⟨rest, hrest, hcursor⟩ := Cursor.nextIf_eq_true hletter
    rw [hrest] at hplain
    rw [hcursor]
    exact hplain
  obtain ⟨m, name, c₁, c₂, hm, hname, hend, htree⟩ := spells_of_runtimeType hplain₁ h
  exact ⟨isProtocol, m, name, ⟨s₁.cursor, c₁, c₂, hletter, hm, hname, hend⟩, htree⟩

/-- The stack decoder accepts nothing but runtime type names behind `_Tt`. -/
theorem spellsType_of_decodeSymbol {resolver : Option Resolver} {rest : List UInt8} {root : Node}
    (hplain : PlainLengths rest.tail)
    (h : (decodeSymbol resolver (Utf8.encode "_Tt" ++ rest)).tree = some root) :
    ∃ isProtocol m name, SpellsType ⟨(Utf8.encode "_Tt").reverse, rest⟩ isProtocol m name ∧
      root = typeTree isProtocol (.module m) (.identifier name) := by
  let u : State := ⟨⟨(Utf8.encode "_Tt").reverse, rest⟩, [], #[], [], #[]⟩
  have hmark (r : Config) : nextIfText "_Tt" r (State.start (Utf8.encode "_Tt" ++ rest)) =
      (some true, u) :=
    congrArg (fun p : Bool × Cursor => (some p.1, { u with cursor := p.2 }))
      (Cursor.nextIfBytes_append [] (Utf8.encode "_Tt") rest)
  have hsymbol (r : Config) : symbol r (State.start (Utf8.encode "_Tt" ++ rest)) =
      runtimeTypeName r u := run_bind_of_eq (hmark r)
  obtain ⟨t, hrun⟩ : ∃ t, symbol ⟨Scheme.hasInlineLabels (Utf8.encode "_Tt" ++ rest), resolver⟩
      (State.start (Utf8.encode "_Tt" ++ rest)) = (some root, t) :=
    ⟨_, Prod.ext h rfl⟩
  rw [hsymbol] at hrun
  exact spellsType_of_runtimeTypeName hplain hrun

end Current

/-! ## The descent decoder -/

namespace Legacy

open Decoding

/-- In the state `s` the decoder finds `a` and goes to `c`, at the depth of `s`. -/
def Finds {α : Type} (d : Decoder α) (g : Grammar) (s : State) (a : α) (c : Cursor) : Prop :=
  ∃ t, d g s = (some a, t) ∧ t.cursor = c ∧ t.depth = s.depth

section Finds

variable {α β : Type} {d : Decoder α} {f : α → Decoder β} {g : Grammar} {s : State} {a : α} {b : β}
  {c c' : Cursor}

theorem Finds.ret (h : s.cursor = c) : Finds (pure a) g s a c :=
  ⟨s, rfl, h, rfl⟩

theorem Finds.bind (hd : Finds d g s a c)
    (hf : ∀ t, t.cursor = c → t.depth = s.depth → Finds (f a) g t b c') :
    Finds (d >>= f) g s b c' := by
  obtain ⟨t, hrun, hcursor, hdepth⟩ := hd
  obtain ⟨u, hrun', hcursor', hdepth'⟩ := hf t hcursor hdepth
  exact ⟨u, (run_bind_of_eq hrun).trans hrun', hcursor', hdepth'.trans hdepth⟩

theorem Finds.scan {f : Cursor → Option α × Cursor} (hs : s.cursor = c) (h : f c = (some a, c')) :
    Finds (scan f) g s a c' := by
  subst hs
  exact ⟨{ s with cursor := c' },
    congrArg (fun p : Option α × Cursor => (p.1, { s with cursor := p.2 })) h, rfl, rfl⟩

theorem Finds.nextIf {l : Char} {found : Bool} (hs : s.cursor = c)
    (h : c.nextIf l.toUInt8 = (found, c')) : Finds (nextIf l) g s found c' := by
  subst hs
  exact ⟨{ s with cursor := c' },
    congrArg (fun p : Bool × Cursor => (some p.1, { s with cursor := p.2 })) h, rfl, rfl⟩

theorem Finds.remember {n : Node} (h : s.cursor = c) : Finds (remember n) g s n c :=
  ⟨_, rfl, h, rfl⟩

theorem Finds.nested (hdeep : s.depth < maxDepth)
    (hd : Finds d g { s with depth := s.depth + 1 } a c) : Finds (nested d) g s a c := by
  obtain ⟨t, hrun, hcursor, hdepth⟩ := hd
  refine ⟨{ t with depth := t.depth - 1 }, ?_, hcursor, ?_⟩
  · unfold Legacy.nested
    rw [if_neg (Nat.not_le.mpr hdeep), hrun]
  · show t.depth - 1 = s.depth
    rw [hdepth]
    rfl

theorem Finds.production {p : Production} {n : Nat} {node : Node}
    (h : Finds (rule p) ⟨parse n⟩ s node c) : Finds (production p) ⟨parse (n + 1)⟩ s node c :=
  h

end Finds

variable {g : Grammar} {s : State} {k : Kind} {m name : String} {c c' : Cursor}

/-- Where a name stands, no letter is found. -/
theorem finds_letter (h : SpellsName c name c') (hs : s.cursor = c) {l : Char}
    (hl : Cursor.isDigit l.toUInt8 = false := by decide) : Finds (nextIf l) g s false c :=
  .nextIf hs (h.nextIf hl)

theorem finds_identifier (h : SpellsName c name c') (hs : s.cursor = c) :
    Finds (identifier k) g s (.ofText k name) c' := by
  have hoperator {t : State} (ht : t.cursor = c) : Finds (operatorKind k) g t none c :=
    (finds_letter h ht).bind fun _ hu _ => .ret hu
  unfold identifier
  refine (finds_letter h hs).bind fun t ht _ => (hoperator ht).bind fun u hu _ => ?_
  obtain ⟨n, c₁, hnatural, htext, hnonempty⟩ := h
  refine Finds.bind (.scan hu hnatural) fun v hv _ =>
    Finds.bind (.scan hv htext) fun w hw _ => ?_
  dsimp only
  rw [pure_bind, hnonempty]
  exact .ret hw

theorem finds_declName (h : SpellsName c name c') (hs : s.cursor = c) :
    Finds declName g s (.identifier name) c' :=
  (finds_letter h hs).bind fun _ ht _ => (finds_letter h ht).bind fun _ hu _ =>
    finds_identifier h hu

theorem finds_module (h : SpellsName c m c') (hs : s.cursor = c) :
    Finds module g s (.module m) c' :=
  (finds_letter h hs).bind fun _ ht _ => (finds_letter h ht).bind fun _ hu _ =>
    (finds_identifier h hu).bind fun _ hv _ => .remember hv

/-- A context that starts with a digit is a module. -/
theorem contextContent_of_digit {b : UInt8} {rest : List UInt8} (hb : Cursor.isDigit b = true)
    (hrest : s.cursor.rest = b :: rest) : contextContent g s = module g s := by
  have hdigits : ∀ d < 10, charOfByte (UInt8.ofNat (0x30 + d)) ∉ ['E', 'e', 'S', 's', 'G'] ∧
      isEntityStart (charOfByte (UInt8.ofNat (0x30 + d))) = false := by
    decide
  obtain ⟨hletters, hentity⟩ : charOfByte b ∉ ['E', 'e', 'S', 's', 'G'] ∧
      isEntityStart (charOfByte b) = false := by
    obtain ⟨d, hd, rfl⟩ := Cursor.isDigit_eq hb
    exact hdigits d hd
  have hpeek : peekChar? g s = (some (some (charOfByte b)), s) := by
    show (some (s.cursor.rest.head?.map charOfByte), s) = _
    rw [hrest]
    rfl
  have hsome : ofOption (some (charOfByte b)) g s = (some (charOfByte b), s) := rfl
  unfold contextContent
  rw [run_bind_of_eq hpeek, run_bind_of_eq hsome, hentity, if_neg Bool.false_ne_true]
  refine congrArg (fun d : Decoder Node => d g s) ?_
  split
  case h_6 => rfl
  -- a digit is none of the letters that start another context
  all_goals
    rename_i hletter
    simp [hletter] at hletters

/-- What a class or a protocol stands in. -/
theorem finds_contextContent (h : SpellsModule c m c') (hs : s.cursor = c) :
    Finds contextContent g s (.module m) c' := by
  cases h with
  | standard hnext =>
    obtain ⟨rest, hrest, rfl⟩ := Cursor.nextIf_eq_true hnext
    obtain ⟨⟨before, _⟩, table, depth⟩ := s
    subst hs hrest
    exact ⟨_, rfl, rfl, rfl⟩
  | named hname =>
    obtain ⟨b, rest, hrest, hb⟩ := hname.head
    obtain ⟨t, hrun, ht⟩ := finds_module (g := g) hname hs
    exact ⟨t, (contextContent_of_digit hb (hs ▸ hrest)).trans hrun, ht⟩

theorem finds_context {n : Nat} (h : SpellsModule c m c') (hs : s.cursor = c)
    (hdeep : s.depth < maxDepth) : Finds context ⟨parse (n + 1)⟩ s (.module m) c' :=
  .production (.nested hdeep (finds_contextContent h hs))

/-- A list of one element. -/
theorem finds_manyUntil {α : Type} {d : Decoder α} {a : α} {l : Char} {c₁ c₂ : Cursor}
    (hs : s.cursor = c) (hne : c.rest ≠ []) (hfirst : c.nextIf l.toUInt8 = (false, c))
    (hd : ∀ t : State, t.cursor = c → t.depth = s.depth → Finds d g t a c₁)
    (hlast : c₁.nextIf l.toUInt8 = (true, c₂)) : Finds (manyUntil l d) g s [a] c₂ := by
  -- the end of the list is looked for twice, so there has to be at least one byte
  obtain ⟨k, hk⟩ : ∃ k, s.cursor.rest.length = k + 1 :=
    Nat.exists_eq_succ_of_ne_zero fun h => hne (hs ▸ List.length_eq_zero_iff.mp h)
  have hremaining : Finds remaining g s (k + 1) c := ⟨s, by rw [← hk]; rfl, hs, rfl⟩
  refine hremaining.bind fun t ht hdepth => Finds.bind (.nextIf ht hfirst) fun u hu hdepth' => ?_
  refine (hd u hu (hdepth'.trans hdepth)).bind fun v hv _ => ?_
  exact Finds.bind (Finds.bind (.nextIf hv hlast) fun w hw _ => .ret hw) fun x hx _ => .ret hx

section Declared

variable {n : Nat} {c₁ c₂ : Cursor} (hm : SpellsModule c m c₁) (hname : SpellsName c₁ name c₂)
  (hs : s.cursor = c) (hdeep : s.depth < maxDepth)

include hm hname hs hdeep

theorem finds_declaration :
    Finds (declaration k) ⟨parse (n + 1)⟩ s (.branch k [.module m, .identifier name]) c₂ :=
  (finds_context hm hs hdeep).bind fun _ ht _ => (finds_declName hname ht).bind fun _ hu _ =>
    .remember hu

/-- A protocol of the standard library is found without going through its context. -/
theorem finds_protocolNode :
    Finds protocolNode ⟨parse (n + 1)⟩ s (.branch .protocolType [.module m, .identifier name])
      c₂ := by
  refine Finds.bind (.nextIf hs (hm.nextIf (by decide) (by decide))) fun t ht hdepth => ?_
  rw [if_neg (by decide)]
  rw [← hdepth] at hdeep
  cases hm with
  | standard hnext =>
    refine Finds.bind (.nextIf ht hnext) fun u hu _ => ?_
    exact (finds_declName hname hu).bind fun _ hv _ => .remember hv
  | named hmodule =>
    refine (finds_letter hmodule ht).bind fun u hu hdepth' => ?_
    exact finds_declaration (.named hmodule) hname hu (hdepth' ▸ hdeep)

theorem finds_protocol :
    Finds protocol ⟨parse (n + 1)⟩ s
      (.typeOf (.branch .protocolType [.module m, .identifier name])) c₂ :=
  (finds_protocolNode hm hname hs hdeep).bind fun _ ht _ => .ret ht

theorem finds_protocolList {c₃ : Cursor} (hend : c₂.nextIf '_'.toUInt8 = (true, c₃)) :
    Finds protocolList ⟨parse (n + 1)⟩ s (.branch .protocolList
      [.branch .typeList [.typeOf (.branch .protocolType [.module m, .identifier name])]]) c₃ := by
  have hlist := finds_manyUntil hs hm.rest_ne_nil (hm.nextIf (by decide) (by decide))
    (fun t ht hdepth => finds_protocol (n := n) hm hname ht (hdepth ▸ hdeep)) hend
  exact hlist.bind fun _ ht _ => .ret ht

end Declared

/-- The name of a class or a protocol is a type. -/
theorem finds_contentRule {n : Nat} {isProtocol : Bool} (h : SpellsType s.cursor isProtocol m name)
    (hdeep : s.depth < maxDepth) :
    ∃ c, c.rest = [] ∧ Finds contentRule ⟨parse (n + 1)⟩ s
      (typeContent isProtocol (.module m) (.identifier name)) c := by
  obtain ⟨c₁, c₂, c₃, hletter, hm, hname, hend⟩ := h
  obtain ⟨rest, hrest, rfl⟩ := Cursor.nextIf_eq_true hletter
  obtain ⟨⟨before, _⟩, table, depth⟩ := s
  subst hrest
  cases isProtocol with
  | false => exact ⟨c₃, hend, finds_declaration hm hname rfl hdeep⟩
  -- a protocol is a list of one, unless the letter of a metatype comes next, and no module starts
  -- with it
  | true =>
    obtain ⟨before', _⟩ := c₃
    subst hend
    have hprotocol : Finds (nextIf 'M' >>= fun isMetatype =>
        if isMetatype then aroundType .existentialMetatype else protocolList) ⟨parse (n + 1)⟩
        ⟨⟨'P'.toUInt8 :: before, rest⟩, table, depth⟩
        (typeContent true (.module m) (.identifier name)) ⟨'_'.toUInt8 :: before', []⟩ :=
      Finds.bind (.nextIf rfl (hm.nextIf (by decide) (by decide))) fun t ht hdepth =>
        finds_protocolList hm hname ht (hdepth ▸ hdeep) rfl
    exact ⟨_, rfl, hprotocol⟩

/-- The type is one production, and the context of the class or protocol is another one inside of
it. -/
theorem finds_global {n : Nat} {before rest : List UInt8} {isProtocol : Bool}
    (h : SpellsType ⟨'t'.toUInt8 :: before, rest⟩ isProtocol m name) :
    ∃ c, c.rest = [] ∧ Finds global ⟨parse (n + 2)⟩ ⟨⟨before, 't'.toUInt8 :: rest⟩, #[], 0⟩
      (.branch .typeMangling [.typeOf (typeContent isProtocol (.module m) (.identifier name))])
      c := by
  obtain ⟨c, hempty, hcontent⟩ := finds_contentRule (n := n)
    (s := ⟨⟨'t'.toUInt8 :: before, rest⟩, #[], 1⟩) h (by show 1 < maxDepth; decide)
  have htype : Finds type ⟨parse (n + 2)⟩ ⟨⟨'t'.toUInt8 :: before, rest⟩, #[], 0⟩
      (.typeOf (typeContent isProtocol (.module m) (.identifier name))) c :=
    .production ((Finds.nested (by show 0 < maxDepth; decide) hcontent).bind fun _ ht _ => .ret ht)
  have haround : Finds (aroundType .typeMangling) ⟨parse (n + 2)⟩
      ⟨⟨'t'.toUInt8 :: before, rest⟩, #[], 0⟩
      (.branch .typeMangling [.typeOf (typeContent isProtocol (.module m) (.identifier name))]) c :=
    htype.bind fun _ ht _ => .ret ht
  exact ⟨c, hempty, haround⟩

/-- The descent decoder finds the tree of every runtime type name. -/
theorem decodeSymbol_of_spellsType {rest : List UInt8} {isProtocol : Bool}
    (h : SpellsType ⟨(Utf8.encode "_Tt").reverse, rest⟩ isProtocol m name) :
    decodeSymbol (Utf8.encode "_Tt" ++ rest) =
      some (typeTree isProtocol (.module m) (.identifier name)) := by
  -- attributes and headers start with a `T`
  have hheads : ∀ text ∈ frontTexts, (Utf8.encode text).head? = some 'T'.toUInt8 := by decide
  have hplain : ∀ text ∈ frontTexts, ¬ Utf8.encode text <+: 't'.toUInt8 :: rest := by
    intro text htext hprefix
    obtain ⟨l, hl⟩ := List.head?_eq_some_iff.mp (hheads text htext)
    rw [hl, List.cons_prefix_cons] at hprefix
    exact absurd hprefix.1 (by decide)
  obtain ⟨n, hn⟩ : ∃ n, (Utf8.encode "_Tt" ++ rest).length + 1 = n + 2 := by
    have hlength : (Utf8.encode "_Tt").length = 3 := by decide
    refine ⟨rest.length + 2, ?_⟩
    rw [List.length_append, hlength]
    omega
  obtain ⟨c, hempty, t, hrun, hcursor, -⟩ := finds_global (n := n) h
  have hparts : symbolParts ⟨parse ((Utf8.encode "_Tt" ++ rest).length + 1)⟩
      (State.start (Utf8.encode "_Tt" ++ rest)) = (some [_], t) :=
    (symbolParts_plain hplain).trans (by rw [hn]; exact run_bind_of_eq hrun)
  refine decodeSymbol_eq_some_iff.mpr ⟨_, t, hparts, ?_⟩
  rw [hcursor, hempty, if_pos rfl]
  rfl

end Legacy

/-! ## Agreement -/

/-- The two decoders agree on runtime type names: where no length has a leading zero, every tree
that the stack decoder finds behind `_Tt` is found by the descent decoder. -/
theorem decodeSymbol_runtimeTypeName {resolver : Option Resolver} {rest : List UInt8} {root : Node}
    (hplain : PlainLengths rest.tail)
    (h : (Current.decodeSymbol resolver (Utf8.encode "_Tt" ++ rest)).tree = some root) :
    Legacy.decodeSymbol (Utf8.encode "_Tt" ++ rest) = some root := by
  obtain ⟨isProtocol, m, name, hspells, rfl⟩ := Current.spellsType_of_decodeSymbol hplain h
  exact Legacy.decodeSymbol_of_spellsType hspells

/-- A class of some module, and a protocol of the standard library. -/
theorem decodeSymbol_runtimeTypeName_both :
    (∃ root, (Current.decodeSymbol none (Utf8.encode "_Tt" ++ Utf8.encode "C4main3Foo")).tree =
        some root ∧
      Legacy.decodeSymbol (Utf8.encode "_Tt" ++ Utf8.encode "C4main3Foo") = some root) ∧
    ∃ root, (Current.decodeSymbol none (Utf8.encode "_Tt" ++ Utf8.encode "Ps8Hashable_")).tree =
        some root ∧
      Legacy.decodeSymbol (Utf8.encode "_Tt" ++ Utf8.encode "Ps8Hashable_") = some root := by
  have hclass : (Current.decodeSymbol none
      (Utf8.encode "_Tt" ++ Utf8.encode "C4main3Foo")).tree.isSome = true := by
    decide +kernel
  have hprotocol : (Current.decodeSymbol none
      (Utf8.encode "_Tt" ++ Utf8.encode "Ps8Hashable_")).tree.isSome = true := by
    decide +kernel
  obtain ⟨classRoot, hclass⟩ := Option.isSome_iff_exists.mp hclass
  obtain ⟨protocolRoot, hprotocol⟩ := Option.isSome_iff_exists.mp hprotocol
  exact ⟨⟨classRoot, hclass, decodeSymbol_runtimeTypeName (by decide) hclass⟩,
    protocolRoot, hprotocol, decodeSymbol_runtimeTypeName (by decide) hprotocol⟩

end SwiftMangling
