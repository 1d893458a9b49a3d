import SwiftMangling.Proofs.Legacy.Continuation
import SwiftMangling.Proofs.Legacy.Local

/-!
# Headers of specialized symbols

In front of a specialized symbol stand the headers that say how it was specialized. They contain
types and names, which are added to the table of references and nested in each other, but none of
that is left behind: each header clears the table, and every level of nesting is left again. So what
follows the headers is decoded as if it stood alone (`decodeSymbol_specialized`).
-/

namespace SwiftMangling.Legacy

open Decoding Node

/-- Reads the headers of a specialized symbol and the prefix of the symbol behind them. -/
def headers : Decoder (List Node) := do
  require (← nextIfText "_TTS")
  let nodes ← specializations ((← remaining) + 1)
  require (← nextIfText "_T")
  return nodes

/-- The headers of a specialized symbol, and what follows the prefix behind them. -/
def headers? (input : List UInt8) : Option (List Node × List UInt8) :=
  match headers ⟨parse (input.length + 1)⟩ (State.start input) with
  | (some nodes, s) => some (nodes, s.cursor.rest)
  | (none, _) => none

/-- The kinds of the headers of specialized symbols. -/
def headerKinds : List Kind :=
  [.genericSpecialization, .genericSpecializationNotReAbstracted, .functionSignatureSpecialization]

/-- What can stand between the prefix and a symbol: attributes, and the first of the headers. -/
def frontTexts : List String :=
  "TS" :: attributes.map Prod.fst

example : frontTexts = ["TS", "To", "TO", "TD", "Td", "TV"] := rfl

instance {N D j : Nat} : Portable N D j headers :=
  inferInstanceAs (Portable N D j (_ >>= _))

/-! ## What is left behind -/

/-- A header is one of the kinds that a specialized symbol starts with. -/
theorem yields_specialization : Yields (fun n => n.kind ∈ headerKinds) specialization := by
  unfold specialization
  refine .bind fun c => ?_
  dsimp only
  split
  case h_4 => exact fun _ _ _ _ h => by cases h
  all_goals
    rw [pure_bind]
    refine .bind fun _ => .bind fun _ => .bind fun _ => .bind fun _ => .ret ?_
    simp [headerKinds, branch]

/-- There is at least one header, each is a specialization, and no reference can name what the last
of them contains. -/
theorem specializations_spec (n : Nat) :
    Triple (fun _ => True) (fun _ => True) (specializations n)
      (fun hs s => (hs ≠ [] ∧ ∀ h ∈ hs, h.kind ∈ headerKinds) ∧ s.substitutions = #[])
      fun _ => True := by
  induction n with
  | zero => exact .fail fun _ => id
  | succ n ih =>
    rw [specializations]
    refine Triple.bind (Q := fun h _ => h.kind ∈ headerKinds)
      ⟨fun g s _ _ => ?_⟩ fun h => .intro_pre (fun _ => id) fun hkind => ?_
    · rcases hrun : specialization g s with ⟨_ | h, t⟩
      · trivial
      · exact yields_specialization g s h t hrun
    -- whatever a header has added to the table is gone before the next one is looked for
    refine Triple.bind (Q := fun _ (s : State) => s.substitutions = #[])
      ⟨fun _ _ _ _ => rfl⟩ fun _ => ?_
    refine Triple.bind (Q := fun _ (s : State) => s.substitutions = #[])
      ⟨fun _ _ _ hs => hs⟩ fun more => ?_
    cases more with
    | true =>
      refine (ih.pre fun _ _ => trivial).bind fun hs => .ret fun s hspec => ⟨⟨?_, ?_⟩, hspec.2⟩
      · exact List.cons_ne_nil h hs
      · exact List.forall_mem_cons.mpr ⟨hkind, hspec.1.2⟩
    | false => exact .ret fun s hs => ⟨⟨List.cons_ne_nil h [], by simpa using hkind⟩, hs⟩

/-- A text that comes next is read. -/
theorem run_nextIfText_append {text : String} {g : Grammar} {s : State} {rest : List UInt8}
    (h : s.cursor.rest = Utf8.encode text ++ rest) :
    nextIfText text g s =
      (some true, { s with cursor := ⟨(Utf8.encode text).reverse ++ s.cursor.before, rest⟩ }) := by
  have hcursor : s.cursor = ⟨s.cursor.before, Utf8.encode text ++ rest⟩ := by rw [← h]
  show (some (s.cursor.nextIfBytes _).1, { s with cursor := (s.cursor.nextIfBytes _).2 }) = _
  rw [hcursor, Cursor.nextIfBytes_append]

/-- A text that does not come next is left alone. -/
theorem run_nextIfText_of_not_isPrefix {text : String} {g : Grammar} {s : State}
    (h : ¬ Utf8.encode text <+: s.cursor.rest) : nextIfText text g s = (some false, s) := by
  show (some (s.cursor.nextIfBytes _).1, { s with cursor := (s.cursor.nextIfBytes _).2 }) = _
  rw [Cursor.nextIfBytes_of_not_isPrefix h]

theorem nextIfText_eq_true {text : String} {g : Grammar} {s t : State}
    (h : nextIfText text g s = (some true, t)) :
    ∃ rest, s.cursor.rest = Utf8.encode text ++ rest ∧
      t = { s with cursor := ⟨(Utf8.encode text).reverse ++ s.cursor.before, rest⟩ } := by
  by_cases hprefix : Utf8.encode text <+: s.cursor.rest
  · obtain ⟨rest, hrest⟩ := hprefix
    rw [run_nextIfText_append hrest.symm] at h
    exact ⟨rest, hrest.symm, (congrArg Prod.snd h).symm⟩
  · rw [run_nextIfText_of_not_isPrefix hprefix] at h
    cases h

/-- Behind the headers the prefix of the symbol has been read, and nothing can be referred to. -/
theorem headers_eq_some {g : Grammar} {s t : State} {hs : List Node}
    (h : headers g s = (some hs, t)) :
    (hs ≠ [] ∧ ∀ h ∈ hs, h.kind ∈ headerKinds) ∧ t.substitutions = #[] ∧
      ∃ before, t.cursor.before = (Utf8.encode "_T").reverse ++ before := by
  -- the run of the headers, and the prefix read after it
  obtain ⟨_, s₁, -, h⟩ := bind_eq_some_iff.mp h
  obtain ⟨_, s₂, -, h⟩ := bind_eq_some_iff.mp h
  obtain ⟨n, s₃, -, h⟩ := bind_eq_some_iff.mp h
  obtain ⟨hs', s₄, hrun, h⟩ := bind_eq_some_iff.mp h
  obtain ⟨found, s₅, hnext, h⟩ := bind_eq_some_iff.mp h
  obtain ⟨_, s₆, hrequire, h⟩ := bind_eq_some_iff.mp h
  obtain ⟨rfl, rfl⟩ := require_eq_some_iff.mp hrequire
  obtain ⟨rest, -, rfl⟩ := nextIfText_eq_true hnext
  obtain ⟨rfl, rfl⟩ : hs' = hs ∧ _ = t := by simpa [run_pure] using h
  have hspec := (specializations_spec (n + 1)).run g s₃ trivial trivial
  rw [hrun] at hspec
  exact ⟨hspec.1, hspec.2, s₄.cursor.before, rfl⟩

/-! ## What follows -/

/-- The parts of a specialized symbol are its headers and the symbol behind them. -/
theorem symbolParts_specialized (g : Grammar) (rest : List UInt8) :
    symbolParts g (State.start (Utf8.encode "_TTS" ++ rest)) =
      (headers >>= fun hs => global >>= fun body => pure (hs ++ [body])) g
        (State.start (Utf8.encode "_TTS" ++ rest)) := by
  let s := State.start (Utf8.encode "_TTS" ++ rest)
  let t : State := ⟨⟨(Utf8.encode "_T").reverse, Utf8.encode "TS" ++ rest⟩, #[], 0⟩
  let u : State := ⟨⟨(Utf8.encode "_TTS").reverse, rest⟩, #[], 0⟩
  have hprefix : nextIfText "_T" g s = (some true, t) := run_nextIfText_append rfl
  have hmark : nextIfText "TS" g t = (some true, u) := run_nextIfText_append rfl
  -- the prefix and the mark behind it can be read at once
  have hwhole : nextIfText "_TTS" g s = (some true, u) := run_nextIfText_append rfl
  have hfound (v : State) : require true g v = (some (), v) := rfl
  unfold symbolParts headers
  simp only [bind_assoc]
  refine (run_bind_of_eq hprefix).trans <| (run_bind_of_eq (hfound t)).trans <|
    (run_bind_of_eq hmark).trans <| .trans ?_ <| ((run_bind_of_eq hwhole).trans
      (run_bind_of_eq (hfound u))).symm
  rfl

/-- No attribute is read where none of the codes stands. -/
theorem symbolAttribute_of_not_isPrefix {codes : List (String × Kind)} {g : Grammar} {s : State}
    (h : ∀ code ∈ codes, ¬ Utf8.encode code.1 <+: s.cursor.rest) :
    symbolAttribute codes g s = (some [], s) := by
  induction codes with
  | nil => rfl
  | cons code codes ih =>
    rw [List.forall_mem_cons] at h
    rw [symbolAttribute, run_bind, run_nextIfText_of_not_isPrefix h.1]
    exact ih h.2

/-- Without headers and attributes there is only one part. -/
theorem symbolParts_plain {g : Grammar} {rest : List UInt8}
    (h : ∀ text ∈ frontTexts, ¬ Utf8.encode text <+: rest) :
    symbolParts g (State.start (Utf8.encode "_T" ++ rest)) =
      (global >>= fun body => pure [body]) g ⟨⟨(Utf8.encode "_T").reverse, rest⟩, #[], 0⟩ := by
  rw [frontTexts, List.forall_mem_cons] at h
  let marked : State := ⟨⟨(Utf8.encode "_T").reverse, rest⟩, #[], 0⟩
  have hprefix : nextIfText "_T" g (State.start (Utf8.encode "_T" ++ rest)) = (some true, marked) :=
    run_nextIfText_append rfl
  have hmark : nextIfText "TS" g marked = (some false, marked) :=
    run_nextIfText_of_not_isPrefix h.1
  have hattribute : symbolAttribute attributes g marked = (some [], marked) :=
    symbolAttribute_of_not_isPrefix fun code hcode => h.2 code.1 (List.mem_map_of_mem hcode)
  have hfound : require true g marked = (some (), marked) := rfl
  unfold symbolParts
  exact (run_bind_of_eq hprefix).trans <| (run_bind_of_eq hfound).trans <|
    (run_bind_of_eq hmark).trans <| run_bind_of_eq hattribute

/-- A symbol without its prefix is decoded in the same way behind any beginning, provided that there
are enough productions for the bytes that are left. -/
theorem global_behind (before' : List UInt8) {before rest : List UInt8} {table : Array Node}
    {depth n m : Nat} {body : Node} {t : State} (hn : rest.length ≤ n) (hm : rest.length ≤ m)
    (h : global ⟨parse n⟩ ⟨⟨before, rest⟩, table, depth⟩ = (some body, t)) :
    ∃ t', global ⟨parse m⟩ ⟨⟨before', rest⟩, table, depth⟩ = (some body, t') ∧
      t'.cursor.rest = t.cursor.rest := by
  have hportable : Portable rest.length depth 0 global := inferInstance
  -- the two runs are in the same state but for what is in front of them
  have hbeside : Beside (AtDepth depth) before before' rest []
      (⟨⟨before, rest⟩, table, depth⟩ : State) ⟨⟨before', rest⟩, table, depth⟩ :=
    ⟨rfl, rfl, rfl, rfl⟩
  obtain ⟨hresult, l, -, hend⟩ :=
    hportable.run (parse_alike hn hm) (Nat.le_refl _) (Nat.zero_le _) hbeside
  rw [h] at hresult hend
  revert hresult hend
  rcases global ⟨parse m⟩ ⟨⟨before', rest⟩, table, depth⟩ with ⟨a, t'⟩
  rintro ⟨⟩ hend
  exact ⟨t', rfl, congrArg (·.cursor.rest) hend.same⟩

/-- The headers of an input end somewhere in it, with the prefix of the symbol, in the state in
which the symbol alone would be decoded. -/
theorem headers_start {input : List UInt8} {hs : List Node} {t : State}
    (h : headers ⟨parse (input.length + 1)⟩ (State.start input) = (some hs, t)) :
    t.substitutions = #[] ∧ t.depth = 0 ∧ Utf8.encode "_T" ++ t.cursor.rest <:+ input := by
  obtain ⟨-, hempty, before, hbefore⟩ := headers_eq_some h
  have hportable : Portable input.length 0 0 headers := inferInstance
  have hbeside : Beside (AtDepth 0) [] [] input [] (State.start input) (State.start input) :=
    ⟨rfl, rfl, rfl, rfl⟩
  obtain ⟨-, l, -, hend⟩ := hportable.run (parse_alike (Nat.le_succ _) (Nat.le_succ _))
    (Nat.le_refl _) (Nat.zero_le _) hbeside
  rw [h] at hend
  -- what the headers have read ends with the prefix of the symbol
  have hread : t.cursor.before = l := hend.before.trans (List.append_nil l)
  have hinput : l.reverse ++ t.cursor.rest = input := hend.input
  refine ⟨hempty, hend.keeps, before.reverse, ?_⟩
  rw [← hinput, ← hread, hbefore, List.reverse_append, List.reverse_reverse, List.append_assoc]

/-- Headers are isolated from the symbol that they stand in front of: unless an attribute or a
header could be read behind them, the symbol is decoded as if it stood alone, and its parts follow
the headers. -/
theorem decodeSymbol_specialized {input : List UInt8} {root : Node}
    (hstart : Utf8.encode "_TTS" <+: input) (h : decodeSymbol input = some root) :
    ∃ hs rest, headers? input = some (hs, rest) ∧ Utf8.encode "_T" ++ rest <:+ input ∧
      hs ≠ [] ∧ (∀ h ∈ hs, h.kind ∈ headerKinds) ∧
      ((∀ text ∈ frontTexts, ¬ Utf8.encode text <+: rest) →
        ∃ alone, decodeSymbol (Utf8.encode "_T" ++ rest) = some alone ∧
          root.children = hs ++ alone.children) := by
  obtain ⟨parts, u, hparts, rfl⟩ := decodeSymbol_eq_some_iff.mp h
  obtain ⟨hs, t, hheaders, hbody⟩ : ∃ hs t,
      headers ⟨parse (input.length + 1)⟩ (State.start input) = (some hs, t) ∧
        (global >>= fun body => pure (hs ++ [body])) ⟨parse (input.length + 1)⟩ t =
          (some parts, u) := by
    obtain ⟨rest, rfl⟩ := hstart
    exact bind_eq_some_iff.mp ((symbolParts_specialized _ rest).symm.trans hparts)
  obtain ⟨body, u', hglobal, hpure⟩ := bind_eq_some_iff.mp hbody
  obtain ⟨rfl, rfl⟩ : hs ++ [body] = parts ∧ u' = u := by simpa [run_pure] using hpure
  obtain ⟨⟨hne, hkinds⟩, -⟩ := headers_eq_some hheaders
  obtain ⟨hempty, hdepth, hsuffix⟩ := headers_start hheaders
  obtain ⟨⟨before, rest⟩, table, depth⟩ := t
  obtain rfl : table = #[] := hempty
  obtain rfl : depth = 0 := hdepth
  dsimp only at hsuffix
  refine ⟨hs, rest, by rw [headers?, hheaders], hsuffix, hne, hkinds, fun hfront => ?_⟩
  -- the symbol alone, behind its own prefix, leaves the same unread
  have hle := hsuffix.length_le
  rw [List.length_append] at hle
  obtain ⟨v, halone, hrest⟩ := global_behind (Utf8.encode "_T").reverse
    (m := (Utf8.encode "_T" ++ rest).length + 1) (by omega)
    (by rw [List.length_append]; omega) hglobal
  have hparts' : symbolParts ⟨parse ((Utf8.encode "_T" ++ rest).length + 1)⟩
      (State.start (Utf8.encode "_T" ++ rest)) = (some [body], v) :=
    (symbolParts_plain hfront).trans (run_bind_of_eq halone)
  refine ⟨_, decodeSymbol_eq_some_iff.mpr ⟨[body], v, hparts', rfl⟩, ?_⟩
  rw [hrest]
  simp [branch]

/-- A method that refers to its class by a number, behind two headers the first of which mentions
another module and another type. -/
theorem decodeSymbol_specialized_method :
    ∃ root hs alone,
      decodeSymbol (Utf8.encode "_TTSg5V4main3Foo___TTSf4d___TFC3lib3Bar3bazFT_S0_") = some root ∧
      decodeSymbol (Utf8.encode "_T" ++ Utf8.encode "FC3lib3Bar3bazFT_S0_") = some alone ∧
      hs ≠ [] ∧ root.children = hs ++ alone.children := by
  have hdecoded : (decodeSymbol
      (Utf8.encode "_TTSg5V4main3Foo___TTSf4d___TFC3lib3Bar3bazFT_S0_")).isSome = true := by
    decide +kernel
  have hrest : (headers? (Utf8.encode "_TTSg5V4main3Foo___TTSf4d___TFC3lib3Bar3bazFT_S0_")).map
      Prod.snd = some (Utf8.encode "FC3lib3Bar3bazFT_S0_") := by
    decide +kernel
  obtain ⟨root, hroot⟩ := Option.isSome_iff_exists.mp hdecoded
  obtain ⟨hs, rest, hheaders, -, hne, -, halone⟩ := decodeSymbol_specialized (by decide) hroot
  rw [hheaders] at hrest
  obtain rfl : rest = Utf8.encode "FC3lib3Bar3bazFT_S0_" := Option.some.inj hrest
  obtain ⟨alone, hdecode, hchildren⟩ := halone (by decide)
  exact ⟨root, hs, alone, hroot, hdecode, hne, hchildren⟩

end SwiftMangling.Legacy
