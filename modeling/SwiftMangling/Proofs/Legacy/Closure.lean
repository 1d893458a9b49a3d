import SwiftMangling.Proofs.Legacy.Progress

/-!
# The argument types of a propagated closure

Behind the name of a closure that was propagated into a parameter stand the types of its arguments,
up to a `_`. The list ends in front of the `_`, but also where a type fails, and a type that fails
can have read something before. So between the name and the `_` there are the types and then what
was read by a type that failed (`rest_of_propagatedClosure`): exactly the types if a `_` follows
them, and something more if none does (`propagatedClosure_failedType`).
-/

namespace SwiftMangling.Legacy

open Decoding

variable {g : Grammar} {s t u : State} {k : Nat} {nodes : List Node}
  {types : List (List UInt8 × Node)}

/-- Reading starts in `s` and goes on to `t`, with a type for each of the given ones, which takes
the given bytes. -/
inductive ReadsTypes : State → List (List UInt8 × Node) → State → Prop
  | nil (s : State) : ReadsTypes s [] s
  | cons {s t u : State} {bytes : List UInt8} {n : Node} {types : List (List UInt8 × Node)}
      (hread : type descent s = (some n, t)) (hrest : s.cursor.rest = bytes ++ t.cursor.rest)
      (htypes : ReadsTypes t types u) : ReadsTypes s ((bytes, n) :: types) u

/-- The types stand next to each other. -/
theorem ReadsTypes.rest (h : ReadsTypes s types t) :
    s.cursor.rest = types.flatMap Prod.fst ++ t.cursor.rest := by
  induction h with
  | nil => rfl
  | cons _ hrest _ ih => rw [hrest, ih, List.flatMap_cons, List.append_assoc]

/-- What was expected stood in front of what is left. -/
theorem rest_of_expect {c : Char} {a : Unit} (h : expect c g s = (some a, t)) :
    s.cursor.rest = c.toUInt8 :: t.cursor.rest := by
  obtain ⟨found, u, hnext, hrequire⟩ := bind_eq_some_iff.mp h
  obtain ⟨rfl, rfl⟩ := require_eq_some_iff.mp hrequire
  obtain ⟨hfound, rfl⟩ := Prod.ext_iff.mp hnext
  obtain ⟨rest, hrest, hcursor⟩ :=
    Cursor.nextIf_eq_true (Prod.ext (Option.some.inj hfound) rfl)
  exact hrest.trans (congrArg (c.toUInt8 :: ·) (congrArg Cursor.rest hcursor).symm)

/-- Whether a character comes next is whether its byte does. -/
theorem peek_eq_underscore_iff :
    (s.cursor.peek?.map charOfByte == some '_') = true ↔ s.cursor.peek? = some '_'.toUInt8 := by
  have hchar : some '_' = (some '_'.toUInt8).map charOfByte := by decide
  rw [beq_iff_eq, hchar]
  exact (Option.map_injective fun _ _ => charOfByte_inj.mp).eq_iff

/-- Where the list of types ends, after `u`: in front of a `_`, or where a type fails. -/
inductive EndsTypes (u t : State) : Prop
  | terminated (hpeek : u.cursor.peek? = some '_'.toUInt8) (hend : t = u)
  | failed (hpeek : u.cursor.peek? ≠ some '_'.toUInt8) (hread : type descent u = (none, t))

/-- With more rounds than bytes, the list only ends in one of the two ways. -/
theorem readsTypes_of_closureTypes (hk : s.left < k)
    (h : closureTypes k descent s = (some nodes, t)) :
    ∃ types u, ReadsTypes s types u ∧ nodes = types.map Prod.snd ∧ EndsTypes u t := by
  -- by induction on the rounds, each of which but the last reads at least one byte
  induction k generalizing s nodes with
  | zero => omega
  | succ k ih =>
    obtain ⟨c, v, hpeek, h⟩ := bind_eq_some_iff.mp h
    obtain ⟨hc, rfl⟩ := Prod.mk.inj hpeek
    obtain rfl := Option.some.inj hc
    split at h
    next hend =>
      cases h
      exact ⟨[], _, .nil _, rfl, .terminated (peek_eq_underscore_iff.mp hend) rfl⟩
    next hend =>
      have hend := mt peek_eq_underscore_iff.mpr hend
      obtain ⟨found, v, hattempt, h⟩ := bind_eq_some_iff.mp h
      obtain ⟨hfound, hv⟩ := Prod.mk.inj hattempt
      cases found with
      | none =>
        cases h
        exact ⟨[], s, .nil s, rfl, .failed hend (Prod.ext (Option.some.inj hfound) hv)⟩
      | some n =>
        obtain ⟨others, w, hothers, h⟩ := bind_eq_some_iff.mp h
        cases h
        have hread : type descent s = (some n, v) := Prod.ext (Option.some.inj hfound) hv
        obtain ⟨bytes, hbytes⟩ := exists_read (d := type) inferInstance s
        rw [hread] at hbytes
        have hlt := consumes_type.lowers () s n (congrArg Prod.fst hread) trivial
        rw [descend, hread] at hlt
        obtain ⟨types, u, htypes, rfl, hends⟩ := ih (by dsimp only at hlt; omega) hothers
        exact ⟨(bytes, n) :: types, u, .cons hread hbytes htypes, rfl, hends⟩

/-- In front of a `_` nothing has been skipped, unless a type has failed. -/
theorem EndsTypes.skipped {rest : List UInt8} (h : EndsTypes u t)
    (ht : t.cursor.rest = '_'.toUInt8 :: rest) :
    ∃ skipped, u.cursor.rest = skipped ++ t.cursor.rest ∧
      (skipped = [] ↔ u.cursor.peek? = some '_'.toUInt8) ∧
      (skipped ≠ [] → type descent u = (none, t)) := by
  cases h with
  | terminated hpeek hend =>
    subst hend
    exact ⟨[], rfl, ⟨fun _ => hpeek, fun _ => rfl⟩, fun hne => absurd rfl hne⟩
  -- a type was tried as no `_` comes next, so with a `_` behind it, it has read something
  | failed hpeek hread =>
    obtain ⟨skipped, hskipped⟩ := exists_read (d := type) inferInstance u
    rw [hread] at hskipped
    refine ⟨skipped, hskipped, ⟨fun hnil => ?_, fun h => absurd h hpeek⟩, fun _ => hread⟩
    rw [Cursor.peek?, hskipped, hnil, ht]
    rfl

/-- A propagated closure is its name and the types behind it. Between the name and the `_` at the
end there are these types and behind them what a type that failed has read, which is nothing exactly
if a `_` comes next. -/
theorem rest_of_propagatedClosure (h : propagatedClosure descent s = (some nodes, t)) :
    ∃ name a types b skipped, identifierText descent s = (some name, a) ∧ ReadsTypes a types b ∧
      nodes = changeNodes .closure [name] ++ types.map Prod.snd ∧
      a.cursor.rest = types.flatMap Prod.fst ++ skipped ++ '_'.toUInt8 :: t.cursor.rest ∧
      (skipped = [] ↔ b.cursor.peek? = some '_'.toUInt8) ∧
      (skipped ≠ [] → ∃ c, type descent b = (none, c) ∧
        c.cursor.rest = '_'.toUInt8 :: t.cursor.rest) := by
  obtain ⟨name, a, hname, h⟩ := bind_eq_some_iff.mp h
  obtain ⟨n, a', hleft, h⟩ := bind_eq_some_iff.mp h
  obtain ⟨hn, rfl⟩ := Prod.mk.inj hleft
  obtain rfl := Option.some.inj hn
  obtain ⟨ns, c, htypes, h⟩ := bind_eq_some_iff.mp h
  obtain ⟨_, t', hexpect, h⟩ := bind_eq_some_iff.mp h
  cases h
  obtain ⟨types, b, hreads, rfl, hends⟩ := readsTypes_of_closureTypes (Nat.lt_succ_self _) htypes
  -- the `_` at the end is what has ended the list of types
  have hrest := rest_of_expect hexpect
  obtain ⟨skipped, hskipped, hnil, hfailed⟩ := hends.skipped hrest
  refine ⟨name, _, types, b, skipped, hname, hreads, rfl, ?_, hnil, fun hne => ?_⟩
  · rw [hreads.rest, hskipped, hrest, List.append_assoc]
  · exact ⟨c, hfailed hne, hrest⟩

/-- Two types and the end of the list. -/
theorem rest_of_propagatedClosure_types :
    let s := State.start (Utf8.encode "3fooSiSb_")
    ∃ nodes t, propagatedClosure descent s = (some nodes, t) ∧
      ∃ name a types b skipped, identifierText descent s = (some name, a) ∧ ReadsTypes a types b ∧
        nodes = changeNodes .closure [name] ++ types.map Prod.snd ∧
        a.cursor.rest = types.flatMap Prod.fst ++ skipped ++ '_'.toUInt8 :: t.cursor.rest := by
  intro s
  have hsome : (propagatedClosure descent s).1.isSome = true := by decide +kernel
  obtain ⟨nodes, t, hrun⟩ := exists_run_of_isSome hsome
  obtain ⟨name, a, types, b, skipped, hname, hreads, hnodes, hrest, -⟩ :=
    rest_of_propagatedClosure hrun
  exact ⟨nodes, t, hrun, name, a, types, b, skipped, hname, hreads, hnodes, hrest⟩

/-- An `E` on its own is no type. It is read nevertheless, and the list ends behind it without
it. -/
theorem propagatedClosure_failedType :
    let s := State.start (Utf8.encode "3fooE_")
    (∃ nodes t, propagatedClosure descent s = (some nodes, t) ∧
      ∀ name a types b, identifierText descent s = (some name, a) → ReadsTypes a types b →
        nodes = changeNodes .closure [name] ++ types.map Prod.snd →
        a.cursor.rest ≠ types.flatMap Prod.fst ++ '_'.toUInt8 :: t.cursor.rest) ∧
    (decodeSymbol (Utf8.encode "_TTSf0cl3fooE___TF4main3barFT_T_")).isSome = true := by
  intro s
  have hrun : (propagatedClosure descent s).1.any (·.length == 2) = true := by decide +kernel
  have hend : (propagatedClosure descent s).2.cursor.rest = [] := by decide +kernel
  have hname : (identifierText descent s).2.cursor.rest = Utf8.encode "E_" := by decide +kernel
  obtain ⟨nodes, hnodes, hlength⟩ := (Option.any_eq_true ..).mp hrun
  refine ⟨⟨nodes, _, Prod.ext hnodes rfl, ?_⟩, by decide +kernel⟩
  rintro name a types b ha - rfl
  -- the name takes two nodes, so there are no types
  obtain rfl : types = [] := by simpa [changeNodes] using hlength
  have ha : a.cursor.rest = Utf8.encode "E_" := by rw [← hname, ha]
  show a.cursor.rest ≠ [] ++ '_'.toUInt8 :: (propagatedClosure descent s).2.cursor.rest
  rw [ha, hend]
  decide

end SwiftMangling.Legacy
