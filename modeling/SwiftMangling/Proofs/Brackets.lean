import Mathlib.Data.String.Basic

/-!
# Nested brackets

The brackets `()`, `[]` and `{}` of a text are nested if each of them is closed by its counterpart
and two pairs of them do not cross. `Nested` says so by a grammar. `scan` reads a text and keeps the
brackets that are still to be closed, which can be run, and which tells for a piece of a text what
it does to the brackets that are open before it; a text is nested just if nothing is open behind it
(`nested_iff`).
-/

namespace SwiftMangling

namespace Brackets

/-- The bracket that closes `c`, if `c` opens one. -/
def closer? : Char → Option Char
  | '(' => some ')'
  | '[' => some ']'
  | '\x7b' => some '\x7d'
  | _ => none

/-- Whether `c` closes a bracket. -/
def isCloser (c : Char) : Bool :=
  c == ')' || c == ']' || c == '\x7d'

/-- Whether `c` opens or closes a bracket. -/
def isBracket (c : Char) : Bool :=
  (closer? c).isSome || isCloser c

/-- The texts whose brackets are nested. -/
inductive Nested : List Char → Prop where
  /-- Nothing. -/
  | nil : Nested []
  /-- A character that is no bracket, before a text. -/
  | plain {c : Char} {cs : List Char} (hplain : isBracket c = false) (rest : Nested cs) :
    Nested (c :: cs)
  /-- A text in brackets, before another one. -/
  | pair {a b : Char} {cs ds : List Char} (hpair : closer? a = some b) (inner : Nested cs)
    (rest : Nested ds) : Nested (a :: cs ++ b :: ds)

/-- The brackets that are awaited behind a text, the next one first, if `st` are awaited before it.
There are none if the text closes a bracket that is not the next one. -/
def scan (st : List Char) : List Char → Option (List Char)
  | [] => some st
  | c :: cs =>
    match closer? c with
    | some d => scan (d :: st) cs
    | none =>
      if isCloser c then
        match st with
        | [] => none
        | d :: st => if c = d then scan st cs else none
      else scan st cs

variable {st st' cs ds : List Char} {c d : Char}

theorem isBracket_eq_false_iff : isBracket c = false ↔ closer? c = none ∧ isCloser c = false := by
  simp [isBracket]

theorem scan_plain (h : isBracket c = false) : scan st (c :: cs) = scan st cs := by
  obtain ⟨hopen, hclose⟩ := isBracket_eq_false_iff.mp h
  simp [scan, hopen, hclose]

example : scan [] ['f', '('] = some [')'] := by cbv

/-- Reading on from what was open behind the first part. -/
theorem scan_append (st cs ds : List Char) :
    scan st (cs ++ ds) = (scan st cs).bind fun st => scan st ds := by
  -- by induction on the first text; the scan of it fails where that of the whole does
  induction cs generalizing st with
  | nil => rfl
  | cons c cs ih =>
    simp only [List.cons_append, scan]
    cases closer? c with
    | some d => exact ih _
    | none =>
      dsimp only
      split
      · cases st with
        | nil => rfl
        | cons d st =>
          dsimp only
          split
          · exact ih _
          · rfl
      · exact ih _

/-- Brackets that a text does not reach stay awaited. -/
theorem scan_below (h : scan st cs = some st') (below : List Char) :
    scan (st ++ below) cs = some (st' ++ below) := by
  -- by induction on the text, which closes none of the brackets below its own
  induction cs generalizing st with
  | nil =>
    cases h
    rfl
  | cons c cs ih =>
    simp only [scan] at h ⊢
    revert h
    cases closer? c with
    | some d => exact ih
    | none =>
      dsimp only
      split
      · cases st with
        | nil => exact nofun
        | cons d st =>
          dsimp only [List.cons_append]
          split
          · exact ih
          · exact nofun
      · exact ih

/-! ## Nested texts -/

theorem scan_closer (hpair : closer? c = some d) : scan (d :: st) (d :: cs) = scan st cs := by
  have hd : closer? d = none ∧ isCloser d = true := by
    unfold closer? at hpair
    split at hpair <;> cases hpair
    all_goals exact ⟨rfl, rfl⟩
  rw [scan, hd.1]
  dsimp only
  rw [if_pos hd.2, if_pos rfl]

theorem Nested.scan_eq (h : Nested cs) (st : List Char) : scan st cs = some st := by
  induction h generalizing st with
  | nil => rfl
  | plain hplain _ ih => rw [scan_plain hplain, ih]
  | pair hpair _ _ ihInner ihRest =>
    simp only [List.cons_append, scan, hpair]
    rw [scan_append, ihInner, Option.bind_some, scan_closer hpair, ihRest]

/-- What is awaited is closed behind a nested text. The induction is on the length of the text,
because the text behind a pair is a part of the text behind its first bracket. -/
theorem exists_closed (h : scan (d :: st) cs = some []) :
    ∃ inner rest, cs = inner ++ d :: rest ∧ Nested inner ∧ scan st rest = some [] := by
  induction hlength : cs.length using Nat.strongRecOn generalizing d st cs with
  | ind l ih =>
    cases cs with
    | nil => cases h
    | cons c cs =>
      simp only [scan] at h
      cases hc : closer? c with
      | some e =>
        -- the pair that starts here is closed first
        rw [hc] at h
        obtain ⟨cs, ds, rfl, hcs, hds⟩ := ih cs.length (by simp [← hlength]) h rfl
        obtain ⟨inner, rest, rfl, hinner, hrest⟩ :=
          ih ds.length (by simp [← hlength]; omega) hds rfl
        exact ⟨c :: cs ++ e :: inner, rest, by simp, .pair hc hcs hinner, hrest⟩
      | none =>
        rw [hc] at h
        dsimp only at h
        cases hclose : isCloser c with
        | true =>
          rw [hclose, if_pos rfl] at h
          split at h
          · rename_i hcd
            exact ⟨[], cs, by rw [hcd]; rfl, .nil, h⟩
          · cases h
        | false =>
          rw [hclose] at h
          obtain ⟨inner, rest, rfl, hinner, hrest⟩ := ih cs.length (by simp [← hlength]) h rfl
          exact ⟨c :: inner, rest, rfl, .plain (isBracket_eq_false_iff.mpr ⟨hc, hclose⟩) hinner, hrest⟩

/-- A text that closes all it opens, and nothing else, is nested. -/
theorem nested_of_scan (h : scan [] cs = some []) : Nested cs := by
  induction hlength : cs.length using Nat.strongRecOn generalizing cs with
  | ind l ih =>
    cases cs with
    | nil => exact .nil
    | cons c cs =>
      simp only [scan] at h
      cases hc : closer? c with
      -- an opening bracket is closed somewhere, and what follows is shorter
      | some d =>
        rw [hc] at h
        obtain ⟨inner, rest, rfl, hinner, hrest⟩ := exists_closed h
        exact .pair hc hinner (ih rest.length (by simp [← hlength]; omega) hrest rfl)
      | none =>
        rw [hc] at h
        dsimp only at h
        cases hclose : isCloser c with
        | true =>
          rw [hclose] at h
          cases h
        | false =>
          rw [hclose] at h
          exact .plain (isBracket_eq_false_iff.mpr ⟨hc, hclose⟩)
            (ih cs.length (by simp [← hlength]) h rfl)

/-- A text is nested just if it leaves nothing open. -/
theorem nested_iff : Nested cs ↔ scan [] cs = some [] :=
  ⟨fun h => h.scan_eq [], nested_of_scan⟩

instance : Decidable (Nested cs) :=
  decidable_of_iff _ nested_iff.symm

theorem Nested.append (hcs : Nested cs) (hds : Nested ds) : Nested (cs ++ ds) := by
  rw [nested_iff, scan_append, hcs.scan_eq, Option.bind_some, hds.scan_eq]

/-- A text without brackets is nested. -/
theorem nested_of_plain (h : ∀ c ∈ cs, isBracket c = false) : Nested cs := by
  induction cs with
  | nil => exact .nil
  | cons c cs ih =>
    obtain ⟨hc, hcs⟩ := List.forall_mem_cons.mp h
    exact .plain hc (ih hcs)

end Brackets

open Brackets

/-! ## Strings -/

/-- A text whose brackets are nested. -/
class NestedText (s : String) : Prop where
  nested : Nested s.toList

namespace NestedText

variable {s : String}

theorem append {t : String} (hs : NestedText s) (ht : NestedText t) : NestedText (s ++ t) :=
  ⟨String.toList_append ▸ hs.nested.append ht.nested⟩

theorem intercalate (hs : NestedText s) {ts : List String} (h : ∀ t ∈ ts, NestedText t) :
    NestedText (s.intercalate ts) := by
  induction ts with
  | nil => exact ⟨.nil⟩
  | cons t ts ih =>
    obtain ⟨ht, hts⟩ := List.forall_mem_cons.mp h
    cases ts with
    | nil => rwa [String.intercalate_singleton]
    | cons u ts =>
      rw [String.intercalate_cons_cons]
      exact (ht.append hs).append (ih hts)

/-! ## Numbers -/

/-- The digits of a number. -/
theorem exists_digitChar {b n : Nat} (hb : 1 < b) {c : Char} (hc : c ∈ Nat.toDigits b n) :
    ∃ d < b, c = Nat.digitChar d := by
  induction n using Nat.strongRecOn with
  | ind n ih =>
    rw [Nat.toDigits_eq_if hb] at hc
    split at hc
    · exact ⟨n, ‹_›, List.mem_singleton.mp hc⟩
    · rcases List.mem_append.mp hc with hc | hc
      · exact ih _ (Nat.div_lt_self (by omega) hb) hc
      · exact ⟨n % b, Nat.mod_lt _ (by omega), List.mem_singleton.mp hc⟩

instance (n : Nat) : NestedText n.repr where
  nested := by
    rw [Nat.toList_repr]
    refine nested_of_plain fun c hc => ?_
    obtain ⟨d, hd, rfl⟩ := exists_digitChar (by decide) hc
    have hdigits : ∀ d < 10, isBracket d.digitChar = false := by decide
    exact hdigits d hd

end NestedText

end SwiftMangling
