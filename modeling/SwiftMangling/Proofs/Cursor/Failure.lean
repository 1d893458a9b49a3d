import SwiftMangling.Proofs.Cursor.Number

/-!
# What a failed operation leaves behind

An operation that fails should leave the cursor where it was, so that something else can be tried
there. All but one do: they look at what comes next before they move, or go back. A number that does
not fit is the exception. Its digits are read one by one, and the cursor stays in front of the digit
with which the number got too large, behind all the digits before it (`unmoved_iff_of_fails`).
-/

namespace SwiftMangling.Cursor

variable {c : Cursor}

/-- The operations of a cursor that can fail. -/
inductive Operation where
  | next
  | nextIf (b : UInt8)
  | nextIfAny (candidates : List UInt8)
  | nextIfBytes (s : List UInt8)
  | pushBack
  | slice (n : Nat)
  | text (n : Nat)
  | natural (width : Nat)

/-- Whether an operation succeeds, and the cursor that it leaves behind. -/
def Operation.run (c : Cursor) : Operation → Bool × Cursor
  | .next => (c.next.1.isSome, c.next.2)
  | .nextIf b => c.nextIf b
  | .nextIfAny candidates => ((c.nextIfAny candidates).1.isSome, (c.nextIfAny candidates).2)
  | .nextIfBytes s => c.nextIfBytes s
  | .pushBack => c.pushBack
  | .slice n => ((c.slice n).1.isSome, (c.slice n).2)
  | .text n => ((c.text n).1.isSome, (c.text n).2)
  | .natural width => ((c.natural width).1.isSome, (c.natural width).2)

/-- The operation reads a number whose first digits fit into its width, and then a digit with which
the number does not. -/
def Operation.Overflows (c : Cursor) : Operation → Prop
  | .natural width =>
    ∃ fit d rest, c.rest = fit ++ d :: rest ∧ fit ≠ [] ∧ Overflow (2 ^ width) fit d
  | _ => False

theorem eq_none_of_isSome {α : Type} {a : Option α} (h : a.isSome = false) : a = none :=
  Option.isNone_iff_eq_none.mp (Option.isSome_eq_false_iff.mp h)

/-! ## Operations that look before they move -/

theorem next_of_fails (h : c.next.1 = none) : c.next.2 = c := by
  obtain ⟨before, _ | ⟨b, rest⟩⟩ := c
  · rfl
  · cases h

theorem nextWhere_of_fails {p : UInt8 → Bool} (h : (c.nextWhere p).1 = none) :
    (c.nextWhere p).2 = c := by
  obtain ⟨before, _ | ⟨b, rest⟩⟩ := c
  · rfl
  · unfold nextWhere at h ⊢
    dsimp only at h ⊢
    split at h
    · cases h
    next hb => rw [if_neg hb]

theorem nextIfBytes_of_fails {s : List UInt8} (h : (c.nextIfBytes s).1 = false) :
    (c.nextIfBytes s).2 = c := by
  unfold nextIfBytes at h ⊢
  split at h
  · cases h
  next hs => rw [if_neg hs]

theorem pushBack_of_fails (h : c.pushBack.1 = false) : c.pushBack.2 = c := by
  obtain ⟨_ | ⟨b, before⟩, rest⟩ := c
  · rfl
  · cases h

theorem slice_of_fails {n : Nat} (h : (c.slice n).1 = none) : (c.slice n).2 = c := by
  unfold slice at h ⊢
  split at h
  · cases h
  next hn => rw [if_neg hn]

/-- Bytes that are no text are given back. -/
theorem text_of_fails {n : Nat} (h : (c.text n).1 = none) : (c.text n).2 = c := by
  have hslice : (c.slice n).1 = none → (c.slice n).2 = c := slice_of_fails
  unfold text at h ⊢
  revert h hslice
  rcases c.slice n with ⟨_ | bytes, c'⟩
  · exact fun _ hslice => hslice rfl
  · intro h _
    dsimp only at h ⊢
    split at h
    · cases h
    · rfl

/-- Every operation but the reading of a number leaves the cursor where it was if it fails. -/
theorem unmoved_of_fails {o : Operation} (ho : ∀ width, o ≠ .natural width)
    (h : (o.run c).1 = false) : (o.run c).2 = c := by
  cases o with
  | next => exact next_of_fails (eq_none_of_isSome h)
  | nextIf b => exact (nextIf_eq_false (Prod.ext h rfl)).1
  | nextIfAny candidates => exact nextWhere_of_fails (eq_none_of_isSome h)
  | nextIfBytes s => exact nextIfBytes_of_fails h
  | pushBack => exact pushBack_of_fails h
  | slice n => exact slice_of_fails (eq_none_of_isSome h)
  | text n => exact text_of_fails (eq_none_of_isSome h)
  | natural width => exact absurd rfl (ho width)

/-! ## Numbers -/

/-- Moving over bytes that are there is moving. -/
theorem skip_ne_self {fit rest : List UInt8} (hrest : c.rest = fit ++ rest) (hne : fit ≠ []) :
    c.skip fit.length ≠ c := by
  intro heq
  have hlength : (c.rest.drop fit.length).length = c.rest.length := by rw [← rest_skip, heq]
  have hpos : 0 < fit.length := List.length_pos_iff.mpr hne
  rw [List.length_drop, hrest, List.length_append] at hlength
  omega

/-- A number that is not read leaves the cursor where it was, unless its first digits fit. -/
theorem natural_unmoved_iff {width : Nat} (h : (c.natural width).1 = none) :
    (c.natural width).2 = c ↔ ¬ (Operation.natural width).Overflows c := by
  constructor
  · rintro hunmoved ⟨fit, d, rest, hrest, hne, hover⟩
    rw [natural_of_overflow hrest hover] at hunmoved
    exact skip_ne_self hrest hne hunmoved
  · intro hfits
    cases hdigit : c.peekDigit with
    | false => rw [natural_of_not_peekDigit hdigit]
    | true =>
      obtain ⟨fit, d, rest, hrest, hover⟩ := exists_overflow_of_fails hdigit h
      -- no digit fits, so none has been read
      have hnil : fit = [] := by
        by_contra hne
        exact hfits ⟨fit, d, rest, hrest, hne, hover⟩
      rw [natural_of_overflow hrest hover, hnil]
      rfl

/-! ## All operations -/

/-- An operation that fails leaves the cursor where it was, unless it has read digits that fit of a
number that does not. Then the cursor stays behind the digits that fit. -/
theorem unmoved_iff_of_fails (o : Operation) (c : Cursor) (h : (o.run c).1 = false) :
    ((o.run c).2 = c ↔ ¬ o.Overflows c) ∧
      ∀ width fit d rest, o = .natural width → c.rest = fit ++ d :: rest →
        Overflow (2 ^ width) fit d → (o.run c).2 = c.skip fit.length := by
  constructor
  · cases o with
    | natural width => exact natural_unmoved_iff (eq_none_of_isSome h)
    | _ => exact iff_of_true (unmoved_of_fails (by nofun) h) id
  · rintro width fit d rest rfl hrest hover
    show (c.natural width).2 = _
    rw [natural_of_overflow hrest hover]

/-- Twenty-three nines. -/
def nines : Cursor :=
  .ofBytes (List.replicate 23 0x39)

theorem unmoved_iff_of_fails_nines :
    ((Operation.natural 64).run nines).1 = false ∧
      ((Operation.natural 64).run nines).2 = nines.skip 19 := by
  have hfails : ((Operation.natural 64).run nines).1 = false := by decide
  have hover : Overflow (2 ^ 64) (List.replicate 19 0x39) 0x39 := by
    refine ⟨fun b hb => ?_, by decide, by decide, by decide⟩
    rw [List.eq_of_mem_replicate hb]
    rfl
  exact ⟨hfails, (unmoved_iff_of_fails (.natural 64) nines hfails).2 64 _ 0x39
    (List.replicate 3 0x39) rfl rfl hover⟩

/-- A number of 64 bits that does not fit moves the cursor although it is not read. -/
theorem natural_nines_moves : ((Operation.natural 64).run nines).1 = false ∧
    ((Operation.natural 64).run nines).2.position ≠ nines.position := by
  decide

end SwiftMangling.Cursor
