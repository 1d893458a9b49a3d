import SwiftMangling.Code.Payload
import SwiftMangling.Proofs.Kind

/-!
# Names that can be told apart

Kinds, value witnesses and the ways to reach a target are shown under names. Every name is made of
letters, and no two of a sort are the same: a name is looked up in the list of all names, as a
number (`spelledApart`), and is found first where it stands.
-/

namespace SwiftMangling

/-! ## Texts of given characters -/

/-- A text that is made of characters with the property `q`. -/
def MadeOf (q : Char → Bool) (s : String) : Prop :=
  ∃ l : List Char, s = String.ofList l ∧ l.all q = true

theorem MadeOf.of_mem {q : Char → Bool} {s : String} {c : Char} (h : MadeOf q s)
    (hc : c ∈ s.toList) : q c = true := by
  obtain ⟨l, rfl, hl⟩ := h
  rw [String.toList_ofList] at hc
  exact List.all_eq_true.mp hl c hc

theorem Kind.name_letters (k : Kind) : MadeOf Char.isAlpha k.name := by
  cases k <;> exact ⟨_, rfl, rfl⟩

theorem ValueWitness.name_letters (w : ValueWitness) : MadeOf Char.isAlpha w.name := by
  cases w <;> exact ⟨_, rfl, rfl⟩

theorem Directness.name_letters (d : Directness) : MadeOf Char.isAlpha d.name := by
  cases d <;> exact ⟨_, rfl, rfl⟩

/-! ## Lists of names -/

/-- A text as a number, whose digits to the base 256 are its bytes. -/
def textNumber (s : String) : Nat :=
  s.toByteArray.data.toList.foldl (fun n b => n * 256 + b.toNat) 0

/-- Whether each of the first `count` names is found first where it stands. -/
def spelledApart (name : Nat → String) (count : Nat) : Bool :=
  (List.range count).all fun i =>
    ((List.range count).map fun j => textNumber (name j)).findIdx
      (Nat.beq (textNumber (name i))) == i

/-- Names that are found where they stand are all different. The things named are numbered. -/
theorem injective_of_spelledApart {α : Type} {name : α → String} {number : α → Nat}
    {ofNumber : Nat → α} {count : Nat} (hnumber : ∀ a, ofNumber (number a) = a)
    (hlt : ∀ a, number a < count) (h : spelledApart (fun i => name (ofNumber i)) count = true) :
    Function.Injective name := by
  intro a b hname
  have hfound (a : α) :
      ((List.range count).map fun j => textNumber (name (ofNumber j))).findIdx
        (Nat.beq (textNumber (name a))) = number a := by
    have hnamed := List.all_eq_true.mp h (number a) (List.mem_range.mpr (hlt a))
    dsimp only at hnamed
    rwa [beq_iff_eq, hnumber] at hnamed
  have heq : number a = number b := by rw [← hfound a, hname, hfound b]
  rw [← hnumber a, heq, hnumber]

theorem Kind.name_injective : Function.Injective name :=
  injective_of_spelledApart ofNat_ctorIdx ctorIdx_lt_total (by decide +kernel)

theorem ValueWitness.name_injective : Function.Injective name := by
  have hlt (w : ValueWitness) : w.ctorIdx < 24 := by cases w <;> decide
  exact injective_of_spelledApart ofNat_ctorIdx hlt (by decide +kernel)

theorem Directness.name_injective : Function.Injective name := by
  have hlt (d : Directness) : d.ctorIdx < 3 := by cases d <;> decide
  exact injective_of_spelledApart ofNat_ctorIdx hlt (by decide +kernel)

end SwiftMangling
