import SwiftMangling.Proofs.Legacy.Generic
import SwiftMangling.Legacy.Entity

/-!
# Declarations of the legacy scheme keep to the budget

A declaration is at most three levels higher than its parts: an accessor stands around its storage,
and a static member around both. The letter that introduces a declaration pays for the first two
levels, the letter for a static member for the last one.
-/

namespace SwiftMangling.Legacy

open Decoding Node

variable {M h k m : Nat}

namespace Form

/-- The parts that are read before the type of a declaration fit to its kind. -/
def Fits : Form → Prop
  | .plain k => k.isPlain = true
  | .typed k name => ∀ c t : Node, c.Open → t.Open → (branch k (c :: name.toList ++ [t])).Open
  | .numbered k number => ∀ c : Node, c.Open → (branch k [c, number]).Open
  | .accessor k name => k.isPlain = true ∧ name.Open

/-- The height of the parts that are read before the type. -/
def height : Form → Nat
  | .plain _ => 0
  | .typed _ name => top name.toList
  | .numbered _ number => number.height
  | .accessor _ name => name.height

/-- A form with a type has its name, if there is one, between the context and the type. -/
theorem fits_typed {k : Kind} {name : Option Node} (hk : k.isPlain = true)
    (hn : ∀ n ∈ name, n.Open) : (Form.typed k name).Fits := by
  intro c t hc ht
  refine open_branch hk fun a ha => ?_
  simp only [List.cons_append, List.mem_cons, List.mem_append, Option.mem_toList, List.not_mem_nil,
    or_false] at ha
  rcases ha with rfl | ha | rfl
  · exact hc.child
  · exact (hn a ha).child
  · exact ht.child

/-- A closure carries its number in front of its type. -/
theorem fits_closure {k : Kind} {number : Node} (hk : k = .explicitClosure ∨ k = .implicitClosure)
    (hn : number.Part ∧ number.payload.isIndex = true) : (Form.typed k (some number)).Fits := by
  intro c t hc ht
  have hmem : ∀ a ∈ [c, number, t], a.Child := by simpa using ⟨hc.child, hn.1.child, ht.child⟩
  rcases hk with rfl | rfl
  all_goals exact open_branch_of_needs rfl rfl hmem (by simpa [Kind.needs, meets] using hn.2)

end Form

/-! ## Forms -/

theorem mutableAddressor_reads :
    Reads 3 (fun _ => 0) (fun k => k.isPlain = true) mutableAddressor := by
  refine fun M h => Advances.nextChar.always fun c => ?_
  split
  case h_5 => exact .fail
  all_goals exact .ret rfl (by omega) (by omega)

theorem addressor_reads : Reads 3 (fun _ => 0) (fun k => k.isPlain = true) addressor := by
  refine fun M h => Advances.nextChar.always fun c => ?_
  split
  case h_5 => exact .fail
  all_goals exact .ret rfl (by omega) (by omega)

/-- An accessor has its name, and what it is an accessor of comes before. -/
theorem accessorForm_reads {k : Kind} (hk : k.isPlain = true) :
    Reads 3 Form.height Form.Fits (accessorForm k) :=
  fun M h => declName_reads.bind fun name hn =>
    .ret ⟨hk, hn⟩ (by omega) (by simp only [Form.height]; omega)

/-- What follows the context of a declaration, by the kind that the basic letter gives. -/
theorem form_reads {basic : Kind} (hk : basic.isPlain = true) :
    Reads 3 Form.height Form.Fits (form basic) := by
  intro M h
  have haccessor {k m : Nat} {accessor : Kind} (ha : accessor.isPlain = true) (hh : h ≤ m) :
      Runs M h k m (accessorForm accessor) (Left M h 3 Form.height Form.Fits) :=
    Runs.weaken (i := 0) (j := h) (accessorForm_reads ha M h) (by omega) (by omega)
  have hclosure {k : Kind} (hk : k = .explicitClosure ∨ k = .implicitClosure) :
      Runs M h 1 h (numberNode >>= fun n => pure (.typed k (some n)))
        (Left M h 3 Form.height Form.Fits) :=
    numberNode_reads.bind fun n hn =>
      .ret (Form.fits_closure hk hn) (by omega) (by simp [Form.height]; omega)
  unfold form
  refine Advances.nextChar.always fun c => ?_
  split
  iterate 4 exact .ret (rfl : Kind.isPlain _ = true) (by omega) (by simp [Form.height])
  iterate 2
    exact .ret (Form.fits_typed rfl (by simp)) (by omega) (by simp [Form.height])
  · exact mutableAddressor_reads.bind fun k hk => haccessor hk (by omega)
  · exact addressor_reads.bind fun k hk => haccessor hk (by omega)
  iterate 6 exact haccessor rfl (Nat.le_refl _)
  · exact hclosure (.inl rfl)
  · exact hclosure (.inr rfl)
  -- Any other letter belongs to the name, or to the initializer, and is read once more.
  · refine Runs.pushBack ?_
    split
    · refine (Advances.nextIf 'A').ifTrue ?_ ((Advances.expect 'i').always fun _ => ?_)
      · refine numberNode_reads.bind fun n hn => .ret (fun c hc => ?_) (by omega)
          (by simp only [Form.height]; omega)
        exact open_branch_of_needs rfl rfl (by simpa using ⟨hc.child, hn.1.child⟩)
          (by simpa [Kind.needs, meets] using hn.2)
      · exact .ret (rfl : Kind.isPlain _ = true) (by omega) (by simp [Form.height])
    · exact declName_reads.bind fun name hn => .ret (Form.fits_typed hk (by simpa using hn))
        (by omega) (by simp [Form.height])

/-! ## Declarations -/

/-- The discriminator of a private name stands for itself in a private subscript. -/
theorem open_privateDeclName {name discriminator : Node} (hn : name.Open)
    (hd : name.first? = some discriminator) (hk : name.kind = .privateDeclName) :
    (branch .privateDeclName [discriminator]).Open := by
  have hmem : discriminator ∈ name.children := List.mem_of_mem_head? hd
  have hget : name.child? 0 = some discriminator := by
    rw [child?, ← List.head?_eq_getElem?]
    exact hd
  have htext : discriminator.meets .text = true := by
    refine hn.sound.meets trivial ?_ hget
    rw [hk]
    exact List.mem_singleton.mpr rfl
  refine open_branch_of_needs rfl rfl (by simpa using hn.child_of_mem (by rw [hk]; rfl) hmem) ?_
  simpa [Kind.needs] using htext

/-- The storage that an accessor belongs to, above the context and the name that were read before.
-/
theorem storage_reads {c name : Node} (hc : c.Open) (hn : name.Open) :
    ReadsAbove (max c.height name.height) 3 (fun n => n.height - 1) Open (storage c name) := by
  intro M h hle
  unfold storage
  split
  · exact type_reads.bind fun t ht =>
      .ret (open_branch rfl (by simpa using ⟨hc.child, ht.1.child⟩)) (by omega) (by simp; omega)
  split
  next hsubscript =>
    -- a private subscript keeps its discriminator only
    have hkind : name.kind = .privateDeclName := by simp_all
    refine Runs.ofOption fun discriminator hd => type_reads.bind fun t ht => ?_
    have hmem : discriminator ∈ name.children := List.mem_of_mem_head? hd
    have hlower := hn.sound.lower hmem
    have hprivate : (branch .privateDeclName [discriminator]).Open :=
      open_privateDeclName hn hd hkind
    exact .ret (open_branch rfl (by simpa using ⟨hc.child, ht.1.child, hprivate.child⟩)) (by omega)
      (by simp; omega)
  next =>
    exact type_reads.bind fun t ht =>
      .ret (open_branch rfl (by simpa using ⟨hc.child, hn.child, ht.1.child⟩)) (by omega)
        (by simp; omega)

/-- The form puts the context into its node. -/
theorem formNode_reads {c : Node} {f : Form} (hc : c.Open) (hf : f.Fits) :
    ReadsAbove (max c.height f.height) 0 (fun n => n.height - 2) Open (formNode c f) := by
  intro M h hle
  unfold formNode
  cases f with
  | plain k => exact .ret (open_branch hf (by simpa using hc.child)) (by omega) (by simp; omega)
  | numbered k number =>
    have : (Form.numbered k number).height = number.height := rfl
    exact .ret (hf c hc) (by omega) (by simp; omega)
  | typed k name =>
    have : (Form.typed k name).height = top name.toList := rfl
    exact type_reads.bind fun t ht => .ret (hf c t hc ht.1) (by omega) (by simp; omega)
  | accessor k name =>
    exact (storage_reads hc hf.2).bind hle fun n hn =>
      .ret (open_branch hf.1 (by simpa using hn.child)) (by omega) (by simp)

theorem isPlain_of_basicKind? {c : Char} {k : Kind} (h : basicKind? c = some k) :
    k.isPlain = true := by
  unfold basicKind? at h
  split at h
  case h_5 => cases h
  all_goals
    cases h
    rfl

/-- The entity after its first letter. A static member is one level higher, which the letter in
front of it pays for. -/
theorem declared_runs (M h : Nat) (isStatic : Bool) {k : Nat} (hk : isStatic.toNat ≤ k) :
    Runs M h k h (do
      let first ← ofOption (← peekChar?)
      match basicKind? first with
      | none => nominalType
      | some basic =>
        let _ ← nextByte
        let c ← context
        let f ← form basic
        let n ← formNode c f
        return if isStatic then .branch .staticMember [n] else n)
      (Left M h 3 (fun n => n.height + 1) Open) := by
  refine Advances.look.never fun _ => Advances.ofOption.never fun first => ?_
  split
  · exact Runs.weaken (i := 0) (j := h) (nominalType_reads M h) (by omega) (by omega)
  -- the letter of the entity has been read, and pays for the node of the member
  · rename_i basic hbasic
    refine Advances.nextByte.always fun _ => context_reads.bind fun c hc =>
      (form_reads (isPlain_of_basicKind? hbasic)).bind fun f hf =>
      (formNode_reads hc hf).bind (by omega) fun n hn => ?_
    cases isStatic with
    | true =>
      have : true.toNat = 1 := rfl
      exact .ret (open_branch rfl (by simpa using hn.child)) (by omega) (by simp; omega)
    | false => exact .ret hn (by omega) (by simp; omega)

theorem entity_reads : Reads 3 (fun n => n.height + 1) Open entity := by
  intro M h
  unfold entity
  exact (Advances.nextIf 'Z').ifTrue (declared_runs M h true (by decide))
    (declared_runs M h false (by decide))

/-! ## Contexts -/

theorem contextContent_reads : Reads 3 (fun n => n.height + 1) Open contextContent := by
  intro M h
  -- the letter that was looked at is read and pays for nothing
  have hskip {d : Decoder Node} (hd : Reads 3 (fun n => n.height + 1) Open d) :
      Runs M h 0 h (nextByte >>= fun _ => d) (Left M h 3 (fun n => n.height + 1) Open) :=
    Advances.nextByte.always fun _ =>
      Runs.weaken (i := 0) (j := h) (hd M h) (by omega) (by omega)
  unfold contextContent
  refine Advances.look.never fun _ => Advances.ofOption.never fun c => ?_
  split
  · exact Advances.nextByte.always fun _ => module_reads.bind fun m hm => context_reads.bind
      fun c hc => .ret (open_branch rfl (by simpa using ⟨hm.child, hc.child⟩)) (by omega)
        (by simp; omega)
  · exact Advances.nextByte.always fun _ => module_reads.bind fun m hm =>
      genericSignature_reads.bind fun signature hs => context_reads.bind fun c hc =>
      .ret (open_branch rfl (by simpa using ⟨hm.child, hc.child, hs.child⟩)) (by omega)
        (by simp; omega)
  · exact hskip substitution_reads
  · exact Advances.nextByte.always fun _ => .ret (open_module _) (by omega) (by simp)
  · exact hskip boundGenericType_reads
  · split
    · exact entity_reads M h
    · exact module_reads M h

theorem contextRule_reads : Reads 3 (fun n => n.height + 1) Open contextRule :=
  contextContent_reads.nested

end SwiftMangling.Legacy
