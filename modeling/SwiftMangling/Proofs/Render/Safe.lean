import SwiftMangling.Proofs.Node.Sound
import SwiftMangling.Proofs.Render.Label
import SwiftMangling.Render

/-!
# Safe printers

A printer is safe at depth `d` if, given a way to print the sound nodes of height at most `d`, it
fails at most because a child is missing or a kind has no rule. Errors about payloads are ruled
out only where payloads are checked, missing labels only where labels are checked, and the errors
about depth and room always.
-/

namespace SwiftMangling

/-- Kinds whose children no rule prints one by one. -/
def Kind.hidesChildren (k : Kind) : Bool :=
  k.isWitness || k == .labelList

theorem Kind.hidesChildren_eq_false {k : Kind} :
    k.hidesChildren = false ↔ k.isWitness = false ∧ k ≠ .labelList := by
  simp [Kind.hidesChildren]

theorem Kind.hidesChildren_cases {k : Kind} (h : k.hidesChildren = true) :
    k = .valueWitness ∨ k = .differentiabilityWitness ∨ k = .labelList := by
  simpa [Kind.hidesChildren, Kind.isWitness, or_assoc] using h

namespace Render

/-- What is checked of a tree besides its heights: its payloads, and with them its labels. -/
structure Checks where
  payloads : Prop
  labels : Prop
  payloads_of_labels : labels → payloads

variable {checked : Checks} {d : Nat} {α β : Type} {n c : Node}

/-- The errors that a sound tree can still cause. -/
def Tolerated (checked : Checks) : RenderError → Prop
  | .missingChild k _ => checked.labels → k ≠ .labelList
  | .unexpectedKind _ => True
  | .invalidPayload _ | .invalidDifferentiability => ¬checked.payloads
  | .tooComplex | .noRoom => False

/-- A sound node of height at most `d` that is no tag. -/
structure Printable (checked : Checks) (d : Nat) (n : Node) : Prop where
  sound : n.Sound checked.payloads
  isTag : checked.payloads → n.isTag = false
  labels : checked.labels → n.Everywhere Node.PrintsLabels
  height : n.height ≤ d

/-- A node that is no list of labels. -/
class Unlisted (checked : Checks) (n : Node) : Prop where
  kind : checked.labels → n.kind ≠ .labelList

/-- Every child of `n` can be printed. -/
class Below (checked : Checks) (d : Nat) (n : Node) : Prop extends Unlisted checked n where
  child : ∀ c ∈ n.children, Printable checked d c

/-- What a run of a printer may end in. -/
def Ends {γ : Type} (checked : Checks) (Q : α → Prop) : Except RenderError (α × γ) → Prop
  | .ok (a, _) => Q a
  | .error e => Tolerated checked e

/-- A setting that prints the sound nodes of height at most `d`, and hands on only such nodes. -/
def Setting.Safe (checked : Checks) (d : Nat) (S : Setting) : Prop :=
  ∀ n b o, Printable checked d n →
    Ends checked (fun m => ∀ c ∈ m, Printable checked d c) (S.node n b o)

/-- The printer causes only tolerated errors, and its results satisfy `Q`. -/
def Yields (checked : Checks) (d : Nat) (p : Printer α) (Q : α → Prop) : Prop :=
  ∀ S, Setting.Safe checked d S → ∀ o, Ends checked Q (p S o)

/-- The printer causes only tolerated errors. -/
class Safe (checked : Checks) (d : Nat) (p : Printer α) : Prop where
  yields : Yields checked d p fun _ => True

/-! ## Combinators -/

theorem Yields.mono {p : Printer α} {P Q : α → Prop} (h : Yields checked d p P)
    (hPQ : ∀ a, P a → Q a) : Yields checked d p Q := by
  intro S hS o
  have := h S hS o
  revert this
  cases p S o with
  | ok r => exact hPQ r.1
  | error e => exact id

theorem Yields.safe {p : Printer α} {P : α → Prop} (h : Yields checked d p P) :
    Safe checked d p :=
  ⟨h.mono fun _ _ => trivial⟩

theorem yields_pure {a : α} {Q : α → Prop} (h : Q a) : Yields checked d (pure a) Q :=
  fun _ _ _ => h

theorem yields_throw {e : RenderError} {Q : α → Prop} (h : Tolerated checked e) :
    Yields checked d (throw e : Printer α) Q :=
  fun _ _ _ => h

theorem Yields.bind {x : Printer α} {f : α → Printer β} {P : α → Prop} {Q : β → Prop}
    (hx : Yields checked d x P) (hf : ∀ a, P a → Yields checked d (f a) Q) :
    Yields checked d (x >>= f) Q := by
  intro S hS o
  have h := hx S hS o
  show Ends checked Q ((x S o).bind fun r => f r.1 S r.2)
  revert h
  cases x S o with
  | ok r => exact fun h => hf r.1 h S hS r.2
  | error e => exact id

theorem Safe.bind_yields {x : Printer α} {f : α → Printer β} {Q : β → Prop}
    (hx : Safe checked d x) (hf : ∀ a, Yields checked d (f a) Q) :
    Yields checked d (x >>= f) Q :=
  hx.yields.bind fun a _ => hf a

theorem Yields.bind_safe {x : Printer α} {f : α → Printer β} {P : α → Prop}
    (hx : Yields checked d x P) (hf : ∀ a, P a → Safe checked d (f a)) :
    Safe checked d (x >>= f) :=
  ⟨hx.bind fun a ha => (hf a ha).yields⟩

theorem Safe.bind_safe {x : Printer α} {f : α → Printer β} (hx : Safe checked d x)
    (hf : ∀ a, Safe checked d (f a)) : Safe checked d (x >>= f) :=
  ⟨hx.bind_yields fun a => (hf a).yields⟩

instance {a : α} : Safe checked d (pure a) :=
  ⟨yields_pure trivial⟩

instance {x : Printer α} {f : α → Printer β} [hx : Safe checked d x]
    [hf : ∀ a, Safe checked d (f a)] : Safe checked d (x >>= f) :=
  hx.bind_safe hf

instance {b : Prop} [Decidable b] {x y : Printer α} [Safe checked d x] [Safe checked d y] :
    Safe checked d (if b then x else y) := by
  split <;> infer_instance

theorem safe_throw {e : RenderError} (h : Tolerated checked e) :
    Safe checked d (throw e : Printer α) :=
  ⟨yields_throw h⟩

/-- Nothing runs after an error. -/
theorem yields_throw_bind {e : RenderError} {f : α → Printer β} {Q : β → Prop}
    (h : Tolerated checked e) : Yields checked d (throw e >>= f) Q :=
  fun _ _ _ => h

instance {k : Kind} : Safe checked d (throw (.unexpectedKind k) : Printer α) :=
  safe_throw trivial

instance (priority := high) {k : Kind} {f : α → Printer β} :
    Safe checked d (throw (.unexpectedKind k) >>= f) :=
  ⟨yields_throw_bind (e := .unexpectedKind k) trivial⟩

instance {i : Nat} [h : Unlisted checked n] :
    Safe checked d (throw (.missing n.kind i) : Printer α) :=
  safe_throw h.kind

instance (priority := high) {i : Nat} {f : α → Printer β} [h : Unlisted checked n] :
    Safe checked d (throw (.missing n.kind i) >>= f) :=
  ⟨yields_throw_bind (e := .missing n.kind i) h.kind⟩

/-! ## Writing and printing -/

instance {s : String} : Safe checked d (write s) :=
  ⟨fun _ _ _ => trivial⟩

instance {i : Nat} : Safe checked d (writeNumber i) :=
  inferInstanceAs (Safe checked d (write i.repr))

instance : Safe checked d (read : Printer Setting) :=
  ⟨fun _ _ _ => trivial⟩

instance : Safe checked d (get : Printer Output) :=
  ⟨fun _ _ _ => trivial⟩

instance {f : Output → Output} : Safe checked d (modify f : Printer Unit) :=
  ⟨fun _ _ _ => trivial⟩

instance {f : Flag} : Safe checked d (flag f) := by
  unfold flag
  infer_instance

instance : Safe checked d written := by
  unfold written
  infer_instance

theorem printContext_yields (h : Printable checked d n) :
    Yields checked d (printContext n) fun m => ∀ c ∈ m, Printable checked d c :=
  fun _ hS o => hS n true o h

theorem print_safe (h : Printable checked d n) : Safe checked d (print n) := by
  unfold print
  refine Yields.bind_safe (P := fun _ => True) (fun S hS o => ?_) fun _ _ => inferInstance
  exact (Yields.safe fun S hS o => hS n false o h).yields S hS o

theorem child_yields (n : Node) (i : Nat) [h : Unlisted checked n] :
    Yields checked d (child n i) fun c => n.child? i = some c := by
  unfold child
  split
  · exact yields_pure ‹_›
  · exact yields_throw h.kind

/-- Even a list of labels has the children that it is known to have. -/
theorem child_yields_of_lt {i : Nat} (h : checked.labels → i < n.count) :
    Yields checked d (child n i) fun c => n.child? i = some c := by
  unfold child
  split
  · exact yields_pure ‹_›
  next hn =>
    refine yields_throw fun hch => ?_
    have : n.count ≤ i := List.getElem?_eq_none_iff.mp hn
    exact absurd (h hch) (Nat.not_lt.mpr this)

instance {i : Nat} [Unlisted checked n] : Safe checked d (child n i) :=
  (child_yields n i).safe

theorem Below.child? [h : Below checked d n] {i : Nat} (hc : n.child? i = some c) :
    Printable checked d c :=
  h.child c (List.mem_of_getElem? hc)

instance {c : { c : Node // Printable checked d c }} : Safe checked d (print c.val) :=
  print_safe c.property

instance {c : { c : Node // Printable checked d c }} : Safe checked d (printContext c.val) :=
  (printContext_yields c.property).safe

instance (priority := high) {i : Nat} {f : Node → Printer α} [Below checked d n]
    [hf : ∀ c : { c : Node // Printable checked d c }, Safe checked d (f c.val)] :
    Safe checked d (child n i >>= f) :=
  (child_yields n i).bind_safe fun c hc => hf ⟨c, Below.child? hc⟩

instance {i : Nat} [Below checked d n] : Safe checked d (printChild n i) := by
  unfold printChild
  exact (child_yields n i).bind_safe fun c hc => print_safe (Below.child? hc)

instance {i : Nat} [Below checked d n] : Safe checked d (printChildIfAny n i) := by
  unfold printChildIfAny
  split
  · exact print_safe (Below.child? ‹_›)
  · infer_instance

theorem printSeparated_safe (separator : String) {ns : List Node}
    (h : ∀ c ∈ ns, Printable checked d c) : Safe checked d (printSeparated separator ns) := by
  induction ns with
  | nil =>
    rw [printSeparated]
    infer_instance
  | cons c ns ih =>
    rw [List.forall_mem_cons] at h
    have := print_safe h.1
    have := ih h.2
    -- the last of them has no separator behind it
    cases ns with
    | nil =>
      rw [printSeparated]
      infer_instance
    | cons d ns =>
      rw [printSeparated]
      · infer_instance
      · simp

instance {separator : String} [h : Below checked d n] :
    Safe checked d (printChildren n separator) := by
  unfold printChildren
  exact printSeparated_safe separator h.child

/-! ## What payloads and children give -/

theorem textOf_safe (h : checked.payloads → n.payload.isText = true) :
    Safe checked d (textOf n) := by
  unfold textOf Node.text?
  split
  · infer_instance
  · refine safe_throw fun hc => ?_
    have := h hc
    unfold Payload.isText at this
    split at this <;> simp_all

theorem indexOf_safe (h : checked.payloads → n.payload.isIndex = true) :
    Safe checked d (indexOf n) := by
  unfold indexOf Node.index?
  split
  · infer_instance
  · refine safe_throw fun hc => ?_
    have := h hc
    unfold Payload.isIndex at this
    split at this <;> simp_all

theorem Printable.mono {d' : Nat} (h : Printable checked d n) (hd : d ≤ d') :
    Printable checked d' n :=
  ⟨h.sound, h.isTag, h.labels, Nat.le_trans h.height hd⟩

/-- A child is lower, and anything but a tag is printable if its parent is. -/
theorem Printable.child (h : Printable checked (d + 1) n) (hc : c ∈ n.children)
    (ht : checked.payloads → c.isTag = false) : Printable checked d c := by
  have hlt := h.sound.lower hc
  have hle := h.height
  exact ⟨h.sound.child hc, ht, fun hch => (h.labels hch).child hc, by omega⟩

/-- The children of a node that is neither a witness nor a list of labels can be printed one level
deeper. -/
theorem Printable.belowOf (h : Printable checked (d + 1) n)
    (hw : checked.payloads → n.kind.isWitness = false)
    (hl : checked.labels → n.kind ≠ .labelList) : Below checked d n where
  kind := hl
  child _ hc := h.child hc fun hch => h.sound.isTag_child hch (hw hch) hc

theorem Printable.below (h : Printable checked (d + 1) n) (hk : n.kind.hidesChildren = false) :
    Below checked d n := by
  obtain ⟨hw, hl⟩ := Kind.hidesChildren_eq_false.mp hk
  exact h.belowOf (fun _ => hw) fun _ => hl

/-- A child, if it is there, is what a rule needs. -/
class Meets (checked : Checks) (n : Node) (i : Nat) (need : Need) : Prop
    extends Unlisted checked n where
  meets : checked.payloads → ∀ c, n.child? i = some c → c.meets need = true

/-- A sound node meets the needs of its kind. -/
theorem Printable.meets {i : Nat} {need : Need} (h : Printable checked d n)
    (hn : (i, need) ∈ n.kind.needs) : Meets checked n i need where
  kind _ hk := by simp [hk, Kind.needs] at hn
  meets hch _ hc := h.sound.meets hch hn hc

instance (priority := high) {i : Nat} {f : String → Printer α} [hn : Meets checked n i .text]
    [∀ s, Safe checked d (f s)] : Safe checked d (child n i >>= fun c => textOf c >>= f) :=
  have := hn.toUnlisted
  (child_yields n i).bind_safe fun c hc =>
    have := textOf_safe (d := d) fun hch => hn.meets hch c hc
    inferInstance

instance (priority := high) {i : Nat} {f : UInt64 → Printer α} [hn : Meets checked n i .index]
    [∀ j, Safe checked d (f j)] : Safe checked d (child n i >>= fun c => indexOf c >>= f) :=
  have := hn.toUnlisted
  (child_yields n i).bind_safe fun c hc =>
    have := indexOf_safe (d := d) fun hch => hn.meets hch c hc
    inferInstance

/-- The children of the children that a rule looks through can be printed too. -/
class Through (checked : Checks) (d : Nat) (n : Node) : Prop extends Unlisted checked n where
  below : ∀ c ∈ n.children, Below checked d c

theorem Through.child? [h : Through checked d n] {i : Nat} (hc : n.child? i = some c) :
    Below checked d c :=
  h.below c (List.mem_of_getElem? hc)

instance {c : { c : Node // Below checked d c }} : Below checked d c.val :=
  c.property

instance (priority := high) {i : Nat} {f : Node → Printer α} [Through checked d n]
    [hf : ∀ c : { c : Node // Below checked d c }, Safe checked d (f c.val)] :
    Safe checked d (child n i >>= f) :=
  (child_yields n i).bind_safe fun c hc => hf ⟨c, Through.child? hc⟩

theorem Printable.through (h : Printable checked (d + 1) n)
    (hk : checked.payloads → n.kind.looksThrough = true) : Through checked d n := by
  have hopen (hch : checked.payloads) :
      n.kind.isWitness = false ∧ n.kind ≠ .labelList ∧ n.kind.isLabelled = false := by
    have hkind := Kind.of_check (hk hch)
      (q := fun k => !k.isWitness && k != .labelList && !k.isLabelled) (by decide +kernel)
    simpa [and_assoc] using hkind
  -- what is looked through hides nothing, and what it holds is not sealed either
  have hlabels (hch : checked.labels) := hopen (checked.payloads_of_labels hch)
  have hb := h.belowOf (fun hch => (hopen hch).1) fun hch => (hlabels hch).2.1
  refine { hb with below := fun c hm => ?_ }
  refine ((hb.child c hm).mono (Nat.le_succ d)).belowOf (fun hch => ?_) fun hch => ?_
  · have := h.sound.isSealed_child hch (hk hch) hm
    simp_all [Kind.isSealed]
  · exact (h.labels hch).here.ne_labelList (hlabels hch).2.2 hm

end Render

end SwiftMangling
