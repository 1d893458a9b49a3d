import SwiftMangling.Proofs.Node.Neat
import SwiftMangling.Render

/-!
# What printers are made of

Besides returning results and failing, a printer writes texts, asks the setting, prints nodes,
compares how much has been written before and after a part of it, and takes note that the symbol is
specialized. `Composed N` lists these operations for the printers that print no nodes but those of
`N`. What is done by every operation is done by every printer: two settings that answer alike for
the nodes of `N` print alike, whatever has been written before (`Composed.same`).
-/

namespace SwiftMangling

/-- Headers of specialized symbols. -/
def Kind.isSpecialization (k : Kind) : Bool :=
  k == .functionSignatureSpecialization || k.isGenericSpecialization

namespace Render

/-- With each node, the set holds the children of the node. -/
class Closed (N : Node → Prop) : Prop where
  child : ∀ {n c}, N n → c ∈ n.children → N c

instance {P : Node → Prop} : Closed (Node.Everywhere P) :=
  ⟨Node.Everywhere.child⟩

instance : Closed fun _ => True :=
  ⟨fun _ _ => trivial⟩

/-- Two options have the same flags and show the same of the nodes of `N` as contexts. -/
structure Concur (N : Node → Prop) (options options' : Options) : Prop where
  has : ∀ f, options.has f = options'.has f
  shows : ∀ c, N c → showsContext options c = showsContext options' c

/-- Two settings answer alike whatever a printer asks them about the nodes of `N`. -/
structure Setting.Agree (N : Node → Prop) (S S' : Setting) : Prop
    extends Concur N S.options S'.options where
  embedded : S.embedded = S'.embedded

variable {N : Node → Prop} {α β : Type} {x : String} {free : Prop} {S S' : Setting} {o o' : Output}
  {n c : Node} {ns : List Node} {m : Option Node} {k : Kind} {i : Nat} {s : String}

/-- The printer is put together from the operations that all printers share, and prints no nodes but
those of `N`. Its results satisfy `Q`. -/
inductive Composed (N : Node → Prop) : {α : Type} → Printer α → (α → Prop) → Prop where
  | ret {α : Type} {a : α} {Q : α → Prop} (ha : Q a) : Composed N (pure a) Q
  | fail {α : Type} {Q : α → Prop} (e : RenderError) : Composed N (throw e : Printer α) Q
  | bind {α β : Type} {p : Printer α} {f : α → Printer β} {P : α → Prop} {Q : β → Prop}
    (hp : Composed N p P) (hf : ∀ a, P a → Composed N (f a) Q) : Composed N (p >>= f) Q
  | write (s : String) : Composed N (Render.write s) fun _ => True
  /-- Asks the setting for what agreeing settings agree about. -/
  | ask {α : Type} {f : Setting → Printer α} {Q : α → Prop} (hf : ∀ S, Composed N (f S) Q)
    (hagree : ∀ S S', Setting.Agree N S S' → f S = f S') : Composed N (read >>= f) Q
  | node {n : Node} (asContext : Bool) (hn : N n) :
    Composed N (fun S => S.node n asContext) fun m => ∀ c ∈ m, N c
  /-- Goes on depending on whether `p` has written something. -/
  | compare {α β : Type} {p : Printer α} {f : α → Bool → Printer β} {P : α → Prop} {Q : β → Prop}
    (hp : Composed N p P) (hf : ∀ a grown, P a → Composed N (f a grown) Q) :
    Composed N (do
      let before ← written
      let a ← p
      let after ← written
      f a (after != before)) Q
  /-- Only the headers of specialized symbols ask what has been said before. -/
  | askSaid {α : Type} {f : Bool → Printer α} {Q : α → Prop}
    (hN : ∃ n, N n ∧ n.kind.isSpecialization = true) (hf : ∀ said, Composed N (f said) Q) :
    Composed N (get >>= fun o => f o.saidSpecialized) Q
  | announce (hN : ∃ n, N n ∧ n.kind.isSpecialization = true) :
    Composed N (modify fun o => { o with saidSpecialized := true }) fun _ => True

/-- Two steps succeed where both do. -/
theorem run_bind_eq_ok {x : Printer α} {f : α → Printer β} {b : β}
    (h : (x >>= f) S o = .ok (b, o')) : ∃ a o₁, x S o = .ok (a, o₁) ∧ f a S o₁ = .ok (b, o') := by
  have h : ((x S o).bind fun r => f r.1 S r.2) = .ok (b, o') := h
  revert h
  cases x S o with
  | ok r => exact fun h => ⟨r.1, r.2, rfl, h⟩
  | error e => exact nofun

/-! ## Runs side by side -/

/-- The outputs differ in the text `x` that stands in front of the first one, and, if that is free,
in what has been said. -/
structure Output.Behind (x : String) (free : Prop) (o o' : Output) : Prop where
  text : o.text = x ++ o'.text
  said : free ∨ o.saidSpecialized = o'.saidSpecialized

/-- Two runs fail alike, or find the same result, which satisfies `Q`, and go on writing alike. -/
def Same (x : String) (free : Prop) (Q : α → Prop) :
    Except RenderError (α × Output) → Except RenderError (α × Output) → Prop
  | .ok (a, o), .ok (a', o') => a = a' ∧ Q a ∧ o.Behind x free o'
  | .error e, .error e' => e = e'
  | _, _ => False

/-- Two settings print the nodes of `N` alike. What has been said may differ if no node of `N` asks
for it. -/
structure Setting.Twins (N : Node → Prop) (x : String) (free : Prop) (S S' : Setting) : Prop where
  agree : Setting.Agree N S S'
  node : ∀ {n asContext o o'}, N n → o.Behind x free o' →
    Same x free (fun m => ∀ c ∈ m, N c) (S.node n asContext o) (S'.node n asContext o')
  silent : free → ∀ n, N n → n.kind.isSpecialization = false

theorem Output.Behind.append (h : o.Behind x free o') (s : String) :
    Output.Behind x free { o with text := o.text ++ s } { o' with text := o'.text ++ s } :=
  ⟨by rw [h.text, String.append_assoc], h.said⟩

/-- As much has been written more. -/
theorem Output.Behind.utf8ByteSize (h : o.Behind x free o') :
    o.text.utf8ByteSize = x.utf8ByteSize + o'.text.utf8ByteSize := by
  rw [h.text, String.utf8ByteSize_append]

/-- With a specialization among the nodes the word has been said in both runs or in neither. -/
theorem Setting.Twins.said (h : Setting.Twins N x free S S') (ho : o.Behind x free o')
    (hN : ∃ n, N n ∧ n.kind.isSpecialization = true) : o.saidSpecialized = o'.saidSpecialized := by
  obtain ⟨n, hn, hk⟩ := hN
  refine ho.said.resolve_left fun hfree => ?_
  rw [h.silent hfree n hn] at hk
  cases hk

/-- Two runs that write alike up to some place write alike from there on. -/
theorem Same.bind {p q : Printer α} {f g : α → Printer β} {P : α → Prop} {Q : β → Prop}
    (h : Same x free P (p S o) (q S' o'))
    (hf : ∀ a t t', P a → t.Behind x free t' → Same x free Q (f a S t) (g a S' t')) :
    Same x free Q ((p >>= f) S o) ((q >>= g) S' o') := by
  show Same x free Q ((p S o).bind fun r => f r.1 S r.2) ((q S' o').bind fun r => g r.1 S' r.2)
  revert h
  -- either both fail or both go on from related outputs
  cases p S o with
  | error e =>
    cases q S' o' with
    | error e' => exact id
    | ok r => exact False.elim
  | ok r =>
    cases q S' o' with
    | error e => exact False.elim
    | ok r' =>
      obtain ⟨a, t⟩ := r
      obtain ⟨a', t'⟩ := r'
      rintro ⟨rfl, ha, ht⟩
      exact hf a t t' ha ht

/-- A printer of the nodes of `N` writes the same behind any output and in any setting that agrees
about these nodes and prints them alike. The induction is on the operations of the printer. -/
theorem Composed.same {p : Printer α} {Q : α → Prop} (h : Composed N p Q)
    (hS : Setting.Twins N x free S S') (ho : o.Behind x free o') :
    Same x free Q (p S o) (p S' o') := by
  induction h generalizing o o' with
  | ret ha => exact ⟨rfl, ha, ho⟩
  | fail e => exact rfl
  | bind _ _ ihp ihf => exact (ihp ho).bind fun a _ _ ha ht => ihf a ha ht
  | write s => exact ⟨rfl, trivial, ho.append s⟩
  | @ask _ f Q _ hagree ih =>
    show Same x free Q (f S S o) (f S' S' o')
    rw [hagree S S' hS.agree]
    exact ih S' ho
  | node asContext hn => exact hS.node hn ho
  | @compare _ _ p f P Q _ _ ihp ihf =>
    refine Same.bind (P := P) (f := fun a => written >>= fun after =>
      f a (after != o.text.utf8ByteSize)) (g := fun a => written >>= fun after =>
      f a (after != o'.text.utf8ByteSize)) (ihp ho) fun a t t' ha ht => ?_
    -- the comparison does not see the text in front of both sizes
    have hgrown : (t.text.utf8ByteSize != o.text.utf8ByteSize) =
        (t'.text.utf8ByteSize != o'.text.utf8ByteSize) := by
      rw [ht.utf8ByteSize, ho.utf8ByteSize, Bool.eq_iff_iff]
      simp
    show Same x free Q (f a (t.text.utf8ByteSize != o.text.utf8ByteSize) S t)
      (f a (t'.text.utf8ByteSize != o'.text.utf8ByteSize) S' t')
    rw [hgrown]
    exact ihf a _ ha ht
  | @askSaid _ f Q hN _ ih =>
    show Same x free Q (f o.saidSpecialized S o) (f o'.saidSpecialized S' o')
    rw [hS.said ho hN]
    exact ih _ ho
  | announce hN => exact ⟨rfl, trivial, ho.text, .inr rfl⟩

/-! ## Nodes and lists of nodes -/

/-- A node of `N`. -/
class Within (N : Node → Prop) (n : Node) : Prop where
  mem : N n

/-- Nodes of `N`. -/
class AllWithin (N : Node → Prop) (ns : List Node) : Prop where
  mem : ∀ c ∈ ns, N c

/-- A node of `N`, if there is one. -/
class WithinIfAny (N : Node → Prop) (m : Option Node) : Prop where
  mem : ∀ c ∈ m, N c

instance (c : {c // N c}) : Within N c.val :=
  ⟨c.property⟩

instance [Closed N] [hn : Within N n] : AllWithin N n.children :=
  ⟨fun _ hc => Closed.child hn.mem hc⟩

instance [Closed N] [hn : Within N n] : WithinIfAny N (n.child? i) :=
  ⟨fun _ hc => Closed.child hn.mem (List.mem_of_getElem? hc)⟩

instance [Closed N] [hn : Within N n] : WithinIfAny N n.first? :=
  ⟨fun _ hc => Closed.child hn.mem (List.mem_of_head? hc)⟩

instance [Closed N] [hn : Within N n] : WithinIfAny N (n.childOfKind? k) :=
  ⟨fun _ hc => Closed.child hn.mem (List.mem_of_find?_eq_some hc)⟩

instance {p : Node → Bool} [h : WithinIfAny N m] : WithinIfAny N (m.filter p) :=
  ⟨fun c hc => h.mem c (Option.mem_filter_iff.mp hc).1⟩

instance [hn : Within N n] : WithinIfAny N (some n) :=
  ⟨fun _ hc => Option.some.inj hc ▸ hn.mem⟩

instance : WithinIfAny N none :=
  ⟨nofun⟩

theorem Within.of_eq (h : m = some c) [hm : WithinIfAny N m] : Within N c :=
  ⟨hm.mem c h⟩

instance [h : AllWithin N ns] : AllWithin N (ns.take i) :=
  ⟨fun c hc => h.mem c (List.mem_of_mem_take hc)⟩

instance [h : AllWithin N ns] : AllWithin N (ns.drop i) :=
  ⟨fun c hc => h.mem c (List.mem_of_mem_drop hc)⟩

instance [h : AllWithin N ns] : AllWithin N ns.dropLast :=
  ⟨fun c hc => h.mem c ((List.dropLast_sublist ns).mem hc)⟩

instance {p : Node → Bool} [h : AllWithin N ns] : AllWithin N (ns.takeWhile p) :=
  ⟨fun c hc => h.mem c ((List.takeWhile_sublist p).mem hc)⟩

instance {p : Node → Bool} [h : AllWithin N ns] : AllWithin N (ns.dropWhile p) :=
  ⟨fun c hc => h.mem c ((List.dropWhile_sublist p).mem hc)⟩

/-! ## Printers put together -/

/-- The printer is composed of the shared operations on the nodes of `N`. -/
class Prints (N : Node → Prop) (p : Printer α) : Prop where
  composed : Composed N p fun _ => True

theorem Composed.mono {p : Printer α} {P Q : α → Prop} (h : Composed N p P) (hPQ : ∀ a, P a → Q a) :
    Composed N p Q := by
  rw [← bind_pure p]
  exact h.bind fun a ha => .ret (hPQ a ha)

theorem Composed.prints {p : Printer α} {P : α → Prop} (h : Composed N p P) : Prints N p :=
  ⟨h.mono fun _ _ => trivial⟩

/-- After a printer whose results do not matter. -/
theorem Composed.after {p : Printer α} {f : α → Printer β} {Q : β → Prop} (hp : Prints N p)
    (hf : ∀ a, Composed N (f a) Q) : Composed N (p >>= f) Q :=
  hp.composed.bind fun a _ => hf a

instance {a : α} : Prints N (pure a) :=
  ⟨.ret trivial⟩

instance {e : RenderError} : Prints N (throw e : Printer α) :=
  ⟨.fail e⟩

/-- Nothing comes after an error. -/
theorem Composed.fail_bind {e : RenderError} {f : α → Printer β} {Q : β → Prop} :
    Composed N (throw e >>= f) Q :=
  (Composed.fail (Q := fun _ => False) e).bind fun _ => False.elim

instance (priority := high) {e : RenderError} {f : α → Printer β} :
    Prints N (throw e >>= f) :=
  ⟨.fail_bind⟩

instance {p : Printer α} {f : α → Printer β} [hp : Prints N p] [hf : ∀ a, Prints N (f a)] :
    Prints N (p >>= f) :=
  ⟨.after hp fun a => (hf a).composed⟩

instance {b : Prop} [Decidable b] {p q : Printer α} [Prints N p] [Prints N q] :
    Prints N (if b then p else q) := by
  split <;> infer_instance

instance : Prints N (write s) :=
  ⟨.write s⟩

instance : Prints N (writeNumber i) :=
  ⟨.write i.repr⟩

instance {f : Flag} : Prints N (flag f) :=
  ⟨.ask (fun _ => .ret trivial) fun S S' h => by rw [h.has f]⟩

instance : Prints N (textOf n) := by
  unfold textOf
  split <;> infer_instance

instance : Prints N (indexOf n) := by
  unfold indexOf
  split <;> infer_instance

theorem composed_child [Closed N] [hn : Within N n] : Composed N (child n i) N := by
  unfold child
  split
  next c hc => exact .ret (Closed.child hn.mem (List.mem_of_getElem? hc))
  next => exact .fail _

instance [Closed N] [Within N n] : Prints N (child n i) :=
  composed_child.prints

/-- What comes after a child may print it. -/
instance (priority := high) {f : Node → Printer α} [Closed N] [Within N n]
    [hf : ∀ c : {c // N c}, Prints N (f c.val)] : Prints N (child n i >>= f) :=
  ⟨composed_child.bind fun c hc => (hf ⟨c, hc⟩).composed⟩

theorem composed_printContext [hn : Within N n] :
    Composed N (printContext n) fun m => ∀ c ∈ m, N c :=
  .node true hn.mem

instance [Within N n] : Prints N (printContext n) :=
  composed_printContext.prints

instance [hn : Within N n] : Prints N (print n) :=
  ⟨(Composed.node false hn.mem).bind fun _ _ => .ret trivial⟩

instance [Closed N] [Within N n] : Prints N (printChild n i) := by
  unfold printChild
  infer_instance

instance [Closed N] [Within N n] : Prints N (printChildIfAny n i) := by
  unfold printChildIfAny
  split
  next c hc =>
    have : Within N c := .of_eq hc
    infer_instance
  next => infer_instance

instance [h : AllWithin N ns] : Prints N (printSeparated s ns) := by
  obtain ⟨h⟩ := h
  induction ns with
  | nil => exact inferInstanceAs (Prints N (pure ()))
  | cons c ns ih =>
    rw [List.forall_mem_cons] at h
    have : Within N c := ⟨h.1⟩
    have := ih h.2
    cases ns with
    | nil => exact inferInstanceAs (Prints N (print c))
    | cons d ns =>
      rw [printSeparated]
      · infer_instance
      · exact List.cons_ne_nil d ns

instance [Closed N] [Within N n] : Prints N (printChildren n s) :=
  inferInstanceAs (Prints N (printSeparated s n.children))

end Render

end SwiftMangling
