import SwiftMangling.Proofs.Brackets
import SwiftMangling.Proofs.Render.Composed

/-!
# Balanced printers

A printer is balanced if, given a way to print the nodes of a clean tree, it leaves the same
brackets open that were open before. What a printer writes between the nodes are fixed texts. A
`Trace` lists them, with their order and the choices between them; `Writes` is a class, so that the
trace of a printer is put together from the traces of its parts. Whether the brackets of a trace
match can be computed, and a printer with such a trace is balanced (`balanced_of_trace`).
-/

namespace SwiftMangling

open Brackets

namespace Render

/-! ## Clean trees -/

/-- The text that a node carries, if any, is nested, and is no symbol if it would be shown as
one. -/
def CleanText (n : Node) : Prop :=
  ∀ s, n.text? = some s → Nested s.toList ∧
    (n.kind = .functionSignatureSpecializationParamPayload → decode (Utf8.encode s) = none)

/-- Every text of a tree is nested, and none that would be shown as a symbol is one. -/
class Clean (n : Node) : Prop where
  everywhere : n.Everywhere CleanText

/-- Nodes of clean trees. -/
class AllClean (ns : List Node) : Prop where
  clean : ∀ c ∈ ns, Clean c

/-- A node of a clean tree, if there is one. -/
class CleanIfAny (m : Option Node) : Prop where
  clean : ∀ c ∈ m, Clean c

variable {n c : Node} {ns : List Node} {m : Option Node} {k : Kind} {i : Nat} {s : String}

instance [h : Clean n] : AllClean n.children :=
  ⟨fun _ hc => ⟨h.everywhere.child hc⟩⟩

instance [Clean n] : CleanIfAny (n.child? i) :=
  ⟨fun c h => AllClean.clean c (List.mem_of_getElem? h)⟩

instance [Clean n] : CleanIfAny n.first? :=
  ⟨fun c h => AllClean.clean c (List.mem_of_head? h)⟩

instance [Clean n] : CleanIfAny (n.childOfKind? k) :=
  ⟨fun c h => AllClean.clean c (List.mem_of_find?_eq_some h)⟩

instance {p : Node → Bool} [h : CleanIfAny m] : CleanIfAny (m.filter p) :=
  ⟨fun c hc => h.clean c (Option.mem_filter_iff.mp hc).1⟩

instance [h : Clean n] : CleanIfAny (some n) :=
  ⟨fun _ hc => Option.some.inj hc ▸ h⟩

instance : CleanIfAny none :=
  ⟨nofun⟩

theorem Clean.of_eq (h : m = some c) [hm : CleanIfAny m] : Clean c :=
  hm.clean c h

theorem nestedText_of_text? [hn : Clean n] (h : n.text? = some s) : NestedText s :=
  ⟨(hn.everywhere.here s h).1⟩

instance [AllClean ns] : AllClean (ns.take i) :=
  ⟨fun c hc => AllClean.clean c (List.mem_of_mem_take hc)⟩

instance [AllClean ns] : AllClean (ns.drop i) :=
  ⟨fun c hc => AllClean.clean c (List.mem_of_mem_drop hc)⟩

instance [AllClean ns] : AllClean ns.dropLast :=
  ⟨fun c hc => AllClean.clean c ((List.dropLast_sublist ns).mem hc)⟩

instance {p : Node → Bool} [AllClean ns] : AllClean (ns.takeWhile p) :=
  ⟨fun c hc => AllClean.clean c ((List.takeWhile_sublist p).mem hc)⟩

instance {p : Node → Bool} [AllClean ns] : AllClean (ns.dropWhile p) :=
  ⟨fun c hc => AllClean.clean c ((List.dropWhile_sublist p).mem hc)⟩

/-! ## Traces -/

/-- The fixed texts that a printer writes. -/
inductive Trace where
  /-- No text. -/
  | nothing
  /-- A text. -/
  | text (cs : List Char)
  /-- Texts after one another. -/
  | seq (t u : Trace)
  /-- One of two traces. -/
  | either (t u : Trace)
  /-- A trace any number of times. -/
  | loop (t : Trace)
  /-- The printer fails. -/
  | stop

/-- What a trace does to the brackets that are awaited. -/
inductive Outcome where
  /-- The given brackets are awaited. -/
  | awaits (st : List Char)
  /-- Nothing comes after it. -/
  | stops
  /-- The brackets do not match, or depend on a choice. -/
  | mismatch
  deriving DecidableEq

namespace Outcome

/-- Goes on from the brackets that are awaited. -/
def bind (x : Outcome) (f : List Char → Outcome) : Outcome :=
  match x with
  | awaits st => f st
  | stops => stops
  | mismatch => mismatch

/-- What two choices have in common. -/
def meet : Outcome → Outcome → Outcome
  | stops, x => x
  | x, stops => x
  | x, y => if x = y then x else mismatch

/-- The outcome with more brackets below those that are awaited. -/
def above (x : Outcome) (below : List Char) : Outcome :=
  match x with
  | awaits st => awaits (st ++ below)
  | x => x

end Outcome

/-- What a trace does to the awaited brackets `st`. -/
def Trace.run (st : List Char) : Trace → Outcome
  | .nothing => .awaits st
  | .text cs => (scan st cs).elim .mismatch .awaits
  | .seq t u => (t.run st).bind fun st => u.run st
  | .either t u => (t.run st).meet (u.run st)
  | .loop t => (t.run st).meet (.awaits st)
  | .stop => .stops

/-- Behind the trace, the same brackets are awaited as before it, if anything comes behind it. -/
def Trace.isBalanced (t : Trace) : Bool :=
  t.loop.run [] = .awaits []

/-- The brackets that are awaited behind a text are as the outcome says, if it says anything. -/
def Outcome.Allows (awaited : Option (List Char)) : Outcome → Prop
  | awaits st => awaited = some st
  | stops => False
  | mismatch => True

/-- The brackets that are awaited behind what has been written. -/
def Output.awaited (o : Output) : Option (List Char) :=
  scan [] o.text.toList

variable {st st' : List Char} {t u : Trace}

/-- Outcomes that meet still meet above what is open below. -/
theorem Outcome.above_meet {x y : Outcome} (h : x.meet y ≠ .mismatch) (below : List Char) :
    x ≠ .mismatch ∧ y ≠ .mismatch ∧
      (x.above below).meet (y.above below) = (x.meet y).above below := by
  cases x <;> cases y
  case awaits.awaits st st' =>
    by_cases heq : awaits st = awaits st'
    · obtain rfl := awaits.inj heq
      exact ⟨nofun, nofun, by simp [meet, above]⟩
    · exact absurd (by simp [meet, heq]) h
  all_goals first | exact absurd rfl h | exact ⟨nofun, nofun, rfl⟩

/-- Brackets below those that a trace reaches make no difference. -/
theorem Trace.run_above (h : t.run st ≠ .mismatch) (below : List Char) :
    t.run (st ++ below) = (t.run st).above below := by
  -- by induction on the trace; at a branch both sides are above the same brackets
  induction t generalizing st with
  | nothing => rfl
  | text cs =>
    cases hs : scan st cs with
    | none => exact absurd (by simp [run, hs]) h
    | some st' => simp [run, hs, scan_below hs below, Outcome.above]
  | seq t u iht ihu =>
    simp only [run] at h ⊢
    have ht : t.run st ≠ .mismatch := fun heq => h (by rw [heq]; rfl)
    rw [iht ht]
    revert h
    cases t.run st with
    | awaits st' => exact fun h => ihu h
    | stops => exact fun _ => rfl
    | mismatch => exact fun h => absurd rfl h
  | either t u iht ihu =>
    obtain ⟨ht, hu, hmeet⟩ := Outcome.above_meet h below
    simp only [run, iht ht, ihu hu, hmeet]
  | loop t ih =>
    obtain ⟨ht, -, hmeet⟩ := Outcome.above_meet h below
    simp only [run, ih ht]
    exact hmeet
  | stop => rfl

/-- A loop brings back what was awaited before it, if its trace does. -/
theorem Trace.run_loop (t : Trace) (st : List Char) : (loop t).run st = .mismatch ∨
    (loop t).run st = .awaits st ∧ ∀ awaited, (t.run st).Allows awaited → awaited = some st := by
  rw [run]
  cases ht : t.run st with
  | awaits st' =>
    by_cases heq : Outcome.awaits st' = .awaits st
    · obtain rfl := Outcome.awaits.inj heq
      exact .inr ⟨by simp [Outcome.meet], fun _ => id⟩
    · exact .inl (by simp [Outcome.meet, heq])
  | stops => exact .inr ⟨rfl, fun _ => False.elim⟩
  | mismatch => exact .inl rfl

/-! ## Texts -/

/-- The text has the given trace. -/
class Spells (s : String) (t : outParam Trace) : Prop where
  allows : ∀ st, (t.run st).Allows (scan st s.toList)

/-- A text that is given by its characters. -/
class Literal (s : String) (cs : outParam String) : Prop where
  eq : s = cs

instance : Literal s s :=
  ⟨rfl⟩

theorem nestedText_of_literal {cs : List Char} [h : Literal s (String.ofList cs)]
    (hcs : Nested cs) : NestedText s :=
  ⟨by rwa [h.eq, String.toList_ofList]⟩

instance (priority := low) {cs : List Char} [h : Literal s (String.ofList cs)] :
    Spells s (.text cs) where
  allows st := by
    rw [h.eq, String.toList_ofList, Trace.run]
    cases scan st cs with
    | none => trivial
    | some st' => rfl

instance [h : NestedText s] : Spells s .nothing :=
  ⟨fun st => h.nested.scan_eq st⟩

instance {a b : String} [ha : Spells a t] [hb : Spells b u] : Spells (a ++ b) (.seq t u) where
  allows st := by
    rw [String.toList_append, scan_append, Trace.run]
    have ha := ha.allows st
    revert ha
    cases t.run st with
    | awaits st' =>
      intro ha
      rw [show scan st a.toList = some st' from ha]
      exact hb.allows st'
    | stops => exact False.elim
    | mismatch => exact fun _ => trivial

theorem Outcome.Allows.meet_left {x y : Outcome} {awaited : Option (List Char)}
    (h : x.Allows awaited) : (x.meet y).Allows awaited := by
  cases x <;> cases y <;> simp only [meet] <;> (try split) <;> simp_all [Allows]

theorem Outcome.Allows.meet_right {x y : Outcome} {awaited : Option (List Char)}
    (h : y.Allows awaited) : (x.meet y).Allows awaited := by
  cases x <;> cases y <;> simp only [meet] <;> (try split) <;> simp_all [Allows]

instance {p : Prop} [Decidable p] {a b : String} [ha : Spells a t] [hb : Spells b u] :
    Spells (if p then a else b) (.either t u) where
  allows st := by
    split
    · exact (ha.allows st).meet_left
    · exact (hb.allows st).meet_right

/-! ## Printers -/

variable {α β : Type}

/-- A setting that prints clean nodes without a change to the brackets that are awaited, hands on
only such nodes, and shows a text that is no symbol as it is. -/
structure Setting.Balanced (S : Setting) : Prop where
  node : ∀ {n b o m o' st}, Clean n → S.node n b o = .ok (m, o') → o.awaited = some st →
    o'.awaited = some st ∧ CleanIfAny m
  embedded : ∀ s, decode (Utf8.encode s) = none → S.embedded s = s

/-- The fixed texts that the printer writes have the given trace. -/
class Writes (p : Printer α) (t : outParam Trace) : Prop where
  allows : ∀ {S o a o' st}, Setting.Balanced S → p S o = .ok (a, o') → o.awaited = some st →
    (t.run st).Allows o'.awaited

/-- The printer leaves the awaited brackets as they are. -/
abbrev Balanced (p : Printer α) : Prop :=
  Writes p .nothing

/-- A balanced printer whose results satisfy `Q`. -/
class Gives (p : Printer α) (Q : outParam (α → Prop)) : Prop where
  run : ∀ {S o a o' st}, Setting.Balanced S → p S o = .ok (a, o') → o.awaited = some st →
    o'.awaited = some st ∧ Q a

/-- The brackets of the fixed texts match. -/
theorem balanced_of_trace {p : Printer α} [h : Writes p t] (ht : t.isBalanced = true) :
    Balanced p where
  allows {S o a o' st} hS hp ho := by
    have hrun : t.loop.run [] = .awaits [] := of_decide_eq_true ht
    have habove := Trace.run_above (show t.loop.run [] ≠ .mismatch by rw [hrun]; exact nofun) st
    rw [hrun, List.nil_append] at habove
    rcases t.run_loop st with hmismatch | ⟨-, hback⟩
    · rw [hmismatch] at habove
      cases habove
    · exact hback _ (h.allows hS hp ho)

/-- What is written one after the other. -/
theorem Writes.seq {x : Printer α} {f : α → Printer β} (hx : Writes x t)
    (hf : ∀ a, Writes (f a) u) : Writes (x >>= f) (.seq t u) where
  allows {S o b o' st} hS h ho := by
    obtain ⟨a, o₁, hrun, hrest⟩ := run_bind_eq_ok h
    have hfirst := hx.allows hS hrun ho
    rw [Trace.run]
    revert hfirst
    cases t.run st with
    | awaits st' => exact fun hfirst => (hf a).allows hS hrest hfirst
    | stops => exact False.elim
    | mismatch => exact fun _ => trivial

theorem Writes.bind {x : Printer α} {f : α → Printer β} (hx : Balanced x)
    (hf : ∀ a, Balanced (f a)) : Balanced (x >>= f) where
  allows {S o b o' st} hS h ho := by
    obtain ⟨a, o₁, hrun, hrest⟩ := run_bind_eq_ok h
    exact (hf a).allows hS hrest (hx.allows hS hrun ho)

/-- What a step gives can decide how balanced the next one is. -/
theorem Gives.writes {x : Printer α} {f : α → Printer β} {Q : α → Prop} (hx : Gives x Q)
    (hf : ∀ a, Q a → Writes (f a) t) : Writes (x >>= f) t where
  allows {S o b o' st} hS h ho := by
    obtain ⟨a, o₁, hrun, hrest⟩ := run_bind_eq_ok h
    obtain ⟨ho₁, ha⟩ := hx.run hS hrun ho
    exact (hf a ha).allows hS hrest ho₁

theorem Gives.after {x : Printer α} {f : α → Printer β} {Q : β → Prop} (hx : Balanced x)
    (hf : ∀ a, Gives (f a) Q) : Gives (x >>= f) Q where
  run {S o b o' st} hS h ho := by
    obtain ⟨a, o₁, hrun, hrest⟩ := run_bind_eq_ok h
    exact (hf a).run hS hrest (hx.allows hS hrun ho)

theorem Gives.bind {x : Printer α} {f : α → Printer β} {P : α → Prop} {Q : β → Prop}
    (hx : Gives x P) (hf : ∀ a, P a → Gives (f a) Q) : Gives (x >>= f) Q where
  run {S o b o' st} hS h ho := by
    obtain ⟨a, o₁, hrun, hrest⟩ := run_bind_eq_ok h
    obtain ⟨ho₁, ha⟩ := hx.run hS hrun ho
    exact (hf a ha).run hS hrest ho₁

theorem gives_pure {a : α} {Q : α → Prop} (ha : Q a) : Gives (pure a) Q where
  run _ h ho := by
    cases h
    exact ⟨ho, ha⟩

theorem gives_throw {e : RenderError} {Q : α → Prop} : Gives (throw e) Q :=
  ⟨fun _ h => nomatch h⟩

/-- What comes after a result needs to hold only for the results that there can be. -/
instance (priority := high) {x : Printer α} {f : α → Printer β} {Q : α → Prop} [hx : Gives x Q]
    [hf : ∀ a : {a // Q a}, Writes (f a.val) t] : Writes (x >>= f) t :=
  hx.writes fun a ha => hf ⟨a, ha⟩

instance (c : {c : Node // Clean c}) : Clean c.val :=
  c.property

instance (s : {s : String // NestedText s}) : NestedText s.val :=
  s.property

instance {x : Printer α} {f : α → Printer β} [hx : Writes x t] [hf : ∀ a, Writes (f a) u] :
    Writes (x >>= f) (.seq t u) :=
  hx.seq hf

instance {p : Prop} [Decidable p] {x y : Printer α} [hx : Writes x t] [hy : Writes y u] :
    Writes (if p then x else y) (.either t u) where
  allows hS h ho := by
    split at h
    · exact (hx.allows hS h ho).meet_left
    · exact (hy.allows hS h ho).meet_right

instance {a : α} : Balanced (pure a) where
  allows _ h ho := by
    cases h
    exact ho

instance {e : RenderError} : Writes (throw e : Printer α) .stop :=
  ⟨fun _ h => nomatch h⟩

/-- Nothing comes after an error. -/
instance (priority := high) {e : RenderError} {f : α → Printer β} : Writes (throw e >>= f) .stop :=
  ⟨fun _ h => nomatch h⟩

/-- A printer that writes nothing. -/
theorem balanced_of_state {p : Printer α} (h : ∀ S o a o', p S o = .ok (a, o') → o'.text = o.text) :
    Balanced p where
  allows {S o a o' st} _ hp ho := by
    show scan [] o'.text.toList = some st
    rw [h S o a o' hp]
    exact ho

instance : Balanced (read : Printer Setting) :=
  balanced_of_state fun _ _ _ _ h => by
    cases h
    rfl

instance : Balanced (get : Printer Output) :=
  balanced_of_state fun _ _ _ _ h => by
    cases h
    rfl

instance {f : Flag} : Balanced (flag f) := by
  unfold flag
  exact balanced_of_trace (by decide)

instance : Balanced written := by
  unfold written
  exact balanced_of_trace (by decide)

instance [h : Spells s t] : Writes (write s) t where
  allows {S o a o' st} _ hw ho := by
    cases hw
    show (t.run st).Allows (scan [] (o.text ++ s).toList)
    rw [String.toList_append, scan_append, show scan [] o.text.toList = some st from ho]
    exact h.allows st

instance {i : Nat} : Balanced (writeNumber i) :=
  inferInstanceAs (Balanced (write i.repr))

/-! ## Nodes -/

instance [Clean n] : Gives (child n i) Clean := by
  unfold child
  cases hc : n.child? i with
  | none => exact gives_throw
  | some c => exact gives_pure (.of_eq hc)

instance [Clean n] : Gives (textOf n) NestedText := by
  unfold textOf
  cases hs : n.text? with
  | none => exact gives_throw
  | some s => exact gives_pure (nestedText_of_text? hs)

instance [hn : Clean n] : Gives (printContext n) CleanIfAny :=
  ⟨fun hS h ho => hS.node hn h ho⟩

instance : Balanced (indexOf n) := by
  unfold indexOf
  split <;> exact balanced_of_trace (by decide)

instance [hn : Clean n] : Balanced (print n) where
  allows hS h ho := by
    obtain ⟨m, o₁, hrun, hrest⟩ := run_bind_eq_ok h
    cases hrest
    exact (hS.node hn hrun ho).1

instance [Clean n] : Balanced (printChild n i) := by
  unfold printChild
  infer_instance

instance [Clean n] : Balanced (printChildIfAny n i) := by
  unfold printChildIfAny
  split
  · rename_i c hc
    have : Clean c := .of_eq hc
    infer_instance
  · infer_instance

instance [Spells s t] [hns : AllClean ns] : Writes (printSeparated s ns) (.loop t) where
  allows {S o a o' st} hS h ho := by
    replace hns := hns.clean
    rcases Trace.run_loop t st with hmismatch | ⟨hrun, hback⟩
    · rw [hmismatch]
      trivial
    · rw [hrun]
      induction ns generalizing o with
      | nil =>
        cases h
        exact ho
      | cons n ns ih =>
        obtain ⟨hn, hns⟩ := List.forall_mem_cons.mp hns
        cases ns with
        | nil =>
          have hprint : Balanced (print n) := inferInstance
          exact hprint.allows hS h ho
        | cons m ms =>
          -- a separator, which brings back what was awaited, and the other nodes
          obtain ⟨_, o₁, hprint, h⟩ := run_bind_eq_ok h
          obtain ⟨_, o₂, hwrite, h⟩ := run_bind_eq_ok h
          have hfirst : Balanced (print n) := inferInstance
          have hseparator : Writes (write s) t := inferInstance
          exact ih h (hback _ (hseparator.allows hS hwrite (hfirst.allows hS hprint ho))) hns

instance [Spells s t] [Clean n] : Writes (printChildren n s) (.loop t) :=
  inferInstanceAs (Writes (printSeparated s n.children) (.loop t))

end Render

end SwiftMangling
