import Mathlib.Order.MinMax
import SwiftMangling.Proofs.Cursor
import SwiftMangling.Proofs.Decoding
import SwiftMangling.Proofs.Node.Height
import SwiftMangling.Proofs.Node.Shape
import SwiftMangling.Legacy.Symbol

/-!
# Budgets of the descent decoder

Every node of the descent decoder is paid for by the bytes that are read for it, three levels of
height for a byte. A production runs on a budget `M`: what is left of the input costs three for each
byte, and no node that is around may be higher than the rest of the budget. A rule that reads a byte
and then another production sets that byte aside, so that the nodes that it puts around the result
are paid for as well.
-/

namespace SwiftMangling.Legacy

open Decoding Node

variable {α β : Type} {M h k m : Nat}

/-- Declarations of the legacy scheme have no lists of labels. -/
scoped instance labelling : Labelling :=
  ⟨False⟩

/-- Kinds whose children stand in no frame where there are no lists of labels. -/
def isUnframed (k : Kind) : Bool :=
  k.isLoose || k.isRigid && k != .type

theorem framed_of_isUnframed {k : Kind} {cs : List Node} (hk : isUnframed k = true)
    (h : ∀ c ∈ cs, c.kind ≠ .labelList) : Framed k cs := by
  simp only [isUnframed, Bool.or_eq_true, Bool.and_eq_true, bne_iff_ne] at hk
  rcases hk with hk | ⟨hk, ht⟩
  · exact framed_of_isLoose hk h
  · exact framed_of_isRigid hk ht h False.elim False.elim False.elim

/-- A node of a kind that takes any children. -/
theorem open_unframed {k : Kind} {cs : List Node} (hk : k.takesAny = true)
    (hr : isUnframed k = true) (h : ∀ c ∈ cs, c.Child) : (branch k cs).Open :=
  open_branch_of_takesAny hk h (framed_of_isUnframed hr fun c hc => (h c hc).ne_labelList)

/-- How many bytes are left to read. -/
def State.left (s : State) : Nat :=
  s.cursor.rest.length

/-- The state keeps to the budget `M` with `k` bytes set aside: the nodes in the table fit in, and
so do the nodes that the production and those around it still hold, which are no higher than `m` and
`h`. -/
structure At (M h k m : Nat) (s : State) : Prop where
  held : max h m + 3 * (s.left + k) ≤ M
  table : ∀ n ∈ s.substitutions, n.Open ∧ n.height + 3 * (s.left + k) ≤ M

/-- A budget that is larger by what has been read meanwhile. -/
theorem At.mono {M' h' k' m' : Nat} {s : State} (hs : At M h k m s) (hM : M + 3 * k' ≤ M' + 3 * k)
    (hm : max h' m' + M + 3 * k' ≤ M' + max h m + 3 * k) : At M' h' k' m' s where
  held := by
    have := hs.held
    omega
  table n hn := by
    obtain ⟨hopen, hle⟩ := hs.table n hn
    exact ⟨hopen, by omega⟩

/-- The state after a failure is as good as the one before, with nothing set aside. -/
theorem At.failed {s : State} (hs : At M h k m s) : At M h 0 0 s :=
  hs.mono (by omega) (by omega)

/-- What a recursive production returns. -/
def Result : Production → Node → Prop
  | .type, n => n.Open ∧ n.kind = .type
  | .global, n => n.Part
  | _, n => n.Open

/-- What is left of the budget for a node around the result: types without their node and contexts
are always put into one. -/
def slack : Production → Nat
  | .content | .context => 1
  | _ => 0

/-- The recursive productions keep to every budget, and each of them reads at least one byte. -/
def Recursive (g : Grammar) : Prop :=
  ∀ p M h, Triple (fun _ : Unit => True) (At M h 0 h) (g.parse p)
    (fun n s => Result p n ∧ At M h 0 (max (h + 3) (n.height + slack p)) s) (At M h 0 0)

/-- Within a production, the decoder takes the state to one that satisfies `Q` or fails within the
budget. -/
abbrev Runs (M h k m : Nat) (d : Decoder α) (Q : α → State → Prop) : Prop :=
  Triple Recursive (At M h k m) d Q (At M h 0 0)

/-- What a production leaves behind: a result that satisfies `Q` and measures `μ`, and `p` more to
spend on what was held before. -/
abbrev Left (M h p : Nat) (μ : α → Nat) (Q : α → Prop) (a : α) (s : State) : Prop :=
  Q a ∧ At M h 0 (max (h + p) (μ a)) s

/-- The decoder keeps to every budget. -/
def Reads (p : Nat) (μ : α → Nat) (Q : α → Prop) (d : Decoder α) : Prop :=
  ∀ M h, Runs M h 0 h d (Left M h p μ Q)

/-- The decoder keeps to every budget in which a node of height `b` is held. -/
def ReadsAbove (b p : Nat) (μ : α → Nat) (Q : α → Prop) (d : Decoder α) : Prop :=
  ∀ M h, b ≤ h → Runs M h 0 h d (Left M h p μ Q)

variable {d : Decoder α} {f : α → Decoder β} {b p : Nat} {μ : α → Nat} {Q : α → Prop}

theorem Reads.mono {p' : Nat} {μ' : α → Nat} {Q' : α → Prop} (hd : Reads p μ Q d)
    (hp : p' ≤ p) (hμ : ∀ a, μ' a ≤ μ a) (hQ : ∀ a, Q a → Q' a) : Reads p' μ' Q' d := by
  refine fun M h => (hd M h).post fun a s ha => ⟨hQ a ha.1, ha.2.mono (by omega) ?_⟩
  have := hμ a
  omega

/-- A production can run wherever there is a budget for it. -/
theorem ReadsAbove.runs (hd : ReadsAbove b p μ Q d) (hb : b ≤ m) :
    Runs M h k m d fun a s => Q a ∧ At M h k (max (m + p) (μ a)) s := by
  refine Triple.intro_pre (φ := 3 * k ≤ M) (fun s hs => by have := hs.held; omega) fun hk => ?_
  refine Triple.mono (hd (M - 3 * k) (max h m) (by omega)) ?_ ?_ ?_
  · exact fun s hs => hs.mono (by omega) (by omega)
  · exact fun a s ha => ⟨ha.1, ha.2.mono (by omega) (by omega)⟩
  · exact fun s hs => hs.mono (by omega) (by omega)

/-- What is read first is paid for, and held while the next is read. -/
theorem ReadsAbove.bind {Q' : β → State → Prop} (hd : ReadsAbove b p μ Q d) (hb : b ≤ m)
    (hf : ∀ a, Q a → Runs M h k (max (m + p) (μ a)) (f a) Q') : Runs M h k m (d >>= f) Q' := by
  refine Triple.bind (hd.runs hb) fun a => ?_
  exact Triple.intro_pre (fun s hs => hs.1) fun ha => (hf a ha).pre fun s hs => hs.2

theorem Reads.above (hd : Reads p μ Q d) : ReadsAbove 0 p μ Q d :=
  fun M h _ => hd M h

theorem Reads.runs (hd : Reads p μ Q d) :
    Runs M h k m d fun a s => Q a ∧ At M h k (max (m + p) (μ a)) s :=
  hd.above.runs (Nat.zero_le m)

theorem Reads.bind {Q' : β → State → Prop} (hd : Reads p μ Q d)
    (hf : ∀ a, Q a → Runs M h k (max (m + p) (μ a)) (f a) Q') : Runs M h k m (d >>= f) Q' :=
  hd.above.bind (Nat.zero_le m) hf

theorem Runs.ret {a : α} (hQ : Q a) (hp : h + p ≤ m + 3 * k) (hμ : μ a ≤ m + 3 * k) :
    Runs M h k m (pure a) (Left M h p μ Q) :=
  Triple.ret fun _ hs => ⟨hQ, hs.mono (by omega) (by omega)⟩

theorem Runs.fail {Q' : α → State → Prop} : Runs M h k m (failure : Decoder α) Q' :=
  Triple.fail fun _ hs => hs.failed

/-- More can be set aside, and less can be held. -/
theorem Runs.weaken {i j : Nat} {Q' : α → State → Prop} (hd : Runs M h i j d Q')
    (hk : i ≤ k) (hm : j + 3 * i ≤ m + 3 * k) : Runs M h k m d Q' :=
  hd.pre fun _ hs => hs.mono (by omega) (by omega)

/-- A node that is remembered has to be paid for like a result. -/
theorem Runs.remember {n : Node} {μ : Node → Nat} {Q : Node → Prop} (hn : n.Open) (hQ : Q n)
    (hp : h + p ≤ m + 3 * k) (hμ : max n.height (μ n) ≤ m + 3 * k) :
    Runs M h k m (remember n) (Left M h p μ Q) := by
  refine ⟨fun g s _ hs => ⟨hQ, ?_⟩⟩
  have hs' : At M h 0 (max (h + p) (max n.height (μ n))) s := hs.mono (by omega) (by omega)
  refine ⟨by have := hs'.held; simp only [State.left] at this ⊢; omega, fun a ha => ?_⟩
  rcases Array.mem_push.mp ha with ha | rfl
  · exact hs'.table a ha
  · exact ⟨hn, by have := hs'.held; simp only [State.left] at this ⊢; omega⟩

theorem Runs.ofOption {a : Option α} {Q' : β → State → Prop}
    (hf : ∀ b, a = some b → Runs M h k m (f b) Q') : Runs M h k m (ofOption a >>= f) Q' := by
  cases a with
  | none => exact ⟨fun _ _ _ hs => hs.failed⟩
  | some b => exact ⟨fun g s hg hs => (hf b rfl).run g s hg hs⟩

theorem Runs.require {b : Bool} {f : Unit → Decoder β} {Q' : β → State → Prop}
    (hf : b = true → Runs M h k m (f ()) Q') : Runs M h k m (require b >>= f) Q' := by
  cases b with
  | true => exact ⟨fun g s hg hs => (hf rfl).run g s hg hs⟩
  | false => exact ⟨fun _ _ _ hs => hs.failed⟩

/-- Stepping back gives up a byte that was set aside. -/
theorem Runs.pushBack {f : Unit → Decoder β} {Q' : β → State → Prop}
    (hf : Runs M h k m (f ()) Q') : Runs M h (k + 1) m (Decoding.pushBack >>= f) Q' := by
  refine Triple.bind (Q := fun _ => At M h k m) ⟨fun g s _ hs => ?_⟩ fun _ => hf
  -- stepping back gives back at most the byte that was set aside
  have hleft : (s.cursor.pushBack.2).rest.length ≤ s.left + 1 := by
    unfold Cursor.pushBack
    split
    · exact Nat.le_succ _
    · exact Nat.le_refl _
  have hheld := hs.held
  refine ⟨?_, fun n hn => ?_⟩
  · show max h m + 3 * (s.cursor.pushBack.2.rest.length + k) ≤ M
    omega
  · have := hs.table n hn
    refine ⟨this.1, ?_⟩
    show n.height + 3 * (s.cursor.pushBack.2.rest.length + k) ≤ M
    omega

/-- A production that may fail leaves what was set aside. -/
theorem Reads.attempt {f : Option α → Decoder β} {Q' : β → State → Prop} (hd : Reads p μ Q d)
    (hsome : ∀ a, Q a → Runs M h k (max (m + p) (μ a)) (f (some a)) Q')
    (hnone : Runs M h k m (f none) Q') : Runs M h k m (attempt d >>= f) Q' := by
  refine Triple.bind (Q := fun o s => match o with
    | some a => Q a ∧ At M h k (max (m + p) (μ a)) s
    | none => At M h k m s) ⟨fun g s hg hs => ?_⟩ fun o => ?_
  · have hk : 3 * k ≤ M := by
      have := hs.held
      omega
    -- what is set aside is kept out of the budget, so a failure does not spend it
    have hrun := (hd (M - 3 * k) (max h m)).run g s hg (hs.mono (by omega) (by omega))
    revert hrun
    unfold Decoding.attempt
    rcases d g s with ⟨_ | a, t⟩
    · exact fun ht => ht.mono (by omega) (by omega)
    · exact fun ht => ⟨ht.1, ht.2.mono (by omega) (by omega)⟩
  · cases o with
    | none => exact hnone
    | some a =>
      exact Triple.intro_pre (fun _ hs => hs.1) fun ha => (hsome a ha).pre fun _ hs => hs.2

theorem Runs.clear {f : Unit → Decoder β} {Q' : β → State → Prop} (hf : Runs M h k m (f ()) Q') :
    Runs M h k m (clearSubstitutions >>= f) Q' := by
  refine Triple.bind (Q := fun _ => At M h k m) ⟨fun g s _ hs => ⟨hs.held, ?_⟩⟩ fun _ => hf
  exact fun n hn => absurd hn (Array.not_mem_empty n)

theorem production_reads (p : Production) :
    Reads 3 (fun n => n.height + slack p) (Result p) (production p) :=
  fun M h => ⟨fun _ s hg hs => (hg p M h).run () s trivial hs⟩

/-- A level of nesting changes nothing that is paid for. -/
theorem Reads.nested (hd : Reads p μ Q d) : Reads p μ Q (nested d) := by
  refine fun M h => ⟨fun g s hg hs => ?_⟩
  unfold Legacy.nested
  by_cases hdeep : maxDepth ≤ s.depth
  · simpa only [if_pos hdeep] using hs.failed
  · have := (hd M h).run g { s with depth := s.depth + 1 } hg ⟨hs.held, hs.table⟩
    simp only [if_neg hdeep]
    revert this
    rcases d g { s with depth := s.depth + 1 } with ⟨_ | a, t⟩
    · exact fun ht => ⟨ht.held, ht.table⟩
    · exact fun ht => ⟨ht.1, ht.2.held, ht.2.table⟩

/-! ## Reading -/

/-- The decoder builds nothing and moves forward, past at least one byte if its result satisfies
`P`. -/
structure Advances (P : α → Prop) (x : Decoder α) : Prop where
  table : ∀ g s, (x g s).2.substitutions = s.substitutions
  le : ∀ g s, (x g s).2.left ≤ s.left
  lt : ∀ g s a, (x g s).1 = some a → P a → (x g s).2.left < s.left

namespace Advances

variable {x : Decoder α} {P : α → Prop} {Q' : β → State → Prop}

/-- The byte that is read can be set aside. -/
theorem bind (hx : Advances P x) (hyes : ∀ a, P a → Runs M h (k + 1) m (f a) Q')
    (hno : ∀ a, ¬P a → Runs M h k m (f a) Q') : Runs M h k m (x >>= f) Q' := by
  refine ⟨fun g s hg hs => ?_⟩
  have htable := hx.table g s
  have hle := hx.le g s
  have hlt := hx.lt g s
  rw [run_bind]
  revert htable hle hlt
  rcases x g s with ⟨_ | a, t⟩
  all_goals
    intro htable hle hlt
    dsimp only at htable hle hlt ⊢
    -- what is held may be reduced by one more if a byte has been read
    have hheld := hs.held
  · refine ⟨by omega, fun n hn => ?_⟩
    have := hs.table n (htable ▸ hn)
    exact ⟨this.1, by omega⟩
  · by_cases hP : P a
    · have hlt := hlt a rfl hP
      refine (hyes a hP).run g t hg ⟨by omega, fun n hn => ?_⟩
      have := hs.table n (htable ▸ hn)
      exact ⟨this.1, by omega⟩
    · refine (hno a hP).run g t hg ⟨by omega, fun n hn => ?_⟩
      have := hs.table n (htable ▸ hn)
      exact ⟨this.1, by omega⟩

theorem always (hx : Advances (fun _ => True) x) (hf : ∀ a, Runs M h (k + 1) m (f a) Q') :
    Runs M h k m (x >>= f) Q' :=
  hx.bind (fun a _ => hf a) fun _ hno => absurd trivial hno

theorem never (hx : Advances (fun _ => False) x) (hf : ∀ a, Runs M h k m (f a) Q') :
    Runs M h k m (x >>= f) Q' :=
  hx.bind (fun _ hyes => hyes.elim) fun a _ => hf a

/-- Where the first step answers yes, it has read something that pays for what follows. -/
theorem ifTrue {b : Decoder Bool} {f : Bool → Decoder β} (hb : Advances (· = true) b)
    (ht : Runs M h (k + 1) m (f true) Q') (hf : Runs M h k m (f false) Q') :
    Runs M h k m (b >>= f) Q' := by
  refine hb.bind (fun a ha => ha ▸ ht) fun a ha => ?_
  cases a with
  | true => exact absurd rfl ha
  | false => exact hf

/-- A reading at the end builds nothing that has to be paid for. -/
theorem runs (hx : Advances P x) (hp : h + p ≤ m + 3 * k) :
    Runs M h k m x (Left M h p (fun _ => 0) fun _ => True) := by
  rw [← bind_pure x]
  exact hx.bind (fun _ _ => .ret trivial (by omega) (by omega))
    fun _ _ => .ret trivial hp (by omega)

theorem weaken {S : α → Prop} (hx : Advances P x) (hS : ∀ a, S a → P a) : Advances S x :=
  ⟨hx.table, hx.le, fun g s a ha hp => hx.lt g s a ha (hS a hp)⟩

theorem ret {a : α} : Advances (fun _ => False) (pure a) :=
  ⟨fun _ _ => rfl, fun _ _ => Nat.le_refl _, fun _ _ _ _ hp => hp.elim⟩

theorem fail : Advances P (failure : Decoder α) :=
  ⟨fun _ _ => rfl, fun _ _ => Nat.le_refl _, fun _ _ _ ha => by cases ha⟩

/-- Two readings move past a byte together if one of them does. -/
theorem seq {S : α → β → Prop} {T : β → Prop} (hx : Advances P x)
    (hf : ∀ a, Advances (S a) (f a)) (hP : ∀ a b, T b → P a ∨ S a b) :
    Advances T (x >>= f) := by
  have hrun (g : Grammar) (s : State) : ((x >>= f) g s).2.substitutions = s.substitutions ∧
      ((x >>= f) g s).2.left ≤ s.left ∧
      ∀ b, ((x >>= f) g s).1 = some b → T b → ((x >>= f) g s).2.left < s.left := by
    have htable := hx.table g s
    have hle := hx.le g s
    have hlt := hx.lt g s
    rw [run_bind]
    revert htable hle hlt
    rcases x g s with ⟨_ | a, t⟩
    · exact fun htable hle _ => ⟨htable, hle, by simp⟩
    · intro htable hle hlt
      have hle' := (hf a).le g t
      refine ⟨((hf a).table g t).trans htable, Nat.le_trans hle' hle, fun b hb hp => ?_⟩
      -- one of the two has moved past a byte, and the other not back
      rcases hP a b hp with hp | hp
      · exact Nat.lt_of_le_of_lt hle' (hlt a rfl hp)
      · exact Nat.lt_of_lt_of_le ((hf a).lt g t b hb hp) hle
  exact ⟨fun g s => (hrun g s).1, fun g s => (hrun g s).2.1, fun g s => (hrun g s).2.2⟩

theorem seq_first {S : β → Prop} (hx : Advances (fun _ => True) x)
    (hf : ∀ a, Advances S (f a)) : Advances (fun _ => True) (x >>= f) :=
  hx.seq hf fun _ _ _ => .inl trivial

theorem seq_second {S : β → Prop} (hx : Advances P x) (hf : ∀ a, Advances S (f a)) :
    Advances S (x >>= f) :=
  hx.seq hf fun _ _ hp => .inr hp

theorem ite {b : Prop} [Decidable b] {y : Decoder α} (hx : Advances P x) (hy : Advances P y) :
    Advances P (if b then x else y) := by
  split
  · exact hx
  · exact hy

theorem scan {f : Cursor → Option α × Cursor} (hf : Cursor.Forward P f) : Advances P (scan f) :=
  ⟨fun _ _ => rfl, fun _ s => hf.le s.cursor, fun _ s a ha hp => hf.lt s.cursor a ha hp⟩

theorem look {f : Cursor → α} : Advances (fun _ => False) (look f : Decoder α) :=
  ⟨fun _ _ => rfl, fun _ _ => Nat.le_refl _, fun _ _ _ _ hp => hp.elim⟩

theorem require {b : Bool} : Advances (fun _ => False) (require b : Decoder Unit) := by
  unfold Decoding.require
  exact ite ret fail

theorem ofOption {a : Option α} : Advances (fun _ => False) (ofOption a : Decoder α) :=
  ⟨fun _ _ => rfl, fun _ _ => Nat.le_refl _, fun _ _ _ _ hp => hp.elim⟩

theorem nextByte : Advances (fun _ => True) (nextByte : Decoder UInt8) :=
  scan Cursor.forward_next

theorem nextIf (c : Char) : Advances (· = true) (nextIf c : Decoder Bool) :=
  scan (Cursor.forward_nextIf _)

theorem nextIfText {s : String} (hs : Utf8.encode s ≠ []) :
    Advances (· = true) (nextIfText s : Decoder Bool) :=
  scan (Cursor.forward_nextIfBytes hs)

theorem text (n : Nat) : Advances (fun _ => False) (text n : Decoder String) :=
  scan (Cursor.forward_text n)

theorem natural : Advances (fun _ => True) (natural : Decoder Nat) :=
  scan (Cursor.forward_natural 64)

theorem index : Advances (fun _ => True) (index : Decoder Nat) :=
  scan Cursor.forward_index

theorem takeBytesWhile (p : UInt8 → Bool) :
    Advances (fun _ => False) (takeBytesWhile p : Decoder (List UInt8)) :=
  scan (Cursor.forward_skip (fun c => c.rest.takeWhile p) fun c => (c.rest.takeWhile p).length)

theorem takeRest : Advances (fun _ => False) (takeRest : Decoder (List UInt8)) :=
  scan (Cursor.forward_skip Cursor.rest fun c => c.rest.length)

theorem nextChar : Advances (fun _ => True) (nextChar : Decoder Char) :=
  nextByte.seq_first fun _ => ret

theorem expect (c : Char) : Advances (fun _ => True) (expect c : Decoder Unit) := by
  refine (nextIf c).seq (S := fun a _ => a = false) (fun a => ?_) fun a _ _ => ?_
  · cases a with
    | true => exact require.weaken (by simp)
    | false => exact fail
  · cases a with
    | true => exact .inl rfl
    | false => exact .inr rfl

theorem successor (n : Nat) : Advances (fun _ => False) (successor n : Decoder Nat) :=
  require.seq_second fun _ => ret

end Advances

/-! ## Lists -/

/-- What the nodes of a list cost, each of them read by at least one byte, if every node is read on
a loan of `c`. -/
def cost (c : Nat) : List Node → Nat
  | [] => 0
  | n :: ns => max (n.height - c + 3 * ns.length) (cost c ns)

/-- The cost of a list is at least the height of each of its items, less the levels that are free.
-/
theorem top_le_cost (c : Nat) (ns : List Node) : top ns ≤ cost c ns + c := by
  induction ns with
  | nil => simp
  | cons n ns ih =>
    rw [top_cons, cost]
    omega

/-- By induction on the rounds: each item is paid for by its own bytes, the list by its end mark. -/
theorem manyUntilFrom_runs {x : Decoder Node} {Q : Node → Prop} {c : Nat} {e : Char}
    (hx : Reads 3 (fun n => n.height - c) Q x) (n : Nat) :
    Runs M h k m (manyUntilFrom n e x) fun ns s => (∀ a ∈ ns, Q a) ∧
      At M h k (max (m + 3 * ns.length) (cost c ns) + 3) s := by
  -- by induction on the fuel; each element is held while the later ones are read
  induction n generalizing m with
  | zero => exact .fail
  | succ n ih =>
    rw [manyUntilFrom]
    refine (Advances.nextIf e).ifTrue ?_ (hx.bind fun a ha => ?_)
    · exact Triple.ret fun s hs => ⟨by simp, hs.mono (by omega) (by simp [cost]; omega)⟩
    · refine Triple.bind ih fun as => Triple.intro_pre (fun _ hs => hs.1) fun has => ?_
      refine Triple.ret fun s hs => ⟨by simpa using ⟨ha, has⟩, hs.2.mono (by omega) ?_⟩
      rw [cost, List.length_cons]
      omega

theorem manyUntil_runs {x : Decoder Node} {Q : Node → Prop} {c : Nat} {e : Char}
    (hx : Reads 3 (fun n => n.height - c) Q x) :
    Runs M h k m (manyUntil e x) fun ns s => (∀ a ∈ ns, Q a) ∧
      At M h k (max (m + 3 * ns.length) (cost c ns) + 3) s :=
  Advances.look.never fun n => manyUntilFrom_runs hx (n + 1)

/-- A list costs as much as its highest element, and the byte that ends it is left over. -/
theorem manyUntil_reads {x : Decoder Node} {Q : Node → Prop} (c : Nat) {e : Char}
    (hx : Reads 3 (fun n => n.height - c) Q x) :
    Reads 3 (fun ns => top ns - c + 3) (fun ns => ∀ a ∈ ns, Q a) (manyUntil e x) := by
  refine fun M h => Triple.post (manyUntil_runs hx) fun ns s hs =>
    ⟨hs.1, hs.2.mono (by omega) ?_⟩
  have := top_le_cost c ns
  dsimp only
  omega

/-! ## Simple productions -/

theorem type_reads : Reads 3 Node.height (fun n => n.Open ∧ n.kind = .type) type :=
  production_reads .type

theorem context_reads : Reads 3 (fun n => n.height + 1) Open context :=
  production_reads .context

theorem numberNode_reads :
    Reads 3 (fun n => n.height + 2) (fun n => n.Part ∧ n.payload.isIndex = true) numberNode :=
  fun M h => Advances.index.always fun _ =>
    .ret ⟨part_ofIndex rfl (by decide), rfl⟩ (by omega) (by simp)

/-! ## After a letter -/

/-- The decoder reads the rest of a node after a letter that pays for the node. -/
def Follows (Q : Node → Prop) (d : Decoder Node) : Prop :=
  ∀ M h, Runs M h 1 h d (Left M h 3 (fun n => n.height + 1) Q)

section Follows

variable {d : Decoder Node} {μ : Node → Nat} {Q : Node → Prop}

/-- What pays for a height pays for it behind a letter as well. -/
theorem Reads.follows (hd : Reads p μ Q d) (hμ : ∀ n, n.height ≤ μ n) : Follows Q d := by
  refine fun M h => Triple.post hd.runs fun n s hn => ⟨hn.1, hn.2.mono (by omega) ?_⟩
  have := hμ n
  dsimp only
  omega

theorem Follows.letter {f : Char → Decoder Node} (hf : ∀ c, Follows Q (f c)) :
    Reads 3 (fun n => n.height + 1) Q (nextChar >>= f) :=
  fun M h => Advances.nextChar.always fun c => hf c M h

theorem Follows.ret {n : Node} (hn : Q n) (hle : n.height ≤ 2) : Follows Q (pure n) :=
  fun M h => .ret hn (by omega) (by omega)

theorem Follows.fail : Follows Q failure :=
  fun _ _ => .fail

/-- The rest of a node can run wherever a byte is set aside. -/
theorem Follows.runs (hd : Follows Q d) (hk : 1 ≤ k) (hm : h ≤ m) :
    Runs M h k m d (Left M h 3 (fun n => n.height + 1) Q) :=
  Runs.weaken (hd M h) hk (by omega)

theorem Follows.read {α : Type} {P : α → Prop} {x : Decoder α} {f : α → Decoder Node}
    (hx : Advances P x) (hf : ∀ a, Follows Q (f a)) : Follows Q (x >>= f) :=
  fun _ _ => hx.bind (fun a _ => (hf a).runs (by omega) (Nat.le_refl _)) fun a _ => hf a _ _

end Follows

theorem aroundType_follows {k : Kind} (hk : k.isFree = true) (hn : ∀ x ∈ k.needs, x.1 ≠ 0) :
    Follows Open (aroundType k) :=
  fun M h => type_reads.bind fun _ ht => .ret (open_around hk hn ht.1) (by omega) (by simp; omega)

end SwiftMangling.Legacy
