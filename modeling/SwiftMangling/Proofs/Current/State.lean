import SwiftMangling.Proofs.Decoding
import SwiftMangling.Proofs.Node.Shape
import SwiftMangling.Current.Symbol

/-!
# The state of the stack decoder stays sound

Without a resolver every node on the stack and in the table of substitutions is a sound part. The
nodes on the stack are no higher than `maxHeight`; the nodes in the table are identifiers and types
and no higher than a bound that only the productions that remember a node can raise, and they raise
it to the height of that node at most. No reference is handed out.
-/

namespace SwiftMangling.Current

open Decoding Node

variable {H : Nat} {α β : Type} {k : Kind}

/-- Declarations of the current scheme can have lists of labels. -/
scoped instance labelling : Labelling :=
  ⟨True⟩

/-- The kinds of the nodes that references can name. -/
def IsNameable (k : Kind) : Prop :=
  k = .identifier ∨ k = .type

/-- The stack and the table hold sound parts, no higher than `maxHeight` and `H`. -/
structure State.Sound (H : Nat) (s : State) : Prop where
  stack : ∀ n ∈ s.stack, n.Part ∧ n.height ≤ maxHeight
  table : ∀ n ∈ s.substitutions, n.Part ∧ n.height ≤ H
  nameable : ∀ n ∈ s.substitutions, IsNameable n.kind
  words : s.words.length ≤ Word.tableSize
  unasked : s.references = #[]

/-- Symbolic references are refused. -/
abbrev Unresolved (r : Config) : Prop :=
  r.resolver = none

/-- The decoder keeps the state sound, and its results satisfy `Q`. -/
abbrev Holds (H : Nat) (d : Decoder α) (Q : α → Prop) : Prop :=
  Keeps Unresolved (State.Sound H) d Q

/-- The decoder builds a part and may remember nodes that are no higher. If it fails, only the
heights in the table are out of bounds. -/
def Builds (d : Decoder Node) : Prop :=
  Triple Unresolved (State.Sound maxHeight) d
    (fun n s => n.Part ∧ s.Sound (max maxHeight n.height)) fun s => ∃ H, s.Sound H

instance : Placeless (State.Sound H) where
  withCursor _ _ hs := ⟨hs.stack, hs.table, hs.nameable, hs.words, hs.unasked⟩

theorem State.Sound.mono {H' : Nat} {s : State} (h : s.Sound H) (hle : H ≤ H') : s.Sound H' :=
  ⟨h.stack, fun n hn => ⟨(h.table n hn).1, Nat.le_trans (h.table n hn).2 hle⟩, h.nameable, h.words,
    h.unasked⟩

theorem sound_start (input : List UInt8) : (State.start input).Sound H where
  stack _ hn := by cases hn
  table _ hn := by simp [State.start] at hn
  nameable _ hn := by simp [State.start] at hn
  words := Nat.zero_le _
  unasked := rfl

/-! ## From steps to productions -/

/-- What may be taken apart is a sound part. -/
theorem Holds.part {d : Decoder Node} (h : Holds H d Open) : Holds H d Part :=
  h.mono fun _ hn => hn.part

theorem holds_leaf (ha : k.accepts .none = true) (hk : k.standsAlone = true) :
    Holds H (pure (leaf k)) Part :=
  .ret (part_leaf ha hk)

/-- A decoder that remembers nothing builds what it returns. -/
theorem Builds.of_holds {d : Decoder Node} {Q : Node → Prop} (h : Holds maxHeight d Q)
    (hQ : ∀ n, Q n → n.Part) : Builds d :=
  Triple.mono h (fun _ hs => hs)
    (fun n _ hn => ⟨hQ n hn.1, hn.2.mono (Nat.le_max_left _ _)⟩) fun _ hs => ⟨_, hs⟩

theorem Builds.of_part {d : Decoder Node} (h : Holds maxHeight d Part) : Builds d :=
  .of_holds h fun _ hn => hn

theorem Builds.of_open {d : Decoder Node} (h : Holds maxHeight d Open) : Builds d :=
  .of_part h.part

theorem Builds.fail : Builds failure :=
  .of_part .fail

theorem Builds.bind {d : Decoder α} {f : α → Decoder Node} {Q : α → Prop}
    (hd : Holds maxHeight d Q) (hf : ∀ a, Q a → Builds (f a)) : Builds (d >>= f) :=
  hd.bind_triple (fun _ hs => ⟨_, hs⟩) hf

/-- A node around one that was built may need more from the stack. -/
theorem Builds.wrap {d : Decoder Node} {f : Node → Decoder Node} (hd : Builds d)
    (hf : ∀ H n, n.Part → Holds H (f n) fun m => m.Part ∧ n.height ≤ m.height) :
    Builds (d >>= f) := by
  refine Triple.bind hd fun n => ?_
  refine Triple.intro_pre (fun _ hs => hs.1) fun hn => ?_
  refine Triple.mono (hf (max maxHeight n.height) n hn) (fun _ hs => hs.2) ?_ fun _ hs => ⟨_, hs⟩
  rintro m s ⟨⟨hm, hle⟩, hs⟩
  exact ⟨hm, hs.mono (by omega)⟩

theorem remember_holds {n : Node} (h : n.Part) (hk : IsNameable n.kind) (hn : n.height ≤ H) :
    Holds H (remember n) fun m => m = n := by
  refine ⟨fun r s _ hs => ?_⟩
  have hpush {P : Node → Prop} (hall : ∀ m ∈ s.substitutions, P m) (hnew : P n) :
      ∀ m ∈ s.substitutions.push n, P m := by
    intro m hm
    rcases Array.mem_push.mp hm with hm | rfl
    · exact hall m hm
    · exact hnew
  exact ⟨rfl, hs.stack, hpush hs.table ⟨h, hn⟩, hpush hs.nameable hk, hs.words, hs.unasked⟩

/-- The node that is remembered last is the result. -/
theorem builds_remember {n : Node} (h : n.Part) (hk : IsNameable n.kind) :
    Builds (remember n) := by
  have hn : n.height ≤ max maxHeight n.height := Nat.le_max_right _ _
  refine Triple.mono (remember_holds h hk hn) (fun _ hs => hs.mono (Nat.le_max_left _ _)) ?_
    fun _ hs => ⟨_, hs⟩
  rintro m s ⟨rfl, hs⟩
  exact ⟨h, hs⟩

/-! ## The stack -/

theorem push_holds {n : Node} (h : n.Part) (hn : n.height ≤ maxHeight) :
    Holds H (push n) fun _ => True :=
  Keeps.modify fun s hs => ⟨fun m hm => by
    rcases List.mem_cons.mp hm with rfl | hm
    · exact ⟨h, hn⟩
    · exact hs.stack m hm, hs.table, hs.nameable, hs.words, hs.unasked⟩

theorem pushCopies_holds {n : Node} {count : Nat} (h : n.Part) (hn : n.height ≤ maxHeight) :
    Holds H (pushCopies count n) fun _ => True :=
  Keeps.modify fun s hs => ⟨fun m hm => by
    rcases List.mem_append.mp hm with hm | hm
    · rw [List.eq_of_mem_replicate hm]
      exact ⟨h, hn⟩
    · exact hs.stack m hm, hs.table, hs.nameable, hs.words, hs.unasked⟩

theorem popWhere_low {p : Kind → Bool} :
    Holds H (popWhere p) fun n => (n.Part ∧ n.height ≤ maxHeight) ∧ p n.kind = true := by
  refine ⟨fun r s _ hs => ?_⟩
  unfold popWhere
  cases hst : s.stack with
  | nil => exact hs
  | cons n rest =>
    have htop := hs.stack n (by simp [hst])
    have hrest : State.Sound H { s with stack := rest } :=
      ⟨fun m hm => hs.stack m (by simp [hst, hm]), hs.table, hs.nameable, hs.words, hs.unasked⟩
    cases hp : p n.kind with
    | true =>
      simp only [hp, if_true]
      exact ⟨⟨htop, trivial⟩, hrest⟩
    | false => simpa [hp] using hs

theorem popWhere_holds {p : Kind → Bool} :
    Holds H (popWhere p) fun n => n.Part ∧ p n.kind = true :=
  popWhere_low.mono fun _ hn => ⟨hn.1.1, hn.2⟩

theorem pop_low : Holds H pop fun n => n.Part ∧ n.height ≤ maxHeight :=
  popWhere_low.mono fun _ hn => hn.1

theorem pop_holds : Holds H pop Part :=
  pop_low.mono fun _ hn => hn.1

theorem popKind_holds : Holds H (popKind k) fun n => n.Part ∧ n.kind = k :=
  popWhere_holds.mono fun _ hn => ⟨hn.1, by simpa using hn.2⟩

theorem popKind?_holds : Holds H (popKind? k) fun m => ∀ n ∈ m, n.Part ∧ n.kind = k :=
  popKind_holds.attempt

theorem popMarker_holds : Holds H (popMarker k) fun _ => True :=
  popKind?_holds.bind fun _ _ => .ret trivial

/-- Whatever is on the stack is a part and low enough. -/
theorem popAll_low : Holds H popAll fun ns => ∀ n ∈ ns, n.Part ∧ n.height ≤ maxHeight := by
  refine ⟨fun r s _ hs => ?_⟩
  refine ⟨fun n hn => hs.stack n (List.mem_reverse.mp hn), ?_, hs.table, hs.nameable, hs.words,
    hs.unasked⟩
  intro n hn
  cases hn

theorem popAll_holds : Holds H popAll fun ns => ∀ n ∈ ns, n.Part :=
  popAll_low.mono fun _ hns n hn => (hns n hn).1

theorem stackSize_holds : Holds H stackSize fun _ => True :=
  Keeps.get.bind fun _ _ => .ret trivial

theorem popRun_holds {p : Kind → Bool} :
    Holds H (popRun p) fun ns => ∀ n ∈ ns, n.Part ∧ p n.kind = true := by
  unfold popRun
  exact stackSize_holds.bind fun _ _ => popWhere_holds.many.bind fun ns hns =>
    .ret fun n hn => hns n (List.mem_reverse.mp hn)

/-! ## Types, modules and contexts -/

theorem popType_holds : Holds H (popKind .type) fun n => n.Open ∧ n.kind = .type :=
  popKind_holds.mono fun _ hn => ⟨open_of_kind hn rfl, hn.2⟩

theorem popTypeChild_holds : Holds H popTypeChild Open := by
  unfold popTypeChild
  refine popType_holds.bind fun t ht => ?_
  split
  next c hc => exact .ret (ht.1.formed.open_child (by rw [ht.2]; rfl) (by simp [hc]))
  next => exact .fail

theorem popBindable_holds : Holds H popBindable fun n => n.Open ∧ n.kind.isBindable = true :=
  popTypeChild_holds.bind fun _ hn => Keeps.require.bind fun _ hb => .ret ⟨hn, hb⟩

theorem popModule_kind : Holds H popModule fun n => n.Open ∧ n.kind = .moduleName := by
  unfold popModule
  refine popKind?_holds.bind fun m hm => ?_
  cases m with
  | none => exact popKind_holds.mono fun _ hn => ⟨open_of_kind hn rfl, hn.2⟩
  | some n =>
    obtain ⟨hp, hk⟩ := hm n rfl
    have ht := hp.payload_isText fun p => by rw [hk]; rfl
    exact .ret ⟨(part_withKind_of_isText hp ht (fun _ => rfl) (by decide)).open rfl, rfl⟩

theorem popModule_holds : Holds H popModule Open :=
  popModule_kind.mono fun _ hn => hn.1

theorem isWitness_of_isContext (h : k.isContext = true) : k.isWitness = false := by
  simpa using Kind.of_check h (q := (!·.isWitness)) (by decide +kernel)

/-- A context is a module, what a type consists of, or a node of such a kind. -/
theorem popContext_kind : Holds H popContext fun n => n.Open ∧ n.kind.isContext = true := by
  unfold popContext
  refine popModule_kind.attempt.bind fun m hm => ?_
  cases m with
  | some n => exact .ret ⟨(hm n rfl).1, by rw [(hm n rfl).2]; rfl⟩
  -- without a module on top, a context stands in a type or for itself
  | none =>
    refine popKind?_holds.bind fun m hm => ?_
    cases m with
    -- a context inside of a type is taken out of it
    | some t =>
      obtain ⟨hp, hk⟩ := hm t rfl
      dsimp only
      split
      next c hc =>
        exact Keeps.require.bind fun _ hck =>
          .ret ⟨hp.formed.open_child (by rw [hk]; rfl) (by simp [hc]), hck⟩
      next => exact .fail
    | none =>
      exact popWhere_holds.mono fun n hn => ⟨hn.1.open (isWitness_of_isContext hn.2), hn.2⟩

theorem popContext_holds : Holds H popContext Open :=
  popContext_kind.mono fun _ hn => hn.1

theorem popDeclName_kind : Holds H popDeclName fun n => n.Part ∧ n.kind.isDeclName = true :=
  popWhere_holds

theorem popDeclName_holds : Holds H popDeclName Part :=
  popDeclName_kind.mono fun _ hn => hn.1

theorem popEntity_holds : Holds H popEntity Part :=
  popWhere_holds.mono fun _ hn => hn.1

/-! ## Lists -/

/-- The elements down to the mark, each of which is built as it should. -/
theorem popMarkedFrom_holds {d : Decoder Node} {Q : Node → Prop} (hd : Holds H d Q) {n : Nat}
    {later : List Node} (hl : ∀ a ∈ later, Q a) :
    Holds H (popMarkedFrom d n later) fun as => ∀ a ∈ as, Q a := by
  induction n generalizing later with
  | zero => exact .fail
  | succ n ih =>
    rw [popMarkedFrom]
    refine popMarker_holds.bind fun isFirst _ => hd.bind fun a ha => ?_
    have hcons : ∀ b ∈ a :: later, Q b := List.forall_mem_cons.mpr ⟨ha, hl⟩
    exact .ite (fun _ => .ret hcons) fun _ => ih hcons

theorem popMarked_holds {d : Decoder Node} {Q : Node → Prop} (hd : Holds H d Q) :
    Holds H (popMarked d) fun as => ∀ a ∈ as, Q a :=
  stackSize_holds.bind fun _ _ => popMarkedFrom_holds hd (by simp)

theorem popList_holds {d : Decoder Node} {Q : Node → Prop} (hd : Holds H d Q) :
    Holds H (popList d) fun as => ∀ a ∈ as, Q a :=
  popMarker_holds.bind fun _ _ =>
    .ite (fun _ => .ret (by simp)) fun _ => popMarked_holds hd

theorem popTypeList_holds :
    Holds H popTypeList fun n => n.Open ∧ ∀ t ∈ n.children, t.Open ∧ t.kind = .type :=
  (popList_holds popType_holds).bind fun _ hts =>
    .ret ⟨open_branch rfl fun t ht => (hts t ht).1.child, hts⟩

/-! ## Nodes around one part -/

theorem aroundType_holds (hk : k.isFree = true) (hn : ∀ x ∈ k.needs, x.1 ≠ 0) :
    Holds H (aroundType k) Open :=
  popType_holds.bind fun _ ht => .ret (open_around hk hn ht.1)

theorem aroundNode_holds (hk : k.isPlain = true) : Holds H (aroundNode k) Open :=
  pop_holds.bind fun _ hn => .ret (open_branch hk (by simpa using hn.child))

theorem aroundEntity_holds (hk : k.isPlain = true) : Holds H (aroundEntity k) Open :=
  popEntity_holds.bind fun _ hn => .ret (open_branch hk (by simpa using hn.child))

theorem aroundContext_holds (hk : k.isPlain = true) : Holds H (aroundContext k) Open :=
  popContext_holds.bind fun _ hn => .ret (open_branch hk (by simpa using hn.child))

theorem numberNode_holds :
    Holds H numberNode fun n => n.Part ∧ n.payload.isIndex = true :=
  Keeps.index.bind fun _ _ => .ret ⟨part_ofIndex rfl (by decide), rfl⟩

end SwiftMangling.Current
