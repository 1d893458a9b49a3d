import SwiftMangling.Proofs.Current.Label
import SwiftMangling.Proofs.Current.Operand
import SwiftMangling.Symbol

/-!
# How labels are taken

Labels on the stack are taken before they are looked at. If one is missing, the node in its place is
gone, and so are the labels above it (`stack_of_popLabels_none`): a declaration then takes its name
and its context from below, and a symbol that holds a node too many is decoded without it.

Inline labels leave the stack alone. A type is seen as a nest of frames around the tuple of its
parameters, so that a type after the labels are out of it is the same nest around another tuple
(`popLabels_inline`).
-/

namespace SwiftMangling.Current

open Decoding Node

variable {r : Config} {s : State}

/-! ## Labels on the stack -/

/-- Whether a node can be the label of a parameter. -/
def isLabelNode (n : Node) : Bool :=
  n.kind == .identifier || n.kind == .firstElementMarker

/-- The labels on top of a stack. -/
def labelsOnTop (stack : List Node) : List Node :=
  stack.takeWhile isLabelNode

/-- The parameters of the function type in `t`. -/
def parameters? (t : Option Node) : Option Node :=
  (t.filter (·.kind == .type)).bind fun ty => (parameterPath ty).bind ty.follow?

/-- The number of labels that belong to the given parameters. -/
def arity (parameters : Node) : Nat :=
  if parameters.kind == .tuple then parameters.count else 1

/-- The number of labels that belong to the parameters of `t`; none belong to what is no function
type. -/
def labelCount (t : Option Node) : Nat :=
  ((parameters? t).map arity).getD 0

/-- Labels are taken up to the number that is asked for, or up to and with the first node that is
none. -/
theorem run_popLabelNodes (n : Nat) (later : List Node) (s : State) :
    popLabelNodes n later r s =
      if n ≤ (labelsOnTop s.stack).length then
        (some ((s.stack.take n).reverse ++ later), { s with stack := s.stack.drop n })
      else (none, { s with stack := s.stack.drop ((labelsOnTop s.stack).length + 1) }) := by
  -- by induction on the number of labels; a node that is none is taken from the stack before it is
  -- refused
  induction n generalizing later s with
  | zero => simp [popLabelNodes, run_pure]
  | succ n ih =>
    obtain ⟨cursor, stack, substitutions, words, references⟩ := s
    cases stack with
    | nil => rfl
    | cons l rest =>
      rw [popLabelNodes, run_bind]
      show (require (isLabelNode l) >>= fun _ => popLabelNodes n (l :: later)) r
        ⟨cursor, rest, substitutions, words, references⟩ = _
      cases hl : isLabelNode l with
      | false => simp [labelsOnTop, hl, run_bind, require, Decoding.fail]
      | true =>
        have htop : (labelsOnTop (l :: rest)).length = (labelsOnTop rest).length + 1 := by
          simp [labelsOnTop, hl]
        rw [require, if_pos rfl, pure_bind, ih, htop]
        simp only [Nat.add_le_add_iff_right, List.take_succ_cons, List.drop_succ_cons,
          List.reverse_cons, List.append_assoc, List.singleton_append]

/-- No mark is taken where another node is on top. -/
theorem run_popMarker {k : Kind} (h : ∀ n ∈ s.stack.head?, n.kind ≠ k) :
    popMarker k r s = (some false, s) := by
  have hrun : Turns r s (popMarker k) [] s.cursor.rest s.stack s.stack false := .popMarker_false h
  exact hrun s.cursor.before

theorem run_inlineLabels :
    ((·.inlineLabels) <$> read : Decoder Bool) r s = (some r.inlineLabels, s) :=
  rfl

/-- Without the marker of an empty list on top, one label is taken for each parameter. -/
theorem run_popLabels {t : Option Node} (hr : r.inlineLabels = false)
    (hs : ∀ n ∈ s.stack.head?, n.kind ≠ .emptyList) :
    popLabels t r s =
      if labelCount t = 0 then (some (none, t), s)
      else
        (some ((popLabelNodes (labelCount t) [] r s).1.map labelList, t),
          (popLabelNodes (labelCount t) [] r s).2) := by
  unfold popLabels
  rw [run_bind_of_eq run_inlineLabels, hr]
  refine (run_bind_of_eq (run_popMarker hs)).trans ?_
  rw [if_neg Bool.false_ne_true]
  split
  -- without a type there are no parameters to count
  next hty =>
    have hcount : labelCount t = 0 := by simp [labelCount, parameters?, hty]
    rw [if_pos hcount]
    rfl
  next ty hty =>
    split
    -- neither are there in a type that is no function type
    next hpath =>
      have hcount : labelCount t = 0 := by
        rw [labelCount, parameters?, hty, Option.bind_some]
        cases hpath' : parameterPath ty <;> simp_all
      rw [if_pos hcount]
      rfl
    -- the parameters have as many labels as elements, and none if they are a single type
    next path p hpath =>
      obtain ⟨_, hpath, hmap⟩ := Option.bind_eq_some_iff.mp hpath
      obtain ⟨_, hp, ⟨⟩⟩ := Option.map_eq_some_iff.mp hmap
      have hcount : labelCount t = arity p := by simp [labelCount, parameters?, hty, hpath, hp]
      rw [hcount]
      show (if (arity p == 0) = true then (pure (none, t) : Decoder _) else
        attempt (popLabelNodes (arity p) []) >>= fun ls => pure (ls.map labelList, t)) r s = _
      by_cases hzero : arity p = 0
      · simp [hzero, run_pure]
      · simp [hzero, run_bind, run_attempt, run_pure]

/-- The marker of an empty list is a list of labels. -/
theorem run_popLabels_emptyList {t : Option Node} {n : Node} {rest : List Node}
    (hr : r.inlineLabels = false) (hs : s.stack = n :: rest) (hn : n.kind = .emptyList) :
    popLabels t r s = (some (some (leaf .labelList), t), { s with stack := rest }) := by
  have hmarker : popMarker .emptyList r s = (some true, { s with stack := rest }) := by
    simp [popMarker, popKind?, popKind, popWhere, run_bind, run_attempt, run_pure, hs, hn]
  unfold popLabels
  rw [run_bind_of_eq run_inlineLabels, hr]
  refine (run_bind_of_eq hmarker).trans ?_
  rw [if_pos rfl, run_pure]

/-- Inline labels are not looked for on the stack. -/
theorem keeps_popLabels_inline (s : State) (t : Option Node) :
    Keeps (·.inlineLabels = true) (· = s) (popLabels t) fun _ => True := by
  unfold popLabels
  refine Keeps.bind (Q := (· = true)) (Keeps.read.bind fun _ hr => .ret hr) fun inline hin => ?_
  subst hin
  rw [if_neg (by simp)]
  split
  next => exact .ret trivial
  next =>
    split
    next => exact .ret trivial
    next =>
      -- only the last branch takes labels from the stack, and it is for symbols without inline
      -- labels
      refine .ite (fun _ => .ret trivial) fun _ => .ite (fun _ => ?_) fun h => absurd rfl h
      exact .ite (fun _ => .ret trivial) fun _ => .ret trivial

/-- Where labels are missing, the labels above the place of the first missing one are gone, and so
is the node in that place. Only a stack on which no label is looked for, or an empty one, stays as
it was. -/
theorem stack_of_popLabels_none {t t' : Option Node} {s' : State}
    (h : popLabels t r s = (some (none, t'), s')) :
    (s'.stack = s.stack ↔ r.inlineLabels = true ∨ labelCount t = 0 ∨ s.stack = []) ∧
      (r.inlineLabels = false → labelCount t ≠ 0 →
        (labelsOnTop s.stack).length < labelCount t ∧
          s'.stack = s.stack.drop ((labelsOnTop s.stack).length + 1)) := by
  cases hr : r.inlineLabels with
  | true =>
    have hkeeps := (keeps_popLabels_inline s t).run r s hr rfl
    rw [h] at hkeeps
    simp [hkeeps.2]
  | false =>
    -- the marker of an empty list would have given an empty list of labels
    have htop : ∀ n ∈ s.stack.head?, n.kind ≠ .emptyList := by
      intro n hn hk
      obtain ⟨rest, hs⟩ := List.head?_eq_some_iff.mp hn
      rw [run_popLabels_emptyList hr hs hk] at h
      cases h
    rw [run_popLabels hr htop] at h
    by_cases hcount : labelCount t = 0
    · rw [if_pos hcount] at h
      cases h
      simp [hcount]
    · rw [if_neg hcount, run_popLabelNodes] at h
      split at h
      next => cases h
      next hlt =>
        cases h
        -- a stack from which at least one node is taken stays as it was only if it is empty
        have hdrop (k : Nat) : s.stack.drop (k + 1) = s.stack ↔ s.stack = [] := by
          cases s.stack with
          | nil => simp
          | cons n rest =>
            refine iff_of_false (fun h => ?_) (List.cons_ne_nil n rest)
            have := congrArg List.length h
            simp only [List.length_drop, List.length_cons] at this
            omega
        exact ⟨by simp [hcount, hdrop], fun _ _ => ⟨by omega, rfl⟩⟩

/-- The type of a function that takes the given parameters and may throw. -/
def throwingFunction (parameters : Node) : Node :=
  typeOf (branch .functionType [leaf .throwsMark, branch .argumentTuple [parameters],
    branch .returnType [typeOf (leaf .tuple)]])

/-- The standard library's type of integers. -/
def intType : Node :=
  standardType .structureType "Int"

/-- A type in the place of the only label. -/
theorem stack_of_popLabels_none_type :
    let below := [Node.identifier "foo", Node.identifier "main"]
    let s := { State.start [] with stack := intType :: below }
    let t := some (throwingFunction intType)
    ∃ s', popLabels t ⟨false, none⟩ s = (some (none, t), s') ∧ s'.stack = below := by
  intro below s t
  have hrun : popLabels t ⟨false, none⟩ s = (some (none, t), (popLabels t ⟨false, none⟩ s).2) := rfl
  refine ⟨_, hrun, ?_⟩
  rw [((stack_of_popLabels_none hrun).2 rfl (by decide)).2]
  rfl

/-- A failure to take labels does not leave the stack as it was. What it takes is missing in the
decoded symbol: the first of the two types is neither a label nor a part of the function. -/
theorem popLabels_none_drops :
    (∃ r s t s', popLabels t r s = (some (none, t), s') ∧ s'.stack ≠ s.stack) ∧
    (decode (Utf8.encode "$s4main3fooSiySiF")).any (· == branch .global [branch .function
      [module "main", .identifier "foo", typeOf (branch .functionType
        [branch .argumentTuple [intType], branch .returnType [typeOf (leaf .tuple)]])]]) := by
  refine ⟨⟨⟨false, none⟩, { State.start [] with stack := [intType] },
    some (throwingFunction intType), State.start [], rfl, by simp [State.start]⟩, ?_⟩
  decide +kernel

/-! ## Frames around the parameters -/

/-- A node without one of its children. -/
structure Frame where
  kind : Kind
  payload : Payload
  /-- The children in front of the missing one. -/
  before : List Node
  /-- The children behind the missing one. -/
  after : List Node
  height : Nat

/-- The node with `n` as the missing child. -/
def Frame.fill (f : Frame) (n : Node) : Node :=
  ⟨f.kind, f.payload, f.before ++ n :: f.after, f.height⟩

/-- The given frames, one inside of the other, around `n`. -/
def nest (frames : List Frame) (n : Node) : Node :=
  frames.foldr Frame.fill n

/-- The path that leads through the given frames. -/
def throughFrames (frames : List Frame) : List Nat :=
  frames.map (·.before.length)

section Nest

variable {f : Frame} {frames : List Frame} {n : Node}

@[simp] theorem kind_fill : (f.fill n).kind = f.kind :=
  rfl

@[simp] theorem children_fill : (f.fill n).children = f.before ++ n :: f.after :=
  rfl

@[simp] theorem child?_fill : (f.fill n).child? f.before.length = some n := by
  simp [child?]

@[simp] theorem nest_cons : nest (f :: frames) n = f.fill (nest frames n) :=
  rfl

theorem follow?_nest : (nest frames n).follow? (throughFrames frames) = some n := by
  induction frames with
  | nil => rfl
  | cons f frames ih =>
    rw [nest_cons, throughFrames, List.map_cons, follow?, child?_fill]
    exact ih

/-- A change at the end of the path changes nothing but what the frames are around. -/
theorem modifyAt_nest {change : Node → Node} :
    (nest frames n).modifyAt change (throughFrames frames) = nest frames (change n) := by
  induction frames with
  | nil => rfl
  | cons f frames ih =>
    rw [nest_cons, throughFrames, List.map_cons, modifyAt, child?_fill]
    simp [Frame.fill, ← ih, throughFrames]

end Nest

/-- Frames of a type around a function type, which may be generic. -/
inductive ToFunction : List Frame → Prop where
  | plain {t : Frame} (kind : t.kind = .type) (first : t.before = []) : ToFunction [t]
  | generic {t g u : Frame} (kind : t.kind = .type) (first : t.before = [])
      (wrapper : g.kind = .dependentGenericType) (second : g.before.length = 1)
      (function : u.before = []) : ToFunction [t, g, u]

/-- Frames of a type around the parameters of its function type, in front of which the function type
may have any of its marks, in their order. -/
inductive ToParameters : List Frame → Prop where
  | intro {frames : List Frame} {f a u : Frame} (outer : ToFunction frames)
      (kind : f.kind = .functionType ∨ f.kind = .noEscapeFunctionType)
      (marks : (f.before.map Node.kind).Sublist functionMarks)
      (arguments : a.kind = .argumentTuple) (first : a.before = []) (content : u.before = []) :
      ToParameters (frames ++ [f, a, u])

/-- Skipping marks skips those that are there. -/
theorem skipMarks_sublist {n : Node} {marks : List Node} {ks : List Kind} {i : Nat} {a : Node}
    {after : List Node} (hks : ks.Nodup) (hmarks : (marks.map Node.kind).Sublist ks)
    (ha : a.kind ∉ ks) (hn : n.children.drop i = marks ++ a :: after) :
    skipMarks n i ks = some (i + marks.length) := by
  -- by induction on the kinds that can be skipped: each is there, or what comes next is of another
  -- kind
  induction ks generalizing marks i with
  | nil =>
    obtain rfl : marks = [] := by simpa using hmarks
    rfl
  | cons k ks ih =>
    rw [List.nodup_cons] at hks
    rw [List.mem_cons, not_or] at ha
    have hchild : n.child? i = (marks ++ a :: after).head? := by
      rw [← hn, List.head?_drop]
      rfl
    rw [skipMarks, hchild]
    rcases List.sublist_cons_iff.mp hmarks with hskip | ⟨rest, hrest, hsub⟩
    · -- the mark `k` is not there: what comes next is a later mark or no mark
      have hhead : ∀ c ∈ (marks ++ a :: after).head?, c.kind ≠ k := by
        intro c hc hck
        cases marks with
        | nil =>
          obtain rfl : a = c := by simpa using hc
          exact ha.1 hck
        | cons m ms =>
          obtain rfl : m = c := by simpa using hc
          exact hks.1 (hck ▸ hskip.subset (by simp))
      obtain ⟨c, hc⟩ : ∃ c, (marks ++ a :: after).head? = some c := by simp
      simpa [hc, hhead c hc] using ih hks.2 hskip ha.2 hn
    · obtain ⟨m, ms, rfl, rfl, rfl⟩ := List.map_eq_cons_iff.mp hrest
      -- the mark `k` is there and is skipped
      have hnext : n.children.drop (i + 1) = ms ++ a :: after := by
        rw [← List.drop_drop, hn]
        rfl
      have := ih hks.2 hsub ha.2 hnext
      simpa [Nat.add_assoc, Nat.add_comm 1] using this

/-- The frames around a function are those that the path goes through. -/
theorem functionTypePath_nest {frames : List Frame} {n : Node} (h : ToFunction frames)
    (hn : n.kind ≠ .dependentGenericType) :
    functionTypePath (nest frames n) = some (throughFrames frames) := by
  cases h with
  | plain kind first => simp [functionTypePath, first?, nest, throughFrames, first, hn]
  | generic kind first wrapper second function =>
    simp [functionTypePath, first?, nest, throughFrames, first, wrapper, second, function]

theorem kind_nest {frames : List Frame} {n : Node} (h : ToFunction frames) :
    (nest frames n).kind = .type := by
  cases h with
  | plain kind first => exact kind
  | generic kind first wrapper second function => exact kind

theorem nest_append {outer inner : List Frame} {n : Node} :
    nest (outer ++ inner) n = nest outer (nest inner n) :=
  List.foldr_append

/-- The path to the parameters of a type leads through its frames around them. -/
theorem parameterPath_nest {frames : List Frame} {p : Node} (h : ToParameters frames) :
    parameterPath (nest frames p) = some (throughFrames frames) := by
  cases h with
  | @intro outer f a u houter kind marks arguments first content =>
    have hinner : nest [f, a, u] p = f.fill (a.fill (u.fill p)) := rfl
    have hf : (f.fill (a.fill (u.fill p))).kind ≠ .dependentGenericType := by
      rcases kind with h | h <;> simp [h]
    -- the marks of the function are exactly what stands in front of the arguments
    have hskip : skipMarks (f.fill (a.fill (u.fill p))) 0 functionMarks =
        some (0 + f.before.length) := by
      refine skipMarks_sublist (by decide) marks (?_ : (a.fill (u.fill p)).kind ∉ _) rfl
      rw [kind_fill, arguments]
      decide
    have hpath : throughFrames (outer ++ [f, a, u]) =
        throughFrames outer ++ [f.before.length, 0, 0] := by
      simp [throughFrames, first, content]
    rw [nest_append, hinner, parameterPath, functionTypePath_nest houter hf, hpath]
    rcases kind with kind | kind <;> simp [follow?_nest, kind, hskip, arguments]

/-! ## Inline labels -/

/-- An element with at most one name, which carries a text. -/
structure NamedOnce (e : Node) : Prop where
  once : e.children.countP (·.kind == .tupleElementName) ≤ 1
  text : ∀ c ∈ e.children, c.kind = .tupleElementName → c.text?.isSome

/-- The name of a tuple element. -/
def elementName? (e : Node) : Option String :=
  (e.childOfKind? .tupleElementName).bind text?

/-- The label that an element's name stands for. -/
def labelOf (e : Node) : Node :=
  ((elementName? e).map Node.identifier).getD (leaf .firstElementMarker)

/-- The element without its name. The height is stored anew only if there is a name. -/
def withoutName (e : Node) : Node :=
  if (elementName? e).isSome then
    restoreHeight { e with children := e.children.filter (·.kind != .tupleElementName) }
  else e

/-- Removing the first of at most one removes all. -/
theorem eraseIdx_eq_filter {l : List Node} {p : Node → Bool} {i : Nat}
    (hi : l.findIdx? p = some i) (hp : l.countP p ≤ 1) : l.eraseIdx i = l.filter (!p ·) := by
  induction l generalizing i with
  | nil => cases hi
  | cons a l ih =>
    cases ha : p a with
    -- the first element is the one, and there is no other behind it
    | true =>
      obtain rfl : 0 = i := by simpa [List.findIdx?_cons, ha] using hi
      have hnone : l.countP p = 0 := by
        rw [List.countP_cons_of_pos ha] at hp
        omega
      have hall : ∀ b ∈ l, p b = false := by simpa [List.countP_eq_zero] using hnone
      simpa [ha] using (List.filter_eq_self.mpr (by simpa using hall)).symm
    | false =>
      rw [List.findIdx?_cons, ha] at hi
      obtain ⟨j, hj, rfl⟩ := Option.map_eq_some_iff.mp hi
      rw [List.countP_cons_of_neg (by simp [ha])] at hp
      simp [ha, ih hj hp]

/-- An element falls into its label and the element without its name. -/
theorem splitLabel_eq {e : Node} (h : NamedOnce e) :
    splitLabel e = (some (labelOf e), withoutName e) := by
  have hname : e.childOfKind? .tupleElementName =
      (e.children.findIdx? (·.kind == .tupleElementName)).bind e.child? :=
    List.find?_eq_bind_findIdx?_getElem?
  unfold splitLabel
  split
  -- an element without a name has no label and stays as it is
  next hnone => simp [labelOf, withoutName, elementName?, hname, hnone]
  next i hi =>
    obtain ⟨hlt, hkind, -⟩ := List.findIdx?_eq_some_iff_getElem.mp hi
    obtain ⟨s, hs⟩ := Option.isSome_iff_exists.mp
      (h.text e.children[i] (List.getElem_mem hlt) (by simpa using hkind))
    have hchild : e.child? i = some e.children[i] := List.getElem?_eq_getElem hlt
    have hnamed : elementName? e = some s := by simp [elementName?, hname, hi, hchild, hs]
    have herase := eraseIdx_eq_filter hi h.once
    simp [labelOf, withoutName, removeChildAt, hnamed, hchild, hs, herase, bne]

/-- Elements fall into their labels and the elements without their names. -/
theorem splitLabels_eq {es : List Node} (h : ∀ e ∈ es, NamedOnce e) :
    splitLabels es = (some (es.map labelOf), es.map withoutName) := by
  induction es with
  | nil => rfl
  | cons e es ih =>
    rw [List.forall_mem_cons] at h
    simp [splitLabels, splitLabel_eq h.1, ih h.2]

theorem labelList_labelOf (es : List Node) :
    labelList (es.map labelOf) =
      if ∀ e ∈ es, elementName? e = none then leaf .labelList
      else branch .labelList (es.map labelOf) := by
  have hkind (e : Node) : ((labelOf e).kind == .firstElementMarker) = (elementName? e).isNone := by
    unfold labelOf
    cases elementName? e <;> rfl
  simp [labelList, List.all_map, hkind]

/-- The labels inside of the parameters of a type are its list of labels. The type keeps its frames
around the parameters, and the parameters keep everything but their names. -/
theorem popLabels_inline {frames : List Frame} (h : ToParameters frames) {payload : Payload}
    {elements : List Node} {height : Nat} (hr : r.inlineLabels = true) (hne : elements ≠ [])
    (hnames : ∀ e ∈ elements, NamedOnce e) :
    popLabels (some (nest frames ⟨.tuple, payload, elements, height⟩)) r s =
      (some
        (some (if ∀ e ∈ elements, elementName? e = none then leaf .labelList
          else branch .labelList (elements.map labelOf)),
        some (nest frames ⟨.tuple, payload, elements.map withoutName, height⟩)), s) := by
  have htype : (nest frames ⟨.tuple, payload, elements, height⟩).kind = .type := by
    cases h with
    | intro outer => exact nest_append ▸ kind_nest outer
  unfold popLabels
  rw [run_bind_of_eq run_inlineLabels, hr]
  -- what remains is a function of the tree alone: the path to the parameters, the labels found
  -- there and the tree without them
  refine congrArg (fun d : Decoder (Option Node × Option Node) => d r s) (?_ : _ = pure (_, _))
  simp [Option.filter_some, htype, parameterPath_nest h, follow?_nest, count, hne,
    splitLabels_eq hnames, labelList_labelOf, modifyAt_nest]

/-- A function with a labelled parameter and one without a label. -/
theorem popLabels_inline_throwing :
    let tuple (names : List Node) := typeOf (branch .tuple
      [branch .tupleElement (names ++ [intType]), branch .tupleElement [intType]])
    popLabels (some (throwingFunction (tuple [ofText .tupleElementName "x"]))) ⟨true, none⟩
        (State.start []) =
      (some (some (branch .labelList [Node.identifier "x", leaf .firstElementMarker]),
        some (throwingFunction (tuple []))), State.start []) := by
  have hframes : ToParameters [⟨.type, .none, [], [], 9⟩,
      ⟨.functionType, .none, [leaf .throwsMark], [branch .returnType [typeOf (leaf .tuple)]], 8⟩,
      ⟨.argumentTuple, .none, [], [], 7⟩, ⟨.type, .none, [], [], 6⟩] :=
    .intro (.plain rfl rfl) (.inl rfl) (by decide) rfl rfl rfl
  have hnamed : NamedOnce (branch .tupleElement [ofText .tupleElementName "x", intType]) :=
    ⟨by decide, by simp [branch, ofText, ofPayload, text?, intType, standardType, typeOf]⟩
  have hunnamed : NamedOnce (branch .tupleElement [intType]) :=
    ⟨by decide, by simp [branch, intType, standardType, typeOf]⟩
  exact popLabels_inline hframes rfl (List.cons_ne_nil _ _)
    (List.forall_mem_cons.mpr ⟨hnamed, List.forall_mem_singleton.mpr hunnamed⟩)

end SwiftMangling.Current
