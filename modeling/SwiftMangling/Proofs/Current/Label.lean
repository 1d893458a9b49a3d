import SwiftMangling.Proofs.Current.State

/-!
# Labels belong to parameters

The labels of a declaration are taken from the stack, one for each parameter of its type, or out of
the names of the elements of its parameter tuple. Both ways give a list with one label for each
parameter (`popLabels_holds`). Taking the names out of a tuple changes it deep inside of the type, but
changes neither the kinds nor the heights on the way.
-/

namespace SwiftMangling.Current

open Decoding Node

variable {H : Nat} {t f p : Node} {path : List Nat}

/-! ## The way to the parameters -/

/-- The path leads from the type `t` to its function type `f`. -/
inductive FunctionAt (t f : Node) : List Nat → Prop where
  | plain (first : t.child? 0 = some f) (kind : f.kind ≠ .dependentGenericType) : FunctionAt t f [0]
  | generic {g u : Node} (first : t.child? 0 = some g) (kind : g.kind = .dependentGenericType)
      (second : g.child? 1 = some u) (function : u.child? 0 = some f) : FunctionAt t f [0, 1, 0]

/-- The path leads from the type `t` to the parameters `p` of its function type. -/
inductive ParametersAt (t p : Node) : List Nat → Prop where
  | intro {f a u : Node} {path : List Nat} {i : Nat} (function : FunctionAt t f path)
      (kind : f.kind = .functionType ∨ f.kind = .noEscapeFunctionType)
      (arguments : f.child? i = some a) (tuple : a.kind = .argumentTuple)
      (type : a.child? 0 = some u) (content : u.child? 0 = some p) :
      ParametersAt t p (path ++ [i, 0, 0])

theorem follow?_cons {n m : Node} {i : Nat} (h : n.follow? (i :: path) = some m) :
    ∃ c, n.child? i = some c ∧ c.follow? path = some m := by
  rw [follow?] at h
  split at h
  next c hc => exact ⟨c, hc, h⟩
  next => cases h

theorem follow?_append {n m : Node} {rest : List Nat} (h : n.follow? (path ++ rest) = some m) :
    ∃ c, n.follow? path = some c ∧ c.follow? rest = some m := by
  induction path generalizing n with
  | nil => exact ⟨n, rfl, h⟩
  | cons i path ih =>
    obtain ⟨c, hc, hrest⟩ := follow?_cons h
    obtain ⟨d, hd, hm⟩ := ih hrest
    exact ⟨d, by rw [follow?, hc]; exact hd, hm⟩

/-- The path goes through the signature of a generic type. -/
theorem functionAt_of_path (h : functionTypePath t = some path) (hf : t.follow? path = some f) :
    FunctionAt t f path := by
  unfold functionTypePath at h
  obtain ⟨n, hn, h⟩ := Option.bind_eq_some_iff.mp h
  rw [first?_eq_child?] at hn
  split at h
  -- under a generic signature the function is two levels further down
  next hk =>
    obtain rfl := Option.some.inj h
    obtain ⟨g, hg, hf⟩ := follow?_cons hf
    obtain ⟨u, hu, hf⟩ := follow?_cons hf
    obtain ⟨f', hf', hf⟩ := follow?_cons hf
    obtain rfl : f' = f := by simpa [follow?] using hf
    obtain rfl : n = g := by simpa [hn] using hg
    exact .generic hn (by simpa using hk) hu hf'
  next hk =>
    obtain rfl := Option.some.inj h
    obtain ⟨f', hf', hf⟩ := follow?_cons hf
    obtain rfl : f' = f := by simpa [follow?] using hf
    obtain rfl : n = f' := by simpa [hn] using hf'
    exact .plain hn (by simpa using hk)

/-- The parameters stand below the arguments of the function, in their type. -/
theorem parametersAt_of_path (h : parameterPath t = some path) (hp : t.follow? path = some p) :
    ParametersAt t p path := by
  unfold parameterPath at h
  obtain ⟨fpath, hfpath, h⟩ := Option.bind_eq_some_iff.mp h
  obtain ⟨f, hf, h⟩ := Option.bind_eq_some_iff.mp h
  split at h
  next => cases h
  next hk =>
    obtain ⟨i, -, h⟩ := Option.bind_eq_some_iff.mp h
    obtain ⟨a, ha, h⟩ := Option.bind_eq_some_iff.mp h
    split at h
    next hak =>
      obtain rfl := Option.some.inj h
      -- the path goes to the function first, and then through its arguments to the parameters
      obtain ⟨f', hf', hrest⟩ := follow?_append hp
      obtain rfl : f = f' := by simpa [hf] using hf'
      obtain ⟨a', ha', hrest⟩ := follow?_cons hrest
      obtain rfl : a = a' := by simpa [ha] using ha'
      obtain ⟨u, hu, hrest⟩ := follow?_cons hrest
      obtain ⟨p', hp', hrest⟩ := follow?_cons hrest
      obtain rfl : p' = p := by simpa [follow?] using hrest
      have hkind : f.kind = .functionType ∨ f.kind = .noEscapeFunctionType := by
        simpa [Decidable.imp_iff_not_or] using hk
      exact .intro (functionAt_of_path hfpath hf) hkind ha (by simpa using hak) hu hp'
    next => cases h

/-- The function that the path leads to is the one the type stands for. -/
theorem FunctionAt.function? (h : FunctionAt t f path) : t.function? = some f := by
  cases h with
  | plain first kind => simp [Node.function?, first?_eq_child?, first, kind]
  | generic first kind second function =>
    simp [Node.function?, first?_eq_child?, first, kind, second, function]

theorem ParametersAt.takes (h : ParametersAt t p path) : Takes t p := by
  cases h with
  | intro function kind arguments tuple type content =>
    refine ⟨_, function.function?, kind, _, List.mem_of_getElem? arguments, tuple, ?_⟩
    simp [first?_eq_child?, type, content]

theorem isLabelled_function (h : f.kind = .functionType ∨ f.kind = .noEscapeFunctionType) :
    f.kind.isLabelled = false := by
  rcases h with h | h <;> (rw [h]; rfl)

theorem isLabelled_type {n : Node} (h : n.kind = .type) : n.kind.isLabelled = false := by
  rw [h]
  rfl

/-- A path is unlabelled if the node is and the rest of the path from its child is. -/
theorem unlabelled_cons {n c : Node} {i : Nat} {path : List Nat} (hk : n.kind.isLabelled = false)
    (hc : n.child? i = some c) (h : c.Unlabelled path) : n.Unlabelled (i :: path) := by
  refine ⟨hk, fun c' hc' => ?_⟩
  obtain rfl : c = c' := by simpa [hc] using hc'
  exact h

/-- The arguments of a function are a tuple of arguments, which holds a type. -/
theorem unlabelled_function {f a u : Node} {i : Nat} (hf : f.Formed)
    (kind : f.kind = .functionType ∨ f.kind = .noEscapeFunctionType)
    (arguments : f.child? i = some a) (tuple : a.kind = .argumentTuple)
    (type : a.child? 0 = some u) : f.Unlabelled [i, 0, 0] := by
  have ha : a.Formed := hf.child (List.mem_of_getElem? arguments)
  have hu : u.kind = .type := by
    have hframe := ha.neat.here.framed.arguments trivial tuple
    have hmem := List.mem_map_of_mem (f := Node.kind) (List.mem_of_getElem? type)
    rw [hframe] at hmem
    simpa using hmem
  exact unlabelled_cons (isLabelled_function kind) arguments
    (unlabelled_cons (by rw [tuple]; rfl) type ⟨isLabelled_type hu, fun _ _ => trivial⟩)

/-- The nodes on the way to the parameters of a type have no lists of labels. -/
theorem ParametersAt.unlabelled (h : ParametersAt t p path) (ht : t.Formed) (hk : t.kind = .type) :
    t.Unlabelled path := by
  cases h with
  | @intro f a u fpath i function kind arguments tuple type content =>
    cases function with
    | plain first =>
      have hf : f.Formed := ht.child (List.mem_of_getElem? first)
      exact unlabelled_cons (isLabelled_type hk) first
        (unlabelled_function hf kind arguments tuple type)
    | @generic g w first gkind second function =>
      -- behind the signature there is the type of the function
      have hg : g.Formed := ht.child (List.mem_of_getElem? first)
      have hw : w.kind = .type := by
        have hneed : (1, Need.kind .type) ∈ g.kind.needs := by
          rw [gkind]
          decide
        simpa [meets] using hg.sound.meets trivial hneed second
      have hf : f.Formed :=
        (hg.child (List.mem_of_getElem? second)).child (List.mem_of_getElem? function)
      exact unlabelled_cons (isLabelled_type hk) first <|
        unlabelled_cons (by rw [gkind]; rfl) second <|
        unlabelled_cons (isLabelled_type hw) function <|
        unlabelled_function hf kind arguments tuple type

/-! ## Changes of the parameters -/

section Change

variable {change : Node → Node} {n c : Node} {i : Nat}

@[simp] theorem kind_modifyAt_cons : (n.modifyAt change (i :: path)).kind = n.kind := by
  rw [modifyAt]
  split <;> rfl

/-- A change below a child changes the child. -/
theorem child?_modifyAt (h : n.child? i = some c) :
    (n.modifyAt change (i :: path)).child? i = some (c.modifyAt change path) := by
  obtain ⟨hi, -⟩ := List.getElem?_eq_some_iff.mp h
  rw [modifyAt, h]
  exact List.getElem?_set_self hi

/-- A change below the function leaves the path to it as it is. -/
theorem FunctionAt.modifyAt (h : FunctionAt t f path) {rest : List Nat} :
    FunctionAt (t.modifyAt change (path ++ i :: rest)) (f.modifyAt change (i :: rest)) path := by
  cases h with
  | plain first kind => exact .plain (child?_modifyAt first) (by simpa using kind)
  | generic first kind second function =>
    exact .generic (child?_modifyAt first) (by simpa using kind) (child?_modifyAt second)
      (child?_modifyAt function)

/-- The path to the parameters leads to the changed parameters. -/
theorem ParametersAt.modifyAt (h : ParametersAt t p path) :
    ParametersAt (t.modifyAt change path) (change p) path := by
  cases h with
  | intro function kind arguments tuple type content =>
    exact .intro function.modifyAt (by simpa using kind) (child?_modifyAt arguments)
      (by simpa using tuple) (child?_modifyAt type) (child?_modifyAt content)

/-- The content of the type keeps its kind. -/
theorem ParametersAt.first_kind (h : ParametersAt t p path) :
    ((t.modifyAt change path).child? 0).map kind = (t.child? 0).map kind := by
  cases h with
  | intro function =>
    cases function with
    | plain first => simp [child?_modifyAt first, first]
    | generic first => simp [child?_modifyAt first, first]

end Change

/-! ## Splitting labels off -/

/-- A label of a parameter, or the mark of a parameter without one. -/
structure IsLabel (l : Node) : Prop extends Part l where
  kind : l.kind = .identifier ∨ l.kind = .firstElementMarker

theorem isLabel_identifier (s : String) : IsLabel (.identifier s) :=
  ⟨part_identifier s, .inl rfl⟩

theorem isLabel_marker : IsLabel (.leaf .firstElementMarker) :=
  ⟨part_leaf rfl (by decide), .inr rfl⟩

/-- A tuple element is a type behind marks, with a name in front of the type or not. -/
theorem element_cases {cs : List Node} (h : cs.map kind ∈ elementFrames) :
    ∃ marks t, (marks.map kind = [] ∨ marks.map kind = [.variadicMarker]) ∧ t.kind = .type ∧
      (cs = marks ++ [t] ∨ ∃ name, name.kind = .tupleElementName ∧ cs = marks ++ [name, t]) := by
  simp only [elementFrames, List.mem_cons, List.not_mem_nil, or_false, List.map_eq_cons_iff,
    List.map_eq_nil_iff] at h
  rcases h with ⟨t, _, rfl, ht, rfl⟩ | ⟨name, _, rfl, hn, t, _, rfl, ht, rfl⟩ |
    ⟨mark, _, rfl, hm, t, _, rfl, ht, rfl⟩ |
    ⟨mark, _, rfl, hm, name, _, rfl, hn, t, _, rfl, ht, rfl⟩
  · exact ⟨[], t, .inl rfl, ht, .inl rfl⟩
  · exact ⟨[], t, .inl rfl, ht, .inr ⟨name, hn, rfl⟩⟩
  · exact ⟨[mark], t, .inr (by simp [hm]), ht, .inl rfl⟩
  · exact ⟨[mark], t, .inr (by simp [hm]), ht, .inr ⟨name, hn, rfl⟩⟩

theorem height_of_text {n : Node} (h : n.Formed) (hk : n.kind = .tupleElementName) :
    n.height = 1 := by
  have hbare : n.children = [] := by
    refine h.sound.bare trivial fun hp => ?_
    have := h.sound.accepts trivial
    rw [hk, hp] at this
    cases this
  rw [h.neat.here.height, hbare]
  rfl

/-- A name is found right in front of the type, if there is one. -/
theorem findIdx?_tupleElementName {marks : List Node} {t : Node}
    (hmarks : marks.map kind = [] ∨ marks.map kind = [.variadicMarker]) (ht : t.kind = .type) :
    (marks ++ [t]).findIdx? (·.kind == .tupleElementName) = none ∧
      ∀ name : Node, name.kind = .tupleElementName →
        (marks ++ [name, t]).findIdx? (·.kind == .tupleElementName) = some marks.length := by
  have hno : marks.findIdx? (·.kind == .tupleElementName) = none := by
    rw [List.findIdx?_eq_none_iff]
    intro m hm
    have := List.mem_map_of_mem (f := Node.kind) hm
    rcases hmarks with hmarks | hmarks <;> simp_all
  exact ⟨by simp [hno, ht], fun name hname => by simp [hno, hname, List.findIdx?_cons]⟩

/-- Without its name an element stays in its frame, and as high as it was: a name is no higher than
the type beside it. -/
theorem removeName_spec {e name t : Node} {marks : List Node} (h : e.Open)
    (hk : e.kind = .tupleElement)
    (hmarks : marks.map kind = [] ∨ marks.map kind = [.variadicMarker])
    (hname : name.kind = .tupleElementName) (ht : t.kind = .type)
    (hcs : e.children = marks ++ [name, t]) :
    (e.removeChildAt marks.length).Formed ∧ (e.removeChildAt marks.length).height = e.height := by
  have herase : e.children.eraseIdx marks.length = marks ++ [t] := by
    simp [hcs, List.eraseIdx_append_of_length_le]
  constructor
  · refine (open_removeChildAt h (by rw [hk]; rfl) (by rw [hk]; rfl) ?_).formed
    rw [hk, herase]
    refine framed_of_isRigid rfl (by simp) ?_ (fun _ _ => ?_) (by simp) (by simp)
    · intro c hc
      exact h.formed.ne_labelList (by rw [hk]; rfl) (List.mem_of_mem_eraseIdx (herase ▸ hc))
    · rw [List.map_append, List.map_singleton, ht]
      rcases hmarks with hmarks | hmarks <;> simp [hmarks, elementFrames]
  · have hheight : e.height = top e.children + 1 := h.formed.neat.here.height
    have hname1 : name.height = 1 := height_of_text (h.formed.child (by simp [hcs])) hname
    have htpos : 0 < t.height := (h.formed.child (c := t) (by simp [hcs])).sound.positive
    show top (e.children.eraseIdx marks.length) + 1 = e.height
    rw [hheight, herase, hcs]
    simp only [top_append, top_cons, top_nil]
    omega

/-- Splitting a label off keeps the element's kind, payload and height. -/
theorem splitLabel_spec {e : Node} (h : e.Open) (hk : e.kind = .tupleElement) :
    (∀ l ∈ (splitLabel e).1, IsLabel l) ∧ (splitLabel e).2.Formed ∧
      (splitLabel e).2.label = e.label ∧ (splitLabel e).2.height = e.height := by
  obtain ⟨marks, t, hmarks, ht, hcs⟩ :=
    element_cases (h.formed.neat.here.framed.element trivial hk)
  obtain ⟨hnone, hsome⟩ := findIdx?_tupleElementName hmarks ht
  unfold splitLabel
  rcases hcs with hcs | ⟨name, hname, hcs⟩
  · rw [hcs, hnone]
    exact ⟨by simpa using isLabel_marker, h.formed, rfl, rfl⟩
  · rw [hcs, hsome name hname]
    obtain ⟨hformed, hheight⟩ := removeName_spec h hk hmarks hname ht hcs
    refine ⟨fun l hl => ?_, hformed, rfl, hheight⟩
    obtain ⟨s, -, rfl⟩ := Option.map_eq_some_iff.mp (Option.mem_def.mp hl)
    exact isLabel_identifier s

/-- Taking the labels off leaves a well-formed element in the place of each, and its height. -/
theorem splitLabels_spec {es : List Node} (h : ∀ e ∈ es, e.Open ∧ e.kind = .tupleElement) :
    (∀ ls ∈ (splitLabels es).1, ls.length = es.length ∧ ∀ l ∈ ls, IsLabel l) ∧
      (∀ e ∈ (splitLabels es).2, e.Formed) ∧ (splitLabels es).2.map label = es.map label ∧
        (splitLabels es).2.map height = es.map height := by
  induction es with
  | nil => simp [splitLabels]
  | cons e es ih =>
    rw [List.forall_mem_cons] at h
    obtain ⟨hlabel, hformed, heq, hheight⟩ := splitLabel_spec h.1.1 h.1.2
    obtain ⟨hlabels, helements, hmap, hheights⟩ := ih h.2
    rw [splitLabels]
    split
    next e' hs =>
      -- without a label the elements that follow keep their labels
      rw [hs] at heq hformed hheight
      refine ⟨by simp, ?_, by simp [heq], congrArg (· :: es.map height) hheight⟩
      rw [List.forall_mem_cons]
      exact ⟨hformed, fun a ha => (h.2 a ha).1.formed⟩
    next l e' hs =>
      rw [hs] at heq hformed hheight hlabel
      refine ⟨fun ls hls => ?_, ?_, by simp [heq, hmap],
        List.cons_eq_cons.mpr ⟨hheight, hheights⟩⟩
      · obtain ⟨ls', hls', rfl⟩ := Option.map_eq_some_iff.mp (Option.mem_def.mp hls)
        rw [List.forall_mem_cons]
        exact ⟨by simp [(hlabels ls' hls').1], hlabel l rfl, (hlabels ls' hls').2⟩
      · rw [List.forall_mem_cons]
        exact ⟨hformed, helements⟩

/-- The parameters without their labels. -/
abbrev unlabelled (p : Node) : Node :=
  { p with children := (splitLabels p.children).2 }

/-- Removing the labels from a tuple leaves it well-formed and as high as it was. -/
theorem formed_splitLabels (h : p.Formed) (hk : p.kind = .tuple) :
    (∀ ls ∈ (splitLabels p.children).1, ls.length = (unlabelled p).count ∧ ∀ l ∈ ls, IsLabel l) ∧
      (unlabelled p).Formed := by
  have hfit := h.sound.childrenFit trivial
  have helement (e : Node) (he : e ∈ p.children) : e.Open ∧ e.kind = .tupleElement := by
    rw [hk] at hfit
    have hke : e.kind = .tupleElement := by simpa using List.all_eq_true.mp hfit e he
    exact ⟨⟨h.child he, by rw [hke]; rfl, by simp [hke]⟩, hke⟩
  obtain ⟨hlabels, helements, hmap, hheights⟩ := splitLabels_spec helement
  -- the elements keep their kinds and heights, so the tuple keeps its frame and its own
  have hkinds : (splitLabels p.children).2.map kind = p.children.map kind := by
    have := congrArg (List.map kind) hmap
    rw [List.map_map, List.map_map] at this
    exact this
  have hcount : (unlabelled p).count = p.children.length := by
    have := congrArg List.length hmap
    rwa [List.length_map, List.length_map] at this
  refine ⟨by rw [hcount]; exact hlabels, formed_mk (h.sound.accepts trivial) (fun hne => ?_) ?_ ?_
    (h.neat.here.framed.congr (by rw [hk]; rfl) hkinds) helements⟩
  · rw [h.sound.bare trivial hne]
    rfl
  · rw [h.neat.here.height]
    exact congrArg (· + 1) (top_congr hheights).symm
  · rw [childrenFit_congr hmap]
    exact hfit

/-! ## Lists of labels -/

/-- A list of labels that belongs to the type `t`. -/
structure IsLabelList (t l : Node) : Prop where
  formed : l.Formed
  kind : l.kind = .labelList
  fit : l.children ≠ [] → LabelsFit l t

theorem isLabelList_leaf : IsLabelList t (leaf .labelList) :=
  ⟨formed_ofPayload rfl rfl, rfl, fun h => absurd rfl h⟩

/-- A list with one label for each parameter fits the type, and so does a list without labels. -/
theorem isLabelList_labelList {ls : List Node} (hp : Takes t p) (h : ∀ l ∈ ls, IsLabel l)
    (hlen : ls.length = if p.kind = .tuple then p.count else 1) : IsLabelList t (labelList ls) := by
  unfold labelList
  split
  · exact isLabelList_leaf
  refine ⟨formed_branch rfl ?_ (framed_of_isLoose rfl fun l hl => (h l hl).ne_labelList)
    fun l hl => (h l hl).formed, rfl, fun _ => ⟨fun l hl => (h l hl).kind, p, hp, hlen⟩⟩
  have htags := all_not_isTag fun l hl => (h l hl).toPart.child
  simpa [childrenFit, Kind.looksThrough, Kind.needs] using htags

theorem popLabelNodes_holds (n : Nat) {later : List Node} (h : ∀ l ∈ later, IsLabel l) :
    Holds H (popLabelNodes n later) fun ls =>
      ls.length = n + later.length ∧ ∀ l ∈ ls, IsLabel l := by
  induction n generalizing later with
  | zero => exact .ret ⟨by simp, h⟩
  | succ n ih =>
    rw [popLabelNodes]
    refine pop_holds.bind fun l hl => Keeps.require.bind fun _ hk => ?_
    have hlabel : IsLabel l := ⟨hl, by simpa using hk⟩
    refine (ih (List.forall_mem_cons.mpr ⟨hlabel, h⟩)).mono fun ls hls => ⟨?_, hls.2⟩
    rw [hls.1, List.length_cons]
    omega

/-- The node at the end of a path is well-formed. -/
theorem formed_follow? {n m : Node} (h : n.Formed) (hm : n.follow? path = some m) : m.Formed := by
  induction path generalizing n with
  | nil =>
    obtain rfl : n = m := by simpa [follow?] using hm
    exact h
  | cons i path ih =>
    obtain ⟨c, hc, hm⟩ := follow?_cons hm
    exact ih (h.child (List.mem_of_getElem? hc)) hm

/-- A type whose content is of a kind that satisfies `P`. -/
structure IsTypeOf (P : Kind → Prop) (t : Node) : Prop extends Open t where
  kind : t.kind = .type
  content : ∀ c ∈ t.first?, P c.kind

/-- What is left of a type once the labels are out of its parameters, with the list of them. -/
theorem splitLabels_modifyAt {P : Kind → Prop} (h : IsTypeOf P t) (hp : ParametersAt t p path)
    (hfollow : t.follow? path = some p) (hk : p.kind = .tuple) :
    let t' := t.modifyAt (fun q => { q with children := (splitLabels p.children).2 }) path
    IsTypeOf P t' ∧ ∀ ls ∈ (splitLabels p.children).1, IsLabelList t' (labelList ls) := by
  intro t'
  obtain ⟨hlabels, htuple⟩ := formed_splitLabels (formed_follow? h.formed hfollow) hk
  obtain ⟨hformed, hlabel, -⟩ := formed_modifyAt
    (f := fun q => { q with children := (splitLabels p.children).2 })
    h.formed (hp.unlabelled h.formed h.kind) hfollow htuple rfl rfl
  obtain ⟨hopen, hkind⟩ := h.toOpen.of_label hformed hlabel
  refine ⟨⟨hopen, hkind.trans h.kind, fun c hc => ?_⟩, fun ls hls => ?_⟩
  -- what the type holds may be changed further down, but is of the same kind
  · have hfirst : (t'.child? 0).map Node.kind = (t.child? 0).map Node.kind := hp.first_kind
    rw [first?_eq_child?, Option.mem_def] at hc
    rw [hc, Option.map_some, eq_comm, Option.map_eq_some_iff] at hfirst
    obtain ⟨d, hd, hdk⟩ := hfirst
    exact hdk ▸ h.content d ((first?_eq_child? t).trans hd)
  · obtain ⟨hlen, hall⟩ := hlabels ls hls
    refine isLabelList_labelList hp.modifyAt.takes hall ?_
    rw [hlen, if_pos hk]

/-- The labels that belong to the parameters of a type, and the type without them. -/
theorem popLabels_holds {P : Kind → Prop} {t : Option Node} (ht : ∀ n ∈ t, IsTypeOf P n) :
    Holds H (popLabels t) fun (labels, t') =>
      ∀ n ∈ t', IsTypeOf P n ∧ ∀ l ∈ labels, IsLabelList n l := by
  have hempty : ∀ n ∈ t, IsTypeOf P n ∧ ∀ l ∈ some (leaf .labelList), IsLabelList n l :=
    fun n hn => ⟨ht n hn, by simpa using isLabelList_leaf⟩
  have hnone : ∀ n ∈ t, IsTypeOf P n ∧ ∀ l ∈ (none : Option Node), IsLabelList n l :=
    fun n hn => ⟨ht n hn, by simp⟩
  unfold popLabels
  refine Keeps.bind (Q := fun _ => True) (Keeps.read.bind fun _ _ => .ret trivial)
    fun inline _ => ?_
  dsimp only
  refine .ite (fun _ => popMarker_holds.bind fun _ _ =>
    .ite (fun _ => .ret hempty) fun _ => ?_) fun _ => ?_
  -- what follows is the same whether the marker of an empty list was looked for or not
  all_goals
    split
    next => exact .ret hnone
    next ty hty =>
      obtain rfl := Option.eq_some_of_filter_eq_some hty
      have htype := ht ty rfl
      split
      next => exact .ret hnone
      next path p hpath =>
        obtain ⟨path', hpath', hmap⟩ := Option.bind_eq_some_iff.mp hpath
        obtain ⟨p', hfollow, heq⟩ := Option.map_eq_some_iff.mp hmap
        cases heq
        have hp := parametersAt_of_path hpath' hfollow
        refine .ite (fun _ => .ret hnone) fun _ => .ite (fun _ => ?_) fun _ => ?_
        · refine .ite (fun _ => .ret hempty) fun hk => .ret ?_
          obtain ⟨hrest, hlabels⟩ := splitLabels_modifyAt htype hp hfollow (by simpa using hk)
          simpa using ⟨hrest, hlabels⟩
        · refine (popLabelNodes_holds _ (by simp)).attempt.bind fun labels hlabels => .ret ?_
          rintro n hn
          obtain rfl := Option.some.inj hn
          refine ⟨htype, fun l hl => ?_⟩
          obtain ⟨ls, hls, rfl⟩ := Option.map_eq_some_iff.mp (Option.mem_def.mp hl)
          obtain ⟨hlen, hall⟩ := hlabels ls hls
          exact isLabelList_labelList hp.takes hall (by simpa using hlen)

end SwiftMangling.Current
