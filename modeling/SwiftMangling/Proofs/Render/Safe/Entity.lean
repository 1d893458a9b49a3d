import SwiftMangling.Proofs.Render.Safe.Type

/-!
# Declarations are printed safely

A declaration hands on its context, or itself, to be printed after another one. What is handed on
is no higher than the declaration, so the depth that suffices for the declaration suffices for it.
-/

set_option synthInstance.maxSize 100000

namespace SwiftMangling.Render

variable {checked : Checks} {d : Nat} {n c t : Node}

/-- A context that is handed on can be printed at depth `d`. -/
abbrev Postponed (checked : Checks) (d : Nat) (m : Option Node) : Prop :=
  ∀ c ∈ m, Printable checked d c

/-- What a `Type` node holds can be printed and taken apart. -/
theorem Printable.typeChild (h : Printable checked d t) (hk : checked.payloads → t.kind = .type)
    (hc : t.child? 0 = some c) : Printable checked d c ∧ Below checked d c := by
  have h' := h.mono (Nat.le_succ d)
  have ht := h'.through fun hch => by rw [hk hch]; rfl
  have hb := h'.belowOf (fun hch => by rw [hk hch]; rfl) ht.kind
  exact ⟨hb.child? hc, ht.child? hc⟩

/-! ## The type of a declaration -/

theorem innermostType_safe (h : checked.labels → n.Everywhere Node.PrintsLabels) :
    Safe checked d (liftM (innermostType n) : Printer Node) := by
  suffices h : ∀ e, innermostType n = .error e → Tolerated checked e by
    refine ⟨fun S hS o => ?_⟩
    cases hn : innermostType n with
    | ok m => exact trivial
    | error e => exact h e hn
  intro e
  fun_induction innermostType n with
  | case1 n hk hc =>
    rintro ⟨⟩ - hlist
    simp [hlist] at hk
  | case2 n hk c hc ht =>
    rintro ⟨⟩ hch
    have hk : n.kind = .dependentGenericType := by simpa using hk
    exact (h hch).here.ne_labelList (by rw [hk]; rfl) (List.mem_of_getElem? hc)
  | case3 n hk c hc t ht ih =>
    refine ih fun hch => ?_
    exact ((h hch).child (List.mem_of_getElem? hc)).child (List.mem_of_getElem? ht)
  | case4 n hk => exact fun he => by cases he

/-- Under a generic signature the function type is what the `Type` node at position 1 holds. -/
theorem printSignedFunctionType_safe {labels : Option Node} {holder : Node}
    (hreaches : ∀ {f}, holder.function? = some f →
      ∀ ls ∈ labels, ls.Sound checked.payloads ∧ (checked.labels → ls.Reaches f))
    (hfirst : holder.first? = some t) (hk : t.kind = .dependentGenericType)
    (ht : Printable checked d t) [hb : Below checked d t] :
    Safe checked d (child t 1 >>= fun dependent =>
      if needsSpaceBefore dependent then
        write " " >>= fun _ => child dependent 0 >>= fun f => printFunctionType labels f
      else child dependent 0 >>= fun f => printFunctionType labels f) := by
  refine (child_yields t 1).bind_safe fun dependent hc => ?_
  have htype : checked.payloads → dependent.kind = .type := fun hch => by
    have hneeds : (1, Need.kind .type) ∈ t.kind.needs := by
      rw [hk]
      decide
    simpa [Node.meets] using ht.sound.meets hch hneeds hc
  have hunlisted : Unlisted checked dependent :=
    ⟨fun hch => by simp [htype (checked.payloads_of_labels hch)]⟩
  have hfunction : Safe checked d (child dependent 0 >>= fun f => printFunctionType labels f) := by
    refine (child_yields dependent 0).bind_safe fun f hf => ?_
    have hbelow := ((hb.child? hc).typeChild htype hf).2
    refine printFunctionType_safe (hreaches ?_)
    simp [Node.function?, hfirst, hk, hc, Node.first?_eq_child?, hf]
  infer_instance

theorem printEntityType_safe {entity holder : Node} {arguments : Option Node}
    (he : entity.Sound checked.payloads) (hl : checked.labels → entity.PrintsLabels)
    (hh : entity.childOfKind? .type = some holder) (hc : holder.child? 0 = some t)
    (ht : Printable checked d t) [hb : Below checked d t]
    (ha : ∀ as ∈ arguments, Below checked d as) :
    Safe checked d (printEntityType entity t arguments) := by
  have hprint := print_safe ht
  have hfirst : holder.first? = some t := (Node.first?_eq_child? holder).trans hc
  have hreaches {f : Node} (hf : holder.function? = some f) :
      ∀ ls ∈ entity.childOfKind? .labelList,
        ls.Sound checked.payloads ∧ (checked.labels → ls.Reaches f) := fun ls hls =>
    ⟨(childOfKind?_sound he hls).1, fun hch => (hl hch).reaches ls holder f hls hh hf⟩
  have hsigned (hk : t.kind = .dependentGenericType) :=
    printSignedFunctionType_safe hreaches hfirst hk ht
  have hdirect (hk : t.kind ≠ .dependentGenericType) :
      Safe checked d (printFunctionType (entity.childOfKind? .labelList) t) :=
    printFunctionType_safe (hreaches (by simp [Node.function?, hfirst, hk]))
  unfold printEntityType
  dsimp only
  split
  · infer_instance
  cases arguments with
  | none =>
    dsimp only
    split
    next hk =>
      have := hsigned (by simpa using hk)
      infer_instance
    next hk =>
      have := hdirect (by simpa using hk)
      infer_instance
  | some as =>
    -- the arguments stand in front of the function type, in place of its signature
    have := ha as rfl
    dsimp only
    refine Safe.bind_safe inferInstance fun _ => Safe.bind_safe inferInstance fun _ =>
      Safe.bind_safe inferInstance fun _ => ?_
    split
    next hk =>
      have := hsigned (by simpa using hk)
      infer_instance
    next hk =>
      have := hdirect (by simpa using hk)
      infer_instance

theorem printTypePart_safe {entity : Node} {arguments : Option Node} (style : TypeStyle)
    (multiWord : Bool) (he : entity.Sound checked.payloads)
    (hl : checked.labels → entity.PrintsLabels) (hb : Below checked d entity)
    (ha : ∀ as ∈ arguments, Below checked d as) :
    Safe checked d (printTypePart entity style multiWord arguments) := by
  unfold printTypePart
  split
  · infer_instance
  cases hc : entity.childOfKind? .type with
  | none =>
    dsimp only
    infer_instance
  | some holder =>
    obtain ⟨-, hk⟩ := childOfKind?_sound he hc
    have hp : Printable checked d holder := hb.child holder (List.mem_of_find?_eq_some hc)
    dsimp only
    rw [pure_bind]
    have : Unlisted checked holder := ⟨fun _ => by simp [hk]⟩
    refine (child_yields holder 0).bind_safe fun t ht => ?_
    obtain ⟨htp, htb⟩ := hp.typeChild (fun _ => hk) ht
    have := printEntityType_safe he hl hc ht htp ha
    have : Safe checked d (liftM (innermostType t) : Printer Node) := innermostType_safe htp.labels
    infer_instance

/-! ## Contexts and names -/

theorem printLeadingContext_yields (multiWord : Bool) (h : Printable checked d n) :
    Yields checked d (printLeadingContext n multiWord) (Postponed checked d) := by
  unfold printLeadingContext
  refine Safe.bind_yields inferInstance fun _ => ?_
  split
  · split
    · exact yields_pure fun c hc => by cases hc; exact h
    · refine Safe.bind_yields inferInstance fun _ => (printContext_yields h).bind fun m hm => ?_
      refine Safe.bind_yields inferInstance fun _ => ?_
      split
      · exact Safe.bind_yields inferInstance fun _ => yields_pure hm
      · exact yields_pure hm
  · exact yields_pure fun c hc => by cases hc

instance printOwnName_safe (style : Style) [hb : Below checked d n] :
    Safe checked d (printOwnName n style) := by
  unfold printOwnName
  cases hc : n.childOfKind? .privateDeclName with
  | none =>
    dsimp only
    infer_instance
  | some p =>
    have : Safe checked d (print p) := print_safe (hb.child p (List.mem_of_find?_eq_some hc))
    dsimp only
    infer_instance

instance printName_safe (style : Style) (multiWord : Bool) [Below checked d n] :
    Safe checked d (printName n style multiWord) := by
  unfold printName
  infer_instance

/-- Prints a declaration whose generic arguments have been found. -/
def printResolved (entity : Node) (arguments : Option Node) (asContext : Bool) (style : Style) :
    Printer (Option Node) := do
  let multiWord := isMultiWord (← read).options entity style
  if asContext && (style.typeStyle != .hidden || multiWord) then return some entity
  let postponed ← printLeadingContext (← child entity 0) multiWord
  printName entity style multiWord
  printTypePart entity style.typeStyle multiWord arguments
  match asContext, postponed with
  | false, some c =>
    write (contextJoint entity.kind)
    print c
    return none
  | _, _ => return postponed

/-- A function with arguments is printed as the function, with the arguments behind its name. -/
theorem printEntity_eq (asContext : Bool) (style : Style) :
    printEntity n asContext style =
      if n.kind == .boundGenericFunction then do
        let f ← child n 0
        let as ← child n 1
        printResolved f (some as) asContext style
      else printResolved n none asContext style := by
  unfold printEntity printResolved
  split <;> rfl

/-- A declaration is safe, and what it postpones is printable. -/
theorem printResolved_yields {arguments : Option Node} (asContext : Bool) (style : Style)
    (h : Printable checked (d + 1) n) [hb : Below checked d n]
    (ha : ∀ as ∈ arguments, Below checked d as) :
    Yields checked d (printResolved n arguments asContext style) (Postponed checked (d + 1)) := by
  unfold printResolved
  refine Safe.bind_yields inferInstance fun _ => ?_
  dsimp only
  split
  · exact yields_pure fun c hc => by cases hc; exact h
  refine (child_yields n 0).bind fun context hc => ?_
  refine (printLeadingContext_yields _ (hb.child? hc)).bind fun postponed hp => ?_
  refine Safe.bind_yields inferInstance fun _ => ?_
  refine Safe.bind_yields (printTypePart_safe style.typeStyle _ h.sound
    (fun hch => (h.labels hch).here) hb ha) fun _ => ?_
  -- a postponed context is printed here or left to the caller
  split
  case h_1 c _ =>
    have := print_safe (hp c rfl)
    exact Safe.bind_yields inferInstance fun _ =>
      Safe.bind_yields inferInstance fun _ => yields_pure fun c hc => by cases hc
  case h_2 => exact yields_pure fun c hc => (hp c hc).mono (Nat.le_succ d)

theorem printEntity_yields (asContext : Bool) (style : Style) (h : Printable checked (d + 1) n)
    (hw : n.kind.hidesChildren = false) :
    Yields checked d (printEntity n asContext style) (Postponed checked (d + 1)) := by
  have hb := h.below hw
  rw [printEntity_eq]
  split
  next hk =>
    -- a bound generic function is printed as the function that it binds
    have ht := h.through fun _ => by
      have hk : n.kind = .boundGenericFunction := by simpa using hk
      rw [hk]
      rfl
    refine (child_yields n 0).bind fun f hf => (child_yields n 1).bind fun as has => ?_
    have : Below checked d f := ht.child? hf
    refine printResolved_yields asContext style ((hb.child? hf).mono (Nat.le_succ d)) ?_
    exact fun a ha => by cases ha; exact ht.child? has
  next => exact printResolved_yields asContext style h fun a ha => by cases ha

theorem printAccessor_yields (asContext : Bool) (name : String) (h : Printable checked (d + 1) n) :
    Yields checked d (printAccessor n asContext name) (Postponed checked (d + 1)) := by
  unfold printAccessor
  split
  next hk => exact printEntity_yields _ _ h (by rw [hk]; rfl)
  next hk => exact printEntity_yields _ _ h (by rw [hk]; rfl)
  next => exact yields_throw trivial

/-! ## Styles -/

instance closureStyle_safe (description : String) [Meets checked n 1 .index] :
    Safe checked d (closureStyle n description) := by
  unfold closureStyle
  infer_instance

instance memberStyle_safe (style : TypeStyle) (inClass other : String) [Unlisted checked n] :
    Safe checked d (memberStyle n style inClass other) := by
  unfold memberStyle
  infer_instance

/-- What a style needs to know of a node is found there. -/
theorem entityStyle?_safe {e : Nat} (h : Printable checked e n) :
    Safe checked d (entityStyle? n) := by
  have hneed (hn : (1, .index) ∈ n.kind.needs) : Meets checked n 1 .index := h.meets hn
  unfold entityStyle?
  split
  case h_1 hk | h_2 hk | h_3 hk =>
    have := hneed (by rw [hk]; decide)
    infer_instance
  case h_4 hk | h_6 hk =>
    have : Unlisted checked n := ⟨fun _ => by simp [hk]⟩
    infer_instance
  all_goals infer_instance

end SwiftMangling.Render
