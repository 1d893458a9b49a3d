import SwiftMangling.Proofs.Render.Silence

/-!
# Separators between a declaration and its context

A context stands in front of its declaration with a dot, or after it with a joint such as ` in `. A
context in front is printed first, and the dot depends on what that has written. The joint is
written before the context, so it can happen that nothing follows. A run of a declaration is taken
apart into what is printed before it, the declaration itself and what is printed after it
(`printed_of_run`). A context that is printed as nothing is mute (`exposes_level`), by induction on
the depth of nodes: a rule that writes nothing has written nothing in any of its parts.
-/

set_option synthInstance.maxSize 100000

namespace SwiftMangling.Render

variable {S : Setting} {asContext multiWord : Bool} {style : Style} {o o' : Output} {n c : Node}
  {m arguments postponed : Option Node} {k : Kind}

/-! ## A declaration and its context -/

/-- What is printed of a context in front of its declaration. What is left over has to be printed
after the declaration. A dot is written exactly if the context has written something. -/
inductive PrintedBefore (S : Setting) (c : Node) (multiWord : Bool) (o : Output) :
    Option Node → Output → Prop
  | hidden (h : showsContext S.options c = false) : PrintedBefore S c multiWord o none o
  | late (h : showsContext S.options c = true) (hwords : multiWord = true) :
    PrintedBefore S c multiWord o (some c) o
  | silent {m : Option Node} {t : Output} (h : showsContext S.options c = true)
    (hwords : multiWord = false) (hrun : S.node c true o = .ok (m, t)) (htext : t.text = o.text) :
    PrintedBefore S c multiWord o m t
  | dotted {m : Option Node} {t : Output} {front : String} (h : showsContext S.options c = true)
    (hwords : multiWord = false) (hrun : S.node c true o = .ok (m, t))
    (htext : t.text = o.text ++ front) (hfront : front ≠ "") :
    PrintedBefore S c multiWord o m { t with text := t.text ++ "." }

/-- What is printed after a declaration of the kind `k`, if a context is left over. A joint that
nothing follows stands in front of a mute context only. -/
inductive PrintedAfter (S : Setting) (k : Kind) (asContext : Bool) (o : Output) :
    Option Node → Option Node → Output → Prop
  | nothing : PrintedAfter S k asContext o none none o
  | handedOn {c : Node} (h : asContext = true) : PrintedAfter S k asContext o (some c) (some c) o
  | joined {c : Node} {m : Option Node} {t : Output} {back : String} (h : asContext = false)
    (hrun : S.node c false { o with text := o.text ++ contextJoint k } = .ok (m, t))
    (htext : t.text = o.text ++ contextJoint k ++ back) (hmute : back = "" → Mute S.options c) :
    PrintedAfter S k asContext o (some c) none t

/-- Prints what a declaration says itself. -/
def printOwn (n : Node) (arguments : Option Node) (style : Style) (multiWord : Bool) :
    Printer Unit := do
  printName n style multiWord
  printTypePart n style.typeStyle multiWord arguments

/-- How a declaration is printed: not at all, or with its context in front of it or after it. -/
inductive Printed (S : Setting) (n : Node) (arguments : Option Node) (asContext : Bool)
    (style : Style) (o : Output) : Option Node → Output → Prop
  | handedOn (h : asContext = true)
    (hstyle : style.typeStyle ≠ .hidden ∨ isMultiWord S.options n style = true) :
    Printed S n arguments asContext style o (some n) o
  | parts {context : Node} {postponed m : Option Node} {o₁ o₂ o' : Output}
    (hc : n.child? 0 = some context)
    (hbefore : PrintedBefore S context (isMultiWord S.options n style) o postponed o₁)
    (hown : printOwn n arguments style (isMultiWord S.options n style) S o₁ = .ok ((), o₂))
    (hafter : PrintedAfter S n.kind asContext o₂ postponed m o') :
    Printed S n arguments asContext style o m o'

instance : PrintsAny (printOwn n arguments style multiWord) := by
  unfold printOwn
  infer_instance

/-- A child that is found leaves the output as it is. -/
theorem child_eq_ok {i : Nat} (h : child n i S o = .ok (c, o')) : n.child? i = some c ∧ o = o' := by
  unfold child at h
  cases hc : n.child? i with
  | none =>
    rw [hc] at h
    cases h
  | some d =>
    rw [hc] at h
    cases h
    exact ⟨rfl, rfl⟩

variable [S.Oblivious]

/-- What a run prints before a declaration is its context, if it prints anything. -/
theorem printedBefore_of_run (h : printLeadingContext c multiWord S o = .ok (m, o')) :
    PrintedBefore S c multiWord o m o' := by
  have h : (if showsContext S.options c then
      if multiWord then pure (some c)
      else written >>= fun before => printContext c >>= fun postponed => written >>= fun after =>
        if after != before then write "." >>= fun _ => pure postponed else pure postponed
      else pure none : Printer (Option Node)) S o = .ok (m, o') := h
  split at h
  next hshows =>
    split at h
    next hwords =>
      cases h
      exact .late hshows hwords
    next hwords =>
      have hwords : multiWord = false := by simpa using hwords
      obtain ⟨postponed, t, hrun, h⟩ := run_bind_eq_ok (x := printContext c)
        (f := fun postponed => written >>= fun after =>
          if after != o.text.utf8ByteSize then write "." >>= fun _ => pure postponed
          else pure postponed) h
      obtain ⟨front, hfront⟩ := exists_text hrun
      have h : (if t.text.utf8ByteSize != o.text.utf8ByteSize then
          write "." >>= fun _ => pure postponed else pure postponed : Printer (Option Node)) S t =
            .ok (m, o') := h
      -- the text has grown exactly if the context has written something
      have hgrown : (t.text.utf8ByteSize != o.text.utf8ByteSize) = (front != "") := by
        rw [hfront, String.utf8ByteSize_append, Bool.eq_iff_iff]
        simp [String.utf8ByteSize_eq_zero_iff]
      rw [hgrown] at h
      split at h
      next hne =>
        cases h
        exact .dotted hshows hwords hrun hfront (by simpa using hne)
      next hempty =>
        cases h
        obtain rfl : front = "" := by simpa using hempty
        exact .silent hshows hwords hrun (by rw [hfront, String.append_empty])
  next hshows =>
    cases h
    exact .hidden (by simpa using hshows)

/-- What a run prints after a declaration is the postponed context, where it is not passed on. -/
theorem printedAfter_of_run (hS : S.Exposes)
    (h : (match asContext, postponed with
      | false, some c => write (contextJoint k) >>= fun _ => print c >>= fun _ => pure none
      | _, _ => pure postponed : Printer (Option Node)) S o = .ok (m, o')) :
    PrintedAfter S k asContext o postponed m o' := by
  cases postponed with
  | none =>
    cases asContext <;> (cases h; exact .nothing)
  | some c =>
    cases asContext with
    | true =>
      cases h
      exact .handedOn rfl
    -- the context that was left over is printed here, so what it leaves over is lost
    | false =>
      obtain ⟨_, _, ⟨⟩, h⟩ := run_bind_eq_ok h
      obtain ⟨_, t, hprint, ⟨⟩⟩ := run_bind_eq_ok h
      obtain ⟨back, hback⟩ := exists_text hprint
      obtain ⟨m, _, hrun, ⟨⟩⟩ := run_bind_eq_ok hprint
      refine .joined rfl hrun hback fun hempty => hS c false _ m _ hrun ?_ nofun
      rw [hback, hempty, String.append_empty]

theorem printed_of_run (hS : S.Exposes)
    (h : printResolved n arguments asContext style S o = .ok (m, o')) :
    Printed S n arguments asContext style o m o' := by
  unfold printResolved at h
  obtain ⟨_, _, ⟨⟩, h⟩ := run_bind_eq_ok h
  dsimp only at h
  split at h
  next hb =>
    cases h
    obtain ⟨hcontext, hstyle⟩ := Bool.and_eq_true_iff.mp hb
    exact .handedOn hcontext (by simpa using hstyle)
  next =>
    obtain ⟨context, t, hchild, h⟩ := run_bind_eq_ok h
    obtain ⟨hc, rfl⟩ := child_eq_ok hchild
    obtain ⟨postponed, o₁, hbefore, h⟩ := run_bind_eq_ok h
    obtain ⟨_, t, hname, h⟩ := run_bind_eq_ok h
    obtain ⟨_, o₂, htype, h⟩ := run_bind_eq_ok h
    -- name and type are run together, as the part of the declaration that is its own
    have hown : printOwn n arguments style (isMultiWord S.options n style) S o₁ = .ok ((), o₂) := by
      show (printName n style _ S o₁).bind _ = _
      rw [hname]
      exact htype
    exact .parts hc (printedBefore_of_run hbefore) hown (printedAfter_of_run hS h)

/-! ## Declarations that are printed as nothing -/

omit [S.Oblivious] in
theorem contextJoint_ne_empty (k : Kind) : contextJoint k ≠ "" := by
  unfold contextJoint
  split <;> decide

omit [S.Oblivious] in
theorem PrintedBefore.append (h : PrintedBefore S c multiWord o m o') :
    ∃ t, o'.text = o.text ++ t := by
  cases h with
  | hidden | late => exact ⟨"", String.append_empty.symm⟩
  | silent _ _ _ htext => exact ⟨"", by rw [htext, String.append_empty]⟩
  | dotted _ _ _ htext => exact ⟨_, by rw [htext, String.append_assoc]⟩

omit [S.Oblivious] in
/-- A context that is printed as nothing is not shown or mute, if none is left over. -/
theorem PrintedBefore.mute (hS : S.Exposes) (h : PrintedBefore S c multiWord o none o')
    (hsilent : o'.text = o.text) : showsContext S.options c = true → Mute S.options c := by
  intro hshows
  cases h with
  | hidden h =>
    rw [h] at hshows
    cases hshows
  | silent _ _ hrun htext => exact hS c true o none _ hrun htext fun _ => rfl
  | dotted _ _ _ htext hfront =>
    rw [htext, String.append_assoc, String.append_eq_left_iff] at hsilent
    exact absurd (String.append_eq_empty_iff.mp hsilent).1 hfront

omit [S.Oblivious] in
theorem PrintedAfter.append (h : PrintedAfter S k asContext o postponed m o') :
    ∃ t, o'.text = o.text ++ t := by
  cases h with
  | nothing | handedOn => exact ⟨"", String.append_empty.symm⟩
  | joined _ _ htext => exact ⟨_, by rw [htext, String.append_assoc]⟩

omit [S.Oblivious] in
/-- A context that is left over is printed behind a joint. -/
theorem PrintedAfter.eq_none (h : PrintedAfter S k asContext o postponed m o')
    (hsilent : o'.text = o.text) (hm : asContext = true → m = none) : postponed = none := by
  cases h with
  | nothing => rfl
  | handedOn h => exact hm h
  | joined _ _ htext =>
    rw [htext, String.append_assoc, String.append_eq_left_iff] at hsilent
    exact absurd (String.append_eq_empty_iff.mp hsilent).1 (contextJoint_ne_empty k)

/-- Nothing of a declaration is shown. -/
structure MuteDeclaration (options : Options) (n : Node) (style : Style) : Prop where
  context : ∃ c, n.child? 0 = some c ∧ (showsContext options c = true → Mute options c)
  extra : style.extra = ""
  name : (style.hasName || !style.overwrite.isEmpty) = true → MuteName options n style
  type : style.typeStyle = .withColon → options.has .entityTypes = false

/-- A declaration that is printed as nothing has neither a context nor a name that is shown. -/
theorem muteDeclaration_of_printed (hS : S.Exposes)
    (h : Printed S n arguments asContext style o m o') (hsilent : o'.text = o.text)
    (hm : asContext = true → m = none) : MuteDeclaration S.options n style := by
  cases h with
  | handedOn h => cases hm h
  | parts hc hbefore hown hafter =>
    -- each part only appends, so all four are silent if the whole is
    obtain ⟨htext, htext₃⟩ := append_silent
      ((hbefore.append).elim fun t ht => (exists_text hown).elim fun u hu =>
        ⟨t ++ u, by rw [hu, ht, String.append_assoc]⟩) hafter.append hsilent
    obtain ⟨htext₁, htext₂⟩ := append_silent hbefore.append (exists_text hown) htext
    obtain rfl := hafter.eq_none htext₃ hm
    obtain ⟨_, t, hname, htname, htype, httype⟩ := run_bind_silent hown htext₂
    obtain ⟨hextra, hmute⟩ := tells_printName hS _ _ _ hname htname
    refine ⟨⟨_, hc, hbefore.mute hS htext₁⟩, hextra, hmute, fun hstyle => ?_⟩
    rw [hstyle] at htype
    exact tells_printTypePart _ _ _ htype httype

/-! ## Rules -/

omit [S.Oblivious] in
theorem accessorName?_ne_empty {name : String} (h : accessorName? k = some name) : name ≠ "" := by
  unfold accessorName? at h
  split at h <;> cases h
  all_goals decide

/-- What is known of the style of a declaration: it writes a text of its own, unless the declaration
is shown by its name. -/
def StyleFits (k : Kind) (style : Style) : Prop :=
  style.extra ≠ "" ∨ style.overwrite ≠ "" ∨ k = .boundGenericFunction ∨
    k.isNamed = true ∧ style.hasName = true ∧ (k = .variableDecl → style.typeStyle = .withColon)

omit [S.Oblivious] in
theorem fixedStyle?_fits (h : fixedStyle? k = some style) : StyleFits k style := by
  unfold fixedStyle? at h
  unfold StyleFits
  split at h <;> cases h
  all_goals decide

/-- The results of a printer satisfy `Q`. -/
def Finds {α : Type} (p : Printer α) (Q : α → Prop) : Prop :=
  ∀ S o a o', p S o = .ok (a, o') → Q a

namespace Finds

variable {α β : Type} {p : Printer α} {f : α → Printer β} {P : α → Prop} {Q : β → Prop}

theorem ret {b : β} (h : Q b) : Finds (pure b) Q := by
  rintro S o _ o' ⟨⟩
  exact h

theorem bind (hp : Finds p P) (hf : ∀ a, P a → Finds (f a) Q) : Finds (p >>= f) Q := by
  intro S o b o' h
  obtain ⟨a, o₁, hfirst, hrest⟩ := run_bind_eq_ok h
  exact hf a (hp S o a o₁ hfirst) S o₁ b o' hrest

theorem after (hf : ∀ a, Finds (f a) Q) : Finds (p >>= f) Q :=
  bind (P := fun _ => True) (fun _ _ _ _ _ => trivial) fun a _ => hf a

end Finds

omit [S.Oblivious] in
theorem closureStyle_extra (s : String) : Finds (closureStyle n s) (·.extra = s) := by
  unfold closureStyle
  exact .after fun _ => .after fun _ => .after fun _ => by split <;> exact .ret rfl

omit [S.Oblivious] in
theorem memberStyle_extra (t : TypeStyle) (inClass other : String) :
    Finds (memberStyle n t inClass other) fun style =>
      style.extra = inClass ∨ style.extra = other := by
  unfold memberStyle
  exact .after fun _ => .ret (by split <;> simp [Style.described])

omit [S.Oblivious] in
/-- The style that is found for a kind is one that the kind can have. -/
theorem entityStyle?_fits (hk : accessorName? n.kind = none) : Finds (entityStyle? n) fun m =>
    (m = none → isStyled n.kind = false) ∧ ∀ style ∈ m, StyleFits n.kind style := by
  -- a style that puts a text beside the name fits every kind
  have hsome {style : Style} (h : style.extra ≠ "") : (some style = none →
      isStyled n.kind = false) ∧ ∀ s ∈ some style, StyleFits n.kind s :=
    ⟨nofun, fun s hs => .inl (Option.some.inj hs ▸ h)⟩
  unfold entityStyle?
  split
  case h_1 => exact .bind (closureStyle_extra _) fun _ h => .ret (hsome (by rw [h]; decide))
  case h_2 => exact .bind (closureStyle_extra _) fun _ h => .ret (hsome (by rw [h]; decide))
  case h_3 =>
    exact .after fun _ => .after fun _ => .ret (hsome (show "default argument " ≠ "" by decide))
  case h_4 =>
    exact .bind (memberStyle_extra _ _ _) fun _ h =>
      .ret (hsome (by rcases h with h | h <;> (rw [h]; decide)))
  case h_5 => exact .ret (hsome (show "init" ≠ "" by decide))
  case h_6 =>
    exact .bind (memberStyle_extra _ _ _) fun _ h =>
      .ret (hsome (by rcases h with h | h <;> (rw [h]; decide)))
  -- what has no style by its kind has one from the table of fixed styles, or none at all
  case h_7 =>
    refine .ret ⟨fun hnone => ?_, fun style hs => fixedStyle?_fits hs⟩
    unfold isStyled
    split
    case h_7 => simp [hk, hnone]
    all_goals contradiction

/-- If the printer writes nothing, and as a context hands on nothing, then `q`. -/
def Reveals (S : Setting) (asContext : Bool) (p : Printer (Option Node)) (q : Prop) : Prop :=
  ∀ o m o', p S o = .ok (m, o') → o'.text = o.text → (asContext = true → m = none) → q

theorem reveals_printEntity (hS : S.Exposes) (hk : n.kind ≠ .boundGenericFunction) :
    Reveals S asContext (printEntity n asContext style) (MuteDeclaration S.options n style) := by
  intro o m o' h hsilent hm
  rw [printEntity_eq, if_neg (by simpa using hk)] at h
  exact muteDeclaration_of_printed hS (printed_of_run hS h) hsilent hm

/-- An accessor is shown by its name. -/
theorem reveals_printAccessor (hS : S.Exposes) {q : Prop} {name : String} (hname : name ≠ "") :
    Reveals S asContext (printAccessor n asContext name) q := by
  unfold printAccessor
  split
  next hk =>
    intro o m o' h hsilent hm
    exact absurd (reveals_printEntity hS (by rw [hk]; decide) o m o' h hsilent hm).extra hname
  next hk =>
    intro o m o' h hsilent hm
    exact absurd (reveals_printEntity hS (by rw [hk]; decide) o m o' h hsilent hm).extra hname
  next => exact fun o m o' h hsilent _ => Tells.throw o m o' h hsilent

omit [S.Oblivious] in
/-- A declaration that shows nothing is shown by a mute name. -/
theorem MuteDeclaration.mute {options : Options} (h : MuteDeclaration options n style)
    (hfits : StyleFits n.kind style) (hk : n.kind ≠ .boundGenericFunction) : Mute options n := by
  have hoverwrite : style.overwrite = "" := by
    by_contra hne
    have hshown : (style.hasName || !style.overwrite.isEmpty) = true := by
      simp [hne]
    exact hne (h.name hshown).overwrite
  rcases hfits with hextra | hwritten | hbound | ⟨hnamed, hname, htype⟩
  · exact absurd h.extra hextra
  · exact absurd hoverwrite hwritten
  · exact absurd hbound hk
  -- of the styles that fit, only a plain name can show nothing
  · obtain ⟨c, hc, hcontext⟩ := h.context
    obtain ⟨-, ⟨name, hchild, hmute⟩, hprivate⟩ := h.name (by rw [hname]; rfl)
    exact .declaration hnamed hc hcontext hchild hmute hprivate fun hk => h.type (htype hk)

/-- What a rule prints as nothing is mute. -/
theorem reveals_rule (hS : S.Exposes) :
    Reveals S asContext (rule n asContext) (Mute S.options n) := by
  cases hdeclared : n.kind.isDeclared with
  | false => exact fun _ _ _ _ _ _ => .other hdeclared
  | true =>
    have hk : n.kind ≠ .boundGenericFunction := fun h => by
      rw [h] at hdeclared
      cases hdeclared
    intro o m o' h hsilent hm
    unfold rule at h
    cases haccessor : accessorName? n.kind with
    -- an accessor always shows the word for what it does
    | some name =>
      rw [haccessor] at h
      obtain ⟨storage, t, hchild, h⟩ := run_bind_eq_ok h
      obtain ⟨-, rfl⟩ := child_eq_ok hchild
      exact reveals_printAccessor hS (accessorName?_ne_empty haccessor) _ m o' h hsilent hm
    | none =>
      rw [haccessor] at h
      obtain ⟨style, t, hstyle, h⟩ := run_bind_eq_ok h
      obtain ⟨hplain, hfits⟩ := entityStyle?_fits haccessor _ _ _ _ hstyle
      have hbefore := exists_text hstyle
      cases style with
      -- a declaration with a style is silent only if its name is
      | some style =>
        have : PrintsAny (printEntity n asContext style) := composed_printEntity.prints
        have hrun : printEntity n asContext style S t = .ok (m, o') := h
        obtain ⟨-, hsilent⟩ := append_silent hbefore (exists_text hrun) hsilent
        exact (reveals_printEntity hS hk t m o' hrun hsilent hm).mute (hfits style rfl) hk
      | none =>
        have hrun : (printPlain n >>= fun _ => pure none) S t = .ok (m, o') := h
        obtain ⟨-, hsilent⟩ := append_silent hbefore (exists_text hrun) hsilent
        exact (tells_printPlain hS hdeclared (hplain rfl)).first t m o' hrun hsilent

/-- At every depth, what is printed as nothing is mute. -/
theorem exposes_level (options : Options) (embedded : String → String) (d : Nat) :
    (Setting.level options embedded d).Exposes := by
  -- by induction on the depth: a rule prints nodes one level deeper
  induction d with
  | zero => exact fun _ _ _ _ _ h => nomatch h
  | succ d ih => exact fun n b o m o' h => reveals_rule (S := .level options embedded d) ih o m o' h

/-! ## The separators of a declaration -/

/-- The declaration that a node stands for, and its generic arguments: a bound generic function
stands for the function that it binds. -/
inductive Declares (n : Node) : Node → Option Node → Prop
  | itself (hk : n.kind ≠ .boundGenericFunction) : Declares n n none
  | bound {f arguments : Node} (hk : n.kind = .boundGenericFunction) (hf : n.child? 0 = some f)
    (harguments : n.child? 1 = some arguments) : Declares n f (some arguments)

/-- The separators of a declaration, for all options and at every depth of a rendering. A context in
front of the declaration is followed by a dot exactly if printing it has written something. A
context that is left over, perhaps by a declaration further inside, is printed after the outermost
one, behind a joint that is written whatever follows. If nothing follows, the context is mute: it is
a module, an anonymous context or an extension that is not shown, or a declaration in such a context
whose name is not shown either, and so on. -/
theorem printEntity_separators {options : Options} {embedded : String → String} {d : Nat}
    (h : printEntity n asContext style (.level options embedded d) o = .ok (m, o')) :
    ∃ entity arguments, Declares n entity arguments ∧
      Printed (.level options embedded d) entity arguments asContext style o m o' := by
  have hS := exposes_level options embedded d
  rw [printEntity_eq] at h
  split at h
  -- a bound function is printed as the function, with its arguments
  next hk =>
    obtain ⟨f, t, hchild, h⟩ := run_bind_eq_ok h
    obtain ⟨hf, rfl⟩ := child_eq_ok hchild
    obtain ⟨arguments, t, hchild, h⟩ := run_bind_eq_ok h
    obtain ⟨harguments, rfl⟩ := child_eq_ok hchild
    exact ⟨f, some arguments, .bound (by simpa using hk) hf harguments, printed_of_run hS h⟩
  next hk => exact ⟨n, none, .itself (by simpa using hk), printed_of_run hS h⟩

/-- A closure in a structure. -/
theorem printEntity_separators_closure :
    let closure := Node.branch .explicitClosure
      [.branch .structureType [.module "main", .identifier "S"], .ofIndex .number 0]
    let S := Setting.level .full id 3
    ∃ m o', printEntity closure false (.numbered .hidden "closure #" 1) S ⟨"", false⟩ =
        .ok (m, o') ∧ o'.text = "closure #1 in main.S" ∧
      ∃ entity arguments, Declares closure entity arguments ∧
        Printed S entity arguments false (.numbered .hidden "closure #" 1) ⟨"", false⟩ m o' :=
  ⟨none, ⟨"closure #1 in main.S", false⟩, rfl, rfl, printEntity_separators rfl⟩

/-- A closure in a module whose name is not shown: printing the module after the joint writes
nothing. -/
theorem printEntity_dangling :
    let S := Setting.level .simplified id 8
    ∃ root closure module, decode (Utf8.encode "$s4mainyycfU_") = some root ∧
      root.children = [closure] ∧ closure.child? 0 = some module ∧
      (printEntity closure false (.numbered .hidden "closure #" 1) S ⟨"", false⟩).toOption.map
        (·.2.text) = some "closure #1 in " ∧
      (S.node module false ⟨"closure #1 in ", false⟩).toOption.map (·.2.text) =
        some "closure #1 in " := by
  intro S
  have hdecode : (decode (Utf8.encode "$s4mainyycfU_")).any (fun root =>
      root.children.length == 1 && root.children.all fun closure =>
        (closure.child? 0).any fun module =>
          (printEntity closure false (.numbered .hidden "closure #" 1) S ⟨"", false⟩).toOption.map
            (·.2.text) == some "closure #1 in " &&
          (S.node module false ⟨"closure #1 in ", false⟩).toOption.map (·.2.text) ==
            some "closure #1 in ") = true := by
    decide +kernel
  obtain ⟨root, hroot, hcheck⟩ := (Option.any_eq_true ..).mp hdecode
  obtain ⟨hlength, hall⟩ := (Bool.and_eq_true ..).mp hcheck
  obtain ⟨closure, hchildren⟩ := List.length_eq_one_iff.mp (beq_iff_eq.mp hlength)
  have hclosure := List.all_eq_true.mp hall closure (hchildren ▸ List.mem_singleton_self closure)
  obtain ⟨module, hmodule, htexts⟩ := (Option.any_eq_true ..).mp hclosure
  rw [Bool.and_eq_true, beq_iff_eq, beq_iff_eq] at htexts
  exact ⟨root, closure, module, hroot, hchildren, hmodule, htexts⟩

end SwiftMangling.Render
