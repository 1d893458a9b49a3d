import SwiftMangling.Node.Unbound
import SwiftMangling.Proofs.Kind
import SwiftMangling.Proofs.Render.Composed.Rule

/-!
# Nodes that show nothing

A printer only appends to what has been written (`exists_text`), so it has written nothing exactly
if each of its parts has written nothing (`run_bind_silent`). For declarations and their names this
leaves few ways to be printed as nothing, which `Mute` lists: a declaration that is printed as
nothing is in a context that is not shown or is mute itself, and has a name that is mute.
-/

set_option synthInstance.maxSize 100000

namespace SwiftMangling

namespace Kind

/-- Declarations that others stand in, bound generic types, and names of declarations. -/
def isDeclared (k : Kind) : Bool :=
  k.isContext || k.isDeclName || (Node.isBoundKind k && k != .boundGenericFunction)

/-- Declarations that are shown by a name only, and perhaps by a type. -/
def isNamed : Kind → Bool
  | .variableDecl | .function | .genericTypeParamDecl | .classType | .structureType | .enumType
  | .protocolType | .typeAlias | .otherNominalType => true
  | _ => false

end Kind

namespace Render

/-- How a node can be printed as nothing. -/
inductive Mute (options : Options) : Node → Prop
  /-- Names of modules are not shown, or the name is empty. -/
  | module {n : Node} (hk : n.kind = .moduleName)
    (h : options.has .moduleNames = true → n.text? = some "") : Mute options n
  /-- Contexts without a name are not shown. -/
  | anonymousContext {n : Node} (hk : n.kind = .anonymousContext)
    (h : (options.has .qualifiedEntities && options.has .extensionContexts) = false) :
    Mute options n
  /-- Only the extended type is shown, and it is mute. -/
  | extension {n t : Node} (hk : n.kind = .extension)
    (h : (options.has .qualifiedEntities && options.has .extensionContexts) = false)
    (ht : n.child? 1 = some t) (hmute : Mute options t) : Mute options n
  /-- The arguments of a bound generic type are missing. -/
  | bound {n : Node} (hk : Node.isBoundKind n.kind = true) (h : n.count < 2) : Mute options n
  /-- The context is not shown or mute, the name is mute, and no type is shown. -/
  | declaration {n c name : Node} (hk : n.kind.isNamed = true) (hc : n.child? 0 = some c)
    (hcontext : showsContext options c = true → Mute options c) (hname : n.child? 1 = some name)
    (hmute : name.kind ≠ .privateDeclName → Mute options name)
    (hprivate : ∀ p ∈ n.childOfKind? .privateDeclName, Mute options p)
    (htype : n.kind = .variableDecl → options.has .entityTypes = false) : Mute options n
  /-- The name is empty. -/
  | identifier {n : Node} (hk : n.kind = .identifier) (h : n.text? = some "") : Mute options n
  /-- The number of a local declaration is not shown, and its name is mute. -/
  | localName {n name : Node} (hk : n.kind = .localDeclName)
    (h : options.has .localNameContexts = false) (hname : n.child? 1 = some name)
    (hmute : Mute options name) : Mute options n
  /-- The discriminator is not shown, and there is no name or a mute one. -/
  | privateName {n : Node} (hk : n.kind = .privateDeclName)
    (h : options.has .privateDiscriminators = false)
    (hmute : ∀ name ∈ n.child? 1, Mute options name) : Mute options n
  /-- The node is neither a declaration nor a name. -/
  | other {n : Node} (hk : n.kind.isDeclared = false) : Mute options n

/-! ## What is written is appended -/

/-- Printing does not depend on what has been written before. -/
class Setting.Oblivious (S : Setting) : Prop where
  twins : ∀ x, Setting.Twins (fun _ => True) x False S S

instance {options : Options} {embedded : String → String} {d : Nat} :
    (Setting.level options embedded d).Oblivious :=
  ⟨fun _ => twins_level ⟨fun _ => rfl, fun _ _ => rfl⟩ False.elim d⟩

variable {α β : Type} {S : Setting} {o o' : Output} {a : α} {n c : Node} {p : Printer α}
  {f : α → Printer β} {q : Prop} {s : String}

/-- A printer of any nodes. -/
abbrev PrintsAny (p : Printer α) : Prop :=
  Prints (fun _ => True) p

instance : Within (fun _ => True) n :=
  ⟨trivial⟩

instance {ns : List Node} : AllWithin (fun _ => True) ns :=
  ⟨fun _ _ => trivial⟩

instance {m : Option Node} : WithinIfAny (fun _ => True) m :=
  ⟨fun _ _ => trivial⟩

/-- A printer appends a text. -/
theorem exists_text [hS : S.Oblivious] [hp : PrintsAny p] (h : p S o = .ok (a, o')) :
    ∃ t, o'.text = o.text ++ t := by
  have hstart : o.Behind o.text False ⟨"", o.saidSpecialized⟩ :=
    ⟨String.append_empty.symm, .inr rfl⟩
  have hsame := hp.composed.same (hS.twins o.text) hstart
  rw [h] at hsame
  revert hsame
  cases p S ⟨"", o.saidSpecialized⟩ with
  | error e => exact False.elim
  | ok r => exact fun hsame => ⟨r.2.text, hsame.2.2.text⟩

/-- If nothing is appended in two steps, then nothing in each. -/
theorem append_silent {x y z : String} (hy : ∃ t, y = x ++ t) (hz : ∃ u, z = y ++ u) (h : z = x) :
    y = x ∧ z = y := by
  obtain ⟨t, rfl⟩ := hy
  obtain ⟨u, rfl⟩ := hz
  rw [String.append_assoc, String.append_eq_left_iff] at h
  obtain ⟨rfl, rfl⟩ := String.append_eq_empty_iff.mp h
  simp

/-- What writes nothing writes nothing in each of its parts. -/
theorem run_bind_silent [S.Oblivious] [PrintsAny p] [∀ a, PrintsAny (f a)] {b : β}
    (h : (p >>= f) S o = .ok (b, o')) (hsilent : o'.text = o.text) :
    ∃ a o₁, p S o = .ok (a, o₁) ∧ o₁.text = o.text ∧ f a S o₁ = .ok (b, o') ∧
      o'.text = o₁.text := by
  obtain ⟨a, o₁, hfirst, hrest⟩ := run_bind_eq_ok h
  obtain ⟨htext, htext'⟩ := append_silent (exists_text hfirst) (exists_text hrest) hsilent
  exact ⟨a, o₁, hfirst, htext, hrest, htext'⟩

/-- If the printer writes nothing, then `q`. -/
def Tells (S : Setting) (p : Printer α) (q : Prop) : Prop :=
  ∀ o a o', p S o = .ok (a, o') → o'.text = o.text → q

namespace Tells

theorem mono {q' : Prop} (h : Tells S p q) (hq : q → q') : Tells S p q' :=
  fun o a o' hrun hsilent => hq (h o a o' hrun hsilent)

theorem and {q' : Prop} (h : Tells S p q) (h' : Tells S p q') : Tells S p (q ∧ q') :=
  fun o a o' hrun hsilent => ⟨h o a o' hrun hsilent, h' o a o' hrun hsilent⟩

theorem first [S.Oblivious] [PrintsAny p] [∀ a, PrintsAny (f a)] (h : Tells S p q) :
    Tells S (p >>= f) q := by
  intro o b o' hrun hsilent
  obtain ⟨a, o₁, hfirst, htext, -⟩ := run_bind_silent hrun hsilent
  exact h o a o₁ hfirst htext

theorem rest [S.Oblivious] [PrintsAny p] [∀ a, PrintsAny (f a)] (h : ∀ a, Tells S (f a) q) :
    Tells S (p >>= f) q := by
  intro o b o' hrun hsilent
  obtain ⟨a, o₁, -, -, hrest, htext⟩ := run_bind_silent hrun hsilent
  exact h a o₁ b o' hrest htext

/-- What follows a comparison, whatever has been compared. -/
theorem compare [S.Oblivious] [PrintsAny p] {g : Bool → Printer β} [∀ b, PrintsAny (g b)]
    (h : ∀ b, Tells S (g b) q) :
    Tells S (do
      let before ← written
      let _ ← p
      let after ← written
      g (after != before)) q := by
  intro o b o' hrun hsilent
  obtain ⟨a, o₁, hfirst, hrest⟩ := run_bind_eq_ok (x := p) (f := fun _ => written >>= fun after =>
    g (after != o.text.utf8ByteSize)) hrun
  have hrest : g (o₁.text.utf8ByteSize != o.text.utf8ByteSize) S o₁ = .ok (b, o') := hrest
  have htext := (append_silent (exists_text hfirst) (exists_text hrest) hsilent).2
  exact h _ o₁ b o' hrest htext

theorem ite {b : Prop} [Decidable b] {p' : Printer α} (h : b → Tells S p q)
    (h' : ¬b → Tells S p' q) : Tells S (if b then p else p') q := by
  split
  next hb => exact h hb
  next hb => exact h' hb

theorem write : Tells S (write s) (s = "") := by
  rintro o a o' ⟨⟩ hsilent
  exact String.append_eq_left_iff.mp hsilent

theorem loud (h : s ≠ "") : Tells S (Render.write s) q :=
  fun o a o' hrun hsilent => absurd (write o a o' hrun hsilent) h

theorem throw {e : RenderError} : Tells S (throw e : Printer α) q :=
  fun _ _ _ h => nomatch h

theorem throw_bind {e : RenderError} : Tells S (MonadExcept.throw e >>= f) q :=
  fun _ _ _ h => nomatch h

/-- A flag is as the options have it. -/
theorem flag {x : Flag} {g : Bool → Printer β} (h : Tells S (g (S.options.has x)) q) :
    Tells S (flag x >>= g) q :=
  h

theorem child {i : Nat} {g : Node → Printer β} (h : ∀ c, n.child? i = some c → Tells S (g c) q) :
    Tells S (child n i >>= g) q := by
  unfold Render.child
  cases hc : n.child? i with
  | none => exact throw_bind
  | some c => exact h c hc

theorem textOf {g : String → Printer β} (h : ∀ s, n.text? = some s → Tells S (g s) q) :
    Tells S (textOf n >>= g) q := by
  unfold Render.textOf
  cases hs : n.text? with
  | none => exact throw_bind
  | some s => exact h s hs

end Tells

/-! ## Declarations -/

/-- What is printed as nothing and hands on no context is mute. -/
def Setting.Exposes (S : Setting) : Prop :=
  ∀ n b o m o', S.node n b o = .ok (m, o') → o'.text = o.text → (b = true → m = none) →
    Mute S.options n

/-- The name of a declaration is printed as nothing. -/
structure MuteName (options : Options) (n : Node) (style : Style) : Prop where
  overwrite : style.overwrite = ""
  name : ∃ name, n.child? 1 = some name ∧ (name.kind ≠ .privateDeclName → Mute options name)
  privateName : ∀ p ∈ n.childOfKind? .privateDeclName, Mute options p

variable [S.Oblivious] {style : Style} {multiWord : Bool}

omit [S.Oblivious] in
theorem tells_print (hS : S.Exposes) : Tells S (print n) (Mute S.options n) := by
  intro o a o' h hsilent
  obtain ⟨m, o₁, hrun, hrest⟩ := run_bind_eq_ok h
  cases hrest
  exact hS n false o m o' hrun hsilent nofun

/-- A name that is printed as nothing is mute. -/
theorem tells_printOwnName (hS : S.Exposes) :
    Tells S (printOwnName n style) (MuteName S.options n style) := by
  unfold printOwnName
  refine .ite (fun hempty => .child fun name hname => ?_) fun hwritten => ?_
  · have hoverwrite : style.overwrite = "" := String.isEmpty_iff.mp hempty
    -- the private name is printed behind the own one, or instead of it
    have hprint {k : Printer Unit} [PrintsAny k] :
        Tells S (if name.kind != .privateDeclName then print name >>= fun _ => k else k)
          (name.kind ≠ .privateDeclName → Mute S.options name) :=
      .ite (fun _ => .first ((tells_print hS).mono fun h _ => h))
        fun hk _ _ _ _ _ hne => absurd (bne_iff_ne.mpr hne) hk
    cases hp : n.childOfKind? .privateDeclName with
    | none => exact hprint.mono fun h => ⟨hoverwrite, ⟨name, hname, h⟩, by simp [hp]⟩
    | some p =>
      have hlast : Tells S (if name.kind != .privateDeclName then print name >>= fun _ => print p
          else print p) (Mute S.options p) :=
        .ite (fun _ => .rest fun _ => tells_print hS) fun _ => tells_print hS
      refine (hprint.and hlast).mono fun h => ⟨hoverwrite, ⟨name, hname, h.1⟩, fun c hc => ?_⟩
      obtain rfl : p = c := by simpa [hp] using hc
      exact h.2
  · exact .loud fun h => hwritten (String.isEmpty_iff.mpr h)

/-- What a description says is written. -/
theorem extraText_ne_empty (h : style.extra.isEmpty = false) : style.extraText ≠ "" := by
  intro htext
  rw [(String.append_eq_empty_iff.mp htext).1] at h
  cases h

theorem tells_printName (hS : S.Exposes) : Tells S (printName n style multiWord)
    (style.extra = "" ∧ ((style.hasName || !style.overwrite.isEmpty) = true →
      MuteName S.options n style)) := by
  unfold printName
  cases hextra : style.extra.isEmpty with
  -- a text beside the name is never empty
  | false =>
    have hloud {q : Prop} : Tells S (write style.extraText) q := .loud (extraText_ne_empty hextra)
    refine .ite (fun _ => .ite (fun _ => .first (.loud ?_)) fun _ => ?_) fun _ => hloud
    · exact fun h => extraText_ne_empty hextra (String.append_eq_empty_iff.mp h).1
    · exact .compare (g := fun grown => do
        if grown then write "."
        write style.extraText) fun _ => .ite (fun _ => .rest fun _ => hloud) fun _ => hloud
  | true =>
    have hextra : style.extra = "" := String.isEmpty_iff.mp hextra
    refine .ite (fun _ => ?_) fun hname => fun _ _ _ _ _ => ⟨hextra, fun h => absurd h hname⟩
    exact .first (p := printOwnName n style) (f := fun _ => pure ())
      ((tells_printOwnName hS).mono fun h => ⟨hextra, fun _ => h⟩)

/-- A type behind a colon is written if types are. -/
theorem tells_printTypePart {m : Option Node} : Tells S (printTypePart n .withColon multiWord m)
    (S.options.has .entityTypes = false) := by
  unfold printTypePart
  cases n.childOfKind? .type with
  | none => exact .throw_bind
  | some holder =>
    show Tells S (child holder 0 >>= fun t => flag .entityTypes >>= fun shown =>
      if shown then write " : " >>= fun _ => printEntityType n t m else pure ()) _
    refine .child fun t _ => .flag (.ite (fun _ => ?_) fun h _ _ _ _ _ => ?_)
    · exact .first (.loud (by decide))
    · simpa using h

/-! ## Contexts and names -/

omit [S.Oblivious] in
theorem tells_printChild {i : Nat} (hS : S.Exposes) :
    Tells S (printChild n i) (∃ c, n.child? i = some c ∧ Mute S.options c) :=
  .child fun c hc => (tells_print hS).mono fun h => ⟨c, hc, h⟩

omit [S.Oblivious] in
theorem tells_printModule (hk : n.kind = .moduleName) :
    Tells S (printModule n) (Mute S.options n) := by
  unfold printModule
  refine .flag (.ite (fun _ => .textOf fun s hs => ?_) fun hoff _ _ _ _ _ => ?_)
  · exact Tells.write.mono fun hempty => .module hk fun _ => by rw [hs, hempty]
  · exact .module hk fun hon => absurd hon hoff

theorem tells_printAnonymousContext (hk : n.kind = .anonymousContext) :
    Tells S (printAnonymousContext n) (Mute S.options n) := by
  unfold printAnonymousContext
  refine .flag (.flag (.ite (fun _ => ?_) fun hoff _ _ _ _ _ => ?_))
  · cases n.child? 2 with
    | none => exact .rest fun _ => .first (.loud (by decide))
    | some arguments => exact .rest fun _ => .first (.loud (by decide))
  · exact .anonymousContext hk (by simpa using hoff)

theorem tells_printExtension (hS : S.Exposes) (hk : n.kind = .extension) :
    Tells S (printExtension n) (Mute S.options n) := by
  unfold printExtension
  refine .flag (.flag (.ite (fun _ => .first (.loud (by decide))) fun hoff => ?_))
  refine .first ((tells_printChild hS).mono ?_)
  rintro ⟨t, ht, hmute⟩
  exact .extension hk (by simpa using hoff) ht hmute

theorem tells_printLocalName (hS : S.Exposes) (hk : n.kind = .localDeclName) :
    Tells S (printLocalName n) (Mute S.options n) := by
  unfold printLocalName
  have hname := (tells_printChild (n := n) (i := 1) hS).first (f := fun _ => do
    if ← flag .localNameContexts then
      write " #"
      writeNumber (nextNumber (← indexOf (← child n 0))))
  -- with its context a local name always shows its number
  have hnumber : Tells S (printChild n 1 >>= fun _ => do
      if ← flag .localNameContexts then
        write " #"
        writeNumber (nextNumber (← indexOf (← child n 0))))
      (S.options.has .localNameContexts = false) :=
    .rest fun _ => .flag (.ite (fun _ => .first (.loud (by decide))) fun hoff _ _ _ _ _ => by
      simpa using hoff)
  refine (hname.and hnumber).mono ?_
  rintro ⟨⟨name, hname, hmute⟩, hoff⟩
  exact .localName hk hoff hname hmute

theorem tells_printPrivateName (hS : S.Exposes) (hk : n.kind = .privateDeclName) :
    Tells S (printPrivateName n) (Mute S.options n) := by
  unfold printPrivateName
  refine .flag (.child fun c _ => .textOf fun discriminator _ => ?_)
  cases hshows : S.options.has .privateDiscriminators with
  -- a discriminator is shown in parentheses, which are not empty
  | true =>
    cases n.child? 1 with
    | none => exact .loud fun h => by simp [String.append_eq_empty_iff] at h
    | some name => exact .first (.loud (by decide))
  | false =>
    cases hname : n.child? 1 with
    | none => exact fun _ _ _ _ _ => .privateName hk hshows (by simp [hname])
    | some name =>
      refine .first (p := print name) (f := fun _ => pure ()) ((tells_print hS).mono fun h => ?_)
      refine .privateName hk hshows fun x hx => ?_
      obtain rfl : name = x := by simpa [hname] using hx
      exact h

/-- Arguments are printed in angle brackets, so only what they are bound to can be mute. -/
theorem tells_printBoundGeneric (hk : Node.isBoundKind n.kind = true) :
    Tells S (printBoundGeneric n) (Mute S.options n) := by
  have hlong : Tells S (printBoundLong n) (Mute S.options n) := by
    unfold printBoundLong
    exact .rest fun _ => .first (.loud (by decide))
  have hsugar (c : Node) (s : Sugar) : Tells S (printSugar c s) (Mute S.options n) := by
    cases s with
    | optional => exact .rest fun _ => .rest fun _ => .loud (by decide)
    | implicitlyUnwrappedOptional => exact .rest fun _ => .rest fun _ => .loud (by decide)
    | array => exact .first (.loud (by decide))
    | dictionary => exact .first (.loud (by decide))
  unfold printBoundGeneric
  -- without children nothing is printed at all; every other form has a bracket
  refine .ite (fun hcount _ _ _ _ _ => .bound hk hcount) fun _ => .flag (.ite (fun _ => hlong)
    fun _ => .ite (fun _ => ?_) fun _ => ?_)
  · exact .rest fun _ => .rest fun _ => .first (.loud (by decide))
  · split
    · exact .rest fun c => hsugar c _
    · exact hlong

/-- The kinds of nodes that are printed in a style. -/
def isStyled : Kind → Bool
  | .explicitClosure | .implicitClosure | .defaultArgumentInitializer | .allocator | .constructor
  | .deallocator => true
  | k => (accessorName? k).isSome || (fixedStyle? k).isSome

/-- The contexts and names that are printed by a rule or template of their own. -/
theorem plain_cases {k : Kind} (hk : k.isDeclared = true) (hplain : isStyled k = false) :
    Node.isBoundKind k = true ∨ k ∈ [.moduleName, .anonymousContext, .extension, .identifier,
      .localDeclName, .privateDeclName] ∨ k ∈ [.infixOperator, .prefixOperator, .postfixOperator] ∨
    k ∈ [.staticMember, .opaqueReturnTypeOf, .typeSymbolicReference, .protocolSymbolicReference,
      .relatedEntityDeclName] := by
  have h := Kind.of_check (k := k) (p := fun k => k.isDeclared && !isStyled k)
    (q := fun k => Node.isBoundKind k || [.moduleName, .anonymousContext, .extension, .identifier,
      .localDeclName, .privateDeclName].contains k ||
      [.infixOperator, .prefixOperator, .postfixOperator].contains k || [.staticMember,
        .opaqueReturnTypeOf, .typeSymbolicReference, .protocolSymbolicReference,
        .relatedEntityDeclName].contains k) (by simp [hk, hplain]) (by decide +kernel)
  simpa only [Bool.or_eq_true, List.contains_iff_mem, or_assoc] using h

/-- Of the declarations without a style, those that are printed as nothing are mute. -/
theorem tells_printPlain (hS : S.Exposes) (hk : n.kind.isDeclared = true)
    (hplain : isStyled n.kind = false) : Tells S (printPlain n) (Mute S.options n) := by
  obtain ⟨k, payload, children, height⟩ := n
  dsimp only at hk hplain
  rcases plain_cases hk hplain with hbound | hk | hk | hk
  -- bound generics, then names and contexts, then numbered parts, then fixed words
  · have hrule (n : Node) (h : Node.isBoundKind n.kind = true) := tells_printBoundGeneric (S := S) h
    unfold Node.isBoundKind at hbound
    split at hbound
    case h_7 => cases hplain
    case h_8 => cases hbound
    all_goals exact hrule _ rfl
  · simp only [List.mem_cons, List.not_mem_nil, or_false] at hk
    rcases hk with rfl | rfl | rfl | rfl | rfl | rfl
    · exact tells_printModule rfl
    · exact tells_printAnonymousContext rfl
    · exact tells_printExtension hS rfl
    · exact .textOf fun s hs => Tells.write.mono fun h => .identifier rfl (by rw [hs, h])
    · exact tells_printLocalName hS rfl
    · exact tells_printPrivateName hS rfl
  · simp only [List.mem_cons, List.not_mem_nil, or_false] at hk
    rcases hk with rfl | rfl | rfl
    all_goals exact .textOf fun s _ => .rest fun _ => .loud (by decide)
  · simp only [List.mem_cons, List.not_mem_nil, or_false] at hk
    rcases hk with rfl | rfl | rfl | rfl | rfl
    · exact .first (.loud (by decide))
    · exact .first (.loud (by decide))
    · exact .rest fun _ => .loud fun h => by simp [String.append_eq_empty_iff] at h
    · exact .rest fun _ => .loud fun h => by simp [String.append_eq_empty_iff] at h
    · exact .first (.loud (by decide))

end Render

end SwiftMangling
