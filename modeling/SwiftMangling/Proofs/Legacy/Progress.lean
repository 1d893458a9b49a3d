import SwiftMangling.Proofs.Legacy.Local
import SwiftMangling.Proofs.Legacy.State
import SwiftMangling.Proofs.Loop

/-!
# The descent ends

The productions of the legacy scheme call each other, and the decoder allows as many of them inside
of each other as there are bytes left. Nothing is cut off by that. A production reads another one
only behind a byte that it has read itself, so the equations of the productions have one solution,
and that is what the decoder computes (`completes_unfold`).

The decoders between the productions do read them at once, so what they do has to be followed from
any place, also where nothing has been read yet. They end no earlier than they start, and most of
them have read something if they succeed (`Proper`). So the loops end, too: what is repeated reads a
byte each time, or fails. Levels of nesting are left again in any case, and no level is entered that
is not allowed.
-/

namespace SwiftMangling.Legacy

open Decoding

variable {α β : Type} {K N D j : Nat} {k : Kind} {d : Decoder α} {f : α → Decoder β} {s : State}

/-! ## The grammar of all productions -/

/-- The grammar in which as many productions can stand inside of each other as there are bytes
left. -/
def descent : Grammar :=
  ⟨fun p _ s => parse (s.left + 1) p () s⟩

/-- The decoder is at depth `D`, which is at most `K` or allowed. -/
def AtLevel (K D : Nat) (s : State) : Prop :=
  s.depth = D ∧ D ≤ max maxDepth K

instance : Levels (AtLevel K) where
  congr h hs := ⟨h.trans hs.1, hs.2⟩
  enter hs hdeep := ⟨congrArg (· + 1) hs.1, by have := hs.1; omega⟩
  leave hs := ⟨congrArg (· - 1) hs.1, by have := hs.2; omega⟩

theorem atLevel_self (s : State) : AtLevel s.depth s.depth s :=
  ⟨rfl, Nat.le_max_right _ _⟩

/-- Where less than `N` bytes are left and the depth is at most `K` or allowed, both grammars read
what `descent` reads. -/
def Grammar.Near (K N : Nat) (g g' : Grammar) : Prop :=
  ∀ p s, s.left < N → s.depth ≤ max maxDepth K →
    g.parse p () s = descent.parse p () s ∧ g'.parse p () s = descent.parse p () s

theorem near_descent : Grammar.Near K N descent descent :=
  fun _ _ _ _ => ⟨rfl, rfl⟩

/-- Two decodings that do not depend on what stands before the input do the same in any one state,
and read a beginning of what is left, whether they succeed or not. -/
theorem eq_of_paired {ρ : Type} {C : ρ → ρ → Prop} {I : State → Prop} {d e : Decoding ρ State α}
    {r r' : ρ} (h : Paired C I N 0 0 d e) (hr : C r r') (hN : s.left ≤ N) (hs : I s) :
    e r' s = d r s ∧ (∃ bytes, s.cursor.rest = bytes ++ (d r s).2.cursor.rest) ∧ I (d r s).2 := by
  have hbeside : Beside I s.cursor.before s.cursor.before s.cursor.rest [] s s :=
    ⟨hs, rfl, rfl, rfl⟩
  obtain ⟨hresult, l, -, hend⟩ := h.run hr hN (Nat.zero_le _) hbeside
  refine ⟨Prod.ext hresult ?_, ⟨l.reverse, hend.input.symm⟩, hend.keeps⟩
  rw [hend.same, ← hend.before]
  rfl

/-- As many productions inside of each other as there are bytes left are enough. -/
theorem near_parse (n : Nat) : Grammar.Near K n ⟨parse n⟩ descent := by
  intro p s hs _
  have hpaired := parse_paired (Nat.lt_succ_self s.left) hs p s.depth
  exact ⟨(eq_of_paired (r := ()) hpaired trivial (Nat.le_refl _) rfl).1, rfl⟩

/-- Where less is left than the grammars agree on, a call of either of them gives the same. -/
theorem recursion_near {M : Nat} (h : N < M + j) :
    Recursion (Grammar.Near K M) (AtLevel K) N j where
  descends p D := by
    refine ⟨fun {g g' b b' x l s s'} hg hx hl hs => ?_⟩
    have hlength : l.length + s.left = x.length := hs.length_add
    have hlt : s.left < M := by omega
    obtain ⟨hdepth, hle⟩ := hs.keeps
    have hs' : s' = HasCursor.withCursor s ⟨l ++ b', s.cursor.rest⟩ := hs.same
    -- both grammars agree with the parser here, whose fuel is what is left and one more
    have hparse : g.parse p () s = parse (s.left + 1) p () s := (hg p s hlt (hdepth ▸ hle)).1
    have hparse' : g'.parse p () s' = parse (s.left + 1) p () s' := by
      rw [(hg p s' (by rw [hs']; exact hlt) (by rw [hs']; exact hdepth ▸ hle)).2, hs']
      rfl
    have hhere : Beside (AtDepth D) (l ++ b) (l ++ b') s.cursor.rest [] s s' :=
      ⟨hdepth, hs.before, rfl, hs.same⟩
    have hcontexts : (fun _ _ => True : Unit → Unit → Prop) () () := trivial
    -- so it is enough that the parser gives the same on the longer input
    obtain ⟨hresult, l', -, hend⟩ :=
      (parse_paired (Nat.lt_succ_self s.left) (Nat.lt_succ_self s.left) p D).run hcontexts
        (Nat.le_refl _) (Nat.zero_le _) hhere
    show (g'.parse p () s').1 = (g.parse p () s).1 ∧
      ∃ l', _ ∧ Beside _ _ _ _ l' (g.parse p () s).2 (g'.parse p () s').2
    rw [hparse, hparse']
    exact ⟨hresult, l' ++ l, by simp,
      hs.behind ⟨⟨hend.keeps, hle⟩, hend.before, hend.input, hend.same⟩⟩

instance : Recursion (Grammar.Near K (N + 1)) (AtLevel K) N j :=
  recursion_near (by omega)

instance : Recursion (Grammar.Near K N) (AtLevel K) N (j + 1) :=
  recursion_near (by omega)

/-- A rule reads other productions behind at least one byte only, and no deeper than is allowed. -/
theorem rule_congr {g : Grammar} (p : Production) (hg : ∀ q t, t.left < s.left →
      t.depth ≤ max maxDepth s.depth → g.parse q () t = descent.parse q () t) :
    rule p g s = rule p descent s := by
  have hrule : Descends (Grammar.Near s.depth s.left) (AtLevel s.depth) s.left s.depth 0 (rule p) :=
    descends_rule p
  have hnear : Grammar.Near s.depth s.left g descent := fun q t ht hd => ⟨hg q t ht hd, rfl⟩
  exact (eq_of_paired hrule hnear (Nat.le_refl _) (atLevel_self s)).1.symm

theorem parse_descent (p : Production) (s : State) : descent.parse p () s = rule p descent s :=
  rule_congr p fun q t ht hd => (near_parse s.left q t ht hd).1

/-- The grammar whose productions are the rules, with the productions of `g` inside of them. -/
def Grammar.unfold (g : Grammar) : Grammar :=
  ⟨fun p _ s => rule p g s⟩

/-- The recursion through the productions ends: it has one solution. -/
theorem completes_unfold : Completes Grammar.unfold descent := by
  intro g
  constructor
  · intro hg
    have hstep (p : Production) (s : State) : g.parse p () s = rule p g s :=
      (congrArg (fun g' : Grammar => g'.parse p () s) hg).symm
    -- by induction on how much is left
    have hsame (n : Nat) : ∀ p s, s.left = n → g.parse p () s = descent.parse p () s := by
      induction n using Nat.strongRecOn with
      | ind n ih =>
        intro p s hs
        rw [hstep, parse_descent]
        exact rule_congr p fun q t ht _ => ih t.left (hs ▸ ht) q t rfl
    obtain ⟨parse⟩ := g
    exact congrArg Grammar.mk (funext fun p => funext fun _ => funext fun s => hsame s.left p s rfl)
  · rintro rfl
    exact congrArg Grammar.mk
      (funext fun p => funext fun _ => funext fun s => (parse_descent p s).symm)

/-! ## Whole symbols -/

instance {attributes : List (String × Kind)} {C : Grammar → Grammar → Prop}
    {I : Nat → State → Prop} [Levels I] : Descends C I N D j (symbolAttribute attributes) := by
  induction attributes with
  | nil => exact inferInstanceAs (Descends C I N D j (pure []))
  | cons a rest ih => exact inferInstanceAs (Descends C I N D j (_ >>= _))

instance {C : Grammar → Grammar → Prop} {I : Nat → State → Prop} [Levels I]
    [Recursion C I N (j + 1)] : Descends C I N D j symbol := by
  unfold symbol
  refine .bind inferInstance fun _ => .bind inferInstance fun _ => .bind inferInstance fun _ => ?_
  dsimp only
  refine .ite ?_ (.bind inferInstance fun front => .bind inferInstance fun body => inferInstance)
  exact .bind inferInstance fun _ => .bind inferInstance fun _ => .bind inferInstance fun _ =>
    .bind inferInstance fun _ => .bind inferInstance fun front =>
    .bind inferInstance fun body => inferInstance

/-! ## What a decoder does with the grammar -/

/-- The decoder with all productions at its disposal. -/
def descend (d : Decoder α) : Decoding Unit State α :=
  fun _ s => d descent s

/-- The decoder does not look behind itself, wherever it starts. -/
abbrev Steady (d : Decoder α) : Prop :=
  ∀ K N D, Descends (Grammar.Near K (N + 1)) (AtLevel K) N D 0 d

/-- Levels of nesting that were entered have been left again, whether the decoder succeeds or
not. -/
theorem depth_descend (hd : Steady d) (s : State) : (d descent s).2.depth = s.depth :=
  (eq_of_paired (hd s.depth s.left s.depth) near_descent (Nat.le_refl _) (atLevel_self s)).2.2.1

theorem exists_read (hd : Steady d) (s : State) :
    ∃ bytes, s.cursor.rest = bytes ++ (d descent s).2.cursor.rest :=
  (eq_of_paired (hd s.depth s.left s.depth) near_descent (Nat.le_refl _) (atLevel_self s)).2.1

instance [hd : Steady d] : Sinks State.left (descend d) where
  le _ s := by
    obtain ⟨bytes, hbytes⟩ := exists_read hd s
    rw [State.left, State.left, hbytes, List.length_append]
    exact Nat.le_add_left ..

/-- With as many productions inside of each other as there are bytes, a decoder does what it does
with all productions. -/
theorem run_eq_descend {d : Decoder Node} (hd : Steady d) (input : List UInt8) :
    run d input = (d descent (State.start input)).1 := by
  have hnear : Grammar.Near 0 (input.length + 1) ⟨parse (input.length + 1)⟩ descent := near_parse _
  exact congrArg Prod.fst
    (eq_of_paired (s := State.start input) (hd 0 input.length 0) hnear (Nat.le_refl _)
      (atLevel_self _)).1.symm

theorem sinks_bind [hd : Sinks State.left (descend d)]
    (hf : ∀ a, Sinks State.left (descend (f a))) : Sinks State.left (descend (d >>= f)) :=
  hd.bind hf

/-! ## Reading on -/

/-- The decoder does not step back behind its start, and moves past at least one byte if its result
satisfies `P`. -/
structure Consumes (P : α → Prop) (d : Decoder α) : Prop where
  sinks : Sinks State.left (descend d)
  lowers : Lowers State.left P (descend d)

theorem Advances.consumes {P : α → Prop} (h : Advances P d) : Consumes P d :=
  ⟨⟨fun _ s => h.le descent s⟩, fun _ s a ha hp => h.lt descent s a ha hp⟩

namespace Consumes

variable {P : α → Prop} {Q : β → Prop}

theorem first (hd : Consumes (fun _ => True) d) (hf : ∀ a, Sinks State.left (descend (f a))) :
    Consumes Q (d >>= f) :=
  ⟨hd.sinks.bind hf, hd.lowers.first hd.sinks hf⟩

theorem next [hd : Sinks State.left (descend d)] (hf : ∀ a, Consumes Q (f a)) :
    Consumes Q (d >>= f) :=
  ⟨hd.bind fun a => (hf a).sinks, .next hd fun a => (hf a).lowers⟩

theorem ite {b : Prop} [Decidable b] {e : Decoder α} (hd : Consumes P d) (he : Consumes P e) :
    Consumes P (if b then d else e) := by
  split
  · exact hd
  · exact he

/-- Only where nothing has been found does the rest have to read. -/
theorem test {t : Decoder Bool} {d e : Decoder β} (ht : Consumes (· = true) t)
    (hd : Sinks State.left (descend d)) (he : Consumes Q e) :
    Consumes Q (t >>= fun b => if b = true then d else e) := by
  have hf (b : Bool) : Sinks State.left (descend (if b = true then d else e)) := by
    cases b
    · exact he.sinks
    · exact hd
  refine ⟨ht.sinks.bind hf, ht.lowers.bind ht.sinks hf fun b hb => ?_⟩
  cases b
  · exact he.lowers
  · exact absurd rfl hb

theorem nested (hd : Consumes P d) : Consumes P (nested d) := by
  have hrun (r : Unit) (s : State) : descend (Legacy.nested d) r s =
      if maxDepth ≤ s.depth then (none, s)
      else ((descend d r { s with depth := s.depth + 1 }).1,
        { (descend d r { s with depth := s.depth + 1 }).2 with
          depth := (descend d r { s with depth := s.depth + 1 }).2.depth - 1 }) := rfl
  refine ⟨⟨fun r s => ?_⟩, fun r s a ha hp => ?_⟩
  · rw [hrun]
    split
    · exact Nat.le_refl _
    · exact hd.sinks.le r { s with depth := s.depth + 1 }
  · rw [hrun] at ha ⊢
    split at ha
    · cases ha
    -- inside of the limit the nested decoder runs one level further down
    next hdeep =>
      rw [if_neg hdeep]
      exact hd.lowers r { s with depth := s.depth + 1 } a ha hp

theorem production {p : Production} {P : Node → Prop} (h : Consumes P (rule p)) :
    Consumes P (production p) := by
  have hrun : descend (Legacy.production p) = descend (rule p) :=
    funext fun _ => funext fun s => parse_descent p s
  exact ⟨hrun ▸ h.sinks, hrun ▸ h.lowers⟩

end Consumes

theorem consumes_nextIf (c : Char) : Consumes (· = true) (nextIf c) :=
  (Advances.nextIf c).consumes

theorem consumes_nextChar : Consumes (fun _ => True) nextChar :=
  Advances.nextChar.consumes

theorem consumes_index : Consumes (fun _ => True) index :=
  Advances.index.consumes

theorem consumes_nextByte : Consumes (fun _ => True) nextByte :=
  Advances.nextByte.consumes

theorem consumes_contentRule : Consumes (fun _ => True) contentRule := by
  unfold contentRule
  refine consumes_nextChar.first fun c => ?_
  split <;> infer_instance

theorem consumes_type : Consumes (fun _ => True) type :=
  .production (p := .type) (consumes_contentRule.nested.first inferInstance)

theorem consumes_identifier : Consumes (fun _ => True) (identifier k) := by
  unfold identifier
  refine .next fun punycoded => .next fun operator => Advances.natural.consumes.first fun n => ?_
  refine sinks_bind fun s => ?_
  dsimp only
  split
  all_goals
    refine sinks_bind fun s => sinks_bind fun _ => ?_
    cases operator <;> infer_instance

theorem consumes_substitution : Consumes (fun _ => True) substitution := by
  unfold substitution
  refine .next fun m => .next fun c => ?_
  split
  · exact consumes_nextByte.first inferInstance
  · exact consumes_index.first inferInstance

theorem consumes_declName : Consumes (fun _ => True) declName :=
  (consumes_nextIf 'L').test inferInstance <| (consumes_nextIf 'P').test inferInstance <|
    consumes_identifier

theorem consumes_module : Consumes (fun _ => True) module :=
  (consumes_nextIf 's').test inferInstance <| (consumes_nextIf 'S').test inferInstance <|
    consumes_identifier.first inferInstance

theorem consumes_nominalType : Consumes (fun _ => True) nominalType := by
  unfold nominalType
  refine consumes_nextChar.first fun c => ?_
  split <;> infer_instance

theorem consumes_entity : Consumes (fun _ => True) entity := by
  unfold entity
  refine .next fun isStatic => .next fun m => .next fun first => ?_
  split
  · exact consumes_nominalType
  · exact consumes_nextByte.first inferInstance

theorem consumes_context : Consumes (fun _ => True) context := by
  refine .production (p := .context) ?_
  show Consumes _ (nested contextContent)
  refine .nested ?_
  unfold contextContent
  refine .next fun m => .next fun c => ?_
  split
  case h_6 => exact .ite consumes_entity consumes_module
  all_goals exact consumes_nextByte.first inferInstance

theorem consumes_archetypeRule : Consumes (fun _ => True) archetypeRule := by
  unfold archetypeRule
  refine consumes_nextChar.first fun c => ?_
  dsimp only
  split <;> infer_instance

theorem consumes_global : Consumes (fun _ => True) global := by
  unfold global
  exact (consumes_nextIf 'M').test inferInstance <|
    (Advances.nextIfText (by decide)).consumes.test inferInstance <|
    (consumes_nextIf 't').test inferInstance <| (consumes_nextIf 'w').test inferInstance <|
    (consumes_nextIf 'W').test inferInstance <| (consumes_nextIf 'T').test inferInstance <|
    consumes_entity

theorem consumes_production (p : Production) : Consumes (fun _ => True) (production p) := by
  cases p with
  | type => exact consumes_type
  | content => exact .production (p := .content) consumes_contentRule
  | context => exact consumes_context
  | archetype => exact .production (p := .archetype) consumes_archetypeRule
  | global => exact .production (p := .global) consumes_global.nested

theorem consumes_protocolNode : Consumes (fun _ => True) protocolNode := by
  unfold protocolNode
  refine (consumes_nextIf 'S').test ?_ <| (consumes_nextIf 's').test inferInstance <|
    consumes_context.first inferInstance
  refine sinks_bind fun n => ?_
  split <;> infer_instance

theorem consumes_genericParameterIndex : Consumes (fun _ => True) genericParameterIndex :=
  (consumes_nextIf 'd').test inferInstance <| (consumes_nextIf 'x').test inferInstance <|
    consumes_index.first inferInstance

theorem consumes_constrainedType : Consumes (fun _ => True) constrainedType :=
  have hsubject : Consumes (fun _ => True) constrainedSubject :=
    (consumes_nextIf 'w').test inferInstance <| (consumes_nextIf 'W').test inferInstance <|
      consumes_genericParameterIndex
  hsubject.first inferInstance

theorem consumes_associatedTypeReference : Consumes (fun _ => True) associatedTypeReference := by
  unfold associatedTypeReference
  refine (consumes_nextIf 'S').test inferInstance <| .next fun _ => ?_
  dsimp only
  refine .ite ?_ ?_
  all_goals exact .next fun _ => consumes_identifier.first inferInstance

theorem consumes_tupleElement : Consumes (fun _ => True) tupleElement := by
  unfold tupleElement
  refine .next fun m => .ite (.next fun _ => ?_) ?_
  all_goals exact .next fun _ => consumes_type.first inferInstance

theorem consumes_optionParam : Consumes (fun _ => True) optionParam :=
  .next fun _ => (Advances.expect '_').consumes.first inferInstance

theorem consumes_paramChange : Consumes (fun _ => True) paramChange := by
  have htext (s : String) (hs : Utf8.encode s ≠ [] := by decide) :
      Consumes (· = true) (nextIfText s) := (Advances.nextIfText hs).consumes
  unfold paramChange
  exact (htext "n_").test inferInstance <| (htext "cp").test inferInstance <|
    (htext "cl").test inferInstance <| (htext "i_").test inferInstance <|
    (htext "k_").test inferInstance <| (htext "r_").test inferInstance consumes_optionParam

theorem consumes_convention (r : Role) : Consumes (fun _ => True) (convention r) :=
  consumes_nextChar.first inferInstance

theorem consumes_specialization : Consumes (fun _ => True) specialization := by
  unfold specialization
  refine consumes_nextChar.first fun c => ?_
  dsimp only
  split <;> infer_instance

/-- The productions that cannot be empty. -/
inductive Proper : Decoder Node → Prop where
  | production (p : Production) : Proper (production p)
  | identifier (k : Kind) : Proper (identifier k)
  | declName : Proper declName
  | substitution : Proper substitution
  | module : Proper module
  | declaration (k : Kind) : Proper (declaration k)
  | nominalType : Proper nominalType
  | entity : Proper entity
  | protocolNode : Proper protocolNode
  | protocol : Proper protocol
  | conformance : Proper conformance
  | genericRequirement : Proper genericRequirement
  | constrainedType : Proper constrainedType
  | genericParameterIndex : Proper genericParameterIndex
  | associatedTypeReference : Proper associatedTypeReference
  | genericArgument : Proper genericArgument
  | tupleElement : Proper tupleElement
  | boxField : Proper boxField
  | loweredParameter : Proper loweredParameter
  | loweredResult : Proper loweredResult
  | genericParam : Proper genericParam
  | signatureParam : Proper signatureParam
  | specialization : Proper specialization

/-- A production that is proper reads something wherever it gives a result. -/
theorem Proper.consumes {d : Decoder Node} (h : Proper d) : Consumes (fun _ => True) d := by
  cases h with
  | production p => exact consumes_production p
  | identifier k => exact consumes_identifier
  | declName => exact consumes_declName
  | substitution => exact consumes_substitution
  | module => exact consumes_module
  | declaration k => exact consumes_context.first inferInstance
  | nominalType => exact consumes_nominalType
  | entity => exact consumes_entity
  | protocolNode => exact consumes_protocolNode
  | protocol => exact consumes_protocolNode.first inferInstance
  | conformance => exact consumes_type.first inferInstance
  -- the type in front reads a byte already, whatever follows
  | genericRequirement =>
    refine consumes_constrainedType.first fun _ => sinks_bind fun _ => ?_
    split <;> infer_instance
  | constrainedType => exact consumes_constrainedType
  | genericParameterIndex => exact consumes_genericParameterIndex
  | associatedTypeReference => exact consumes_associatedTypeReference
  | genericArgument => exact consumes_type.first inferInstance
  | tupleElement => exact consumes_tupleElement
  | boxField =>
    refine consumes_nextChar.first fun c => ?_
    split <;> infer_instance
  | loweredParameter =>
    refine .next fun _ => .ite (.next fun _ => ?_) ?_
    all_goals exact (consumes_convention _).first inferInstance
  | loweredResult => exact .next fun _ => (consumes_convention _).first inferInstance
  | genericParam => exact consumes_type.first inferInstance
  | signatureParam => exact consumes_paramChange.first inferInstance
  | specialization => exact consumes_specialization

/-- The decoders of the grammar: the productions, and the decoders that they are made of. -/
inductive Nonterminal : {α : Type} → Decoder α → Prop where
  | proper {d : Decoder Node} : Proper d → Nonterminal d
  | number : Nonterminal numberNode
  | aroundType (k : Kind) : Nonterminal (aroundType k)
  | protocolIn (c : Node) : Nonterminal (protocolIn c)
  | protocolList : Nonterminal protocolList
  | aroundConformance (k : Kind) : Nonterminal (aroundConformance k)
  | memberOf (base : Node) : Nonterminal (memberOf base)
  | associatedType : Nonterminal associatedType
  | associatedTypeChain (base : Node) : Nonterminal (associatedTypeChain base)
  | associatedTypePath : Nonterminal associatedTypePath
  | dependentType : Nonterminal dependentType
  | constrainedSubject : Nonterminal constrainedSubject
  | conformanceConstraint : Nonterminal conformanceConstraint
  | parameterCounts (n : Nat) : Nonterminal (parameterCounts n)
  | signatureOf (k : Kind) : Nonterminal (signatureOf k)
  | bindOne (n : Node) : Nonterminal (bindOne n)
  | bindArguments (n : Node) : Nonterminal (bindArguments n)
  | boundGenericType : Nonterminal boundGenericType
  | convention (r : Role) : Nonterminal (convention r)
  | loweredSignature : Nonterminal loweredSignature
  | loweredFunctionType : Nonterminal loweredFunctionType
  | builtinType : Nonterminal builtinType
  | tuple (isVariadic : Bool) : Nonterminal (tuple isVariadic)
  | functionType (k : Kind) : Nonterminal (functionType k)
  | representedMetatype (k : Kind) : Nonterminal (representedMetatype k)
  | boxType : Nonterminal boxType
  | specialType : Nonterminal specialType
  | form (basic : Kind) : Nonterminal (form basic)
  | storage (c name : Node) : Nonterminal (storage c name)
  | formNode (c : Node) (f : Form) : Nonterminal (formNode c f)
  | contextContent : Nonterminal contextContent
  | propagatedConstant : Nonterminal propagatedConstant
  | closureTypes (n : Nat) : Nonterminal (closureTypes n)
  | propagatedClosure : Nonterminal propagatedClosure
  | paramChange : Nonterminal paramChange
  | specializations (n : Nat) : Nonterminal (specializations n)
  | metadata : Nonterminal metadata
  | fieldOffset : Nonterminal fieldOffset
  | lazyWitnessTable (k : Kind) : Nonterminal (lazyWitnessTable k)
  | witness : Nonterminal witness
  | valueWitness : Nonterminal valueWitness
  | reabstraction (k : Kind) : Nonterminal (reabstraction k)
  | thunk : Nonterminal thunk
  | forwarder : Nonterminal forwarder
  | rule (p : Production) : Nonterminal (rule p)
  | global : Nonterminal global
  | symbol : Nonterminal symbol

theorem Proper.steady {d : Decoder Node} (h : Proper d) : Steady d := by
  cases h <;> infer_instance

theorem Nonterminal.steady (h : Nonterminal d) : Steady d := by
  cases h with
  | proper h => exact h.steady
  | bindArguments n => exact fun _ _ _ => descends_bindArguments n
  | rule p => exact fun _ _ _ => descends_rule p
  | _ => infer_instance

/-! ## Loops -/

@[simp] theorem descend_bind : descend (d >>= f) = descend d >>= fun a => descend (f a) :=
  rfl

@[simp] theorem descend_pure (a : α) : descend (pure a) = pure a :=
  rfl

@[simp] theorem descend_attempt : descend (attempt d) = attempt (descend d) :=
  rfl

@[simp] theorem descend_ite {b : Prop} [Decidable b] {e : Decoder α} :
    descend (if b then d else e) = if b then descend d else descend e := by
  split <;> rfl

/-- A round of the loop reads a byte before the next one starts, and the loop does what `d` does. -/
structure Ends (body : Decoding Unit State α → Decoding Unit State α) (d : Decoding Unit State α) :
    Prop where
  contracts : Contracts State.left fun go (_ : Unit) => body (go ())
  completes : Completes body d

/-- Loops whose rounds read something have enough rounds with one for each byte. -/
theorem ends_of_contracts {body : Decoding Unit State α → Decoding Unit State α}
    {f : Nat → Decoding Unit State α}
    (h : Contracts State.left fun go (_ : Unit) => body (go ()))
    (hstep : ∀ n, f (n + 1) = body (f n)) : Ends body fun r s => f (s.left + 1) r s :=
  ⟨h, .ofUnit (h.completes_succ (f := fun n _ => f n) fun n => funext fun _ => hstep n)⟩

/-- A list of what cannot be empty ends. -/
theorem ends_manyUntil (c : Char) (hd : Consumes (fun _ => True) d) :
    Ends (untilBody c (descend d)) (descend (manyUntil c d)) := by
  refine ends_of_contracts (f := fun n => descend (manyUntilFrom n c d))
    (contracts_untilBody (consumes_nextIf c).sinks hd.sinks hd.lowers) fun n => ?_
  rw [manyUntilFrom]
  simp only [descend_bind, descend_ite, descend_pure]
  rfl

/-- Reads the number of parameters at one depth. -/
def parameterCount : Decoder Nat := do
  if ← nextIf 'z' then return 0 else successor (← index)

/-- One number of parameters, and those behind it. -/
def parameterCountsBody (go : Decoding Unit State (List Node)) :
    Decoding Unit State (List Node) := do
  let c ← descend (do ofOption (← peekChar?))
  if c == 'R' || c == 'r' then return []
  let count ← descend parameterCount
  return .ofIndex .dependentGenericParamCount (UInt64.ofNat count) :: (← go)

theorem consumes_parameterCount : Consumes (fun _ => True) parameterCount :=
  (consumes_nextIf 'z').test inferInstance (consumes_index.first inferInstance)

theorem ends_parameterCounts :
    Ends parameterCountsBody (descend do parameterCounts ((← remaining) + 1)) := by
  -- each count is read before the next one, and reads a byte
  have hcontracts : Contracts State.left fun go (_ : Unit) => parameterCountsBody (go ()) := by
    intro m d e hde _
    refine .bind inferInstance fun c => .ite (.refl _) ?_
    refine .after consumes_parameterCount.sinks consumes_parameterCount.lowers
      (fun _ _ => (hde ()).map) fun _ hno => absurd trivial hno
  refine ends_of_contracts (f := fun n => descend (parameterCounts n)) hcontracts fun n => ?_
  simp only [parameterCounts, parameterCountsBody, parameterCount, descend_bind, descend_ite,
    descend_pure, bind_assoc]
  refine bind_congr fun m => bind_congr fun c => ?_
  split
  · rfl
  · refine bind_congr fun zero => ?_
    cases zero <;> simp

/-- One type of a closure's argument, and those behind it. -/
def closureTypesBody (go : Decoding Unit State (List Node)) : Decoding Unit State (List Node) := do
  if (← descend peekChar?) == some '_' then return []
  match ← attempt (descend type) with
  | none => return []
  | some t => return t :: (← go)

/-- The list of types stops where a type fails. -/
theorem ends_closureTypes :
    Ends closureTypesBody (descend do closureTypes ((← remaining) + 1)) := by
  -- a type that is found has read a byte, and one that fails ends the loop
  have htype : Lowers State.left (· ≠ none) (attempt (descend type)) := by
    intro r s a ha hne
    obtain ⟨n, hn⟩ := Option.ne_none_iff_exists'.mp hne
    exact consumes_type.lowers r s n ((Option.some.inj ha).trans hn) trivial
  have hcontracts : Contracts State.left fun go (_ : Unit) => closureTypesBody (go ()) := by
    intro m d e hde _
    refine .bind inferInstance fun c => .ite (.refl _) ?_
    refine .after inferInstance htype (fun a _ => ?_) fun a ha => ?_
    · cases a with
      | none => exact .refl _
      | some t => exact (hde ()).map
    · obtain rfl := Classical.not_not.mp ha
      exact .refl _
  refine ends_of_contracts (f := fun n => descend (closureTypes n)) hcontracts fun n => ?_
  simp only [closureTypes, closureTypesBody, descend_bind, descend_ite, descend_pure,
    descend_attempt]
  refine bind_congr fun c => ?_
  split
  · rfl
  · refine bind_congr fun t => ?_
    cases t <;> rfl

/-- One header of a specialized symbol, and those behind it. -/
def specializationsBody (go : Decoding Unit State (List Node)) :
    Decoding Unit State (List Node) := do
  let s ← descend specialization
  descend clearSubstitutions
  if ← descend (nextIfText "_TTS") then return s :: (← go)
  return [s]

theorem ends_specializations :
    Ends specializationsBody (descend do specializations ((← remaining) + 1)) := by
  have hcontracts : Contracts State.left fun go (_ : Unit) => specializationsBody (go ()) := by
    intro m d e hde _
    refine .after consumes_specialization.sinks consumes_specialization.lowers (fun s _ => ?_)
      fun _ hno => absurd trivial hno
    exact .bind inferInstance fun _ => .bind inferInstance fun _ => .ite (hde ()).map (.refl _)
  refine ends_of_contracts (f := fun n => descend (specializations n)) hcontracts fun n => ?_
  simp only [specializations, specializationsBody, descend_bind, descend_ite, descend_pure]

/-- What is read up to a `_` is read byte by byte. -/
theorem manyUntilFrom_nextByte {n : Nat} {g : Grammar} (hn : s.left < n) :
    manyUntilFrom n '_' nextByte g s = (do
      let run ← takeBytesWhile (· != '_'.toUInt8)
      expect '_'
      return run : Decoder (List UInt8)) g s := by
  obtain ⟨⟨before, rest⟩, table, depth⟩ := s
  -- by induction on what is left; the loop and the run both stop at the first `_`
  induction rest generalizing before n with
  | nil =>
    obtain ⟨n, rfl⟩ : ∃ m, n = m + 1 := ⟨n - 1, by omega⟩
    rfl
  | cons b rest ih =>
    obtain ⟨n, rfl⟩ : ∃ m, n = m + 1 := ⟨n - 1, by omega⟩
    by_cases hb : b = '_'.toUInt8
    · subst hb
      rfl
    · let here : State := ⟨⟨before, b :: rest⟩, table, depth⟩
      let behind : State := ⟨⟨b :: before, rest⟩, table, depth⟩
      let stop : State := ⟨(⟨b :: before, rest⟩ : Cursor).skip
        (rest.takeWhile (· != '_'.toUInt8)).length, table, depth⟩
      -- the byte is no `_`, so the loop reads it and the run is one longer
      have hnext : (nextIf '_' : Decoder Bool) g here = (some false, here) := by
        simp [nextIf, run_move, Cursor.nextIf, Cursor.nextWhere, here, HasCursor.cursor,
          HasCursor.withCursor, hb]
      have hbyte : (nextByte : Decoder UInt8) g here = (some b, behind) := rfl
      have hrun : (takeBytesWhile (· != '_'.toUInt8) : Decoder (List UInt8)) g here =
          (some (b :: rest.takeWhile (· != '_'.toUInt8)), stop) := by
        simp [takeBytesWhile, run_move, here, stop, HasCursor.cursor, HasCursor.withCursor, hb,
          Cursor.skip]
      have hrun' : (takeBytesWhile (· != '_'.toUInt8) : Decoder (List UInt8)) g behind =
          (some (rest.takeWhile (· != '_'.toUInt8)), stop) := rfl
      have hrest := ih (n := n) (b :: before) (Nat.lt_of_succ_lt_succ hn)
      rw [manyUntilFrom, run_bind_of_eq hnext, run_bind_of_eq hrun]
      refine (run_bind_of_eq hbyte).trans ?_
      rw [run_bind, hrest, run_bind_of_eq hrun', run_bind, run_bind]
      rcases (expect '_' : Decoder Unit) g stop with ⟨_ | _, u⟩ <;> rfl

theorem terminatedText_eq : terminatedText = (do
    ofOption (Utf8.decode? (← manyUntil '_' nextByte))) := by
  have hloop : (manyUntil '_' nextByte : Decoder (List UInt8)) = (do
      let run ← takeBytesWhile (· != '_'.toUInt8)
      expect '_'
      return run) :=
    funext fun g => funext fun s => manyUntilFrom_nextByte (Nat.lt_succ_self s.left)
  rw [hloop]
  simp [terminatedText]

/-! ## Generic arguments -/

/-- The arguments of a nominal type, behind those of the types around it. -/
def bindBody (go : Node → Decoder Node) (n : Node) : Decoder Node :=
  match n.children with
  | [] => failure
  | parent :: parts =>
    if isUnboundContext parent.kind then bindOne n
    else do
      let bound ← go parent
      let name ← ofOption parts.head?
      bindOne (.branch n.kind [bound, name])

/-- The arguments of the types around a type are those of a smaller node. -/
theorem bindBody_congr {go go' : Node → Decoder Node} {n : Node}
    (h : ∀ m, sizeOf m < sizeOf n → go m = go' m) : bindBody go n = bindBody go' n := by
  unfold bindBody
  split
  · rfl
  next parent parts hchildren =>
    have hparent : parent ∈ n.children := by simp [hchildren]
    rw [h parent (Node.sizeOf_lt_of_mem_children hparent)]

theorem bindArguments_eq (n : Node) : bindArguments n = bindBody bindArguments n := by
  obtain ⟨kind, payload, children, height⟩ := n
  cases children <;> (rw [bindArguments]; rfl)

/-- Binding ends because a declaration has only so many contexts. -/
theorem completes_bindArguments : Completes bindBody bindArguments := by
  intro go
  constructor
  · intro hgo
    have hsame (m : Nat) : ∀ n, sizeOf n = m → go n = bindArguments n := by
      induction m using Nat.strongRecOn with
      | ind m ih =>
        rintro n rfl
        rw [← hgo, bindArguments_eq]
        exact bindBody_congr fun k hk => ih (sizeOf k) hk k rfl
    exact funext fun n => hsame (sizeOf n) n rfl
  · rintro rfl
    exact funext fun n => (bindArguments_eq n).symm

/-! ## All of the descent -/

/-- From a depth that is allowed, the decoder reads recursive productions only where less than
`n s` bytes are left, and at depths that are allowed. -/
def RecursesBelow (n : State → Nat) (d : Decoder α) : Prop :=
  ∀ g s, s.depth ≤ maxDepth →
    (∀ p t, t.left < n s → t.depth ≤ maxDepth → g.parse p () t = descent.parse p () t) →
      d g s = d descent s

theorem recursesBelow_rule (p : Production) : RecursesBelow State.left (rule p) := by
  intro g s hs hg
  exact rule_congr p fun q t ht hd => hg q t ht (by omega)

/-- A steady decoding calls the productions only where less is left. -/
theorem recursesBelow_of_steady (hd : Steady d) : RecursesBelow (·.left + 1) d := by
  intro g s hs hg
  have hnear : Grammar.Near s.depth (s.left + 1) g descent :=
    fun p t ht hdepth => ⟨hg p t ht (by omega), rfl⟩
  exact (eq_of_paired (hd s.depth s.left s.depth) hnear (Nat.le_refl _) (atLevel_self s)).1.symm

/-- What is nested is read at depths that are allowed. -/
theorem nested_congr {x y : Decoder α} {g : Grammar} (h : ∀ t, t.depth ≤ maxDepth → x g t = y g t)
    (s : State) : nested x g s = nested y g s := by
  unfold nested
  split
  · rfl
  next hdeep => rw [h _ (show s.depth + 1 ≤ maxDepth by omega)]

/-- Every loop of the decoder ends, and the production that runs it gives it enough rounds. The
recursion through the types around a generic type goes to smaller nodes. -/
structure LoopsEnd : Prop where
  lists (c : Char) (d : Decoder Node) : Proper d →
    Ends (untilBody c (descend d)) (descend (manyUntil c d))
  texts : Ends (untilBody '_' (descend nextByte)) (descend (manyUntil '_' nextByte)) ∧
    terminatedText = do ofOption (Utf8.decode? (← manyUntil '_' nextByte))
  parameterCounts : Ends parameterCountsBody (descend do parameterCounts ((← remaining) + 1))
  closureTypes : Ends closureTypesBody (descend do closureTypes ((← remaining) + 1))
  specializations : Ends specializationsBody (descend do specializations ((← remaining) + 1))
  arguments : Completes bindBody bindArguments ∧
    ∀ go go' n, (∀ m, sizeOf m < sizeOf n → go m = go' m) → bindBody go n = bindBody go' n

theorem loopsEnd : LoopsEnd where
  lists c _ h := ends_manyUntil c h.consumes
  texts := ⟨ends_manyUntil '_' consumes_nextByte, terminatedText_eq⟩
  parameterCounts := ends_parameterCounts
  closureTypes := ends_closureTypes
  specializations := ends_specializations
  arguments := ⟨completes_bindArguments, fun _ _ _ => bindBody_congr⟩

/-- The descent ends on every input: the equations of the recursive productions have one solution,
and symbols and types are decoded by it. A recursive production reads another one behind at least
one byte only, and a decoder of the grammar reads one no earlier than it starts; a production that
cannot be empty has read a byte if it succeeds. Every decoder leaves the depth as it found it,
whether it succeeds or not, and neither recursion nor nesting goes deeper than is allowed. Every
loop ends. -/
theorem descent_ends :
    Completes Grammar.unfold descent ∧
    (∀ input, decodeSymbol input = (symbol descent (State.start input)).1 ∧
      decodeType input = (type descent (State.start input)).1) ∧
    (∀ p, RecursesBelow State.left (rule p)) ∧
    (∀ d, Proper d → ∀ s n, (d descent s).1 = some n → (d descent s).2.left < s.left) ∧
    (∀ α (d : Decoder α), Nonterminal d →
      RecursesBelow (·.left + 1) d ∧ ∀ s, (d descent s).2.depth = s.depth) ∧
    (∀ (x y : Decoder Node) g, (∀ t, t.depth ≤ maxDepth → x g t = y g t) →
      nested x g = nested y g) ∧
    LoopsEnd := by
  refine ⟨completes_unfold, fun input => ⟨run_eq_descend inferInstance input,
    run_eq_descend inferInstance input⟩, recursesBelow_rule, fun d hd s n hn => ?_,
    fun _ d hd => ⟨recursesBelow_of_steady hd.steady, depth_descend hd.steady⟩,
    fun x y g h => funext (nested_congr h), loopsEnd⟩
  exact hd.consumes.lowers () s n hn trivial

end SwiftMangling.Legacy
