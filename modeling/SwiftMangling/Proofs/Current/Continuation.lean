import SwiftMangling.Proofs.Current.Run
import SwiftMangling.Proofs.Current.Stable

/-!
# Symbols with an ending

A symbol of the current scheme with an ending behind it is decoded like the symbol alone, up to the
state in which the symbol ends; from there on the loop reads the ending (`operatorsFrom_continued`).
What the ending does to the tree then follows from the stack: an attribute stands in front of the
parts or encloses them (`root?_attribute`), and a suffix is one more part (`root?_suffix`). Only a
suffix takes what follows it, so the symbol must not have one of its own.
-/

namespace SwiftMangling.Current

open Decoding Node

variable {x : List UInt8} [Ending x] {r r' : Config} {s t u : State} {n : Nat} {node : Node}

/-! ## One operator -/

/-- A suffix takes everything that is left. -/
theorem rest_of_suffix (h : suffix r s = (some node, t)) :
    node.kind = .suffix ∧ t.cursor.rest = [] := by
  have hrun : suffix r s = (some (ofText .suffix (Utf8.lossy s.cursor.pushBack.2.rest)),
      { s with cursor := s.cursor.pushBack.2.skip s.cursor.pushBack.2.rest.length }) := rfl
  obtain ⟨hnode, rfl⟩ := Prod.mk.inj (hrun.symm.trans h)
  obtain rfl := Option.some.inj hnode
  refine ⟨rfl, ?_⟩
  show (s.cursor.pushBack.2.skip _).rest = []
  rw [Cursor.rest_skip, List.drop_length]

instance : Stays x skipPadding :=
  .bind (stays_takeWhile (by decide) (by decide)) inferInstance

/-- An operator finds the same with an ending behind the input, unless it is a suffix. -/
theorem operator_continued (hr : r.Agrees r') (h : operator r s = (some node, t)) :
    (node.kind = .suffix ∧ t.cursor.rest = []) ∨
      operator r' (extend s x) = (some node, extend t x) := by
  have hpadding : Stays x skipPadding := inferInstance
  have hbyte : Stays x nextByte := inferInstance
  rw [operator, run_bind] at h ⊢
  -- padding and the first byte are read in both runs
  have hskip := fun a v => hpadding.run r r' s a v hr
  revert h hskip
  rcases skipPadding r s with ⟨_ | a, v⟩
  · intro h; cases h
  intro h hskip
  rw [hskip a v rfl]
  dsimp only at h ⊢
  rw [run_bind] at h ⊢
  have hnext := fun b w => hbyte.run r r' v b w hr
  revert h hnext
  rcases nextByte r v with ⟨_ | b, w⟩
  · intro h; cases h
  intro h hnext
  rw [hnext b w rfl]
  dsimp only at h ⊢
  split at h
  next hcontrol =>
    rw [if_pos hcontrol]
    exact .inr (Continued.run (e := symbolicReference b) r r' w node t hr h)
  next hcontrol =>
    rw [if_neg hcontrol]
    -- the first byte selects the operator, and only the suffix looks at what follows
    by_cases hdot : charOfByte b = '.'
    · rw [hdot] at h
      exact .inl (rest_of_suffix h)
    · exact .inr ((operatorOf_stays hdot).run r r' w node t hr h)

/-! ## The loop over operators -/

/-- What a step of the loop does. -/
theorem operatorsFrom_cases (h : operatorsFrom (n + 1) r s = (some (), t)) :
    (s.cursor.rest = [] ∧ s = t) ∨
      ∃ node u, s.cursor.rest ≠ [] ∧ operator r s = (some node, u) ∧ node.height ≤ maxHeight ∧
        operatorsFrom n r { u with stack := node :: u.stack } = (some (), t) := by
  by_cases hrest : s.cursor.rest = []
  · rw [operatorsFrom_of_atEnd hrest] at h
    exact .inl ⟨hrest, congrArg Prod.snd h⟩
  refine .inr ?_
  -- something is left to read, so the loop takes an operator
  have hend : (atEnd : Decoder Bool) r s = (some false, s) := by
    show (some s.cursor.isAtEnd, s) = _
    simp [Cursor.isAtEnd, hrest]
  rw [operatorsFrom, run_bind, hend] at h
  dsimp only at h
  rw [if_neg (by decide), run_bind] at h
  revert h
  rcases operator r s with ⟨_ | node, u⟩
  · intro h; cases h
  intro h
  dsimp only at h
  rw [require] at h
  split at h
  next hle => exact ⟨node, u, hrest, rfl, by simpa using hle, h⟩
  next => cases h

/-- The loop comes to where it ends without the ending, and goes on there. -/
theorem operatorsFrom_continued (hr : r.Agrees r') (h : operatorsFrom n r s = (some (), t))
    (htop : ∀ node ∈ t.stack.head?, node.kind ≠ .suffix) :
    t.cursor.rest = [] ∧
      ∃ j < n, ∀ m, operatorsFrom (m + j) r' (extend s x) = operatorsFrom m r' (extend t x) := by
  -- by induction on the fuel of the shorter run, of which the longer one needs as much in addition
  induction n generalizing s with
  | zero => cases h
  | succ n ih =>
    rcases operatorsFrom_cases h with ⟨hrest, rfl⟩ | ⟨node, u, hrest, hrun, hle, hnext⟩
    · exact ⟨hrest, 0, Nat.succ_pos n, fun _ => rfl⟩
    rcases operator_continued (x := x) hr hrun with ⟨hkind, hend⟩ | hrun'
    · -- after a suffix the loop ends, with the suffix on top of the stack
      exfalso
      cases n with
      | zero => cases hnext
      | succ n =>
        rw [operatorsFrom_of_atEnd (s := { u with stack := node :: u.stack }) hend] at hnext
        obtain rfl := congrArg Prod.snd hnext
        exact htop node rfl hkind
    · obtain ⟨hend, j, hj, hcontinued⟩ := ih hnext
      obtain ⟨b, rest, hb⟩ := List.exists_cons_of_ne_nil hrest
      have hread : (extend s x).cursor.rest = b :: (rest ++ x) := by
        show s.cursor.rest ++ x = _
        rw [hb, List.cons_append]
      refine ⟨hend, j + 1, by omega, fun m => ?_⟩
      rw [← Nat.add_assoc, operatorsFrom_of_operator hread hrun' hle]
      exact hcontinued m

/-! ## Roots -/

section Root

variable {root : Node} {stack : List Node}

/-- A suffix on top of the stack is a part of the root. -/
theorem exists_suffix_of_root? (hroot : root? (node :: stack) = some root)
    (hkind : node.kind = .suffix) : ∃ c ∈ root.children, c.kind = .suffix := by
  have hattribute : node.kind.isFunctionAttribute = false := by rw [hkind]; rfl
  have hpart : part? node = some node := by simp [part?, hkind]
  obtain ⟨parts, hparts, -, rfl⟩ := root?_eq_some_iff.mp hroot
  rw [belowAttributes_cons_of_not hattribute, List.reverse_cons] at hparts
  obtain ⟨front, -, rfl⟩ : ∃ front, stack.reverse.mapM part? = some front ∧
      front ++ [node] = parts := by
    simpa [List.mapM_append, hpart, Option.bind_eq_some_iff] using hparts
  rw [topAttributes_cons_of_not hattribute]
  exact ⟨node, by simp [enclosed, branch], hkind⟩

/-- An attribute on top of the stack comes first in the root. -/
theorem first?_of_root? (hroot : root? (node :: stack) = some root)
    (hnode : node.kind.isFunctionAttribute = true) :
    ∃ c ∈ root.first?, c.kind.isFunctionAttribute = true := by
  obtain ⟨parts, -, -, rfl⟩ := root?_eq_some_iff.mp hroot
  rw [topAttributes_cons hnode, enclosed]
  split
  next => exact ⟨_, rfl, by rwa [kind_enclose]⟩
  next => exact ⟨node, rfl, hnode⟩

/-- An attribute on top of the stack stands in front of what the root holds, or encloses it. -/
theorem root?_attribute {k : Kind} (hk : k.isFunctionAttribute = true)
    (hroot : root? stack = some root) :
    root? (leaf k :: stack) = some (branch .global
      (if isForwarder k then [branch k root.children] else leaf k :: root.children)) := by
  obtain ⟨parts, hparts, -, rfl⟩ := root?_eq_some_iff.mp hroot
  -- a forwarder encloses what the other attributes and the parts come to
  have henclosed : enclosed parts (topAttributes (leaf k :: stack)) =
      if isForwarder k then [branch k (enclosed parts (topAttributes stack))]
      else leaf k :: enclosed parts (topAttributes stack) := by
    rw [topAttributes_cons hk, enclosed, enclose_leaf]
    rfl
  refine root?_eq_some_iff.mpr ⟨parts, ?_, ?_, ?_⟩
  · rwa [belowAttributes_cons hk]
  · rw [henclosed]
    split <;> simp
  · rw [henclosed]
    rfl

/-- A suffix on top of the stack is one more part, if there is no attribute right below it. -/
theorem root?_suffix {text : String} (hroot : root? stack = some root)
    (hattribute : ∀ c ∈ root.first?, c.kind.isFunctionAttribute = false) :
    root? (ofText .suffix text :: stack) =
      some (branch .global (root.children ++ [ofText .suffix text])) := by
  -- an attribute on top of the stack would come first in the root
  have hnone : topAttributes stack = [] ∧ belowAttributes stack = stack := by
    cases stack with
    | nil => exact ⟨rfl, rfl⟩
    | cons node stack =>
      cases hnode : node.kind.isFunctionAttribute with
      | false => exact ⟨topAttributes_cons_of_not hnode, belowAttributes_cons_of_not hnode⟩
      | true =>
        obtain ⟨c, hc, hck⟩ := first?_of_root? hroot hnode
        exact absurd ((hattribute c hc).symm.trans hck) (by decide)
  obtain ⟨parts, hparts, -, rfl⟩ := root?_eq_some_iff.mp hroot
  rw [hnone.2] at hparts
  rw [hnone.1]
  have hsuffix : (ofText .suffix text).kind.isFunctionAttribute = false := rfl
  have hpart : part? (ofText .suffix text) = some (ofText .suffix text) := rfl
  refine root?_eq_some_iff.mpr ⟨parts ++ [ofText .suffix text], ?_, ?_, ?_⟩
  · rw [belowAttributes_cons_of_not hsuffix, List.reverse_cons]
    simp [List.mapM_append, hparts, hpart]
  · rw [topAttributes_cons_of_not hsuffix]
    simp [enclosed]
  · rw [topAttributes_cons_of_not hsuffix]
    rfl

end Root

/-! ## Symbols -/

/-- What is added stands behind the prefix as well. -/
theorem afterPrefix_extend {input : List UInt8} (h : Scheme.prefixLength input ≠ 0)
    (x : List UInt8) : State.afterPrefix (input ++ x) = extend (State.afterPrefix input) x := by
  obtain ⟨p, hp, rest, rfl⟩ := Scheme.exists_currentPrefix h
  rw [List.append_assoc, afterPrefix_append hp, afterPrefix_append hp]
  rfl

/-- The loop over a symbol with an ending goes on where the symbol ends. -/
theorem decodeSymbol_append {input : List UInt8} {root : Node}
    (hinput : Scheme.prefixLength input ≠ 0) (h : (decodeSymbol none input).tree = some root)
    (hsuffix : ∀ c ∈ root.children, c.kind ≠ .suffix) :
    ∃ (r : Config) (t : State) (m : Nat), t.cursor.rest = [] ∧ root? t.stack = some root ∧
      x.length < m ∧
      (decodeSymbol none (input ++ x)).tree =
        match operatorsFrom m r (extend t x) with
        | (some (), u) => root? u.stack
        | (none, _) => none := by
  have hoperators (r : Config) (s : State) :
      operators r s = operatorsFrom (s.cursor.rest.length + 1) r s := rfl
  rw [decodeSymbol_eq hinput, hoperators] at h
  rw [decodeSymbol_eq (by rwa [Scheme.prefixLength_append hinput]),
    Scheme.hasInlineLabels_append hinput, afterPrefix_extend hinput, hoperators]
  generalize hr : (⟨Scheme.hasInlineLabels input, none⟩ : Config) = r at h ⊢
  -- there is no resolver that could answer
  have hagrees : r.Agrees r := by
    refine ⟨fun f hf => ?_, rfl⟩
    rw [← hr] at hf
    cases hf
  generalize State.afterPrefix input = s at h ⊢
  revert h
  generalize hrun : operatorsFrom (s.cursor.rest.length + 1) r s = result
  obtain ⟨_ | _, t⟩ := result
  · intro h; cases h
  intro (h : root? t.stack = some root)
  -- a suffix on top of the stack would be a part of the root
  have htop : ∀ node ∈ t.stack.head?, node.kind ≠ .suffix := by
    intro node hnode hkind
    obtain ⟨rest, hstack⟩ := List.head?_eq_some_iff.mp hnode
    rw [hstack] at h
    obtain ⟨c, hc, hck⟩ := exists_suffix_of_root? h hkind
    exact hsuffix c hc hck
  obtain ⟨hend, j, hj, hcontinued⟩ := operatorsFrom_continued (x := x) hagrees hrun htop
  have hlength : (extend s x).cursor.rest.length + 1 =
      s.cursor.rest.length + x.length + 1 - j + j := by
    show (s.cursor.rest ++ x).length + 1 = _
    rw [List.length_append]
    omega
  refine ⟨r, t, s.cursor.rest.length + x.length + 1 - j, hend, h, by omega, ?_⟩
  have hloop := hcontinued (s.cursor.rest.length + x.length + 1 - j)
  rw [hlength]
  exact hloop ▸ rfl

/-- One operator as an ending puts a node on top of the stack of the symbol. -/
theorem decodeSymbol_append_operator {input : List UInt8} {root : Node} (node : Node)
    (hinput : Scheme.prefixLength input ≠ 0) (h : (decodeSymbol none input).tree = some root)
    (hsuffix : ∀ c ∈ root.children, c.kind ≠ .suffix) (hx : x ≠ [])
    (hle : node.height ≤ maxHeight)
    (hrun : ∀ r s, s.cursor.rest = x →
      ∃ c : Cursor, c.rest = [] ∧ operator r s = (some node, { s with cursor := c })) :
    ∃ stack, root? stack = some root ∧
      (decodeSymbol none (input ++ x)).tree = root? (node :: stack) := by
  obtain ⟨r, t, m, hend, hroot, hm, htree⟩ := decodeSymbol_append (x := x) hinput h hsuffix
  refine ⟨t.stack, hroot, ?_⟩
  have hrest : (extend t x).cursor.rest = x := by
    show t.cursor.rest ++ x = x
    rw [hend, List.nil_append]
  obtain ⟨c, hc, hoperator⟩ := hrun r (extend t x) hrest
  obtain ⟨b, y, rfl⟩ := List.exists_cons_of_ne_nil hx
  -- one round reads the operator, and one finds the end
  obtain ⟨m, rfl⟩ : ∃ k, m = k + 1 + 1 := ⟨m - 2, by rw [List.length_cons] at hm; omega⟩
  rw [htree, operatorsFrom_of_operator hrest hoperator hle]
  rw [operatorsFrom_of_atEnd hc]
  rfl

end SwiftMangling.Current
