import SwiftMangling.Node.Unbound
import SwiftMangling.Proofs.Kind

/-!
# Taking arguments away

A declaration without its arguments is rebuilt from the declarations around it without theirs. Each
kind of declaration has its own way to be rebuilt, and `unbound?` stands for the declaration itself
where there is nothing to take away.
-/

namespace SwiftMangling.Node

variable {n p t u c r : Node} {k : Kind} {rest : List Node}

/-! ## Kinds of declarations -/

/-- Whether a node can be rebuilt around another first child. -/
def isDeclaration (k : Kind) : Bool :=
  isMember k || isRebuiltNominal k

/-- A declaration is a context behind another one, and neither bound nor an extension. -/
theorem isDeclaration_spec (h : isDeclaration k = true) :
    isBoundKind k = false ∧ k ≠ .extension ∧ followsParent k = true ∧ k.isContext = true := by
  have hk := Kind.of_check h
    (q := fun k => !isBoundKind k && k != .extension && followsParent k && k.isContext)
    (by decide +kernel)
  simpa [and_assoc] using hk

/-- What a bound declaration binds: a function, or the content of a type. -/
def bound? (n : Node) : Option Node :=
  if n.kind == .boundGenericFunction then n.first? else n.first?.bind first?

/-- What is bound stands right below the declaration, or one level further down, in the type. -/
theorem mem_of_bound? (h : n.bound? = some c) :
    c ∈ n.children ∨ ∃ t ∈ n.children, c ∈ t.children := by
  unfold bound? at h
  split at h
  · exact .inl (List.mem_of_head? h)
  · obtain ⟨t, ht, hc⟩ := Option.bind_eq_some_iff.mp h
    exact .inr ⟨t, List.mem_of_head? ht, List.mem_of_head? hc⟩

theorem sizeOf_lt_of_bound? (h : n.bound? = some c) : sizeOf c < sizeOf n := by
  rcases mem_of_bound? h with hc | ⟨t, ht, hc⟩
  · exact sizeOf_lt_of_mem_children hc
  · exact Nat.lt_trans (sizeOf_lt_of_mem_children hc) (sizeOf_lt_of_mem_children ht)

/-- The next declaration on the way outward. A bound declaration leads to what it binds, and an
extension to what it extends. -/
def outward? (n : Node) : Option Node :=
  if isBoundKind n.kind then n.bound? else if n.kind == .extension then n.child? 1 else n.child? 0

/-- What stands around a node is a smaller tree. -/
theorem sizeOf_lt_of_outward? (h : n.outward? = some c) : sizeOf c < sizeOf n := by
  unfold outward? at h
  split at h
  · exact sizeOf_lt_of_bound? h
  · split at h <;> exact sizeOf_lt_of_child? h

/-- A declaration without arguments, whether it had any or not. -/
def unbound? (n : Node) : Option Node :=
  if n.isSpecialized then n.unspecialized? else some n

theorem unbound?_of_not (h : n.isSpecialized = false) : n.unbound? = some n := by
  rw [unbound?, h]
  rfl

theorem unbound?_of_isSpecialized (h : n.isSpecialized = true) : n.unbound? = n.unspecialized? := by
  rw [unbound?, h]
  rfl

/-! ## Whether anything is bound -/

theorem isSpecialized_of_isBoundKind (h : isBoundKind n.kind = true) : n.isSpecialized = true := by
  obtain ⟨k, p, _ | ⟨a, _ | ⟨b, cs⟩⟩, height⟩ := n <;> simp_all [isSpecialized]

/-- A declaration has arguments where its context has. -/
theorem isSpecialized_declaration (hk : isDeclaration n.kind = true) (hcs : n.children = p :: rest) :
    n.isSpecialized = p.isSpecialized := by
  obtain ⟨hb, he, hf, -⟩ := isDeclaration_spec hk
  obtain ⟨k, payload, cs, height⟩ := n
  obtain rfl : cs = p :: rest := hcs
  cases rest <;> simp_all [isSpecialized]

/-- An extension has arguments where the type that it extends has. -/
theorem isSpecialized_extension (hk : n.kind = .extension) (hcs : n.children = c :: p :: rest) :
    n.isSpecialized = p.isSpecialized := by
  have hkind : isBoundKind .extension = false ∧ followsParent .extension = false := ⟨rfl, rfl⟩
  obtain ⟨k, payload, cs, height⟩ := n
  obtain rfl : k = .extension := hk
  obtain rfl : cs = c :: p :: rest := hcs
  simp [isSpecialized, hkind]

/-! ## How each declaration is rebuilt -/

/-- A declaration is rebuilt around its parent without arguments, a nominal type with its name
only. -/
theorem unspecialized?_declaration (hk : isDeclaration n.kind = true)
    (hcs : n.children = p :: rest) (hn : isRebuiltNominal n.kind = true → rest ≠ []) :
    n.unspecialized? = p.unbound?.map fun q =>
      branch n.kind (q :: if isMember n.kind then rest else rest.take 1) := by
  rw [unspecialized?.eq_def]
  split
  next hnil => simp [hnil] at hcs
  next parent rest' hcs' =>
    obtain ⟨rfl, rfl⟩ := List.cons.inj (hcs'.symm.trans hcs)
    unfold unbound?
    split
    next hm =>
      cases parent.isSpecialized with
      | false => rfl
      | true => cases parent.unspecialized? <;> rfl
    next hm =>
      have hnominal : isRebuiltNominal n.kind = true := by simpa [isDeclaration, hm] using hk
      obtain ⟨name, more, rfl⟩ := List.exists_cons_of_ne_nil (hn hnominal)
      rw [if_pos hnominal]
      cases parent.isSpecialized with
      | false => rfl
      | true => cases parent.unspecialized? <;> rfl

/-- A bound declaration gives way to what it binds. -/
theorem unspecialized?_bound (hb : isBoundKind n.kind = true)
    (ht : n.kind = .boundGenericFunction ∨ ∀ t ∈ n.first?, t.kind = .type) :
    n.unspecialized? = n.bound?.bind unbound? := by
  have hm : isMember n.kind = false ∧ isRebuiltNominal n.kind = false := by
    simpa using Kind.of_check hb (q := fun k => !isMember k && !isRebuiltNominal k)
      (by decide +kernel)
  rw [unspecialized?.eq_def]
  split
  next hnil => simp [bound?, first?, hnil]
  next parent rest hcs =>
    have hfirst : n.first? = some parent := by simp [first?, hcs]
    rw [hm.1, if_neg (by decide), hm.2, if_neg (by decide)]
    split
    next hf =>
      rw [bound?, if_pos hf, hfirst]
      rfl
    next hf =>
      have htype : parent.kind = .type := by
        refine ht.resolve_left (by simpa using hf) parent hfirst
      rw [if_neg (by simp [htype]), bound?, if_neg hf, hfirst, Option.bind_some]
      split
      next hnil => simp [first?, hnil]
      next hcons =>
        simp only [first?, hcons, List.head?_cons, Option.bind_some]
        rfl

/-- An extension is rebuilt around what it extends. -/
theorem unspecialized?_extension (hk : n.kind = .extension) (hcs : n.children = c :: p :: rest)
    (hp : p.isSpecialized = true) :
    n.unspecialized? = p.unbound?.map fun q => branch .extension (c :: q :: rest.take 1) := by
  rw [unspecialized?.eq_def]
  split
  next hnil => simp [hnil] at hcs
  next parent rest' hcs' =>
    obtain ⟨rfl, rfl⟩ := List.cons.inj (hcs'.symm.trans hcs)
    have hkind : isMember .extension = false ∧ isRebuiltNominal .extension = false ∧
      isBoundKind .extension = false := ⟨rfl, rfl, rfl⟩
    simp [hk, hkind, hp, unbound?]

/-! ## What is left -/

/-- A parent is rebuilt only if something is bound in it, and the declaration around it in any
case. -/
theorem exists_unbound?_of_rebuilt {f : Node → Node}
    (h : (if p.isSpecialized then p.unspecialized?.bind fun q => some (f q) else some (f p)) =
      some r) : ∃ q, p.unbound? = some q ∧ r = f q := by
  unfold unbound?
  split at h
  next hs =>
    obtain ⟨q, hq, hr⟩ := Option.bind_eq_some_iff.mp h
    exact ⟨q, by rw [if_pos hs, hq], (Option.some.inj hr).symm⟩
  next hs => exact ⟨p, if_neg hs, (Option.some.inj h).symm⟩

/-- The ways in which arguments are taken away: from the parent of a declaration, from what a bound
declaration binds, and from what an extension extends. -/
theorem unspecialized?_cases (h : n.unspecialized? = some r) :
    (∃ p q rest, isDeclaration n.kind = true ∧ n.children = p :: rest ∧ p.unbound? = some q ∧
      r = branch n.kind (q :: if isMember n.kind then rest else rest.take 1)) ∨
    (∃ u, isBoundKind n.kind = true ∧ n.bound? = some u ∧ u.unbound? = some r) ∨
    (∃ c p q rest, n.kind = .extension ∧ n.children = c :: p :: rest ∧ p.unbound? = some q ∧
      r = branch .extension (c :: q :: rest.take 1)) ∨
    n.kind = .extension ∧ n.isSpecialized = false ∧ r = n := by
  rw [unspecialized?.eq_def] at h
  split at h
  next => cases h
  next p rest hcs =>
    have hfirst : n.first? = some p := by rw [first?, hcs, List.head?_cons]
    -- a member keeps everything after its parent
    split at h
    next hm =>
      obtain ⟨q, hq, hr⟩ := exists_unbound?_of_rebuilt h
      exact .inl ⟨p, q, rest, by simp [isDeclaration, hm], hcs, hq, by rw [hr, if_pos hm]⟩
    -- a nominal type keeps its name
    split at h
    next hm hn =>
      obtain ⟨name, hname, h⟩ := Option.bind_eq_some_iff.mp h
      obtain ⟨q, hq, hr⟩ := exists_unbound?_of_rebuilt h
      obtain ⟨more, rfl⟩ := List.head?_eq_some_iff.mp hname
      refine .inl ⟨p, q, name :: more, by simp [isDeclaration, hn], hcs, hq, ?_⟩
      rw [hr, if_neg hm]
      rfl
    -- a function is bound directly, a type through its node
    split at h
    next hf =>
      refine .inr (.inl ⟨p, ?_, ?_, h⟩)
      · rw [beq_iff_eq.mp hf]
        rfl
      · rw [bound?, if_pos hf, hfirst]
    split at h
    next hf hb =>
      split at h
      next => cases h
      next =>
        split at h
        next => cases h
        next u more hp =>
          refine .inr (.inl ⟨u, hb, ?_, h⟩)
          rw [bound?, if_neg hf, hfirst, Option.bind_some, first?, hp, List.head?_cons]
    -- an extension is left as it is unless the type it extends is bound
    split at h
    next hb he =>
      have hk : n.kind = .extension := beq_iff_eq.mp he
      cases rest with
      | nil => cases h
      | cons extended more =>
        dsimp only at h
        split at h
        next hs =>
          obtain ⟨q, hq, hr⟩ := Option.map_eq_some_iff.mp h
          exact .inr (.inr (.inl ⟨p, extended, q, more, hk, hcs,
            (unbound?_of_isSpecialized hs).trans hq, hr.symm⟩))
        next hs =>
          refine .inr (.inr (.inr ⟨hk, ?_, (Option.some.inj h).symm⟩))
          rw [isSpecialized_extension hk hcs]
          simpa using hs
    next => cases h

/-- Taking arguments away relates a declaration to what is left of it, as soon as it does so where
nothing is taken away and for a declaration with what is left of the next one. -/
theorem unspecialized?_induction {P : Node → Node → Prop}
    (plain : ∀ n, n.isSpecialized = false → P n n)
    (declaration : ∀ n p q rest, isDeclaration n.kind = true → n.children = p :: rest → P p q →
      P n (branch n.kind (q :: if isMember n.kind then rest else rest.take 1)))
    (bound : ∀ n u r, isBoundKind n.kind = true → n.bound? = some u → P u r → P n r)
    (extension : ∀ n c p q rest, n.kind = .extension → n.children = c :: p :: rest → P p q →
      P n (branch .extension (c :: q :: rest.take 1)))
    (h : n.unspecialized? = some r) : P n r := by
  induction hsize : sizeOf n using Nat.strongRecOn generalizing n r with
  | _ size ih =>
  subst hsize
  -- the next node is smaller, or nothing is taken away from it
  have hnext {c q : Node} (hc : sizeOf c < sizeOf n) (hq : c.unbound? = some q) : P c q := by
    cases hs : c.isSpecialized with
    | true => exact ih _ hc (unbound?_of_isSpecialized hs ▸ hq) rfl
    | false =>
      obtain rfl : c = q := Option.some.inj (unbound?_of_not hs ▸ hq)
      exact plain c hs
  rcases unspecialized?_cases h with ⟨p, q, rest, hk, hcs, hq, rfl⟩ | ⟨u, hb, hu, hr⟩ |
      ⟨c, p, q, rest, hk, hcs, hq, rfl⟩ | ⟨-, hs, rfl⟩
  · exact declaration n p q rest hk hcs (hnext (sizeOf_lt_of_mem_children (by simp [hcs])) hq)
  · exact bound n u r hb hu (hnext (sizeOf_lt_of_bound? hu) hr)
  · exact extension n c p q rest hk hcs (hnext (sizeOf_lt_of_mem_children (by simp [hcs])) hq)
  · exact plain _ hs

/-- What is left is not specialized. -/
theorem not_isSpecialized_of_unspecialized? (h : n.unspecialized? = some r) :
    r.isSpecialized = false := by
  refine unspecialized?_induction (P := fun _ r => r.isSpecialized = false) (fun _ hs => hs) ?_
    (fun _ _ _ _ _ hr => hr) ?_ h
  · intro n p q rest hk _ hq
    exact (isSpecialized_declaration (n := branch n.kind _) hk rfl).trans hq
  · intro n c p q rest _ _ hq
    exact (isSpecialized_extension (n := branch .extension _) rfl rfl).trans hq

/-- What is left is no larger, however nodes are measured, as long as a node is larger than its
children and a rebuilt node no larger than they require. -/
theorem le_of_unspecialized? {μ : Node → Nat} {I : Node → Prop}
    (child : ∀ n, I n → ∀ c ∈ n.children, I c ∧ μ c < μ n)
    (rebuilt : ∀ k cs m, 0 < m → (∀ c ∈ cs, μ c < m) → μ (branch k cs) ≤ m)
    (h : n.unspecialized? = some r) (hn : I n) : μ r ≤ μ n := by
  -- a node rebuilt from its own children, one of them made smaller, is no larger
  have hbranch {n p q : Node} {k : Kind} {cs : List Node} (hn : I n) (hp : p ∈ n.children)
      (hq : μ q ≤ μ p) (hcs : ∀ c ∈ cs, c = q ∨ c ∈ n.children) : μ (branch k cs) ≤ μ n := by
    have hlt := (child n hn p hp).2
    refine rebuilt k cs (μ n) (by omega) fun c hc => ?_
    rcases hcs c hc with rfl | hc
    · omega
    · exact (child n hn c hc).2
  refine unspecialized?_induction (P := fun n r => I n → μ r ≤ μ n) (fun _ _ _ => Nat.le_refl _)
    ?_ ?_ ?_ h hn
  · intro n p q rest _ hcs hq hn
    have hp : p ∈ n.children := by simp [hcs]
    refine hbranch hn hp (hq (child n hn p hp).1) fun c hc => ?_
    rcases List.mem_cons.mp hc with rfl | hc
    · exact .inl rfl
    · right
      rw [hcs]
      split at hc
      · exact List.mem_cons_of_mem _ hc
      · exact List.mem_cons_of_mem _ (List.mem_of_mem_take hc)
  · intro n u r _ hu hr hn
    have hbelow : I u ∧ μ u < μ n := by
      rcases mem_of_bound? hu with hu | ⟨t, ht, hu⟩
      · exact child n hn u hu
      · have ht := child n hn t ht
        have hu := child t ht.1 u hu
        exact ⟨hu.1, Nat.lt_trans hu.2 ht.2⟩
    exact Nat.le_trans (hr hbelow.1) (Nat.le_of_lt hbelow.2)
  · intro n c p q rest _ hcs hq hn
    have hp : p ∈ n.children := by simp [hcs]
    refine hbranch hn hp (hq (child n hn p hp).1) fun d hd => ?_
    rw [hcs]
    rcases List.mem_cons.mp hd with rfl | hd
    · exact .inr (List.mem_cons_self ..)
    rcases List.mem_cons.mp hd with rfl | hd
    · exact .inl rfl
    · exact .inr (by simp [List.mem_of_mem_take hd])

end SwiftMangling.Node
