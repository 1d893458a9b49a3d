import SwiftMangling.Render.LoweredFunction

/-!
# The sections of a lowered function type

The parts of a lowered function type are printed one by one, and what stands between two of them
depends on the section that was reached. If attributes, parameters and results follow each other in
this order, no part goes back to an earlier section, and the text is that of three lists
(`printLoweredFunctionType_sections`). So only a part that cannot be printed makes the whole fail
(`FailsAsParts.printSections`).
-/

namespace SwiftMangling.Render

/-- The section that a part of the given kind belongs to; substitutions belong to none. -/
def partSection? : Kind → Option Section
  | .implParameter => some .inputs
  | .implResult | .implYield | .implErrorResult => some .results
  | .implPatternSubstitutions | .implInvocationSubstitutions => none
  | _ => some .attributes

/-- Prints nodes with a space after each. -/
def printSpaced : List Node → Printer Unit
  | [] => pure ()
  | n :: ns => do
    print n
    write " "
    printSpaced ns

/-- Prints nodes with a comma in front of each. -/
def printFurther : List Node → Printer Unit
  | [] => pure ()
  | n :: ns => do
    write ", "
    print n
    printFurther ns

/-- Prints the sections of a lowered function type. -/
def printSections (attributes inputs results : List Node) : Printer Unit := do
  printSpaced attributes
  write "("
  printSeparated ", " inputs
  write ") -> ("
  printSeparated ", " results
  write ")"

theorem printSeparated_cons (n : Node) (ns : List Node) :
    printSeparated ", " (n :: ns) = (do print n; printFurther ns) := by
  induction ns generalizing n with
  | nil => rw [printSeparated, printFurther, bind_pure_unit]
  | cons m ns ih =>
    rw [printSeparated, ih, printFurther]
    exact List.cons_ne_nil m ns

/-! ## Parts -/

section Parts

variable {n : Node} {parts : List Node}

/-- What has been reached in a type without substitutions. -/
def reached (current : Section) : LoweredState :=
  ⟨current, none, none⟩

/-- Attributes are printed as long as no section has been opened. -/
theorem printLoweredPart_attribute (h : partSection? n.kind = some .attributes) :
    printLoweredPart (reached .attributes) n =
      (do print n; write " "; return reached .attributes) := by
  unfold printLoweredPart
  split
  case h_7 => rfl
  all_goals simp_all [partSection?]

/-- A part with a section of its own is printed as an item. -/
theorem printLoweredPart_item {target : Section} (h : partSection? n.kind = some target)
    (ht : target ≠ .attributes) (s : LoweredState) :
    printLoweredPart s n = printItem s target n := by
  unfold printLoweredPart
  split <;> simp_all [partSection?]

/-- An item of the section that was reached follows a comma. -/
theorem printItem_current (current : Section) :
    printItem (reached current) current n =
      (do write ", "; print n; return reached current) := by
  cases current <;> rfl

/-- The first item of a section follows what opens it. -/
theorem printItem_next {current target : Section} (h : current.number < target.number) :
    printItem (reached current) target n =
      (do enterSection (reached current) target; print n; return reached target) := by
  cases current <;> cases target <;> first | rfl | exact absurd h (by decide)

/-- Attributes are printed one after the other, with nothing opened for them. -/
theorem foldlM_attributes (h : ∀ n ∈ parts, partSection? n.kind = some .attributes) :
    parts.foldlM printLoweredPart (reached .attributes) =
      (do printSpaced parts; return reached .attributes) := by
  induction parts with
  | nil => rfl
  | cons n ns ih =>
    rw [List.forall_mem_cons] at h
    rw [List.foldlM_cons, printLoweredPart_attribute h.1, printSpaced]
    simp only [bind_assoc, pure_bind, ih h.2]

/-- What is left of a section is printed behind its first item. -/
theorem foldlM_further {current : Section} (hc : current ≠ .attributes)
    (h : ∀ n ∈ parts, partSection? n.kind = some current) :
    parts.foldlM printLoweredPart (reached current) =
      (do printFurther parts; return reached current) := by
  induction parts with
  | nil => rfl
  | cons n ns ih =>
    rw [List.forall_mem_cons] at h
    rw [List.foldlM_cons, printLoweredPart_item h.1 hc, printItem_current, printFurther]
    simp only [bind_assoc, pure_bind, ih h.2]

/-- A section with items, from what opens it to its end. -/
theorem foldlM_section {current target : Section} (hlt : current.number < target.number)
    (h : ∀ m ∈ n :: parts, partSection? m.kind = some target) :
    (n :: parts).foldlM printLoweredPart (reached current) =
      (do
        enterSection (reached current) target
        printSeparated ", " (n :: parts)
        return reached target) := by
  have htarget : target ≠ .attributes := by
    rintro rfl
    exact Nat.not_lt_zero _ hlt
  rw [List.forall_mem_cons] at h
  rw [List.foldlM_cons, printLoweredPart_item h.1 htarget, printItem_next hlt,
    printSeparated_cons]
  simp only [bind_assoc, pure_bind, foldlM_further htarget h.2]

/-- Prints what closes a type. -/
def printEnd (s : LoweredState) : Printer Unit := do
  if s.current != .results then enterSection s .results
  write ")"
  printSubstitutions s.pattern 1
  printSubstitutions s.invocation 0

theorem printEnd_results : printEnd (reached .results) = write ")" :=
  rfl

/-- The results and the end; what opens the results is written even if there are none. -/
theorem foldlM_results {current : Section} (hc : current ≠ .results)
    (h : ∀ m ∈ parts, partSection? m.kind = some .results) :
    (parts.foldlM printLoweredPart (reached current) >>= printEnd) =
      (do
        enterSection (reached current) .results
        printSeparated ", " parts
        write ")") := by
  cases parts with
  | nil => cases current <;> first | rfl | exact absurd rfl hc
  | cons n ns =>
    have hlt : current.number < Section.results.number := by
      cases current <;> first | decide | exact absurd rfl hc
    rw [foldlM_section hlt h]
    simp only [bind_assoc, pure_bind, printEnd_results]

/-- Parts in the order of their sections are printed as three lists. -/
theorem printLoweredFunctionType_sections {attributes inputs results : List Node}
    (hn : n.children = attributes ++ inputs ++ results)
    (ha : ∀ c ∈ attributes, partSection? c.kind = some .attributes)
    (hi : ∀ c ∈ inputs, partSection? c.kind = some .inputs)
    (hr : ∀ c ∈ results, partSection? c.kind = some .results) :
    printLoweredFunctionType n = printSections attributes inputs results := by
  have hend (current : Section) (hc : current ≠ .results) := foldlM_results hc hr
  change (n.children.foldlM printLoweredPart (reached .attributes) >>= printEnd) = _
  rw [hn, List.append_assoc, List.foldlM_append, foldlM_attributes ha, printSections]
  simp only [bind_assoc, pure_bind, List.foldlM_append]
  -- without parameters the results are opened from the attributes
  cases inputs with
  | nil =>
    simp only [List.foldlM_nil, pure_bind, hend .attributes (by decide)]
    rfl
  | cons i is =>
    have hlt : Section.attributes.number < Section.inputs.number := by decide
    simp only [foldlM_section hlt hi, bind_assoc, pure_bind, hend .inputs (by decide)]
    rfl

end Parts

/-! ## Failures -/

/-- The printer fails only where one of the nodes cannot be printed. -/
def FailsAsParts (S : Setting) (nodes : List Node) {α : Type} (p : Printer α) : Prop :=
  ∀ o e, p S o = .error e → ∃ c ∈ nodes, ∃ o', S.node c false o' = .error e

namespace FailsAsParts

variable {α β : Type} {S : Setting} {nodes ns : List Node} {n : Node}

theorem ret (a : α) : FailsAsParts S nodes (pure a) := by
  intro o e h
  have hrun : (pure a : Printer α) S o = .ok (a, o) := rfl
  rw [hrun] at h
  cases h

theorem write (s : String) : FailsAsParts S nodes (write s) := by
  intro o e h
  have hrun : Render.write s S o = .ok ((), { o with text := o.text ++ s }) := rfl
  rw [hrun] at h
  cases h

theorem bind {x : Printer α} {f : α → Printer β} (hx : FailsAsParts S nodes x)
    (hf : ∀ a, FailsAsParts S nodes (f a)) : FailsAsParts S nodes (x >>= f) := by
  intro o e h
  replace h : ((x S o).bind fun r => f r.1 S r.2) = .error e := h
  cases hrun : x S o with
  | ok r =>
    rw [hrun] at h
    exact hf r.1 r.2 e h
  | error e' =>
    rw [hrun] at h
    cases h
    exact hx o e hrun

theorem print (h : n ∈ nodes) : FailsAsParts S nodes (print n) :=
  bind (fun o _ he => ⟨n, h, o, he⟩) fun _ => ret _

theorem printSpaced (h : ns ⊆ nodes) : FailsAsParts S nodes (printSpaced ns) := by
  induction ns with
  | nil => exact ret _
  | cons n ns ih =>
    rw [List.cons_subset] at h
    exact bind (print h.1) fun _ => bind (write _) fun _ => ih h.2

theorem printFurther (h : ns ⊆ nodes) : FailsAsParts S nodes (printFurther ns) := by
  induction ns with
  | nil => exact ret _
  | cons n ns ih =>
    rw [List.cons_subset] at h
    exact bind (write _) fun _ => bind (print h.1) fun _ => ih h.2

theorem printSeparated (h : ns ⊆ nodes) : FailsAsParts S nodes (printSeparated ", " ns) := by
  cases ns with
  | nil => exact ret _
  | cons n ns =>
    rw [List.cons_subset] at h
    rw [printSeparated_cons]
    exact bind (print h.1) fun _ => printFurther h.2

theorem printSections {attributes inputs results : List Node} (ha : attributes ⊆ nodes)
    (hi : inputs ⊆ nodes) (hr : results ⊆ nodes) :
    FailsAsParts S nodes (printSections attributes inputs results) :=
  bind (printSpaced ha) fun _ => bind (write _) fun _ => bind (printSeparated hi) fun _ =>
    bind (write _) fun _ => bind (printSeparated hr) fun _ => write _

end FailsAsParts

end SwiftMangling.Render
