import SwiftMangling.Symbol.Facts
import SwiftMangling.Proofs.Payload

/-!
# Labels match parameters

A decoded declaration has a label for each of its parameters, or an empty list of labels, or none at
all. The printer finds the parameters on a way of its own, and comes to those that the labels were
made for, so it never misses a label.
-/

namespace SwiftMangling

namespace Node

/-- Every list of labels among the children of a node has a label for each parameter of a type that
is a child, too. -/
def LabelsMatch (n : Node) : Prop :=
  ∀ l ∈ n.children, l.kind = .labelList → l.children ≠ [] →
    ∃ t ∈ n.children, t.kind = .type ∧ LabelsFit l t

/-- A regular tree has a label for each parameter wherever it has labels. -/
theorem Regular.labelsMatch [Labelling] {n : Node} (h : n.Regular) : n.LabelsMatch := by
  intro l hl hk hne
  rcases h.framed.labels with hnone | ⟨-, -, before, l', t, after, hparts⟩
  · exact absurd hk (hnone l hl)
  · -- there is only one list of labels
    obtain rfl : l = l' := by
      rw [hparts.eq] at hl
      rcases List.mem_append.mp hl with hmem | hmem
      · exact absurd hk (hparts.others l (by simp [hmem])).1
      rcases List.mem_cons.mp hmem with rfl | hmem
      · rfl
      rcases List.mem_cons.mp hmem with rfl | hmem
      · simp [hparts.type] at hk
      · exact absurd hk (hparts.others l (by simp [hmem])).1
    exact ⟨t, by simp [hparts.eq], hparts.type, hparts.fit hne⟩

end Node

/-- In a decoded tree every list of labels that is not empty stands beside a type whose functions
take as many parameters as there are labels, and rendering never fails for want of a label. -/
theorem labelsMatch_of_decode {symbol : List UInt8} {t : Node} (h : decode symbol = some t) :
    t.Everywhere Node.LabelsMatch ∧
      ∀ options i, render options t ≠ .error (.missingChild .labelList i) := by
  obtain ⟨hsound, hkind⟩ := sound_of_decode h
  obtain ⟨_, hformed⟩ := formed_of_decode h
  have htag : t.isTag = false := by simp [Node.isTag, hkind]
  exact ⟨hformed.neat.mono fun n hn => hn.labelsMatch,
    render_ne_missing_label hsound htag hformed.neat.printsLabels⟩

/-- A function with two labels and two parameters. -/
theorem labelsMatch_of_decode_function :
    ∃ t n l, decode (Utf8.encode "$s4main3foo1x1yySi_SitF") = some t ∧ n ∈ t.children ∧
      n.childOfKind? .labelList = some l ∧ l.children.map Node.text? = [some "x", some "y"] ∧
      (∃ u ∈ n.children, u.kind = .type ∧ Node.LabelsFit l u) ∧
      ∀ options i, render options t ≠ .error (.missingChild .labelList i) := by
  have hcheck : (((decode (Utf8.encode "$s4main3foo1x1yySi_SitF")).bind Symbol.mainPart?).bind
      (Node.childOfKind? · .labelList)).map (fun l => l.children.map Node.text?) =
        some [some "x", some "y"] := by
    decide +kernel
  obtain ⟨l, hl, htexts⟩ := Option.map_eq_some_iff.mp hcheck
  obtain ⟨n, hn, hl⟩ := Option.bind_eq_some_iff.mp hl
  obtain ⟨t, ht, hn⟩ := Option.bind_eq_some_iff.mp hn
  obtain ⟨hmatch, hrender⟩ := labelsMatch_of_decode ht
  have hmem : n ∈ t.children := List.mem_of_find?_eq_some hn
  have hkind : l.kind = .labelList := by simpa using List.find?_some hl
  have hne : l.children ≠ [] := fun hnil => by simp [hnil] at htexts
  refine ⟨t, n, l, ht, hmem, hl, htexts, ?_, hrender⟩
  exact (hmatch.child hmem).here l (List.mem_of_find?_eq_some hl) hkind hne

end SwiftMangling
