import SwiftMangling.Node.Outline
import SwiftMangling.Proofs.Name
import SwiftMangling.Proofs.Node.Neat
import SwiftMangling.Proofs.Node.Same
import SwiftMangling.Proofs.TextRun

/-!
# Trees can be told apart by their outlines

An outline is a list of lines, one for each node, from the root down and from left to right. A line
has three parts, each of which ends where the next one begins: the indentation, which tells the
depth, the name of the kind, and the payload. If no text in the tree has a line break, the lines can
be told from the outline (`eq_of_flatMap_chars`), and the tree can be told from the lines
(`same_of_lines`), because what is below a node is what comes next and stands further in.
-/

namespace SwiftMangling

/-- The payload is shown on one line. -/
def Payload.OneLine : Payload → Prop
  | .text s => '\n' ∉ s.toList
  | _ => True

namespace Node

variable {p q : Payload} {rest rest' : List Char}

/-! ## Payloads -/

/-- What stands in front of what a payload holds. It tells the sort of the payload. -/
def payloadLead : Payload → String
  | .none => ""
  | .text _ => ", text=\""
  | .index _ => ", index="
  | .valueWitness _ => ", value-witness="
  | .differentiability _ => ", differentiability="
  | .specialization _ => ", specialization-kind="
  | .directness _ => ", directness="

/-- What a payload holds, as it is shown. -/
def payloadValue : Payload → List Char
  | .none => []
  | .text s => s.toList ++ ['"']
  | .index n => n.toNat.repr.toList
  | .valueWitness w => w.name.toList
  | .differentiability d => [d.code]
  | .specialization k => k.raw.toNat.repr.toList
  | .directness d => d.name.toList

theorem toList_payloadText (p : Payload) :
    (payloadText p).toList = (payloadLead p).toList ++ payloadValue p := by
  cases p with
  | none => exact (List.append_nil "".toList).symm
  | text s =>
    show (", text=\"" ++ s ++ "\"").toList = _
    rw [String.toList_append, String.toList_append, List.append_assoc]
    exact congrArg (_ ++ ·) (congrArg (s.toList ++ ·) String.toList_ofList)
  | differentiability d =>
    show (", differentiability=" ++ d.code.toString).toList = _
    rw [String.toList_append]
    exact congrArg (_ ++ ·) (String.toList_singleton d.code)
  | index n => exact String.toList_append
  | valueWitness w => exact String.toList_append
  | specialization k => exact String.toList_append
  | directness d => exact String.toList_append

/-- The code of the fifth character of what is shown of a payload. It is another one for every sort
of payloads. -/
def payloadMark : Payload → Option Nat
  | .none => none
  | .text _ => some 120
  | .index _ => some 100
  | .valueWitness _ => some 108
  | .differentiability _ => some 102
  | .specialization _ => some 101
  | .directness _ => some 114

/-- The fifth character tells the sort of a payload. -/
theorem getElem?_payloadText (p : Payload) :
    (payloadText p).toList[4]?.map Char.toNat = payloadMark p := by
  rw [toList_payloadText]
  cases p <;> (rw [payloadLead, String.toList_ofList]; rfl)

/-- A number is told by its decimal digits. -/
theorem repr_inj {m n : Nat} (h : m.repr.toList = n.repr.toList) : m = n := by
  rw [Nat.toList_repr, Nat.toList_repr] at h
  calc m = Nat.ofDigitChars 10 (Nat.toDigits 10 m) 0 := Nat.ofDigitChars_ten_toDigits.symm
    _ = Nat.ofDigitChars 10 (Nat.toDigits 10 n) 0 := by rw [h]
    _ = n := Nat.ofDigitChars_ten_toDigits

theorem code_inj {d e : Differentiability} (h : d.code = e.code) : d = e := by
  revert h
  cases d <;> cases e <;> decide

/-- Payloads of one sort are shown with the same lead, and what they hold can be told. -/
theorem eq_of_payloadValue (hmark : payloadMark p = payloadMark q)
    (h : payloadLead p = payloadLead q → payloadValue p = payloadValue q) : p = q := by
  cases p with
  | none =>
    cases q with
    | none => rfl
    | _ => cases hmark
  | text s =>
    cases q with
    | text t => rw [String.toList_inj.mp (List.append_cancel_right (h rfl))]
    | _ => cases hmark
  | index m =>
    cases q with
    | index n => rw [UInt64.toNat_inj.mp (repr_inj (h rfl))]
    | _ => cases hmark
  | valueWitness w =>
    cases q with
    | valueWitness x => rw [ValueWitness.name_injective (String.toList_inj.mp (h rfl))]
    | _ => cases hmark
  | differentiability d =>
    cases q with
    | differentiability e => rw [code_inj (List.singleton_inj.mp (h rfl))]
    | _ => cases hmark
  | specialization k =>
    cases q with
    | specialization l =>
      have hraw : k.raw = l.raw := UInt64.toNat_inj.mp (repr_inj (h rfl))
      exact congrArg (fun raw => Payload.specialization ⟨raw⟩) hraw
    | _ => cases hmark
  | directness d =>
    cases q with
    | directness e => rw [Directness.name_injective (String.toList_inj.mp (h rfl))]
    | _ => cases hmark

/-- No two payloads are shown alike. -/
theorem payloadText_inj (h : (payloadText p).toList = (payloadText q).toList) : p = q := by
  apply eq_of_payloadValue
  · rw [← getElem?_payloadText, h, getElem?_payloadText]
  · intro hlead
    rw [toList_payloadText, toList_payloadText, hlead] at h
    exact List.append_cancel_left h

/-- What is shown of a payload does not go on with the letters of a name. -/
theorem takeWhile_payloadText (p : Payload) :
    (payloadText p).toList.takeWhile Char.isAlpha = [] := by
  rw [toList_payloadText]
  cases p <;> (rw [payloadLead, String.toList_ofList]; rfl)

/-- Letters are no line breaks. -/
theorem ne_newline_of_isAlpha {c : Char} (h : c.isAlpha = true) : (c != '\n') = true := by
  rw [bne_iff_ne]
  rintro rfl
  exact absurd h (by decide)

/-- Digits are no line breaks. -/
theorem ne_newline_of_mem_repr {n : Nat} {c : Char} (hc : c ∈ n.repr.toList) :
    (c != '\n') = true := by
  rw [Nat.toList_repr] at hc
  have hdigit : c.isDigit = true := Nat.isDigit_of_mem_toDigits (by decide) (Nat.le_refl 10) hc
  rw [bne_iff_ne]
  rintro rfl
  exact absurd hdigit (by decide)

/-- There is no line break in what a payload is shown as, unless there is one in its text. -/
theorem ne_newline_of_mem_payloadText (hp : p.OneLine) :
    ∀ c ∈ (payloadText p).toList, (c != '\n') = true := by
  have hlead : MadeOf (· != '\n') (payloadLead p) := by
    cases p <;> exact ⟨_, rfl, rfl⟩
  have hvalue : ∀ c ∈ payloadValue p, (c != '\n') = true := by
    cases p with
    | none => exact fun _ hc => nomatch hc
    | text s =>
      intro c hc
      rcases List.mem_append.mp hc with hc | hc
      · exact bne_iff_ne.mpr (ne_of_mem_of_not_mem hc hp)
      · rw [List.mem_singleton.mp hc]
        rfl
    | index n => exact fun _ => ne_newline_of_mem_repr
    | valueWitness w => exact fun _ hc => ne_newline_of_isAlpha (w.name_letters.of_mem hc)
    | differentiability d =>
      intro c hc
      rw [List.mem_singleton.mp hc]
      cases d <;> rfl
    | specialization k => exact fun _ => ne_newline_of_mem_repr
    | directness d => exact fun _ hc => ne_newline_of_isAlpha (d.name_letters.of_mem hc)
  intro c hc
  rw [toList_payloadText, List.mem_append] at hc
  rcases hc with hc | hc
  · exact hlead.of_mem hc
  · exact hvalue c hc

/-! ## Lines -/

/-- What a line of an outline shows. -/
structure Line where
  depth : Nat
  kind : Kind
  payload : Payload

/-- The characters of a line. -/
def Line.chars (l : Line) : List Char :=
  (outlineLine l.depth l.kind l.payload).toList

/-- The characters of a line without the line break at its end. -/
def Line.body (l : Line) : List Char :=
  List.replicate (2 * l.depth) ' ' ++
    (['k', 'i', 'n', 'd', '='] ++ (l.kind.name.toList ++ (payloadText l.payload).toList))

theorem toList_pushn (s : String) (c : Char) (n : Nat) :
    (s.pushn c n).toList = s.toList ++ List.replicate n c := by
  induction n with
  | zero => exact (List.append_nil _).symm
  | succ n ih =>
    show ((s.pushn c n).push c).toList = _
    rw [String.toList_push, ih, List.append_assoc, List.replicate_succ']

theorem Line.chars_eq (l : Line) : l.chars = l.body ++ ['\n'] := by
  have hnil : "".toList = [] := String.toList_ofList
  have hkind : "kind=".toList = ['k', 'i', 'n', 'd', '='] := String.toList_ofList
  have hend : "\n".toList = ['\n'] := String.toList_ofList
  rw [chars, outlineLine, String.toList_append, String.toList_append, String.toList_append,
    String.toList_append, toList_pushn, hnil, hkind, hend, body, List.nil_append]
  simp only [List.append_assoc]

/-- A line breaks at its end only. -/
theorem Line.ne_newline_of_mem_body {l : Line} (hl : l.payload.OneLine) :
    ∀ c ∈ l.body, (c != '\n') = true := by
  intro c hc
  rw [body, List.mem_append, List.mem_append, List.mem_append] at hc
  rcases hc with hc | hc | hc | hc
  · rw [(List.mem_replicate.mp hc).2]
    rfl
  · have hlead : ['k', 'i', 'n', 'd', '='].all (· != '\n') = true := by decide
    exact List.all_eq_true.mp hlead c hc
  · exact ne_newline_of_isAlpha (l.kind.name_letters.of_mem hc)
  · exact ne_newline_of_mem_payloadText hl c hc

/-- No two lines are shown alike. -/
theorem Line.body_inj {l m : Line} (h : l.body = m.body) : l = m := by
  have hspaces (n : Nat) : ∀ c ∈ List.replicate n ' ', (c == ' ') = true := by
    intro c hc
    rw [(List.mem_replicate.mp hc).2]
    rfl
  have hletters (k : Kind) : ∀ c ∈ k.name.toList, c.isAlpha = true :=
    fun c hc => k.name_letters.of_mem hc
  -- the indentation ends at the first letter, the name behind its last one
  obtain ⟨hindent, hrest⟩ := append_inj_of_run (hspaces _) (hspaces _) rfl rfl h
  obtain ⟨hname, hpayload⟩ := append_inj_of_run (hletters l.kind) (hletters m.kind)
    (takeWhile_payloadText _) (takeWhile_payloadText _) (List.append_cancel_left hrest)
  have hdepth : l.depth = m.depth := by
    have hlength := congrArg List.length hindent
    rw [List.length_replicate, List.length_replicate] at hlength
    omega
  have hkind : l.kind = m.kind := Kind.name_injective (String.toList_inj.mp hname)
  have hvalue : l.payload = m.payload := payloadText_inj hpayload
  calc l = ⟨l.depth, l.kind, l.payload⟩ := rfl
    _ = ⟨m.depth, m.kind, m.payload⟩ := by rw [hdepth, hkind, hvalue]
    _ = m := rfl

/-- The lines of a text can be told from it if none of them breaks before its end. -/
theorem eq_of_flatMap_chars {ls ms : List Line} (hls : ∀ l ∈ ls, l.payload.OneLine)
    (hms : ∀ m ∈ ms, m.payload.OneLine) (h : ls.flatMap Line.chars = ms.flatMap Line.chars) :
    ls = ms := by
  have hne (l : Line) (ls : List Line) : (l :: ls).flatMap Line.chars ≠ [] := by
    rw [List.flatMap_cons, Line.chars_eq, List.append_assoc]
    exact List.append_ne_nil_of_right_ne_nil _ (List.cons_ne_nil _ _)
  -- by induction on the lines: the first break ends the first line of both
  induction ls generalizing ms with
  | nil =>
    cases ms with
    | nil => rfl
    | cons m ms => exact absurd h.symm (hne m ms)
  | cons l ls ih =>
    cases ms with
    | nil => exact absurd h (hne l ls)
    | cons m ms =>
      rw [List.forall_mem_cons] at hls hms
      rw [List.flatMap_cons, List.flatMap_cons, Line.chars_eq, Line.chars_eq, List.append_assoc,
        List.append_assoc] at h
      obtain ⟨hbody, hrest⟩ := append_inj_of_run (Line.ne_newline_of_mem_body hls.1)
        (Line.ne_newline_of_mem_body hms.1) rfl rfl h
      rw [Line.body_inj hbody, ih hls.2 hms.2 (List.append_cancel_left hrest)]

/-! ## Trees as lists of lines -/

mutual

/-- The lines of a node `depth` levels below the root, and of what is below the node. -/
def lines (depth : Nat) : Node → List Line
  | ⟨kind, payload, children, _⟩ => ⟨depth, kind, payload⟩ :: linesOfList (depth + 1) children

/-- The lines of several nodes `depth` levels below the root. -/
def linesOfList (depth : Nat) : List Node → List Line
  | [] => []
  | n :: ns => lines depth n ++ linesOfList depth ns

end

mutual

/-- An outline is made of the lines of the tree. -/
theorem toList_outlineFrom (depth : Nat) (out : String) : (n : Node) →
    (outlineFrom depth out n).toList = out.toList ++ (lines depth n).flatMap Line.chars
  | ⟨kind, payload, children, _⟩ => by
    rw [outlineFrom, toList_outlineListFrom, String.toList_append, lines, List.flatMap_cons,
      List.append_assoc]
    rfl

theorem toList_outlineListFrom (depth : Nat) (out : String) : (ns : List Node) →
    (outlineListFrom depth out ns).toList = out.toList ++ (linesOfList depth ns).flatMap Line.chars
  | [] => (List.append_nil _).symm
  | n :: ns => by
    rw [outlineListFrom, toList_outlineListFrom, toList_outlineFrom, linesOfList,
      List.flatMap_append, List.append_assoc]

end

theorem toList_outline (n : Node) : n.outline.toList = (lines 0 n).flatMap Line.chars := by
  have hnil : "".toList = [] := String.toList_ofList
  rw [outline, toList_outlineFrom, hnil, List.nil_append]

theorem mem_linesOfList {depth : Nat} {ns : List Node} {l : Line} :
    l ∈ linesOfList depth ns ↔ ∃ n ∈ ns, l ∈ lines depth n := by
  induction ns with
  | nil => simp [linesOfList]
  | cons n ns ih => simp [linesOfList, ih]

/-- A line of a tree shows what a node of the tree carries. -/
theorem oneLine_of_mem_lines {n : Node} (h : n.Everywhere (·.payload.OneLine)) (depth : Nat) :
    ∀ l ∈ lines depth n, l.payload.OneLine := by
  induction h generalizing depth with
  | @intro n here _ ih =>
    obtain ⟨kind, payload, children, height⟩ := n
    rw [lines, List.forall_mem_cons]
    refine ⟨here, fun l hl => ?_⟩
    obtain ⟨c, hc, hl⟩ := mem_linesOfList.mp hl
    exact ih c hc (depth + 1) l hl

/-- What comes first in a list of nodes stands as far in as the nodes do. -/
theorem depth_of_head {depth : Nat} {ns : List Node} {rest : List Line}
    (hrest : ∀ l ∈ rest.head?, l.depth < depth) :
    ∀ l ∈ (linesOfList depth ns ++ rest).head?, l.depth < depth + 1 := by
  intro l hl
  cases ns with
  | nil => exact Nat.lt_succ_of_lt (hrest l hl)
  | cons n ns =>
    obtain ⟨kind, payload, children, height⟩ := n
    obtain rfl : ⟨depth, kind, payload⟩ = l := Option.some.inj hl
    exact Nat.lt_succ_self depth

/-- The lines of a node do not stand where all lines are less far in. -/
theorem ne_lines_append {depth : Nat} {n : Node} {rest rest' : List Line}
    (hrest : ∀ l ∈ rest.head?, l.depth < depth) : rest ≠ lines depth n ++ rest' := by
  obtain ⟨kind, payload, children, height⟩ := n
  rintro rfl
  exact Nat.lt_irrefl depth (hrest _ rfl)

mutual

/-- A node can be told from its lines, wherever they stand: the lines of what is below it end where
a line stands no further in than the node. -/
theorem same_of_lines {depth : Nat} {rest rest' : List Line} : (a b : Node) →
    (∀ l ∈ rest.head?, l.depth < depth + 1) → (∀ l ∈ rest'.head?, l.depth < depth + 1) →
    lines depth a ++ rest = lines depth b ++ rest' → a.same b = true ∧ rest = rest'
  | ⟨kind, payload, children, _⟩, ⟨kind', payload', children', _⟩, hrest, hrest', h => by
    rw [lines, lines, List.cons_append, List.cons_append] at h
    obtain ⟨hline, hbelow⟩ := List.cons.inj h
    obtain ⟨hchildren, hrests⟩ := sameList_of_lines children children' hrest hrest' hbelow
    obtain ⟨-, rfl, rfl⟩ := Line.mk.inj hline
    rw [same, beq_self_eq_true, beq_self_eq_true, hchildren]
    exact ⟨rfl, hrests⟩

/-- Several nodes can be told from their lines, which end where a line stands less far in. -/
theorem sameList_of_lines {depth : Nat} {rest rest' : List Line} : (as bs : List Node) →
    (∀ l ∈ rest.head?, l.depth < depth) → (∀ l ∈ rest'.head?, l.depth < depth) →
    linesOfList depth as ++ rest = linesOfList depth bs ++ rest' →
    sameList as bs = true ∧ rest = rest'
  | [], [], _, _, h => ⟨rfl, h⟩
  -- the first line of a node stands as far in as the others, and `rest` does not
  | [], b :: bs, hrest, _, h => by
    rw [linesOfList, linesOfList, List.append_assoc] at h
    exact absurd h (ne_lines_append hrest)
  | a :: as, [], _, hrest', h => by
    rw [linesOfList, linesOfList, List.append_assoc] at h
    exact absurd h.symm (ne_lines_append hrest')
  | a :: as, b :: bs, hrest, hrest', h => by
    rw [linesOfList, linesOfList, List.append_assoc, List.append_assoc] at h
    obtain ⟨hfirst, hothers⟩ := same_of_lines a b (depth_of_head hrest) (depth_of_head hrest') h
    obtain ⟨hothers, hrests⟩ := sameList_of_lines as bs hrest hrest' hothers
    rw [sameList, hfirst, hothers]
    exact ⟨rfl, hrests⟩

end

mutual

/-- Equal trees have the same lines. -/
theorem lines_of_same (depth : Nat) : (a b : Node) → a.same b = true → lines depth a = lines depth b
  | ⟨kind, payload, children, _⟩, ⟨kind', payload', children', _⟩, h => by
    rw [same, Bool.and_eq_true, Bool.and_eq_true, beq_iff_eq, beq_iff_eq] at h
    obtain ⟨⟨rfl, rfl⟩, hchildren⟩ := h
    rw [lines, lines, linesOfList_of_same (depth + 1) children children' hchildren]

/-- Lists with equal trees have equal lines. -/
theorem linesOfList_of_same (depth : Nat) : (as bs : List Node) → sameList as bs = true →
    linesOfList depth as = linesOfList depth bs
  | [], [], _ => rfl
  | a :: as, b :: bs, h => by
    rw [sameList, Bool.and_eq_true] at h
    rw [linesOfList, linesOfList, lines_of_same depth a b h.1, linesOfList_of_same depth as bs h.2]

end

/-- Two trees without line breaks in their texts have the same outline exactly if they are equal. -/
theorem outline_eq_iff_same {a b : Node} (ha : a.Everywhere (·.payload.OneLine))
    (hb : b.Everywhere (·.payload.OneLine)) : a.outline = b.outline ↔ a.same b = true := by
  constructor
  · intro h
    have hchars : (lines 0 a).flatMap Line.chars = (lines 0 b).flatMap Line.chars := by
      rw [← toList_outline, h, toList_outline]
    have hlines : lines 0 a = lines 0 b :=
      eq_of_flatMap_chars (oneLine_of_mem_lines ha 0) (oneLine_of_mem_lines hb 0) hchars
    have hend : ∀ l ∈ ([] : List Line).head?, l.depth < 0 + 1 := fun _ hl => nomatch hl
    exact (same_of_lines a b hend hend (congrArg (· ++ []) hlines)).1
  · intro h
    rw [← String.toList_inj, toList_outline, toList_outline, lines_of_same 0 a b h]

/-- A tree with a text that looks like another payload behind its own. -/
def quotedTree (height : Nat) : Node :=
  ⟨.global, .none, [ofText .identifier "x\", index=1", ofIndex .index 1], height⟩

theorem oneLine_quotedTree (height : Nat) :
    (quotedTree height).Everywhere (·.payload.OneLine) := by
  have hleaf (k : Kind) (p : Payload) (hp : p.OneLine) :
      (ofPayload k p).Everywhere (·.payload.OneLine) :=
    .intro hp fun _ hc => nomatch hc
  refine .intro trivial fun c hc => ?_
  rcases List.mem_cons.mp hc with rfl | hc
  · refine hleaf .identifier (.text _) ?_
    show '\n' ∉ "x\", index=1".toList
    rw [String.toList_ofList]
    decide
  · rw [List.mem_singleton.mp hc]
    exact hleaf .index (.index 1) trivial

theorem outline_eq_iff_same_quotedTree :
    (quotedTree 2).Everywhere (·.payload.OneLine) ∧
      (quotedTree 9).Everywhere (·.payload.OneLine) ∧
      (quotedTree 2).outline = (quotedTree 9).outline ∧
      (quotedTree 2).same (quotedTree 9) = true :=
  ⟨oneLine_quotedTree 2, oneLine_quotedTree 9, rfl,
    (outline_eq_iff_same (oneLine_quotedTree 2) (oneLine_quotedTree 9)).mp rfl⟩

end Node

end SwiftMangling
