import SwiftMangling.Proofs.Current.Continuation
import SwiftMangling.Proofs.Legacy.Continuation

/-!
# Suffixes

A `.` and what follows it behind a symbol is a suffix, which is one more part of the tree. In both
schemes there is a case in which the suffix changes the other parts as well. In the current scheme
attributes are collected from the top of the stack, where the suffix lies on top of them: they stay
where they are, and a forwarder does not enclose what it forwards to. In the legacy scheme the types
of the arguments of a closure can go on into the suffix.
-/

namespace SwiftMangling

open Node

variable {symbol u : List UInt8} {root : Node}

/-- The suffix with its `.`. -/
def suffixBytes (u : List UInt8) : List UInt8 :=
  '.'.toUInt8 :: u

theorem suffixBytes_ne_nil (u : List UInt8) : suffixBytes u ≠ [] :=
  List.cons_ne_nil _ _

/-- The part that a suffix becomes. -/
def suffixNode (u : List UInt8) : Node :=
  ofText .suffix (Utf8.lossy (suffixBytes u))

/-- A suffix does not complete a prefix. -/
theorem prefixLength_append_suffix (h : Scheme.prefixLength symbol = 0) :
    Scheme.prefixLength (symbol ++ suffixBytes u) = 0 := by
  -- the prefix would have to go on into the suffix, and none has a `.`
  have hdot : ∀ p ∈ Scheme.currentPrefixes, p.length ≠ 0 ∧ '.'.toUInt8 ∉ p := by decide
  refine Decidable.byContradiction fun happend => ?_
  obtain ⟨p, hp, hprefix⟩ := Scheme.exists_currentPrefix happend
  have hsymbol : p <+: symbol :=
    (Cursor.prefix_append_iff fun b hb => Option.some.inj hb ▸ (hdot p hp).2).mp hprefix
  rw [Scheme.prefixLength_eq_length hp hsymbol] at h
  exact (hdot p hp).1 h

namespace Current

instance : Ending (suffixBytes u) :=
  ⟨fun _ hb => .inr (Option.some.inj hb).symm⟩

/-- The operator of a suffix takes all of it. -/
theorem operator_suffix (r : Config) {s : State} (h : s.cursor.rest = suffixBytes u) :
    ∃ c : Cursor, c.rest = [] ∧ operator r s = (some (suffixNode u), { s with cursor := c }) := by
  obtain ⟨⟨before, rest⟩, stack, substitutions, words, references⟩ := s
  obtain rfl : rest = suffixBytes u := h
  refine ⟨(⟨before, suffixBytes u⟩ : Cursor).skip (suffixBytes u).length, ?_, rfl⟩
  rw [Cursor.rest_skip, List.drop_length]

/-- In the current scheme the suffix comes last among the children of the root. -/
theorem decode_append_suffix_current (hsymbol : Scheme.prefixLength symbol ≠ 0)
    (h : decode symbol = some root) (hsuffix : ∀ c ∈ root.children, c.kind ≠ .suffix)
    (hattribute : ∀ c ∈ root.first?, c.kind.isFunctionAttribute = false) :
    decode (symbol ++ suffixBytes u) = some (branch .global (root.children ++ [suffixNode u])) := by
  rw [decode_of_current hsymbol] at h
  obtain ⟨stack, hroot, htree⟩ := decodeSymbol_append_operator (x := suffixBytes u)
    (suffixNode u) hsymbol h hsuffix (suffixBytes_ne_nil u)
    (by rw [suffixNode, height_ofText]; decide) fun r s => operator_suffix r
  rw [decode_of_current (by rwa [Scheme.prefixLength_append hsymbol]), htree]
  exact root?_suffix hroot hattribute

end Current

namespace Legacy

instance : Ending (suffixBytes u) :=
  ⟨fun _ hb => (Option.some.inj hb).symm⟩

/-- In the legacy scheme the same holds, as long as no closure reads on into the suffix. -/
theorem decode_append_suffix_legacy (hsymbol : Scheme.prefixLength symbol = 0)
    (h : decode symbol = some root) (hsuffix : ∀ c ∈ root.children, c.kind ≠ .suffix)
    (hclosure : ClosureFree root.children) :
    decode (symbol ++ suffixBytes u) = some (branch .global (root.children ++ [suffixNode u])) := by
  have hlegacy := legacyPrefix_of_decode hsymbol h
  rw [decode_of_legacy hsymbol hlegacy] at h
  rw [decode_of_legacy (prefixLength_append_suffix hsymbol)
    (hlegacy.trans (List.prefix_append symbol _))]
  exact decodeSymbol_append h hsuffix hclosure (suffixBytes_ne_nil u)

end Legacy

theorem eq_branch_of_decode (h : decode symbol = some root) :
    root = branch .global root.children := by
  by_cases hsymbol : Scheme.prefixLength symbol = 0
  · rw [decode_of_legacy hsymbol (legacyPrefix_of_decode hsymbol h)] at h
    exact Legacy.eq_branch_of_decodeSymbol h
  · rw [decode_of_current hsymbol] at h
    exact Current.eq_branch_of_decodeSymbol hsymbol h

/-- A suffix behind a symbol is one more part of its tree, and the other parts stay the same: in the
current scheme if there is no attribute in front of them, and in the legacy scheme if none of them
is a specialization for a closure. -/
theorem decode_append_suffix (h : decode symbol = some root)
    (hsuffix : ∀ c ∈ root.children, c.kind ≠ .suffix)
    (hattribute : Scheme.prefixLength symbol ≠ 0 →
      ∀ c ∈ root.first?, c.kind.isFunctionAttribute = false)
    (hclosure : Scheme.prefixLength symbol = 0 → Legacy.ClosureFree root.children)
    (u : List UInt8) :
    root = branch .global root.children ∧
      decode (symbol ++ '.'.toUInt8 :: u) = some (branch .global
        (root.children ++ [ofText .suffix (Utf8.lossy ('.'.toUInt8 :: u))])) := by
  refine ⟨eq_branch_of_decode h, ?_⟩
  by_cases hsymbol : Scheme.prefixLength symbol = 0
  · exact Legacy.decode_append_suffix_legacy hsymbol h hsuffix (hclosure hsymbol)
  · exact Current.decode_append_suffix_current hsymbol h hsuffix (hattribute hsymbol)

/-- A function of the current scheme, and a forwarder of the legacy scheme. -/
theorem decode_append_suffix_function :
    (∃ root, decode (Utf8.encode "$s4main3fooyyF") = some root ∧
      ∀ u, decode (Utf8.encode "$s4main3fooyyF" ++ '.'.toUInt8 :: u) = some (branch .global
        (root.children ++ [ofText .suffix (Utf8.lossy ('.'.toUInt8 :: u))]))) ∧
    ∃ root, decode (Utf8.encode "_TPA__TF4main3fooFT_T_") = some root ∧
      ∀ u, decode (Utf8.encode "_TPA__TF4main3fooFT_T_" ++ '.'.toUInt8 :: u) = some (branch .global
        (root.children ++ [ofText .suffix (Utf8.lossy ('.'.toUInt8 :: u))])) := by
  have hfunction : (decode (Utf8.encode "$s4main3fooyyF")).any (fun root =>
      root.children.all (·.kind != .suffix) &&
        root.first?.all (!·.kind.isFunctionAttribute)) = true := by
    decide +kernel
  have hforwarder : (decode (Utf8.encode "_TPA__TF4main3fooFT_T_")).any (fun root =>
      root.children.all (·.kind != .suffix) && decide (Legacy.ClosureFree root.children)) = true := by
    decide +kernel
  refine ⟨?_, ?_⟩
  · obtain ⟨root, hroot⟩ := Option.isSome_iff_exists.mp (Option.isSome_of_any hfunction)
    rw [hroot, Option.any_some, Bool.and_eq_true, List.all_eq_true] at hfunction
    have hcurrent : Scheme.prefixLength (Utf8.encode "$s4main3fooyyF") ≠ 0 := by decide
    have hattribute : ∀ c ∈ root.first?, c.kind.isFunctionAttribute = false := by
      intro c hc
      have hfirst := hfunction.2
      rw [Option.mem_def.mp hc] at hfirst
      simpa using hfirst
    exact ⟨root, hroot, fun u => (decode_append_suffix hroot
      (fun c hc => by simpa using hfunction.1 c hc) (fun _ => hattribute) (absurd · hcurrent) u).2⟩
  · obtain ⟨root, hroot⟩ := Option.isSome_iff_exists.mp (Option.isSome_of_any hforwarder)
    rw [hroot, Option.any_some, Bool.and_eq_true, List.all_eq_true] at hforwarder
    have hlegacy : Scheme.prefixLength (Utf8.encode "_TPA__TF4main3fooFT_T_") = 0 := by decide
    exact ⟨root, hroot, fun u => (decode_append_suffix hroot
      (fun c hc => by simpa using hforwarder.1 c hc) (absurd hlegacy ·)
      (fun _ => of_decide_eq_true hforwarder.2) u).2⟩

/-- With a suffix behind it a forwarder of the current scheme encloses nothing, and a symbol of the
legacy scheme whose closure has an argument that fails for want of input is not decoded at all. -/
theorem decode_append_suffix_lost :
    (∃ root u, decode (Utf8.encode "$s4main3fooyyFTA") = some root ∧
      (∀ c ∈ root.children, c.kind ≠ .suffix) ∧
      decode (Utf8.encode "$s4main3fooyyFTA" ++ '.'.toUInt8 :: u) ≠
        some (branch .global
          (root.children ++ [ofText .suffix (Utf8.lossy ('.'.toUInt8 :: u))]))) ∧
    ∃ root u, decode (Utf8.encode "_TTSf0cl3fooC99___TF4main3barFT_T_") = some root ∧
      (∀ c ∈ root.children, c.kind ≠ .suffix) ∧
      decode (Utf8.encode "_TTSf0cl3fooC99___TF4main3barFT_T_" ++ '.'.toUInt8 :: u) = none := by
  have hforwarder : (decode (Utf8.encode "$s4main3fooyyFTA")).any (fun root =>
      root.children.all (·.kind != .suffix) && root.children.length == 1) = true := by
    decide +kernel
  have hsuffixed : (decode (Utf8.encode "$s4main3fooyyFTA" ++ '.'.toUInt8 ::
      Utf8.encode "cold")).map (·.children.length) = some 3 := by
    decide +kernel
  have hclosure : (decode (Utf8.encode "_TTSf0cl3fooC99___TF4main3barFT_T_")).any
      (·.children.all (·.kind != .suffix)) = true := by
    decide +kernel
  have hlost : decode (Utf8.encode "_TTSf0cl3fooC99___TF4main3barFT_T_" ++ '.'.toUInt8 ::
      List.replicate 120 'a'.toUInt8) = none := by
    rw [← Option.isNone_iff_eq_none]
    decide +kernel
  refine ⟨?_, ?_⟩
  · obtain ⟨root, hroot⟩ := Option.isSome_iff_exists.mp (Option.isSome_of_any hforwarder)
    rw [hroot, Option.any_some, Bool.and_eq_true, List.all_eq_true] at hforwarder
    refine ⟨root, Utf8.encode "cold", hroot, fun c hc => by simpa using hforwarder.1 c hc, ?_⟩
    intro hsame
    -- the trees differ in the number of their children
    have hlength : root.children.length = 1 := by simpa using hforwarder.2
    rw [hsame] at hsuffixed
    simp [branch, hlength] at hsuffixed
  · obtain ⟨root, hroot⟩ := Option.isSome_iff_exists.mp (Option.isSome_of_any hclosure)
    rw [hroot, Option.any_some, List.all_eq_true] at hclosure
    exact ⟨root, _, hroot, fun c hc => by simpa using hclosure c hc, hlost⟩

end SwiftMangling
