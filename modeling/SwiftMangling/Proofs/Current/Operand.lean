import SwiftMangling.Proofs.Current.Blind
import SwiftMangling.Proofs.Current.Run
import SwiftMangling.Proofs.Spelling

/-!
# Steps on a spelled input and a known stack

A production of the stack decoder reads what spells it and takes its operands from the stack. What
it does where both are known is said by `Turns`: it reads exactly the spelling, turns one stack into
another and finds its result, and nothing else of the state changes. `Declines` is the case of a
step that finds nothing and takes nothing. The rules below follow the operations of the decoder, so
that a production turns its spelling and its operands into a node step by step.
-/

namespace SwiftMangling.Current

open Decoding Node

/-- The state at another place and with another stack. -/
def State.moved (s : State) (c : Cursor) (stack : List Node) : State :=
  { s with cursor := c, stack := stack }

/-- A node of the given kind. -/
abbrev NodeOf (k : Kind) : Type :=
  { n : Node // n.kind = k }

/-- A node that may be there. -/
def NodeOf.toNodes {k : Kind} (m : Option (NodeOf k)) : List Node :=
  (m.map Subtype.val).toList

/-- The letter or digit at a distance from another one. -/
def letterFrom (start : Char) (distance : Nat) : UInt8 :=
  UInt8.ofNat (start.toNat + distance)

/-- The byte is one of the characters. -/
def oneOf (cs : List Char) (b : UInt8) : Bool :=
  cs.any (b == ·.toUInt8)

/-- A letter that may be there. -/
def optional (present : Bool) (c : Char) : List UInt8 :=
  if present then [c.toUInt8] else []

theorem clear_optional {p : UInt8 → Bool} {present : Bool} {c : Char}
    (h : p c.toUInt8 = false := by decide) : Clear p (optional present c) := by
  cases present with
  | false => exact .nil
  | true => exact .cons h

/-- As many lists as their elements, if none of them is empty. -/
theorem length_le_flatMap {γ δ : Type} {f : γ → List δ} (hf : ∀ x, f x ≠ []) (xs : List γ) :
    xs.length ≤ (xs.flatMap f).length := by
  induction xs with
  | nil => exact Nat.le_refl _
  | cons x xs ih =>
    have hx := List.length_pos_iff.mpr (hf x)
    rw [List.flatMap_cons, List.length_append, List.length_cons]
    omega

section Turns

variable {α β : Type} {r : Config} {s : State} {d : Decoder α} {f : α → Decoder β} {a : α} {b : β}
  {p q rest : List UInt8} {stack stack' stack'' : List Node}

/-- In front of `rest`, the decoder reads `spelling`, turns `stack` into `stack'` and finds `a`. -/
def Turns (r : Config) (s : State) (d : Decoder α) (spelling rest : List UInt8)
    (stack stack' : List Node) (a : α) : Prop :=
  ∀ before, d r (s.moved ⟨before, spelling ++ rest⟩ stack) =
    (some a, s.moved ⟨spelling.reverse ++ before, rest⟩ stack')

/-- In front of `rest` and with `stack`, the decoder fails and leaves everything as it was. -/
def Declines (r : Config) (s : State) (d : Decoder α) (rest : List UInt8) (stack : List Node) :
    Prop :=
  ∀ before, d r (s.moved ⟨before, rest⟩ stack) = (none, s.moved ⟨before, rest⟩ stack)

namespace Declines

theorem bind (hd : Declines r s d rest stack) : Declines r s (d >>= f) rest stack := by
  intro before
  rw [run_bind, hd before]

/-- What was looked at does not fit. -/
theorem step (hd : Turns r s d [] rest stack stack a) (hf : Declines r s (f a) rest stack) :
    Declines r s (d >>= f) rest stack := by
  intro before
  have hfirst := hd before
  rw [List.nil_append, List.reverse_nil, List.nil_append] at hfirst
  rw [run_bind_of_eq hfirst, hf before]

theorem ofOption {m : Option α} (h : m = none) : Declines r s (ofOption m) rest stack := by
  subst h
  exact fun _ => rfl

end Declines

namespace Turns

theorem ret : Turns r s (pure a) [] rest stack stack a :=
  fun _ => rfl

theorem bind (hd : Turns r s d p (q ++ rest) stack stack' a)
    (hf : Turns r s (f a) q rest stack' stack'' b) :
    Turns r s (d >>= f) (p ++ q) rest stack stack'' b := by
  intro before
  have hfirst := hd before
  have hnext := hf (p.reverse ++ before)
  rw [← List.append_assoc] at hfirst
  rw [run_bind_of_eq hfirst, hnext, List.reverse_append, List.append_assoc]

/-- A step that reads nothing. -/
theorem step (hd : Turns r s d [] (q ++ rest) stack stack' a)
    (hf : Turns r s (f a) q rest stack' stack'' b) :
    Turns r s (d >>= f) q rest stack stack'' b :=
  bind hd hf

/-- A step after which nothing is read. -/
theorem last (hd : Turns r s d p rest stack stack' a)
    (hf : Turns r s (f a) [] rest stack' stack'' b) :
    Turns r s (d >>= f) p rest stack stack'' b := by
  have h := bind (q := []) hd hf
  rwa [List.append_nil] at h

/-- A step that depends on a flag. -/
theorem bind_ite {x : Bool} {e : Decoder α}
    (hd : Turns r s (if x then d else e) p (q ++ rest) stack stack' a)
    (hf : Turns r s (f a) q rest stack' stack'' b) :
    Turns r s (if x then d >>= f else e >>= f) (p ++ q) rest stack stack'' b := by
  cases x with
  | false => exact bind hd hf
  | true => exact bind hd hf

theorem attempt (hd : Turns r s d p rest stack stack' a) :
    Turns r s (attempt d) p rest stack stack' (some a) := by
  intro before
  rw [run_attempt, hd before]

theorem attempt_none (hd : Declines r s d rest stack) :
    Turns r s (Decoding.attempt d) [] rest stack stack none := by
  intro before
  have h := hd before
  rw [run_attempt, List.nil_append, h]
  rfl

theorem require {x : Bool} (h : x = true) : Turns r s (require x) [] rest stack stack () := by
  subst h
  exact ret

theorem ofOption {m : Option α} (h : m = some a) :
    Turns r s (ofOption m) [] rest stack stack a := by
  subst h
  exact fun _ => rfl

/-! ### Reading -/

/-- What only reads leaves the stack alone. -/
theorem of_reads (h : ∀ s, ReadsExactly r s d p rest a) : Turns r s d p rest stack stack a :=
  h { s with stack := stack }

theorem nextByte {x : UInt8} : Turns r s nextByte [x] rest stack stack x :=
  fun _ => rfl

theorem nextChar {x : UInt8} : Turns r s nextChar [x] rest stack stack (charOfByte x) :=
  fun _ => rfl

theorem nextIf {c : Char} : Turns r s (nextIf c) [c.toUInt8] rest stack stack true :=
  of_reads fun _ => .nextIf

theorem nextIf_false {c : Char} (h : Clear (· == c.toUInt8) rest) :
    Turns r s (Decoding.nextIf c) [] rest stack stack false :=
  of_reads fun _ => .nextIf_false h

theorem expect {c : Char} : Turns r s (expect c) [c.toUInt8] rest stack stack () :=
  last nextIf (require rfl)

theorem peekChar? : Turns r s peekChar? [] rest stack stack (rest.head?.map charOfByte) :=
  fun _ => rfl

theorem remaining : Turns r s remaining [] rest stack stack rest.length :=
  fun _ => rfl

theorem natural {n : Nat} (hn : n < UInt64.size) (h : Clear Cursor.isDigit rest) :
    Turns r s natural (decimal n) rest stack stack n :=
  of_reads fun _ => .natural hn h

/-- A run is read to its end. -/
theorem takeWhile {x : UInt8 → Bool} {run : List UInt8} (hrun : ∀ y ∈ run, x y = true)
    (h : Clear x rest) :
    Turns r s (takeWhile x) run rest stack stack (run.map charOfByte) := by
  intro before
  have htake : (run ++ rest).takeWhile x = run := by
    rw [List.takeWhile_append_of_pos hrun]
    cases rest with
    | nil => simp
    | cons y rest => simp [h y rfl]
  have hread : takeBytesWhile x r (s.moved ⟨before, run ++ rest⟩ stack) =
      (some run, s.moved ⟨run.reverse ++ before, rest⟩ stack) := by
    show (some ((run ++ rest).takeWhile x), s.moved ((⟨before, run ++ rest⟩ : Cursor).skip
      ((run ++ rest).takeWhile x).length) stack) = _
    rw [htake, Cursor.skip_append]
  exact run_bind_of_eq hread

/-- A character that is looked at and then read by what it does not belong to. -/
theorem unread {x : UInt8} {g : Char → Decoder α} (hx : (p ++ rest).head? = some x)
    (hg : g (charOfByte x) = pushBack >>= fun _ => d) (hd : Turns r s d p rest stack stack' a) :
    Turns r s (Decoding.nextChar >>= g) p rest stack stack' a := by
  intro before
  obtain ⟨tail, htail⟩ := List.head?_eq_some_iff.mp hx
  have hread : Decoding.nextChar r (s.moved ⟨before, p ++ rest⟩ stack) =
      (some (charOfByte x), s.moved ⟨x :: before, tail⟩ stack) := by
    rw [htail]
    rfl
  -- what was read is put back, so the other decoder starts where this one did
  have hback : pushBack r (s.moved ⟨x :: before, tail⟩ stack) =
      (some (), s.moved ⟨before, p ++ rest⟩ stack) := by
    rw [htail]
    rfl
  rw [run_bind_of_eq hread, hg, run_bind_of_eq hback, hd before]

/-- A letter that can be left out is found exactly if it is there. -/
theorem nextIf_optional {present : Bool} {c : Char} (h : Clear (· == c.toUInt8) rest) :
    Turns r s (Decoding.nextIf c) (optional present c) rest stack stack present := by
  cases present with
  | false => exact nextIf_false h
  | true => exact nextIf

end Turns

/-! ### Repetition -/

/-- The decoder reads the spelling of any item in front of what is clear of `p`, and finds `result`
there. Spellings are themselves clear of `p`, so items can follow each other. -/
structure ReadsEach {γ : Type} (r : Config) (s : State) (d : Decoder α) (spelling : γ → List UInt8)
    (result : γ → α) (p : UInt8 → Bool) : Prop where
  reads : ∀ x rest stack, Clear p rest → Turns r s d (spelling x) rest stack stack (result x)
  nonempty : ∀ x, spelling x ≠ []
  clear : ∀ x, Clear p (spelling x)

namespace ReadsEach

variable {γ : Type} {spelling : γ → List UInt8} {result : γ → α} {x : UInt8 → Bool}

theorem clear_flatMap (h : ReadsEach r s d spelling result x) (xs : List γ) {rest : List UInt8}
    (hrest : Clear x rest) : Clear x (xs.flatMap spelling ++ rest) :=
  (Clear.flatMap h.clear xs).append hrest

/-- Items are read while there are any, and the loop stops where none is read. -/
theorem many (h : ReadsEach r s d spelling result x) (hrest : Clear x rest)
    (hend : Declines r s d rest stack) {n : Nat} {xs : List γ} (hn : xs.length ≤ n) :
    Turns r s (many n d) (xs.flatMap spelling) rest stack stack (xs.map result) := by
  -- by induction on the fuel; each item takes one, and what follows the last one is declined
  induction n generalizing xs with
  | zero =>
    obtain rfl : xs = [] := List.length_eq_zero_iff.mp (Nat.le_zero.mp hn)
    exact .ret
  | succ n ih =>
    rw [Decoding.many]
    cases xs with
    | nil => exact .step (.attempt_none hend) .ret
    | cons y xs =>
      have hy := h.reads y _ stack (h.clear_flatMap xs hrest)
      exact .bind (.attempt hy) (.last (ih (Nat.le_of_succ_le_succ hn)) .ret)

/-- Items are read as far as they go, and then what follows them. -/
theorem bind_many (h : ReadsEach r s d spelling result x) {xs : List γ} {f : List α → Decoder β}
    (hrest : Clear x (q ++ rest)) (hend : Declines r s d (q ++ rest) stack)
    (hf : Turns r s (f (xs.map result)) q rest stack stack' b) :
    Turns r s (remaining >>= fun n => Decoding.many n d >>= f) (xs.flatMap spelling ++ q) rest stack
      stack' b := by
  have hlength := length_le_flatMap h.nonempty xs
  refine .step .remaining (.bind (h.many hrest hend ?_) hf)
  simp only [List.length_append]
  omega

/-- Items are read up to what stops them, which no item starts with. -/
theorem manyUntil (h : ReadsEach r s d spelling result x) {stop : Char}
    (hstop : x stop.toUInt8 = false) (hitem : ∀ y, Clear (· == stop.toUInt8) (spelling y))
    (xs : List γ) :
    Turns r s (manyUntil stop d) (xs.flatMap spelling ++ [stop.toUInt8]) rest stack stack
      (xs.map result) := by
  -- by induction on the fuel, which has to last for the stop as well
  have hfrom (n : Nat) (hn : xs.length < n) : Turns r s (manyUntilFrom n stop d)
      (xs.flatMap spelling ++ [stop.toUInt8]) rest stack stack (xs.map result) := by
    induction n generalizing xs with
    | zero => cases hn
    | succ n ih =>
      rw [manyUntilFrom]
      cases xs with
      | nil => exact .last .nextIf .ret
      | cons y xs =>
        have hclear : Clear x (xs.flatMap spelling ++ ([stop.toUInt8] ++ rest)) :=
          h.clear_flatMap xs (.cons hstop)
        rw [List.flatMap_cons, List.append_assoc]
        refine .step (.nextIf_false ?_) ?_
        · rw [List.append_assoc]
          exact (hitem y).append_left (h.nonempty y)
        · rw [← List.append_assoc] at hclear
          exact .bind (h.reads y _ stack hclear)
            (.last (ih xs (Nat.lt_of_succ_lt_succ hn)) .ret)
  refine .step .remaining (hfrom _ ?_)
  have hlength := length_le_flatMap h.nonempty xs
  simp only [List.length_append]
  omega

end ReadsEach

namespace Turns

/-! ### The stack -/

theorem push {n : Node} : Turns r s (push n) [] rest stack (n :: stack) () :=
  fun _ => rfl

theorem stackSize : Turns r s stackSize [] rest stack stack stack.length :=
  fun _ => rfl

theorem popKind {n : Node} {k : Kind} (h : n.kind = k) :
    Turns r s (popKind k) [] rest (n :: stack) stack n := by
  subst h
  exact fun _ => if_pos (beq_self_eq_true n.kind)

end Turns

/-- On top of the stack there is no node of kind `k`. -/
def Bare (k : Kind) (stack : List Node) : Prop :=
  ∀ n ∈ stack.head?, n.kind ≠ k

theorem Bare.cons {k : Kind} {n : Node} (h : n.kind ≠ k) : Bare k (n :: stack) := by
  rintro _ ⟨⟩
  exact h

/-- A node of another kind on top does not bring up the mark. -/
theorem Bare.toNodes {k k' : Kind} {m : Option (NodeOf k')} (hk : k' ≠ k) (h : Bare k stack) :
    Bare k (NodeOf.toNodes m ++ stack) := by
  cases m with
  | none => exact h
  | some n => exact .cons (by rwa [n.property])

/-- Nothing is taken where no node of the kind is on top. -/
theorem declines_popKind {k : Kind} (h : Bare k stack) : Declines r s (popKind k) rest stack := by
  intro before
  cases stack with
  | nil => rfl
  | cons n stack => exact if_neg (by simpa using h n rfl)

namespace Turns

theorem popKind? {n : Node} {k : Kind} (h : n.kind = k) :
    Turns r s (popKind? k) [] rest (n :: stack) stack (some n) :=
  attempt (popKind h)

theorem popKind?_none {k : Kind} (h : Bare k stack) :
    Turns r s (Current.popKind? k) [] rest stack stack none :=
  attempt_none (declines_popKind h)

/-- A node that may be there is taken if it is. -/
theorem popKind?_toNodes {k : Kind} {m : Option (NodeOf k)} (h : Bare k stack) :
    Turns r s (Current.popKind? k) [] rest (NodeOf.toNodes m ++ stack) stack
      (m.map Subtype.val) := by
  cases m with
  | none => exact popKind?_none h
  | some n => exact popKind? n.property

theorem popMarker {n : Node} {k : Kind} (h : n.kind = k) :
    Turns r s (popMarker k) [] rest (n :: stack) stack true :=
  last (popKind? h) ret

theorem popMarker_false {k : Kind} (h : Bare k stack) :
    Turns r s (Current.popMarker k) [] rest stack stack false :=
  last (popKind?_none h) ret

/-- All nodes of a kind are taken, down to the first of another kind. -/
theorem popRun {k : Kind} {ns : List Node} (hns : ∀ n ∈ ns, n.kind = k) (h : Bare k stack) :
    Turns r s (popRun (· == k)) [] rest (ns.reverse ++ stack) stack ns := by
  have htop : ∀ n ∈ ns.reverse, (n.kind == k) = true := by simpa using hns
  have hbelow : stack.takeWhile (·.kind == k) = [] ∧ stack.dropWhile (·.kind == k) = stack := by
    cases stack with
    | nil => exact ⟨rfl, rfl⟩
    | cons n stack => simp [h n rfl]
  -- the nodes are taken from the top, so they come out in reverse
  have hmany : Turns r s (many (ns.reverse ++ stack).length (popWhere (· == k))) [] rest
      (ns.reverse ++ stack) stack ns.reverse := by
    intro before
    refine (many_popWhere (s := s.moved ⟨before, rest⟩ _) _ (Nat.le_refl _)).trans ?_
    dsimp only [State.moved]
    rw [List.takeWhile_append_of_pos htop, List.dropWhile_append_of_pos htop, hbelow.1, hbelow.2,
      List.append_nil]
    rfl
  refine step stackSize (last hmany ?_)
  rw [List.reverse_reverse]
  exact ret

end Turns

end Turns

end SwiftMangling.Current
