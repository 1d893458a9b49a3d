import SwiftMangling.Proofs.Legacy.Local
import SwiftMangling.Proofs.Range.Text

/-!
# Accesses of the descent decoder

A text that `_` ends stops one byte before the place behind the `_`, and a level of nesting that
has been entered is left again. The place is behind a byte that was read. The depth is one more than
it was, because every production leaves it as it found it, so that it is not 0 where it is lowered;
this is a fact about whole runs, by induction on how many productions stand inside of each other.
-/

namespace SwiftMangling.Indexed.Legacy

open Access Decoding
open SwiftMangling.Legacy

variable {fault : Fault (Decoding Grammar State)} {α : Type} {d : Decoder α} {n : Nat}

/-! ## Texts -/

/-- `SwiftMangling.Legacy.terminatedText` by the places where the text starts and ends. -/
def terminatedText (fault : Fault (Decoding Grammar State)) : Decoder String := do
  let start ← look Cursor.position
  let _ ← takeBytesWhile (· != '_'.toUInt8)
  expect '_'
  let finish ← found fault (sub (← look Cursor.position) 1)
  let bytes ← look Cursor.bytes
  ofOption ((Access.slice bytes start finish).bind Utf8.decode?)

/-- What is read up to the `_` lies between the two places. -/
theorem slice_bytes (before run rest : List UInt8) (b : UInt8) :
    Access.slice (⟨b :: (run.reverse ++ before), rest⟩ : Cursor).bytes before.length
      (before.length + run.length) = some run := by
  have hbytes : (⟨b :: (run.reverse ++ before), rest⟩ : Cursor).bytes =
      before.reverse ++ (run ++ b :: rest) := by
    simp [Cursor.bytes]
  have hlength : before.length = before.reverse.length := by simp
  rw [hbytes, slice_of_le (Nat.le_add_right ..) (by simp), hlength, List.take_length_add_append,
    List.drop_left', List.take_left']
  all_goals rfl

theorem run_takeBytesWhile (p : UInt8 → Bool) (g : Grammar) (s : State) :
    takeBytesWhile p g s = (some (s.cursor.rest.takeWhile p), { s with cursor :=
      ⟨(s.cursor.rest.takeWhile p).reverse ++ s.cursor.before, s.cursor.rest.dropWhile p⟩ }) := by
  obtain ⟨⟨before, rest⟩, substitutions, depth⟩ := s
  show (some (rest.takeWhile p), State.mk ((⟨before, rest⟩ : Cursor).skip
    (rest.takeWhile p).length) substitutions depth) = _
  rw [Cursor.skip_eq, take_length_takeWhile, drop_length_takeWhile]

theorem terminatedText_eq : terminatedText fault = SwiftMangling.Legacy.terminatedText := by
  funext g s
  have hread := run_takeBytesWhile (· != '_'.toUInt8) g s
  have hstop := List.head?_dropWhile_not (· != '_'.toUInt8) s.cursor.rest
  rw [terminatedText, SwiftMangling.Legacy.terminatedText, run_bind, run_look]
  dsimp only
  rw [run_bind_of_eq hread, run_bind_of_eq hread]
  generalize s.cursor.rest.takeWhile (· != '_'.toUInt8) = run
  revert hstop
  rcases s.cursor.rest.dropWhile (· != '_'.toUInt8) with _ | ⟨b, tail⟩ <;> intro hstop
  · rfl
  · -- the `_` has been read, so the place is behind a byte
    obtain rfl : b = '_'.toUInt8 := by simpa using hstop
    have hexpect : (expect '_' : Decoder Unit) g
        { s with cursor := ⟨run.reverse ++ s.cursor.before, '_'.toUInt8 :: tail⟩ } =
          (some (), { s with cursor := ⟨'_'.toUInt8 :: (run.reverse ++ s.cursor.before), tail⟩ }) :=
      rfl
    let before := '_'.toUInt8 :: (run.reverse ++ s.cursor.before)
    have hplace : sub before.length 1 = some (s.cursor.before.length + run.length) := by
      rw [sub_of_le (by simp [before])]
      simp [before, Nat.add_comm]
    have hslice := slice_bytes s.cursor.before run tail '_'.toUInt8
    rw [run_bind_of_eq hexpect, run_bind_of_eq hexpect, run_bind, run_look]
    show (found fault (sub before.length 1) >>= _) g _ = _
    rw [hplace, found_some, pure_bind]
    exact congrArg (fun text : Option (List UInt8) => (text.bind Utf8.decode?, _)) hslice

/-! ## Nesting -/

/-- `SwiftMangling.Legacy.nested` with the difference that leaves the level. -/
def nested (fault : Fault (Decoding Grammar State)) (d : Decoder α) : Decoder α :=
  fun g s =>
    if maxDepth ≤ s.depth then (none, s)
    else
      let (a, s') := d g { s with depth := s.depth + 1 }
      match sub s'.depth 1 with
      | some depth => (a, { s' with depth := depth })
      | none => fault α g s'

/-- `SwiftMangling.Legacy.rule` with the differences that leave levels. -/
def rule (fault : Fault (Decoding Grammar State)) : Production → Decoder Node
  | .type => do return .typeOf (← nested fault contentRule)
  | .content => contentRule
  | .context => nested fault contextContent
  | .archetype => archetypeRule
  | .global => nested fault global

/-- `SwiftMangling.Legacy.parse` with the differences that leave levels. -/
def parse (fault : Fault (Decoding Grammar State)) : Nat → Production → Decoding Unit State Node
  | 0, _ => failure
  | n + 1, p => fun _ s => rule fault p ⟨parse fault n⟩ s

/-- A whole run with the differences that leave levels, and the state in which it ends. -/
def run (fault : Fault (Decoding Grammar State)) (d : Decoder α) (input : List UInt8) :
    Option α × State :=
  d ⟨parse fault (input.length + 1)⟩ (State.start input)

/-- Every production is alike itself, however many may stand inside of it. -/
theorem alike_self (n N : Nat) : Grammar.Alike N ⟨SwiftMangling.Legacy.parse n⟩
    ⟨SwiftMangling.Legacy.parse n⟩ := by
  induction n generalizing N with
  | zero => exact fun _ _ _ _ => inferInstanceAs (Paired _ _ _ _ _ failure failure)
  | succ n ih =>
    exact fun p M D _ => ⟨fun _ hx hl hs => (portable_rule p).run (ih M) hx hl hs⟩

/-- What is read inside of a level leaves the depth as it found it. -/
theorem depth_of_portable {s : State} (hd : ∀ N D, Portable N D 0 d) :
    (d ⟨SwiftMangling.Legacy.parse n⟩ s).2.depth = s.depth := by
  have hs : Beside (AtDepth s.depth) s.cursor.before s.cursor.before s.cursor.rest [] s s :=
    ⟨rfl, rfl, rfl, rfl⟩
  obtain ⟨-, _, -, hend⟩ :=
    (hd s.cursor.rest.length s.depth).run (alike_self n _) (Nat.le_refl _) (Nat.zero_le _) hs
  exact hend.keeps

/-- A level that is left has been entered. -/
theorem nested_eq {s : State} (hd : ∀ N D, Portable N D 0 d) :
    nested fault d ⟨SwiftMangling.Legacy.parse n⟩ s =
      SwiftMangling.Legacy.nested d ⟨SwiftMangling.Legacy.parse n⟩ s := by
  unfold nested SwiftMangling.Legacy.nested
  have hdepth : (d ⟨SwiftMangling.Legacy.parse n⟩ { s with depth := s.depth + 1 }).2.depth =
      s.depth + 1 := depth_of_portable hd
  split
  · rfl
  · revert hdepth
    rcases d ⟨SwiftMangling.Legacy.parse n⟩ { s with depth := s.depth + 1 } with ⟨a, s'⟩
    intro hdepth
    have hleave : sub s'.depth 1 = some (s'.depth - 1) := sub_of_le (hdepth ▸ Nat.le_add_left ..)
    simp only [hleave]

theorem rule_eq (p : Production) (s : State) : rule fault p ⟨SwiftMangling.Legacy.parse n⟩ s =
    SwiftMangling.Legacy.rule p ⟨SwiftMangling.Legacy.parse n⟩ s := by
  cases p with
  | type =>
    show (nested fault contentRule >>= _) _ _ = (SwiftMangling.Legacy.nested contentRule >>= _) _ _
    rw [run_bind, run_bind, nested_eq (d := contentRule) fun _ _ => inferInstance]
  | content => rfl
  | context => exact nested_eq (d := contextContent) fun _ _ => inferInstance
  | archetype => rfl
  | global => exact nested_eq (d := global) fun _ _ => inferInstance

theorem parse_eq (n : Nat) : parse fault n = SwiftMangling.Legacy.parse n := by
  induction n with
  | zero => rfl
  | succ n ih =>
    funext p _ s
    show rule fault p ⟨parse fault n⟩ s = _
    rw [ih]
    exact rule_eq p s

theorem run_eq (d : Decoder α) (input : List UInt8) : run fault d input =
    d ⟨SwiftMangling.Legacy.parse (input.length + 1)⟩ (State.start input) := by
  rw [run, parse_eq]

end SwiftMangling.Indexed.Legacy
