/-!
# Where a run of characters ends

Names and outlines put texts behind each other without saying how long they are. A text can still be
told from what stands behind it if it is a run: all of it has a property that what stands behind it
does not begin with.
-/

namespace SwiftMangling

variable {α : Type} {p : α → Bool} {xs ys rest rest' : List α}

/-- What stands behind a run does not change how far the run goes. -/
theorem takeWhile_run (hxs : ∀ a ∈ xs, p a = true) (hrest : rest.takeWhile p = []) :
    (xs ++ rest).takeWhile p = xs := by
  rw [List.takeWhile_append_of_pos hxs, hrest, List.append_nil]

/-- Two runs with something behind them are equal together only if they are equal each. -/
theorem append_inj_of_run (hxs : ∀ a ∈ xs, p a = true) (hys : ∀ a ∈ ys, p a = true)
    (hrest : rest.takeWhile p = []) (hrest' : rest'.takeWhile p = [])
    (h : xs ++ rest = ys ++ rest') : xs = ys ∧ rest = rest' := by
  have hrun : xs = ys := by
    calc xs = (xs ++ rest).takeWhile p := (takeWhile_run hxs hrest).symm
      _ = (ys ++ rest').takeWhile p := by rw [h]
      _ = ys := takeWhile_run hys hrest'
  rw [hrun] at h
  exact ⟨hrun, List.append_cancel_left h⟩

end SwiftMangling
