import SwiftMangling.Kind

/-!
# Checking all kinds

There are many kinds of nodes, and what relates two classes of them is checked kind by kind. The
check is a computation over the numbers of the kinds (`of_check`).
-/

namespace SwiftMangling.Kind

/-- The number of kinds. -/
def total : Nat := 289

theorem ctorIdx_lt_total (k : Kind) : k.ctorIdx < total := by
  cases k <;> exact Nat.le_of_ble_eq_true rfl

/-- Whether every kind of the class `p` is in the class `q`. -/
def check (p q : Kind → Bool) : Bool :=
  (List.range total).all fun i => !p (ofNat i) || q (ofNat i)

/-- A kind of a class that was checked. -/
theorem of_check {p q : Kind → Bool} {k : Kind} (hk : p k = true) (h : check p q = true) :
    q k = true := by
  have hi := List.all_eq_true.mp h k.ctorIdx (List.mem_range.mpr k.ctorIdx_lt_total)
  simpa [ofNat_ctorIdx, hk] using hi

end SwiftMangling.Kind
