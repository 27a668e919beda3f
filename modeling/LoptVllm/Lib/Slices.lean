import Mathlib.Data.List.Basic
import Mathlib.Order.Nat

/-!
# Slices of a list

The slices of Python: a bound that is negative counts from the end of the list, and a bound outside
of the list is its nearest end.
-/

namespace LoptVllm

variable {α : Type*} (xs : List α)

/-- `xs[i:]`. -/
def sliceFrom (i : ℤ) : List α := xs.drop (if i < 0 then i + xs.length else i).toNat

/-- `xs[:i]`. -/
def sliceTo (i : ℤ) : List α := xs.take (if i < 0 then i + xs.length else i).toNat

@[simp] theorem sliceFrom_natCast (n : ℕ) : sliceFrom xs n = xs.drop n := by
  unfold sliceFrom
  rw [if_neg (by omega), Int.toNat_natCast]

@[simp] theorem sliceTo_natCast (n : ℕ) : sliceTo xs n = xs.take n := by
  unfold sliceTo
  rw [if_neg (by omega), Int.toNat_natCast]

theorem length_sliceFrom_of_neg {i : ℤ} (h : i < 0) :
    (sliceFrom xs i).length = min (-i).toNat xs.length := by
  unfold sliceFrom
  rw [if_pos h, List.length_drop]
  omega

end LoptVllm
