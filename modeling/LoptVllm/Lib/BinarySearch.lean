import Mathlib.Order.Bounds.Basic

/-!
# Binary search for a greatest element

A test that fails from some number on is probed at the middle of what is left of an interval, both
ends included, until nothing is left.
-/

namespace LoptVllm.BinarySearch

variable {p : ℤ → Bool} {lo hi left right result mid : ℤ}

/-- The search in `[left, right]`, where `result` is the greatest number that has passed. -/
def bisect (p : ℤ → Bool) (left right result : ℤ) : ℤ := if left ≤ right then
    if p ((left + right) / 2) then bisect p ((left + right) / 2 + 1) right ((left + right) / 2)
    else bisect p left ((left + right) / 2 - 1) result
  else result
termination_by (right + 1 - left).toNat

/-- In `[lo, hi]`, the test passes below every number at which it passes. -/
def DownClosed (p : ℤ → Bool) (lo hi : ℤ) : Prop :=
  ∀ m n, lo ≤ m → m ≤ n → n ≤ hi → p n = true → p m = true

/-- The numbers of `[lo, hi]` at which the test passes. -/
def Passing (p : ℤ → Bool) (lo hi : ℤ) : Set ℤ := fun n => lo ≤ n ∧ n ≤ hi ∧ p n = true

/-- What has passed has no gap below `left`, and nothing passes above `right`. -/
structure Bracketed (p : ℤ → Bool) (lo hi left right result : ℤ) : Prop where
  result_mem : result ∈ Passing p lo hi
  lo_le : lo ≤ left
  right_le : right ≤ hi
  left_le : left ≤ result + 1
  fails : ∀ n, right < n → n ≤ hi → p n = false

/-- Before the search: the lower end of the interval has passed. -/
theorem bracketed_start (h : lo ≤ hi) (hp : p lo = true) : Bracketed p lo hi lo hi lo where
  result_mem := ⟨le_rfl, h, hp⟩
  lo_le := le_rfl
  right_le := le_rfl
  left_le := by omega
  fails _ hn hle := absurd hle (not_le.2 hn)

theorem Bracketed.up (h : Bracketed p lo hi left right result) (hl : left ≤ mid)
    (hr : mid ≤ right) (hp : p mid = true) : Bracketed p lo hi (mid + 1) right mid where
  result_mem := ⟨h.lo_le.trans hl, hr.trans h.right_le, hp⟩
  lo_le := by have := h.lo_le; omega
  right_le := h.right_le
  left_le := le_rfl
  fails := h.fails

section

variable (hdown : DownClosed p lo hi)

include hdown

theorem Bracketed.down (h : Bracketed p lo hi left right result)
    (hl : left ≤ mid) (hr : mid ≤ right) (hp : p mid = false) :
    Bracketed p lo hi left (mid - 1) result where
  result_mem := h.result_mem
  lo_le := h.lo_le
  right_le := by have := h.right_le; omega
  left_le := h.left_le
  fails n hn hle := by
    -- a number from `mid` on cannot pass, as `mid` would
    by_contra hpass
    have := hdown mid n (h.lo_le.trans hl) (by omega) hle (by simpa using hpass)
    simp [hp] at this

theorem Bracketed.isGreatest (h : Bracketed p lo hi left right result) :
    IsGreatest (Passing p lo hi) (bisect p left right result) := by
  fun_induction bisect p left right result with
  | case1 left right result hle hp ih => exact ih (h.up (by omega) (by omega) hp)
  | case2 left right result hle hp ih =>
    exact ih (h.down hdown (by omega) (by omega) (by simpa using hp))
  | case3 left right result hgt =>
    refine ⟨h.result_mem, fun n hn => ?_⟩
    by_contra hlt
    have hleft := h.left_le
    have := h.fails n (by omega) hn.2.1
    simp [hn.2.2] at this

/-- **What the search finds.**  From an interval whose lower end passes, it finds the greatest
number at which the test passes. -/
theorem bisect_isGreatest (hle : lo ≤ hi) (hp : p lo = true) :
    IsGreatest (Passing p lo hi) (bisect p lo hi lo) :=
  (bracketed_start hle hp).isGreatest hdown

/-- If the lower end fails, no number passes. -/
theorem notMem_passing (hp : p lo = false) (n : ℤ) : n ∉ Passing p lo hi := by
  rintro ⟨hlo, hhi, hn⟩
  simp [hdown lo n le_rfl hlo hhi hn] at hp

end

end LoptVllm.BinarySearch
