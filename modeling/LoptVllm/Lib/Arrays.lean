import Mathlib.Data.List.Basic
import Mathlib.Order.Lattice

/-!
# Searching an array

An array is a function of its index, with its size beside it.
-/

namespace LoptVllm.Lib

open List Function Nat

section

variable {β : Type*} [LinearOrder β] {n : ℕ} {f : ℕ → β}
variable (n)
variable (f)

/-- The first index of the least entry. -/
def argmin : ℕ :=
  (range n).foldl (fun best j => if f j < f best then j else best) 0

/-- The first index of the greatest entry. -/
def argmax : ℕ :=
  (range n).foldl (fun best j => if f best < f j then j else best) 0

theorem argmin_succ : argmin (n + 1) f = if f n < f (argmin n f) then n else argmin n f := by
  unfold argmin
  rw [range_succ, foldl_append]
  rfl

theorem argmax_succ : argmax (n + 1) f = if f (argmax n f) < f n then n else argmax n f := by
  unfold argmax
  rw [range_succ, foldl_append]
  rfl

variable {f}
variable {n}

theorem argmin_lt (hn : 0 < n) : argmin n f < n := by
  induction n with
  | zero => cases hn
  | succ n ih =>
    rw [argmin_succ]
    split_ifs
    · exact lt_succ_self n
    · rcases Nat.eq_zero_or_pos n with rfl | hpos
      · exact Nat.zero_lt_one
      · exact (ih hpos).trans (lt_succ_self n)

theorem argmax_lt (hn : 0 < n) : argmax n f < n := by
  induction n with
  | zero => cases hn
  | succ n ih =>
    rw [argmax_succ]
    split_ifs
    · exact lt_succ_self n
    · rcases Nat.eq_zero_or_pos n with rfl | hpos
      · exact Nat.zero_lt_one
      · exact (ih hpos).trans (lt_succ_self n)

theorem argmin_le {j : ℕ} (hj : j < n) : f (argmin n f) ≤ f j := by
  induction n with
  | zero => cases hj
  | succ n ih =>
    rw [argmin_succ]
    rcases Nat.lt_succ_iff_lt_or_eq.1 hj with hj | rfl
    · split_ifs with hlt
      · exact hlt.le.trans (ih hj)
      · exact ih hj
    · split_ifs with hlt
      · exact le_refl _
      · exact not_lt.1 hlt

theorem le_argmax {j : ℕ} (hj : j < n) : f j ≤ f (argmax n f) := by
  induction n with
  | zero => cases hj
  | succ n ih =>
    rw [argmax_succ]
    rcases Nat.lt_succ_iff_lt_or_eq.1 hj with hj | rfl
    · split_ifs with hlt
      · exact (ih hj).trans hlt.le
      · exact ih hj
    · split_ifs with hlt
      · exact le_refl _
      · exact not_lt.1 hlt

theorem argmin_first {j : ℕ} (hj : j < argmin n f) : f (argmin n f) < f j := by
  induction n with
  | zero => cases hj
  | succ n ih =>
    rw [argmin_succ] at hj ⊢
    by_cases hlt : f n < f (argmin n f)
    · rw [if_pos hlt] at hj ⊢
      exact hlt.trans_le (argmin_le hj)
    · rw [if_neg hlt] at hj ⊢
      exact ih hj

end

/-- The last index with a property. -/
def lastIndex (n : ℕ) (p : ℕ → Bool) : Option ℕ := (range n).reverse.find? p

variable {p : ℕ → Bool}

theorem lastIndex_spec {n : ℕ} {i : ℕ} (h : lastIndex n p = some i) : i < n ∧ p i = true :=
  ⟨mem_range.1 (mem_reverse.1 (mem_of_find?_eq_some h)), find?_some h⟩

theorem lastIndex_eq_none {n : ℕ} : lastIndex n p = none ↔ ∀ i < n, p i = false := by
  simp [lastIndex]

theorem lastIndex_eq_some {n : ℕ} {i : ℕ} (hi : i < n) (hp : p i = true)
    (hunique : ∀ j < n, p j = true → j = i) : lastIndex n p = some i := by
  cases h : lastIndex n p with
  | none => exact absurd hp (by simp [lastIndex_eq_none.1 h i hi])
  | some j => rw [hunique j (lastIndex_spec h).1 (lastIndex_spec h).2]

theorem update_update_apply {ι κ β : Type*} [DecidableEq ι] [DecidableEq κ] (f : ι → κ → β) (i : ι) (j : κ)
    (v : β) (i' : ι) (j' : κ) : update f i (update (f i) j v) i' j' =
      if i' = i ∧ j' = j then v else f i' j' := by
  by_cases hi : i' = i
  · subst hi
    rw [update_self, update_apply]
    simp [true_and]
  · rw [update_of_ne hi, if_neg fun h => hi h.1]

end LoptVllm.Lib
