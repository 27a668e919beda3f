import Mathlib.Algebra.BigOperators.Group.List.Basic
import Mathlib.Algebra.Ring.Nat
import Mathlib.Data.List.GetD

/-!
# Segments of a flat list

A flat list that has a segment for each row: where the entries of a row are.
-/

namespace LoptVllm.Lib

open List

variable {α β : Type*}

theorem getElem?_flatMap_segment (f : α → List β) {rows : List α} {i j : ℕ} (h : i < rows.length)
    (hj : j < (f rows[i]).length) :
    (rows.flatMap f)[((rows.take i).map fun r => (f r).length).sum + j]? = (f rows[i])[j]? := by
  induction rows generalizing i with
  | nil => exact absurd h (Nat.not_lt_zero i)
  | cons r rows ih =>
    cases i with
    | zero =>
      rw [take_zero, map_nil, sum_nil, zero_add, flatMap_cons]
      exact getElem?_append_left hj
    | succ i =>
      rw [take_succ_cons, map_cons, sum_cons, flatMap_cons, add_assoc,
        getElem?_append_right (Nat.le_add_right _ _), Nat.add_sub_cancel_left]
      exact ih (Nat.lt_of_succ_lt_succ h) hj

theorem segment_lt (ns : List ℕ) {i j : ℕ} (h : i < ns.length) (hj : j < ns[i]) :
    (ns.take i).sum + j < ns.sum := by
  have hsplit : ns.sum = (ns.take i).sum + (ns[i] + (ns.drop (i + 1)).sum) := by
    rw [← sum_cons, ← drop_eq_getElem_cons, ← sum_append, take_append_drop]
  omega

end LoptVllm.Lib
