import Mathlib.Data.List.Nodup
import Mathlib.Data.List.Perm.Basic

/-!
# Lists that are overwritten
-/

namespace LoptVllm

open List

variable {α : Type*}

/-- The entries from an index on are overwritten. -/
def overwrite (l : List α) (i : ℕ) : List α → List α
  | [] => l
  | x :: xs => overwrite (l.set i x) (i + 1) xs

/-- Entries are overwritten, one after the other. -/
def setAll (l : List α) (sets : List (ℕ × α)) : List α := sets.foldl (fun l p => l.set p.1 p.2) l

variable (xs : List α)

@[simp] theorem length_overwrite :
    ∀ (l : List α) (i : ℕ), (overwrite l i xs).length = l.length := by
  induction xs with
  | nil => exact fun l i => rfl
  | cons x xs ih => exact fun l i => (ih _ _).trans length_set

theorem overwrite_append (xs ys : List α) : ∀ (l : List α) (i : ℕ),
    overwrite l i (xs ++ ys) = overwrite (overwrite l i xs) (i + xs.length) ys := by
  induction xs with
  | nil => exact fun l i => rfl
  | cons x xs ih =>
    intro l i
    rw [cons_append, overwrite, overwrite, ih, length_cons]
    congr 1
    omega

theorem getElem?_overwrite {j : ℕ} : ∀ (l : List α) (i : ℕ),
    (j < i ∨ i + xs.length ≤ j) → (overwrite l i xs)[j]? = l[j]? := by
  induction xs with
  | nil => exact fun l i _ => rfl
  | cons x xs ih =>
    intro l i h
    rw [length_cons] at h
    rw [overwrite, ih _ _ (by omega), getElem?_set_ne (by omega)]

theorem overwrite_block : ∀ (a b c : List α), xs.length = b.length →
    overwrite (a ++ (b ++ c)) a.length xs = a ++ (xs ++ c) := by
  induction xs with
  | nil =>
    intro a b c h
    rw [length_eq_zero_iff.1 h.symm]
    rfl
  | cons x xs ih =>
    intro a b c h
    cases b with
    | nil => cases h
    | cons y b =>
      have hset : (a ++ (y :: b ++ c)).set a.length x = (a ++ [x]) ++ (b ++ c) := by simp
      have hrec := ih (a ++ [x]) b c (Nat.succ.inj h)
      rw [length_append, length_singleton] at hrec
      rw [overwrite, hset, hrec]
      simp

theorem take_overwrite {l xs : List α} (h : xs.length ≤ l.length) :
    (overwrite l 0 xs).take xs.length = xs := by
  have hblock := overwrite_block xs [] (l.take xs.length) (l.drop xs.length) (by simp [h])
  rw [take_append_drop] at hblock
  simp only [nil_append, length_nil] at hblock
  rw [hblock, take_left]

/-- The order in which entries are overwritten does not matter if they are different. -/
theorem setAll_perm {sets sets' : List (ℕ × α)} (hperm : sets.Perm sets')
    (hnodup : (sets.map Prod.fst).Nodup) (l : List α) : setAll l sets = setAll l sets' := by
  refine hperm.foldl_eq' (fun p hp q hq l => ?_) l
  by_cases h : p.1 = q.1
  · rw [inj_on_of_nodup_map hnodup hp hq h]
  · exact set_comm _ _ h

end LoptVllm
