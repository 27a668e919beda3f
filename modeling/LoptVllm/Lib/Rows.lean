import LoptVllm.Lib.OrderedDict
import Mathlib.Logic.Equiv.Basic

/-!
# Rows that are copied and exchanged

An array with a row for each owner, and a dictionary that is keyed by the row.
-/

namespace LoptVllm

open List Option Equiv Function

variable {α β : Type*}

/-- `a[dst] = a[src]`. -/
def copyRow (a : ℕ → α) (src dst : ℕ) : ℕ → α := update a dst (a src)

/-- `a[i], a[j] = a[j], a[i]`. -/
def swapRows (a : ℕ → α) (i j : ℕ) : ℕ → α := update (update a i (a j)) j (a i)

variable (row : ℕ → α) (start : ℕ) (l : List α)

/-- `row[start : start + len(l)] = l`. -/
def setSlice : ℕ → α :=
  fun j => if start ≤ j then (l[j - start]?).getD (row j) else row j

theorem copyRow_apply (a : ℕ → α) (src dst k : ℕ) :
    copyRow a src dst k = a (if k = dst then src else k) := by
  unfold copyRow
  by_cases h : k = dst <;> simp [h]

theorem swapRows_apply (a : ℕ → α) (i j k : ℕ) : swapRows a i j k = a (swap i j k) := by
  unfold swapRows
  by_cases hj : k = j
  · simp [hj]
  · by_cases hi : k = i
    · simp [hi, hi ▸ hj]
    · simp [hi, hj, swap_apply_of_ne_of_ne hi]

theorem setSlice_of_lt {start j : ℕ} (h : j < start) :
    setSlice row start l j = row j := if_neg (by omega)

theorem setSlice_add {l : List α} {j : ℕ} {a : α} (h : l[j]? = some a) :
    setSlice row start l (start + j) = a := by
  unfold setSlice
  simp [h]

theorem map_setSlice : (range (start + l.length)).map (setSlice row start l) =
      (range start).map row ++ l := by
  rw [range_add, map_append, List.map_map]
  refine congrArg₂ _ (map_congr_left fun j hj => ?_) ?_
  · exact setSlice_of_lt row l (mem_range.1 hj)
  · refine ext_getElem (by simp) fun j h₁ h₂ => ?_
    simpa using setSlice_add row start (getElem?_eq_getElem h₂)

namespace OrderedDict

variable (d : OrderedDict ℕ β)

/-- `swap_dict_values`. -/
def swapDictValues (key1 key2 : ℕ) : OrderedDict ℕ β :=
  let v1 := d.lookup key1
  let v2 := d.lookup key2
  let d := match v1 with
    | some v1 => d.setItem key2 v1
    | none => d.erase key2
  match v2 with
  | some v2 => d.setItem key1 v2
  | none => d.erase key1

/-- `d.pop(src, None)`, which becomes `d[dst]` if there was a value. -/
def moveDictValue (src dst : ℕ) : OrderedDict ℕ β := match d.lookup src with
  | some v => OrderedDict.setItem (d.erase src) dst v
  | none => d

/-- `if v is not None: d[k] = v`. -/
def setSome (k : ℕ) (v : Option β) : OrderedDict ℕ β := match v with
  | some v => d.setItem k v
  | none => d

theorem lookup_setSome (k a : ℕ) (v : Option β) :
    (d.setSome k v).lookup a = if a = k then v.or (d.lookup k) else d.lookup a := by
  unfold setSome
  cases v with
  | none =>
    by_cases ha : a = k
    · rw [if_pos ha, ha, none_or]
    · rw [if_neg ha]
  | some v => exact lookup_setItem d k a v

theorem lookup_swapDictValues (i j k : ℕ) :
    (d.swapDictValues i j).lookup k = d.lookup (swap i j k) := by
  have hput : ∀ (d : OrderedDict ℕ β) (v : Option β) (a b : ℕ), (match v with
        | some v => d.setItem a v
        | none => d.erase a).lookup b = if b = a then v else d.lookup b := by
    intro d v a b
    cases v with
    | none => exact lookup_erase' d a b
    | some v => exact lookup_setItem d a b v
  unfold swapDictValues
  simp only [hput]
  by_cases hi : k = i
  · rw [if_pos hi, hi, swap_apply_left]
  · by_cases hj : k = j
    · rw [if_neg hi, if_pos hj, hj, swap_apply_right]
    · rw [if_neg hi, if_neg hj, swap_apply_of_ne_of_ne hi hj]

theorem lookup_moveDictValue (src dst k : ℕ) : (d.moveDictValue src dst).lookup k =
      if k = dst then (d.lookup src).or (d.lookup dst) else if k = src then none else d.lookup k := by
  unfold moveDictValue
  cases hv : d.lookup src with
  | none =>
    split_ifs with h₁ h₂
    · rw [h₁, none_or]
    · rw [h₂, hv]
    · rfl
  | some v =>
    rw [lookup_setItem, lookup_erase', some_or]

theorem lookup_moveDictValue_of_none {d : OrderedDict ℕ β} {src dst k : ℕ}
    (hdst : d.lookup dst = none) (hk : k ≠ src) :
    (d.moveDictValue src dst).lookup k = d.lookup (if k = dst then src else k) := by
  rw [lookup_moveDictValue, hdst, or_none, if_neg hk]
  by_cases hkd : k = dst
  · have hrow : (if k = dst then src else k) = src := if_pos hkd
    rw [if_pos hkd]
    exact (congrArg (fun i => d.lookup i) hrow).symm
  · have hrow : (if k = dst then src else k) = k := if_neg hkd
    rw [if_neg hkd]
    exact (congrArg (fun i => d.lookup i) hrow).symm

end OrderedDict

end LoptVllm
