import Mathlib.Order.Bounds.Basic

/-!
# Descending to the greatest common element

A value is rounded down to the first of several sets, then to the second, and so on. Rounds are
repeated until one of them leaves the value as it is. The sets need not be downward closed, so a
later rounding can leave an earlier set.
-/

namespace LoptVllm.Descending

open List

variable {α : Type*} [PartialOrder α] {V : Set α} {Vs : List (Set α)} {m x y : α}

/-- `y` is the greatest element of `V` that is at most `m`. -/
def IsFloor (V : Set α) (m y : α) : Prop := IsGreatest (V ∩ Set.Iic m) y

theorem IsFloor.mem (h : IsFloor V m y) : y ∈ V := h.1.1

theorem IsFloor.le (h : IsFloor V m y) : y ≤ m := h.1.2

theorem IsFloor.le_of_mem (h : IsFloor V m y) (hx : x ∈ V) (hxm : x ≤ m) : x ≤ y := h.2 ⟨hx, hxm⟩

theorem isFloor_self (h : m ∈ V) : IsFloor V m m := ⟨⟨h, le_rfl⟩, fun _ hx => hx.2⟩

/-- A round from `m` to `y` through the sets in order. -/
inductive Round : List (Set α) → α → α → Prop
  | nil (m : α) : Round [] m m
  | cons {V : Set α} {Vs : List (Set α)} {m x y : α} :
    IsFloor V m x → Round Vs x y → Round (V :: Vs) m y

section

variable (h : Round Vs m y)
include h

theorem Round.le : y ≤ m := by
  induction h with
  | nil m => exact le_rfl
  | cons hx _ ih => exact ih.trans hx.le

/-- A round does not pass below a common element. -/
theorem Round.le_of_forall_mem (hx : ∀ V ∈ Vs, x ∈ V) (hxm : x ≤ m) : x ≤ y := by
  induction h with
  | nil m => exact hxm
  | cons hz _ ih =>
    obtain ⟨hV, hVs⟩ := forall_mem_cons.1 hx
    exact ih hVs (hz.le_of_mem hV hxm)

/-- Where a round through at least one set ends is in all sets that contain those of the round. -/
theorem Round.mem {W : Set α} (hne : Vs ≠ []) (hW : ∀ V ∈ Vs, V ⊆ W) : y ∈ W := by
  induction h with
  | nil m => exact absurd rfl hne
  | @cons V Vs m x y hx hround ih =>
    obtain ⟨hV, hVs⟩ := forall_mem_cons.1 hW
    cases hround with
    | nil => exact hV hx.mem
    | cons hz hround' => exact ih (cons_ne_nil _ _) hVs

/-- A round that does not lower the value has been in all sets there. -/
theorem Round.forall_mem (hm : m ≤ y) : ∀ V ∈ Vs, m ∈ V := by
  induction h with
  | nil m => nofun
  | cons hz hround ih =>
    have hx := le_antisymm (hm.trans hround.le) hz.le
    subst hx
    exact forall_mem_cons.2 ⟨hz.mem, ih hm⟩

end

/-- Rounds from `m`, each of which but the last lowers the value, until one does not. -/
inductive Descent (Vs : List (Set α)) : α → α → Prop
  | stop {m : α} : Round Vs m m → Descent Vs m m
  | step {m x y : α} : Round Vs m x → x < m → Descent Vs x y → Descent Vs m y

theorem Descent.le (h : Descent Vs m y) : y ≤ m := by
  induction h with
  | stop _ => exact le_rfl
  | step _ hlt _ ih => exact ih.trans hlt.le

theorem Descent.round (h : Descent Vs m y) : Round Vs y y := by
  induction h with
  | stop hround => exact hround
  | step _ _ _ ih => exact ih

/-- **The descent ends in the greatest common element.** -/
theorem Descent.isGreatest (h : Descent Vs m y) : IsGreatest {x | (∀ V ∈ Vs, x ∈ V) ∧ x ≤ m} y := by
  refine ⟨⟨h.round.forall_mem le_rfl, h.le⟩, fun x hx => ?_⟩
  obtain ⟨hxV, hxm⟩ := hx
  induction h with
  | stop _ => exact hxm
  | step hround _ _ ih => exact ih (hround.le_of_forall_mem hxV hxm)

end LoptVllm.Descending
