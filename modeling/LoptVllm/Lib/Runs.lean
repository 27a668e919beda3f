import Mathlib.Algebra.Order.BigOperators.Group.Finset

/-!
# Runs of a machine

A machine is a partial step function. A run is a fold of its steps.
-/

namespace LoptVllm.Lib

open Option Finset

variable {σ ι : Type*} {step : σ → ι → Option σ} {I : σ → Prop}

theorem foldlM_keeps (hstep : ∀ {s a s'}, I s → step s a = some s' → I s') :
    ∀ {actions : List ι} {s s' : σ}, I s → actions.foldlM step s = some s' → I s'
  | [], _, _, hs, h => some.inj h ▸ hs
  | a :: actions, s, s', hs, h => by
    rw [List.foldlM_cons] at h
    obtain ⟨s₁, hs₁, h⟩ := bind_eq_some_iff.1 h
    exact foldlM_keeps hstep (hstep hs hs₁) h

/-- A run in which each step descends is not longer than the measure. -/
theorem foldlM_descends {μ : σ → ℕ}
    (hstep : ∀ {s a s'}, I s → step s a = some s' → I s' ∧ μ s' < μ s) :
    ∀ {actions : List ι} {s s' : σ}, I s → actions.foldlM step s = some s' →
      actions.length + μ s' ≤ μ s
  | [], _, _, _, h => by
    obtain rfl := some.inj h
    simp
  | a :: actions, s, s', hs, h => by
    obtain ⟨s₁, hs₁, h⟩ := bind_eq_some_iff.1 h
    obtain ⟨hI, hlt⟩ := hstep hs hs₁
    have := foldlM_descends hstep hI h
    rw [List.length_cons]
    omega

/-- A measure of several parties descends when one of them does. -/
theorem sum_range_lt {f g : ℕ → ℕ} {n k : ℕ} (hk : k < n) (hlt : f k < g k)
    (hother : ∀ j, j ≠ k → f j = g j) : ∑ j ∈ range n, f j < ∑ j ∈ range n, g j := by
  refine sum_lt_sum (fun j _ => ?_) ⟨k, mem_range.2 hk, hlt⟩
  by_cases hj : j = k
  · exact hj ▸ hlt.le
  · exact (hother j hj).le

end LoptVllm.Lib
