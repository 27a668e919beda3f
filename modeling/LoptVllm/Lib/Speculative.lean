import Mathlib.Algebra.BigOperators.Field
import Mathlib.Algebra.Order.BigOperators.Ring.Finset
import Mathlib.Data.Real.Basic
import Mathlib.Tactic.Linarith

/-!
# Draws that are accepted or replaced

A value is drawn from a distribution `q`, accepted with the probability `min 1 (p / q)`, and replaced
by a value from the residual distribution otherwise. The result has the distribution `p`.
-/

namespace LoptVllm.Lib

open Finset List

variable {V : Type*} [Fintype V]

/-- A probability distribution. -/
structure IsDistribution (p : V → ℝ) : Prop where
  nonneg : ∀ x, 0 ≤ p x
  sum_eq_one : ∑ x, p x = 1

theorem IsDistribution.le_one {p : V → ℝ} (hp : IsDistribution p) (x : V) : p x ≤ 1 :=
  hp.sum_eq_one ▸ single_le_sum (fun y _ => hp.nonneg y) (mem_univ x)

/-- The probability that a value of weight `q` is accepted for the weight `p`. -/
noncomputable def acceptProb (p q : ℝ) : ℝ := if 0 < q then min 1 (p / q) else 0

theorem mul_acceptProb {p q : ℝ} (hp : 0 ≤ p) (hq : 0 ≤ q) : q * acceptProb p q = min q p := by
  unfold acceptProb
  split_ifs with hpos
  · rw [mul_min_of_nonneg _ _ hq, mul_one, mul_div_cancel₀ _ hpos.ne']
  · have hzero : q = 0 := le_antisymm (not_lt.1 hpos) hq
    rw [hzero, zero_mul, min_eq_left hp]

/-- The weights of the replacement. -/
def residual (p q : V → ℝ) (x : V) : ℝ := max (p x - q x) 0

omit [Fintype V] in
theorem residual_nonneg (p q : V → ℝ) (x : V) : 0 ≤ residual p q x := le_max_right _ _

omit [Fintype V] in
theorem min_add_residual (p q : V → ℝ) (x : V) : min (q x) (p x) + residual p q x = p x := by
  unfold residual
  rcases le_total (p x) (q x) with h | h
  · rw [min_eq_right h, max_eq_right (sub_nonpos.2 h), add_zero]
  · rw [min_eq_left h, max_eq_left (sub_nonneg.2 h)]
    ring

/-- The probability of a replacement is the sum of the weights of the residual. -/
theorem sum_mul_one_sub_acceptProb {p q : V → ℝ} (hp : IsDistribution p) (hq : IsDistribution q) :
    ∑ z, q z * (1 - acceptProb (p z) (q z)) = ∑ z, residual p q z := by
  have hterm : ∀ z, q z * (1 - acceptProb (p z) (q z)) = q z - p z + residual p q z := by
    intro z
    rw [mul_sub, mul_one, mul_acceptProb (hp.nonneg z) (hq.nonneg z)]
    linarith [min_add_residual p q z]
  rw [sum_congr rfl fun z _ => hterm z, sum_add_distrib, sum_sub_distrib,
    hp.sum_eq_one, hq.sum_eq_one, sub_self, zero_add]

/-- A value that is drawn from `q`, and accepted or replaced, has the distribution `p`. -/
theorem draw_accept_or_replace [DecidableEq V] {p q r : V → ℝ} (hp : IsDistribution p)
    (hq : IsDistribution q) (x : V)
    (hr : 0 < ∑ z, residual p q z → r x = residual p q x / ∑ z, residual p q z) :
    ∑ z, q z * ((if z = x then acceptProb (p z) (q z) else 0) +
      (1 - acceptProb (p z) (q z)) * r x) = p x := by
  have hsplit : ∀ z, q z * ((if z = x then acceptProb (p z) (q z) else 0) +
      (1 - acceptProb (p z) (q z)) * r x) =
      (if z = x then q z * acceptProb (p z) (q z) else 0) +
        q z * (1 - acceptProb (p z) (q z)) * r x := by
    intro z
    split_ifs <;> ring
  rw [sum_congr rfl fun z _ => hsplit z, sum_add_distrib, sum_ite_eq',
    if_pos (mem_univ x), ← sum_mul, sum_mul_one_sub_acceptProb hp hq,
    mul_acceptProb (hp.nonneg x) (hq.nonneg x)]
  have hnonneg : 0 ≤ ∑ z, residual p q z := sum_nonneg fun z _ => residual_nonneg p q z
  rcases hnonneg.eq_or_lt with hzero | hpos
  · have hx : residual p q x = 0 :=
      (sum_eq_zero_iff_of_nonneg fun z _ => residual_nonneg p q z).1 hzero.symm x (mem_univ x)
    have hmin := min_add_residual p q x
    rw [hx, add_zero] at hmin
    rw [← hzero, zero_mul, add_zero, hmin]
  · rw [hr hpos, mul_div_cancel₀ _ hpos.ne', min_add_residual]

/-- A value `d` that is given, and accepted with the probability `p d` or replaced by another value,
has the distribution `p`. -/
theorem given_accept_or_replace [DecidableEq V] {p r : V → ℝ} (hp : IsDistribution p) (d x : V)
    (hr : 0 < ∑ z, (if z ≠ d then p z else 0) →
      r x = (if x ≠ d then p x else 0) / ∑ z, if z ≠ d then p z else 0) :
    (if d = x then p d else 0) + (1 - p d) * r x = p x := by
  have hrest : ∑ z, (if z ≠ d then p z else 0) = 1 - p d := by
    have hone : ∑ z, ((if z ≠ d then p z else 0) + if z = d then p z else 0) = 1 := by
      rw [← hp.sum_eq_one]
      refine sum_congr rfl fun z _ => ?_
      by_cases hz : z = d <;> simp [hz]
    rw [sum_add_distrib, sum_ite_eq', if_pos (mem_univ d)] at hone
    linarith
  rw [hrest] at hr
  rcases (sub_nonneg.2 (hp.le_one d)).eq_or_lt with hzero | hpos
  · rw [← hzero, zero_mul, add_zero]
    split_ifs with hx
    · rw [hx]
    · -- all of the weight is at `d`
      rw [← hzero] at hrest
      have hterm := (sum_eq_zero_iff_of_nonneg fun z _ => by
        split_ifs
        · exact hp.nonneg z
        · exact le_refl 0).1 hrest x (mem_univ x)
      rw [if_pos (Ne.symm hx)] at hterm
      exact hterm.symm
  · rw [hr hpos, mul_div_cancel₀ _ hpos.ne']
    by_cases hx : d = x
    · rw [if_pos hx, if_neg (not_not.2 hx.symm), add_zero, hx]
    · rw [if_neg hx, if_pos (Ne.symm hx), zero_add]

/-! ### Sequences of draws -/

/-- The expectation of `F` over the sequences that extend `y` by `n` draws. A draw may depend on the
values before it. -/
def expectDraws (q : List V → V → ℝ) : ℕ → List V → (List V → ℝ) → ℝ
  | 0, y, F => F y
  | n + 1, y, F => ∑ x, q y x * expectDraws q n (y ++ [x]) F

variable {q : List V → V → ℝ}

theorem expectDraws_congr {n : ℕ} : ∀ {y : List V} {F G : List V → ℝ},
    (∀ l : List V, l.length = n → F (y ++ l) = G (y ++ l)) →
      expectDraws q n y F = expectDraws q n y G := by
  induction n with
  | zero =>
    intro y F G h
    have := h [] rfl
    rwa [append_nil] at this
  | succ n ih =>
    intro y F G h
    refine sum_congr rfl fun x _ => congrArg _ (ih fun l hl => ?_)
    rw [append_assoc]
    exact h ([x] ++ l) (by rw [length_append, hl, length_singleton, add_comm])

/-- The first draws, then the others. -/
theorem expectDraws_add (m n : ℕ) : ∀ (y : List V) (F : List V → ℝ),
    expectDraws q (m + n) y F = expectDraws q m y fun z => expectDraws q n z F := by
  induction m with
  | zero =>
    intro y F
    rw [zero_add]
    rfl
  | succ m ih =>
    intro y F
    rw [Nat.succ_add]
    exact sum_congr rfl fun x _ => congrArg _ (ih (y ++ [x]) F)

theorem expectDraws_mul (c : ℝ) (n : ℕ) : ∀ (y : List V) (F : List V → ℝ),
    expectDraws q n y (fun z => F z * c) = expectDraws q n y F * c := by
  induction n with
  | zero => exact fun y F => rfl
  | succ n ih =>
    intro y F
    unfold expectDraws
    rw [sum_mul]
    refine sum_congr rfl fun x _ => ?_
    rw [ih, mul_assoc]

/-- The other draws do not matter. -/
theorem expectDraws_const (hq : ∀ y, IsDistribution (q y)) (c : ℝ) (n : ℕ) : ∀ y : List V,
    expectDraws q n y (fun _ => c) = c := by
  induction n with
  | zero => exact fun y => rfl
  | succ n ih =>
    intro y
    unfold expectDraws
    rw [sum_congr rfl fun x _ => congrArg _ (ih (y ++ [x])), ← sum_mul, (hq y).sum_eq_one, one_mul]

/-- The draw after the prefix `y`. -/
theorem expectDraws_at [DecidableEq V] (hq : ∀ y, IsDistribution (q y)) (y : List V) (G : V → ℝ)
    {n : ℕ} (hn : y.length < n) :
    expectDraws q n [] (fun d => if d.take y.length = y then (d[y.length]?).elim 0 G else 0) =
      expectDraws q n [] (fun d => if d.take y.length = y then 1 else 0) * ∑ x, q y x * G x := by
  obtain ⟨m, rfl⟩ := Nat.exists_eq_add_of_lt hn
  rw [add_assoc, expectDraws_add, expectDraws_add, ← expectDraws_mul]
  refine expectDraws_congr fun z hz => ?_
  rw [nil_append]
  have htake : ∀ (x : V) (l : List V), (z ++ [x] ++ l).take y.length = z := fun x l => by
    rw [append_assoc, ← hz, take_left]
  have hone : expectDraws q (m + 1) z (fun d => if d.take y.length = y then (1 : ℝ) else 0) =
      if z = y then 1 else 0 := by
    have hcongr : expectDraws q (m + 1) z (fun d => if d.take y.length = y then (1 : ℝ) else 0) =
        expectDraws q (m + 1) z fun _ => if z = y then 1 else 0 := by
      refine expectDraws_congr fun l _ => ?_
      rw [← hz, take_left]
    rw [hcongr, expectDraws_const hq]
  rw [hone]
  have hdraw : ∀ x, expectDraws q m (z ++ [x])
      (fun d => if d.take y.length = y then (d[y.length]?).elim 0 G else 0) =
        if z = y then G x else 0 := by
    intro x
    rw [← expectDraws_const hq (if z = y then G x else 0) m]
    refine expectDraws_congr fun l _ => ?_
    rw [htake, append_assoc, getElem?_append_right hz.le, hz, Nat.sub_self]
    rfl
  unfold expectDraws
  simp only [hdraw]
  split_ifs with hy
  · rw [one_mul, hy]
  · simp

end LoptVllm.Lib
