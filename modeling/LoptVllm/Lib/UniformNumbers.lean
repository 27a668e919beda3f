import Mathlib.MeasureTheory.Measure.Lebesgue.Basic
import Mathlib.MeasureTheory.Measure.Real

/-!
# Independent uniform numbers

The uniform law on `[0, 1)`, and the law of some independent uniform numbers with some independent
draws from another law.
-/

namespace LoptVllm.Lib

open Function Finset ENNReal

open MeasureTheory

/-- The uniform law on `[0, 1)`. -/
noncomputable def uniformLaw : Measure ℝ := volume.restrict (Set.Ico 0 1)

instance : IsProbabilityMeasure uniformLaw :=
  ⟨by rw [uniformLaw, Measure.restrict_apply_univ, Real.volume_Ico, sub_zero, ofReal_one]⟩

theorem uniformLaw_real_Iic {a : ℝ} (ha : 0 ≤ a) : uniformLaw.real (Set.Iic a) = min 1 a := by
  rw [uniformLaw, measureReal_restrict_apply measurableSet_Iic]
  rcases lt_or_ge a 1 with h | h
  · have hinter : Set.Iic a ∩ Set.Ico 0 1 = Set.Icc 0 a := by
      ext u
      exact ⟨fun hu => ⟨hu.2.1, hu.1⟩, fun hu => ⟨hu.2, hu.1, hu.2.trans_lt h⟩⟩
    rw [hinter, Real.volume_real_Icc_of_le ha, sub_zero, min_eq_right h.le]
  · have hinter : Set.Iic a ∩ Set.Ico 0 1 = Set.Ico 0 1 :=
      Set.inter_eq_right.2 fun u hu => hu.2.le.trans h
    rw [hinter, Real.volume_real_Ico_of_le zero_le_one, sub_zero, min_eq_left h]

section

variable {E : Type*} [MeasurableSpace E] (n m : ℕ) (ν : Measure E) [IsProbabilityMeasure ν]

/-- The law of `n` uniform numbers and `m` draws from `ν`, all of them independent. -/
noncomputable def numbersLaw : Measure ((Fin n → ℝ) × (Fin m → E)) :=
  (Measure.pi fun _ => uniformLaw).prod (Measure.pi fun _ => ν)

instance : IsProbabilityMeasure (numbersLaw n m ν) :=
  inferInstanceAs (IsProbabilityMeasure ((Measure.pi _).prod (Measure.pi _)))

variable {n m ν}

theorem numbersLaw_ae {P : E → Prop} (h : ∀ᵐ e ∂ν, P e) (r : Fin m) :
    ∀ᵐ ω ∂numbersLaw n m ν, P (ω.2 r) :=
  Measure.quasiMeasurePreserving_snd.ae ((Measure.quasiMeasurePreserving_eval (fun _ => ν) r).ae h)

/-- Conditions on each of the uniform numbers, and one on a draw. -/
theorem numbersLaw_real_box (s : Fin n → Set ℝ) (r : Fin m) (t : Set E) :
    (numbersLaw n m ν).real {ω | (∀ k, ω.1 k ∈ s k) ∧ ω.2 r ∈ t} =
      (∏ k, uniformLaw.real (s k)) * ν.real t := by
  have hbox : {ω : (Fin n → ℝ) × (Fin m → E) | (∀ k, ω.1 k ∈ s k) ∧ ω.2 r ∈ t} =
      Set.pi Set.univ s ×ˢ Set.pi Set.univ (update (fun _ => Set.univ) r t) := by
    ext ω
    simp only [Set.mem_prod, Set.mem_univ_pi]
    refine and_congr_right fun _ => ⟨fun h i => ?_, fun h => ?_⟩
    · rcases eq_or_ne i r with rfl | hi
      · rwa [update_self]
      · rw [update_of_ne hi]
        trivial
    · have := h r
      rwa [update_self] at this
  rw [hbox, Measure.real, numbersLaw, Measure.prod_prod, Measure.pi_pi, Measure.pi_pi,
    toReal_mul, toReal_prod, toReal_prod]
  rw [prod_eq_single r]
  · rw [update_self]
    rfl
  · intro i _ hi
    rw [update_of_ne hi, measure_univ, toReal_one]
  · exact fun h => absurd (mem_univ r) h

/-- The uniform number `j`, which the conditions `s` do not restrict, is in `a` or not; then the draw
has to be in `t` or in `t'`. -/
theorem numbersLaw_accept_or {s : Fin n → Set ℝ} {j : Fin n} (hj : s j = Set.univ) {a : Set ℝ}
    (ha : MeasurableSet a) (r : Fin m) (t t' : Set E) :
    (numbersLaw n m ν).real {ω | (∀ k, ω.1 k ∈ s k) ∧
        (ω.1 j ∈ a ∧ ω.2 r ∈ t ∨ ω.1 j ∉ a ∧ ω.2 r ∈ t')} =
      (numbersLaw n m ν).real {ω | ∀ k, ω.1 k ∈ s k} *
        (uniformLaw.real a * ν.real t + (1 - uniformLaw.real a) * ν.real t') := by
  have hupdate : ∀ b : Set ℝ, ∏ k, uniformLaw.real (update s j b k) =
      (∏ k, uniformLaw.real (s k)) * uniformLaw.real b := by
    intro b
    rw [← mul_prod_erase _ _ (mem_univ j), update_self,
      ← mul_prod_erase univ (fun k => uniformLaw.real (s k)) (mem_univ j), hj,
      probReal_univ, one_mul, mul_comm]
    refine congrArg (· * _) (prod_congr rfl fun k hk => ?_)
    rw [update_of_ne (ne_of_mem_erase hk)]
  have hmem : ∀ (b : Set ℝ) (u : Fin n → ℝ),
      (∀ k, u k ∈ update s j b k) ↔ (∀ k, u k ∈ s k) ∧ u j ∈ b := by
    intro b u
    constructor
    · refine fun h => ⟨fun k => ?_, ?_⟩
      · rcases eq_or_ne k j with rfl | hk
        · rw [hj]
          trivial
        · have := h k
          rwa [update_of_ne hk] at this
      · have := h j
        rwa [update_self] at this
    · rintro ⟨h, hb⟩ k
      rcases eq_or_ne k j with rfl | hk
      · rwa [update_self]
      · rw [update_of_ne hk]
        exact h k
  have hall : (numbersLaw n m ν).real {ω | ∀ k, ω.1 k ∈ s k} = ∏ k, uniformLaw.real (s k) := by
    have := numbersLaw_real_box (ν := ν) s r Set.univ
    rw [probReal_univ, mul_one] at this
    rw [← this]
    simp
  have hpart : ∀ (b : Set ℝ) (t : Set E), (numbersLaw n m ν).real
      {ω | ((∀ k, ω.1 k ∈ s k) ∧ ω.1 j ∈ b) ∧ ω.2 r ∈ t} =
        (∏ k, uniformLaw.real (s k)) * uniformLaw.real b * ν.real t := by
    intro b t
    have := numbersLaw_real_box (ν := ν) (update s j b) r t
    rw [hupdate] at this
    rw [← this]
    exact congrArg _ (Set.ext fun ω => and_congr_left fun _ => (hmem b ω.1).symm)
  -- the two sets of numbers, of which one is measurable
  have hmeasurable : MeasurableSet {ω : (Fin n → ℝ) × (Fin m → E) | ω.1 j ∈ a} :=
    ((measurable_pi_apply j).comp measurable_fst) ha
  rw [← measureReal_inter_add_sdiff hmeasurable, hall, mul_add, ← mul_assoc, ← mul_assoc,
    ← probReal_compl_eq_one_sub ha, ← hpart, ← hpart]
  congr 2
  · ext ω
    simp only [Set.mem_inter_iff, Set.mem_ofPred_eq]
    tauto
  · ext ω
    simp only [Set.mem_sdiff, Set.mem_ofPred_eq]
    tauto

end

end LoptVllm.Lib
