import Mathlib.Algebra.Order.BigOperators.Group.Finset

/-!
# Numbered copies

A map whose fibres are numbered from 0: each value of `T` is taken `count` times on `S`, and `rank` numbers
these times.
-/

namespace LoptVllm.Lib

open Function Finset Nat

variable {α β γ : Type*}

/-- `rank` numbers the `count b` entries of `S` with value `b`, for all `b` of `T`. -/
structure Numbers (S : Set α) (T : Set β) (f : α → β) (rank : α → ℕ) (count : β → ℕ) : Prop where
  mem : ∀ a ∈ S, f a ∈ T
  rank_lt : ∀ a ∈ S, rank a < count (f a)
  inj : ∀ a ∈ S, ∀ b ∈ S, f a = f b → rank a = rank b → a = b
  surj : ∀ b ∈ T, ∀ j < count b, ∃ a ∈ S, f a = b ∧ rank a = j

namespace Numbers

variable {S S' : Set α} {T : Set β} {T' : Set γ} {f : α → β} {rank : α → ℕ} {count : β → ℕ}

section

variable (h : Numbers S T f rank count)

include h

theorem congr {f' : α → β} {rank' : α → ℕ} (hf : ∀ a ∈ S, f' a = f a)
    (hrank : ∀ a ∈ S, rank' a = rank a) : Numbers S T f' rank' count where
  mem a ha := by
    rw [hf a ha]
    exact h.mem a ha
  rank_lt a ha := by
    rw [hf a ha, hrank a ha]
    exact h.rank_lt a ha
  inj a ha b hb := by
    rw [hf a ha, hf b hb, hrank a ha, hrank b hb]
    exact h.inj a ha b hb
  surj b hb j hj := by
    obtain ⟨a, ha, hfa, hranka⟩ := h.surj b hb j hj
    exact ⟨a, ha, (hf a ha).trans hfa, (hrank a ha).trans hranka⟩

theorem comp {σ : α → α} (hσ : Set.BijOn σ S' S) :
    Numbers S' T (fun a => f (σ a)) (fun a => rank (σ a)) count where
  mem a ha := h.mem _ (hσ.mapsTo ha)
  rank_lt a ha := h.rank_lt _ (hσ.mapsTo ha)
  inj a ha b hb hf hrank := hσ.injOn ha hb (h.inj _ (hσ.mapsTo ha) _ (hσ.mapsTo hb) hf hrank)
  surj b hb j hj := by
    obtain ⟨a, ha, hf, hrank⟩ := h.surj b hb j hj
    obtain ⟨a', ha', rfl⟩ := hσ.surjOn ha
    exact ⟨a', ha', hf, hrank⟩

theorem rename {τ : β → γ} {count' : γ → ℕ} (hτ : Set.BijOn τ T T')
    (hcount : ∀ b ∈ T, count' (τ b) = count b) : Numbers S T' (fun a => τ (f a)) rank count' where
  mem a ha := hτ.mapsTo (h.mem a ha)
  rank_lt a ha := by
    rw [hcount _ (h.mem a ha)]
    exact h.rank_lt a ha
  inj a ha b hb hf hrank := h.inj a ha b hb (hτ.injOn (h.mem a ha) (h.mem b hb) hf) hrank
  surj c hc j hj := by
    obtain ⟨b, hb, rfl⟩ := hτ.surjOn hc
    rw [hcount b hb] at hj
    obtain ⟨a, ha, rfl, hrank⟩ := h.surj b hb j hj
    exact ⟨a, ha, rfl, hrank⟩

theorem insert [DecidableEq α] [DecidableEq β] {a : α} {b : β} (ha : a ∉ S)
    (hb : b ∈ T) : Numbers (Insert.insert a S) T (update f a b)
      (update rank a (count b)) (update count b (count b + 1)) := by
  have hne : ∀ c ∈ S, c ≠ a := fun c hc hca => ha (hca ▸ hc)
  constructor
  · rintro c (rfl | hc)
    · rwa [update_self]
    · rw [update_of_ne (hne c hc)]
      exact h.mem c hc
  · rintro c (rfl | hc)
    · rw [update_self, update_self, update_self]
      exact lt_succ_self _
    · rw [update_of_ne (hne c hc), update_of_ne (hne c hc)]
      have := h.rank_lt c hc
      by_cases hcb : f c = b
      · rw [hcb] at this ⊢
        rw [update_self]
        exact this.trans (lt_succ_self _)
      · rwa [update_of_ne hcb]
  · rintro c (rfl | hc) d (rfl | hd) hf hrank
    · rfl
    · rw [update_self, update_of_ne (hne d hd)] at hf hrank
      have := h.rank_lt d hd
      rw [← hf] at this
      omega
    · rw [update_self, update_of_ne (hne c hc)] at hf hrank
      have := h.rank_lt c hc
      rw [hf] at this
      omega
    · rw [update_of_ne (hne c hc), update_of_ne (hne d hd)] at hf hrank
      exact h.inj c hc d hd hf hrank
  · intro c hc j hj
    by_cases hlast : c = b ∧ j = count b
    · obtain ⟨rfl, rfl⟩ := hlast
      exact ⟨a, Set.mem_insert _ _, update_self .., update_self ..⟩
    · have hj' : j < count c := by
        by_cases hcb : c = b
        · subst hcb
          rw [update_self] at hj
          have : j ≠ count c := fun h => hlast ⟨rfl, h⟩
          omega
        · rwa [update_of_ne hcb] at hj
      obtain ⟨d, hd, rfl, hrank⟩ := h.surj c hc j hj'
      refine ⟨d, Set.mem_insert_of_mem _ hd, update_of_ne (hne d hd) .., ?_⟩
      rwa [update_of_ne (hne d hd)]

end

theorem card_fiber [DecidableEq β] {S : Finset α} (h : Numbers (S : Set α) T f rank count) {b : β}
    (hb : b ∈ T) :
    (S.filter fun a => f a = b).card = count b := by
  have himage : (S.filter fun a => f a = b).image rank = range (count b) := by
    ext j
    rw [mem_image, mem_range]
    constructor
    · rintro ⟨a, ha, rfl⟩
      obtain ⟨hS, rfl⟩ := mem_filter.1 ha
      exact h.rank_lt a hS
    · intro hj
      obtain ⟨a, ha, hf, hrank⟩ := h.surj b hb j hj
      exact ⟨a, mem_filter.2 ⟨ha, hf⟩, hrank⟩
  rw [← card_range (count b), ← himage, Finset.card_image_of_injOn]
  intro a ha c hc hrank
  obtain ⟨haS, haf⟩ := mem_filter.1 ha
  obtain ⟨hcS, hcf⟩ := mem_filter.1 hc
  exact h.inj a haS c hcS (haf.trans hcf.symm) hrank

theorem sum_count [DecidableEq β] {S : Finset α} {T : Finset β}
    (h : Numbers (S : Set α) (T : Set β) f rank count) : ∑ b ∈ T, count b = S.card := by
  rw [card_eq_sum_card_fiberwise fun a ha => h.mem a ha]
  exact sum_congr rfl fun b hb => (h.card_fiber hb).symm

/-- No value is taken so often that one of the others is left out. -/
theorem count_add_le [DecidableEq β] {S : Finset α} {T : Finset β}
    (h : Numbers (S : Set α) (T : Set β) f rank count) (hpos : ∀ b ∈ T, 0 < count b) {b : β} (hb : b ∈ T) :
    count b + T.card ≤ S.card + 1 := by
  have hsum := h.sum_count
  rw [← add_sum_erase T count hb] at hsum
  have hle : (T.erase b).card ≤ ∑ c ∈ T.erase b, count c := by
    rw [card_eq_sum_ones]
    exact sum_le_sum fun c hc => hpos c (mem_of_mem_erase hc)
  rw [card_erase_of_mem hb] at hle
  omega

end Numbers

/-! ### Blocks of indices -/

theorem block_index {n k i : ℕ} (hi : i < n) : (k * n + i) / n = k ∧ (k * n + i) % n = i := by
  have hn : 0 < n := zero_lt_of_lt hi
  constructor
  · rw [mul_comm, mul_add_div hn, div_eq_of_lt hi, add_zero]
  · rw [mul_add_mod_of_lt hi]

theorem block_lt {n m k i : ℕ} (hk : k < m) (hi : i < n) : k * n + i < m * n := by
  have := mul_le_mul_right n hk
  rw [succ_mul] at this
  omega

theorem div_lt_of_lt_mul' {n m p : ℕ} (hp : p < m * n) : p / n < m ∧ p % n < n := by
  have hn : 0 < n := pos_of_ne_zero fun h => by simp [h] at hp
  exact ⟨Nat.div_lt_of_lt_mul (by rwa [mul_comm]), mod_lt _ hn⟩

theorem Numbers.blocks {m n n' : ℕ} {f rank count : ℕ → ℕ → ℕ}
    (h : ∀ k < m, Numbers (Set.Iio n) (Set.Iio n') (f k) (rank k) (count k)) :
    Numbers (Set.Iio (m * n)) (Set.Iio (m * n')) (fun p => p / n * n' + f (p / n) (p % n))
      (fun p => rank (p / n) (p % n)) fun l => count (l / n') (l % n') := by
  have hblock : ∀ p ∈ Set.Iio (m * n), p / n < m ∧ p % n ∈ Set.Iio n := fun p hp => div_lt_of_lt_mul' hp
  constructor
  · intro p hp
    obtain ⟨hk, hi⟩ := hblock p hp
    exact block_lt hk ((h _ hk).mem _ hi)
  · intro p hp
    obtain ⟨hk, hi⟩ := hblock p hp
    obtain ⟨hdiv, hmod⟩ := block_index ((h _ hk).mem _ hi)
    rw [hdiv, hmod]
    exact (h _ hk).rank_lt _ hi
  · intro p hp q hq hf hrank
    obtain ⟨hk, hi⟩ := hblock p hp
    obtain ⟨hk', hi'⟩ := hblock q hq
    obtain ⟨hdiv, hmod⟩ := block_index ((h _ hk).mem _ hi)
    obtain ⟨hdiv', hmod'⟩ := block_index ((h _ hk').mem _ hi')
    rw [hf] at hdiv hmod
    have hsame : p / n = q / n := hdiv.symm.trans hdiv'
    have hvalue : f (p / n) (p % n) = f (p / n) (q % n) := by
      rw [← hmod, hmod', hsame]
    rw [← hsame] at hrank
    have hpos := (h _ hk).inj _ hi _ hi' hvalue hrank
    rw [← div_add_mod p, ← div_add_mod q, hsame, hpos]
  · intro l hl j hj
    obtain ⟨hk, hi⟩ := div_lt_of_lt_mul' hl
    obtain ⟨i, hin, hf, hrank⟩ := (h _ hk).surj _ hi j hj
    refine ⟨l / n' * n + i, block_lt hk hin, ?_, ?_⟩
    · simp only [(block_index hin).1, (block_index hin).2, hf]
      exact div_add_mod' l n'
    · simp [(block_index hin).1, (block_index hin).2, hrank]

variable {m n : ℕ}

/-- A permutation of blocks, and of the entries within each block. -/
theorem bijOn_nested {σ : ℕ → ℕ} {τ : ℕ → ℕ → ℕ} (hσ : Set.BijOn σ (Set.Iio m) (Set.Iio m))
    (hτ : ∀ k < m, Set.BijOn (τ k) (Set.Iio n) (Set.Iio n)) :
    Set.BijOn (fun p => σ (p / n) * n + τ (p / n) (p % n)) (Set.Iio (m * n)) (Set.Iio (m * n)) := by
  refine ⟨fun p hp => ?_, fun p hp q hq heq => ?_, fun p hp => ?_⟩
  · obtain ⟨hk, hi⟩ := div_lt_of_lt_mul' hp
    exact block_lt (hσ.mapsTo hk) ((hτ _ hk).mapsTo hi)
  · obtain ⟨hk, hi⟩ := div_lt_of_lt_mul' hp
    obtain ⟨hk', hi'⟩ := div_lt_of_lt_mul' hq
    obtain ⟨hdiv, hmod⟩ := block_index ((hτ _ hk).mapsTo hi)
    obtain ⟨hdiv', hmod'⟩ := block_index ((hτ _ hk').mapsTo hi')
    simp only at heq
    rw [heq] at hdiv hmod
    have hsame : p / n = q / n := hσ.injOn hk hk' (hdiv.symm.trans hdiv')
    have hvalue : τ (p / n) (p % n) = τ (p / n) (q % n) := by
      rw [← hmod, hmod', hsame]
    have hpos : p % n = q % n := (hτ _ hk).injOn hi hi' hvalue
    rw [← div_add_mod p, ← div_add_mod q, hsame, hpos]
  · obtain ⟨hk, hi⟩ := div_lt_of_lt_mul' hp
    obtain ⟨k, hkm, hσk⟩ := hσ.surjOn hk
    obtain ⟨i, hin, hτi⟩ := (hτ k hkm).surjOn hi
    refine ⟨k * n + i, block_lt hkm hin, ?_⟩
    simp only [(block_index hin).1, (block_index hin).2, hσk, hτi]
    exact div_add_mod' p n

theorem bijOn_blocks {σ : ℕ → ℕ} (hσ : Set.BijOn σ (Set.Iio m) (Set.Iio m)) :
    Set.BijOn (fun l => σ (l / n) * n + l % n) (Set.Iio (m * n)) (Set.Iio (m * n)) :=
  bijOn_nested hσ fun _ _ => Set.bijOn_id _

theorem bijOn_within_blocks {σ : ℕ → ℕ → ℕ}
    (hσ : ∀ k < m, Set.BijOn (σ k) (Set.Iio n) (Set.Iio n)) :
    Set.BijOn (fun p => p / n * n + σ (p / n) (p % n)) (Set.Iio (m * n)) (Set.Iio (m * n)) :=
  bijOn_nested (Set.bijOn_id _) hσ

end LoptVllm.Lib
