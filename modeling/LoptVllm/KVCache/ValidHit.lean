import LoptVllm.KVCache.CacheHit
import LoptVllm.Lib.Descent

/-!
# Valid cache hits

A prefix of a request is a valid cache hit for a group when all blocks that the attention of the
next token looks at are cached. Which tokens these are depends on the kind of the attention.
-/

namespace LoptVllm.KVCache

open Descending Nat

variable {δ : Type*}

/-- The attention of the token at position `L` looks at the token at `t < L`. The window of a
sliding window group counts as at least one token before `L`. -/
def Attends (kind : AttentionKind) (L t : ℕ) : Prop := match kind with
  | .full => True
  | .sinkFull _ => True
  | .cross => True
  | .slidingWindow w => L ≤ t + max 1 (w - 1)
  | .chunkedLocal c => L / c * c ≤ t
  | .mamba _ => t + 1 = L

instance (kind : AttentionKind) (L t : ℕ) : Decidable (Attends kind L t) := by
  cases kind <;> unfold Attends <;> infer_instance

/-- Block `i` holds a token before `L` that the attention at `L` looks at. -/
def Needed (spec : KVCacheSpec) (L i : ℕ) : Prop :=
  ∃ t < L, t / spec.blockSize = i ∧ Attends spec.kind L t

instance (spec : KVCacheSpec) (L : ℕ) : DecidablePred (Needed spec L) :=
  fun _ => inferInstanceAs (Decidable (∃ t < L, _))

/-- The first `L` tokens are a whole number of blocks, and all needed ones are cached. -/
def ValidHit (lookup : BlockHash δ → ℕ → Option ℕ) (hashes : List (BlockHash δ))
    (gids : List ℕ) (spec : KVCacheSpec) (L : ℕ) : Prop :=
  spec.blockSize ∣ L ∧ ∀ i, Needed spec L i → Hit lookup hashes gids i

/-! ### Needed blocks -/

section

variable {spec : KVCacheSpec} {n i : ℕ}

/-- The last token of a block is the one most likely to be looked at. -/
theorem needed_iff_last (h : ∀ t u, t ≤ u → Attends spec.kind (n * spec.blockSize) t →
      Attends spec.kind (n * spec.blockSize) u) : Needed spec (n * spec.blockSize) i ↔
      i < n ∧ Attends spec.kind (n * spec.blockSize) ((i + 1) * spec.blockSize - 1) := by
  have hbs := spec.blockSize_pos
  have hsucc := Nat.add_one_mul i spec.blockSize
  constructor
  · rintro ⟨t, ht, rfl, hatt⟩
    refine ⟨(div_lt_iff_lt_mul hbs).2 ht, h t _ ?_ hatt⟩
    have := lt_div_mul_add (a := t) hbs
    omega
  · rintro ⟨hi, hatt⟩
    have hle : (i + 1) * spec.blockSize ≤ n * spec.blockSize := mul_le_mul_right _ hi
    refine ⟨_, by omega, ?_, hatt⟩
    rw [Nat.div_eq_iff hbs]
    omega

theorem needed_full (hk : ∀ L t, Attends spec.kind L t) :
    Needed spec (n * spec.blockSize) i ↔ i < n := by
  rw [needed_iff_last fun _ _ _ _ => hk _ _]
  exact and_iff_left (hk _ _)

theorem needed_slidingWindow {w : ℕ} (hk : spec.kind = .slidingWindow w) :
    Needed spec (n * spec.blockSize) i ↔ i < n ∧ n ≤ i + slidingNeed w spec.blockSize false := by
  have hbs := spec.blockSize_pos
  have hmono : ∀ t u, t ≤ u → Attends spec.kind (n * spec.blockSize) t →
      Attends spec.kind (n * spec.blockSize) u := by
    rw [hk]
    intro t u htu ht
    simp only [Attends] at ht ⊢
    omega
  rw [needed_iff_last hmono, hk]
  refine and_congr_right fun hi => ?_
  -- `k` blocks lie between block `i` and the end
  obtain ⟨k, rfl⟩ := Nat.exists_eq_add_of_lt hi
  have hcdiv := cdiv_le_iff (a := w - 1) (n := k) hbs
  have hsplit : (i + k + 1) * spec.blockSize = (i + 1) * spec.blockSize + k * spec.blockSize := by
    rw [Nat.add_right_comm, Nat.add_mul]
  have hpos : 0 < (i + 1) * spec.blockSize := Nat.mul_pos i.succ_pos hbs
  simp only [Attends, slidingNeed, Bool.false_eq_true, if_false]
  rcases Nat.eq_zero_or_pos k with rfl | hk
  · omega
  · have := Nat.mul_pos hk hbs
    omega

theorem needed_chunkedLocal {c : ℕ} (hk : spec.kind = .chunkedLocal c) :
    Needed spec (n * spec.blockSize) i ↔
      i < n ∧ n * spec.blockSize / c * c / spec.blockSize ≤ i := by
  have hbs := spec.blockSize_pos
  have hmono : ∀ t u, t ≤ u → Attends spec.kind (n * spec.blockSize) t →
      Attends spec.kind (n * spec.blockSize) u := by
    rw [hk]
    exact fun t u htu ht => le_trans ht htu
  rw [needed_iff_last hmono, hk]
  have hpos : 0 < (i + 1) * spec.blockSize := Nat.mul_pos i.succ_pos hbs
  rw [← Nat.lt_succ_iff, div_lt_iff_lt_mul hbs]
  simp only [Attends, succ_eq_add_one]
  omega

theorem needed_mamba {k : ℕ} (hk : spec.kind = .mamba k) :
    Needed spec (n * spec.blockSize) i ↔ i + 1 = n := by
  have hbs := spec.blockSize_pos
  constructor
  · rintro ⟨t, ht, rfl, hatt⟩
    rw [hk] at hatt
    obtain ⟨n, rfl⟩ : ∃ m, n = m + 1 := exists_eq_succ_of_ne_zero (by rintro rfl; omega)
    refine congrArg (· + 1) ((Nat.div_eq_iff hbs).2 ?_)
    simp only [Attends, add_one_mul] at hatt
    omega
  · rintro rfl
    have hpos : 0 < (i + 1) * spec.blockSize := Nat.mul_pos i.succ_pos hbs
    refine ⟨(i + 1) * spec.blockSize - 1, by omega, ?_, ?_⟩
    · rw [Nat.div_eq_iff hbs, add_one_mul]
      omega
    · rw [hk]
      simp only [Attends]
      omega

end

/-! ### The longest valid hit of one manager -/

variable {lookup : BlockHash δ → ℕ → Option ℕ} {hashes : List (BlockHash δ)} {gids : List ℕ}
  {spec : KVCacheSpec} {maxLength alignment : ℕ}

/-- Lengths are compared by their numbers of blocks. -/
theorem isFloor_blocks (hdvd : spec.blockSize ∣ alignment) {n : ℕ}
    (hn : n ≤ maxLength / spec.blockSize) (halign : Aligned spec.blockSize alignment n)
    (hhit : ∀ i, Needed spec (n * spec.blockSize) i → Hit lookup hashes gids i)
    (hmax : ∀ m ≤ maxLength / spec.blockSize, Aligned spec.blockSize alignment m →
      (∀ i, Needed spec (m * spec.blockSize) i → Hit lookup hashes gids i) → m ≤ n) :
    IsFloor {L | alignment ∣ L ∧ ValidHit lookup hashes gids spec L} maxLength
      (n * spec.blockSize) := by
  have hbs := spec.blockSize_pos
  refine ⟨⟨⟨halign, ⟨n, Nat.mul_comm _ _⟩, hhit⟩, (le_div_iff_mul_le hbs).1 hn⟩, ?_⟩
  rintro L ⟨⟨hL, -, hLhit⟩, hLmax⟩
  obtain ⟨m, rfl⟩ := Nat.dvd_trans hdvd hL
  rw [Nat.mul_comm] at hL hLhit hLmax ⊢
  exact mul_le_mul_right _ (hmax m ((le_div_iff_mul_le hbs).2 hLmax) hL hLhit)

/-- The blocks that a chunked local attention manager skips are those before the chunk of any
length that is left. -/
theorem chunk_start_eq {c bs : ℕ} (hbs : 0 < bs) (hc : 0 < c) (hdvd : bs ∣ c)
    (maxLength n : ℕ) (hs : maxLength / c * c / bs ≤ n) (hn : n ≤ maxLength / bs) :
    n * bs / c * c / bs = maxLength / c * c / bs := by
  have hle : n * bs ≤ maxLength := (le_div_iff_mul_le hbs).1 hn
  have hge : maxLength / c * c ≤ n * bs := by
    obtain ⟨k, hk⟩ := Nat.dvd_mul_left_of_dvd hdvd (maxLength / c)
    rw [hk, Nat.mul_div_cancel_left _ hbs] at hs
    rw [hk, Nat.mul_comm]
    exact mul_le_mul_right _ hs
  have hdiv : n * bs / c = maxLength / c :=
    le_antisymm (Nat.div_le_div_right hle) ((le_div_iff_mul_le hc).2 hge)
  rw [hdiv]

variable (lookup) in
/-- **Each manager returns the longest valid hit.** Without EAGLE, the lists hold the cached blocks
that are needed at the length found, which is the greatest valid one that is aligned. -/
theorem findLongestCacheHit_isFloor (nullBlock : ℕ) (hg : gids ≠ []) (hkind : spec.kind ≠ .cross)
    (hdvd : spec.blockSize ∣ alignment)
    (hchunk : ∀ c, spec.kind = .chunkedLocal c → spec.blockSize ∣ c ∧ spec.blockSize = alignment)
    (hlen : maxLength / spec.blockSize ≤ hashes.length) :
    ∃ L, findLongestCacheHit lookup nullBlock hashes maxLength gids spec false alignment 1 =
        .ok (gids.map (cells lookup nullBlock hashes (Needed spec L) (L / spec.blockSize))) ∧
      IsFloor {L | alignment ∣ L ∧ ValidHit lookup hashes gids spec L} maxLength L := by
  have hbs := spec.blockSize_pos
  -- it suffices to give the number of blocks
  suffices ∃ n p, ∃ _ : DecidablePred p,
      findLongestCacheHit lookup nullBlock hashes maxLength gids spec false alignment 1 =
        .ok (gids.map (cells lookup nullBlock hashes p n)) ∧
      (∀ i < n, p i ↔ Needed spec (n * spec.blockSize) i) ∧
      n ≤ maxLength / spec.blockSize ∧ Aligned spec.blockSize alignment n ∧
      (∀ i, Needed spec (n * spec.blockSize) i → Hit lookup hashes gids i) ∧
      ∀ m ≤ maxLength / spec.blockSize, Aligned spec.blockSize alignment m →
        (∀ i, Needed spec (m * spec.blockSize) i → Hit lookup hashes gids i) → m ≤ n by
    obtain ⟨n, p, _, hfind, hp, hn, halign, hhit, hmax⟩ := this
    refine ⟨n * spec.blockSize, ?_, isFloor_blocks hdvd hn halign hhit hmax⟩
    rw [hfind, Nat.mul_div_cancel _ hbs]
    congr 1
    exact List.map_congr_left fun g _ => cells_congr hp g
  by_cases hfull : (∀ L t, Attends spec.kind L t) ∧
      findLongestCacheHit lookup nullBlock hashes maxLength gids spec false alignment 1 =
        .ok (findFull lookup hashes maxLength gids spec.blockSize false alignment)
  · obtain ⟨hatt, hfind⟩ := hfull
    obtain ⟨n, heq, hn, halign, hhit, run, hrun, -, hmiss, hnrun, hmax⟩ :=
      findFull_cells lookup nullBlock hashes spec.blockSize alignment hg maxLength false
    simp only [needed_full hatt]
    refine ⟨n, fun _ => True, inferInstance, hfind.trans (congrArg _ heq),
      fun i hi => by simpa using hi, hn, halign, hhit,
      fun m hm hm' hmhit => hmax m ?_ hm'⟩
    refine not_lt.1 fun hlt => hmiss ?_ (hmhit run ?_) <;> simp at hlt <;> omega
  cases hk : spec.kind with
  | full => exact absurd ⟨by simp [hk, Attends], by simp [findLongestCacheHit, hk]⟩ hfull
  | sinkFull k => exact absurd ⟨by simp [hk, Attends], by simp [findLongestCacheHit, hk]⟩ hfull
  | cross => exact absurd hk hkind
  | slidingWindow w =>
    obtain ⟨n, hn, halign, hhit, hmax, hfind⟩ := findSliding_cells lookup nullBlock w alignment hg
      false hlen
    simp only [needed_slidingWindow hk]
    refine ⟨n, fun i => n ≤ i + slidingNeed w spec.blockSize false, inferInstance, ?_,
      fun i hi => (and_iff_right hi).symm, hn, halign, fun i hi => hhit i hi.1 hi.2,
        fun m hm hm' hmhit => hmax m hm hm' ?_⟩
    · simpa [findLongestCacheHit, hk] using hfind
    · exact fun i hi hin => hmhit i ⟨hi, hin⟩
  | chunkedLocal c =>
    obtain ⟨hc, rfl⟩ := hchunk c hk
    obtain ⟨n, hs, hn, hfind, hhit, hmiss⟩ :=
      findChunked_cells lookup nullBlock gids spec.blockSize c hlen
    have hstart := chunk_start_eq hbs (spec.chunkSize_pos c hk) hc maxLength
    simp only [needed_chunkedLocal hk]
    refine ⟨n, fun j => maxLength / c * c / spec.blockSize ≤ j, inferInstance, ?_,
      fun i hi => ?_, hn, ⟨n, Nat.mul_comm _ _⟩, ?_, ?_⟩
    · simpa [findLongestCacheHit, hk] using hfind
    · rw [hstart n hs hn]
      exact (and_iff_right hi).symm
    · rw [hstart n hs hn]
      exact fun i hi => hhit i hi.2 hi.1
    · intro m hm _ hmhit
      refine not_lt.1 fun hlt => hmiss (by omega) (hmhit n ⟨hlt, ?_⟩)
      rwa [hstart m (by omega) hm]
  | mamba k =>
    obtain ⟨n, hn, hfind, halign, hhit, hmax⟩ := mambaLoop_cells lookup nullBlock gids
      spec.blockSize alignment _ hlen
    simp only [needed_mamba hk]
    refine ⟨n, fun i => i + 1 = n, inferInstance, ?_, fun i _ => Iff.rfl, hn, halign, hhit, hmax⟩
    simpa [findLongestCacheHit, hk] using hfind

end LoptVllm.KVCache
