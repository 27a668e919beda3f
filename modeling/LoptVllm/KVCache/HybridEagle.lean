import LoptVllm.KVCache.Hybrid

/-!
# The hybrid cache hit with EAGLE

With EAGLE each manager drops the last block it has matched. The full attention manager runs in the
first round only, but the sliding window manager runs in every round and drops a block each time, so
the length cannot become stable above zero.
-/

namespace LoptVllm.KVCache

open List Function Nat KVCacheSpec HybridKVCacheCoordinator

namespace HybridKVCacheCoordinator

variable {δ : Type*}

/-- The model has a full attention group `i` with spec `f` and a sliding window group `j` with
spec `s`, and EAGLE is used. -/
structure FullAndSliding (c : HybridKVCacheCoordinator) (f s : KVCacheSpec) (i j w : ℕ) : Prop where
  eagle : c.useEagle = true
  full : f.kind = .full
  sliding : s.kind = .slidingWindow w
  specs : (c.specs = [f, s] ∧ i = 0 ∧ j = 1) ∨ (c.specs = [s, f] ∧ i = 1 ∧ j = 0)

variable {c : HybridKVCacheCoordinator} {f s : KVCacheSpec} {i j w : ℕ}

section

variable (h : c.FullAndSliding f s i j w)

include h

theorem FullAndSliding.ne : f ≠ s := by
  rintro rfl
  have := h.full.symm.trans h.sliding
  cases this

theorem FullAndSliding.index_ne : i ≠ j := by
  obtain ⟨-, rfl, rfl⟩ | ⟨-, rfl, rfl⟩ := h.specs <;> decide

/-- The full attention group comes first, wherever its layers are. -/
theorem FullAndSliding.attentionGroups_eq : c.attentionGroups = [⟨f, [i]⟩, ⟨s, [j]⟩] := by
  have hf : f.isFullAttention = true := by simp [isFullAttention, h.full]
  have hs : s.isFullAttention = false := by simp [isFullAttention, h.sliding]
  obtain ⟨hc, rfl, rfl⟩ | ⟨hc, rfl, rfl⟩ := h.specs
  · simp [attentionGroups, hc, splitGroups, addGroup, h.ne, fullFirst, hf, hs]
  · simp [attentionGroups, hc, splitGroups, addGroup, h.ne.symm, fullFirst, hf, hs]

theorem FullAndSliding.full_mem : (⟨f, [i]⟩ : AttentionGroup) ∈ c.attentionGroups := by
  rw [h.attentionGroups_eq]
  exact .head _

theorem FullAndSliding.sliding_mem : (⟨s, [j]⟩ : AttentionGroup) ∈ c.attentionGroups := by
  rw [h.attentionGroups_eq]
  exact .tail _ (.head _)

end

variable (lookup : BlockHash δ → ℕ → Option ℕ) (nullBlock : ℕ) (hashes : List δ)

section

variable (h : c.FullAndSliding f s i j w)

include h

/-- The first full attention step takes the run of hits without its last block. -/
theorem FullAndSliding.fullStep_first (maxLength : ℕ) :
    ∃ blocks F, c.groupStep lookup nullBlock hashes ⟨f, [i]⟩ (fun _ => none) maxLength =
        .ok (update (fun _ => none) i (some blocks), F) ∧
      F ≤ maxLength ∧ c.lcmBlockSize ∣ F ∧ F / c.hashBlockSize ≤ hashes.length ∧
      ∀ L, 0 < L → c.lcmBlockSize ∣ L → (L ≤ F ↔ L + f.blockSize ≤ maxLength ∧
        ∀ b ≤ L / f.blockSize, Hit lookup (c.getBlockHashes hashes f) [i] b) := by
  have hmem := h.full_mem
  have hdvd : f.blockSize ∣ c.lcmBlockSize := blockSize_dvd_lcm hmem
  have hbs := f.blockSize_pos
  obtain ⟨n, hfind, hn, halign, hhit, run, hrun, hall, hmiss, hnrun, hmax⟩ :=
    findFull_cells lookup nullBlock (c.getBlockHashes hashes f) f.blockSize c.lcmBlockSize
      (cons_ne_nil i []) maxLength true
  simp only [if_true] at hnrun hmax
  have hlen : n ≤ (c.getBlockHashes hashes f).length := by
    cases n with
    | zero => exact zero_le _
    | succ n => exact (hhit n (lt_succ_self n)).lt_length
  refine ⟨cells lookup nullBlock (c.getBlockHashes hashes f) (fun _ => True) n i,
    n * f.blockSize, ?_, (le_div_iff_mul_le hbs).1 hn, halign,
    (le_length_getBlockHashes_iff (spec_mem hmem)).1 hlen, fun L hpos hL => ?_⟩
  · simp [groupStep, Option.isSome_none, Bool.and_false, Bool.false_eq_true,
      KVCache.findLongestCacheHit, h.full, h.eagle, mul_one, hfind, map_cons, bind,
      Except.bind, pure, Except.pure, setBlocks, length_cells]
  · obtain ⟨m, rfl⟩ := Nat.dvd_trans hdvd hL
    rw [mul_comm] at hpos hL ⊢
    have hm : 0 < m := Nat.pos_of_mul_pos_right hpos
    rw [Nat.mul_div_cancel _ hbs, Nat.mul_le_mul_right_iff hbs, ← add_one_mul,
      ← le_div_iff_mul_le hbs]
    constructor
    · intro hmn
      exact ⟨by omega, fun b hb => hall b (by omega)⟩
    · rintro ⟨hmM, hhits⟩
      refine hmax m ?_ hL
      have : ¬ run ≤ m := fun hle => hmiss (by omega) (hhits run hle)
      omega

variable {hitBlocks : HitBlocks}

/-- Later full attention steps leave an aligned length as it is. -/
theorem FullAndSliding.fullStep_later {blocks : List ℕ} (hi : hitBlocks i = some blocks) {m : ℕ}
    (hm : f.blockSize ∣ m) :
    c.groupStep lookup nullBlock hashes ⟨f, [i]⟩ hitBlocks m =
      .ok (update hitBlocks i (some (blocks.take (m / f.blockSize))), m) := by
  have hf : f.isFullAttention = true := by simp [isFullAttention, h.full]
  simp [groupStep, hf, hi, truncateBlocks, bind, Except.bind, pure, Except.pure,
    Nat.div_mul_cancel hm]

/-- The sliding window step either finds no hit, or drops the last block of the hit it finds, or
fails because its block size is not the common one. -/
theorem FullAndSliding.slidingStep (hitBlocks : HitBlocks)
    {m : ℕ} (hm : m / c.hashBlockSize ≤ hashes.length) :
    (∃ hitBlocks' x, c.groupStep lookup nullBlock hashes ⟨s, [j]⟩ hitBlocks m =
        .ok (hitBlocks', x) ∧ hitBlocks' i = hitBlocks i ∧ c.lcmBlockSize ∣ x ∧ x ≤ m ∧
      (m ≠ 0 → x < m) ∧ (s.blockSize = c.lcmBlockSize ∨ x = 0 ∧
        ∀ L ≤ m, 0 < L → c.lcmBlockSize ∣ L → ¬ SlidingHit lookup (c.getBlockHashes hashes s) [j]
          (slidingNeed w s.blockSize true) (L / s.blockSize))) ∨
    (c.groupStep lookup nullBlock hashes ⟨s, [j]⟩ hitBlocks m =
        .error (.assertionError "aligned_length is not compatible with eagle now") ∧
      s.blockSize ≠ c.lcmBlockSize ∧ ∃ L ≤ m, 0 < L ∧ c.lcmBlockSize ∣ L ∧
        SlidingHit lookup (c.getBlockHashes hashes s) [j] (slidingNeed w s.blockSize true)
          (L / s.blockSize)) := by
  have hmem := h.sliding_mem
  have hdvd : s.blockSize ∣ c.lcmBlockSize := blockSize_dvd_lcm hmem
  have hbs := s.blockSize_pos
  have hs : s.isFullAttention = false := by simp [isFullAttention, h.sliding]
  obtain ⟨n, hn, halign, hhit, hmax, hfind⟩ := findSliding_cells lookup nullBlock w c.lcmBlockSize
    (cons_ne_nil j []) true (length_getBlockHashes (spec_mem hmem) hm)
  have hnm : n * s.blockSize ≤ m := (le_div_iff_mul_le hbs).1 hn
  have hstep : c.groupStep lookup nullBlock hashes ⟨s, [j]⟩ hitBlocks m = do
      let found ← findSliding lookup nullBlock (c.getBlockHashes hashes s) m [j] s.blockSize w true
        c.lcmBlockSize
      return (setBlocks [j] found hitBlocks, (found.headD []).length * s.blockSize) := by
    simp [groupStep, hs, Bool.false_and, Bool.false_eq_true,
      KVCache.findLongestCacheHit, h.sliding, h.eagle, ne_eq, not_true_eq_false]
  rw [hstep, hfind]
  -- no hit, or a hit whose last block is dropped
  rcases Nat.eq_zero_or_pos n with rfl | hpos
  · left
    simp only [ne_eq, not_true_eq_false, and_false, if_false, bind, Except.bind, map_cons,
      headD_cons, length_cells, Nat.zero_mul]
    refine ⟨_, 0, rfl, update_of_ne h.index_ne _ _, Nat.dvd_zero _, zero_le m,
      pos_of_ne_zero, .inr ⟨rfl, fun L hL hpos hdvdL hLhit => ?_⟩⟩
    obtain ⟨k, rfl⟩ := Nat.dvd_trans hdvd hdvdL
    rw [mul_comm] at hL hpos hdvdL hLhit
    rw [Nat.mul_div_cancel _ hbs] at hLhit
    have := hmax k ((le_div_iff_mul_le hbs).2 hL) hdvdL hLhit
    rw [le_zero.1 this, Nat.zero_mul] at hpos
    exact lt_irrefl 0 hpos
  · rw [if_pos ⟨rfl, pos_iff_ne_zero.1 hpos⟩]
    by_cases hlcm : s.blockSize = c.lcmBlockSize
    · left
      have hlt : (n - 1) * s.blockSize < n * s.blockSize :=
        Nat.mul_lt_mul_of_pos_right (sub_lt hpos one_pos) hbs
      simp only [ne_eq, hlcm, not_true_eq_false, if_false, bind, Except.bind, map_cons, headD_cons,
        length_cells]
      refine ⟨_, _, rfl, update_of_ne h.index_ne _ _, Nat.dvd_mul_left _ _, ?_, ?_, .inl trivial⟩
      · rw [← hlcm]
        exact hlt.le.trans hnm
      · rw [← hlcm]
        exact fun _ => hlt.trans_le hnm
    · right
      refine ⟨?_, hlcm, n * s.blockSize, hnm, Nat.mul_pos hpos hbs, halign, ?_⟩
      · rw [if_pos hlcm]
        rfl
      · rwa [Nat.mul_div_cancel _ hbs]

/-- Once the length shrinks to zero, or when the sliding window manager drops a block in every
round, the loop ends at zero. -/
theorem FullAndSliding.descend_eq_zero {m : ℕ}
    (hm : s.blockSize = c.lcmBlockSize ∨ m = 0) (hdvd : c.lcmBlockSize ∣ m)
    (hlen : m / c.hashBlockSize ≤ hashes.length) {blocks : List ℕ}
    (hi : hitBlocks i = some blocks) :
    ∃ hitBlocks', c.descend lookup nullBlock hashes hitBlocks m = .ok (hitBlocks', 0) := by
  induction m using Nat.strong_induction_on generalizing hitBlocks blocks with
  | _ m ih =>
    have hfull := h.fullStep_later lookup nullBlock hashes hi
      (Nat.dvd_trans (blockSize_dvd_lcm h.full_mem) hdvd)
    rcases h.slidingStep lookup nullBlock hashes
        (update hitBlocks i (some (blocks.take (m / f.blockSize)))) hlen with
      ⟨hitBlocks', x, hstep, hi', hx, hxm, hlt, hcases⟩ | ⟨-, hne, L, hL, hpos, -⟩
    · have hround : c.roundStep lookup nullBlock hashes c.attentionGroups hitBlocks m =
          .ok (hitBlocks', x) := by
        rw [h.attentionGroups_eq]
        simp [roundStep, hfull, hstep, bind, Except.bind]
      rcases Nat.eq_zero_or_pos m with rfl | hpos
      · exact ⟨hitBlocks', descend_of_le hround (zero_le x)⟩
      · have hxm' := hlt hpos.ne'
        have hnext : s.blockSize = c.lcmBlockSize ∨ x = 0 := hcases.imp_right And.left
        rw [update_self] at hi'
        obtain ⟨hitBlocks'', hloop⟩ :=
          ih x hxm' hnext hx ((Nat.div_le_div_right hxm).trans hlen) hi'
        exact ⟨hitBlocks'', (descend_of_lt hround hxm').trans hloop⟩
    · -- the assertion fails above zero and for another block size only
      rcases hm with hm | rfl
      · exact absurd hm hne
      · exact absurd hpos (not_lt.2 hL)

/-- **With EAGLE the hit is empty**, unless the assertion of the sliding window manager fails, which
it does exactly when it finds a hit in the first round and has another block size. -/
theorem FullAndSliding.findLongestCacheHit_cases (maxLength : ℕ) :
    ((∃ blocks, c.findLongestCacheHit lookup nullBlock hashes maxLength = .ok (blocks, 0)) ∧
      (s.blockSize = c.lcmBlockSize ∨ ∀ L, 0 < L → c.lcmBlockSize ∣ L →
        L + f.blockSize ≤ maxLength →
        (∀ b ≤ L / f.blockSize, Hit lookup (c.getBlockHashes hashes f) [i] b) →
        ¬ SlidingHit lookup (c.getBlockHashes hashes s) [j] (slidingNeed w s.blockSize true)
          (L / s.blockSize))) ∨
    ((∃ e, c.findLongestCacheHit lookup nullBlock hashes maxLength = .error e) ∧
      s.blockSize ≠ c.lcmBlockSize ∧ ∃ L, 0 < L ∧ c.lcmBlockSize ∣ L ∧ L + f.blockSize ≤ maxLength ∧
        (∀ b ≤ L / f.blockSize, Hit lookup (c.getBlockHashes hashes f) [i] b) ∧
        SlidingHit lookup (c.getBlockHashes hashes s) [j] (slidingNeed w s.blockSize true)
          (L / s.blockSize)) := by
  obtain ⟨blocks, F, hfull, hF, hdvd, hlen, hiff⟩ :=
    h.fullStep_first lookup nullBlock hashes maxLength
  rcases h.slidingStep lookup nullBlock hashes (update (fun _ => none) i (some blocks)) hlen
    with
    ⟨hitBlocks', x, hstep, hi', hx, hxF, hlt, hcases⟩ | ⟨hstep, hne, L, hL, hpos, hLdvd, hhit⟩
  · have hround : c.roundStep lookup nullBlock hashes c.attentionGroups (fun _ => none) maxLength =
        .ok (hitBlocks', x) := by
      rw [h.attentionGroups_eq]
      simp [roundStep, hfull, hstep, bind, Except.bind]
    rw [update_self] at hi'
    have hloop : ∃ hitBlocks'', c.descend lookup nullBlock hashes (fun _ => none) maxLength =
        .ok (hitBlocks'', 0) := by
      rcases lt_or_ge x maxLength with hxM | hge
      · obtain ⟨hitBlocks'', hloop⟩ := h.descend_eq_zero lookup nullBlock hashes
          (hcases.imp_right And.left) hx ((Nat.div_le_div_right hxF).trans hlen) hi'
        exact ⟨hitBlocks'', (descend_of_lt hround hxM).trans hloop⟩
      · have hF0 : F = 0 := by
          by_contra hne
          exact absurd (hge.trans_lt (hlt hne)) (not_lt.2 hF)
        subst hF0
        obtain rfl := le_zero.1 (hge.trans hxF)
        exact ⟨hitBlocks', descend_of_le hround hge⟩
    obtain ⟨hitBlocks'', hloop⟩ := hloop
    refine .inl ⟨⟨_, by simp only [findLongestCacheHit, hloop, pure]; rfl⟩, hcases.imp_right
      fun hno L hpos hL hlt hall => ?_⟩
    exact hno.2 L ((hiff L hpos hL).2 ⟨hlt, hall⟩) hpos hL
  · have hround : c.roundStep lookup nullBlock hashes c.attentionGroups (fun _ => none) maxLength =
        .error (.assertionError "aligned_length is not compatible with eagle now") := by
      rw [h.attentionGroups_eq]
      simp [roundStep, hfull, hstep, bind, Except.bind]
    obtain ⟨hle, hall⟩ := (hiff L hpos hLdvd).1 hL
    refine .inr ⟨⟨.assertionError "aligned_length is not compatible with eagle now", ?_⟩,
      hne, L, hpos, hLdvd, hle, hall, hhit⟩
    rw [findLongestCacheHit, descend, hround]
    rfl

end

/-- The first `L` tokens, a multiple of the common block size, are cached for both groups. -/
def BothCached (c : HybridKVCacheCoordinator) (lookup : BlockHash δ → ℕ → Option ℕ)
    (hashes : List δ) (f s : KVCacheSpec) (i j L : ℕ) : Prop :=
  c.lcmBlockSize ∣ L ∧ (∀ b < L / f.blockSize, Hit lookup (c.getBlockHashes hashes f) [i] b) ∧
    ∀ b < L / s.blockSize, Hit lookup (c.getBlockHashes hashes s) [j] b

variable {lookup} {hashes}

theorem BothCached.of_le {L L' : ℕ} (h : c.BothCached lookup hashes f s i j L) (hle : L' ≤ L)
    (hdvd : c.lcmBlockSize ∣ L') : c.BothCached lookup hashes f s i j L' :=
  ⟨hdvd, fun b hb => h.2.1 b (hb.trans_le (Nat.div_le_div_right hle)),
    fun b hb => h.2.2 b (hb.trans_le (Nat.div_le_div_right hle))⟩

open Classical in
theorem exists_isGreatest_le {P : ℕ → Prop} {m n : ℕ} (hm : P m) (hmn : m ≤ n) :
    ∃ L, IsGreatest {L | P L ∧ L ≤ n} L :=
  ⟨findGreatest P n, ⟨findGreatest_spec hmn hm, findGreatest_le n⟩,
    fun _ hL => le_findGreatest hL.2 hL.1⟩

/-- At most one common block is cached if and only if two are not. -/
theorem BothCached.greatest_le_iff {maxLength : ℕ} :
    (∀ L, IsGreatest {L | c.BothCached lookup hashes f s i j L ∧ L ≤ maxLength} L →
      L - c.lcmBlockSize ≤ 0) ↔ ¬ (2 * c.lcmBlockSize ≤ maxLength ∧
      c.BothCached lookup hashes f s i j (2 * c.lcmBlockSize)) := by
  have hpos := c.lcmBlockSize_pos
  constructor
  · rintro h ⟨hle, hcached⟩
    obtain ⟨L, hL⟩ := exists_isGreatest_le hcached hle
    have h2 : 2 * c.lcmBlockSize ≤ L := hL.2 ⟨hcached, hle⟩
    have := h L hL
    omega
  · intro h L hL
    obtain ⟨k, hk⟩ := hL.1.1.1
    by_contra hlt
    have hk2 : 2 ≤ k := by
      by_contra hk1
      have := mul_le_mul_left c.lcmBlockSize (Nat.lt_succ_iff.1 (not_le.1 hk1))
      omega
    have h2 : 2 * c.lcmBlockSize ≤ L := by
      rw [hk, mul_comm]
      exact mul_le_mul_left _ hk2
    exact h ⟨h2.trans hL.1.2, hL.1.1.of_le h2 (Nat.dvd_mul_left _ _)⟩

/-- **When EAGLE loses one block only.** The hit is at most one common block shorter than what is
cached if and only if at most one common block is cached, and the sliding window manager has the
common block size or finds no hit in the first round. -/
theorem findLongestCacheHit_eagle_iff {c : HybridKVCacheCoordinator} {f s : KVCacheSpec}
    {i j w : ℕ} (h : c.FullAndSliding f s i j w) (lookup : BlockHash δ → ℕ → Option ℕ)
    (nullBlock : ℕ) (hashes : List δ) (maxCacheHitLength : ℕ) :
    (∃ blocks hit, c.findLongestCacheHit lookup nullBlock hashes maxCacheHitLength =
        .ok (blocks, hit) ∧
      ∀ L, IsGreatest {L | c.BothCached lookup hashes f s i j L ∧ L ≤ maxCacheHitLength} L →
        L - c.lcmBlockSize ≤ hit) ↔ ¬ (2 * c.lcmBlockSize ≤ maxCacheHitLength ∧
        c.BothCached lookup hashes f s i j (2 * c.lcmBlockSize)) ∧
      (s.blockSize = c.lcmBlockSize ∨ ∀ L, 0 < L → c.lcmBlockSize ∣ L →
        L + f.blockSize ≤ maxCacheHitLength →
        (∀ b ≤ L / f.blockSize, Hit lookup (c.getBlockHashes hashes f) [i] b) →
        ¬ SlidingHit lookup (c.getBlockHashes hashes s) [j] (slidingNeed w s.blockSize true)
          (L / s.blockSize)) := by
  rw [← BothCached.greatest_le_iff]
  rcases h.findLongestCacheHit_cases lookup nullBlock hashes maxCacheHitLength with
    ⟨⟨blocks, hfind⟩, hcond⟩ | ⟨⟨e, hfind⟩, hne, L, hpos, hdvd, hle, hall, hhit⟩
  · constructor
    · rintro ⟨blocks', hit, hfind', hlose⟩
      rw [hfind] at hfind'
      cases hfind'
      exact ⟨hlose, hcond⟩
    · rintro ⟨hlose, -⟩
      exact ⟨blocks, 0, hfind, hlose⟩
  · constructor
    · rintro ⟨blocks', hit, hfind', -⟩
      rw [hfind] at hfind'
      cases hfind'
    · rintro ⟨-, heq | hno⟩
      · exact absurd heq hne
      · exact absurd hhit (hno L hpos hdvd hle hall)

theorem findLongestCacheHit_eagle_iff_one_block : (∃ blocks hit, findLongestCacheHit
        ⟨[⟨.full, 2, 0, by decide, by simp⟩, ⟨.slidingWindow 3, 2, 0, by decide, by simp⟩], 2, true,
          by decide, by decide⟩ (fun _ g => some (g + 1)) 0 [5] 3 = .ok (blocks, hit) ∧
      ∀ L, IsGreatest {L | BothCached
        ⟨[⟨.full, 2, 0, by decide, by simp⟩, ⟨.slidingWindow 3, 2, 0, by decide, by simp⟩], 2, true,
          by decide, by decide⟩ (fun _ g => some (g + 1)) [5] ⟨.full, 2, 0, by decide, by simp⟩
          ⟨.slidingWindow 3, 2, 0, by decide, by simp⟩ 0 1 L ∧ L ≤ 3} L → L - 2 ≤ hit) := by
  refine (findLongestCacheHit_eagle_iff ⟨rfl, rfl, rfl, .inl ⟨rfl, rfl, rfl⟩⟩
    (fun _ g => some (g + 1)) 0 [5] 3).2 ⟨?_, .inl rfl⟩
  rintro ⟨hle, -⟩
  exact absurd hle (by decide)

/-- Four blocks are cached for both groups and the hit is empty: the sliding window manager drops a
block in each of three rounds. -/
theorem findLongestCacheHit_eagle_loses_all : findLongestCacheHit
        ⟨[⟨.full, 1, 0, by decide, by simp⟩, ⟨.slidingWindow 2, 1, 0, by decide, by simp⟩], 1, true,
          by decide, by decide⟩ (fun _ g => some (g + 1)) 0 [5, 6, 7, 8] 4 =
        .ok ([[], []], 0) ∧
      IsGreatest {L | BothCached
        ⟨[⟨.full, 1, 0, by decide, by simp⟩, ⟨.slidingWindow 2, 1, 0, by decide, by simp⟩], 1, true,
          by decide, by decide⟩ (fun _ g => some (g + 1)) [5, 6, 7, 8]
          ⟨.full, 1, 0, by decide, by simp⟩ ⟨.slidingWindow 2, 1, 0, by decide, by simp⟩ 0 1 L ∧
        L ≤ 4} 4 ∧ ¬ 4 - 1 ≤ 0 := by
  refine ⟨?_, ⟨⟨⟨by decide, by decide, by decide⟩, le_rfl⟩, fun L hL => hL.2⟩, by decide⟩
  unfold findLongestCacheHit
  rw [descend_of_lt rfl (by decide), descend_of_lt rfl (by decide),
    descend_of_lt rfl (by decide), descend_of_le rfl le_rfl]
  rfl

end HybridKVCacheCoordinator

end LoptVllm.KVCache
