import LoptVllm.KVCache.Accounting
import Mathlib.Algebra.Order.BigOperators.Group.List

/-!
# The allocation check

`allocate_slots` compares an estimate with the number of free blocks before it allocates. The
estimate covers what the managers take afterwards, whatever the kinds of the groups.
-/

namespace LoptVllm.KVCache

open List Function Nat Int KVCacheManager SlotArgs

open BlockPool SingleTypeKVCacheManager

variable {δ : Type}

/-! ### Attention windows -/

/-- Windows are not empty, and chunks are whole blocks; the attention backends assert the latter. -/
structure WholeWindows (c : ManagerConfig) : Prop where
  window_pos : ∀ w, c.spec.kind = .slidingWindow w → 0 < w
  dvd : ∀ n, c.spec.kind = .chunkedLocal n → c.blockSize ∣ n

theorem AttentionKind.getNumSkippedTokens_mono (kind : AttentionKind) :
    Monotone kind.getNumSkippedTokens := by
  intro a b hab
  cases kind with
  | full | cross | sinkFull _ => exact le_rfl
  | slidingWindow w => exact Nat.sub_le_sub_right (succ_le_succ hab) w
  | chunkedLocal c => exact mul_le_mul_right c (Nat.div_le_div_right hab)
  | mamba _ => exact Nat.sub_le_sub_right hab 1

theorem WholeWindows.getNumSkippedTokens_le {c : ManagerConfig} (h : WholeWindows c)
    (numComputedTokens : ℕ) :
    c.spec.kind.getNumSkippedTokens numComputedTokens ≤ numComputedTokens := by
  unfold AttentionKind.getNumSkippedTokens
  split
  · exact zero_le _
  · exact zero_le _
  · exact zero_le _
  · next w hw =>
    have := h.window_pos w hw
    omega
  · exact div_mul_le_self _ _
  · exact sub_le _ _

namespace SingleTypeKVCacheManager

variable {m m' : SingleTypeKVCacheManager} {rid : ℕ}

theorem numSkippedBlocks_mono (m : SingleTypeKVCacheManager) : Monotone m.numSkippedBlocks :=
  fun _ _ hab => Nat.div_le_div_right (m.spec.kind.getNumSkippedTokens_mono hab)

/-- The skipped blocks are among those of the computed tokens. -/
theorem numSkippedBlocks_le (h : WholeWindows m.toManagerConfig) {numComputedTokens n : ℕ}
    (hn : numComputedTokens ≤ n * m.blockSize) : m.numSkippedBlocks numComputedTokens ≤ n := by
  refine Nat.le_of_mul_le_mul_right ?_ m.blockSize_pos
  exact (div_mul_le_self _ _).trans ((h.getNumSkippedTokens_le _).trans hn)

theorem le_addSpeculativeTokens (m : SingleTypeKVCacheManager) (numTokens : ℕ) :
    numTokens ≤ m.addSpeculativeTokens numTokens := by
  unfold addSpeculativeTokens
  split
  · split_ifs
    · exact le_add_right _ _
    · exact le_rfl
  · exact le_rfl

theorem isCrossAttention_iff : m.isCrossAttention = true ↔ m.spec.kind = .cross := by
  unfold isCrossAttention
  cases m.spec.kind <;> simp

/-! ### The estimate of a group -/

/-- What `get_num_blocks_to_allocate` returns when its assertion holds. -/
def estimate (m : SingleTypeKVCacheManager) (pool : BlockPool δ) (rid numTokens : ℕ)
    (hits : List ℕ) (total : ℕ) : ℕ :=
  if rid ∈ m.numCachedBlock then
    cdiv (m.addSpeculativeTokens numTokens) m.blockSize - (m.blocks rid).length
  else
    cdiv (m.addSpeculativeTokens numTokens) m.blockSize -
        max (m.numSkippedBlocks total) (hits.length + (m.blocks rid).length) +
      (hits.drop (m.numSkippedBlocks total - (m.blocks rid).length)).countP pool.IsFree

variable {hits : List ℕ}

theorem getNumBlocksToAllocate_eq (m : SingleTypeKVCacheManager) (pool : BlockPool δ)
    (numTokens : ℕ) (total : ℕ) (hhits : rid ∈ m.numCachedBlock → hits = []) :
    m.getNumBlocksToAllocate pool rid numTokens hits total =
      .ok (m.estimate pool rid numTokens hits total) := by
  unfold getNumBlocksToAllocate estimate
  by_cases hmem : rid ∈ m.numCachedBlock
  · simp [if_pos hmem, hhits hmem, ne_eq, not_true_eq_false]
  · simp [if_neg hmem]

/-- The tokens that a group needs slots for. -/
def slotTokens (m : SingleTypeKVCacheManager) (numTokens numEncoderTokens : ℕ) : ℕ :=
  if m.isCrossAttention then numEncoderTokens else numTokens

/-- The estimate of a group in `coordinator.get_num_blocks_to_allocate`. -/
def groupEstimate (m : SingleTypeKVCacheManager) (pool : BlockPool δ) (rid numTokens : ℕ)
    (hits : List ℕ) (numEncoderTokens total : ℕ) : ℕ :=
  if m.isCrossAttention then m.estimate pool rid numEncoderTokens [] 0
  else m.estimate pool rid numTokens hits total

/-- The blocks that `allocate_new_computed_blocks` takes out of the queue. -/
def startCost (m : SingleTypeKVCacheManager) (pool : BlockPool δ) (rid : ℕ) (hits : List ℕ)
    (numLocal numExternal : ℕ) : ℕ :=
  if m.isCrossAttention ∨ rid ∈ m.numCachedBlock then 0
  else (hits.drop (m.numSkippedBlocks (numLocal + numExternal))).countP pool.IsFree +
    m.numExternalBlocks hits.length numLocal numExternal

/-- The blocks that `allocate_new_blocks` takes out of the queue. -/
def extendCost (m : SingleTypeKVCacheManager) (rid numTokens numEncoderTokens : ℕ) : ℕ :=
  cdiv (m.addSpeculativeTokens (m.slotTokens numTokens numEncoderTokens)) m.blockSize -
    (m.blocks rid).length

/-- The estimate covers the new blocks of a request that has all its computed blocks. -/
theorem extendCost_le (m : SingleTypeKVCacheManager) (pool : BlockPool δ) {total : ℕ}
    (numTokens numEncoderTokens : ℕ) (hskip : m.isCrossAttention = false → rid ∉ m.numCachedBlock →
      m.numSkippedBlocks total ≤ (m.blocks rid).length) :
    m.extendCost rid numTokens numEncoderTokens ≤
      m.groupEstimate pool rid numTokens [] numEncoderTokens total := by
  unfold extendCost groupEstimate slotTokens estimate
  by_cases hcross : m.isCrossAttention
  · have hzero : m.numSkippedBlocks 0 = 0 := by
      unfold numSkippedBlocks
      rw [isCrossAttention_iff.1 hcross]
      exact Nat.zero_div _
    simp only [hzero]
    split_ifs
    · exact le_rfl
    · simp
  · simp only [if_neg hcross]
    split_ifs with hmem
    · exact le_rfl
    · have := hskip (by simpa using hcross) hmem
      simp [max_eq_right this]

theorem numExternalBlocks_le (m : SingleTypeKVCacheManager) (numHits numLocal numExternal : ℕ) :
    m.numExternalBlocks numHits numLocal numExternal ≤ cdiv (numLocal + numExternal) m.blockSize -
        max (m.numSkippedBlocks (numLocal + numExternal)) numHits := by
  unfold numExternalBlocks
  generalize (if 0 < m.numSkippedBlocks (numLocal + numExternal) then
    min (numLocal + numExternal - m.spec.kind.getNumSkippedTokens (numLocal + numExternal))
      numExternal else numExternal) = n
  split_ifs
  · exact le_rfl
  · exact zero_le _

variable {numLocal numExternal numTokens : ℕ}

theorem numExternalBlocks_le_required (m : SingleTypeKVCacheManager) (numHits : ℕ)
    (hfit : numLocal + numExternal ≤ numTokens) : m.numExternalBlocks numHits numLocal numExternal ≤
      cdiv (m.addSpeculativeTokens numTokens) m.blockSize -
        max (m.numSkippedBlocks (numLocal + numExternal)) numHits := by
  refine (m.numExternalBlocks_le numHits numLocal numExternal).trans ?_
  refine Nat.sub_le_sub_right (Nat.div_le_div_right ?_) _
  have := m.le_addSpeculativeTokens numTokens
  omega

theorem startCost_le (m : SingleTypeKVCacheManager) (pool : BlockPool δ) (numEncoderTokens : ℕ)
    (hfit : m.isCrossAttention = false → rid ∉ m.numCachedBlock →
      m.blocks rid = [] ∧ numLocal + numExternal ≤ numTokens) :
    m.startCost pool rid hits numLocal numExternal ≤
      m.groupEstimate pool rid numTokens hits numEncoderTokens (numLocal + numExternal) := by
  unfold startCost
  split_ifs with hskip
  · exact zero_le _
  · obtain ⟨hcross, hmem⟩ := not_or.1 hskip
    rw [Bool.not_eq_true] at hcross
    obtain ⟨hnil, hle⟩ := hfit hcross hmem
    have := m.numExternalBlocks_le_required hits.length hle
    unfold groupEstimate estimate
    rw [hcross, if_neg Bool.false_ne_true, if_neg hmem, hnil, length_nil, add_zero, Nat.sub_zero]
    omega

/-- The estimate covers the blocks that a request starts with, and its new blocks. -/
theorem startCost_add_extendCost_le {pool : BlockPool δ} {nullBlock : ℕ} (numEncoderTokens : ℕ)
    (hfit : m.isCrossAttention = false → rid ∉ m.numCachedBlock →
      numLocal + numExternal ≤ numTokens)
    (hstart : StartsOrKeeps nullBlock m rid numLocal numExternal hits m') :
    m.startCost pool rid hits numLocal numExternal + m'.extendCost rid numTokens numEncoderTokens ≤
      m.groupEstimate pool rid numTokens hits numEncoderTokens (numLocal + numExternal) := by
  obtain ⟨hkeep, rfl, rfl⟩ | ⟨⟨hcross, hmem⟩, hnil, ret, hret, hstarts⟩ := hstart
  · -- nothing is allocated at the start
    unfold startCost
    rw [if_pos hkeep, zero_add]
    refine extendCost_le m' pool numTokens numEncoderTokens fun hcross hmem => ?_
    rw [hcross] at hkeep
    exact absurd hkeep (by simpa using hmem)
  · set skipped := m.numSkippedBlocks (numLocal + numExternal) with hskipped
    have hconfig := hstarts.setsBlocks.config
    have hcross' : m'.isCrossAttention = false := by
      unfold isCrossAttention
      rw [hconfig]
      exact hcross
    have hspec : m'.addSpeculativeTokens numTokens = m.addSpeculativeTokens numTokens := by
      unfold addSpeculativeTokens
      rw [hconfig]
    have hsize : m'.blockSize = m.blockSize := congrArg (·.blockSize) hconfig
    have hlen : (m'.blocks rid).length = max skipped hits.length + ret.length := by
      rw [hstarts.setsBlocks.self, length_startBlocks]
    have hext := m.numExternalBlocks_le_required hits.length (hfit hcross hmem)
    unfold startCost extendCost groupEstimate slotTokens estimate
    simp only [hcross', hcross, Bool.false_eq_true, false_or, if_neg hmem, if_false]
    rw [hspec, hsize, hlen, hnil, ← hret, ← hskipped, length_nil, add_zero, Nat.sub_zero]
    omega

end SingleTypeKVCacheManager

namespace KVCacheManager

variable {hasher : BlockHasher δ} {kv kv' : KVCacheManager δ} {first rid : ℕ}

/-! ### What cannot fail -/

/-- The hit for the group of a manager. -/
def hitsOf (blocks : List (List ℕ)) (m : SingleTypeKVCacheManager) : List ℕ :=
  (blocks[m.groupId]?).getD []

section

variable (h : Sound hasher first kv)
include h

theorem Sound.counted_zero : kv.blockPool.Counted first (0 + totalOcc kv.singleTypeManagers) := by
  rw [zero_add]
  exact h.counted

theorem forEach_ok (Q : BlockPool δ → Prop) (hQ : Q kv.blockPool)
    {f : SingleTypeKVCacheManager → BlockPool δ →
      Except PyErr (SingleTypeKVCacheManager × BlockPool δ)} (cost : SingleTypeKVCacheManager → ℕ)
    (hf : ∀ m ∈ kv.singleTypeManagers, ∀ pool others, Q pool →
      pool.Counted first (others + m.occ) → (cost m : ℤ) ≤ pool.getNumFreeBlocks →
      ∃ m' pool', f m pool = .ok (m', pool') ∧ Q pool' ∧ pool'.Counted first (others + m'.occ) ∧
        pool.getNumFreeBlocks ≤ pool'.getNumFreeBlocks + cost m)
    (hcost : ((kv.singleTypeManagers.map cost).sum : ℕ) ≤ kv.getNumFreeBlocks) :
    ∃ kv', kv.forEach f = .ok kv' ∧
      kv.getNumFreeBlocks ≤ kv'.getNumFreeBlocks + (kv.singleTypeManagers.map cost).sum := by
  obtain ⟨ms, pool', hms, hfree⟩ := forManagers_ok id Q cost hf hQ h.counted_zero hcost
  exact ⟨_, bind_ok.2 ⟨_, hms, rfl⟩, hfree⟩

theorem removeSkippedBlocks_ok (rid total : ℕ) : ∃ kv', kv.removeSkippedBlocks rid total = .ok kv' ∧
      kv.getNumFreeBlocks ≤ kv'.getNumFreeBlocks := by
  have hzero : ((kv.singleTypeManagers.map fun _ => 0).sum : ℕ) = 0 := by simp
  obtain ⟨kv', hok, hfree⟩ := forEach_ok h _ h.goodPool (fun _ => 0)
    (fun m hm pool others hgood hcounted _ => by
      obtain ⟨m', pool', hcall, hcounted', hsame, hle, -⟩ :=
        removeSkippedBlocks_spec hcounted (h.distinct_pool hm hgood rid) total
      exact ⟨m', pool', hcall, hgood.of_sameIndex hsame, hcounted', by simpa using hle⟩) (by
    rw [hzero]
    obtain ⟨free, hholds, -⟩ := h.counted.queue
    show (0 : ℤ) ≤ kv.blockPool.freeBlockQueue.numFreeBlocks
    rw [hholds.numFreeBlocks]
    exact natCast_nonneg _)
  exact ⟨kv', hok, by simpa using hfree⟩

end

/-- Some hit for each group, of `L` tokens. -/
def Hits (first : ℕ) (kv : KVCacheManager δ) (blocks : List (List ℕ)) (L : ℕ) : Prop :=
  ∀ c ∈ kv.configs, ∃ l, blocks[c.groupId]? = some l ∧
    HitList first c kv.blockPool.toBlockPoolConfig L l

variable {blocks : List (List ℕ)} {L : ℕ} {m : SingleTypeKVCacheManager}

theorem Hits.hitsOf (h : Hits first kv blocks L) (hm : m ∈ kv.singleTypeManagers) :
    blocks[m.groupId]? = some (hitsOf blocks m) ∧
      HitList first m.toManagerConfig kv.blockPool.toBlockPoolConfig L (hitsOf blocks m) := by
  obtain ⟨l, hl, hlist⟩ := h m.toManagerConfig (mem_map_of_mem hm)
  have hl' : blocks[m.groupId]? = some l := hl
  have heq : KVCacheManager.hitsOf blocks m = l := by
    unfold KVCacheManager.hitsOf
    rw [hl', Option.getD_some]
  rw [heq]
  exact ⟨hl', hlist⟩

/-- The request has nothing, or it has blocks for the computed tokens and gets no new hit. -/
structure Startable (kv : KVCacheManager δ) (rid : ℕ) (blocks : List (List ℕ))
    (numLocal numExternal numTokens : ℕ) : Prop where
  fits : ∀ m ∈ kv.singleTypeManagers, m.isCrossAttention = false → rid ∉ m.numCachedBlock →
    blocks.all isEmpty = false ∨ numExternal ≠ 0 →
      m.blocks rid = [] ∧ numLocal + numExternal ≤ numTokens
  covered : ∀ m ∈ kv.singleTypeManagers, m.isCrossAttention = false → rid ∉ m.numCachedBlock →
    blocks.all isEmpty = true → numExternal = 0 →
      m.numSkippedBlocks (numLocal + numExternal) ≤ (m.blocks rid).length
  hits : ∀ m ∈ kv.singleTypeManagers, rid ∈ m.numCachedBlock → hitsOf blocks m = []

/-- The estimate of `coordinator.get_num_blocks_to_allocate`. -/
def totalEstimate (kv : KVCacheManager δ) (rid numTokens : ℕ) (blocks : List (List ℕ))
    (numEncoderTokens total : ℕ) : ℕ :=
  (kv.singleTypeManagers.map fun m =>
    m.groupEstimate kv.blockPool rid numTokens (hitsOf blocks m) numEncoderTokens total).sum

variable {numLocal numExternal numTokens : ℕ}

theorem getNumBlocksToAllocate_eq (hhits : Hits first kv blocks L)
    (hstart : Startable kv rid blocks numLocal numExternal numTokens)
    (numTokens' numEncoderTokens total : ℕ) :
    kv.getNumBlocksToAllocate rid numTokens' blocks numEncoderTokens total =
      .ok (kv.totalEstimate rid numTokens' blocks numEncoderTokens total) := by
  refine bind_ok.2 ⟨_, mapM_ok (fun m => m.groupEstimate kv.blockPool rid numTokens'
    (hitsOf blocks m) numEncoderTokens total) fun m hm => ?_, rfl⟩
  obtain ⟨hget, -⟩ := hhits.hitsOf hm
  unfold groupEstimate
  by_cases hcross : m.isCrossAttention
  · rw [if_pos hcross, if_pos hcross]
    exact SingleTypeKVCacheManager.getNumBlocksToAllocate_eq m kv.blockPool numEncoderTokens 0
      fun _ => rfl
  · rw [if_neg hcross, if_neg hcross]
    refine bind_ok.2 ⟨hitsOf blocks m, ?_, ?_⟩
    · unfold groupBlocks
      rw [hget]
    · exact SingleTypeKVCacheManager.getNumBlocksToAllocate_eq m kv.blockPool numTokens' total
        (hstart.hits m hm)

theorem sum_le_of_forall₂ {α β : Type} {R : α → β → Prop} {f k : α → ℕ} {g : β → ℕ} {l : List α}
    {l' : List β} (h : Forall₂ R l l') (hR : ∀ a ∈ l, ∀ b, R a b → f a + g b ≤ k a) :
    (l.map f).sum + (l'.map g).sum ≤ (l.map k).sum := by
  induction h with
  | nil => exact le_rfl
  | cons hab _ ih =>
    obtain ⟨ha, hl⟩ := forall_mem_cons.1 hR
    have := ha _ hab
    have := ih hl
    simp only [map_cons, sum_cons]
    omega

variable [DecidableEq δ]

/-- A request can start when there are as many free blocks as that costs. -/
theorem allocateNewComputedBlocks_ok (h : Sound hasher first kv) (hhits : Hits first kv blocks L)
    (hL : L ≤ numLocal)
    (hnil : ∀ m ∈ kv.singleTypeManagers, m.isCrossAttention = false → rid ∉ m.numCachedBlock →
      m.blocks rid = [])
    (hmem : ∀ m ∈ kv.singleTypeManagers, rid ∈ m.numCachedBlock → hitsOf blocks m = [])
    (hcost : ((kv.singleTypeManagers.map fun m =>
      m.startCost kv.blockPool rid (hitsOf blocks m) numLocal numExternal).sum : ℕ) ≤
        kv.getNumFreeBlocks) :
    ∃ kv', kv.allocateNewComputedBlocks rid blocks numLocal numExternal = .ok kv' ∧
      kv.getNumFreeBlocks ≤ kv'.getNumFreeBlocks + (kv.singleTypeManagers.map fun m =>
        m.startCost kv.blockPool rid (hitsOf blocks m) numLocal numExternal).sum := by
  refine forEach_ok h (fun pool =>
    GoodPool hasher first kv.configs kv.blockPool.toBlockPoolConfig pool ∧
      ∀ b, kv.blockPool.refCnt b ≤ pool.refCnt b) ⟨h.goodPool, fun b => le_rfl⟩ _
    (fun m hm pool others hQ hcounted hfree => ?_) hcost
  obtain ⟨hgood, hrefs⟩ := hQ
  obtain ⟨hget, hlist⟩ := hhits.hitsOf hm
  have hgroup : groupBlocks blocks m = .ok (hitsOf blocks m) := by
    unfold groupBlocks
    rw [hget]
  have hnull := hgood.nullBlock
  have hnum : pool.numGpuBlocks = kv.blockPool.numGpuBlocks :=
    congrArg (·.numGpuBlocks) hgood.config
  by_cases hskip : m.isCrossAttention ∨ rid ∈ m.numCachedBlock
  · have hempty : hitsOf blocks m = [] := by
      rcases hskip with hcross | hcached
      · exact hlist.cross (isCrossAttention_iff.1 hcross)
      · exact hmem m hm hcached
    refine ⟨m, pool, bind_ok.2 ⟨_, hgroup, ?_⟩, ⟨hgood, hrefs⟩, hcounted, ?_⟩
    · unfold SingleTypeKVCacheManager.allocateNewComputedBlocks
      rw [if_pos hskip, if_neg (not_not.2 hempty)]
    · omega
  · obtain ⟨hcross, hcached⟩ := not_or.1 hskip
    rw [Bool.not_eq_true] at hcross
    have hus : ∀ b ∈ hitsOf blocks m, b ≠ pool.nullBlock → pool.Usable first b := by
      intro b hb hne
      rw [hnull] at hne
      rw [Usable, hnum]
      exact hlist.range b hb hne
    have hdist : Distinct pool.nullBlock (hitsOf blocks m) := by
      rw [hnull]
      exact hlist.distinct
    -- fewer blocks are free than at the time of the estimate
    have hcount : ((hitsOf blocks m).drop (m.numSkippedBlocks (numLocal + numExternal))).countP
        pool.IsFree ≤ ((hitsOf blocks m).drop
          (m.numSkippedBlocks (numLocal + numExternal))).countP kv.blockPool.IsFree := by
      refine countP_mono_left fun b _ hb => ?_
      obtain ⟨hzero, hne⟩ := of_decide_eq_true hb
      rw [hnull] at hne
      refine decide_eq_true ⟨le_antisymm ?_ (h.counted.refCnt_nonneg hne), hne⟩
      exact (hrefs b).trans_eq hzero
    have hcost' : m.startCost kv.blockPool rid (hitsOf blocks m) numLocal numExternal =
        ((hitsOf blocks m).drop (m.numSkippedBlocks (numLocal + numExternal))).countP
          kv.blockPool.IsFree + m.numExternalBlocks (hitsOf blocks m).length numLocal
            numExternal := by
      unfold startCost
      rw [if_neg hskip]
    obtain ⟨ret, m', pool', hcall, hcounted', hindexed', hret, hgrows, hfree', -⟩ | ⟨-, hlt⟩ :=
      allocateNewComputedBlocks_spec hcounted hgood.indexed hcross hcached
        (hnil m hm hcross hcached) hus hdist (hlist.length.trans_le hL) hlist.off numExternal
    · refine ⟨m', pool', bind_ok.2 ⟨_, hgroup, hcall⟩, ⟨hgood.of_grows hgrows hindexed',
        fun b => (hrefs b).trans (hgrows.refCnt_le b)⟩, hcounted', ?_⟩
      omega
    · omega

theorem allocateNewBlocks_ok (h : Sound hasher first kv) (rid numTokens numEncoderTokens : ℕ)
    (hcost : ((kv.singleTypeManagers.map fun m =>
      m.extendCost rid numTokens numEncoderTokens).sum : ℕ) ≤ kv.getNumFreeBlocks) :
    ∃ newBlocks kv', kv.allocateNewBlocks rid numTokens numEncoderTokens = .ok (newBlocks, kv') ∧
      kv.getNumFreeBlocks ≤ kv'.getNumFreeBlocks + (kv.singleTypeManagers.map fun m =>
        m.extendCost rid numTokens numEncoderTokens).sum := by
  obtain ⟨rs, pool', hrs, hfree⟩ := forManagers_ok Prod.snd _ (fun m =>
    m.extendCost rid numTokens numEncoderTokens) (fun m hm pool others hgood hcounted hfree => by
      obtain ⟨new, m', pool', hcall, hcounted', hindexed', hlen, hgrows, hnum, -⟩ | ⟨-, hlt⟩ :=
        allocateNewBlocks_spec hcounted (GoodPool.indexed hgood) (h.distinct_pool hm hgood rid)
          (m.slotTokens numTokens numEncoderTokens)
      · refine ⟨(new, m'), pool', hcall, hgood.of_grows hgrows hindexed', hcounted', ?_⟩
        have hlen' : new.length = m.extendCost rid numTokens numEncoderTokens := hlen
        omega
      · have hlt' : pool.getNumFreeBlocks < m.extendCost rid numTokens numEncoderTokens := hlt
        omega) h.goodPool h.counted_zero hcost
  exact ⟨_, _, bind_ok.2 ⟨_, hrs, rfl⟩, hfree⟩

variable {numEncoderTokens : ℕ}

/-- **The estimate is sufficient.** -/
theorem allocateBlocks_ok (h : Sound hasher first kv) (hhits : Hits first kv blocks L)
    (hL : L ≤ numLocal) (hstart : Startable kv rid blocks numLocal numExternal numTokens)
    (hcost : kv.totalEstimate rid numTokens blocks numEncoderTokens (numLocal + numExternal) ≤
      kv.getNumFreeBlocks) :
    ∃ newBlocks kv', kv.allocateBlocks rid blocks numLocal numExternal numTokens
        numEncoderTokens = .ok (newBlocks, kv') ∧ kv.getNumFreeBlocks ≤ kv'.getNumFreeBlocks +
        kv.totalEstimate rid numTokens blocks numEncoderTokens (numLocal + numExternal) := by
  unfold allocateBlocks
  set total := kv.totalEstimate rid numTokens blocks numEncoderTokens (numLocal + numExternal)
  set startSum := (kv.singleTypeManagers.map fun m =>
    m.startCost kv.blockPool rid (hitsOf blocks m) numLocal numExternal).sum
  set extendSum := fun kv : KVCacheManager δ => (kv.singleTypeManagers.map fun m =>
    m.extendCost rid numTokens numEncoderTokens).sum
  by_cases hnone : blocks.all isEmpty ∧ numExternal = 0
  · rw [if_pos hnone]
    have hle : extendSum kv ≤ total := by
      refine sum_le_sum fun m hm => ?_
      have hempty : hitsOf blocks m = [] := by
        obtain ⟨hget, -⟩ := hhits.hitsOf hm
        exact List.isEmpty_iff.1 (all_eq_true.1 hnone.1 _ (mem_of_getElem? hget))
      rw [hempty]
      exact extendCost_le m kv.blockPool numTokens numEncoderTokens fun hcross hmem =>
        hstart.covered m hm hcross hmem hnone.1 hnone.2
    obtain ⟨newBlocks, kv', hok, hfree⟩ :=
      allocateNewBlocks_ok h rid numTokens numEncoderTokens ((Int.ofNat_le.2 hle).trans hcost)
    exact ⟨newBlocks, kv', hok, hfree.trans (Int.add_le_add_left (Int.ofNat_le.2 hle) _)⟩
  · rw [if_neg hnone]
    have hneeds : blocks.all isEmpty = false ∨ numExternal ≠ 0 := by
      rcases not_and_or.1 hnone with hblocks | hext
      · exact .inl (by simpa using hblocks)
      · exact .inr hext
    -- the blocks at the start, in any state that the start leads to, and the new blocks
    have hsum : ∀ kv₁ : KVCacheManager δ, Forall₂ (fun m m' =>
        ∃ l, blocks[m.groupId]? = some l ∧
          StartsOrKeeps kv.blockPool.nullBlock m rid numLocal numExternal l m')
          kv.singleTypeManagers kv₁.singleTypeManagers → startSum + extendSum kv₁ ≤ total := by
      intro kv₁ hR
      refine sum_le_of_forall₂ hR fun m hm m' hmm' => ?_
      obtain ⟨l, hl, hkeeps⟩ := hmm'
      obtain ⟨hget, -⟩ := hhits.hitsOf hm
      cases hget.symm.trans hl
      exact startCost_add_extendCost_le numEncoderTokens (fun hcross hmem =>
        (hstart.fits m hm hcross hmem hneeds).2) hkeeps
    have hstartCost : startSum ≤ total :=
      sum_le_sum fun m hm => startCost_le m kv.blockPool numEncoderTokens
        fun hcross hmem => hstart.fits m hm hcross hmem hneeds
    obtain ⟨kv₁, hok₁, (hfree₁ : _ ≤ _ + (startSum : ℤ))⟩ := allocateNewComputedBlocks_ok h hhits hL
      (fun m hm hcross hmem => (hstart.fits m hm hcross hmem hneeds).1) hstart.hits
      ((Int.ofNat_le.2 hstartCost).trans hcost)
    obtain ⟨h₁, -, hR⟩ := allocateNewComputedBlocks_sound h hhits hL hok₁
    have := hsum kv₁ hR
    obtain ⟨newBlocks, kv', hok, (hfree : _ ≤ _ + (extendSum kv₁ : ℤ))⟩ :=
      allocateNewBlocks_ok h₁ rid numTokens numEncoderTokens
        (show (extendSum kv₁ : ℤ) ≤ kv₁.getNumFreeBlocks by omega)
    exact ⟨newBlocks, kv', bind_ok.2 ⟨kv₁, hok₁, hok⟩, by omega⟩

/-! ### The calls of the scheduler -/

/-- The calls of `allocate_slots` that the scheduler makes. A request that has no blocks has no
computed tokens but those of its hit and the external ones. One that has blocks gets no new hit,
its computed tokens are in its blocks, and it has external tokens only when it started with some. -/
structure Admissible (kv : KVCacheManager δ) (resident : Bool) (args : SlotArgs hasher) : Prop where
  hit : ∃ withHit, kv.passedHit args.request withHit =
    .ok (args.newComputedBlocks, args.numNewComputedTokens)
  fresh : resident = false → args.request.numComputedTokens = 0 ∧ 0 ≤ args.numNewTokens ∧
    args.computedTokens ≤ kv.maxModelLen
  resident : resident = true → args.numNewComputedTokens = 0 ∧
    (∀ m ∈ kv.singleTypeManagers, m.isCrossAttention = false →
      args.computedTokens ≤ (m.blocks args.request.requestId).length * m.blockSize) ∧
    (args.numExternalComputedTokens = 0 ∨ ∀ m ∈ kv.singleTypeManagers,
      m.isCrossAttention = false → args.request.requestId ∈ m.numCachedBlock)

/-- The states that the calls of the scheduler lead to from `kv₀`. `seen` has, for each request that
has been given blocks since it was last freed, the largest number of computed tokens that its blocks
were skipped for. -/
inductive Reaches (hasher : BlockHasher δ) (kv₀ : KVCacheManager δ) :
    KVCacheManager δ → (ℕ → Option ℕ) → Prop
  | init : Reaches hasher kv₀ kv₀ fun _ => none
  | allocated {kv kv' : KVCacheManager δ} {seen : ℕ → Option ℕ} {args : SlotArgs hasher}
      {newBlocks : List (List ℕ)} : Reaches hasher kv₀ kv seen →
      Admissible kv (seen args.request.requestId).isSome args →
      kv.allocateSlots args = .ok (kv', some newBlocks) →
      Reaches hasher kv₀ kv' (update seen args.request.requestId
        (some (max ((seen args.request.requestId).getD 0)
          (args.totalComputedTokens kv.maxModelLen))))
  | refused {kv kv' : KVCacheManager δ} {seen : ℕ → Option ℕ} {args : SlotArgs hasher} :
      Reaches hasher kv₀ kv seen →
      Admissible kv (seen args.request.requestId).isSome args →
      kv.allocateSlots args = .ok (kv', none) →
      Reaches hasher kv₀ kv' (update seen args.request.requestId
        ((seen args.request.requestId).map (max · (args.totalComputedTokens kv.maxModelLen))))
  | cacheBlocks {kv kv' : KVCacheManager δ} {seen : ℕ → Option ℕ}
      {request : SchedulerRequest hasher} {numComputedTokens : ℕ} : Reaches hasher kv₀ kv seen →
      (seen request.requestId).isSome → kv.cacheBlocks request numComputedTokens = .ok kv' →
      Reaches hasher kv₀ kv' seen
  | removeSkippedBlocks {kv kv' : KVCacheManager δ} {seen : ℕ → Option ℕ} {rid total : ℕ} :
      Reaches hasher kv₀ kv seen → kv.removeSkippedBlocks rid total = .ok kv' →
      Reaches hasher kv₀ kv' (update seen rid ((seen rid).map (max · total)))
  | free {kv kv' : KVCacheManager δ} {seen : ℕ → Option ℕ} {rid : ℕ} :
      Reaches hasher kv₀ kv seen → kv.free rid = .ok kv' →
      Reaches hasher kv₀ kv' (update seen rid none)
  | evictBlocks {kv kv' : KVCacheManager δ} {seen : ℕ → Option ℕ} {blockIds : List ℕ} :
      Reaches hasher kv₀ kv seen → kv.evictBlocks blockIds = .ok kv' → Reaches hasher kv₀ kv' seen
  | resetPrefixCache {kv : KVCacheManager δ} {seen : ℕ → Option ℕ} : Reaches hasher kv₀ kv seen →
      Reaches hasher kv₀ kv.resetPrefixCache.1 seen

/-- What a manager holds for a request whose blocks were skipped for at most `seen` tokens. -/
def Windowed (nullBlock : ℕ) (v : ManagerConfig × List ℕ × Option ℕ) : Option ℕ → Prop
  | none => v.2.1 = [] ∧ v.2.2 = none
  | some total => ∀ i b : ℕ, v.2.1[i]? = some b →
      v.1.spec.kind.getNumSkippedTokens total / v.1.blockSize ≤ i → b ≠ nullBlock

/-- The blocks of the request are not null from the attention window after `total` tokens on. -/
def WindowedTo (nullBlock : ℕ) (m : SingleTypeKVCacheManager) (rid total : ℕ) : Prop :=
  ∀ i b : ℕ, (m.blocks rid)[i]? = some b → m.numSkippedBlocks total ≤ i → b ≠ nullBlock

variable {nullBlock total : ℕ}

theorem WindowedTo.mono {total' : ℕ} (h : WindowedTo nullBlock m rid total) (hle : total ≤ total') :
    WindowedTo nullBlock m rid total' :=
  fun i b hb hi => h i b hb ((m.numSkippedBlocks_mono hle).trans hi)

variable {m' : SingleTypeKVCacheManager}

theorem numSkippedBlocks_congr (h : m'.toManagerConfig = m.toManagerConfig) (total : ℕ) :
    m'.numSkippedBlocks total = m.numSkippedBlocks total := by
  unfold numSkippedBlocks
  rw [h]

theorem WindowedTo.removes {total' : ℕ} (h : WindowedTo nullBlock m rid total')
    (hle : total ≤ total') (hrem : Removes nullBlock m rid (m.numSkippedBlocks total) m') :
    WindowedTo nullBlock m' rid total' := by
  intro i b hb hi
  rw [numSkippedBlocks_congr hrem.setsBlocks.config] at hi
  rcases hrem.block i with hsame | ⟨hlt, -⟩
  · exact h i b (hsame ▸ hb) hi
  · have := m.numSkippedBlocks_mono hle
    omega

/-- A hit is complete from its attention window on, and the blocks for external tokens are new. -/
theorem Starts.windowedTo {config : BlockPoolConfig} {hits ret : List ℕ}
    (hwhole : WholeWindows m.toManagerConfig)
    (hlist : HitList first m.toManagerConfig config L hits) (hL : L ≤ total)
    (hstarts : Starts config.nullBlock m rid (m.numSkippedBlocks total) hits ret m') :
    WindowedTo config.nullBlock m' rid total := by
  intro i b hb hi
  rw [numSkippedBlocks_congr hstarts.setsBlocks.config] at hi
  rw [hstarts.setsBlocks.self, startBlocks, append_assoc, getElem?_append_right (by
    rwa [length_replicate]), length_replicate] at hb
  by_cases hin : i - m.numSkippedBlocks total < (hits.drop (m.numSkippedBlocks total)).length
  · rw [getElem?_append_left hin, getElem?_drop, Nat.add_sub_cancel' hi] at hb
    refine hlist.window hwhole.dvd i b hb ?_
    exact (Nat.div_le_div_right (m.spec.kind.getNumSkippedTokens_mono hL)).trans hi
  · rw [getElem?_append_right (not_lt.1 hin)] at hb
    exact hstarts.ne_nullBlock b (mem_of_getElem? hb)

theorem WindowedTo.extends {new : List ℕ} (h : WindowedTo nullBlock m rid total)
    (hext : Extends nullBlock m rid new m') : WindowedTo nullBlock m' rid total := by
  intro i b hb hi
  rw [numSkippedBlocks_congr hext.setsBlocks.config] at hi
  rw [hext.setsBlocks.self] at hb
  by_cases hin : i < (m.blocks rid).length
  · rw [getElem?_append_left hin] at hb
    exact h i b hb hi
  · rw [getElem?_append_right (not_lt.1 hin)] at hb
    exact hext.ne_nullBlock b (mem_of_getElem? hb)

/-- The request has the blocks that it needs. -/
def Allocated (nullBlock : ℕ) (m : SingleTypeKVCacheManager) (rid total numTokens : ℕ) : Prop :=
  WindowedTo nullBlock m rid total ∧
    cdiv (m.addSpeculativeTokens numTokens) m.blockSize ≤ (m.blocks rid).length

theorem slotTokens_congr (h : m'.toManagerConfig = m.toManagerConfig)
    (numTokens numEncoderTokens : ℕ) :
    m'.addSpeculativeTokens (m'.slotTokens numTokens numEncoderTokens) =
      m.addSpeculativeTokens (m.slotTokens numTokens numEncoderTokens) := by
  unfold addSpeculativeTokens slotTokens isCrossAttention
  rw [h]

variable {newBlocks : List (List ℕ)}

theorem allocateNewBlocks_allocated (h : Sound hasher first kv)
    (hw : ∀ m ∈ kv.singleTypeManagers, WindowedTo kv.blockPool.nullBlock m rid total)
    (hok : kv.allocateNewBlocks rid numTokens numEncoderTokens = .ok (newBlocks, kv')) :
    ∀ m' ∈ kv'.singleTypeManagers, Allocated kv.blockPool.nullBlock m' rid total
      (m'.slotTokens numTokens numEncoderTokens) := by
  obtain ⟨-, -, hR⟩ := allocateNewBlocks_sound h hok
  intro m' hm'
  obtain ⟨m, hm, new, hext, hlen⟩ := exists_of_mem_right hR hm'
  refine ⟨(hw m hm).extends hext, ?_⟩
  have hconfig := hext.setsBlocks.config
  have hsize : m'.blockSize = m.blockSize := congrArg (·.blockSize) hconfig
  have hlen' : new.length = cdiv (m.addSpeculativeTokens (m.slotTokens numTokens numEncoderTokens))
      m.blockSize - (m.blocks rid).length := hlen
  rw [slotTokens_congr hconfig, hsize, hext.setsBlocks.self, length_append]
  omega

/-- **What is allocated** reaches up to the last token. -/
theorem allocateBlocks_allocated (h : Sound hasher first kv)
    (hwhole : ∀ c ∈ kv.configs, WholeWindows c) (hhits : Hits first kv blocks L) (hL : L ≤ numLocal)
    (hstart : Startable kv rid blocks numLocal numExternal numTokens)
    (htotal : numLocal + numExternal ≤ numTokens → numLocal + numExternal ≤ total)
    (hw : ∀ m ∈ kv.singleTypeManagers, WindowedTo kv.blockPool.nullBlock m rid total)
    (hok : kv.allocateBlocks rid blocks numLocal numExternal numTokens numEncoderTokens =
      .ok (newBlocks, kv')) :
    ∀ m' ∈ kv'.singleTypeManagers, Allocated kv.blockPool.nullBlock m' rid total
      (m'.slotTokens numTokens numEncoderTokens) := by
  unfold allocateBlocks at hok
  split_ifs at hok with hnone
  · exact allocateNewBlocks_allocated h hw hok
  · have hneeds : blocks.all isEmpty = false ∨ numExternal ≠ 0 := by
      rcases not_and_or.1 hnone with hblocks | hext
      · exact .inl (by simpa using hblocks)
      · exact .inr hext
    obtain ⟨kv₁, hok₁, hok⟩ := bind_ok.1 hok
    obtain ⟨h₁, htouches, hR⟩ := allocateNewComputedBlocks_sound h hhits hL hok₁
    have hnull : kv₁.blockPool.nullBlock = kv.blockPool.nullBlock :=
      congrArg (·.nullBlock) htouches.setup.pool
    rw [← hnull]
    refine allocateNewBlocks_allocated h₁ (fun m' hm' => ?_) hok
    rw [hnull]
    obtain ⟨m, hm, l, hl, hkeeps⟩ := exists_of_mem_right hR hm'
    obtain ⟨-, -, rfl⟩ | ⟨⟨hcross, hmem⟩, -, ret, -, hstarts⟩ := hkeeps
    · exact hw _ hm
    · obtain ⟨hget, hlist⟩ := hhits.hitsOf hm
      cases hget.symm.trans hl
      have hfit := (hstart.fits m hm hcross hmem hneeds).2
      exact (Starts.windowedTo (hwhole _ (mem_map_of_mem hm)) hlist
        (hL.trans (le_add_right _ _)) hstarts).mono (htotal hfit)

/-! ### The states that the scheduler reaches -/

variable {request : SchedulerRequest hasher}

omit [DecidableEq δ] in
/-- A hit of 0 tokens has no blocks. -/
theorem KVHit.all_isEmpty (h : Ready hasher kv) (hhit : KVHit kv request blocks 0) :
    blocks.all isEmpty = true := by
  rw [all_eq_true]
  intro l hl
  obtain ⟨i, hi⟩ := mem_iff_getElem?.1 hl
  have hlt : i < kv.configs.length := by
    rw [configs, length_map, ← hhit.length]
    exact (List.getElem?_eq_some_iff.1 hi).1
  obtain ⟨l', hl', hprefix⟩ := hhit.group kv.configs[i] (getElem_mem hlt)
  rw [h.groupId i _ (getElem?_eq_getElem hlt), hi] at hl'
  cases hl'
  rw [List.isEmpty_iff]
  refine eq_nil_of_length_eq_zero ?_
  exact (Nat.mul_eq_zero.1 hprefix.length).resolve_right kv.configs[i].blockSize_pos.ne'

variable {seen : ℕ → Option ℕ} {args : SlotArgs hasher}

/-- The blocks that a call passes on, or none. -/
def passedBlocks (kv : KVCacheManager δ) (args : SlotArgs hasher) : List (List ℕ) :=
  args.newComputedBlocks.getD kv.emptyKVCacheBlocks

/-- The tokens that blocks are skipped for after a call of `allocate_slots`. -/
def seenAfter (seen : Option ℕ) (args : SlotArgs hasher) (maxModelLen : ℕ) : ℕ :=
  max (seen.getD 0) (args.totalComputedTokens maxModelLen)

/-- The state before blocks are allocated. -/
structure Removed (first : ℕ) (kv : KVCacheManager δ) (seen : Option ℕ) (args : SlotArgs hasher)
    (kv₁ : KVCacheManager δ) : Prop where
  sound : Sound hasher first kv₁
  touches : Touches args.request.requestId kv kv₁
  removes : Forall₂ (fun m m' => Removes kv.blockPool.nullBlock m args.request.requestId
    (m.numSkippedBlocks (args.totalComputedTokens kv.maxModelLen)) m')
      kv.singleTypeManagers kv₁.singleTypeManagers
  hits : Hits first kv₁ (kv.passedBlocks args) args.numNewComputedTokens
  startable : Startable kv₁ args.request.requestId (kv.passedBlocks args)
    args.numLocalComputedTokens args.numExternalComputedTokens
    (args.numTokensNeedSlot kv.maxModelLen)
  total : args.numLocalComputedTokens + args.numExternalComputedTokens ≤
      args.numTokensNeedSlot kv.maxModelLen →
    args.numLocalComputedTokens + args.numExternalComputedTokens ≤
      seenAfter seen args kv.maxModelLen
  windowed : ∀ m ∈ kv₁.singleTypeManagers, WindowedTo kv.blockPool.nullBlock m
    args.request.requestId (seenAfter seen args kv.maxModelLen)

section

omit [DecidableEq δ]

theorem numTokensNeedSlot_le (args : SlotArgs hasher) (maxModelLen : ℕ) :
    args.numTokensNeedSlot maxModelLen ≤ maxModelLen := by
  unfold numTokensNeedSlot
  omega

theorem le_numTokensNeedSlot {maxModelLen : ℕ} (hnew : 0 ≤ args.numNewTokens)
    (hle : args.computedTokens ≤ maxModelLen) :
    args.computedTokens ≤ args.numTokensNeedSlot maxModelLen := by
  unfold numTokensNeedSlot totalComputedTokens
  omega

theorem Hits.hitsOf_eq_nil (h : Hits first kv blocks L) (hempty : blocks.all isEmpty = true)
    (hm : m ∈ kv.singleTypeManagers) : KVCacheManager.hitsOf blocks m = [] := by
  obtain ⟨hget, -⟩ := h.hitsOf hm
  exact List.isEmpty_iff.1 (all_eq_true.1 hempty _ (mem_of_getElem? hget))

end

variable {kv₁ : KVCacheManager δ}

section

variable (hhits : Hits first kv₁ blocks args.numNewComputedTokens)
  (hwhole : ∀ m ∈ kv₁.singleTypeManagers, WholeWindows m.toManagerConfig)

include hhits hwhole

omit [DecidableEq δ] in
/-- A request that holds nothing can start. -/
theorem startable_fresh
    (hnone : ∀ m ∈ kv₁.singleTypeManagers, m.blocks rid = [] ∧ rid ∉ m.numCachedBlock)
    (hzero : args.request.numComputedTokens = 0) (hle : args.computedTokens ≤ numTokens) :
    Startable kv₁ rid blocks args.numLocalComputedTokens args.numExternalComputedTokens
      numTokens := by
  refine ⟨fun m hm _ _ _ => ⟨(hnone m hm).1, hle⟩, fun m hm _ _ hempty hext => ?_,
    fun m hm hmem => absurd hmem (hnone m hm).2⟩
  have hL : args.numNewComputedTokens = 0 := by
    obtain ⟨-, hlist⟩ := hhits.hitsOf hm
    rw [← hlist.length, hhits.hitsOf_eq_nil hempty hm, length_nil, zero_mul]
  refine numSkippedBlocks_le (hwhole m hm) ?_
  unfold numLocalComputedTokens
  rw [hL, hzero, hext]
  exact zero_le _

omit [DecidableEq δ] in
/-- A request that has blocks can go on. -/
theorem startable_resident (hempty : blocks.all isEmpty = true)
    (hle : ∀ m ∈ kv₁.singleTypeManagers, m.isCrossAttention = false →
      args.computedTokens ≤ (m.blocks rid).length * m.blockSize)
    (hext : args.numExternalComputedTokens = 0 ∨ ∀ m ∈ kv₁.singleTypeManagers,
      m.isCrossAttention = false → rid ∈ m.numCachedBlock) (numTokens : ℕ) :
    Startable kv₁ rid blocks args.numLocalComputedTokens args.numExternalComputedTokens
      numTokens := by
  refine ⟨fun m hm hcross hmem hneeds => ?_, fun m hm hcross _ _ _ => ?_,
    fun m hm _ => hhits.hitsOf_eq_nil hempty hm⟩
  · have hne := hneeds.resolve_left (by simp [hempty])
    exact absurd (hext.resolve_left hne m hm hcross) hmem
  · exact numSkippedBlocks_le (hwhole m hm) (hle m hm hcross)

end

omit [DecidableEq δ] in
/-- An admissible call can allocate blocks once the skipped ones are removed. -/
theorem Admissible.removed (hfree : CollisionFree hasher) (h : Sound hasher first kv)
    (hwhole : ∀ c ∈ kv.configs, WholeWindows c) {seen : Option ℕ}
    (hw : ∀ v ∈ kv.view args.request.requestId, Windowed kv.blockPool.nullBlock v seen)
    (hadm : Admissible kv seen.isSome args) (hremove : kv.removeSkippedBlocks args.request.requestId
      (args.totalComputedTokens kv.maxModelLen) = .ok kv₁) : Removed first kv seen args kv₁ := by
  set id := args.request.requestId
  obtain ⟨h₁, htouches, hR⟩ := removeSkippedBlocks_sound h hremove
  obtain ⟨withHit, hpassed⟩ := hadm.hit
  have hhit : KVHit kv args.request (kv.passedBlocks args) args.numNewComputedTokens :=
    passedHit_hit h.ready hpassed
  have hhits : Hits first kv₁ (kv.passedBlocks args) args.numNewComputedTokens := by
    intro c hc
    rw [htouches.setup.configs] at hc
    rw [htouches.setup.pool]
    exact hhit.hitList h hfree hc
  have hwhole₁ : ∀ m ∈ kv₁.singleTypeManagers, WholeWindows m.toManagerConfig := by
    intro m hm
    refine hwhole _ ?_
    rw [← htouches.setup.configs]
    exact mem_map_of_mem hm
  have hview : ∀ m ∈ kv.singleTypeManagers, Windowed kv.blockPool.nullBlock
      (m.toManagerConfig, m.blocks id, m.numCachedBlock.lookup id) seen :=
    fun m hm => hw _ (mem_map_of_mem hm)
  -- what holds for the blocks of a manager before the removal
  have hprev : ∀ m₁ ∈ kv₁.singleTypeManagers, ∃ m ∈ kv.singleTypeManagers,
      Removes kv.blockPool.nullBlock m id
        (m.numSkippedBlocks (args.totalComputedTokens kv.maxModelLen)) m₁ :=
    fun m₁ hm₁ => exists_of_mem_right hR hm₁
  refine ⟨h₁, htouches, hR, hhits, ?_, ?_, ?_⟩
  · cases seen with
    | none =>
      obtain ⟨hzero, hnew, hle⟩ := hadm.fresh rfl
      refine startable_fresh hhits hwhole₁ (fun m₁ hm₁ => ?_) hzero (le_numTokensNeedSlot hnew hle)
      obtain ⟨m, hm, hrem⟩ := hprev m₁ hm₁
      have hnil : m.blocks id = [] := (hview m hm).1
      have hlookup : m.numCachedBlock.lookup id = none := (hview m hm).2
      refine ⟨eq_nil_of_length_eq_zero ?_, ?_⟩
      · rw [hrem.length, hnil, length_nil]
      · rw [hrem.numCachedBlock]
        exact AList.lookup_eq_none.1 hlookup
    | some total =>
      obtain ⟨hL, hlen, hext⟩ := hadm.resident rfl
      rw [hL] at hhit
      have hconfig : ∀ {m m₁ : SingleTypeKVCacheManager}, m₁.toManagerConfig = m.toManagerConfig →
          m₁.isCrossAttention = false → m.isCrossAttention = false := by
        intro m m₁ heq hcross
        unfold isCrossAttention at hcross ⊢
        rwa [heq] at hcross
      refine startable_resident hhits hwhole₁ (hhit.all_isEmpty h.ready) (fun m₁ hm₁ hcross => ?_)
        (hext.imp_right fun hmem m₁ hm₁ hcross => ?_) _
      · obtain ⟨m, hm, hrem⟩ := hprev m₁ hm₁
        have hsize : m₁.blockSize = m.blockSize := congrArg (·.blockSize) hrem.setsBlocks.config
        rw [hrem.length, hsize]
        exact hlen m hm (hconfig hrem.setsBlocks.config hcross)
      · obtain ⟨m, hm, hrem⟩ := hprev m₁ hm₁
        rw [hrem.numCachedBlock]
        exact hmem m hm (hconfig hrem.setsBlocks.config hcross)
  · intro hle
    have := numTokensNeedSlot_le args kv.maxModelLen
    unfold seenAfter totalComputedTokens computedTokens
    omega
  · intro m₁ hm₁
    obtain ⟨m, hm, hrem⟩ := hprev m₁ hm₁
    refine WindowedTo.removes ?_ (le_max_right _ _) hrem
    have := hview m hm
    cases seen with
    | none =>
      have hnil : m.blocks id = [] := this.1
      intro i b hb
      rw [hnil] at hb
      cases hb
    | some total => exact WindowedTo.mono this (le_max_left _ _)

/-! ### What a call does -/

theorem Allocated.congr
    (h : Allocated nullBlock m rid total (m.slotTokens numTokens numEncoderTokens))
    (hconfig : m'.toManagerConfig = m.toManagerConfig) (hblocks : m'.blocks rid = m.blocks rid) :
    Allocated nullBlock m' rid total (m'.slotTokens numTokens numEncoderTokens) := by
  have hsize : m'.blockSize = m.blockSize := congrArg (·.blockSize) hconfig
  refine ⟨fun i b hb hi => ?_, ?_⟩
  · rw [hblocks] at hb
    rw [numSkippedBlocks_congr hconfig] at hi
    exact h.1 i b hb hi
  · rw [slotTokens_congr hconfig, hsize, hblocks]
    exact h.2

theorem coordinatorCacheBlocks_free (h : Sound hasher first kv) (hon : kv.enableCaching = true)
    (hok : kv.coordinatorCacheBlocks request numTokens = .ok kv') :
    kv'.getNumFreeBlocks = kv.getNumFreeBlocks := by
  obtain ⟨⟨ms, pool'⟩, hms, hret⟩ := bind_ok.1 hok
  cases hret
  obtain ⟨⟨-, hqueue⟩, -⟩ := forManagers_spec id (fun pool =>
    GoodPool hasher first kv.configs kv.blockPool.toBlockPoolConfig pool ∧
      pool.freeBlockQueue = kv.blockPool.freeBlockQueue)
    (fun m hm pool others m' pool' hQ hcounted hcall => by
      obtain ⟨hgood, hqueue⟩ := hQ
      have hcaching : pool.enableCaching = true :=
        (congrArg (·.enableCaching) hgood.config).trans (h.ready.pool.trans hon)
      have hsize : pool.hashBlockSize = hasher.blockSize :=
        (congrArg (·.hashBlockSize) hgood.config).trans h.ready.hashBlockSize
      obtain ⟨hcounted', hindexed', hcaches, -⟩ :=
        cacheBlocks_spec hcounted hgood.indexed hcaching hcall
      have hqueue' := hcaches.freeBlockQueue.trans hqueue
      rw [hsize] at hcaches
      exact ⟨⟨⟨hcaches.config.trans hgood.config, hindexed',
        hgood.filled.of_caches (mem_map_of_mem hm) hcaches⟩, hqueue'⟩, hcounted', trivial⟩)
    ⟨h.goodPool, rfl⟩ h.counted_zero hms
  show pool'.freeBlockQueue.numFreeBlocks = _
  rw [hqueue]
  rfl

/-- **The course of an admissible call.** -/
theorem Admissible.course (hfree : CollisionFree hasher) (h : Sound hasher first kv)
    (hwhole : ∀ c ∈ kv.configs, WholeWindows c) {seen : Option ℕ}
    (hw : ∀ v ∈ kv.view args.request.requestId, Windowed kv.blockPool.nullBlock v seen)
    (hadm : Admissible kv seen.isSome args) (hremove : kv.removeSkippedBlocks args.request.requestId
      (args.totalComputedTokens kv.maxModelLen) = .ok kv₁) {res : Option (List (List ℕ))}
    (hok : kv.allocateSlots args = .ok (kv', res)) :
    (res = none → kv' = kv₁) ∧ ∀ newBlocks, res = some newBlocks →
      kv₁.getNumFreeBlocks ≤ kv'.getNumFreeBlocks + kv₁.totalEstimate args.request.requestId
        (args.numTokensNeedSlot kv.maxModelLen) (kv.passedBlocks args) args.numEncoderTokens
        args.computedTokens ∧
      ∀ m ∈ kv'.singleTypeManagers, Allocated kv.blockPool.nullBlock m args.request.requestId
        (seenAfter seen args kv.maxModelLen)
        (m.slotTokens (args.numTokensNeedSlot kv.maxModelLen) args.numEncoderTokens) := by
  obtain ⟨h₁, htouches, hR, hhits, hstart, htotal, hwindowed⟩ :=
    hadm.removed hfree h hwhole hw hremove
  have hnull : kv₁.blockPool.nullBlock = kv.blockPool.nullBlock :=
    congrArg (·.nullBlock) htouches.setup.pool
  obtain ⟨kv₁', n, hremove', hn, hcases⟩ := allocateSlots_cases hok
  cases hremove.symm.trans hremove'
  have hn' := getNumBlocksToAllocate_eq hhits hstart (args.numTokensNeedSlot kv.maxModelLen)
    args.numEncoderTokens args.computedTokens
  cases hn.symm.trans hn'
  obtain ⟨-, rfl, rfl⟩ | ⟨hroom, newBlocks, kv₂, rfl, halloc, hcaching⟩ := hcases
  · exact ⟨fun _ => rfl, nofun⟩
  refine ⟨nofun, fun newBlocks' hres => ?_⟩
  obtain ⟨_, _, halloc', hfree₂⟩ := allocateBlocks_ok h₁ hhits (le_add_left _ _) hstart hroom
  cases halloc.symm.trans halloc'
  have hwhole₁ : ∀ c ∈ kv₁.configs, WholeWindows c := htouches.setup.configs ▸ hwhole
  have hallocated := allocateBlocks_allocated h₁ hwhole₁ hhits (le_add_left _ _) hstart htotal
    (hnull ▸ hwindowed) halloc
  rw [hnull] at hallocated
  obtain rfl | ⟨hon, hcache⟩ := hcaching
  · exact ⟨hfree₂, hallocated⟩
  · obtain ⟨h₂, -⟩ := allocateBlocks_sound h₁ hhits (le_add_left _ _) halloc
    obtain ⟨-, -, hR₃⟩ := coordinatorCacheBlocks_sound h₂ hon hcache
    rw [coordinatorCacheBlocks_free h₂ hon hcache]
    refine ⟨hfree₂, fun m' hm' => ?_⟩
    obtain ⟨m, hm, hconfig, hblocks⟩ := exists_of_mem_right hR₃ hm'
    refine (hallocated m hm).congr hconfig ?_
    unfold blocks
    rw [hblocks]

omit [DecidableEq δ] in
theorem windowed_of_touches (htouches : Touches rid kv kv')
    (hw : ∀ r, ∀ v ∈ kv.view r, Windowed kv.blockPool.nullBlock v (seen r)) {s : Option ℕ}
    (hself : ∀ v ∈ kv'.view rid, Windowed kv.blockPool.nullBlock v s) :
    ∀ r, ∀ v ∈ kv'.view r, Windowed kv'.blockPool.nullBlock v (update seen rid s r) := by
  have hnull : kv'.blockPool.nullBlock = kv.blockPool.nullBlock :=
    congrArg (·.nullBlock) htouches.setup.pool
  rw [hnull]
  intro r v hv
  by_cases hr : r = rid
  · subst hr
    rw [update_self]
    exact hself v hv
  · rw [htouches.other r hr] at hv
    rw [update_of_ne hr]
    exact hw r v hv

omit [DecidableEq δ] in
/-- After blocks are removed, the request has those of a smaller window. -/
theorem windowed_of_removes {s : Option ℕ}
    (hR : Forall₂ (fun m m' => Removes nullBlock m rid (m.numSkippedBlocks total) m')
      kv.singleTypeManagers kv'.singleTypeManagers)
    (hw : ∀ v ∈ kv.view rid, Windowed nullBlock v s) :
    ∀ v ∈ kv'.view rid, Windowed nullBlock v (s.map (max · total)) := by
  intro v hv
  obtain ⟨m', hm', rfl⟩ := mem_map.1 hv
  obtain ⟨m, hm, hrem⟩ := exists_of_mem_right hR hm'
  have hm := hw _ (mem_map_of_mem hm)
  cases s with
  | none =>
    obtain ⟨hnil, hlookup⟩ := hm
    refine ⟨eq_nil_of_length_eq_zero ?_, ?_⟩
    · exact hrem.length.trans (congrArg List.length hnil)
    · show m'.numCachedBlock.lookup rid = none
      rw [hrem.numCachedBlock]
      exact hlookup
  | some t => exact (WindowedTo.mono hm (le_max_left t total)).removes (le_max_right t total) hrem

/-- **The invariant of the reached states.** -/
theorem Reaches.sound (hfree : CollisionFree hasher) {kv₀ : KVCacheManager δ}
    (h₀ : Sound hasher first kv₀) (hwhole : ∀ c ∈ kv₀.configs, WholeWindows c)
    (hnil : ∀ r, ∀ v ∈ kv₀.view r, v.2.1 = [] ∧ v.2.2 = none)
    (hreach : Reaches hasher kv₀ kv seen) : Sound hasher first kv ∧ SameSetup kv₀ kv ∧
      ∀ r, ∀ v ∈ kv.view r, Windowed kv.blockPool.nullBlock v (seen r) := by
  -- along the calls; the views of the request stay windowed
  induction hreach with
  | init => exact ⟨h₀, .refl kv₀, hnil⟩
  | @allocated kv kv' seen args newBlocks _ hadm hok ih =>
    obtain ⟨h, hsetup, hw⟩ := ih
    obtain ⟨withHit, hpassed⟩ := hadm.hit
    obtain ⟨h', htouches⟩ := allocateSlots_sound h
      (fun c hc => (passedHit_hit h.ready hpassed).hitList h hfree hc) hok
    refine ⟨h', hsetup.trans htouches.setup, windowed_of_touches htouches hw ?_⟩
    obtain ⟨kv₁, hremove, -⟩ := removeSkippedBlocks_ok h args.request.requestId
      (args.totalComputedTokens kv.maxModelLen)
    obtain ⟨-, hsome⟩ := hadm.course hfree h (hsetup.configs ▸ hwhole) (hw _) hremove hok
    intro v hv
    obtain ⟨m, hm, rfl⟩ := mem_map.1 hv
    exact ((hsome newBlocks rfl).2 m hm).1
  | @refused kv kv' seen args _ hadm hok ih =>
    obtain ⟨h, hsetup, hw⟩ := ih
    obtain ⟨kv₁, hremove, -⟩ := removeSkippedBlocks_ok h args.request.requestId
      (args.totalComputedTokens kv.maxModelLen)
    obtain ⟨hnone, -⟩ := hadm.course hfree h (hsetup.configs ▸ hwhole) (hw _) hremove hok
    obtain rfl := hnone rfl
    obtain ⟨h', htouches, hR⟩ := removeSkippedBlocks_sound h hremove
    exact ⟨h', hsetup.trans htouches.setup,
      windowed_of_touches htouches hw (windowed_of_removes hR (hw _))⟩
  | @cacheBlocks kv kv' seen request numComputedTokens _ hsome hok ih =>
    obtain ⟨h, hsetup, hw⟩ := ih
    unfold KVCacheManager.cacheBlocks at hok
    split_ifs at hok with hon
    · obtain ⟨h', htouches, hR⟩ := coordinatorCacheBlocks_sound h hon hok
      have := windowed_of_touches htouches hw (s := seen request.requestId) fun v hv => by
        obtain ⟨m', hm', rfl⟩ := mem_map.1 hv
        obtain ⟨m, hm, hconfig, hblocks⟩ := exists_of_mem_right hR hm'
        have hm := hw request.requestId _ (mem_map_of_mem hm)
        obtain ⟨total, htotal⟩ := Option.isSome_iff_exists.1 hsome
        have hsame : m'.blocks request.requestId = m.blocks request.requestId := by
          unfold blocks
          rw [hblocks]
        rw [htotal] at hm ⊢
        rw [hconfig, hsame]
        exact hm
      rw [update_eq_self] at this
      exact ⟨h', hsetup.trans htouches.setup, this⟩
    · cases hok
      exact ⟨h, hsetup, hw⟩
  | removeSkippedBlocks _ hok ih =>
    obtain ⟨h, hsetup, hw⟩ := ih
    obtain ⟨h', htouches, hR⟩ := removeSkippedBlocks_sound h hok
    exact ⟨h', hsetup.trans htouches.setup,
      windowed_of_touches htouches hw (windowed_of_removes hR (hw _))⟩
  | @free kv kv' seen rid _ hok ih =>
    obtain ⟨h, hsetup, hw⟩ := ih
    obtain ⟨h', htouches, hR⟩ := free_sound h hok
    refine ⟨h', hsetup.trans htouches.setup, windowed_of_touches htouches hw fun v hv => ?_⟩
    obtain ⟨m', hm', rfl⟩ := mem_map.1 hv
    obtain ⟨m, -, hforget⟩ := exists_of_mem_right hR hm'
    exact ⟨hforget.setsBlocks.self, AList.lookup_eq_none.2 hforget.not_mem⟩
  | evictBlocks _ hok ih =>
    obtain ⟨h, hsetup, hw⟩ := ih
    obtain ⟨pool', hevict, hret⟩ := bind_ok.1 hok
    cases hret
    obtain ⟨hev, hindexed⟩ := evictBlocks_indexed h.indexed hevict
    obtain ⟨h', hsetup'⟩ := h.of_evicts hev hindexed
    refine ⟨h', hsetup.trans hsetup', fun r v hv => ?_⟩
    rw [congrArg (·.nullBlock) hsetup'.pool]
    exact hw r v hv
  | @resetPrefixCache kv seen _ ih =>
    obtain ⟨h, hsetup, hw⟩ := ih
    obtain ⟨hev, hindexed⟩ := resetPrefixCache_indexed h.indexed
    obtain ⟨h', hsetup'⟩ := h.of_evicts hev hindexed
    refine ⟨h', hsetup.trans hsetup', fun r v hv => ?_⟩
    have hnull : kv.resetPrefixCache.1.blockPool.nullBlock = kv.blockPool.nullBlock :=
      congrArg (·.nullBlock) hsetup'.pool
    rw [hnull]
    exact hw r v hv

/-- What a call without a result does: some blocks of the request before the attention window become
null blocks. No block gets a reference or a key. -/
structure OnlyRemoves (rid : ℕ) (kv kv' : KVCacheManager δ) : Prop where
  managers : Forall₂ (fun m m' => ∃ skipped,
    Removes kv.blockPool.nullBlock m rid skipped m') kv.singleTypeManagers kv'.singleTypeManagers
  refCnt : ∀ b, b ≠ kv.blockPool.nullBlock → kv'.blockPool.refCnt b ≤ kv.blockPool.refCnt b
  sameIndex : SameIndex kv.blockPool kv'.blockPool

theorem count_le_of_replaced {a b : ℕ} (hb : b ≠ a) {l l' : List ℕ} (hlen : l'.length = l.length)
    (h : ∀ i : ℕ, l'[i]? = l[i]? ∨ l'[i]? = some a) : l'.count b ≤ l.count b := by
  induction l generalizing l' with
  | nil =>
    rw [eq_nil_of_length_eq_zero hlen]
  | cons x l ih =>
    cases l' with
    | nil => cases hlen
    | cons x' l' =>
      have := ih (Nat.succ.inj hlen) fun i => h (i + 1)
      rcases h 0 with heq | heq
      · cases heq
        rw [count_cons, count_cons]
        omega
      · cases heq
        rw [count_cons_of_ne hb.symm]
        exact this.trans (count_le_count_cons ..)

omit [DecidableEq δ] in
theorem removeSkippedBlocks_only (h : Sound hasher first kv)
    (hok : kv.removeSkippedBlocks rid total = .ok kv') : OnlyRemoves rid kv kv' := by
  obtain ⟨h', htouches, hR⟩ := removeSkippedBlocks_sound h hok
  have hnull : kv'.blockPool.nullBlock = kv.blockPool.nullBlock :=
    congrArg (·.nullBlock) htouches.setup.pool
  refine ⟨hR.imp fun m m' hrem => ⟨_, hrem⟩, fun b hb => ?_, ?_⟩
  · -- references are occurrences, and there are not more of them
    rw [h.counted.refCnt b hb, h'.counted.refCnt b (hnull ▸ hb)]
    refine Int.ofNat_le.2 ?_
    have hsum : ∀ {ms ms' : List SingleTypeKVCacheManager}, Forall₂ (fun m m' =>
        Removes kv.blockPool.nullBlock m rid (m.numSkippedBlocks total) m') ms ms' →
        totalOcc ms' b ≤ totalOcc ms b := by
      intro ms ms' hR
      induction hR with
      | nil => exact le_rfl
      | @cons m m' ms ms' hrem _ ih =>
        have hocc := congrFun hrem.setsBlocks.occ b
        have hcount : tally (m'.blocks rid) b ≤ tally (m.blocks rid) b :=
          count_le_of_replaced hb hrem.length fun i => (hrem.block i).imp_right And.right
        rw [totalOcc_cons, totalOcc_cons]
        simp only [Pi.add_apply] at hocc ⊢
        omega
    exact hsum hR
  · obtain ⟨⟨ms, pool'⟩, hms, hret⟩ := bind_ok.1 hok
    cases hret
    obtain ⟨⟨-, hsame⟩, -⟩ := forManagers_spec id (fun pool =>
      GoodPool hasher first kv.configs kv.blockPool.toBlockPoolConfig pool ∧
        SameIndex kv.blockPool pool)
      (fun m hm pool others m' pool' hQ hcounted hcall => by
        obtain ⟨hgood, hsame⟩ := hQ
        obtain ⟨m₁, pool₁, hcall₁, hcounted₁, hsame₁, -⟩ :=
          removeSkippedBlocks_spec hcounted (h.distinct_pool hm hgood rid) total
        cases hcall.symm.trans hcall₁
        exact ⟨⟨hgood.of_sameIndex hsame₁, hsame₁.config.trans hsame.config,
          hsame₁.blockHash.trans hsame.blockHash, hsame₁.map.trans hsame.map,
          hsame₁.filledBy.trans hsame.filledBy⟩, hcounted₁, trivial⟩)
      ⟨h.goodPool, ⟨rfl, rfl, rfl, rfl⟩⟩ h.counted_zero hms
    exact hsame

/-- The tokens from `start` up to `stop` are in blocks of the request that are not null. -/
def CoversTokens (nullBlock : ℕ) (m : SingleTypeKVCacheManager) (rid start stop : ℕ) : Prop :=
  ∀ t, start ≤ t → t < stop → ∃ b, (m.blocks rid)[t / m.blockSize]? = some b ∧ b ≠ nullBlock

theorem Allocated.coversTokens (h : Allocated nullBlock m rid total numTokens) :
    CoversTokens nullBlock m rid (m.spec.kind.getNumSkippedTokens total) numTokens := by
  intro t hstart hstop
  have hlt : t / m.blockSize < (m.blocks rid).length := by
    refine lt_of_lt_of_le ?_ h.2
    by_contra hle
    have hadd := (cdiv_le_iff m.blockSize_pos).1 (not_lt.1 hle)
    have := hadd.trans (div_mul_le_self t m.blockSize)
    have := m.le_addSpeculativeTokens numTokens
    omega
  have hget := getElem?_eq_getElem hlt
  exact ⟨_, hget, h.1 _ _ hget (Nat.div_le_div_right hstart)⟩

/-- **The allocation check is sufficient and atomic.**  In every state that the scheduler reaches,
an estimate not above the number of free blocks covers what is allocated. A call without a result
only removes skipped blocks. After a call with a result, each group has blocks for the tokens that
it needs slots for, from the attention window on. -/
theorem allocateSlots_checked (hfree : CollisionFree hasher) {specs : List KVCacheSpec}
    {numGpuBlocks maxModelLen dcpWorldSize pcpWorldSize : ℕ} {enableCaching useEagle : Bool}
    {kv₀ : KVCacheManager δ}
    (hnew : new specs numGpuBlocks maxModelLen hasher.blockSize enableCaching
      useEagle dcpWorldSize pcpWorldSize = .ok kv₀)
    (hwhole : ∀ c ∈ kv₀.configs, WholeWindows c) (hreach : Reaches hasher kv₀ kv seen)
    (hadm : Admissible kv (seen args.request.requestId).isSome args) :
    ∃ kv₁ n, kv.removeSkippedBlocks args.request.requestId
        (args.totalComputedTokens kv.maxModelLen) = .ok kv₁ ∧
      kv₁.getNumBlocksToAllocate args.request.requestId (args.numTokensNeedSlot kv.maxModelLen)
        (kv.passedBlocks args) args.numEncoderTokens args.computedTokens = .ok n ∧
      (n ≤ kv₁.getNumFreeBlocks → ∃ newBlocks kv₂, kv₁.allocateBlocks args.request.requestId
          (kv.passedBlocks args) args.numLocalComputedTokens args.numExternalComputedTokens
          (args.numTokensNeedSlot kv.maxModelLen) args.numEncoderTokens = .ok (newBlocks, kv₂) ∧
        kv.getNumFreeBlocks ≤ kv₂.getNumFreeBlocks + n) ∧
      ∀ kv' res, kv.allocateSlots args = .ok (kv', res) →
        (res = none → kv' = kv₁ ∧ OnlyRemoves args.request.requestId kv kv') ∧
        ∀ newBlocks, res = some newBlocks → kv.getNumFreeBlocks ≤ kv'.getNumFreeBlocks + n ∧
          ∀ m ∈ kv'.singleTypeManagers,
            CoversTokens kv'.blockPool.nullBlock m args.request.requestId
              (m.spec.kind.getNumSkippedTokens
                (seenAfter (seen args.request.requestId) args kv.maxModelLen))
              (if m.isCrossAttention then args.numEncoderTokens
                else args.numTokensNeedSlot kv.maxModelLen) := by
  obtain ⟨h₀, -, -, hnil⟩ := new_sound hnew
  obtain ⟨h, hsetup, hw⟩ := hreach.sound hfree h₀ hwhole hnil
  have hwhole' : ∀ c ∈ kv.configs, WholeWindows c := hsetup.configs ▸ hwhole
  obtain ⟨kv₁, hremove, hmore⟩ := removeSkippedBlocks_ok h args.request.requestId
    (args.totalComputedTokens kv.maxModelLen)
  have hr := hadm.removed hfree h hwhole' (hw _) hremove
  refine ⟨kv₁, _, hremove, getNumBlocksToAllocate_eq hr.hits hr.startable _ _ _, fun hroom => ?_,
    fun kv' res hok => ?_⟩
  · obtain ⟨newBlocks, kv₂, halloc, hfree₂⟩ :=
      allocateBlocks_ok hr.sound hr.hits (le_add_left _ _) hr.startable hroom
    exact ⟨newBlocks, kv₂, halloc, hmore.trans hfree₂⟩
  · obtain ⟨hnone, hsome⟩ := hadm.course hfree h hwhole' (hw _) hremove hok
    refine ⟨fun hres => ?_, fun newBlocks hres => ?_⟩
    · obtain rfl := hnone hres
      exact ⟨rfl, removeSkippedBlocks_only h hremove⟩
    · obtain ⟨hfree', hallocated⟩ := hsome newBlocks hres
      obtain ⟨withHit, hpassed⟩ := hadm.hit
      obtain ⟨-, htouches⟩ := allocateSlots_sound h
        (fun c hc => (passedHit_hit h.ready hpassed).hitList h hfree hc) hok
      have hnull : kv'.blockPool.nullBlock = kv.blockPool.nullBlock :=
        congrArg (·.nullBlock) htouches.setup.pool
      rw [hnull]
      exact ⟨hmore.trans hfree', fun m hm => (hallocated m hm).coversTokens⟩

/-- The call for the whole prompt of a new request. -/
def firstSlots (request : SchedulerRequest hasher) (blocks : List (List ℕ))
    (numEncoderTokens : ℕ) : SlotArgs hasher :=
  ⟨request, request.numTokens, 0, some blocks, 0, 0, false, numEncoderTokens⟩

omit [DecidableEq δ] in
theorem admissible_firstSlots (hget : kv.getComputedBlocks request = .ok (blocks, 0))
    (hzero : request.numComputedTokens = 0) (numEncoderTokens : ℕ) :
    Admissible kv false (firstSlots request blocks numEncoderTokens) := by
  refine ⟨⟨true, ?_⟩, fun _ => ⟨hzero, natCast_nonneg _, ?_⟩, nofun⟩
  · show (kv.getComputedBlocks request).map _ = _
    rw [hget]
    rfl
  · show request.numComputedTokens + 0 + 0 ≤ _
    rw [hzero]
    exact zero_le _

/-- A prompt of three tokens. -/
def threeTokens : SchedulerRequest transcriptHasher := promptRequest 0 [1, 2, 3] (succ_pos 2)

/-- A later call for it. -/
def nextSlots (numComputedTokens : ℕ) (numNewTokens : ℤ) : SlotArgs transcriptHasher :=
  ⟨{ threeTokens with numComputedTokens }, numNewTokens, 0, none, 0, 0, false, 0⟩

theorem chunkSize_pos_windowSpec (c : ℕ) (h : AttentionKind.slidingWindow 2 = .chunkedLocal c) :
    0 < c := by cases h

/-- A sliding window of two tokens. -/
def windowSpec : KVCacheSpec := ⟨.slidingWindow 2, 2, 0, Nat.two_pos, chunkSize_pos_windowSpec⟩

/-- The blocks of the request in the window. -/
def HasWindow (kv : KVCacheManager Transcript) (blocks : List ℕ) : Prop :=
  kv.maxModelLen = 16 ∧ kv.blockPool.nullBlock = 0 ∧
    kv.singleTypeManagers.map (fun m => (m.spec, m.blockSize, m.blocks 0)) = [(windowSpec, 2, blocks)]

instance (kv : KVCacheManager Transcript) (blocks : List ℕ) : Decidable (HasWindow kv blocks) :=
  inferInstanceAs (Decidable (_ ∧ _ ∧ _))

theorem HasWindow.mem {kv : KVCacheManager Transcript} {blocks : List ℕ} (h : HasWindow kv blocks)
    {m : SingleTypeKVCacheManager} (hm : m ∈ kv.singleTypeManagers) :
    m.spec = windowSpec ∧ m.blockSize = 2 ∧ m.blocks 0 = blocks := by
  have hmem := mem_map_of_mem (f := fun m => (m.spec, m.blockSize, m.blocks 0)) hm
  rw [h.2.2] at hmem
  simpa using hmem

theorem HasWindow.admissible {kv : KVCacheManager Transcript} {blocks : List ℕ}
    (h : HasWindow kv blocks) {seen : ℕ → Option ℕ} (hseen : (seen 0).isSome = true) {n : ℕ}
    (hle : n ≤ blocks.length * 2) (k : ℤ) :
    Admissible kv (seen (nextSlots n k).request.requestId).isSome (nextSlots n k) := by
  refine ⟨⟨false, rfl⟩, fun hnone => ?_, fun _ => ⟨rfl, fun m hm _ => ?_, .inl rfl⟩⟩
  · cases hseen.symm.trans hnone
  · obtain ⟨-, hsize, hblocks⟩ := h.mem hm
    show n ≤ (m.blocks 0).length * m.blockSize
    rwa [hblocks, hsize]

/-- The prompt is computed, then a token after it, and then tokens of the prompt again, since they could
not be loaded. -/
def windowCalls (kv : KVCacheManager Transcript) :
    Except PyErr (List (KVCacheManager Transcript × Option (List (List ℕ)))) := do
  let r ← kv.allocateSlots (firstSlots threeTokens [[]] 0)
  let r' ← r.1.allocateSlots (nextSlots 3 1)
  return [r, r', ← r'.1.allocateSlots (nextSlots 1 2)]

theorem windowCalls_eq : ∃ (kv₀ kv kv' kv'' : KVCacheManager Transcript) (b' b'' : List (List ℕ)),
    new [windowSpec] 8 16 2 false false 1 1 = .ok kv₀ ∧ (∀ c ∈ kv₀.configs, WholeWindows c) ∧
      Reaches transcriptHasher kv₀ kv (update (fun _ => none) 0 (some 0)) ∧ HasWindow kv [1, 2] ∧
      kv.allocateSlots (nextSlots 3 1) = .ok (kv', some b') ∧ HasWindow kv' [0, 2] ∧
      kv'.allocateSlots (nextSlots 1 2) = .ok (kv'', some b'') ∧ HasWindow kv'' [0, 2] := by
  obtain ⟨kv₀, c, hnew, hconfigs, hkind, hget, hmax, hcalls⟩ : ∃ kv₀ c,
      new [windowSpec] 8 16 2 false false 1 1 = .ok kv₀ ∧ kv₀.configs = [c] ∧
        c.spec.kind = .slidingWindow 2 ∧ kv₀.getComputedBlocks threeTokens = .ok ([[]], 0) ∧
        kv₀.maxModelLen = 16 ∧
        (windowCalls kv₀).toOption.map (fun l => decide (Forall₂ (fun r blocks =>
          r.2.isSome ∧ HasWindow r.1 blocks) l [[1, 2], [0, 2], [0, 2]])) = some true :=
    ⟨_, _, rfl, rfl, rfl, rfl, rfl, by decide +kernel⟩
  obtain ⟨l, hl, hobs⟩ := exists_ok_of_map hcalls
  unfold windowCalls at hl
  simp only [bind_ok] at hl
  obtain ⟨⟨kv, b⟩, h₁, ⟨kv', b'⟩, h₂, ⟨kv'', b''⟩, h₃, hl⟩ := hl
  cases hl
  obtain - | ⟨⟨hb, hw⟩, - | ⟨⟨hb', hw'⟩, - | ⟨⟨hb'', hw''⟩, -⟩⟩⟩ := of_decide_eq_true hobs
  obtain ⟨b, rfl⟩ := Option.isSome_iff_exists.1 hb
  obtain ⟨b', rfl⟩ := Option.isSome_iff_exists.1 hb'
  obtain ⟨b'', rfl⟩ := Option.isSome_iff_exists.1 hb''
  have hreach := Reaches.allocated .init (admissible_firstSlots hget rfl 0) h₁
  refine ⟨kv₀, kv, kv', kv'', b', b'', hnew, fun x hx => ?_, hreach, hw, h₂, hw', h₃, hw''⟩
  rw [hconfigs] at hx
  rw [mem_singleton.1 hx]
  exact ⟨by simp [hkind], by simp [hkind]⟩

/-- The second of the calls: the first two tokens are outside the window. -/
theorem allocateSlots_checked_window : ∃ (kv kv' : KVCacheManager Transcript) (newBlocks : _),
    HasWindow kv [1, 2] ∧ kv.allocateSlots (nextSlots 3 1) = .ok (kv', some newBlocks) ∧
      ∀ m ∈ kv'.singleTypeManagers, CoversTokens 0 m 0 2 4 := by
  obtain ⟨kv₀, kv, kv', -, newBlocks, -, hnew, hwhole, hreach, hw, hcall, hw', -⟩ := windowCalls_eq
  obtain ⟨kv₁, n, -, -, -, hres⟩ := allocateSlots_checked transcriptHasher_collisionFree hnew hwhole
    hreach (hw.admissible (n := 3) rfl (by decide) 1)
  refine ⟨kv, kv', newBlocks, hw, hcall, fun m hm => ?_⟩
  have hcovers := ((hres kv' _ hcall).2 newBlocks rfl).2 m hm
  have hcross : m.isCrossAttention = false := by
    unfold SingleTypeKVCacheManager.isCrossAttention
    rw [(hw'.mem hm).1]
    rfl
  rw [(hw'.mem hm).1, hcross, hw.1, hw'.2.1] at hcovers
  exact hcovers

/-- **After a failed load** the window starts before the blocks that are left: the third of the calls
gives no block for the first tokens, which are in the window of its computed tokens. -/
theorem allocateSlots_failedLoad : ∃ (kv₀ kv kv' : KVCacheManager Transcript) (seen : ℕ → Option ℕ)
    (newBlocks : List (List ℕ)) (m : SingleTypeKVCacheManager),
    new [windowSpec] 8 16 2 false false 1 1 = .ok kv₀ ∧ Reaches transcriptHasher kv₀ kv seen ∧
      Admissible kv (seen 0).isSome (nextSlots 1 2) ∧
      kv.allocateSlots (nextSlots 1 2) = .ok (kv', some newBlocks) ∧ m ∈ kv'.singleTypeManagers ∧
      ¬CoversTokens kv'.blockPool.nullBlock m 0 (m.spec.kind.getNumSkippedTokens 1) 3 := by
  obtain ⟨kv₀, kv, kv', kv'', _, b, hnew, -, hreach, hw, hcall, hw', hcall', hw''⟩ := windowCalls_eq
  obtain ⟨m, hm⟩ : ∃ m, kv''.singleTypeManagers = [m] := by
    obtain ⟨m, hm, -⟩ := map_eq_singleton_iff.1 hw''.2.2
    exact ⟨m, hm⟩
  have hmem : m ∈ kv''.singleTypeManagers := hm ▸ mem_singleton_self m
  refine ⟨kv₀, kv', kv'', _, b, m, hnew, .allocated hreach (hw.admissible rfl (by decide) 1) hcall,
    hw'.admissible rfl (by decide) 2, hcall', hmem, fun hcovers => ?_⟩
  obtain ⟨hspec, hsize, hblocks⟩ := hw''.mem hmem
  rw [hspec, hw''.2.1] at hcovers
  obtain ⟨_, hb, hne⟩ := hcovers 0 le_rfl (by decide)
  rw [hblocks, hsize] at hb
  exact hne (Option.some.inj hb).symm
omit [DecidableEq δ] in
/-- A cross-attention group with blocks of two tokens. -/
def crossSpec : KVCacheSpec := ⟨.cross, 2, 0, Nat.two_pos, nofun⟩

/-- **A cross-attention group** gets slots for the encoder tokens only: of the three tokens that
slots are needed for, the last is in no block of it. -/
theorem allocateSlots_crossAttention : ∃ kv₀ kv : KVCacheManager _, ∃ newBlocks m,
    new [fullSpec, crossSpec] 4 16 2 false false 1 1 = .ok kv₀ ∧
      (∀ c ∈ kv₀.configs, WholeWindows c) ∧
      Admissible kv₀ false (firstSlots threeTokens [[], []] 2) ∧
      kv₀.allocateSlots (firstSlots threeTokens [[], []] 2) = .ok (kv, some newBlocks) ∧
      m ∈ kv.singleTypeManagers ∧
      ¬ CoversTokens kv.blockPool.nullBlock m 0 (m.spec.kind.getNumSkippedTokens 0)
        ((firstSlots threeTokens [[], []] 2).numTokensNeedSlot kv₀.maxModelLen) := by
  obtain ⟨kv₀, kv, newBlocks, c, c', m', m, hnew, hconfigs, hkind, hkind', hget, hok, hms, hblocks,
      hsize, hmkind, hneed⟩ :
      ∃ kv₀ kv : KVCacheManager Transcript, ∃ newBlocks c c' m' m,
      new [fullSpec, crossSpec] 4 16 2 false false 1 1 = .ok kv₀ ∧
        kv₀.configs = [c, c'] ∧ c.spec.kind = .full ∧ c'.spec.kind = .cross ∧
        kv₀.getComputedBlocks threeTokens = .ok ([[], []], 0) ∧
        kv₀.allocateSlots (firstSlots threeTokens [[], []] 2) = .ok (kv, some newBlocks) ∧
        kv.singleTypeManagers = [m', m] ∧ m.blocks 0 = [3] ∧ m.blockSize = 2 ∧
        m.spec.kind = .cross ∧
        (firstSlots threeTokens [[], []] 2).numTokensNeedSlot kv₀.maxModelLen = 3 :=
    ⟨_, _, _, _, _, _, _, rfl, rfl, rfl, rfl, rfl, rfl, rfl, rfl, rfl, rfl, rfl⟩
  refine ⟨kv₀, kv, newBlocks, m, hnew, fun x hx => ?_,
    admissible_firstSlots hget rfl 2, hok, ?_, fun hcovers => ?_⟩
  · rw [hconfigs] at hx
    rcases mem_pair.1 hx with rfl | rfl
    · exact ⟨by simp [hkind], by simp [hkind]⟩
    · exact ⟨by simp [hkind'], by simp [hkind']⟩
  · rw [hms]
    exact mem_pair.2 (.inr rfl)
  · rw [hneed] at hcovers
    obtain ⟨b, hb, -⟩ := hcovers 2 (by rw [hmkind]; exact zero_le 2) (by decide)
    rw [hblocks, hsize] at hb
    cases hb

end KVCacheManager

end LoptVllm.KVCache
