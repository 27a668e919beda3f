import LoptVllm.KVCache.BlockPool
import Mathlib.Algebra.Group.Pi.Basic
import Mathlib.Algebra.Ring.Nat
import Mathlib.Data.List.Count

/-!
# Invariants of the block pool

The blocks from `first` on are handed out; the null block and the blocks that some managers reserve
for themselves come before them. `occ b` is how often `b` occurs in the block lists of the
managers.
-/

namespace LoptVllm.KVCache

open List Option Function Int Pi FreeKVCacheBlockQueue

/-- How often each block occurs in a list. -/
def tally (l : List ℕ) (b : ℕ) : ℕ := l.count b

@[simp] theorem tally_nil : tally [] = 0 := rfl

theorem tally_cons (b : ℕ) (l : List ℕ) : tally (b :: l) = single b 1 + tally l := by
  funext c
  by_cases h : c = b
  · simp [tally, h, add_comm]
  · simp [tally, h, Ne.symm]

theorem tally_append (l l' : List ℕ) : tally (l ++ l') = tally l + tally l' := by
  funext c
  simp [tally]

theorem tally_reverse (l : List ℕ) : tally l.reverse = tally l := by
  funext c
  simp [tally]

theorem tally_pos_iff {l : List ℕ} {b : ℕ} : 0 < tally l b ↔ b ∈ l := count_pos_iff

namespace BlockPool

variable {δ : Type} {pool pool' : BlockPool δ} {first : ℕ} {occ occ' : ℕ → ℕ} {blocks : List ℕ}
  {b : ℕ}

/-- The blocks that are handed out. -/
def Usable (pool : BlockPool δ) (first b : ℕ) : Prop := first ≤ b ∧ b < pool.numGpuBlocks

/-- Reference counts are occurrences, and the queue holds the blocks without one. -/
structure Counted (pool : BlockPool δ) (first : ℕ) (occ : ℕ → ℕ) : Prop where
  nullBlock_lt : pool.nullBlock < first
  queue : ∃ l, pool.freeBlockQueue.Holds l ∧ ∀ b, b ∈ l ↔ pool.Usable first b ∧ pool.refCnt b = 0
  refCnt : ∀ b, b ≠ pool.nullBlock → pool.refCnt b = occ b
  usable : ∀ b, b ≠ pool.nullBlock → 0 < occ b → pool.Usable first b

/-- A block has a key exactly when it is stored under it; without caching no block has one. -/
structure Indexed (pool : BlockPool δ) (first : ℕ) : Prop where
  mem_iff : ∀ b key, pool.blockHash b = some key ↔ b ∈ pool.cachedBlockHashToBlock key
  nodup : ∀ key, (pool.cachedBlockHashToBlock key).Nodup
  usable : ∀ b, (pool.blockHash b).isSome → pool.Usable first b
  keyless : pool.enableCaching = false → ∀ b, pool.blockHash b = none

section

variable (h : pool.Counted first occ)

include h

theorem Counted.ne_nullBlock (hb : pool.Usable first b) : b ≠ pool.nullBlock :=
  (h.nullBlock_lt.trans_le hb.1).ne'

/-- The occurrences of the null block do not matter. -/
theorem Counted.congr (heq : ∀ b, b ≠ pool.nullBlock → occ b = occ' b) : pool.Counted first occ' :=
  ⟨h.nullBlock_lt, h.queue, fun b hb => by rw [h.refCnt b hb, heq b hb],
    fun b hb hpos => h.usable b hb (by rwa [heq b hb])⟩

theorem Counted.refCnt_nonneg (hb : b ≠ pool.nullBlock) : 0 ≤ pool.refCnt b := by
  rw [h.refCnt b hb]
  exact natCast_nonneg _

/-- Counting does not depend on the index. -/
theorem Counted.of_eq (hconfig : pool'.toBlockPoolConfig = pool.toBlockPoolConfig)
    (hqueue : pool'.freeBlockQueue = pool.freeBlockQueue) (hrefCnt : pool'.refCnt = pool.refCnt) :
    pool'.Counted first occ := by
  have hnull : pool'.nullBlock = pool.nullBlock := congrArg (·.nullBlock) hconfig
  have hnum : pool'.numGpuBlocks = pool.numGpuBlocks := congrArg (·.numGpuBlocks) hconfig
  refine ⟨hnull ▸ h.nullBlock_lt, ?_, ?_, ?_⟩
  · simp only [hqueue, hrefCnt, Usable, hnum]
    exact h.queue
  · rw [hnull, hrefCnt]
    exact h.refCnt
  · simp only [hnull, Usable, hnum]
    exact h.usable

end

/-- The index does not depend on the counts. -/
theorem Indexed.of_eq (h : pool.Indexed first)
    (hconfig : pool'.toBlockPoolConfig = pool.toBlockPoolConfig)
    (hhash : pool'.blockHash = pool.blockHash)
    (hmap : pool'.cachedBlockHashToBlock = pool.cachedBlockHashToBlock) : pool'.Indexed first := by
  have hnum : pool'.numGpuBlocks = pool.numGpuBlocks := congrArg (·.numGpuBlocks) hconfig
  have hcache : pool'.enableCaching = pool.enableCaching := congrArg (·.enableCaching) hconfig
  refine ⟨fun b key => ?_, fun key => ?_, fun b hb => ?_, ?_⟩
  · rw [hhash, hmap]
    exact h.mem_iff b key
  · rw [hmap]
    exact h.nodup key
  · rw [Usable, hnum]
    exact h.usable b (hhash ▸ hb)
  · rw [hcache, hhash]
    exact h.keyless

/-- The pools agree on the index and on what fills the blocks. -/
structure SameIndex (pool pool' : BlockPool δ) : Prop where
  config : pool'.toBlockPoolConfig = pool.toBlockPoolConfig
  blockHash : pool'.blockHash = pool.blockHash
  map : pool'.cachedBlockHashToBlock = pool.cachedBlockHashToBlock
  filledBy : pool'.filledBy = pool.filledBy

theorem SameIndex.indexed (hsame : SameIndex pool pool') (h : pool.Indexed first) :
    pool'.Indexed first :=
  h.of_eq hsame.config hsame.blockHash hsame.map

/-- Blocks that still have their key are filled as they were. -/
def Keeps (pool pool' : BlockPool δ) : Prop := ∀ b key, pool'.blockHash b = some key →
    pool.blockHash b = some key ∧ pool'.filledBy b = pool.filledBy b

theorem Keeps.trans {pool'' : BlockPool δ} (h : Keeps pool pool') (h' : Keeps pool' pool'') :
    Keeps pool pool'' := by
  intro b key hkey
  obtain ⟨hkey', hfill'⟩ := h' b key hkey
  obtain ⟨hkey, hfill⟩ := h b key hkey'
  exact ⟨hkey, hfill'.trans hfill⟩

theorem SameIndex.keeps (h : SameIndex pool pool') : Keeps pool pool' :=
  fun b _ hkey => ⟨h.blockHash ▸ hkey, congrFun h.filledBy b⟩

/-! ### Touching and freeing -/

/-- Touching a block takes it out of the queue when it is there. -/
theorem Counted.touch_one (h : pool.Counted first occ)
    (hb : b ≠ pool.nullBlock → pool.Usable first b) :
    ∃ q, pool.removeFree b = .ok q ∧ Counted { pool with
        freeBlockQueue := q
        refCnt := update pool.refCnt b (pool.refCnt b + 1) } first
        (occ + single b 1) ∧
      pool.getNumFreeBlocks = q.numFreeBlocks + if pool.IsFree b then 1 else 0 := by
  obtain ⟨l, hl, hmem⟩ := h.queue
  have hrefCnt : ∀ c, c ≠ pool.nullBlock →
      update pool.refCnt b (pool.refCnt b + 1) c = ((occ + single b 1 : ℕ → ℕ) c) := by
    intro c hc
    by_cases hcb : c = b
    · subst hcb
      simp [h.refCnt c hc]
    · simp [hcb, h.refCnt c hc]
  have husable : ∀ c, c ≠ pool.nullBlock → 0 < (occ + single b 1 : ℕ → ℕ) c →
      pool.Usable first c := by
    intro c hc hpos
    by_cases hcb : c = b
    · exact hcb ▸ hb (hcb ▸ hc)
    · exact h.usable c hc (by simpa [hcb] using hpos)
  unfold removeFree
  -- a free block leaves the queue, another one only gets a reference
  by_cases hfree : pool.IsFree b
  · obtain ⟨l₁, l₂, rfl⟩ := mem_iff_append.1 ((hmem b).2 ⟨hb hfree.2, hfree.1⟩)
    obtain ⟨q, hq, hholds, -⟩ := remove_holds hl
    refine ⟨q, by rw [if_pos hfree, hq], ⟨h.nullBlock_lt, ⟨l₁ ++ l₂, hholds, fun c => ?_⟩, hrefCnt,
      husable⟩, ?_⟩
    · show c ∈ l₁ ++ l₂ ↔ pool.Usable first c ∧ update pool.refCnt b (pool.refCnt b + 1) c = 0
      have hnotin : b ∉ l₁ ++ l₂ := (nodup_cons.1 (perm_middle.nodup_iff.1 hl.nodup)).1
      by_cases hcb : c = b
      · subst hcb
        simp [hnotin, hfree.1]
      · have := hmem c
        simp only [mem_append, mem_cons, hcb, false_or] at this
        rw [mem_append, this, update_of_ne hcb]
    · rw [if_pos hfree, getNumFreeBlocks, hl.numFreeBlocks, hholds.numFreeBlocks]
      simp only [length_append, length_cons]
      omega
  · refine ⟨pool.freeBlockQueue, if_neg hfree,
      ⟨h.nullBlock_lt, ⟨l, hl, fun c => ?_⟩, hrefCnt, husable⟩, ?_⟩
    · rw [hmem]
      refine and_congr_right fun hc => ?_
      by_cases hcb : c = b
      · subst hcb
        have hnull := h.ne_nullBlock hc
        have hne : pool.refCnt c ≠ 0 := fun hz => hfree ⟨hz, hnull⟩
        have hge := h.refCnt_nonneg hnull
        simp only [update_self]
        omega
      · simp [update_of_ne hcb]
    · rw [if_neg hfree, Int.add_zero]
      rfl

/-- **Touching** adds the blocks to the occurrences and takes those in the queue out of it. -/
theorem touch_counted (h : pool.Counted first occ)
    (hus : ∀ b ∈ blocks, b ≠ pool.nullBlock → pool.Usable first b) :
    ∃ q refCnt, pool.touch blocks = .ok { pool with freeBlockQueue := q, refCnt := refCnt } ∧
      Counted { pool with freeBlockQueue := q, refCnt := refCnt } first (occ + tally blocks) ∧
      (∀ b, pool.refCnt b ≤ refCnt b) ∧
      pool.getNumFreeBlocks ≤ q.numFreeBlocks + blocks.countP pool.IsFree := by
  induction blocks generalizing pool occ with
  | nil => exact ⟨_, _, rfl, h, fun _ => le_rfl, by simp [getNumFreeBlocks]⟩
  | cons b blocks ih =>
    obtain ⟨hb, hblocks⟩ := forall_mem_cons.1 hus
    obtain ⟨q₁, hq₁, hcount, hfree⟩ := h.touch_one hb
    obtain ⟨q, refCnt, htouch, hcounted, hle, hnum⟩ := ih hcount hblocks
    refine ⟨q, refCnt, ?_, ?_, fun c => (?_ : _ ≤ _).trans (hle c), ?_⟩
    · simp only [touch, hq₁, bind]
      exact htouch
    · rw [tally_cons, ← add_assoc]
      exact hcounted
    · show _ ≤ update pool.refCnt b (pool.refCnt b + 1) c
      by_cases hcb : c = b
      · subst hcb
        rw [update_self]
        omega
      · rw [update_of_ne hcb]
    · -- a block that is free after touching `b` was free before
      have hmono : blocks.countP (IsFree { pool with
          freeBlockQueue := q₁
          refCnt := update pool.refCnt b (pool.refCnt b + 1) }) ≤
          blocks.countP pool.IsFree := by
        refine countP_mono_left fun c _ hc => ?_
        rw [decide_eq_true_iff] at hc ⊢
        refine ⟨?_, hc.2⟩
        have hzero : update pool.refCnt b (pool.refCnt b + 1) c = 0 := hc.1
        by_cases hcb : c = b
        · subst hcb
          have hge := h.refCnt_nonneg hc.2
          rw [update_self] at hzero
          omega
        · rwa [update_of_ne hcb] at hzero
      have hnum' : q₁.numFreeBlocks ≤ q.numFreeBlocks + _ := hnum
      rw [countP_cons, hfree]
      simp only [decide_eq_true_eq]
      split_ifs <;> omega

theorem decrement_apply (refCnt : ℕ → ℤ) (blocks : List ℕ) (b : ℕ) :
    decrement refCnt blocks b = refCnt b - tally blocks b := by
  induction blocks generalizing refCnt with
  | nil => simp [decrement]
  | cons c blocks ih =>
    have hstep : decrement refCnt (c :: blocks) =
      decrement (update refCnt c (refCnt c - 1)) blocks := rfl
    rw [hstep, ih, tally_cons]
    by_cases h : b = c
    · subst h
      simp only [update_self, Pi.add_apply, single_eq_same]
      omega
    · simp [h]

/-- **Freeing** takes the blocks out of the occurrences and appends those without any to the
queue. -/
theorem freeBlocks_counted (h : pool.Counted first (occ + tally blocks))
    (hdistinct : ∀ b, b ≠ pool.nullBlock → tally blocks b ≤ 1) :
    ∃ q refCnt, pool.freeBlocks blocks = .ok { pool with freeBlockQueue := q, refCnt := refCnt } ∧
      Counted { pool with freeBlockQueue := q, refCnt := refCnt } first occ ∧
      pool.getNumFreeBlocks ≤ q.numFreeBlocks := by
  obtain ⟨l, hl, hmem⟩ := h.queue
  set freed := blocks.filter (IsFree { pool with refCnt := decrement pool.refCnt blocks })
    with hfreed
  have hrefCnt : ∀ b, b ≠ pool.nullBlock → decrement pool.refCnt blocks b = occ b := by
    intro b hb
    rw [decrement_apply, h.refCnt b hb, Pi.add_apply, natCast_add, Int.add_sub_cancel]
  have hmemfreed : ∀ b, b ∈ freed ↔ b ∈ blocks ∧ occ b = 0 ∧ b ≠ pool.nullBlock := by
    intro b
    rw [hfreed, mem_filter]
    refine and_congr_right fun _ => ?_
    rw [decide_eq_true_iff]
    refine and_congr_left fun hb => ?_
    show decrement pool.refCnt blocks b = 0 ↔ occ b = 0
    rw [hrefCnt b hb, natCast_eq_zero]
  -- a block in the queue occurs nowhere
  have hqueue : ∀ b ∈ l, occ b = 0 ∧ b ∉ blocks := by
    intro b hb
    obtain ⟨hus, hzero⟩ := (hmem b).1 hb
    rw [h.refCnt b (h.ne_nullBlock hus), natCast_eq_zero, Pi.add_apply] at hzero
    rw [← tally_pos_iff]
    omega
  have hdisj : (l ++ freed).Nodup := by
    refine nodup_append'.2 ⟨hl.nodup, ?_, fun b hb hb' =>
      (hqueue b hb).2 ((hmemfreed b).1 hb').1⟩
    refine nodup_iff_count_le_one.2 fun b => ?_
    by_cases hb : b = pool.nullBlock
    · have : b ∉ freed := fun hmem => ((hmemfreed b).1 hmem).2.2 hb
      rw [count_eq_zero.2 this]
      exact Nat.zero_le 1
    · exact (filter_sublist.count_le b).trans (hdistinct b hb)
  obtain ⟨q, hq, hholds, -⟩ := appendN_holds hl hdisj
  refine ⟨q, decrement pool.refCnt blocks, ?_, ⟨h.nullBlock_lt, ⟨l ++ freed, hholds, fun b => ?_⟩,
    hrefCnt, fun b hb hpos => h.usable b hb (hpos.trans_le (Nat.le_add_right _ _))⟩, ?_⟩
  · exact bind_ok.2 ⟨q, hq, rfl⟩
  · show b ∈ l ++ freed ↔ pool.Usable first b ∧ decrement pool.refCnt blocks b = 0
    rw [mem_append, hmemfreed]
    constructor
    · rintro (hb | ⟨hb, hzero, hnull⟩)
      · obtain ⟨hus, -⟩ := (hmem b).1 hb
        rw [hrefCnt b (h.ne_nullBlock hus), (hqueue b hb).1]
        exact ⟨hus, rfl⟩
      · rw [hrefCnt b hnull, hzero]
        exact ⟨h.usable b hnull ((tally_pos_iff.2 hb).trans_le (Nat.le_add_left _ _)), rfl⟩
    · rintro ⟨hus, hzero⟩
      have hnull := h.ne_nullBlock hus
      rw [hrefCnt b hnull, natCast_eq_zero] at hzero
      by_cases hb : b ∈ blocks
      · exact .inr ⟨hb, hzero, hnull⟩
      · refine .inl ((hmem b).2 ⟨hus, ?_⟩)
        have hcount : tally blocks b = 0 := by
          rw [← Nat.le_zero, ← not_lt, tally_pos_iff]
          exact hb
        rw [h.refCnt b hnull, Pi.add_apply, hzero, hcount]
        rfl
  · rw [getNumFreeBlocks, hl.numFreeBlocks, hholds.numFreeBlocks, length_append]
    omega

/-! ### The index -/

variable [DecidableEq δ]

theorem maybeEvictCachedBlock_indexed (h : pool.Indexed first) (b : ℕ) :
    ∃ map, (pool.maybeEvictCachedBlock b).1 = { pool with
        cachedBlockHashToBlock := map
        blockHash := update pool.blockHash b none } ∧
      Indexed { pool with
        cachedBlockHashToBlock := map
        blockHash := update pool.blockHash b none } first := by
  cases hkey : pool.blockHash b with
  | none =>
    have hsame : update pool.blockHash b none = pool.blockHash := update_eq_self_iff.2 hkey.symm
    exact ⟨pool.cachedBlockHashToBlock, by rw [maybeEvictCachedBlock, hkey, hsame],
      h.of_eq rfl hsame rfl⟩
  | some key =>
    have hmem := (h.mem_iff b key).1 hkey
    have hevict : (pool.maybeEvictCachedBlock b).1 = { pool with
        cachedBlockHashToBlock := update pool.cachedBlockHashToBlock key
          ((pool.cachedBlockHashToBlock key).erase b)
        blockHash := update pool.blockHash b none } := by
      simp [maybeEvictCachedBlock, hkey, BlockHashToBlockMap.pop, if_pos hmem]
    refine ⟨_, hevict, fun c k => ?_, fun k => ?_, fun c hc => ?_, fun hcache => ?_⟩
    · show update pool.blockHash b none c = some k ↔
        c ∈ update pool.cachedBlockHashToBlock key ((pool.cachedBlockHashToBlock key).erase b) k
      by_cases hk : k = key
      · subst hk
        rw [update_self, (h.nodup k).mem_erase_iff]
        by_cases hcb : c = b
        · simp [hcb]
        · rw [update_of_ne hcb, h.mem_iff, and_iff_right hcb]
      · rw [update_of_ne hk]
        by_cases hcb : c = b
        · subst hcb
          rw [update_self, ← h.mem_iff, hkey, some_inj]
          exact iff_of_false nofun (Ne.symm hk)
        · rw [update_of_ne hcb, h.mem_iff]
    · show (update pool.cachedBlockHashToBlock key
        ((pool.cachedBlockHashToBlock key).erase b) k).Nodup
      by_cases hk : k = key
      · subst hk
        rw [update_self]
        exact (h.nodup k).erase b
      · rw [update_of_ne hk]
        exact h.nodup k
    · by_cases hcb : c = b
      · subst hcb
        simp at hc
      · exact h.usable c (by simpa [hcb] using hc)
    · rw [h.keyless hcache] at hkey
      cases hkey

theorem Indexed.insert (h : pool.Indexed first) (hcache : pool.enableCaching)
    (hb : pool.Usable first b) (hnone : pool.blockHash b = none) (key : BlockKey δ)
    (filledBy : ℕ → Option RequestInput) :
    Indexed { pool with
      blockHash := update pool.blockHash b (some key)
      cachedBlockHashToBlock := BlockHashToBlockMap.insert pool.cachedBlockHashToBlock key b
      filledBy := filledBy } first := by
  have hnot : ∀ k, b ∉ pool.cachedBlockHashToBlock k := by
    intro k hmem
    rw [← h.mem_iff, hnone] at hmem
    cases hmem
  have hinsert : BlockHashToBlockMap.insert pool.cachedBlockHashToBlock key b =
      update pool.cachedBlockHashToBlock key (pool.cachedBlockHashToBlock key ++ [b]) := by
    rw [BlockHashToBlockMap.insert, if_neg (hnot key)]
  refine ⟨fun c k => ?_, fun k => ?_, fun c hc => ?_, fun hoff => ?_⟩
  · show update pool.blockHash b (some key) c = some k ↔
      c ∈ BlockHashToBlockMap.insert pool.cachedBlockHashToBlock key b k
    rw [hinsert]
    by_cases hk : k = key
    · subst hk
      by_cases hcb : c = b
      · simp [hcb]
      · simp [hcb, h.mem_iff]
    · by_cases hcb : c = b
      · subst hcb
        simp [hk, hnot, Ne.symm]
      · simp [hk, hcb, h.mem_iff]
  · show (BlockHashToBlockMap.insert pool.cachedBlockHashToBlock key b k).Nodup
    rw [hinsert]
    by_cases hk : k = key
    · subst hk
      rw [update_self, ← concat_eq_append]
      exact (h.nodup k).concat (hnot k)
    · rw [update_of_ne hk]
      exact h.nodup k
  · by_cases hcb : c = b
    · exact hcb ▸ hb
    · exact h.usable c (by simpa [hcb] using hc)
  · exact absurd hoff (by simp [hcache])

/-- What `get_new_blocks` does to the pool besides the queue and the index. -/
structure NewBlocks (pool : BlockPool δ) (ret : List ℕ) (pool' : BlockPool δ) : Prop where
  config : pool'.toBlockPoolConfig = pool.toBlockPoolConfig
  refCnt : ∀ b, pool'.refCnt b = pool.refCnt b + tally ret b
  blockHash : ∀ b, pool'.blockHash b =
    if pool.enableCaching ∧ b ∈ ret then none else pool.blockHash b
  filledBy : ∀ b, pool'.filledBy b = if b ∈ ret then none else pool.filledBy b

omit [DecidableEq δ] in
/-- New blocks have lost their keys, and the others are filled as they were. -/
theorem NewBlocks.keeps {ret : List ℕ} (h : NewBlocks pool ret pool') (hindexed : pool.Indexed first) :
    Keeps pool pool' := by
  intro b key hkey
  rw [h.blockHash] at hkey
  by_cases hb : b ∈ ret
  · -- with caching the key is gone, without it there was none
    cases hcache : pool.enableCaching with
    | true => simp [hcache, hb] at hkey
    | false => simp [hcache, hindexed.keyless] at hkey
  · rw [if_neg fun h => hb h.2] at hkey
    exact ⟨hkey, by rw [h.filledBy, if_neg hb]⟩

/-- The loop succeeds on distinct blocks without references. -/
theorem newLoop_indexed (h : pool.Indexed first) {ret : List ℕ} (hnodup : ret.Nodup)
    (hzero : ∀ b ∈ ret, pool.refCnt b = 0) :
    ∃ pool', newLoop ret pool = .ok pool' ∧ NewBlocks pool ret pool' ∧
      pool'.freeBlockQueue = pool.freeBlockQueue ∧ pool'.Indexed first := by
  induction ret generalizing pool with
  | nil => exact ⟨pool, rfl, ⟨rfl, by simp, by simp, by simp⟩, rfl, h⟩
  | cons b ret ih =>
    obtain ⟨hb, hnodup⟩ := nodup_cons.1 hnodup
    obtain ⟨hzero, hrest⟩ := forall_mem_cons.1 hzero
    -- the block is evicted first when caching is enabled
    obtain ⟨map, hash, hevict, hindexed, hhash⟩ : ∃ map hash,
        (if pool.enableCaching then (pool.maybeEvictCachedBlock b).1 else pool) =
          { pool with cachedBlockHashToBlock := map, blockHash := hash } ∧
        Indexed { pool with cachedBlockHashToBlock := map, blockHash := hash } first ∧
        ∀ c, hash c = if pool.enableCaching ∧ c = b then none else pool.blockHash c := by
      by_cases hcache : pool.enableCaching
      · obtain ⟨map, heq, hindexed⟩ := maybeEvictCachedBlock_indexed h b
        refine ⟨map, _, by rw [if_pos hcache, heq], hindexed, fun c => ?_⟩
        by_cases hcb : c = b
        · simp [hcb, hcache]
        · simp [hcb]
      · exact ⟨_, _, if_neg hcache, h, fun c => by simp [hcache]⟩
    have hne : ∀ c ∈ ret, c ≠ b := fun c hc hcb => hb (hcb ▸ hc)
    obtain ⟨pool', hloop, hnew, hqueue, hindexed'⟩ := @ih { pool with
        cachedBlockHashToBlock := map
        blockHash := hash
        refCnt := update pool.refCnt b (pool.refCnt b + 1)
        filledBy := update pool.filledBy b none }
      (hindexed.of_eq rfl rfl rfl) hnodup fun c hc => by
        simpa [hne c hc] using hrest c hc
    refine ⟨pool', ?_, ⟨hnew.config, fun c => ?_, fun c => ?_, fun c => ?_⟩, hqueue, hindexed'⟩
    · simp only [newLoop, hevict, hzero]
      rw [hzero] at hloop
      exact hloop
    · have hc : pool'.refCnt c = update pool.refCnt b (pool.refCnt b + 1) c + tally ret c :=
        hnew.refCnt c
      rw [hc, tally_cons]
      by_cases hcb : c = b
      · subst hcb
        simp only [update_self, Pi.add_apply, single_eq_same]
        omega
      · simp [hcb]
    · rw [hnew.blockHash]
      grind
    · rw [hnew.filledBy]
      by_cases hcb : c = b
      · subst hcb
        simp
      · simp [hcb]

theorem getNewBlocks_error {n : ℤ} (h : pool.getNumFreeBlocks < n) : pool.getNewBlocks n =
      .error (.valueError s!"Cannot get {n} free blocks from the pool") :=
  if_pos h

/-- **New blocks** come from the front of the queue and occur nowhere. There are enough of them
exactly when the counter says so. -/
theorem getNewBlocks_counted (h : pool.Counted first occ) (hindexed : pool.Indexed first) {n : ℕ}
    (hn : (n : ℤ) ≤ pool.getNumFreeBlocks) :
    ∃ ret pool', pool.getNewBlocks n = .ok (ret, pool') ∧ ret.length = n ∧ ret.Nodup ∧
      (∀ b ∈ ret, pool.Usable first b ∧ occ b = 0) ∧ NewBlocks pool ret pool' ∧
      pool'.Counted first (occ + tally ret) ∧ pool'.Indexed first ∧
      pool'.getNumFreeBlocks = pool.getNumFreeBlocks - n := by
  obtain ⟨l, hl, hmem⟩ := h.queue
  have hlen : n ≤ l.length := by
    rw [getNumFreeBlocks, hl.numFreeBlocks] at hn
    exact ofNat_le.1 hn
  have hsplit : l = l.take n ++ l.drop n := (take_append_drop n l).symm
  have htake : (l.take n).length = n := length_take_of_le hlen
  have hnodup : (l.take n ++ l.drop n).Nodup := hsplit ▸ hl.nodup
  obtain ⟨q, hq, hholds, -⟩ := popleftN_holds (hsplit ▸ hl)
  rw [htake] at hq
  have hret : ∀ b ∈ l.take n, pool.Usable first b ∧ pool.refCnt b = 0 :=
    fun b hb => (hmem b).1 (mem_of_mem_take hb)
  have hindexed₁ : Indexed { pool with freeBlockQueue := q } first := hindexed.of_eq rfl rfl rfl
  obtain ⟨pool', hloop, hnew, hqueue, hindexed'⟩ := newLoop_indexed hindexed₁
    hnodup.of_append_left fun b hb => (hret b hb).2
  have hnum : pool'.numGpuBlocks = pool.numGpuBlocks := congrArg (·.numGpuBlocks) hnew.config
  have hnull : pool'.nullBlock = pool.nullBlock := congrArg (·.nullBlock) hnew.config
  have hocc : ∀ b ∈ l.take n, occ b = 0 := by
    intro b hb
    obtain ⟨hus, hzero⟩ := hret b hb
    rwa [h.refCnt b (h.ne_nullBlock hus), natCast_eq_zero] at hzero
  refine ⟨l.take n, pool', ?_, htake, hnodup.of_append_left, fun b hb => ⟨(hret b hb).1, hocc b hb⟩,
    ⟨hnew.config, hnew.refCnt, hnew.blockHash, hnew.filledBy⟩,
    ⟨hnull ▸ h.nullBlock_lt, ⟨l.drop n, hqueue ▸ hholds, fun b => ?_⟩, fun b hb => ?_,
      fun b hb hpos => ?_⟩, hindexed', ?_⟩
  · rw [getNewBlocks, if_neg (not_lt.2 hn)]
    exact bind_ok.2 ⟨(l.take n, q), hq, bind_ok.2 ⟨pool', hloop, rfl⟩⟩
  · -- a block with a reference is not in the rest of the queue
    have hrefCnt : pool'.refCnt b = pool.refCnt b + tally (l.take n) b := hnew.refCnt b
    have hiff : b ∈ l ↔ b ∈ l.take n ∨ b ∈ l.drop n := by
      rw [← mem_append, ← hsplit]
    rw [Usable, hnum, hrefCnt]
    constructor
    · intro hb
      obtain ⟨hus, hzero⟩ := (hmem b).1 (hiff.2 (.inr hb))
      have hnot : b ∉ l.take n := fun hb' => (nodup_append'.1 hnodup).2.2 hb' hb
      have hcount : tally (l.take n) b = 0 := count_eq_zero.2 hnot
      exact ⟨hus, by rw [hzero, hcount]; rfl⟩
    · rintro ⟨hus, hsum⟩
      have hge := h.refCnt_nonneg (h.ne_nullBlock hus)
      have hnot : b ∉ l.take n := by
        intro hb
        have := tally_pos_iff.2 hb
        omega
      exact (hiff.1 ((hmem b).2 ⟨hus, by omega⟩)).resolve_left hnot
  · rw [hnew.refCnt, Pi.add_apply, natCast_add]
    rw [h.refCnt b (hnull ▸ hb)]
  · rw [Usable, hnum]
    by_cases hbt : b ∈ l.take n
    · exact (hret b hbt).1
    · have hcount : tally (l.take n) b = 0 := count_eq_zero.2 hbt
      rw [Pi.add_apply, hcount, add_zero] at hpos
      exact h.usable b (hnull ▸ hb) hpos
  · rw [getNumFreeBlocks, getNumFreeBlocks, hqueue, hl.numFreeBlocks]
    rw [hholds.numFreeBlocks, length_drop]
    omega

/-! ### Caching and evicting -/

/-- What caching does: some blocks get a key of the group and are filled by the request. -/
structure Caches (pool : BlockPool δ) (input : RequestInput) (groupId : ℕ)
    (hashes : List (BlockHash δ)) (pool' : BlockPool δ) : Prop where
  config : pool'.toBlockPoolConfig = pool.toBlockPoolConfig
  freeBlockQueue : pool'.freeBlockQueue = pool.freeBlockQueue
  refCnt : pool'.refCnt = pool.refCnt
  block : ∀ b, (pool'.blockHash b = pool.blockHash b ∧ pool'.filledBy b = pool.filledBy b) ∨
    ∃ h ∈ hashes, pool'.blockHash b = some (h, groupId) ∧ pool'.filledBy b = some input

section

variable (h : pool.Indexed first) (hon : pool.enableCaching)
  (hus : ∀ b ∈ blocks, b ≠ pool.nullBlock → pool.Usable first b)

include h hon hus

theorem cacheLoop_indexed {input : RequestInput} {groupId : ℕ} {hashes : List (BlockHash δ)}
    (hloop : cacheLoop input groupId blocks hashes pool = .ok pool') :
    Caches pool input groupId hashes pool' ∧ pool'.Indexed first := by
  induction blocks generalizing pool hashes with
  | nil =>
    cases hloop
    exact ⟨⟨rfl, rfl, rfl, fun _ => .inl ⟨rfl, rfl⟩⟩, h⟩
  | cons b blocks ih =>
    obtain ⟨hb, hblocks⟩ := forall_mem_cons.1 hus
    unfold cacheLoop at hloop
    split_ifs at hloop with hnull hkey
    · obtain ⟨hcaches, hindexed⟩ := ih h hon hblocks hloop
      refine ⟨⟨hcaches.config, hcaches.freeBlockQueue, hcaches.refCnt, fun c => ?_⟩, hindexed⟩
      refine (hcaches.block c).imp_right ?_
      rintro ⟨k, hk, hrest⟩
      exact ⟨k, mem_of_mem_tail hk, hrest⟩
    · cases hashes with
      | nil => cases hloop
      | cons k hashes =>
        rw [Bool.not_eq_true, isSome_eq_false_iff, isNone_iff_eq_none] at hkey
        obtain ⟨hcaches, hindexed⟩ := ih (h.insert hon (hb hnull) hkey _ _) hon hblocks hloop
        refine ⟨⟨hcaches.config, hcaches.freeBlockQueue, hcaches.refCnt, fun c => ?_⟩, hindexed⟩
        rcases hcaches.block c with ⟨hhash, hfill⟩ | ⟨k', hk', hrest⟩
        · by_cases hcb : c = b
          · subst hcb
            simp only [update_self] at hhash hfill
            exact .inr ⟨k, .head _, hhash, hfill⟩
          · simp only [update_of_ne hcb] at hhash hfill
            exact .inl ⟨hhash, hfill⟩
        · exact .inr ⟨k', .tail _ hk', hrest⟩

/-- **Caching full blocks** keeps the index: a cached block gets the hash of a block of the
request. -/
theorem cacheFullBlocks_indexed {hasher : BlockHasher δ} {request : SchedulerRequest hasher}
    {numCachedBlocks numFullBlocks blockSize groupId : ℕ}
    (hcache : pool.cacheFullBlocks request blocks numCachedBlocks numFullBlocks blockSize groupId =
      .ok pool') : Caches pool request.input groupId
      (blockHashList request.blockHashes (blockSize / pool.hashBlockSize)) pool' ∧
    pool'.Indexed first := by
  unfold cacheFullBlocks at hcache
  split_ifs at hcache
  · cases hcache
    exact ⟨⟨rfl, rfl, rfl, fun _ => .inl ⟨rfl, rfl⟩⟩, h⟩
  · obtain ⟨hcaches, hindexed⟩ := cacheLoop_indexed h hon (fun b hb =>
      hus b (mem_of_mem_take (mem_of_mem_drop hb))) hcache
    refine ⟨⟨hcaches.config, hcaches.freeBlockQueue, hcaches.refCnt, fun c => ?_⟩, hindexed⟩
    refine (hcaches.block c).imp_right ?_
    rintro ⟨k, hk, hrest⟩
    exact ⟨k, mem_of_mem_drop hk, hrest⟩

end

/-- What evicting does: some blocks lose their key. -/
structure Evicts (pool pool' : BlockPool δ) : Prop where
  config : pool'.toBlockPoolConfig = pool.toBlockPoolConfig
  freeBlockQueue : pool'.freeBlockQueue = pool.freeBlockQueue
  refCnt : pool'.refCnt = pool.refCnt
  filledBy : pool'.filledBy = pool.filledBy
  blockHash : ∀ b, pool'.blockHash b = none ∨ pool'.blockHash b = pool.blockHash b

omit [DecidableEq δ] in
theorem Evicts.keeps (h : Evicts pool pool') : Keeps pool pool' := by
  intro b key hkey
  refine ⟨?_, congrFun h.filledBy b⟩
  rcases h.blockHash b with hnone | hsame
  · rw [hnone] at hkey
    cases hkey
  · rwa [hsame] at hkey

theorem evictBlocks_indexed (h : pool.Indexed first) (hevict : pool.evictBlocks blocks = .ok pool') :
    Evicts pool pool' ∧ pool'.Indexed first := by
  induction blocks generalizing pool with
  | nil =>
    cases hevict
    exact ⟨⟨rfl, rfl, rfl, rfl, fun _ => .inr rfl⟩, h⟩
  | cons b blocks ih =>
    obtain ⟨map, heq, hindexed⟩ := maybeEvictCachedBlock_indexed h b
    unfold evictBlocks at hevict
    split_ifs at hevict
    rw [heq] at hevict
    obtain ⟨hev, hindexed'⟩ := ih hindexed hevict
    refine ⟨⟨hev.config, hev.freeBlockQueue, hev.refCnt, hev.filledBy, fun c => ?_⟩, hindexed'⟩
    rcases hev.blockHash c with hnone | hsame
    · exact .inl hnone
    · by_cases hcb : c = b
      · subst hcb
        rw [hsame]
        exact .inl (update_self ..)
      · rw [hsame]
        exact .inr (update_of_ne hcb _ _)

omit [DecidableEq δ] in
theorem resetPrefixCache_indexed (h : pool.Indexed first) :
    Evicts pool pool.resetPrefixCache.1 ∧ pool.resetPrefixCache.1.Indexed first := by
  unfold resetPrefixCache
  by_cases hused : (pool.numGpuBlocks - pool.getNumFreeBlocks : ℤ) ≠ 1
  · simp only [if_pos hused]
    exact ⟨⟨rfl, rfl, rfl, rfl, fun _ => .inr rfl⟩, h⟩
  · simp only [if_neg hused]
    exact ⟨⟨rfl, rfl, rfl, rfl, fun _ => .inl rfl⟩, by simp, by simp, by simp, by simp⟩

end BlockPool

end LoptVllm.KVCache
