import LoptVllm.KVCache.Accounting
import LoptVllm.Sched.Managed
import LoptVllm.Sched.Run
import Mathlib.Algebra.BigOperators.Pi
import Mathlib.Algebra.Order.BigOperators.Group.List

/-!
# Resetting the prefix cache

`reset_prefix_cache` takes the pool for idle when one block is used, the null block. The manager of
a sink full attention group takes blocks of its own when it is made, so that with such a group the
pool is never taken for idle.
-/

namespace LoptVllm

open List

namespace KVCache

open BlockPool SingleTypeKVCacheManager

variable {δ : Type} {specs : List KVCacheSpec}

/-- A sink group whose constructor does not fail takes at least one block. -/
theorem newManagers_sink_pos {enableCaching : Bool} {worldSize i : ℕ}
    {pool pool' : BlockPool δ} {ms : List SingleTypeKVCacheManager}
    (hnew : newManagers enableCaching worldSize i specs pool = .ok (ms, pool')) :
    ∀ spec ∈ specs, ∀ n, spec.kind = .sinkFull n → 0 < numSinkBlocks worldSize spec := by
  induction specs generalizing i pool ms with
  | nil => simp
  | cons spec specs ih =>
    obtain ⟨⟨m, pool₁⟩, hm, hrest⟩ := bind_ok.1 hnew
    obtain ⟨⟨ms', pool₂⟩, hms, hret⟩ := bind_ok.1 hrest
    cases hret
    refine forall_mem_cons.2 ⟨fun n hkind => ?_, ih hms⟩
    have hpos : 0 < if 1 < worldSize then spec.blockSize * worldSize else spec.blockSize := by
      have := spec.blockSize_pos
      split_ifs with hworld
      · exact Nat.mul_pos this (Nat.zero_lt_of_lt hworld)
      · exact this
    unfold SingleTypeKVCacheManager.new at hm
    simp only [numSinkBlocks, hkind]
    set bs := if 1 < worldSize then spec.blockSize * worldSize else spec.blockSize
    simp only [hkind] at hm
    by_cases hsink : 0 < n ∧ n % bs = 0
    · -- the length of the sink is a positive multiple of the block size
      exact Nat.div_pos (Nat.le_of_dvd hsink.1 (Nat.dvd_of_mod_eq_zero hsink.2)) hpos
    · rw [if_neg hsink] at hm
      cases hm

namespace KVCacheManager

variable {hasher : BlockHasher δ} {kv kv' : KVCacheManager δ} {first : ℕ}

/-- Some request has a block besides the null block. -/
def HoldsBlock (kv : KVCacheManager δ) : Prop :=
  ∃ r, ∃ l ∈ kv.getBlocks r, ∃ b ∈ l, b ≠ kv.blockPool.nullBlock

section

variable (h : Sound hasher first kv)
include h

/-- The blocks of a request have a positive reference count. -/
theorem Sound.refCnt_pos {r b : ℕ} {l : List ℕ}
    (hl : l ∈ kv.getBlocks r) (hb : b ∈ l) (hnull : b ≠ kv.blockPool.nullBlock) :
    kv.blockPool.Usable first b ∧ kv.blockPool.refCnt b ≠ 0 := by
  obtain ⟨m, hm, rfl⟩ := mem_map.1 hl
  have htotal : m.occ b ≤ totalOcc kv.singleTypeManagers b := by
    obtain ⟨before, after, hsplit⟩ := mem_iff_append.1 hm
    rw [hsplit, totalOcc, map_append, sum_append, map_cons, sum_cons]
    simp only [Pi.add_apply]
    omega
  have hpos : 0 < totalOcc kv.singleTypeManagers b :=
    ((tally_pos_iff.2 hb).trans_le (tally_blocks_le m r b)).trans_le htotal
  refine ⟨h.counted.usable b hnull hpos, ?_⟩
  rw [h.counted.refCnt b hnull]
  omega

/-- Without a request that has a block, no block occurs anywhere. -/
theorem refCnt_eq_zero (hidle : ¬ HoldsBlock kv) {b : ℕ}
    (hnull : b ≠ kv.blockPool.nullBlock) : kv.blockPool.refCnt b = 0 := by
  have hocc : totalOcc kv.singleTypeManagers b = 0 := by
    by_contra hne
    refine hidle ?_
    rw [totalOcc, Pi.list_sum_apply] at hne
    obtain ⟨x, hx, hne⟩ := exists_mem_ne_zero_of_sum_ne_zero hne
    obtain ⟨f, hf, rfl⟩ := mem_map.1 hx
    obtain ⟨m, hm, rfl⟩ := mem_map.1 hf
    rw [occ, Pi.list_sum_apply] at hne
    obtain ⟨y, hy, hne⟩ := exists_mem_ne_zero_of_sum_ne_zero hne
    obtain ⟨g, hg, rfl⟩ := mem_map.1 hy
    obtain ⟨⟨r, l⟩, he, rfl⟩ := mem_map.1 hg
    have hlookup : m.reqToBlocks.lookup r = some l := AList.mem_lookup_iff.2 he
    have hl : m.blocks r = l := by
      simp [blocks, hlookup]
    exact ⟨r, l, hl ▸ mem_map_of_mem hm, b, tally_pos_iff.1 (Nat.pos_of_ne_zero hne), hnull⟩
  rw [h.counted.refCnt b hnull, hocc]
  rfl

/-- **The used blocks** are those before `first` when no request has a block, and more otherwise. -/
theorem Sound.numUsedBlocks (hle : first ≤ kv.blockPool.numGpuBlocks) :
    (¬ HoldsBlock kv → kv.blockPool.numGpuBlocks - kv.getNumFreeBlocks = first) ∧
      (HoldsBlock kv → first < kv.blockPool.numGpuBlocks - kv.getNumFreeBlocks) := by
  obtain ⟨free, hholds, -, hmem⟩ := h.queue
  have hnum : kv.getNumFreeBlocks = free.length := hholds.numFreeBlocks
  have hsub : ∀ b ∈ free, b ∈ range' first (kv.blockPool.numGpuBlocks - first) := by
    intro b hb
    obtain ⟨hus, -⟩ := (hmem b).1 hb
    exact mem_range'_1.2 ⟨hus.1, by have := hus.2; omega⟩
  constructor
  · intro hidle
    have hperm : free.Perm (range' first (kv.blockPool.numGpuBlocks - first)) := by
      rw [perm_ext_iff_of_nodup hholds.nodup nodup_range']
      refine fun b => ⟨hsub b, fun hb => ?_⟩
      have hus : kv.blockPool.Usable first b := by
        have := mem_range'_1.1 hb
        exact ⟨this.1, by omega⟩
      exact (hmem b).2 ⟨hus, refCnt_eq_zero h hidle (h.ne_nullBlock hus)⟩
    have hlen := hperm.length_eq
    rw [length_range'] at hlen
    omega
  · rintro ⟨r, l, hl, b, hb, hnull⟩
    obtain ⟨hus, hpos⟩ := h.refCnt_pos hl hb hnull
    -- this block is not in the queue
    have hnodup : (b :: free).Nodup :=
      nodup_cons.2 ⟨fun hfree => hpos ((hmem b).1 hfree).2, hholds.nodup⟩
    have hall : b :: free ⊆ range' first (kv.blockPool.numGpuBlocks - first) :=
      cons_subset.2 ⟨mem_range'_1.2 ⟨hus.1, by have := hus.2; omega⟩, hsub⟩
    have hlen := (subperm_of_subset hnodup hall).length_le
    rw [length_cons, length_range'] at hlen
    omega

end

theorem new_firstBlock {numBlocks maxModelLen hashBlockSize : ℕ}
    {dcpWorldSize pcpWorldSize : ℕ} {enableCaching useEagle : Bool}
    (hnew : new specs numBlocks maxModelLen hashBlockSize enableCaching useEagle
      dcpWorldSize pcpWorldSize = .ok kv) :
    firstBlock (dcpWorldSize * pcpWorldSize) specs ≤ numBlocks ∧
      (firstBlock (dcpWorldSize * pcpWorldSize) specs = 1 ↔
        ∀ spec ∈ specs, ∀ n, spec.kind ≠ .sinkFull n) := by
  obtain ⟨pool, hpool, hnew⟩ := bind_ok.1 hnew
  obtain ⟨⟨ms, pool'⟩, hms, -⟩ := bind_ok.1 hnew
  obtain ⟨hconfig₀, hfresh₀⟩ := new_fresh hpool
  obtain ⟨-, hconfig₁, hfresh₁⟩ := newManagers_fresh hfresh₀ hms
  have hnum : pool'.numGpuBlocks = numBlocks := congrArg (·.numGpuBlocks) (hconfig₁.trans hconfig₀)
  refine ⟨hnum ▸ hfresh₁.le, fun hone spec hspec n hkind => ?_, fun hsink =>
    firstBlock_of_noSink hsink _⟩
  have hpos := newManagers_sink_pos hms spec hspec n hkind
  have hle := single_le_sum (fun _ _ => Nat.zero_le _) _
    (mem_map_of_mem hspec : numSinkBlocks (dcpWorldSize * pcpWorldSize) spec ∈ specs.map _)
  rw [firstBlock] at hone
  omega

end KVCacheManager

end KVCache

namespace Sched

open KVCache KVCacheManager

variable {δ : Type} [DecidableEq δ] {hasher : BlockHasher δ} {kv kv' : KVCacheManager δ}

/-- A reset of the prefix cache succeeds and forgets all hashes when no request has a block, and
fails and changes nothing otherwise. -/
structure ResetsWhenIdle (s : Scheduler (HashedKVCacheManager hasher)) (connectorReset : Bool) :
    Prop where
  idle : ¬ HoldsBlock s.kvCacheManager.toKVCacheManager →
    ∃ s', s.resetPrefixCache false false connectorReset = .ok (true, s') ∧
      (∀ key, s'.kvCacheManager.blockPool.cachedBlockHashToBlock key = []) ∧
      ∀ b, s'.kvCacheManager.blockPool.blockHash b = none
  busy : HoldsBlock s.kvCacheManager.toKVCacheManager →
    s.resetPrefixCache false false connectorReset = .ok (false, s)

variable (s : Scheduler (HashedKVCacheManager hasher))

/-- The scheduler passes the call on to the pool. -/
theorem Scheduler.resetPrefixCache_pool (connectorReset : Bool) :
    s.resetPrefixCache false false connectorReset =
      .ok (s.kvCacheManager.resetPrefixCache.2, { s with
        kvCacheManager := ⟨s.kvCacheManager.resetPrefixCache.1⟩ }) :=
  rfl

/-- A reset is refused when more than one block is used. -/
theorem Scheduler.resetPrefixCache_cases (connectorReset : Bool) :
    (s.kvCacheManager.blockPool.numGpuBlocks - s.kvCacheManager.getNumFreeBlocks = 1 →
      ∃ s', s.resetPrefixCache false false connectorReset = .ok (true, s') ∧
        (∀ key, s'.kvCacheManager.blockPool.cachedBlockHashToBlock key = []) ∧
        ∀ b, s'.kvCacheManager.blockPool.blockHash b = none) ∧
    (s.kvCacheManager.blockPool.numGpuBlocks - s.kvCacheManager.getNumFreeBlocks ≠ 1 →
      s.resetPrefixCache false false connectorReset = .ok (false, s)) := by
  rw [resetPrefixCache_pool, KVCacheManager.resetPrefixCache, BlockPool.resetPrefixCache,
    getNumFreeBlocks]
  constructor
  · intro hone
    simp only [hone]
    exact ⟨_, rfl, fun _ => rfl, fun _ => rfl⟩
  · intro hne
    simp [ne_eq, hne, not_false_eq_true]

/-- **A reset succeeds exactly when it should** if there is no sink full attention group. With such
a group it never succeeds, which is right only while a request has a block. -/
theorem resetPrefixCache_resetsWhenIdle_iff (hfree : CollisionFree hasher)
    {specs : List KVCacheSpec} {numBlocks maxModelLen dcpWorldSize pcpWorldSize : ℕ}
    {enableCaching useEagle : Bool}
    (hnew : new specs numBlocks maxModelLen hasher.blockSize enableCaching useEagle
      dcpWorldSize pcpWorldSize = .ok kv) (calls : List (KVCall hasher))
    (hrun : kv.run calls = .ok kv') (s : Scheduler (HashedKVCacheManager hasher))
    (hs : s.kvCacheManager.toKVCacheManager = kv') (connectorReset : Bool) :
    ResetsWhenIdle s connectorReset ↔
      (∀ spec ∈ specs, ∀ n, spec.kind ≠ .sinkFull n) ∨ HoldsBlock kv' := by
  obtain ⟨h, -, hnum, hnil⟩ := new_sound hnew
  obtain ⟨h', hsetup, -⟩ := run_sound hfree h hnil calls hrun
  obtain ⟨hle, hone⟩ := new_firstBlock hnew
  have hnum' : kv'.blockPool.numGpuBlocks = numBlocks :=
    (congrArg (·.numGpuBlocks) hsetup.pool).trans hnum
  obtain ⟨hidle, hbusy⟩ := h'.numUsedBlocks (hnum' ▸ hle)
  have hfirst : 1 ≤ firstBlock (dcpWorldSize * pcpWorldSize) specs := Nat.le_add_right _ _
  obtain ⟨hsucceeds, hfails⟩ := s.resetPrefixCache_cases connectorReset
  rw [← hs] at hidle hbusy ⊢
  rw [← hone]
  by_cases hheld : HoldsBlock s.kvCacheManager.toKVCacheManager
  · -- a held block is used besides the null block
    have hused := hbusy hheld
    exact iff_of_true ⟨fun hnot => absurd hheld hnot, fun _ => hfails (by omega)⟩ (.inr hheld)
  · have hused := hidle hheld
    rw [or_iff_left hheld]
    constructor
    · intro hreset
      obtain ⟨s', hok, -⟩ := hreset.idle hheld
      by_contra hsink
      cases hok.symm.trans (hfails (by omega))
    · exact fun hzero => ⟨fun _ => hsucceeds (by omega), fun hyes => absurd hyes hheld⟩

/-- A scheduler with this KV cache manager. -/
def schedulerOf (kv : KVCacheManager δ) : Scheduler (HashedKVCacheManager hasher) :=
  .new ⟨kv⟩ ⟨false, 0, 0, ∅, ∅, []⟩ fun _ => .fromEngineCoreRequest smallRequest

theorem resetPrefixCache_resetsWhenIdle_iff_oneRequest : ∃ kv kv' : KVCacheManager _,
    new [fullSpec] 4 16 2 true false 1 1 = .ok kv ∧
      kv.run (oneRequest (promptRequest 0 [1, 2, 3] (Nat.succ_pos 2))) = .ok kv' ∧
      (@ResetsWhenIdle _ _ transcriptHasher (schedulerOf kv') false ↔
        (∀ spec ∈ [fullSpec], ∀ n, spec.kind ≠ .sinkFull n) ∨ HoldsBlock kv') := by
  obtain ⟨kv, kv', hnew, hrun, -⟩ := oneRequest_runs
  exact ⟨kv, kv', hnew, hrun, resetPrefixCache_resetsWhenIdle_iff transcriptHasher_collisionFree
    hnew _ hrun (schedulerOf kv') rfl false⟩

/-- A sink full attention group with one block of two tokens for the sink. -/
def sinkSpec : KVCacheSpec := ⟨.sinkFull 2, 2, 0, Nat.two_pos, nofun⟩

/-- With a sink, a reset fails although there was no request yet. -/
theorem not_resetsWhenIdle_sink : ∃ kv : KVCacheManager Transcript,
    new [sinkSpec] 4 16 2 true false 1 1 = .ok kv ∧
      kv.run ([] : List (KVCall transcriptHasher)) = .ok kv ∧
      ¬ HoldsBlock kv ∧ ¬ @ResetsWhenIdle _ _ transcriptHasher (schedulerOf kv) false := by
  have hfails : (new (δ := Transcript) [sinkSpec] 4 16 2
      true false 1 1).toOption.map (fun kv => kv.resetPrefixCache.2) = some false := by
    decide +kernel
  cases hnew : new [sinkSpec] 4 16 2 true false 1 1 with
  | error e => simp [hnew, Except.toOption] at hfails
  | ok kv =>
    simp only [hnew, Except.toOption, Option.map_some, Option.some_inj] at hfails
    obtain ⟨-, -, -, hnil⟩ := @new_sound _ transcriptHasher _ _ _ _ _ _ _ _ hnew
    have hidle : ¬ HoldsBlock kv := by
      rintro ⟨r, l, hl, b, hb, -⟩
      rw [getBlocks_eq_view] at hl
      obtain ⟨v, hv, rfl⟩ := mem_map.1 hl
      rw [(hnil r v hv).1] at hb
      cases hb
    refine ⟨kv, rfl, rfl, hidle, fun h => ?_⟩
    obtain ⟨s', hok, -⟩ := h.idle hidle
    have htrue : kv.resetPrefixCache.2 = true := congrArg Prod.fst (Except.ok.inj hok)
    rw [hfails] at htrue
    cases htrue

end Sched

end LoptVllm
