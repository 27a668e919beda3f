import LoptVllm.KVCache.KVInvariant
import Mathlib.Data.List.Perm.Subperm

/-!
# Block accounting and the prefix cache

What holds in every state that a fresh `KVCacheManager` reaches by the calls of the scheduler.
-/

namespace LoptVllm.KVCache

open List AList Nat FreeKVCacheBlockQueue KVCacheManager RequestInput

open BlockPool SingleTypeKVCacheManager

variable {δ : Type}

/-! ### A fresh manager -/

/-- A pool of which only the blocks before `first` have been taken. -/
structure FreshPool (pool : BlockPool δ) (first : ℕ) : Prop where
  nullBlock_lt : pool.nullBlock < first
  le : first ≤ pool.numGpuBlocks
  queue : pool.freeBlockQueue.Holds (range' first (pool.numGpuBlocks - first))
  refCnt : ∀ b, pool.refCnt b = 0
  blockHash : ∀ b, pool.blockHash b = none
  map : ∀ key, pool.cachedBlockHashToBlock key = []

variable {pool : BlockPool δ} {first : ℕ}

section

variable (h : FreshPool pool first)
include h

theorem FreshPool.counted : pool.Counted first 0 := by
  refine ⟨h.nullBlock_lt, ⟨_, h.queue, fun b => ?_⟩, fun b _ => h.refCnt b, fun b _ hb => ?_⟩
  · rw [mem_range'_1, Usable, h.refCnt, and_iff_left rfl, Nat.add_sub_cancel' h.le]
  · cases hb

theorem FreshPool.indexed : pool.Indexed first := by
  refine ⟨fun b key => ?_, fun key => ?_, fun b hb => ?_, fun _ => h.blockHash⟩
  · rw [h.blockHash, h.map]
    exact ⟨nofun, nofun⟩
  · rw [h.map]
    exact nodup_nil
  · rw [h.blockHash] at hb
    cases hb

/-- The blocks that are taken out of a fresh pool are the next ones. -/
theorem FreshPool.popleftN {n : ℕ} {ret : List ℕ}
    {q : FreeKVCacheBlockQueue} (hpop : pool.freeBlockQueue.popleftN n = .ok (ret, q)) :
    FreshPool { pool with freeBlockQueue := q } (first + n) := by
  have hle := h.le
  have hn : n ≤ pool.numGpuBlocks - first := by
    by_contra hlt
    unfold FreeKVCacheBlockQueue.popleftN at hpop
    have hzero : ¬ (n : ℤ) = 0 := by omega
    have hcount : pool.freeBlockQueue.numFreeBlocks < n := by
      rw [h.queue.numFreeBlocks, length_range']
      omega
    rw [if_neg hzero, if_pos hcount] at hpop
    cases hpop
  have hsum : pool.numGpuBlocks - first = n + (pool.numGpuBlocks - (first + n)) := by omega
  have hqueue := h.queue
  rw [hsum, ← range'_append_1] at hqueue
  obtain ⟨q', hq', hholds, -⟩ := FreeKVCacheBlockQueue.popleftN_holds hqueue
  rw [length_range'] at hq'
  cases hpop.symm.trans hq'
  have hle' : first + n ≤ pool.numGpuBlocks := by omega
  exact ⟨h.nullBlock_lt.trans_le (le_add_right _ _), hle', hholds, h.refCnt, h.blockHash, h.map⟩

end

variable {enableCaching : Bool}

theorem BlockPool.new_fresh {numGpuBlocks hashBlockSize : ℕ}
    (hnew : new numGpuBlocks enableCaching hashBlockSize = .ok pool) :
    pool.toBlockPoolConfig = ⟨numGpuBlocks, enableCaching, hashBlockSize, 0⟩ ∧ FreshPool pool 1 := by
  unfold new at hnew
  split_ifs at hnew with hzero
  obtain ⟨n, rfl⟩ := exists_eq_succ_of_ne_zero hzero
  have hrange : range (n + 1) = 0 :: range' 1 n := by
    rw [range_eq_range', range'_succ]
  have hall := new_holds (n + 1)
  rw [hrange] at hall
  obtain ⟨q, hq, hholds, -⟩ := popleft_holds hall
  rw [hq] at hnew
  cases hnew
  exact ⟨rfl, zero_lt_one, succ_le_succ n.zero_le, hholds, fun _ => rfl, fun _ => rfl, fun _ => rfl⟩

/-- The sink blocks of a group, which its manager takes out of the pool. -/
def numSinkBlocks (worldSize : ℕ) (s : KVCacheSpec) : ℕ := match s.kind with
  | .sinkFull n => n / if 1 < worldSize then s.blockSize * worldSize else s.blockSize
  | _ => 0

/-- The first block that is handed out. -/
def firstBlock (worldSize : ℕ) (specs : List KVCacheSpec) : ℕ :=
  1 + (specs.map (numSinkBlocks worldSize)).sum

/-- A fresh manager of a group. -/
structure Fresh (s : KVCacheSpec) (enableCaching : Bool) (i worldSize : ℕ)
    (m : SingleTypeKVCacheManager) : Prop where
  spec : m.spec = s
  blockSize : m.blockSize = if 1 < worldSize then s.blockSize * worldSize else s.blockSize
  enableCaching : m.enableCaching = enableCaching
  groupId : m.groupId = i
  reqToBlocks : m.reqToBlocks = ∅
  numCachedBlock : m.numCachedBlock = ∅

variable {spec : KVCacheSpec} {groupId worldSize : ℕ} {m : SingleTypeKVCacheManager}

section

variable (h : Fresh spec enableCaching groupId worldSize m)
include h

theorem Fresh.blocks (r : ℕ) : m.blocks r = [] := by
  unfold SingleTypeKVCacheManager.blocks
  rw [h.reqToBlocks, lookup_empty, Option.getD_none]

theorem Fresh.occ : m.occ = 0 := by
  unfold SingleTypeKVCacheManager.occ
  rw [h.reqToBlocks]
  rfl

end

variable {pool' : BlockPool δ}

theorem SingleTypeKVCacheManager.new_fresh (h : FreshPool pool first)
    (hnew : new spec enableCaching groupId worldSize pool =
      .ok (m, pool')) : Fresh spec enableCaching groupId worldSize m ∧
        pool'.toBlockPoolConfig = pool.toBlockPoolConfig ∧
        FreshPool pool' (first + numSinkBlocks worldSize spec) := by
  unfold new at hnew
  dsimp only at hnew
  set bs := if 1 < worldSize then spec.blockSize * worldSize else spec.blockSize with hbs
  split at hnew
  · next n hkind =>
    have hnum : numSinkBlocks worldSize spec = n / bs := by
      unfold numSinkBlocks
      rw [hkind]
    rw [hnum]
    by_cases hsink : 0 < n ∧ n % bs = 0
    · rw [if_pos hsink] at hnew
      obtain ⟨⟨sink, q⟩, hpop, hret⟩ := bind_ok.1 hnew
      cases hret
      exact ⟨⟨rfl, rfl, rfl, rfl, rfl, rfl⟩, rfl, h.popleftN hpop⟩
    · rw [if_neg hsink] at hnew
      cases hnew
  · next hkind =>
    have hnum : numSinkBlocks worldSize spec = 0 := by
      unfold numSinkBlocks
      split
      · next n hn => exact absurd hn (hkind n)
      · rfl
    rw [hnum]
    cases hnew
    exact ⟨⟨rfl, rfl, rfl, rfl, rfl, rfl⟩, rfl, h⟩

theorem getElem?_of_forall₂ {α β : Type} {R : α → β → Prop} {l : List α} {l' : List β}
    (h : Forall₂ R l l') {i : ℕ} {b : β} (hb : l'[i]? = some b) :
    ∃ a, l[i]? = some a ∧ R a b := by
  induction h generalizing i with
  | nil => cases hb
  | cons hab _ ih =>
    cases i with
    | zero =>
      cases hb
      exact ⟨_, rfl, hab⟩
    | succ i => exact ih hb

variable {ms : List SingleTypeKVCacheManager}

theorem newManagers_fresh {i : ℕ} {specs : List KVCacheSpec} (h : FreshPool pool first)
    (hnew : newManagers enableCaching worldSize i specs pool = .ok (ms, pool')) :
    Forall₂ (fun s m => Fresh s.1 enableCaching s.2 worldSize m) (specs.zipIdx i) ms ∧
      pool'.toBlockPoolConfig = pool.toBlockPoolConfig ∧
      FreshPool pool' (first + (specs.map (numSinkBlocks worldSize)).sum) := by
  induction specs generalizing i first pool ms with
  | nil =>
    cases hnew
    exact ⟨.nil, rfl, h⟩
  | cons spec specs ih =>
    obtain ⟨⟨m, pool₁⟩, hm, hrest⟩ := bind_ok.1 hnew
    obtain ⟨⟨ms', pool₂⟩, hms, hret⟩ := bind_ok.1 hrest
    cases hret
    obtain ⟨hfresh, hconfig₁, h₁⟩ := new_fresh h hm
    obtain ⟨hall, hconfig₂, h₂⟩ := ih h₁ hms
    refine ⟨.cons hfresh hall, hconfig₂.trans hconfig₁, ?_⟩
    rwa [map_cons, sum_cons, ← add_assoc]

namespace KVCacheManager

variable {hasher : BlockHasher δ} {kv kv' : KVCacheManager δ} {first rid : ℕ}
  {specs : List KVCacheSpec}

/-- The coordinator that is chosen fits fresh managers. -/
theorem getKVCacheCoordinator_fits {enableCaching useEagle : Bool} {dcpWorldSize pcpWorldSize : ℕ}
    {coordinator : KVCacheCoordinator}
    (hfresh : Forall₂ (fun s m => Fresh s.1 enableCaching s.2 (dcpWorldSize * pcpWorldSize) m)
      (specs.zipIdx 0) ms)
    (hco : getKVCacheCoordinator specs hasher.blockSize enableCaching useEagle dcpWorldSize
      pcpWorldSize = .ok coordinator) : Fits (ms.map toManagerConfig) hasher.blockSize coordinator ∧
      (enableCaching = true → ∀ m ∈ ms, hasher.blockSize ∣ m.blockSize) := by
  have hlen : ms.length = specs.length := by
    rw [← hfresh.length_eq, length_zipIdx]
  have hspecs : (ms.map toManagerConfig).map ManagerConfig.spec =
      specs := by
    rw [map_map]
    have hfst : ∀ s m, Fresh s.1 enableCaching s.2 (dcpWorldSize * pcpWorldSize) m →
        m.spec = Prod.fst s := fun s m h => h.spec
    exact (map_eq_of_forall₂ hfresh hfst).trans (zipIdx_map_fst _ _)
  unfold getKVCacheCoordinator at hco
  split_ifs at hco with hoff
  · cases hco
    refine ⟨?_, fun hon => ?_⟩
    · show specs.length = _
      rw [length_map, hlen]
    · rw [hon] at hoff
      cases hoff
  split at hco
  · next spec =>
    split_ifs at hco with hsize
    cases hco
    rw [not_not] at hsize
    obtain ⟨m, ms, hm, hnil, rfl⟩ := forall₂_cons_left_iff.1 hfresh
    cases hnil
    have hworld : 0 < dcpWorldSize * pcpWorldSize := by
      refine pos_of_ne_zero fun hzero => hasher.blockSize_pos.ne' ?_
      rw [hsize, hzero, mul_zero]
    have hblock : m.blockSize = spec.blockSize * (dcpWorldSize * pcpWorldSize) := by
      rw [hm.blockSize]
      split_ifs with hlt
      · rfl
      · rw [le_antisymm (not_lt.1 hlt) hworld, mul_one]
    refine ⟨⟨hworld, m.toManagerConfig, rfl, hm.spec, hblock, hblock.trans hsize.symm⟩,
      fun _ m' hm' => ?_⟩
    rw [mem_singleton.1 hm', hblock, hsize]
  · obtain ⟨c, hc, rfl⟩ := map_eq_ok.1 hco
    unfold HybridKVCacheCoordinator.new at hc
    split_ifs at hc with hdvd hdcp hpcp hlt
    cases hc
    rw [not_not] at hdcp hpcp
    subst hdcp hpcp
    have hblock : ∀ m ∈ ms, m.blockSize = m.spec.blockSize := by
      intro m hm
      obtain ⟨s, -, hs⟩ := exists_of_mem_right hfresh hm
      rw [hs.blockSize, hs.spec]
      rfl
    refine ⟨⟨hspecs.symm, rfl, fun x hx => ?_⟩, fun _ m hm => ?_⟩
    · obtain ⟨m, hm, rfl⟩ := mem_map.1 hx
      exact hblock m hm
    · rw [hblock m hm]
      refine hdvd _ ?_
      rw [← hspecs, map_map]
      exact mem_map_of_mem hm

/-- **A fresh KV cache manager.** -/
theorem new_sound {numBlocks maxModelLen dcpWorldSize pcpWorldSize : ℕ}
    {enableCaching useEagle : Bool}
    (hnew : new specs numBlocks maxModelLen hasher.blockSize enableCaching useEagle
      dcpWorldSize pcpWorldSize = .ok kv) :
    Sound hasher (firstBlock (dcpWorldSize * pcpWorldSize) specs) kv ∧ 0 < numBlocks ∧
      kv.blockPool.numGpuBlocks = numBlocks ∧ ∀ r, ∀ v ∈ kv.view r, v.2.1 = [] ∧ v.2.2 = none := by
  obtain ⟨pool, hpool, hnew⟩ := bind_ok.1 hnew
  obtain ⟨⟨ms, pool'⟩, hms, hnew⟩ := bind_ok.1 hnew
  obtain ⟨coordinator, hco, hret⟩ := bind_ok.1 hnew
  cases hret
  obtain ⟨hconfig₀, hfresh₀⟩ := new_fresh hpool
  obtain ⟨hfresh, hconfig₁, hfresh₁⟩ := newManagers_fresh hfresh₀ hms
  have hconfig := hconfig₁.trans hconfig₀
  have hpos : 0 < numBlocks := by
    have hnum : pool.numGpuBlocks = numBlocks := congrArg (·.numGpuBlocks) hconfig₀
    rw [← hnum]
    exact hfresh₀.le
  have hmem : ∀ m ∈ ms, ∃ s i, Fresh s enableCaching i (dcpWorldSize * pcpWorldSize) m := by
    intro m hm
    obtain ⟨⟨s, i⟩, -, hs⟩ := exists_of_mem_right hfresh hm
    exact ⟨s, i, hs⟩
  -- no block is handed out yet
  have hocc : totalOcc ms = 0 := by
    refine sum_eq_zero fun x hx => ?_
    obtain ⟨m, hm, rfl⟩ := mem_map.1 hx
    obtain ⟨s, i, hs⟩ := hmem m hm
    exact hs.occ
  obtain ⟨hfits, hdvd⟩ := getKVCacheCoordinator_fits hfresh hco
  refine ⟨⟨⟨?_, ?_, ?_, ?_, ?_, hfits, fun hon c hc => ?_⟩, ?_, hfresh₁.indexed, ?_, ?_⟩, hpos, ?_, ?_⟩
  · -- group ids are the places of the groups
    intro i c hc
    rw [configs, getElem?_map, Option.map_eq_some_iff] at hc
    obtain ⟨m, hm, rfl⟩ := hc
    obtain ⟨s, hs, hsm⟩ := getElem?_of_forall₂ hfresh hm
    rw [getElem?_zipIdx, Option.map_eq_some_iff] at hs
    obtain ⟨spec, -, rfl⟩ := hs
    exact hsm.groupId.trans (zero_add i)
  · intro c hc
    obtain ⟨m, hm, rfl⟩ := mem_map.1 hc
    obtain ⟨s, i, hs⟩ := hmem m hm
    exact hs.enableCaching
  · exact congrArg (·.enableCaching) hconfig
  · exact congrArg (·.hashBlockSize) hconfig
  · exact congrArg (·.nullBlock) hconfig
  · obtain ⟨m, hm, rfl⟩ := mem_map.1 hc
    exact hdvd hon m hm
  · show pool'.Counted _ (totalOcc ms)
    rw [hocc]
    exact hfresh₁.counted
  · intro m hm r
    obtain ⟨s, i, hs⟩ := hmem m hm
    rw [hs.blocks]
    exact distinct_nil _
  · intro b blockHash g hkey
    rw [hfresh₁.blockHash] at hkey
    cases hkey
  · exact congrArg (·.numGpuBlocks) hconfig
  · intro r v hv
    obtain ⟨m, hm, rfl⟩ := mem_map.1 hv
    obtain ⟨s, i, hs⟩ := hmem m hm
    refine ⟨hs.blocks r, ?_⟩
    rw [hs.numCachedBlock, lookup_empty]

/-! ### Runs -/

variable [DecidableEq δ]

/-- In the calls, each allocation for the request is followed by a call of `free`. -/
def Freed (calls : List (KVCall hasher)) (rid : ℕ) : Prop :=
  ∀ before call after, calls = before ++ call :: after → call.allocates = some rid →
    .free rid ∈ after

/-- **The invariant holds after any calls**, and requests that are freed have no blocks. -/
theorem run_sound (hfree : CollisionFree hasher) (h : Sound hasher first kv)
    (hnil : ∀ r, ∀ v ∈ kv.view r, v.2.1 = [] ∧ v.2.2 = none) (calls : List (KVCall hasher))
    (hrun : kv.run calls = .ok kv') : Sound hasher first kv' ∧ SameSetup kv kv' ∧
      ∀ r, Freed calls r → ∀ l ∈ kv'.getBlocks r, l = [] := by
  induction calls using List.reverseRecOn generalizing kv' with
  | nil =>
    cases hrun
    refine ⟨h, .refl kv, fun r _ l hl => ?_⟩
    rw [getBlocks_eq_view] at hl
    obtain ⟨v, hv, rfl⟩ := mem_map.1 hl
    exact (hnil r v hv).1
  | append_singleton calls call ih =>
    unfold run at hrun
    rw [foldlM_append] at hrun
    obtain ⟨kv₁, hcalls, hcall⟩ := bind_ok.1 hrun
    obtain ⟨kv₂, hstep, hret⟩ := bind_ok.1 hcall
    cases hret
    obtain ⟨h₁, hsetup₁, hfreed₁⟩ := ih hcalls
    obtain ⟨h₂, hsetup₂, hstay⟩ := step_sound hfree h₁ hstep
    refine ⟨h₂, hsetup₁.trans hsetup₂, fun r hr => ?_⟩
    by_cases hcallr : call = .free r
    · subst hcallr
      obtain ⟨-, -, hR⟩ := free_sound h₁ hstep
      intro l hl
      obtain ⟨m', hm', rfl⟩ := mem_map.1 hl
      obtain ⟨m, -, hforget⟩ := exists_of_mem_right hR hm'
      exact hforget.setsBlocks.self
    · -- the last call does not allocate for the request, and does not free it either
      refine hstay r (fun halloc => ?_) (hfreed₁ r fun before c after heq hc => ?_)
      · exact absurd (hr calls call [] rfl halloc) not_mem_nil
      · have hmem := hr before c (after ++ [call]) (by rw [heq]; simp) hc
        rcases mem_append.1 hmem with hmem | hmem
        · exact hmem
        · exact absurd (mem_singleton.1 hmem).symm hcallr

/-- Every block is accounted for. -/
structure Accounted (kv : KVCacheManager δ) : Prop where
  refCnt : ∀ b, b ≠ kv.blockPool.nullBlock →
    kv.blockPool.refCnt b = totalOcc kv.singleTypeManagers b
  queue : ∃ free : List ℕ,
    kv.blockPool.freeBlockQueue.getAllFreeBlocks (kv.blockPool.numGpuBlocks + 1) =
      some (free.map .block) ∧
    kv.getNumFreeBlocks = free.length ∧
    ∀ b, b ≠ kv.blockPool.nullBlock → b < kv.blockPool.numGpuBlocks →
      free.count b = if kv.blockPool.refCnt b = 0 then 1 else 0
  index : ∀ b key, kv.blockPool.blockHash b = some key ↔ b ∈ kv.blockPool.cachedBlockHashToBlock key

section

omit [DecidableEq δ]

/-- The blocks that the queue holds. -/
theorem Sound.queue (h : Sound hasher first kv) : ∃ free : List ℕ,
    kv.blockPool.freeBlockQueue.Holds free ∧ free.length < kv.blockPool.numGpuBlocks + 1 ∧
      ∀ b, b ∈ free ↔ kv.blockPool.Usable first b ∧ kv.blockPool.refCnt b = 0 := by
  obtain ⟨free, hholds, hmem⟩ := h.counted.queue
  refine ⟨free, hholds, ?_, hmem⟩
  have hsub : free ⊆ range kv.blockPool.numGpuBlocks := fun b hb =>
    mem_range.2 ((hmem b).1 hb).1.2
  have := (subperm_of_subset hholds.nodup hsub).length_le
  rw [length_range] at this
  exact lt_succ_of_le this

theorem Sound.accounted (h : Sound hasher 1 kv) : Accounted kv := by
  obtain ⟨free, hholds, hlen, hmem⟩ := h.queue
  refine ⟨h.counted.refCnt, ⟨free, getAllFreeBlocks_holds hholds hlen, hholds.numFreeBlocks,
    fun b hb hlt => ?_⟩, h.indexed.mem_iff⟩
  have husable : kv.blockPool.Usable 1 b := by
    refine ⟨one_le_iff_ne_zero.2 ?_, hlt⟩
    rw [← h.ready.nullBlock]
    exact hb
  split_ifs with hzero
  · exact count_eq_one_of_mem hholds.nodup ((hmem b).2 ⟨husable, hzero⟩)
  · exact count_eq_zero.2 fun hfree => hzero ((hmem b).1 hfree).2

/-- Without any blocks in the lists, all blocks but the null block are free. -/
theorem Sound.getNumFreeBlocks (h : Sound hasher 1 kv) (hpos : 0 < kv.blockPool.numGpuBlocks)
    (hnil : ∀ r, ∀ l ∈ kv.getBlocks r, l = []) :
    kv.getNumFreeBlocks = kv.blockPool.numGpuBlocks - 1 := by
  obtain ⟨free, hholds, -, hmem⟩ := h.queue
  have hocc : totalOcc kv.singleTypeManagers = 0 := by
    refine sum_eq_zero fun x hx => ?_
    obtain ⟨m, hm, rfl⟩ := mem_map.1 hx
    refine sum_eq_zero fun y hy => ?_
    obtain ⟨⟨r, l⟩, he, rfl⟩ := mem_map.1 hy
    have hlookup : m.reqToBlocks.lookup r = some l := mem_lookup_iff.2 he
    have hl : m.blocks r = [] := hnil r _ (mem_map_of_mem hm)
    unfold SingleTypeKVCacheManager.blocks at hl
    rw [hlookup, Option.getD_some] at hl
    subst hl
    rfl
  have hperm : free.Perm (range' 1 (kv.blockPool.numGpuBlocks - 1)) := by
    rw [perm_ext_iff_of_nodup hholds.nodup nodup_range']
    intro b
    rw [hmem, mem_range'_1, Usable]
    refine ⟨fun hb => by omega, fun hb => ⟨by omega, ?_⟩⟩
    have hne : b ≠ kv.blockPool.nullBlock := by
      rw [h.ready.nullBlock]
      omega
    rw [h.counted.refCnt b hne, hocc]
    rfl
  have hlen := hperm.length_eq
  rw [length_range'] at hlen
  show kv.blockPool.freeBlockQueue.numFreeBlocks = _
  rw [hholds.numFreeBlocks, hlen]
  omega

end

theorem firstBlock_of_noSink (hsink : ∀ spec ∈ specs, ∀ n, spec.kind ≠ .sinkFull n)
    (worldSize : ℕ) : firstBlock worldSize specs = 1 := by
  have hzero : (specs.map (numSinkBlocks worldSize)).sum = 0 := by
    refine sum_eq_zero fun n hn => ?_
    obtain ⟨spec, hspec, rfl⟩ := mem_map.1 hn
    unfold numSinkBlocks
    split
    · next n hkind => exact absurd hkind (hsink spec hspec n)
    · rfl
  rw [firstBlock, hzero]

/-- **Every block is accounted for** in every state that a fresh manager reaches, and when each
request is freed all blocks but the null block are free. -/
theorem run_accounted (hfree : CollisionFree hasher) {specs : List KVCacheSpec}
    (hsink : ∀ spec ∈ specs, ∀ n, spec.kind ≠ .sinkFull n)
    {numGpuBlocks maxModelLen dcpWorldSize pcpWorldSize : ℕ} {enableCaching useEagle : Bool}
    (hnew : new specs numGpuBlocks maxModelLen hasher.blockSize enableCaching
      useEagle dcpWorldSize pcpWorldSize = .ok kv) (calls : List (KVCall hasher))
    (hrun : kv.run calls = .ok kv') : Accounted kv' ∧
      ((∀ r, Freed calls r) → kv'.getNumFreeBlocks = numGpuBlocks - 1) := by
  obtain ⟨h, hpos, hnum, hnil⟩ := new_sound hnew
  rw [firstBlock_of_noSink hsink] at h
  obtain ⟨h', hsetup, hfreed⟩ := run_sound hfree h hnil calls hrun
  have hnum' : kv'.blockPool.numGpuBlocks = numGpuBlocks :=
    (congrArg (·.numGpuBlocks) hsetup.pool).trans hnum
  refine ⟨h'.accounted, fun hall => ?_⟩
  rw [h'.getNumFreeBlocks (hnum' ▸ hpos) fun r => hfreed r (hall r), hnum']

theorem transcriptHasher_collisionFree : CollisionFree transcriptHasher :=
  ⟨transcriptHasher_injective, fun p c => cons_ne_nil c p⟩

/-- A request for a prompt of token ids. -/
def promptRequest (requestId : ℕ) (ids : List ℕ) (hpos : 0 < ids.length) :
    SchedulerRequest transcriptHasher where
  requestId := requestId
  input := ⟨⟨none, [], none, none⟩, some ids, []⟩
  request := _
  built := build_promptTokenIds transcriptHasher rfl ids
  tokens_pos := by simpa [tokens, prompt] using hpos
  numComputedTokens := 0
  skipReadingPrefixCache := false

/-- The calls for a request that is computed at once and then finishes. -/
def oneRequest (request : SchedulerRequest transcriptHasher) : List (KVCall transcriptHasher) :=
  [.getComputedBlocks request, .allocateSlots request true request.numTokens 0 0 false 0,
    .free request.requestId]

/-- A full attention group with blocks of two tokens. -/
def fullSpec : KVCacheSpec := ⟨.full, 2, 0, Nat.two_pos, chunkSize_pos_full⟩

theorem fullSpec_noSink : ∀ spec ∈ [fullSpec], ∀ n, spec.kind ≠ .sinkFull n := by
  simp [fullSpec]

theorem oneRequest_runs : ∃ kv kv' : KVCacheManager _,
    new [fullSpec] 4 16 2 true false 1 1 = .ok kv ∧
      kv.run (oneRequest (promptRequest 0 [1, 2, 3] (succ_pos 2))) = .ok kv' ∧
      kv'.getComputedBlocks (promptRequest 1 [1, 2, 5] (succ_pos 2)) = .ok ([[1]], 2) :=
  ⟨_, _, rfl, rfl, rfl⟩

theorem run_accounted_oneRequest : ∃ kv kv' : KVCacheManager _,
    new [fullSpec] 4 16 2 true false 1 1 = .ok kv ∧
      kv.run (oneRequest (promptRequest 0 [1, 2, 3] (succ_pos 2))) = .ok kv' ∧ Accounted kv' ∧
      ((∀ r, Freed (oneRequest (promptRequest 0 [1, 2, 3] (succ_pos 2))) r) →
        kv'.getNumFreeBlocks = (4 : ℕ) - 1) := by
  obtain ⟨kv, kv', hnew, hrun, -⟩ := oneRequest_runs
  exact ⟨kv, kv', hnew, hrun,
    run_accounted transcriptHasher_collisionFree fullSpec_noSink hnew _ hrun⟩

/-! ### The prefix cache -/

section

variable {c : ManagerConfig} {r request : SchedulerRequest hasher} {blockHash : BlockHash δ}

omit [DecidableEq δ] in
/-- The digests in the hash of a block. -/
theorem getElem?_of_groupHashes {i t : ℕ} (ht : t < c.blockSize / hasher.blockSize)
    (hget : (groupHashes hasher c r.blockHashes)[i]? = some blockHash) :
    r.blockHashes[i * (c.blockSize / hasher.blockSize) + t]? = blockHash[t]? ∧
      i * (c.blockSize / hasher.blockSize) + t < r.blockHashes.length := by
  unfold groupHashes blockHashList at hget
  obtain ⟨hi, heq⟩ := List.getElem?_eq_some_iff.1 hget
  rw [length_map, length_range] at hi
  rw [getElem_map, getElem_range] at heq
  refine ⟨?_, ?_⟩
  · rw [← heq, getElem?_take_of_lt ht, getElem?_drop]
  · have := mul_le_mul_right (c.blockSize / hasher.blockSize) hi
    have := div_mul_le_self r.blockHashes.length (c.blockSize / hasher.blockSize)
    rw [succ_mul] at *
    omega

omit [DecidableEq δ] in
/-- Two requests with the same hash of a block have the same tokens and keys up to its end. -/
theorem sameKeys_of_groupHashes (hfree : CollisionFree hasher) (hdvd : hasher.blockSize ∣ c.blockSize)
    (hpos : 0 < c.blockSize) {i : ℕ}
    (hget : (groupHashes hasher c request.blockHashes)[i]? = some blockHash)
    (hmem : blockHash ∈ groupHashes hasher c r.blockHashes) :
    r.input.tokens.take ((i + 1) * c.blockSize) =
        request.input.tokens.take ((i + 1) * c.blockSize) ∧
      r.input.SameKeys request.input hasher.blockSize
        ((i + 1) * (c.blockSize / hasher.blockSize) - 1) := by
  obtain ⟨k, hk⟩ := hdvd
  have hdiv : c.blockSize / hasher.blockSize = k := by
    rw [hk, Nat.mul_div_cancel_left k hasher.blockSize_pos]
  have hk0 : 0 < k := pos_of_ne_zero fun hzero => by simp [hk, hzero] at hpos
  obtain ⟨j, hj⟩ := mem_iff_getElem?.1 hmem
  have ht : k - 1 < c.blockSize / hasher.blockSize := by omega
  obtain ⟨hi, hilt⟩ := getElem?_of_groupHashes ht hget
  obtain ⟨hj, hjlt⟩ := getElem?_of_groupHashes ht hj
  rw [hdiv] at hi hilt hj hjlt
  -- the last digests of the block are equal, so they are at the same place
  have heq : r.blockHashes[j * k + (k - 1)]? = request.blockHashes[i * k + (k - 1)]? :=
    hj.trans hi.symm
  have hij : j * k + (k - 1) = i * k + (k - 1) := by
    have hchain := build_eq_chain r.built
    have hchain' := build_eq_chain request.built
    simp only [SchedulerRequest.blockHashes] at heq hilt hjlt
    rw [hchain, hchain'] at heq
    rw [hchain', HashChain.length_chain] at hilt
    rw [hchain, HashChain.length_chain] at hjlt
    exact ((HashChain.getElem?_chain_eq_iff hfree.injective hfree.ne_noneHash hjlt hilt).1 heq).1
  have hlast : i * k + (k - 1) = (i + 1) * k - 1 := by
    rw [succ_mul]
    omega
  have hend : ((i + 1) * k - 1 + 1) * hasher.blockSize = (i + 1) * c.blockSize := by
    rw [Nat.sub_add_cancel (Nat.mul_pos i.succ_pos hk0), hk, mul_assoc, mul_comm k]
  rw [hij, hlast] at heq
  rw [hij, hlast] at hjlt
  rw [hlast] at hilt
  have := (getElem?_blockHashes_eq_iff hfree.injective hfree.ne_noneHash r.built request.built hjlt
    hilt).1 heq
  rwa [hend, ← hdiv] at this

end

/-- A block of the hit of a request in a group: its key is the hash of the tokens of the request up
to the end of the block, and it was last filled by a request with these tokens and keys. -/
structure HoldsPrefix (kv : KVCacheManager δ) (request : SchedulerRequest hasher)
    (c : ManagerConfig) (i b : ℕ) : Prop where
  key : ∃ blockHash, (groupHashes hasher c request.blockHashes)[i]? = some blockHash ∧
    kv.blockPool.blockHash b = some (makeBlockHashWithGroupId blockHash c.groupId)
  filled : ∃ x, kv.blockPool.filledBy b = some x ∧ x.tokens.take ((i + 1) * c.blockSize) =
      request.input.tokens.take ((i + 1) * c.blockSize) ∧
    x.SameKeys request.input hasher.blockSize ((i + 1) * (c.blockSize / hasher.blockSize) - 1)

omit [DecidableEq δ] in
/-- Under the invariant, a hit holds the prefix of the request. -/
theorem Sound.holdsPrefix (hfree : CollisionFree hasher) (h : Sound hasher first kv)
    {request : SchedulerRequest hasher} {blocks : List (List ℕ)} {L : ℕ}
    (hget : kv.getComputedBlocks request = .ok (blocks, L)) {c : ManagerConfig}
    (hc : c ∈ kv.configs) : ∃ l, blocks[c.groupId]? = some l ∧ l.length * c.blockSize = L ∧
      ∀ i b : ℕ, l[i]? = some b → b ≠ kv.blockPool.nullBlock → HoldsPrefix kv request c i b := by
  have hhit := getComputedBlocks_hit h.ready hget
  obtain ⟨l, hl, hprefix⟩ := hhit.group c hc
  refine ⟨l, hl, hprefix.length, fun i b hb hnull => ?_⟩
  obtain hb' | ⟨blockHash, hat, hlookup⟩ := hprefix.block i b hb
  · exact absurd hb' hnull
  have hkey := blockHash_of_lookup h.indexed hlookup
  obtain ⟨r, c', hc', hfilled, hid, hmem⟩ := h.filled b blockHash c.groupId hkey
  -- managers with the same group id are the same
  have hcc : c' = c := by
    obtain ⟨i, hi⟩ := mem_iff_getElem?.1 hc
    obtain ⟨j, hj⟩ := mem_iff_getElem?.1 hc'
    have := h.ready.groupId i c hi
    have := h.ready.groupId j c' hj
    obtain rfl : i = j := by omega
    exact Option.some.inj (hj.symm.trans hi)
  subst hcc
  have hon : kv.enableCaching = true := by
    cases hcache : kv.enableCaching with
    | true => rfl
    | false => simp [hhit.off hcache l (mem_of_getElem? hl)] at hb
  have hpos : 0 < c'.blockSize := c'.blockSize_pos
  exact ⟨⟨blockHash, hat, hkey⟩, r.input, hfilled,
    sameKeys_of_groupHashes hfree (h.ready.dvd hon c' hc) hpos hat hmem⟩

/-- **The prefix cache is sound** in every state that a fresh manager reaches: the blocks of a hit
hold the prefix of the request, and the hit is whole blocks of each group, less than all tokens. -/
theorem getComputedBlocks_sound (hfree : CollisionFree hasher) {specs : List KVCacheSpec}
    {numGpuBlocks maxModelLen dcpWorldSize pcpWorldSize : ℕ} {enableCaching useEagle : Bool}
    (hnew : new specs numGpuBlocks maxModelLen hasher.blockSize enableCaching
      useEagle dcpWorldSize pcpWorldSize = .ok kv) (calls : List (KVCall hasher))
    (hrun : kv.run calls = .ok kv') (request : SchedulerRequest hasher) {blocks : List (List ℕ)}
    {L : ℕ} (hget : kv'.getComputedBlocks request = .ok (blocks, L)) :
    L ≤ request.numTokens - 1 ∧ ∀ (g : ℕ) c, kv'.configs[g]? = some c → c.blockSize ∣ L ∧
      ∃ l : List ℕ, blocks[g]? = some l ∧ ∀ i b : ℕ, l[i]? = some b → b ≠ kv'.blockPool.nullBlock →
          HoldsPrefix kv' request c i b := by
  obtain ⟨h, -, -, hnil⟩ := new_sound hnew
  obtain ⟨h', -, -⟩ := run_sound hfree h hnil calls hrun
  refine ⟨(getComputedBlocks_hit h'.ready hget).le, fun g c hg => ?_⟩
  obtain rfl := h'.ready.groupId g c hg
  obtain ⟨l, hl, hL, hholds⟩ := h'.holdsPrefix hfree hget (mem_of_getElem? hg)
  exact ⟨Dvd.intro_left l.length hL, l, hl, hholds⟩

theorem getComputedBlocks_sound_oneRequest : ∃ kv kv' : KVCacheManager _,
    new [fullSpec] 4 16 2 true false 1 1 = .ok kv ∧
      kv.run (oneRequest (promptRequest 0 [1, 2, 3] (succ_pos 2))) = .ok kv' ∧
      kv'.getComputedBlocks (promptRequest 1 [1, 2, 5] (succ_pos 2)) = .ok ([[1]], 2) ∧
      2 ≤ 3 - 1 ∧ ∀ (g : ℕ) c, kv'.configs[g]? = some c → c.blockSize ∣ 2 ∧
        ∃ l : List ℕ, [[1]][g]? = some l ∧ ∀ i b : ℕ, l[i]? = some b → b ≠ kv'.blockPool.nullBlock →
            HoldsPrefix kv' (promptRequest 1 [1, 2, 5] (succ_pos 2)) c i b := by
  obtain ⟨kv, kv', hnew, hrun, hget⟩ := oneRequest_runs
  exact ⟨kv, kv', hnew, hrun, hget, getComputedBlocks_sound transcriptHasher_collisionFree hnew
    _ hrun _ hget⟩

end KVCacheManager

end LoptVllm.KVCache
