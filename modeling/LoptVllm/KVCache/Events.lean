import LoptVllm.KVCache.Accounting
import Mathlib.Data.Finset.Card

/-!
# KV cache events

With events enabled, the pool appends an event to a queue whenever blocks are cached or evicted, one
for each block that is evicted. Several blocks can be cached under one hash.
-/

namespace LoptVllm.KVCache

open List Option Function Finset Bool BlockPool BlockHashToBlockMap

variable {δ ε : Type}

/-- The events, with the fields that depend on the blocks. A block hash is sent in the form that
`maybe_convert_block_hash` gives it. -/
inductive KVCacheEvent (ε : Type)
  | blockStored (blockHashes : List ε) (parentBlockHash : Option ε) (tokenIds : List ℕ)
      (blockSize : ℕ)
  | blockRemoved (blockHashes : List ε)
  | allBlocksCleared

/-- A pool with `enable_kv_cache_events`. -/
structure EventPool (δ ε : Type) extends BlockPool δ where
  kvEventQueue : List (KVCacheEvent ε)

/-- `BlockPool.__init__`. -/
def EventPool.new (numGpuBlocks : ℕ) (enableCaching : Bool) (hashBlockSize : ℕ) :
    Except PyErr (EventPool δ ε) :=
  (BlockPool.new numGpuBlocks enableCaching hashBlockSize).map fun pool => ⟨pool, []⟩

namespace BlockPool

variable [DecidableEq δ] (maybeConvertBlockHash : BlockHash δ → ε)

/-- The event of `_maybe_evict_cached_block`. -/
def evictEvent (pool : BlockPool δ) (b : ℕ) : List (KVCacheEvent ε) := match pool.blockHash b with
  | none => []
  | some blockHash =>
    if (pool.maybeEvictCachedBlock b).2 then
      [.blockRemoved [maybeConvertBlockHash blockHash.1]]
    else []

/-- The events when blocks are evicted one after another. -/
def evictEvents : List ℕ → BlockPool δ → List (KVCacheEvent ε)
  | [], _ => []
  | b :: blocks, pool => evictEvent maybeConvertBlockHash pool b ++
      evictEvents blocks (pool.maybeEvictCachedBlock b).1

/-- `new_hashes` of `cache_full_blocks`: null blocks are skipped. -/
def newHashes (nullBlock : ℕ) : List ℕ → List (BlockHash δ) → List ε
  | [], _ => []
  | b :: blocks, newBlockHashes =>
    if b = nullBlock then newHashes nullBlock blocks newBlockHashes.tail
    else match newBlockHashes with
      | [] => []
      | blockHash :: newBlockHashes =>
        maybeConvertBlockHash blockHash :: newHashes nullBlock blocks newBlockHashes

/-- The event of `cache_full_blocks`. -/
def cacheEvent {hasher : BlockHasher δ} (pool : BlockPool δ) (request : SchedulerRequest hasher)
    (blocks : List ℕ) (numCachedBlocks numFullBlocks blockSize : ℕ) : List (KVCacheEvent ε) :=
  if numCachedBlocks ≥ numFullBlocks then []
  else
    let newFullBlocks := (blocks.take numFullBlocks).drop numCachedBlocks
    let blockHashes := blockHashList request.blockHashes (blockSize / pool.hashBlockSize)
    let parentBlockHash := if numCachedBlocks = 0 then none
      else (blockHashes[numCachedBlocks - 1]?).map maybeConvertBlockHash
    [.blockStored
      (newHashes maybeConvertBlockHash pool.nullBlock newFullBlocks
        (blockHashes.drop numCachedBlocks))
      parentBlockHash
      ((request.input.tokens.take (numFullBlocks * blockSize)).drop (numCachedBlocks * blockSize))
      blockSize]

end BlockPool

/-- The calls of the methods of a pool, for the blocks of the only group. -/
inductive PoolCall {δ : Type} (hasher : BlockHasher δ)
  | cacheFullBlocks (request : SchedulerRequest hasher) (blocks : List ℕ)
      (numCachedBlocks numFullBlocks blockSize : ℕ)
  | getNewBlocks (numBlocks : ℤ)
  | touch (blocks : List ℕ)
  | freeBlocks (orderedBlocks : List ℕ)
  | evictBlocks (blockIds : List ℕ)
  | resetPrefixCache

namespace EventPool

variable [DecidableEq δ] {hasher : BlockHasher δ} (maybeConvertBlockHash : BlockHash δ → ε)
  (pool : EventPool δ ε)

/-- The state after a method changed the pool and appended events. -/
def next (pool' : BlockPool δ) (events : List (KVCacheEvent ε)) : EventPool δ ε :=
  ⟨pool', pool.kvEventQueue ++ events⟩

/-- A call. Only with caching enabled, `get_new_blocks` evicts the blocks that it returns. -/
def step : PoolCall hasher → Except PyErr (EventPool δ ε)
  | .cacheFullBlocks request blocks numCachedBlocks numFullBlocks blockSize => do
    let pool' ← pool.cacheFullBlocks request blocks numCachedBlocks numFullBlocks blockSize 0
    return pool.next pool' (pool.cacheEvent maybeConvertBlockHash request blocks numCachedBlocks
      numFullBlocks blockSize)
  | .getNewBlocks numBlocks => do
    let (ret, pool') ← pool.getNewBlocks numBlocks
    return pool.next pool'
      (if pool.enableCaching then evictEvents maybeConvertBlockHash ret pool.toBlockPool
        else [])
  | .touch blocks => do
    let pool' ← touch blocks pool.toBlockPool
    return pool.next pool' []
  | .freeBlocks orderedBlocks => do
    let pool' ← pool.freeBlocks orderedBlocks
    return pool.next pool' []
  | .evictBlocks blockIds => do
    let pool' ← pool.evictBlocks blockIds
    return pool.next pool' (evictEvents maybeConvertBlockHash blockIds pool.toBlockPool)
  | .resetPrefixCache => .ok (pool.next pool.resetPrefixCache.1
      (if pool.resetPrefixCache.2 then [.allBlocksCleared] else []))

/-- The state after a sequence of calls, none of which raises. -/
def run (calls : List (PoolCall hasher)) (pool : EventPool δ ε) : Except PyErr (EventPool δ ε) :=
  calls.foldlM (fun pool call => pool.step maybeConvertBlockHash call) pool

end EventPool

/-! ### Subscribers -/

section

variable [DecidableEq ε]

/-- A subscriber that counts how often each hash is stored. -/
def countHashes (held : Multiset ε) : KVCacheEvent ε → Multiset ε
  | .blockStored blockHashes _ _ _ => held + blockHashes
  | .blockRemoved blockHashes => held - blockHashes
  | .allBlocksCleared => 0

/-- A subscriber that keeps a set of hashes. -/
def keepHashes (held : Finset ε) : KVCacheEvent ε → Finset ε
  | .blockStored blockHashes _ _ _ => held ∪ blockHashes.toFinset
  | .blockRemoved blockHashes => held \ blockHashes.toFinset
  | .allBlocksCleared => ∅

variable (events : List (KVCacheEvent ε))

/-- The hashes that the counting subscriber holds after the events. -/
def subscribe : Multiset ε := events.foldl countHashes 0

/-- The hashes that the subscriber with a set holds after the events. -/
def subscribeSet : Finset ε := events.foldl keepHashes ∅

end

/-! ### The invariant -/

variable {maybeConvertBlockHash : BlockHash δ → ε} {pool pool' : BlockPool δ} {held : Multiset ε}

/-- The form in which the hash of a block is sent. -/
def sentHash (maybeConvertBlockHash : BlockHash δ → ε) (pool : BlockPool δ) (b : ℕ) : Option ε :=
  (pool.blockHash b).map fun key => maybeConvertBlockHash key.1

/-- **The invariant.**  The map of the pool is the inverse of the keys of the blocks, and there is a
held hash for each block with a key. -/
structure Mirrors (maybeConvertBlockHash : BlockHash δ → ε) (pool : BlockPool δ)
    (held : Multiset ε) : Prop where
  mem_iff : ∀ b key, pool.blockHash b = some key ↔ b ∈ pool.cachedBlockHashToBlock key
  nodup : ∀ key, (pool.cachedBlockHashToBlock key).Nodup
  groupId : ∀ b key, pool.blockHash b = some key → key.2 = 0
  held : ∃ s : Finset ℕ, (∀ b, b ∈ s ↔ (pool.blockHash b).isSome) ∧
    held.map some = s.val.map (sentHash maybeConvertBlockHash pool)

theorem Mirrors.of_eq (h : Mirrors maybeConvertBlockHash pool held)
    (hhash : pool'.blockHash = pool.blockHash)
    (hmap : pool'.cachedBlockHashToBlock = pool.cachedBlockHashToBlock) :
    Mirrors maybeConvertBlockHash pool' held := by
  have hsent : sentHash maybeConvertBlockHash pool' = sentHash maybeConvertBlockHash pool := by
    unfold sentHash
    rw [hhash]
  refine ⟨?_, ?_, ?_, ?_⟩
  · rw [hhash, hmap]
    exact h.mem_iff
  · rw [hmap]
    exact h.nodup
  · rw [hhash]
    exact h.groupId
  · rw [hhash, hsent]
    exact h.held

/-- A hash is held exactly when some block is cached under it. -/
theorem Mirrors.mem_held_iff (h : Mirrors maybeConvertBlockHash pool held) (e : ε) :
    e ∈ held ↔ ∃ blockHash, maybeConvertBlockHash blockHash = e ∧
      (getCachedBlock pool.lookup blockHash [0]).isSome := by
  obtain ⟨s, hs, hheld⟩ := h.held
  have hcached : ∀ blockHash, (getCachedBlock pool.lookup blockHash [0]).isSome ↔
      ∃ b, pool.blockHash b = some (blockHash, 0) := by
    intro blockHash
    have hsome : (getCachedBlock pool.lookup blockHash [0]).isSome =
        (pool.lookup blockHash 0).isSome := by
      unfold getCachedBlock
      cases hlookup : pool.lookup blockHash 0 <;> simp [hlookup]
    rw [hsome]
    show (pool.cachedBlockHashToBlock (blockHash, 0)).head?.isSome ↔ _
    rw [isSome_head?]
    refine Iff.trans ?_ (exists_congr fun b => (h.mem_iff b (blockHash, 0)).symm)
    exact ⟨exists_mem_of_ne_nil _, fun ⟨b, hb⟩ => ne_nil_of_mem hb⟩
  have hmem : e ∈ held ↔ some e ∈ held.map some := by
    rw [Multiset.mem_map]
    constructor
    · exact fun he => ⟨e, he, rfl⟩
    · rintro ⟨e', he', heq⟩
      exact some.inj heq ▸ he'
  rw [hmem, hheld, Multiset.mem_map]
  constructor
  · rintro ⟨b, hb, hsent⟩
    obtain ⟨key, hkey⟩ := isSome_iff_exists.1 ((hs b).1 hb)
    unfold sentHash at hsent
    rw [hkey] at hsent
    have hzero := h.groupId b key hkey
    refine ⟨key.1, some.inj hsent, (hcached key.1).2 ⟨b, ?_⟩⟩
    rw [hkey, ← hzero]
  · rintro ⟨blockHash, rfl, hsome⟩
    obtain ⟨b, hb⟩ := (hcached blockHash).1 hsome
    refine ⟨b, (hs b).2 (by rw [hb, isSome_some]), ?_⟩
    unfold sentHash
    rw [hb]
    rfl

variable [DecidableEq δ]

theorem Mirrors.insert (h : Mirrors maybeConvertBlockHash pool held) {b : ℕ}
    (hnone : pool.blockHash b = none) (blockHash : BlockHash δ)
    (filledBy : ℕ → Option RequestInput) :
    Mirrors maybeConvertBlockHash { pool with
      blockHash := update pool.blockHash b (some (makeBlockHashWithGroupId blockHash 0))
      cachedBlockHashToBlock := BlockHashToBlockMap.insert pool.cachedBlockHashToBlock
        (makeBlockHashWithGroupId blockHash 0) b
      filledBy := filledBy } (maybeConvertBlockHash blockHash ::ₘ held) := by
  set key := makeBlockHashWithGroupId blockHash 0 with hkey
  -- the block had no key before
  have hnot : ∀ k, b ∉ pool.cachedBlockHashToBlock k := by
    intro k hmem
    rw [← h.mem_iff, hnone] at hmem
    cases hmem
  have hmap : BlockHashToBlockMap.insert pool.cachedBlockHashToBlock key b =
      update pool.cachedBlockHashToBlock key (pool.cachedBlockHashToBlock key ++ [b]) := by
    rw [BlockHashToBlockMap.insert, if_neg (hnot key)]
  obtain ⟨s, hs, hheld⟩ := h.held
  have hb : b ∉ s := by
    rw [hs, hnone]
    exact false_ne_true
  refine ⟨fun c k => ?_, fun k => ?_, fun c k hc => ?_, Insert.insert b s, fun c => ?_, ?_⟩
  · rw [hmap]
    by_cases hk : k = key
    · by_cases hcb : c = b
      · simp [hk, hcb]
      · simp [hk, hcb, h.mem_iff]
    · by_cases hcb : c = b
      · simp [hcb, hk, Ne.symm, hnot]
      · simp [hcb, hk, h.mem_iff]
  · rw [hmap]
    show (update pool.cachedBlockHashToBlock key _ k).Nodup
    by_cases hk : k = key
    · rw [hk, update_self, ← concat_eq_append]
      exact (h.nodup key).concat (hnot key)
    · rw [update_of_ne hk]
      exact h.nodup k
  · by_cases hcb : c = b
    · have hck : some key = some k := by simpa [hcb] using hc
      rw [← some.inj hck]
      rfl
    · exact h.groupId c k (by simpa [hcb] using hc)
  · rw [mem_insert, hs]
    by_cases hcb : c = b
    · simp [hcb]
    · simp [hcb]
  · rw [insert_val_of_notMem hb, Multiset.map_cons, Multiset.map_cons, hheld]
    have hself : sentHash maybeConvertBlockHash { pool with
        blockHash := update pool.blockHash b (some key)
        cachedBlockHashToBlock := BlockHashToBlockMap.insert pool.cachedBlockHashToBlock key b
        filledBy := filledBy } b = some (maybeConvertBlockHash blockHash) := by
      simp [sentHash, hkey, makeBlockHashWithGroupId]
    rw [hself]
    refine congrArg _ (Multiset.map_congr rfl fun c hc => ?_)
    have hcb : c ≠ b := fun hcb => hb (hcb ▸ hc)
    simp [sentHash, hcb]

variable {blocks : List ℕ}

theorem Mirrors.cacheLoop {input : RequestInput} {hashes : List (BlockHash δ)}
    (h : Mirrors maybeConvertBlockHash pool held)
    (hloop : cacheLoop input 0 blocks hashes pool = .ok pool') :
    Mirrors maybeConvertBlockHash pool' (held +
      (newHashes maybeConvertBlockHash pool.nullBlock blocks hashes : List ε)) := by
  induction blocks generalizing pool held hashes with
  | nil =>
    cases hloop
    simpa [newHashes] using h
  | cons b blocks ih =>
    unfold cacheLoop at hloop
    unfold newHashes
    by_cases hnull : b = pool.nullBlock
    · rw [if_pos hnull] at hloop ⊢
      exact ih h hloop
    · rw [if_neg hnull] at hloop ⊢
      split_ifs at hloop with hkey
      cases hashes with
      | nil => cases hloop
      | cons blockHash hashes =>
        rw [not_eq_true, isSome_eq_false_iff, isNone_iff_eq_none] at hkey
        have := ih (h.insert hkey blockHash _) hloop
        rwa [Multiset.cons_add, ← Multiset.add_cons, Multiset.cons_coe] at this

variable [DecidableEq ε]

theorem Mirrors.evict (h : Mirrors maybeConvertBlockHash pool held) (b : ℕ) :
    Mirrors maybeConvertBlockHash (pool.maybeEvictCachedBlock b).1
      ((pool.evictEvent maybeConvertBlockHash b).foldl countHashes held) := by
  unfold evictEvent maybeEvictCachedBlock
  cases hkey : pool.blockHash b with
  | none => exact h
  | some key =>
    have hmem := (h.mem_iff b key).1 hkey
    simp only [pop, if_pos hmem, if_true, foldl_cons, foldl_nil, countHashes]
    obtain ⟨s, hs, hheld⟩ := h.held
    have hb : b ∈ s := by rw [hs, hkey, isSome_some]
    refine ⟨fun c k => ?_, fun k => ?_, fun c k hc => ?_, s.erase b, fun c => ?_, ?_⟩
    · show update pool.blockHash b none c = some k ↔ c ∈ update pool.cachedBlockHashToBlock key _ k
      by_cases hk : k = key
      · subst hk
        rw [update_self, (h.nodup k).mem_erase_iff]
        by_cases hcb : c = b
        · simp [hcb]
        · simp [hcb, h.mem_iff]
      · rw [update_of_ne hk]
        by_cases hcb : c = b
        · subst hcb
          rw [update_self, ← h.mem_iff, hkey]
          simp [Ne.symm hk]
        · rw [update_of_ne hcb, h.mem_iff]
    · show (update pool.cachedBlockHashToBlock key _ k).Nodup
      by_cases hk : k = key
      · rw [hk, update_self]
        exact (h.nodup key).erase b
      · rw [update_of_ne hk]
        exact h.nodup k
    · by_cases hcb : c = b
      · simp [hcb] at hc
      · exact h.groupId c k (by simpa [hcb] using hc)
    · rw [mem_erase, hs]
      by_cases hcb : c = b
      · simp [hcb]
      · simp [hcb]
    · -- the hash of the block is one of the held ones
      have hsent : sentHash maybeConvertBlockHash pool b = some (maybeConvertBlockHash key.1) := by
        unfold sentHash
        rw [hkey]
        rfl
      have hsplit : s.val = b ::ₘ (s.erase b).val := by
        rw [erase_val, Multiset.cons_erase hb]
      rw [hsplit, Multiset.map_cons, hsent] at hheld
      have he : maybeConvertBlockHash key.1 ∈ held := by
        have hmem : some (maybeConvertBlockHash key.1) ∈ held.map some := by
          rw [hheld]
          exact Multiset.mem_cons_self _ _
        obtain ⟨e, he, heq⟩ := Multiset.mem_map.1 hmem
        exact some.inj heq ▸ he
      rw [← Multiset.cons_erase he, Multiset.map_cons, Multiset.cons_inj_right] at hheld
      rw [Multiset.coe_singleton, Multiset.sub_singleton, hheld]
      refine Multiset.map_congr rfl fun c hc => ?_
      have hcb : c ≠ b := (mem_erase.1 hc).1
      simp [sentHash, hcb]

theorem Mirrors.evictBlocks {blockIds : List ℕ} (h : Mirrors maybeConvertBlockHash pool held)
    (hevict : pool.evictBlocks blockIds = .ok pool') : Mirrors maybeConvertBlockHash pool'
      ((evictEvents maybeConvertBlockHash blockIds pool).foldl countHashes held) := by
  induction blockIds generalizing pool held with
  | nil =>
    cases hevict
    exact h
  | cons b blockIds ih =>
    unfold evictBlocks at hevict
    split_ifs at hevict
    unfold evictEvents
    rw [foldl_append]
    exact ih (h.evict b) hevict

omit [DecidableEq ε] in
/-- What eviction does depends on the keys of the blocks and on the map only. -/
theorem maybeEvictCachedBlock_congr (maybeConvertBlockHash : BlockHash δ → ε)
    (hhash : pool'.blockHash = pool.blockHash)
    (hmap : pool'.cachedBlockHashToBlock = pool.cachedBlockHashToBlock) (b : ℕ) :
    pool'.evictEvent maybeConvertBlockHash b = pool.evictEvent maybeConvertBlockHash b ∧
      (pool'.maybeEvictCachedBlock b).1.blockHash = (pool.maybeEvictCachedBlock b).1.blockHash ∧
      (pool'.maybeEvictCachedBlock b).1.cachedBlockHashToBlock =
        (pool.maybeEvictCachedBlock b).1.cachedBlockHashToBlock := by
  unfold evictEvent maybeEvictCachedBlock pop
  rw [hhash, hmap]
  cases pool.blockHash b with
  | none => exact ⟨rfl, hhash, hmap⟩
  | some key =>
    by_cases hb : b ∈ pool.cachedBlockHashToBlock key
    · simp only [if_pos hb]
      exact ⟨trivial, trivial, trivial⟩
    · simp only [if_neg hb]
      exact ⟨trivial, hhash, hmap⟩

omit [DecidableEq ε] in
theorem evictEvents_congr (hhash : pool'.blockHash = pool.blockHash)
    (hmap : pool'.cachedBlockHashToBlock = pool.cachedBlockHashToBlock) :
    evictEvents maybeConvertBlockHash blocks pool' =
      evictEvents maybeConvertBlockHash blocks pool := by
  induction blocks generalizing pool pool' with
  | nil => rfl
  | cons b blocks ih =>
    obtain ⟨hevent, hhash', hmap'⟩ := maybeEvictCachedBlock_congr maybeConvertBlockHash hhash hmap b
    unfold evictEvents
    rw [hevent, ih hhash' hmap']

theorem Mirrors.newLoop {ret : List ℕ} (h : Mirrors maybeConvertBlockHash pool held)
    (hloop : newLoop ret pool = .ok pool') :
    Mirrors maybeConvertBlockHash pool' ((if pool.enableCaching then
      evictEvents maybeConvertBlockHash ret pool else []).foldl countHashes held) := by
  induction ret generalizing pool held with
  | nil =>
    cases hloop
    unfold evictEvents
    rw [ite_self]
    exact h
  | cons b ret ih =>
    unfold newLoop at hloop
    cases hcaching : pool.enableCaching with
    | false =>
      simp only [hcaching, false_eq_true, if_false] at hloop
      split_ifs at hloop
      have hkeeps : Mirrors maybeConvertBlockHash { pool with
          refCnt := update pool.refCnt b (pool.refCnt b + 1)
          filledBy := update pool.filledBy b none } held := h.of_eq rfl rfl
      have := ih hkeeps hloop
      simpa only [hcaching, false_eq_true, if_false] using this
    | true =>
      simp only at hloop
      split_ifs at hloop
      have hcaching' : (pool.maybeEvictCachedBlock b).1.enableCaching = true := by
        rw [← hcaching]
        unfold maybeEvictCachedBlock
        split
        · rfl
        · split <;> rfl
      have hevicts := h.evict b
      set pool₁ := (pool.maybeEvictCachedBlock b).1
      have hkeeps : Mirrors maybeConvertBlockHash { pool₁ with
          refCnt := update pool₁.refCnt b (pool₁.refCnt b + 1)
          filledBy := update pool₁.filledBy b none }
          ((pool.evictEvent maybeConvertBlockHash b).foldl countHashes held) :=
        hevicts.of_eq rfl rfl
      have := ih hkeeps hloop
      simp only [hcaching'] at this
      rw [if_pos rfl, evictEvents, foldl_append]
      have hevents : evictEvents maybeConvertBlockHash ret { pool₁ with
          refCnt := update pool₁.refCnt b (pool₁.refCnt b + 1)
          filledBy := update pool₁.filledBy b none } =
            evictEvents maybeConvertBlockHash ret pool₁ := evictEvents_congr rfl rfl
      rwa [hevents] at this

omit [DecidableEq δ] [DecidableEq ε] in
/-- Touching changes no keys. -/
theorem touch_sameHashes (htouch : touch blocks pool = .ok pool') :
    pool'.blockHash = pool.blockHash ∧
      pool'.cachedBlockHashToBlock = pool.cachedBlockHashToBlock := by
  induction blocks generalizing pool with
  | nil =>
    cases htouch
    exact ⟨rfl, rfl⟩
  | cons b blocks ih =>
    obtain ⟨queue, -, hrest⟩ := bind_ok.1 htouch
    have := ih hrest
    exact this

namespace EventPool

variable {hasher : BlockHasher δ} {events events' : EventPool δ ε}

/-- **A call** keeps the invariant. -/
theorem step_mirrors {call : PoolCall hasher}
    (h : Mirrors maybeConvertBlockHash events.toBlockPool (subscribe events.kvEventQueue))
    (hok : events.step maybeConvertBlockHash call = .ok events') :
    Mirrors maybeConvertBlockHash events'.toBlockPool (subscribe events'.kvEventQueue) := by
  have hnext : ∀ pool' more, Mirrors maybeConvertBlockHash pool'
      (more.foldl countHashes (subscribe events.kvEventQueue)) →
      Mirrors maybeConvertBlockHash (events.next pool' more).toBlockPool
        (subscribe (events.next pool' more).kvEventQueue) := by
    intro pool' more hmore
    unfold subscribe at hmore ⊢
    rwa [← foldl_append] at hmore
  cases call with
  | cacheFullBlocks request blocks numCached numFull blockSize =>
    obtain ⟨pool', hcache, hret⟩ := bind_ok.1 hok
    cases hret
    refine hnext _ _ ?_
    unfold cacheFullBlocks at hcache
    unfold cacheEvent
    by_cases hle : numCached ≥ numFull
    · rw [if_pos hle] at hcache ⊢
      cases hcache
      exact h
    · rw [if_neg hle] at hcache ⊢
      split_ifs at hcache
      exact h.cacheLoop hcache
  | getNewBlocks n =>
    obtain ⟨⟨ret, pool'⟩, hnew, hret⟩ := bind_ok.1 hok
    cases hret
    refine hnext _ _ ?_
    unfold getNewBlocks at hnew
    split_ifs at hnew
    obtain ⟨⟨ret', queue⟩, -, hnew⟩ := bind_ok.1 hnew
    obtain ⟨pool₁, hloop, hret⟩ := bind_ok.1 hnew
    cases hret
    have hkeeps : Mirrors maybeConvertBlockHash { events.toBlockPool with
        freeBlockQueue := queue } (subscribe events.kvEventQueue) := h.of_eq rfl rfl
    have hevents : evictEvents maybeConvertBlockHash ret { events.toBlockPool with
        freeBlockQueue := queue } = evictEvents maybeConvertBlockHash ret events.toBlockPool :=
      evictEvents_congr rfl rfl
    have := hkeeps.newLoop hloop
    rwa [hevents] at this
  | touch blocks =>
    obtain ⟨pool', htouch, hret⟩ := bind_ok.1 hok
    cases hret
    obtain ⟨hhash, hmap⟩ := touch_sameHashes htouch
    exact hnext _ _ (h.of_eq hhash hmap)
  | freeBlocks blocks =>
    obtain ⟨pool', hfree, hret⟩ := bind_ok.1 hok
    cases hret
    obtain ⟨queue, -, hret⟩ := bind_ok.1 hfree
    cases hret
    exact hnext _ _ (h.of_eq rfl rfl)
  | evictBlocks blockIds =>
    obtain ⟨pool', hevict, hret⟩ := bind_ok.1 hok
    cases hret
    exact hnext _ _ (h.evictBlocks hevict)
  | resetPrefixCache =>
    cases hok
    refine hnext _ _ ?_
    unfold resetPrefixCache
    -- with blocks in use nothing is reset
    by_cases hused : (events.numGpuBlocks - events.getNumFreeBlocks : ℤ) ≠ 1
    · simp only [if_pos hused]
      exact h
    · simp only [if_neg hused]
      exact ⟨fun b key => by simp, fun key => nodup_nil, nofun, ∅, fun b => by simp, rfl⟩

/-- The invariant holds after any calls. -/
theorem run_mirrors (calls : List (PoolCall hasher))
    (h : Mirrors maybeConvertBlockHash events.toBlockPool (subscribe events.kvEventQueue))
    (hrun : events.run maybeConvertBlockHash calls = .ok events') :
    Mirrors maybeConvertBlockHash events'.toBlockPool (subscribe events'.kvEventQueue) := by
  induction calls generalizing events with
  | nil =>
    cases hrun
    exact h
  | cons call calls ih =>
    obtain ⟨events₁, hstep, hrun⟩ := bind_ok.1 hrun
    exact ih (step_mirrors h hstep) hrun

omit [DecidableEq δ] in
theorem new_mirrors (maybeConvertBlockHash : BlockHash δ → ε)
    {numGpuBlocks hashBlockSize : ℕ} {enableCaching : Bool}
    (hnew : EventPool.new numGpuBlocks enableCaching hashBlockSize = .ok events) :
    Mirrors maybeConvertBlockHash events.toBlockPool (subscribe events.kvEventQueue) := by
  obtain ⟨pool, hpool, rfl⟩ := map_eq_ok.1 hnew
  unfold BlockPool.new at hpool
  split_ifs at hpool
  obtain ⟨⟨nullBlock, queue⟩, -, hret⟩ := bind_ok.1 hpool
  cases hret
  exact ⟨fun b key => by simp, fun key => nodup_nil, nofun, ∅, fun b => by simp, rfl⟩

/-- **The events mirror the prefix cache** after any calls: a subscriber that counts the hashes holds
those under which a block is cached. -/
theorem mem_subscribe_iff {numGpuBlocks hashBlockSize : ℕ} {enableCaching : Bool}
    (hnew : EventPool.new numGpuBlocks enableCaching hashBlockSize = .ok events)
    (calls : List (PoolCall hasher))
    (hrun : events.run maybeConvertBlockHash calls = .ok events') (e : ε) :
    e ∈ subscribe events'.kvEventQueue ↔ ∃ blockHash, maybeConvertBlockHash blockHash = e ∧
      (getCachedBlock events'.lookup blockHash [0]).isSome :=
  (run_mirrors calls (new_mirrors maybeConvertBlockHash hnew) hrun).mem_held_iff e

/-- Two requests for the same prompt are cached in one block each, and the first block is evicted. -/
def duplicateCalls : List (PoolCall transcriptHasher) := [.getNewBlocks 2,
    .cacheFullBlocks (KVCacheManager.promptRequest 0 [1, 2] Nat.two_pos) [1] 0 1 2,
    .cacheFullBlocks (KVCacheManager.promptRequest 1 [1, 2] Nat.two_pos) [2] 0 1 2,
    .evictBlocks [1]]

/-- The hash of the prompt. -/
def duplicateHash : BlockHash Transcript := [[([1, 2], none)]]

theorem duplicateCalls_run : ∃ events events' : EventPool Transcript (BlockHash Transcript),
    EventPool.new 4 true 2 = .ok events ∧ events.run id duplicateCalls = .ok events' ∧
      events'.lookup duplicateHash 0 = some 2 ∧
      events'.kvEventQueue = [.blockStored [duplicateHash] none [1, 2] 2,
        .blockStored [duplicateHash] none [1, 2] 2, .blockRemoved [duplicateHash]] :=
  ⟨_, _, rfl, rfl, rfl, rfl⟩

theorem mem_subscribe_duplicateCalls :
    ∃ events' : EventPool Transcript (BlockHash Transcript),
      (∀ e, e ∈ subscribe events'.kvEventQueue ↔ ∃ blockHash, id blockHash = e ∧
        (getCachedBlock events'.lookup blockHash [0]).isSome) ∧
      duplicateHash ∈ subscribe events'.kvEventQueue := by
  obtain ⟨events, events', hnew, hrun, hlookup, -⟩ := duplicateCalls_run
  have hiff := mem_subscribe_iff hnew duplicateCalls hrun
  refine ⟨events', hiff, (hiff duplicateHash).2 ⟨duplicateHash, rfl, ?_⟩⟩
  unfold getCachedBlock
  simp [hlookup]

/-- **A subscriber with a set** loses the hash when the first of the two blocks is evicted. -/
theorem subscribeSet_duplicateCalls :
    ∃ events events' : EventPool Transcript (BlockHash Transcript),
      EventPool.new 4 true 2 = .ok events ∧ events.run id duplicateCalls = .ok events' ∧
        duplicateHash ∉ subscribeSet events'.kvEventQueue ∧
        (getCachedBlock events'.lookup duplicateHash [0]).isSome := by
  obtain ⟨events, events', hnew, hrun, hlookup, hqueue⟩ := duplicateCalls_run
  refine ⟨events, events', hnew, hrun, ?_, ?_⟩
  · rw [hqueue]
    decide
  · unfold getCachedBlock
    simp [hlookup]

end EventPool

end LoptVllm.KVCache
