import LoptVllm.KVCache.Hybrid
import LoptVllm.KVCache.Manager
import Mathlib.Algebra.Ring.Nat

/-!
# The KV cache manager

`KVCacheManager` is what the scheduler talks to. Its coordinator looks up prefix hits for all
groups and passes every other call on to the managers of the groups, one after another.
-/

namespace LoptVllm.KVCache

/-- The coordinators; the fields of each are what its lookup reads. -/
inductive KVCacheCoordinator
  | noPrefixCache (numSingleTypeManager : ℕ)
  | unitary (spec : KVCacheSpec) (worldSize : ℕ) (useEagle : Bool)
  | hybrid (coordinator : HybridKVCacheCoordinator)

/-- `find_longest_cache_hit` of the coordinator. -/
def KVCacheCoordinator.findLongestCacheHit {δ : Type} (coordinator : KVCacheCoordinator)
    (lookup : BlockHash δ → ℕ → Option ℕ) (nullBlock : ℕ) (blockHashes : List δ)
    (maxCacheHitLength : ℕ) : Except PyErr (List (List ℕ) × ℕ) :=
  match coordinator with
  | .noPrefixCache n => .ok (List.replicate n [], 0)
  | .unitary spec worldSize useEagle => do
    let blockSize := spec.blockSize * worldSize
    let hitBlocks ← KVCache.findLongestCacheHit lookup nullBlock (blockHashList blockHashes 1)
      maxCacheHitLength [0] spec useEagle blockSize worldSize
    return (hitBlocks, (hitBlocks.headD []).length * blockSize)
  | .hybrid c => c.findLongestCacheHit lookup nullBlock blockHashes maxCacheHitLength

/-- `for manager in self.single_type_managers`, with the pool that the managers share and the
results of the calls. -/
def forManagers {δ ρ : Type}
    (f : SingleTypeKVCacheManager → BlockPool δ → Except PyErr (ρ × BlockPool δ)) :
    List SingleTypeKVCacheManager → BlockPool δ → Except PyErr (List ρ × BlockPool δ)
  | [], pool => .ok ([], pool)
  | manager :: managers, pool => do
    let (result, pool) ← f manager pool
    let (results, pool) ← forManagers f managers pool
    return (result :: results, pool)

/-- The managers that `KVCacheCoordinator.__init__` makes, from group `i` on. -/
def newManagers {δ : Type} (enableCaching : Bool) (worldSize : ℕ) :
    ℕ → List KVCacheSpec → BlockPool δ → Except PyErr (List SingleTypeKVCacheManager × BlockPool δ)
  | _, [], pool => .ok ([], pool)
  | i, spec :: specs, pool => do
    let (manager, pool) ← SingleTypeKVCacheManager.new spec enableCaching i worldSize pool
    let (managers, pool) ← newManagers enableCaching worldSize (i + 1) specs pool
    return (manager :: managers, pool)

/-- `get_kv_cache_coordinator`, for context parallel sizes that are at least one. -/
def getKVCacheCoordinator (specs : List KVCacheSpec) (hashBlockSize : ℕ)
    (enableCaching useEagle : Bool) (dcpWorldSize pcpWorldSize : ℕ) :
    Except PyErr KVCacheCoordinator :=
  if !enableCaching then .ok (.noPrefixCache specs.length)
  else match specs with
    | [spec] =>
      if hashBlockSize ≠ spec.blockSize * (dcpWorldSize * pcpWorldSize) then
        .error (.assertionError "UnitaryKVCacheCoordinator assumes hash_block_size == block_size")
      else .ok (.unitary spec (dcpWorldSize * pcpWorldSize) useEagle)
    | specs => (HybridKVCacheCoordinator.new specs hashBlockSize useEagle dcpWorldSize
        pcpWorldSize).map .hybrid

/-- `KVCacheManager`, with the managers and the pool of its coordinator. -/
structure KVCacheManager (δ : Type) where
  maxModelLen : ℕ
  enableCaching : Bool
  coordinator : KVCacheCoordinator
  singleTypeManagers : List SingleTypeKVCacheManager
  blockPool : BlockPool δ

namespace KVCacheManager

variable {δ : Type}

/-- `KVCacheManager.__init__`. -/
def new (specs : List KVCacheSpec) (numBlocks maxModelLen hashBlockSize : ℕ)
    (enableCaching useEagle : Bool) (dcpWorldSize pcpWorldSize : ℕ) :
    Except PyErr (KVCacheManager δ) := do
  let pool ← BlockPool.new numBlocks enableCaching hashBlockSize
  let (managers, pool) ← newManagers enableCaching (dcpWorldSize * pcpWorldSize) 0 specs pool
  let coordinator ← getKVCacheCoordinator specs hashBlockSize enableCaching useEagle dcpWorldSize
    pcpWorldSize
  return ⟨maxModelLen, enableCaching, coordinator, managers, pool⟩

variable (kv : KVCacheManager δ)

/-- `self.empty_kv_cache_blocks.blocks`. -/
def emptyKVCacheBlocks : List (List ℕ) := kv.singleTypeManagers.map fun _ => []

/-- `self.block_pool.get_num_free_blocks()`. -/
def getNumFreeBlocks : ℤ := kv.blockPool.getNumFreeBlocks

/-- `coordinator.get_blocks`. -/
def getBlocks (requestId : ℕ) : List (List ℕ) :=
  kv.singleTypeManagers.map fun manager => manager.blocks requestId

/-- `get_computed_blocks`. -/
def getComputedBlocks {hasher : BlockHasher δ} (request : SchedulerRequest hasher) :
    Except PyErr (List (List ℕ) × ℕ) :=
  if !kv.enableCaching || request.skipReadingPrefixCache then .ok (kv.emptyKVCacheBlocks, 0)
  else kv.coordinator.findLongestCacheHit kv.blockPool.lookup kv.blockPool.nullBlock
    request.blockHashes (request.numTokens - 1)

/-- `new_computed_blocks[i]`, for the id `i` of the group of the manager. -/
def groupBlocks (newComputedBlocks : List (List ℕ)) (manager : SingleTypeKVCacheManager) :
    Except PyErr (List ℕ) :=
  match newComputedBlocks[manager.groupId]? with
  | some blocks => .ok blocks
  | none => .error (.indexError "tuple index out of range")

/-- `coordinator.get_num_blocks_to_allocate`. -/
def getNumBlocksToAllocate (requestId numTokens : ℕ) (newComputedBlocks : List (List ℕ))
    (numEncoderTokens totalComputedTokens : ℕ) : Except PyErr ℕ := do
  let ns ← kv.singleTypeManagers.mapM fun manager =>
    if manager.isCrossAttention then
      manager.getNumBlocksToAllocate kv.blockPool requestId numEncoderTokens [] 0
    else do
      let blocks ← groupBlocks newComputedBlocks manager
      manager.getNumBlocksToAllocate kv.blockPool requestId numTokens blocks totalComputedTokens
  return ns.sum

/-- Calls a method of each manager that returns nothing. -/
def forEach (f : SingleTypeKVCacheManager → BlockPool δ →
    Except PyErr (SingleTypeKVCacheManager × BlockPool δ)) : Except PyErr (KVCacheManager δ) := do
  let (managers, pool) ← forManagers f kv.singleTypeManagers kv.blockPool
  return { kv with singleTypeManagers := managers, blockPool := pool }

/-- `remove_skipped_blocks`. -/
def removeSkippedBlocks (requestId totalComputedTokens : ℕ) : Except PyErr (KVCacheManager δ) :=
  kv.forEach fun manager => manager.removeSkippedBlocks requestId totalComputedTokens

/-- `free`. -/
def free (requestId : ℕ) : Except PyErr (KVCacheManager δ) :=
  kv.forEach fun manager => manager.free requestId

/-- `reset_prefix_cache`. -/
def resetPrefixCache : KVCacheManager δ × Bool :=
  ({ kv with blockPool := kv.blockPool.resetPrefixCache.1 }, kv.blockPool.resetPrefixCache.2)

variable [DecidableEq δ]

/-- `evict_blocks`. -/
def evictBlocks (blockIds : List ℕ) : Except PyErr (KVCacheManager δ) := do
  let pool ← kv.blockPool.evictBlocks blockIds
  return { kv with blockPool := pool }

/-- `coordinator.allocate_new_computed_blocks`. -/
def allocateNewComputedBlocks (requestId : ℕ) (newComputedBlocks : List (List ℕ))
    (numLocalComputedTokens numExternalComputedTokens : ℕ) : Except PyErr (KVCacheManager δ) :=
  kv.forEach fun manager pool => do
    let blocks ← groupBlocks newComputedBlocks manager
    manager.allocateNewComputedBlocks requestId blocks numLocalComputedTokens
      numExternalComputedTokens pool

/-- `coordinator.allocate_new_blocks`. -/
def allocateNewBlocks (requestId numTokens numEncoderTokens : ℕ) :
    Except PyErr (List (List ℕ) × KVCacheManager δ) := do
  let (results, pool) ← forManagers
    (fun manager pool => manager.allocateNewBlocks requestId
      (if manager.isCrossAttention then numEncoderTokens else numTokens) pool)
    kv.singleTypeManagers kv.blockPool
  return (results.map Prod.fst,
    { kv with singleTypeManagers := results.map Prod.snd, blockPool := pool })

/-- `coordinator.cache_blocks`. -/
def coordinatorCacheBlocks {hasher : BlockHasher δ} (request : SchedulerRequest hasher)
    (numComputedTokens : ℕ) : Except PyErr (KVCacheManager δ) :=
  kv.forEach fun manager => manager.cacheBlocks request numComputedTokens

/-- `cache_blocks`. -/
def cacheBlocks {hasher : BlockHasher δ} (request : SchedulerRequest hasher)
    (numComputedTokens : ℕ) : Except PyErr (KVCacheManager δ) :=
  if kv.enableCaching then kv.coordinatorCacheBlocks request numComputedTokens else .ok kv

/-- The allocation in `allocate_slots`, after the check. A list of computed blocks without any
block is the one object `empty_kv_cache_blocks`. -/
def allocateBlocks (requestId : ℕ) (newComputedBlocks : List (List ℕ))
    (numLocalComputedTokens numExternalComputedTokens numTokensNeedSlot numEncoderTokens : ℕ) :
    Except PyErr (List (List ℕ) × KVCacheManager δ) :=
  if newComputedBlocks.all List.isEmpty ∧ numExternalComputedTokens = 0 then
    kv.allocateNewBlocks requestId numTokensNeedSlot numEncoderTokens
  else do
    let kv ← kv.allocateNewComputedBlocks requestId newComputedBlocks numLocalComputedTokens
      numExternalComputedTokens
    kv.allocateNewBlocks requestId numTokensNeedSlot numEncoderTokens

/-- The arguments of `allocate_slots`; nothing stops `num_new_tokens` from being negative. -/
structure SlotArgs {δ : Type} (hasher : BlockHasher δ) where
  request : SchedulerRequest hasher
  numNewTokens : ℤ
  numNewComputedTokens : ℕ
  newComputedBlocks : Option (List (List ℕ))
  numLookaheadTokens : ℕ
  numExternalComputedTokens : ℕ
  delayCacheBlocks : Bool
  numEncoderTokens : ℕ

namespace SlotArgs

variable {hasher : BlockHasher δ} (args : SlotArgs hasher) (maxModelLen : ℕ)

/-- `num_local_computed_tokens`. -/
def numLocalComputedTokens : ℕ := args.request.numComputedTokens + args.numNewComputedTokens

/-- `num_local_computed_tokens + num_external_computed_tokens`. -/
def computedTokens : ℕ := args.numLocalComputedTokens + args.numExternalComputedTokens

/-- `total_computed_tokens`. -/
def totalComputedTokens : ℕ := min args.computedTokens maxModelLen

/-- `num_tokens_need_slot`. -/
def numTokensNeedSlot : ℕ :=
  (min (args.totalComputedTokens maxModelLen + args.numNewTokens + args.numLookaheadTokens)
    maxModelLen).toNat

/-- `num_tokens_to_cache`. -/
def numTokensToCache : ℕ :=
  (min (args.totalComputedTokens maxModelLen + args.numNewTokens) args.request.numTokens).toNat

end SlotArgs

/-- `allocate_slots`. -/
def allocateSlots {hasher : BlockHasher δ} (args : SlotArgs hasher) :
    Except PyErr (KVCacheManager δ × Option (List (List ℕ))) :=
  if args.numNewTokens = 0 ∧ args.numExternalComputedTokens = 0 then
    .error (.valueError
      "num_new_tokens must be greater than 0 when there are no external computed tokens")
  else do
    let newComputedBlocks := args.newComputedBlocks.getD kv.emptyKVCacheBlocks
    let numTokensNeedSlot := args.numTokensNeedSlot kv.maxModelLen
    let kv ← kv.removeSkippedBlocks args.request.requestId (args.totalComputedTokens kv.maxModelLen)
    let numBlocksToAllocate ← kv.getNumBlocksToAllocate args.request.requestId numTokensNeedSlot
      newComputedBlocks args.numEncoderTokens args.computedTokens
    if numBlocksToAllocate > kv.getNumFreeBlocks then return (kv, none)
    else do
      let (newBlocks, kv) ← kv.allocateBlocks args.request.requestId newComputedBlocks
        args.numLocalComputedTokens args.numExternalComputedTokens numTokensNeedSlot
        args.numEncoderTokens
      if !kv.enableCaching || args.delayCacheBlocks then return (kv, some newBlocks)
      else do
        let kv ← kv.coordinatorCacheBlocks args.request (args.numTokensToCache kv.maxModelLen)
        return (kv, some newBlocks)

/-! ### The calls of the scheduler -/

/-- A call of the scheduler. `allocate_slots` gets the hit that `get_computed_blocks` has just
returned for the request, or none. -/
inductive KVCall {δ : Type} (hasher : BlockHasher δ)
  | getComputedBlocks (request : SchedulerRequest hasher)
  | allocateSlots (request : SchedulerRequest hasher) (withHit : Bool) (numNewTokens : ℤ)
      (numLookaheadTokens numExternalComputedTokens : ℕ) (delayCacheBlocks : Bool)
      (numEncoderTokens : ℕ)
  | cacheBlocks (request : SchedulerRequest hasher) (numComputedTokens : ℕ)
  | removeSkippedBlocks (requestId totalComputedTokens : ℕ)
  | free (requestId : ℕ)
  | evictBlocks (blockIds : List ℕ)
  | resetPrefixCache

/-- The hit that is passed to `allocate_slots`. -/
def passedHit {hasher : BlockHasher δ} (request : SchedulerRequest hasher) (withHit : Bool) :
    Except PyErr (Option (List (List ℕ)) × ℕ) :=
  if withHit then (kv.getComputedBlocks request).map fun hit => (some hit.1, hit.2)
  else .ok (none, 0)

/-- The state after a call. -/
def step {hasher : BlockHasher δ} : KVCall hasher → Except PyErr (KVCacheManager δ)
  | .getComputedBlocks request => (kv.getComputedBlocks request).map fun _ => kv
  | .allocateSlots request withHit numNewTokens numLookaheadTokens numExternalComputedTokens
      delayCacheBlocks numEncoderTokens => do
    let (blocks, numNewComputedTokens) ← kv.passedHit request withHit
    let (kv, _) ← kv.allocateSlots ⟨request, numNewTokens, numNewComputedTokens, blocks,
      numLookaheadTokens, numExternalComputedTokens, delayCacheBlocks, numEncoderTokens⟩
    return kv
  | .cacheBlocks request numComputedTokens => kv.cacheBlocks request numComputedTokens
  | .removeSkippedBlocks requestId totalComputedTokens =>
    kv.removeSkippedBlocks requestId totalComputedTokens
  | .free requestId => kv.free requestId
  | .evictBlocks blockIds => kv.evictBlocks blockIds
  | .resetPrefixCache => .ok kv.resetPrefixCache.1

/-- The state after a sequence of calls, none of which raises. -/
def run {hasher : BlockHasher δ} (calls : List (KVCall hasher)) (kv : KVCacheManager δ) :
    Except PyErr (KVCacheManager δ) :=
  calls.foldlM (fun kv call => kv.step call) kv

end KVCacheManager

end LoptVllm.KVCache
