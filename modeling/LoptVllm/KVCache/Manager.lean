import LoptVllm.KVCache.BlockPool
import Mathlib.Data.List.AList

/-!
# The managers of the groups

Each KV cache group has a `SingleTypeKVCacheManager`, which keeps the blocks of the requests for its
group. The managers share the block pool, which is passed through their methods. The classes
differ in a few methods, which look at the kind of the attention here.
-/

namespace LoptVllm.KVCache

/-- `get_num_skipped_tokens`. For no computed tokens the mamba manager of the source returns −1,
which its callers treat as 0. -/
def AttentionKind.getNumSkippedTokens (kind : AttentionKind) (numComputedTokens : ℕ) : ℕ :=
  match kind with
  | .full | .cross | .sinkFull _ => 0
  | .slidingWindow w => numComputedTokens + 1 - w
  | .chunkedLocal c => numComputedTokens / c * c
  | .mamba _ => numComputedTokens - 1

/-- What the constructor of a manager fixes. -/
structure ManagerConfig where
  spec : KVCacheSpec
  blockSize : ℕ
  blockSize_pos : 0 < blockSize
  enableCaching : Bool
  groupId : ℕ

/-- `SingleTypeKVCacheManager`. -/
structure SingleTypeKVCacheManager extends ManagerConfig where
  reqToBlocks : AList fun _ : ℕ => List ℕ
  numCachedBlock : AList fun _ : ℕ => ℕ

namespace SingleTypeKVCacheManager

variable {δ : Type}

/-- `__init__`, for the product `worldSize` of the context parallel sizes. The manager of a sink
group takes its sink blocks out of the pool. -/
def new (spec : KVCacheSpec) (enableCaching : Bool) (groupId worldSize : ℕ) (pool : BlockPool δ) :
    Except PyErr (SingleTypeKVCacheManager × BlockPool δ) :=
  let blockSize := if 1 < worldSize then spec.blockSize * worldSize else spec.blockSize
  have blockSize_pos : 0 < blockSize := by
    have := spec.blockSize_pos
    show 0 < if 1 < worldSize then spec.blockSize * worldSize else spec.blockSize
    split_ifs with h
    · exact Nat.mul_pos this (Nat.zero_lt_of_lt h)
    · exact this
  let manager := ⟨⟨spec, blockSize, blockSize_pos, enableCaching, groupId⟩, ∅, ∅⟩
  match spec.kind with
  | .sinkFull sinkLen =>
    if 0 < sinkLen ∧ sinkLen % blockSize = 0 then do
      let (_, freeBlockQueue) ← pool.freeBlockQueue.popleftN (sinkLen / blockSize : ℕ)
      return (manager, { pool with freeBlockQueue := freeBlockQueue })
    else .error (.assertionError "")
  | _ => .ok (manager, pool)

variable (manager : SingleTypeKVCacheManager)

/-- `isinstance(manager, CrossAttentionManager)`. -/
def isCrossAttention : Bool := match manager.spec.kind with
  | .cross => true
  | _ => false

variable (requestId : ℕ)

/-- `self.req_to_blocks[request_id]`, which is empty for an unknown request. -/
def blocks : List ℕ := (manager.reqToBlocks.lookup requestId).getD []

/-- `self.req_to_blocks[request_id] = blocks`. -/
def setBlocks (blocks : List ℕ) : SingleTypeKVCacheManager :=
  { manager with reqToBlocks := manager.reqToBlocks.insert requestId blocks }

/-- `self.num_cached_block[request_id] = n`. -/
def setNumCachedBlock (requestId n : ℕ) : SingleTypeKVCacheManager :=
  { manager with numCachedBlock := manager.numCachedBlock.insert requestId n }

/-- `self.get_num_skipped_tokens(...) // self.block_size`. -/
def numSkippedBlocks (numComputedTokens : ℕ) : ℕ :=
  manager.spec.kind.getNumSkippedTokens numComputedTokens / manager.blockSize

/-- The tokens of the extra blocks of a mamba group. -/
def addSpeculativeTokens (numTokens : ℕ) : ℕ := match manager.spec.kind with
  | .mamba numSpeculativeBlocks =>
    if 0 < numSpeculativeBlocks then numTokens + manager.spec.blockSize * numSpeculativeBlocks
    else numTokens
  | _ => numTokens

/-- `get_num_blocks_to_allocate`. -/
def getNumBlocksToAllocate (pool : BlockPool δ) (requestId numTokens : ℕ)
    (newComputedBlocks : List ℕ) (totalComputedTokens : ℕ) : Except PyErr ℕ :=
  let numRequiredBlocks := cdiv (manager.addSpeculativeTokens numTokens) manager.blockSize
  let numReqBlocks := (manager.blocks requestId).length
  if requestId ∈ manager.numCachedBlock then
    if newComputedBlocks ≠ [] then .error (.assertionError "")
    else .ok (numRequiredBlocks - numReqBlocks)
  else
    let numLocalComputedBlocks := newComputedBlocks.length + numReqBlocks
    let numSkippedBlocks := manager.numSkippedBlocks totalComputedTokens
    let numNewBlocks := numRequiredBlocks - max numSkippedBlocks numLocalComputedBlocks
    let numSkippedNewComputedBlocks := numSkippedBlocks - numReqBlocks
    let numEvictableBlocks :=
      (newComputedBlocks.drop numSkippedNewComputedBlocks).countP pool.IsFree
    .ok (numNewBlocks + numEvictableBlocks)

/-- `remove_skipped_blocks`: the loop, with the blocks below `i` still to be looked at. It returns
the removed blocks and the list with the null block in their places. -/
def removeLoop (nullBlock : ℕ) : ℕ → List ℕ → List ℕ × List ℕ
  | 0, blocks => ([], blocks)
  | i + 1, blocks =>
    let b := blocks.getD i nullBlock
    if b = nullBlock then ([], blocks)
    else
      let (removedBlocks, blocks) := removeLoop nullBlock i (blocks.set i nullBlock)
      (b :: removedBlocks, blocks)

/-- `remove_skipped_blocks`. -/
def removeSkippedBlocks (requestId totalComputedTokens : ℕ) (pool : BlockPool δ) :
    Except PyErr (SingleTypeKVCacheManager × BlockPool δ) :=
  if manager.spec.kind.getNumSkippedTokens totalComputedTokens = 0 then .ok (manager, pool)
  else do
    let blocks := manager.blocks requestId
    let numSkippedBlocks := min (manager.numSkippedBlocks totalComputedTokens) blocks.length
    let (removedBlocks, blocks) := removeLoop pool.nullBlock numSkippedBlocks blocks
    let pool ← pool.freeBlocks removedBlocks
    return (manager.setBlocks requestId blocks, pool)

/-- `free`. -/
def free (pool : BlockPool δ) : Except PyErr (SingleTypeKVCacheManager × BlockPool δ) := do
  let pool ← pool.freeBlocks (manager.blocks requestId).reverse
  return ({ manager with
    reqToBlocks := manager.reqToBlocks.erase requestId
    numCachedBlock := manager.numCachedBlock.erase requestId }, pool)

/-- Touches the computed blocks so that they are not evicted. -/
def touchComputed (newComputedBlocks : List ℕ) (pool : BlockPool δ) : Except PyErr (BlockPool δ) :=
  if manager.enableCaching then pool.touch newComputedBlocks
  else if newComputedBlocks ≠ [] then .error (.assertionError
    "Computed blocks should be empty when prefix caching is disabled")
  else .ok pool

variable [DecidableEq δ]

/-- `allocate_new_computed_blocks`. -/
def allocateNewComputedBlocks (requestId : ℕ) (newComputedBlocks : List ℕ)
    (numLocalComputedTokens numExternalComputedTokens : ℕ) (pool : BlockPool δ) :
    Except PyErr (SingleTypeKVCacheManager × BlockPool δ) :=
  if manager.isCrossAttention ∨ requestId ∈ manager.numCachedBlock then
    if newComputedBlocks ≠ [] then .error (.assertionError "") else .ok (manager, pool)
  else if manager.blocks requestId ≠ [] then .error (.assertionError "")
  else do
    let numTotalComputedTokens := numLocalComputedTokens + numExternalComputedTokens
    let numSkippedTokens := manager.spec.kind.getNumSkippedTokens numTotalComputedTokens
    let numSkippedBlocks := manager.numSkippedBlocks numTotalComputedTokens
    let newComputedBlocks := newComputedBlocks.drop numSkippedBlocks
    let numExternalComputedTokens := if 0 < numSkippedBlocks then
        min (numTotalComputedTokens - numSkippedTokens) numExternalComputedTokens
      else numExternalComputedTokens
    let pool ← manager.touchComputed newComputedBlocks pool
    let reqBlocks := List.replicate numSkippedBlocks pool.nullBlock ++ newComputedBlocks
    let manager := manager.setNumCachedBlock requestId reqBlocks.length
    if 0 < numExternalComputedTokens then do
      let (allocatedBlocks, pool) ← pool.getNewBlocks
        (cdiv numTotalComputedTokens manager.blockSize - reqBlocks.length)
      return (manager.setBlocks requestId (reqBlocks ++ allocatedBlocks), pool)
    else return (manager.setBlocks requestId reqBlocks, pool)

/-- `allocate_new_blocks`. -/
def allocateNewBlocks (requestId numTokens : ℕ) (pool : BlockPool δ) :
    Except PyErr ((List ℕ × SingleTypeKVCacheManager) × BlockPool δ) :=
  let reqBlocks := manager.blocks requestId
  let numRequiredBlocks := cdiv (manager.addSpeculativeTokens numTokens) manager.blockSize
  let numNewBlocks : ℤ := numRequiredBlocks - reqBlocks.length
  if numNewBlocks ≤ 0 then .ok (([], manager), pool)
  else do
    let (newBlocks, pool) ← pool.getNewBlocks numNewBlocks
    return ((newBlocks, manager.setBlocks requestId (reqBlocks ++ newBlocks)), pool)

/-- `cache_blocks`. -/
def cacheBlocks {hasher : BlockHasher δ} (request : SchedulerRequest hasher) (numTokens : ℕ)
    (pool : BlockPool δ) : Except PyErr (SingleTypeKVCacheManager × BlockPool δ) :=
  if manager.isCrossAttention then
    .error (.valueError "Should not be called as prefix caching is disabled.")
  else
    let numCachedBlocks := (manager.numCachedBlock.lookup request.requestId).getD 0
    let numFullBlocks := numTokens / manager.blockSize
    if numCachedBlocks ≥ numFullBlocks then .ok (manager, pool)
    else do
      let pool ← pool.cacheFullBlocks request (manager.blocks request.requestId) numCachedBlocks
        numFullBlocks manager.blockSize manager.groupId
      return (manager.setNumCachedBlock request.requestId numFullBlocks, pool)

end SingleTypeKVCacheManager

end LoptVllm.KVCache
