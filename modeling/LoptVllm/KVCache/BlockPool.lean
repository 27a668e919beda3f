import LoptVllm.KVCache.FreeQueue
import LoptVllm.KVCache.Hash
import LoptVllm.KVCache.Spec

/-!
# The block pool

`BlockPool` hands out blocks, counts their references and remembers which of them are cached under
which key. A block is its id; what the source stores in the block objects is a function of the id.
-/

namespace LoptVllm.KVCache

open Function

/-- A request as the block managers see it: it was built by its hasher, and it has a token. -/
structure SchedulerRequest {δ : Type} (hasher : BlockHasher δ) where
  requestId : ℕ
  input : RequestInput
  request : Request δ
  built : input.build hasher = .ok request
  tokens_pos : 0 < input.tokens.length
  numComputedTokens : ℕ
  skipReadingPrefixCache : Bool

namespace SchedulerRequest

variable {δ : Type} {hasher : BlockHasher δ} (r : SchedulerRequest hasher)

/-- `request.num_tokens`. -/
def numTokens : ℕ := r.input.tokens.length

/-- `request.block_hashes`. -/
def blockHashes : List δ := r.request.blockHashes

end SchedulerRequest

/-- `BlockHashToBlockMap`: the blocks under each key, in the order of their insertion. -/
abbrev BlockHashToBlockMap (δ : Type) := BlockKey δ → List ℕ

namespace BlockHashToBlockMap

variable {δ : Type} (map : BlockHashToBlockMap δ) (key : BlockKey δ) (b : ℕ)

/-- `get_one_block`. -/
def getOneBlock : Option ℕ := (map key).head?

variable [DecidableEq δ]

/-- `insert`. -/
def insert : BlockHashToBlockMap δ :=
  update map key (if b ∈ map key then map key else map key ++ [b])

/-- `pop`. -/
def pop : Option ℕ × BlockHashToBlockMap δ :=
  if b ∈ map key then (some b, update map key ((map key).erase b)) else (none, map)

end BlockHashToBlockMap

/-- What the constructor of a pool fixes. -/
structure BlockPoolConfig where
  numGpuBlocks : ℕ
  enableCaching : Bool
  hashBlockSize : ℕ
  nullBlock : ℕ

/-- `BlockPool`. `filledBy` is not in the source: it is the request that a block was last cached
for since it was handed out. -/
structure BlockPool (δ : Type) extends BlockPoolConfig where
  freeBlockQueue : FreeKVCacheBlockQueue
  refCnt : ℕ → ℤ
  blockHash : ℕ → Option (BlockKey δ)
  cachedBlockHashToBlock : BlockHashToBlockMap δ
  filledBy : ℕ → Option RequestInput

namespace BlockPool

variable {δ : Type}

/-- `BlockPool.__init__`. -/
def new (numGpuBlocks : ℕ) (enableCaching : Bool) (hashBlockSize : ℕ) :
    Except PyErr (BlockPool δ) :=
  if numGpuBlocks = 0 then .error (.assertionError "")
  else do
    let (nullBlock, freeBlockQueue) ← (FreeKVCacheBlockQueue.new numGpuBlocks).popleft
    return ⟨⟨numGpuBlocks, enableCaching, hashBlockSize, nullBlock⟩, freeBlockQueue,
      fun _ => 0, fun _ => none, fun _ => [], fun _ => none⟩

variable (pool : BlockPool δ)

/-- `block.ref_cnt == 0 and not block.is_null`; the null block is the only one with `is_null`. -/
def IsFree (b : ℕ) : Prop := pool.refCnt b = 0 ∧ b ≠ pool.nullBlock

instance : DecidablePred pool.IsFree := fun _ => inferInstanceAs (Decidable (_ ∧ _))

/-- `get_num_free_blocks`. -/
def getNumFreeBlocks : ℤ := pool.freeBlockQueue.numFreeBlocks

/-- What `get_cached_block` looks up for a group. -/
def lookup (blockHash : BlockHash δ) (groupId : ℕ) : Option ℕ :=
  BlockHashToBlockMap.getOneBlock pool.cachedBlockHashToBlock
    (makeBlockHashWithGroupId blockHash groupId)

/-- `if block.ref_cnt == 0 and not block.is_null: self.free_block_queue.remove(block)`. -/
def removeFree (b : ℕ) : Except PyErr FreeKVCacheBlockQueue :=
  if pool.IsFree b then pool.freeBlockQueue.remove b else .ok pool.freeBlockQueue

/-- `touch`. -/
def touch : List ℕ → BlockPool δ → Except PyErr (BlockPool δ)
  | [], pool => .ok pool
  | b :: blocks, pool => do
    let freeBlockQueue ← pool.removeFree b
    touch blocks { pool with
      freeBlockQueue := freeBlockQueue
      refCnt := update pool.refCnt b (pool.refCnt b + 1) }

/-- `for block in blocks_list: block.ref_cnt -= 1`. -/
def decrement (refCnt : ℕ → ℤ) (blocks : List ℕ) : ℕ → ℤ :=
  blocks.foldl (fun refCnt b => update refCnt b (refCnt b - 1)) refCnt

/-- `free_blocks`. -/
def freeBlocks (orderedBlocks : List ℕ) : Except PyErr (BlockPool δ) := do
  let pool := { pool with refCnt := decrement pool.refCnt orderedBlocks }
  let freeBlockQueue ← pool.freeBlockQueue.appendN (orderedBlocks.filter pool.IsFree)
  return { pool with freeBlockQueue := freeBlockQueue }

/-- `reset_prefix_cache`. -/
def resetPrefixCache : BlockPool δ × Bool :=
  let numUsedBlocks := pool.numGpuBlocks - pool.getNumFreeBlocks
  if numUsedBlocks ≠ 1 then (pool, false)
  else ({ pool with cachedBlockHashToBlock := fun _ => [], blockHash := fun _ => none }, true)

variable [DecidableEq δ]

/-- `_maybe_evict_cached_block`. -/
def maybeEvictCachedBlock (b : ℕ) : BlockPool δ × Bool := match pool.blockHash b with
  | none => (pool, false)
  | some blockHash =>
    match BlockHashToBlockMap.pop pool.cachedBlockHashToBlock blockHash b with
    | (none, _) => (pool, false)
    | (some _, map) => ({ pool with
        cachedBlockHashToBlock := map
        blockHash := update pool.blockHash b none }, true)

/-- The loop of `get_new_blocks`. -/
def newLoop : List ℕ → BlockPool δ → Except PyErr (BlockPool δ)
  | [], pool => .ok pool
  | b :: blocks, pool =>
    let pool := if pool.enableCaching then (pool.maybeEvictCachedBlock b).1 else pool
    if pool.refCnt b ≠ 0 then .error (.assertionError "")
    else newLoop blocks { pool with
      refCnt := update pool.refCnt b (pool.refCnt b + 1)
      filledBy := update pool.filledBy b none }

/-- `get_new_blocks`. -/
def getNewBlocks (numBlocks : ℤ) : Except PyErr (List ℕ × BlockPool δ) :=
  if numBlocks > pool.getNumFreeBlocks then
    .error (.valueError s!"Cannot get {numBlocks} free blocks from the pool")
  else do
    let (ret, freeBlockQueue) ← pool.freeBlockQueue.popleftN numBlocks
    let pool ← newLoop ret { pool with freeBlockQueue := freeBlockQueue }
    return (ret, pool)

/-- `evict_blocks`, for the ids of the set in any order. -/
def evictBlocks : List ℕ → BlockPool δ → Except PyErr (BlockPool δ)
  | [], pool => .ok pool
  | b :: blockIds, pool =>
    if b < pool.numGpuBlocks then evictBlocks blockIds (pool.maybeEvictCachedBlock b).1
    else .error (.assertionError (s!"Invalid block_id {b} >= {pool.numGpuBlocks}. " ++
      "This indicates a bug in the KV connector - workers should " ++
      "only report block IDs that were allocated by the scheduler."))

/-- The loop of `cache_full_blocks` over the new full blocks and the hashes from the first of them
on. -/
def cacheLoop (input : RequestInput) (groupId : ℕ) :
    List ℕ → List (BlockHash δ) → BlockPool δ → Except PyErr (BlockPool δ)
  | [], _, pool => .ok pool
  | b :: blocks, newBlockHashes, pool =>
    if b = pool.nullBlock then cacheLoop input groupId blocks newBlockHashes.tail pool
    else if (pool.blockHash b).isSome then .error (.assertionError "")
    else match newBlockHashes with
      | [] => .error (.indexError "list index out of range")
      | blockHash :: newBlockHashes =>
        let key := makeBlockHashWithGroupId blockHash groupId
        cacheLoop input groupId blocks newBlockHashes { pool with
          blockHash := update pool.blockHash b (some key)
          cachedBlockHashToBlock := BlockHashToBlockMap.insert pool.cachedBlockHashToBlock key b
          filledBy := update pool.filledBy b (some input) }

/-- `cache_full_blocks`. -/
def cacheFullBlocks {hasher : BlockHasher δ} (request : SchedulerRequest hasher)
    (blocks : List ℕ) (numCachedBlocks numFullBlocks blockSize groupId : ℕ) :
    Except PyErr (BlockPool δ) :=
  if numCachedBlocks ≥ numFullBlocks then .ok pool
  else
    let newFullBlocks := (blocks.take numFullBlocks).drop numCachedBlocks
    if request.blockHashes.length < numFullBlocks then .error (.assertionError "")
    else if blockSize ≠ pool.hashBlockSize ∧ blockSize % pool.hashBlockSize ≠ 0 then
      .error (.assertionError "")
    else
      let blockHashes := blockHashList request.blockHashes (blockSize / pool.hashBlockSize)
      cacheLoop request.input groupId newFullBlocks (blockHashes.drop numCachedBlocks) pool

end BlockPool

end LoptVllm.KVCache
