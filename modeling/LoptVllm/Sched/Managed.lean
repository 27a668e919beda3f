import LoptVllm.KVCache.KVCacheManager
import LoptVllm.Sched.Scheduler

/-!
# The KV cache manager of the scheduler

The methods of `KVCacheManager` as the scheduler calls them. A request of the scheduler is passed
to them with the hashes of its full blocks, which were computed when the request was made and when
tokens were appended to it.
-/

namespace LoptVllm.Sched

open KVCache

variable {δ : Type} (hasher : BlockHasher δ)

/-- The arguments from which the hashes of a request are computed; each output token is appended in
a call of its own. -/
def Request.toRequestInput (r : Request) : RequestInput where
  promptEmbeds := r.promptEmbeds
  mmFeatures := r.mmFeatures.map MultiModalFeatureSpec.toMultiModalFeature
  loraName := r.loraRequest.map LoRARequest.loraName
  cacheSalt := r.cacheSalt
  promptTokenIds := r.promptTokenIds
  outputs := r.outputTokenIds.map fun token => [token]

/-- A request of the scheduler, as the KV cache manager sees it. -/
def schedulerRequest (id : ℕ) (r : Request) : Except PyErr (SchedulerRequest hasher) :=
  match h : r.toRequestInput.build hasher with
  | .error e => .error e
  | .ok request =>
    if htokens : 0 < r.toRequestInput.tokens.length then
      .ok ⟨id, r.toRequestInput, request, h, htokens, r.numComputedTokens.toNat,
        r.getSkipReadingPrefixCache⟩
    else .error (.assertionError "")

/-- `KVCacheManager`, for the hash function of the requests. -/
structure HashedKVCacheManager {δ : Type} (hasher : BlockHasher δ) extends KVCacheManager δ

namespace HashedKVCacheManager

variable {hasher}

/-- The KV cache manager after a call. -/
def ofExcept (x : Except PyErr (KVCacheManager δ)) :
    Except PyErr (HashedKVCacheManager hasher) := x.map .mk

variable [DecidableEq δ]

instance : KVCacheManagerOps (HashedKVCacheManager hasher) where
  getComputedBlocks kv id r := do
    let request ← schedulerRequest hasher id r
    kv.getComputedBlocks request
  allocateSlots kv id r args := do
    let request ← schedulerRequest hasher id r
    let (kv', blocks) ← kv.allocateSlots ⟨request, args.numNewTokens, args.numNewComputedTokens,
      args.newComputedBlocks, args.numLookaheadTokens, args.numExternalComputedTokens,
      args.delayCacheBlocks, args.numEncoderTokens⟩
    return (⟨kv'⟩, blocks)
  cacheBlocks kv id r numComputedTokens := do
    let request ← schedulerRequest hasher id r
    ofExcept (kv.cacheBlocks request numComputedTokens.toNat)
  removeSkippedBlocks kv id totalComputedTokens :=
    ofExcept (kv.removeSkippedBlocks id totalComputedTokens)
  free kv id := ofExcept (kv.free id)
  evictBlocks kv blockIds := ofExcept (kv.evictBlocks blockIds)
  resetPrefixCache kv := (⟨kv.resetPrefixCache.1⟩, kv.resetPrefixCache.2)
  getBlocks kv id := kv.getBlocks id
  emptyKVCacheBlocks kv := kv.emptyKVCacheBlocks

end HashedKVCacheManager

/-! ### A small scheduler -/

/-- Blocks of four tokens; all hashes are the same. -/
def smallHasher : BlockHasher ℕ := ⟨4, by decide, fun _ _ => 0, 0⟩

/-- One group of full attention, and three blocks besides the null block. -/
def smallKVCacheManager : HashedKVCacheManager smallHasher :=
  ⟨(KVCacheManager.new [⟨.full, 4, 0, by decide, chunkSize_pos_full⟩] 4 16 4 false false 1 1).toOption.get
    (by decide)⟩

/-- The limits of a small scheduler. -/
def smallConfig : SchedulerConfig where
  policy := .fcfs
  maxNumRunningReqs := 1
  maxNumScheduledTokens := 8
  maxModelLen := 16
  longPrefillTokenThreshold := 0
  enableChunkedPrefill := true
  disableChunkedMmInput := false
  maxLoras := none
  hasConnector := false
  supportsHMA := false
  recomputeKvLoadFailures := false
  hasEcConnector := false
  isEncoderDecoder := false
  maxNumEncoderInputTokens := 0
  numEncoderMaxInputTokens := 0
  useEagle := false
  numSpecTokens := 0
  numLookaheadTokens := 0
  blockSize := 4
  usePp := false
  isAsync := false

/-- A request of three tokens that generates four more. -/
def smallRequest : EngineCoreRequest where
  priority := 0
  arrivalTime := 0
  params := .sampling ⟨0, 4, true, [], false, none⟩
  eosTokenId := none
  promptTokenIds := some [1, 2, 3]
  promptEmbeds := none
  mmFeatures := []
  loraRequest := none
  cacheSalt := none

/-- There are no connectors. -/
def smallEnv : ScheduleEnv where
  grammarReady _ := true
  getNumNewMatchedTokens _ _ := (some 0, false)
  hasCaches _ _ := false

end LoptVllm.Sched
