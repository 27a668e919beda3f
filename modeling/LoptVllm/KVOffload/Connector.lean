import LoptVllm.KVOffload.Abstract
import Mathlib.Data.Finset.Erase
import Mathlib.Data.Finset.Insert

/-!
# The scheduler side of the offloading connector

The connector decides which blocks of a request are loaded from the offloading manager and which are
stored. A block of the manager consists of `blockSizeFactor` blocks of the GPU.
-/

namespace LoptVllm.KVOffload

open OffloadingManager

/-- `islice(l, start, stop, step)`. -/
def islice {α : Type} (l : List α) (start : ℕ) (stop : Option ℕ) (step : ℕ) : List α :=
  ((List.range (min (stop.getD l.length) l.length)).filter fun i =>
    start ≤ i ∧ (i - start) % step = 0).filterMap fun i => l[i]?

/-- What the connector reads of a request. -/
structure RequestView (H : Type) where
  blockHashes : List H
  numTokens : ℕ
  numComputedTokens : ℕ

/-- A request of the scheduler output, as `yield_req_data` yields it, with its number of scheduled
tokens. -/
structure ScheduledRequest where
  reqId : ℕ
  newBlockIds : Option (List ℕ)
  preempted : Bool
  numScheduledTokens : ℕ

/-- The blocks that a job copies from, and those that it copies to. -/
abbrev TransferSpec := List ℕ × List ℕ

/-- `OffloadingConnectorScheduler`. The requests themselves belong to the scheduler, and the sets of
hashes are lists without repetition. -/
structure OffloadingConnectorScheduler (H M : Type) where
  gpuBlockSize : ℕ
  offloadedBlockSize : ℕ
  blockSizeFactor : ℕ
  manager : M
  requests : Finset ℕ
  requestBlockIds : OrderedDict ℕ (List ℕ)
  reqsToLoad : OrderedDict ℕ TransferSpec
  nextStoredBlockIdx : OrderedDict ℕ ℕ
  reqsBeingStored : OrderedDict ℕ (List H)
  reqsBeingLoaded : OrderedDict ℕ (List H)

namespace OffloadingConnectorScheduler

variable {H M : Type}

/-- `OffloadingConnectorScheduler(spec)`. -/
def new (gpuBlockSize offloadedBlockSize : ℕ) (manager : M) : OffloadingConnectorScheduler H M :=
  ⟨gpuBlockSize, offloadedBlockSize, offloadedBlockSize / gpuBlockSize, manager, ∅, ∅, ∅, ∅, ∅, ∅⟩

variable (c : OffloadingConnectorScheduler H M)

/-- `_get_block_hashes`. -/
def getBlockHashes (req : RequestView H) (startIdx : ℕ) (endIdx : Option ℕ) : List H :=
  islice req.blockHashes (c.blockSizeFactor * startIdx + c.blockSizeFactor - 1)
    (if endIdx.getD 0 = 0 then none else endIdx.map (c.blockSizeFactor * ·)) c.blockSizeFactor

variable [OffloadingManager H M]

/-- `get_num_new_matched_tokens`. -/
def getNumNewMatchedTokens (req : RequestView H) (numComputedTokens : ℕ) :
    Except PyErr ((ℕ × Bool) × OffloadingConnectorScheduler H M) :=
  let numBlocks := req.numTokens / c.offloadedBlockSize
  if req.blockHashes.length / c.blockSizeFactor ≠ numBlocks then .error (.assertionError "")
  else do
    let manager ← touch c.manager (c.getBlockHashes req 0 none)
    let fullBlockTokens := c.offloadedBlockSize * numBlocks
    let startBlockIdx := numComputedTokens / c.offloadedBlockSize
    let hits := lookup manager (c.getBlockHashes req startBlockIdx none)
    let numHitTokens : ℤ := c.offloadedBlockSize * (startBlockIdx + hits) - numComputedTokens
    if (fullBlockTokens - numComputedTokens : ℤ) < c.offloadedBlockSize ∨ hits = 0 ∨
        numHitTokens < c.offloadedBlockSize then
      return ((0, false), { c with manager := manager })
    else return ((numHitTokens.toNat, true), { c with manager := manager })

variable [DecidableEq H]

/-- `d[k].update(l)` for a `defaultdict` of sets. -/
def addToSet (d : OrderedDict ℕ (List H)) (k : ℕ) (l : List H) : OrderedDict ℕ (List H) :=
  d.setItem k (((d.lookup k).getD []) ∪ l)

/-- `update_state_after_alloc`. A block is its id and whether it has a hash. -/
def updateStateAfterAlloc (reqId : ℕ) (req : RequestView H) (blocks : List (ℕ × Bool))
    (numExternalTokens : ℕ) : Except PyErr (OffloadingConnectorScheduler H M) :=
  let c := { c with
    requests := insert reqId c.requests
    requestBlockIds := c.requestBlockIds.setItem reqId [] }
  if numExternalTokens = 0 then .ok c
  else
    let blockIds := blocks.map Prod.fst
    let numComputedGpuBlocks := blocks.countP Prod.snd
    let numComputedTokens := numComputedGpuBlocks * c.gpuBlockSize
    let fullBlockTokens := numComputedTokens + numExternalTokens
    let numPendingGpuBlocks := blockIds.length - numComputedGpuBlocks
    let startBlockIdx := numComputedTokens / c.offloadedBlockSize
    let numBlocks := fullBlockTokens / c.offloadedBlockSize
    if fullBlockTokens % c.offloadedBlockSize ≠ 0 then .error (.assertionError "")
    else if numExternalTokens ≠ numPendingGpuBlocks * c.gpuBlockSize then .error (.assertionError "")
    else if req.blockHashes.length / c.blockSizeFactor < numBlocks then .error (.assertionError "")
    else do
      let blockHashes := c.getBlockHashes req startBlockIdx (some numBlocks)
      let (srcSpec, manager) ← prepareLoad c.manager blockHashes
      return { c with
        manager := manager
        reqsToLoad := c.reqsToLoad.setItem reqId (srcSpec, blockIds.drop numComputedGpuBlocks)
        reqsBeingLoaded := addToSet c.reqsBeingLoaded reqId blockHashes
        nextStoredBlockIdx := c.nextStoredBlockIdx.setItem reqId numBlocks }

/-- The GPU blocks of the stored blocks, of which the first has the index `idx`. -/
def srcBlockIds (blockIds : List ℕ) (toStore : List H) : List H → ℕ → Except PyErr (List ℕ)
  | [], _ => .ok []
  | h :: hashes, idx =>
    if h ∈ toStore then do
      let ids ← (List.range c.blockSizeFactor).mapM fun i =>
        match blockIds[idx * c.blockSizeFactor + i]? with
        | some id => .ok id
        | none => .error (.indexError "list index out of range")
      let rest ← srcBlockIds blockIds toStore hashes (idx + 1)
      return ids ++ rest
    else srcBlockIds blockIds toStore hashes (idx + 1)

/-- The blocks of a request that `_get_reqs_to_store` offers to the manager, once its block ids are
known. -/
def offerBlocks (req : RequestView H) (sched : ScheduledRequest) (blockIds : List ℕ) :
    Except PyErr (Option TransferSpec × OffloadingConnectorScheduler H M) :=
  let numBlocks := (req.numComputedTokens + sched.numScheduledTokens) / c.offloadedBlockSize
  let startBlockIdx := (c.nextStoredBlockIdx.lookup sched.reqId).getD 0
  if numBlocks ≤ startBlockIdx then .ok (none, c)
  else do
    let newBlockHashes := c.getBlockHashes req startBlockIdx (some numBlocks)
    let (storeOutput, manager) ← prepareStore c.manager newBlockHashes
    match storeOutput with
    | none => return (none, { c with manager := manager })
    | some out =>
      let c := { c with
        manager := manager
        nextStoredBlockIdx := c.nextStoredBlockIdx.setItem sched.reqId numBlocks }
      if out.blockHashesToStore = [] then return (none, c)
      else
        let manager ← touch c.manager (c.getBlockHashes req 0 (some numBlocks))
        let src ← c.srcBlockIds blockIds out.blockHashesToStore newBlockHashes startBlockIdx
        return (some (src, out.storeSpec), { c with
          manager := manager
          reqsBeingStored := addToSet c.reqsBeingStored sched.reqId out.blockHashesToStore })

end OffloadingConnectorScheduler

end LoptVllm.KVOffload
