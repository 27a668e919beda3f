import LoptVllm.Sched.Scheduler

/-!
# The other calls of the scheduler

`update_from_output` processes the output of the worker for a step: it appends the sampled tokens,
stops requests, frees what has finished, and handles KV transfers that have ended or failed.
Requests are also added, aborted, given draft tokens and preempted from outside.
-/

namespace LoptVllm.Sched

open KVCacheManagerOps

/-- `KVConnectorOutput`; the sets are listed in the order in which they are visited. -/
structure KVConnectorOutput where
  finishedSending : List ℕ
  finishedRecving : List ℕ
  invalidBlockIds : List ℕ

/-- `ModelRunnerOutput`. A pooler output counts as there or not. -/
structure ModelRunnerOutput where
  reqIdToIndex : AList fun _ : ℕ => ℕ
  sampledTokenIds : List (List ℕ)
  poolerOutput : List Bool
  promptLogprobs : Finset ℕ
  kvConnectorOutput : Option KVConnectorOutput

/-- `xs[i] if xs else default`. -/
def indexOrDefault {α : Type} (xs : List α) (i : ℕ) (default : α) : Except SchedulerError α :=
  if xs.isEmpty then .ok default
  else match xs[i]? with
    | some a => .ok a
    | none => .error (.raised (.indexError "list index out of range"))

/-- The sampled tokens of a request, and whether it has a pooler output. -/
def ModelRunnerOutput.get (result : ModelRunnerOutput) (id : ℕ) :
    Except SchedulerError (List ℕ × Bool) := do
  let index ← getItem (result.reqIdToIndex.lookup id) id
  let generated ← indexOrDefault result.sampledTokenIds index []
  let pooled ← indexOrDefault result.poolerOutput index false
  return (generated, pooled)

/-- `EngineCoreOutput`. -/
structure EngineCoreOutput where
  requestId : ℕ
  newTokenIds : List ℕ
  finishReason : Option FinishReason
  stopReason : Option ℕ
  numCachedTokens : ℤ
  deriving DecidableEq

/-- What the connector answers when a request finishes: whether it delays the freeing of the blocks,
and whether there are KV transfer parameters. -/
abbrev RequestFinished := ℕ → Bool × Bool

/-- `remove_all`. -/
def removeAll (lst itemsToRemove : List ℕ) : List ℕ := match itemsToRemove with
  | [] => lst
  | [item] => lst.erase item
  | items => lst.filter fun item => item ∉ items

variable {K : Type}

namespace Scheduler

variable (cfg : SchedulerConfig)

/-- `add_request`. -/
def addRequest (s : Scheduler K) (id : ℕ) (request : EngineCoreRequest) : Scheduler K :=
  { s with
    waiting := s.waiting ++ [id]
    heap := Function.update s.heap id (Request.fromEngineCoreRequest request)
    ids := insert id s.ids }

/-- `update_draft_token_ids`; the grammars keep a part of the draft tokens. -/
def updateDraftTokenIds (validateTokens : ℕ → List ℤ → List ℤ) (s : Scheduler K)
    (draftTokenIds : List (ℕ × List ℤ)) : Scheduler K :=
  draftTokenIds.foldl (fun s draft =>
    match s.get? draft.1 with
    | none => s
    | some request =>
      if request.isFinished then s
      else s.modify draft.1 fun r => { r with specTokenIds := validateTokens draft.1 draft.2 }) s

variable [KVCacheManagerOps K]

/-! ### The end of a request -/

section Finish

variable (requestFinished : RequestFinished) (s : Scheduler K) (id : ℕ)

/-- `_connector_finished`. -/
def connectorFinished : Except SchedulerError (Bool × Scheduler K) :=
  if !cfg.hasConnector then .ok (false, s)
  else do
    let kv ← kvCall (removeSkippedBlocks s.kvCacheManager id (s.heap id).numTokens)
    check (cfg.supportsHMA = true ∨ (getBlocks kv id).length = 1)
      "len(self.kv_cache_config.kv_cache_groups) == 1"
    return ((requestFinished id).1,
      { s with kvCacheManager := kv, log := s.log ++ [.connectorFinished id] })

/-- `_free_blocks`. -/
def freeBlocks : Except SchedulerError (Scheduler K) := do
  check ((s.heap id).isFinished = true) "request.is_finished()"
  let kv ← kvCall (free s.kvCacheManager id)
  if id ∉ s.ids then .error (.raised (.keyError (toString id)))
  else return { s with
    kvCacheManager := kv
    ids := s.ids.erase id
    log := s.log ++ [.freeBlocks id] }

/-- `_free_request`. -/
def freeRequest : Except SchedulerError (Scheduler K) := do
  check ((s.heap id).isFinished = true) "request.is_finished()"
  let (delayFreeBlocks, s) ← s.connectorFinished cfg requestFinished id
  let s := { s with
    encoderCacheManager := s.encoderCacheManager.free id (s.heap id)
    finishedReqIds := insert id s.finishedReqIds
    log := s.log ++ [.finishedReqId id] }
  if delayFreeBlocks then return s else s.freeBlocks id

end Finish

/-- The requests that `finish_requests` finds, in the order in which it visits their ids. -/
def validRequests (s : Scheduler K) (requestIds : List ℕ) : List ℕ :=
  requestIds.dedup.filter fun id => decide (id ∈ s.ids) && !(s.heap id).isFinished

variable (requestFinished : RequestFinished)

/-- `finish_requests`. -/
def finishRequests (s : Scheduler K) (requestIds : List ℕ)
    (finishedStatus : RequestStatus) : Except SchedulerError (Scheduler K) := do
  check (finishedStatus.isFinished = true) "RequestStatus.is_finished(finished_status)"
  let valid := s.validRequests requestIds
  let fromRunning := valid.filter fun id => (s.heap id).status = .running
  let fromWaiting := valid.filter fun id => (s.heap id).status ≠ .running
  let s := { s with
    running := removeAll s.running fromRunning
    waiting := s.waiting.filter fun id => id ∉ fromWaiting }
  valid.foldlM (fun s id =>
    (s.setStatus id finishedStatus).freeRequest cfg requestFinished id) s

/-! ### Failed loads of KV blocks -/

/-- The state of the loop over the blocks of a request in `_update_requests_with_invalid_blocks`. -/
structure InvalidScan where
  isAffected : Bool
  markedInvalidBlock : Bool
  markedInvalidBlockIds : List ℕ
  numComputedTokens : ℤ
  blocksToEvict : List ℕ

/-- The loop over the blocks of a request, from the block `idx` on. -/
def scanBlocks (invalidBlockIds : List ℕ) : ℕ → List ℕ → InvalidScan → InvalidScan
  | _, [], scan => scan
  | idx, block :: blocks, scan =>
    scanBlocks invalidBlockIds (idx + 1) blocks <|
      if block ∉ invalidBlockIds then scan
      else if block ∈ scan.markedInvalidBlockIds then { scan with isAffected := true }
      else if scan.markedInvalidBlock then { scan with
        isAffected := true
        markedInvalidBlockIds := block :: scan.markedInvalidBlockIds }
      else { scan with
        isAffected := true
        markedInvalidBlock := true
        markedInvalidBlockIds := block :: scan.markedInvalidBlockIds
        numComputedTokens := (idx * cfg.blockSize : ℕ)
        blocksToEvict := scan.blocksToEvict ∪ (block :: blocks) }

/-- `req_num_computed_tokens`: the tokens of a request that may have been loaded. -/
def loadedTokens (s : Scheduler K) (id : ℕ) (blockIds : List ℕ) : ℤ :=
  let r := s.heap id
  if r.status = .waitingForRemoteKvs then
    if id ∈ s.failedRecvingKvReqIds then r.numComputedTokens
    else (blockIds.length * cfg.blockSize : ℕ)
  else r.numCachedTokens

/-- `_update_requests_with_invalid_blocks`, with the blocks marked so far: the affected requests,
and the blocks to evict. -/
def updateRequestsWithInvalidBlocks (invalidBlockIds : List ℕ) :
    List ℕ → List ℕ → Scheduler K → Except SchedulerError (List ℕ × List ℕ × Scheduler K)
  | [], _, s => .ok ([], [], s)
  | id :: requests, marked, s => do
    let blockIds ← Step.singleGroup (getBlocks s.kvCacheManager id)
    let r := s.heap id
    let numBlocks := (s.loadedTokens cfg id blockIds + cfg.blockSize - 1) / cfg.blockSize
    -- the blocks after the loaded ones are not looked at, but they are evicted with an invalid one
    let scan := scanBlocks cfg invalidBlockIds 0 (blockIds.take numBlocks.toNat)
      ⟨false, false, marked, r.numComputedTokens, []⟩
    let evict := if scan.markedInvalidBlock then
      scan.blocksToEvict ∪ blockIds.drop numBlocks.toNat else []
    let numComputedTokens := if scan.isAffected && !scan.markedInvalidBlock then r.numCachedTokens
      else scan.numComputedTokens
    let s := s.modify id fun r => { r with numComputedTokens := numComputedTokens }
    let (affected, evict', s) ←
      updateRequestsWithInvalidBlocks invalidBlockIds requests scan.markedInvalidBlockIds s
    return (if scan.isAffected then id :: affected else affected, evict ∪ evict', s)

/-- `_handle_invalid_blocks`: the requests that `update_from_output` skips. -/
def handleInvalidBlocks (s : Scheduler K) (invalidBlockIds : List ℕ) :
    Except SchedulerError (List ℕ × Scheduler K) := do
  let asyncLoadReqs := (s.iterRequests cfg s.waiting).filter fun id =>
    (s.heap id).status = .waitingForRemoteKvs
  let (asyncFailed, _, s) ←
    updateRequestsWithInvalidBlocks cfg invalidBlockIds asyncLoadReqs [] s
  let (syncFailed, evict, s) ←
    updateRequestsWithInvalidBlocks cfg invalidBlockIds s.running [] s
  if cfg.recomputeKvLoadFailures then
    return (syncFailed,
      { s with failedRecvingKvReqIds := s.failedRecvingKvReqIds ∪ asyncFailed.toFinset })
  else do
    let kv ← kvCall (if evict = [] then .ok s.kvCacheManager
      else evictBlocks s.kvCacheManager evict)
    return (asyncFailed ∪ syncFailed, { s with kvCacheManager := kv })

/-! ### The output of a step -/

omit [KVCacheManagerOps K] in
/-- The correction for draft tokens of a step that were rejected. -/
def adjustRejected (numDraftTokens : ℕ) (generated : List ℕ) (r : Request) : Request :=
  if numDraftTokens = 0 then r
  else
    let numRejected : ℤ := numDraftTokens - (generated.length - 1)
    { r with
      numComputedTokens :=
        if 0 < r.numComputedTokens then r.numComputedTokens - numRejected else r.numComputedTokens
      numOutputPlaceholders :=
        if 0 < r.numOutputPlaceholders then r.numOutputPlaceholders - numRejected
        else r.numOutputPlaceholders }

omit [KVCacheManagerOps K] in
/-- The loop of `_update_request_with_output`: the request, the tokens that were appended, and
whether it stops. -/
def appendTokens (maxModelLen : ℕ) (r : Request) : List ℕ → Except PyErr (Request × List ℕ × Bool)
  | [] => .ok (r, [], false)
  | token :: tokens => do
    let (r, stopped) ← checkStop (r.appendOutputTokenIds token) maxModelLen
    if stopped then return (r, [token], true)
    else do
      let (r, newTokenIds, stopped) ← appendTokens maxModelLen r tokens
      return (r, token :: newTokenIds, stopped)

/-- `_update_request_with_output`. -/
def updateRequestWithOutput (s : Scheduler K) (id : ℕ) (newTokenIds : List ℕ) :
    Except SchedulerError (Scheduler K × List ℕ × Bool) :=
  let r := s.heap id
  if cfg.isAsync && r.discardLatestAsyncTokens then
    .ok (s.modify id fun r => { r with discardLatestAsyncTokens := false }, [], false)
  else do
    let (r', newTokenIds, stopped) ←
      (appendTokens cfg.maxModelLen r newTokenIds).mapError .raised
    if !cfg.isAsync then return (s.modify id fun _ => r', newTokenIds, stopped)
    else do
      let placeholders := r'.numOutputPlaceholders - newTokenIds.length
      check (0 ≤ placeholders) "request.num_output_placeholders >= 0"
      let r' := { r' with numOutputPlaceholders := placeholders }
      let kv ← kvCall (if r.status = .running then
        cacheBlocks s.kvCacheManager id r' (r'.numComputedTokens - placeholders)
        else .ok s.kvCacheManager)
      return ({ s.modify id (fun _ => r') with kvCacheManager := kv }, newTokenIds, stopped)

/-- The local variables of `update_from_output`. -/
structure Update (K : Type) where
  sched : Scheduler K
  stoppedRunningReqs : List ℕ
  stoppedPreemptedReqs : List ℕ
  outputs : List EngineCoreOutput

omit [KVCacheManagerOps K] in
/-- The `EngineCoreOutput` of a request. -/
def makeEngineCoreOutput (s : Scheduler K) (id : ℕ) (newTokenIds : List ℕ) : EngineCoreOutput :=
  ⟨id, newTokenIds, (s.heap id).status.getFinishedReason, (s.heap id).stopReason,
    (s.heap id).numCachedTokens⟩

/-- The new tokens of a request, or the end of a pooling request. -/
def applyOutput (s : Scheduler K) (id : ℕ) (generated : List ℕ) (pooled : Bool) :
    Except SchedulerError (Scheduler K × List ℕ × Bool) :=
  if generated ≠ [] then s.updateRequestWithOutput cfg id generated
  else if (s.heap id).isPooling && pooled then
    .ok (s.setStatus id .finishedStopped, [], true)
  else .ok (s, [], false)

/-- A request that stops is freed. -/
def freeIfStopped (s : Scheduler K) (id : ℕ) (stopped : Bool) :
    Except SchedulerError (Scheduler K) :=
  if stopped then s.freeRequest cfg requestFinished id else .ok s

/-- The body of the loop of `update_from_output` for a request that is still there. -/
def updateRequest (out : SchedulerOutput)
    (result : ModelRunnerOutput) (u : Update K) (id : ℕ) : Except SchedulerError (Update K) := do
  let (generated, pooled) ← result.get id
  let s := u.sched.modify id (adjustRejected (out.numDraftTokens id) generated)
  let statusBeforeStop := (s.heap id).status
  let (s, newTokenIds, stopped) ← s.applyOutput cfg id generated pooled
  let s ← s.freeIfStopped cfg requestFinished id stopped
  let hasParams := stopped && cfg.hasConnector && (requestFinished id).2
  let u := { u with
    sched := s
    stoppedRunningReqs := if stopped = true ∧ statusBeforeStop = .running then
      u.stoppedRunningReqs ++ [id] else u.stoppedRunningReqs
    stoppedPreemptedReqs := if stopped = true ∧ statusBeforeStop ≠ .running then
      u.stoppedPreemptedReqs ++ [id] else u.stoppedPreemptedReqs }
  if newTokenIds ≠ [] ∨ pooled = true ∨ hasParams = true then
    return { u with outputs := u.outputs ++ [s.makeEngineCoreOutput id newTokenIds] }
  else do
    check (id ∉ result.promptLogprobs) "not prompt_logprobs_tensors"
    return u

/-- The body of the loop of `update_from_output`. -/
def updateBody (out : SchedulerOutput)
    (result : ModelRunnerOutput) (failed : List ℕ) (u : Update K) (entry : Σ _ : ℕ, ℤ) :
    Except SchedulerError (Update K) := do
  check (0 < entry.2) "num_tokens_scheduled > 0"
  -- a request that is not there any more was aborted while the step was in flight
  if entry.1 ∈ failed ∨ entry.1 ∉ u.sched.ids then return u
  else updateRequest cfg requestFinished out result u entry.1

/-- The stopped requests leave the queues. -/
def removeStopped (u : Update K) : Scheduler K :=
  { u.sched with
    running := removeAll u.sched.running u.stoppedRunningReqs
    waiting := u.sched.waiting.filter fun id => id ∉ u.stoppedPreemptedReqs }

/-- The requests whose KV load failed end with an error, unless it is retried. -/
def failRequests (failed : List ℕ) (s : Scheduler K) :
    Except SchedulerError (Scheduler K × List EngineCoreOutput) :=
  if failed = [] ∨ cfg.recomputeKvLoadFailures = true then .ok (s, [])
  else do
    let _ ← failed.mapM fun id => getItem (s.get? id) id
    let s ← s.finishRequests cfg requestFinished failed .finishedError
    return (s, failed.map fun id => s.makeEngineCoreOutput id [])

variable (s : Scheduler K)

/-- The blocks of a request are freed once they have been sent. -/
def finishSending (id : ℕ) : Except SchedulerError (Scheduler K) := do
  check (id ∈ s.ids) "req_id in self.requests"
  s.freeBlocks id

/-- `_update_from_kv_xfer_finished`, if there is an output of the connector. -/
def updateFromKvXferFinished (kvConnectorOutput : Option KVConnectorOutput) :
    Except SchedulerError (Scheduler K) :=
  match kvConnectorOutput with
  | none => .ok s
  | some kvOutput => kvOutput.finishedSending.foldlM finishSending { s with
      finishedRecvingKvReqIds := s.finishedRecvingKvReqIds ∪ kvOutput.finishedRecving.toFinset }

/-- The requests that are skipped because of failed loads. -/
def failedLoads (result : ModelRunnerOutput) : Except SchedulerError (List ℕ × Scheduler K) :=
  match result.kvConnectorOutput with
  | none => .ok ([], s)
  | some kvOutput =>
    if kvOutput.invalidBlockIds = [] then .ok ([], s)
    else s.handleInvalidBlocks cfg kvOutput.invalidBlockIds

/-- `update_from_output`. -/
def updateFromOutput (out : SchedulerOutput)
    (result : ModelRunnerOutput) : Except SchedulerError (Scheduler K × List EngineCoreOutput) := do
  let (failed, s) ← s.failedLoads cfg result
  let u ← out.numScheduledTokens.entries.reverse.foldlM
    (updateBody cfg requestFinished out result failed) ⟨s, [], [], []⟩
  let (s, outputs) ← failRequests cfg requestFinished failed (removeStopped u)
  let s ← s.updateFromKvXferFinished result.kvConnectorOutput
  return (s, u.outputs ++ outputs)

/-! ### Reset -/

/-- Preempts the last running request for a reset. -/
def forcePreempt (id : ℕ) : Except SchedulerError (Scheduler K) := do
  let s ← preemptRequest { s with running := s.running.dropLast } id
  return s.modify id fun r =>
    { r with numOutputPlaceholders := 0, discardLatestAsyncTokens := true }

/-- All running requests are preempted, the last one first. -/
def preemptAll : Except SchedulerError (Scheduler K) := do
  let s ← s.running.reverse.foldlM forcePreempt s
  return { s with prevStepScheduledReqIds := ∅ }

/-- `reset_prefix_cache`; `connectorReset` is what the connector answers if it is reset too. -/
def resetPrefixCache (resetRunningRequests resetConnector connectorReset : Bool)
    (s : Scheduler K) : Except SchedulerError (Bool × Scheduler K) := do
  let s ← (if resetRunningRequests then s.preemptAll else .ok s)
  let (kv, resetSuccessful) := KVCacheManagerOps.resetPrefixCache s.kvCacheManager
  if resetRunningRequests && !resetSuccessful then
    .error (.raised (.runtimeError "Failed to reset KV cache"))
  else
    return (if resetConnector then connectorReset && resetSuccessful else resetSuccessful,
      { s with kvCacheManager := kv })

end Scheduler

end LoptVllm.Sched
