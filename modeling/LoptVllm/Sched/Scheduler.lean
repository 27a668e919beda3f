import LoptVllm.Sched.EncoderCache
import Mathlib.Algebra.Ring.Int.Defs
import Mathlib.Algebra.Ring.Nat
import Mathlib.Data.Finset.Card
import Mathlib.Data.List.Sort

/-!
# The scheduler

The state of `Scheduler`, and `schedule`, which picks the requests of the next step. A request is
the object that `self.requests` and the queues refer to: the heap holds the objects by request id,
the dictionary `self.requests` is the set of its keys, and the queues hold ids.

The heap of a priority queue is the list of its elements. The element that is popped is the
smallest one, so the order of the list cannot be observed.

The KV cache manager is a parameter: a type of states with the methods that the scheduler calls.
What the connectors and the grammar compiler answer during a call is an argument of it.
-/

namespace LoptVllm.Sched

/-- The exceptions of the scheduler. An assertion is named by its message or its condition, and
`outOfRounds` is the one of a loop of the model that was given too few rounds. -/
inductive SchedulerError
  | kvCacheManager (e : PyErr)
  | encoderCacheManager (e : PyErr)
  | assertion (condition : String)
  | raised (e : PyErr)
  | outOfRounds
  deriving DecidableEq

/-- `assert p`. -/
def check (p : Prop) [Decidable p] (condition : String) : Except SchedulerError Unit :=
  if p then .ok () else .error (.assertion condition)

@[simp] theorem check_eq_ok {p : Prop} [Decidable p] {condition : String} {u : Unit} :
    check p condition = .ok u ↔ p := by
  unfold check
  split_ifs with h <;> simp [h]

variable {α : Type}

/-- `d[key]`, for the result of the lookup. -/
def getItem (value : Option α) (key : ℕ) : Except SchedulerError α := match value with
  | some a => .ok a
  | none => .error (.raised (.keyError (toString key)))

@[simp] theorem getItem_eq_ok {value : Option α} {key : ℕ} {a : α} :
    getItem value key = .ok a ↔ value = some a := by
  cases value <;> simp [getItem]

/-- A call of the KV cache manager. -/
def kvCall (x : Except PyErr α) : Except SchedulerError α := x.mapError .kvCacheManager

/-- A call of the encoder cache manager. -/
def encoderCall (x : Except PyErr α) : Except SchedulerError α :=
  x.mapError .encoderCacheManager

@[simp] theorem kvCall_eq_ok {x : Except PyErr α} {a : α} : kvCall x = .ok a ↔ x = .ok a := by
  cases x <;> simp [kvCall, Except.mapError]

/-- The arguments of `allocate_slots` besides the request. -/
structure SlotRequest where
  numNewTokens : ℤ
  numNewComputedTokens : ℕ
  newComputedBlocks : Option (List (List ℕ))
  numLookaheadTokens : ℕ
  numExternalComputedTokens : ℕ
  delayCacheBlocks : Bool
  numEncoderTokens : ℕ

/-- The methods of `KVCacheManager` that the scheduler calls, for the type `K` of its states. -/
class KVCacheManagerOps (K : Type) where
  getComputedBlocks : K → ℕ → Request → Except PyErr (List (List ℕ) × ℕ)
  allocateSlots : K → ℕ → Request → SlotRequest → Except PyErr (K × Option (List (List ℕ)))
  cacheBlocks : K → ℕ → Request → ℤ → Except PyErr K
  removeSkippedBlocks : K → ℕ → ℕ → Except PyErr K
  free : K → ℕ → Except PyErr K
  evictBlocks : K → List ℕ → Except PyErr K
  resetPrefixCache : K → K × Bool
  getBlocks : K → ℕ → List (List ℕ)
  emptyKVCacheBlocks : K → List (List ℕ)

/-- `SchedulingPolicy`. -/
inductive SchedulingPolicy
  | fcfs
  | priority
  deriving DecidableEq

/-- What the constructor of the scheduler fixes; `isAsync` is the class `AsyncScheduler`. -/
structure SchedulerConfig where
  policy : SchedulingPolicy
  maxNumRunningReqs : ℕ
  maxNumScheduledTokens : ℕ
  maxModelLen : ℕ
  longPrefillTokenThreshold : ℕ
  enableChunkedPrefill : Bool
  disableChunkedMmInput : Bool
  maxLoras : Option ℕ
  hasConnector : Bool
  supportsHMA : Bool
  recomputeKvLoadFailures : Bool
  hasEcConnector : Bool
  isEncoderDecoder : Bool
  maxNumEncoderInputTokens : ℕ
  numEncoderMaxInputTokens : ℕ
  useEagle : Bool
  numSpecTokens : ℕ
  numLookaheadTokens : ℕ
  blockSize : ℕ
  usePp : Bool
  isAsync : Bool

variable (cfg : SchedulerConfig)

/-- `shift_computed_tokens`. -/
def SchedulerConfig.shiftComputedTokens : ℤ := if cfg.useEagle then 1 else 0

theorem SchedulerConfig.shift_range :
    0 ≤ cfg.shiftComputedTokens ∧ cfg.shiftComputedTokens ≤ 1 := by
  unfold shiftComputedTokens
  split_ifs <;> exact ⟨by decide, by decide⟩

/-- The limit `long_prefill_token_threshold`, if there is one. -/
def SchedulerConfig.capPrefill (n : ℤ) : ℤ :=
  if 0 < cfg.longPrefillTokenThreshold ∧ (cfg.longPrefillTokenThreshold : ℤ) < n then
    cfg.longPrefillTokenThreshold else n

theorem SchedulerConfig.capPrefill_le (n : ℤ) : cfg.capPrefill n ≤ n := by
  unfold capPrefill
  split_ifs with h
  · exact h.2.le
  · exact le_rfl

theorem SchedulerConfig.capPrefill_pos {n : ℤ} (h : 0 < n) : 0 < cfg.capPrefill n := by
  unfold capPrefill
  split_ifs with hc
  · exact_mod_cast hc.1
  · exact h

/-- What the end of a request did. -/
inductive SchedulerAction
  /-- The connector was told that the request has finished. -/
  | connectorFinished (requestId : ℕ)
  /-- The id was put into `finished_req_ids`. -/
  | finishedReqId (requestId : ℕ)
  /-- The blocks of the request were freed and the request left `self.requests`. -/
  | freeBlocks (requestId : ℕ)
  deriving DecidableEq

/-- The request that an action is about. -/
def SchedulerAction.requestId : SchedulerAction → ℕ
  | .connectorFinished id | .finishedReqId id | .freeBlocks id => id

/-- `Scheduler`. The log is not part of the source, and no method reads it. -/
structure Scheduler (K : Type) where
  kvCacheManager : K
  encoderCacheManager : EncoderCacheManager
  heap : ℕ → Request
  ids : Finset ℕ
  waiting : List ℕ
  running : List ℕ
  finishedReqIds : Finset ℕ
  prevStepScheduledReqIds : Finset ℕ
  finishedRecvingKvReqIds : Finset ℕ
  failedRecvingKvReqIds : Finset ℕ
  log : List SchedulerAction

open KVCacheManagerOps

variable {K : Type}

namespace Scheduler

variable (s : Scheduler K)

/-- `self.requests.get(request_id)`. -/
def get? (id : ℕ) : Option Request := if id ∈ s.ids then some (s.heap id) else none

/-- Assigns to fields of a request. -/
def modify (id : ℕ) (f : Request → Request) : Scheduler K :=
  { s with heap := Function.update s.heap id (f (s.heap id)) }

/-- `request.status = status`. -/
def setStatus (id : ℕ) (status : RequestStatus) : Scheduler K :=
  s.modify id fun r => { r with status := status }

/-- `a < b` on requests. -/
def lt (a b : ℕ) : Bool := (s.heap a).lt a (s.heap b) b

variable (cfg : SchedulerConfig) (s : Scheduler K)

/-- `peek_request`; `pop_request` removes the same request. -/
def peekRequest : List ℕ → Option ℕ
  | [] => none
  | a :: queue =>
    match cfg.policy with
    | .fcfs => some a
    | .priority => some (queue.foldl (fun least b => if s.lt b least then b else least) a)

/-- The order in which a queue is iterated over. -/
def iterRequests (queue : List ℕ) : List ℕ := match cfg.policy with
  | .fcfs => queue
  | .priority => queue.insertionSort fun a b => s.lt a b = true

/-- The key of `max(self.running, key=lambda r: (r.priority, r.arrival_time))` is smaller. -/
def keyLt (a b : ℕ) : Bool := (s.heap a).priority < (s.heap b).priority ∨
    (s.heap a).priority = (s.heap b).priority ∧ (s.heap a).arrivalTime < (s.heap b).arrivalTime

/-- The running request that is preempted next. -/
def preemptionVictim : Option ℕ := match cfg.policy with
  | .fcfs => s.running.getLast?
  | .priority =>
    match s.running with
    | [] => none
    | a :: l => some (l.foldl (fun greatest b => if s.keyLt greatest b then b else greatest) a)

variable [KVCacheManagerOps K]

/-- `_preempt_request`. -/
def preemptRequest (id : ℕ) : Except SchedulerError (Scheduler K) := do
  check ((s.heap id).status = .running) "Only running requests can be preempted"
  let kv ← kvCall (free s.kvCacheManager id)
  let encoder := s.encoderCacheManager.free id (s.heap id)
  return { s.modify id Request.preempt with
    kvCacheManager := kv
    encoderCacheManager := encoder
    waiting := id :: s.waiting }

end Scheduler

/-! ### Encoder inputs -/

/-- The results of `_try_schedule_encoder_inputs`, with the two trackers of its loop. -/
structure EncoderSchedule where
  encoderInputsToSchedule : List ℕ
  numNewTokens : ℤ
  encoderComputeBudget : ℤ
  externalLoadEncoderInput : List ℕ
  mmHashesToSchedule : List String
  numEmbedsToSchedule : ℤ

/-- The arguments of `_try_schedule_encoder_inputs` that its loop does not change; `hasCaches` is
the answer of the encoder-cache connector. -/
structure EncoderArgs where
  requestId : ℕ
  numComputedTokens : ℤ
  shiftComputedTokens : ℤ
  hasCaches : ℕ → Bool

section Encoder

variable (cfg : SchedulerConfig) (args : EncoderArgs) (feature : MultiModalFeatureSpec)

/-- The check whether the output for an item is scheduled already or cached. -/
def isCached (plan : EncoderSchedule) (m : EncoderCacheManager) :
    Except PyErr (Bool × EncoderCacheManager) :=
  if cfg.isEncoderDecoder then .ok (false, m)
  else if feature.identifier ∈ plan.mmHashesToSchedule then .ok (true, m)
  else m.checkAndUpdateCache args.requestId feature.identifier

/-- Schedules the item `i` if it has embeddings in the range. -/
def scheduleItem (i : ℕ) (plan : EncoderSchedule) : EncoderSchedule :=
  let startPos : ℤ := feature.offset
  let numEncoderEmbeds : ℤ := feature.getNumEmbeds
  let (currEmbedsStart, currEmbedsEnd) := feature.getEmbedsIndicesInRange
    (max 0 (args.numComputedTokens - startPos))
    (min feature.length (args.numComputedTokens + plan.numNewTokens - startPos))
  if currEmbedsEnd - currEmbedsStart = 0 then plan
  else if cfg.hasEcConnector && args.hasCaches i then { plan with
    mmHashesToSchedule := plan.mmHashesToSchedule ++ [feature.identifier]
    externalLoadEncoderInput := plan.externalLoadEncoderInput ++ [i]
    numEmbedsToSchedule := plan.numEmbedsToSchedule + numEncoderEmbeds }
  else { plan with
    numEmbedsToSchedule := plan.numEmbedsToSchedule + numEncoderEmbeds
    encoderComputeBudget := plan.encoderComputeBudget - numEncoderEmbeds
    mmHashesToSchedule := plan.mmHashesToSchedule ++ [feature.identifier]
    encoderInputsToSchedule := plan.encoderInputsToSchedule ++ [i] }

/-- The body of the loop of `_try_schedule_encoder_inputs`, for the item `i`. The flag says that
the loop breaks. -/
def encoderStep (i : ℕ) (plan : EncoderSchedule) (m : EncoderCacheManager) :
    Except SchedulerError (Bool × EncoderSchedule × EncoderCacheManager) :=
  let startPos : ℤ := feature.offset
  if args.numComputedTokens + plan.numNewTokens + args.shiftComputedTokens ≤ startPos then
    .ok (true, plan, m)
  else if cfg.isEncoderDecoder ∧ 0 < args.numComputedTokens then do
    check (startPos = 0) ("Encoder input should be processed at the beginning of " ++
      "the sequence when encoder-decoder models are used.")
    return (false, plan, m)
  else if startPos + feature.length ≤ args.numComputedTokens then .ok (false, plan, m)
  else do
    let (cached, m) ← encoderCall (isCached cfg args feature plan m)
    if cached then return (false, plan, m)
    else if cfg.disableChunkedMmInput ∧ args.numComputedTokens < startPos ∧
        args.numComputedTokens + plan.numNewTokens < startPos + feature.length then
      return (true, { plan with numNewTokens := startPos - args.numComputedTokens }, m)
    else do
      let (fits, m) ← encoderCall
        (m.canAllocate feature.getNumEmbeds plan.encoderComputeBudget plan.numEmbedsToSchedule)
      if fits then return (false, scheduleItem cfg args feature i plan, m)
      else
        -- the tokens before the item can still be scheduled, if there are any
        let numNewTokens := if args.numComputedTokens + args.shiftComputedTokens < startPos then
          startPos - (args.numComputedTokens + args.shiftComputedTokens) else 0
        return (true, { plan with numNewTokens := numNewTokens }, m)

/-- The loop of `_try_schedule_encoder_inputs`. -/
def encoderLoop : List (MultiModalFeatureSpec × ℕ) → EncoderSchedule → EncoderCacheManager →
    Except SchedulerError (EncoderSchedule × EncoderCacheManager)
  | [], plan, m => .ok (plan, m)
  | (feature, i) :: features, plan, m => do
    let (stop, plan, m) ← encoderStep cfg args feature i plan m
    if stop then return (plan, m) else encoderLoop features plan m

/-- `_try_schedule_encoder_inputs`. -/
def tryScheduleEncoderInputs (request : Request) (numNewTokens encoderComputeBudget : ℤ)
    (m : EncoderCacheManager) : Except SchedulerError (EncoderSchedule × EncoderCacheManager) :=
  let plan : EncoderSchedule := ⟨[], numNewTokens, encoderComputeBudget, [], [], 0⟩
  if numNewTokens = 0 ∨ !request.hasEncoderInputs then .ok (plan, m)
  else encoderLoop cfg args request.mmFeatures.zipIdx plan m

/-- `encoder_cache_manager.allocate(request, i)` for each input `i`. -/
def allocateEncoder (requestId : ℕ) (request : Request) : List ℕ → EncoderCacheManager →
    Except SchedulerError EncoderCacheManager
  | [], m => .ok m
  | i :: inputs, m =>
    match request.mmFeatures[i]? with
    | none => .error (.raised (.indexError "list index out of range"))
    | some feature => do
      let m ← encoderCall (m.allocate requestId feature)
      allocateEncoder requestId request inputs m

end Encoder

/-! ### The local variables of `schedule` -/

/-- The scheduler, and the local variables of `schedule`. -/
structure Step (K : Type) where
  sched : Scheduler K
  tokenBudget : ℤ
  encoderComputeBudget : ℤ
  scheduledNewReqs : List ℕ
  scheduledResumedReqs : List ℕ
  scheduledRunningReqs : List ℕ
  preemptedReqs : List ℕ
  reqToNewBlocks : AList fun _ : ℕ => List (List ℕ)
  numScheduledTokens : AList fun _ : ℕ => ℤ
  scheduledSpecDecodeTokens : AList fun _ : ℕ => List ℤ
  scheduledEncoderInputs : AList fun _ : ℕ => List ℕ
  scheduledLoras : Finset ℕ
  skippedWaitingRequests : List ℕ

/-- How the body of a loop ends. -/
inductive Flow (α : Type)
  | next (a : α)
  | done (a : α)

/-- The state at the end of the body. -/
def Flow.state : Flow α → α
  | .next a => a
  | .done a => a

/-- What the scheduler is told during a call of `schedule`, by request id: whether the grammar has
been compiled; the tokens that the connector can load beyond those of the local cache, and whether
asynchronously; the items in the remote encoder cache. -/
structure ScheduleEnv where
  grammarReady : ℕ → Bool
  getNumNewMatchedTokens : ℕ → ℕ → Option ℕ × Bool
  hasCaches : ℕ → ℕ → Bool

namespace Step

variable (cfg : SchedulerConfig) (env : ScheduleEnv) (st : Step K) (id : ℕ)

/-- The local variables at the beginning. -/
def start (s : Scheduler K) : Step K :=
  ⟨s, cfg.maxNumScheduledTokens, cfg.maxNumEncoderInputTokens, [], [], [], [], ∅, ∅, ∅, ∅, ∅, []⟩

/-- The object of a request. -/
def request : Request := st.sched.heap id

/-- `_try_schedule_encoder_inputs`, for a request of which `numComputedTokens` are computed. -/
def tryEncoder (numComputedTokens numNewTokens : ℤ) :
    Except SchedulerError (EncoderSchedule × Step K) := do
  let args : EncoderArgs := ⟨id, numComputedTokens, cfg.shiftComputedTokens, env.hasCaches id⟩
  let (plan, m) ← tryScheduleEncoderInputs cfg args (st.request id) numNewTokens
    st.encoderComputeBudget st.sched.encoderCacheManager
  return (plan, { st with sched := { st.sched with encoderCacheManager := m } })

/-- Records the scheduled encoder inputs and allocates the encoder cache for them. -/
def scheduleEncoder (plan : EncoderSchedule) : Except SchedulerError (Step K) := do
  let request := st.request id
  let m ← allocateEncoder id request plan.encoderInputsToSchedule st.sched.encoderCacheManager
  let st := if plan.encoderInputsToSchedule = [] then st else { st with
    scheduledEncoderInputs := st.scheduledEncoderInputs.insert id plan.encoderInputsToSchedule
    encoderComputeBudget := plan.encoderComputeBudget }
  let m ← allocateEncoder id request plan.externalLoadEncoderInput m
  return { st with sched := { st.sched with encoderCacheManager := m } }

/-! ### Running requests -/

/-- The number of tokens of a running request that are scheduled, before its encoder inputs are
looked at. -/
def runningNewTokens (r : Request) (tokenBudget : ℤ) : ℤ :=
  let n : ℤ := r.numTokensWithSpec + r.numOutputPlaceholders - r.numComputedTokens
  let n := min (cfg.capPrefill n) tokenBudget
  min n (cfg.maxModelLen - 1 - r.numComputedTokens)

/-- The steps in flight have reached `max_tokens` for sure. -/
def reachesMaxTokens (r : Request) : Bool := 0 < r.numOutputPlaceholders ∧
    ((r.numPromptTokens + r.maxTokens : ℕ) : ℤ) ≤ r.numComputedTokens + 2 - r.numOutputPlaceholders

/-- The encoder compute budget that the victim had taken in this step. -/
def restoredBudget (victim : ℕ) : ℕ :=
  (((st.scheduledEncoderInputs.lookup victim).getD []).map fun i =>
    ((st.request victim).mmFeatures[i]?).elim 0 MultiModalFeatureSpec.getNumEmbeds).sum

/-- Takes the victim, which was scheduled in this step, out of what is scheduled. -/
def unschedule (victim : ℕ) : Except SchedulerError (Step K) := do
  let numScheduled ← getItem (st.numScheduledTokens.lookup victim) victim
  let _ ← getItem (st.reqToNewBlocks.lookup victim) victim
  return { st with
    scheduledRunningReqs := st.scheduledRunningReqs.erase victim
    tokenBudget := st.tokenBudget + numScheduled
    reqToNewBlocks := st.reqToNewBlocks.erase victim
    numScheduledTokens := st.numScheduledTokens.erase victim
    scheduledSpecDecodeTokens := st.scheduledSpecDecodeTokens.erase victim
    scheduledEncoderInputs := st.scheduledEncoderInputs.erase victim
    encoderComputeBudget := st.encoderComputeBudget + st.restoredBudget victim }

/-- Takes the victim out of `self.running` and, if it was scheduled in this step, out of what is
scheduled. The last request of the list cannot have been scheduled yet. -/
def takeVictim (victim idx : ℕ) : Except SchedulerError (ℕ × Step K) := match cfg.policy with
  | .fcfs =>
    .ok (idx, { st with sched := { st.sched with running := st.sched.running.dropLast } })
  | .priority =>
    let st := { st with sched := { st.sched with running := st.sched.running.erase victim } }
    if victim ∈ st.scheduledRunningReqs then do
      let st ← st.unschedule victim
      return (idx - 1, st)
    else .ok (idx, st)

variable [KVCacheManagerOps K]

/-- `allocate_slots`, for a running request. -/
def allocateRunning (numNewTokens : ℤ) :
    Except SchedulerError (Option (List (List ℕ)) × Step K) := do
  let (kv, newBlocks) ← kvCall (allocateSlots st.sched.kvCacheManager id (st.request id)
    ⟨numNewTokens, 0, none, cfg.numLookaheadTokens, 0, false, 0⟩)
  return (newBlocks, { st with sched := { st.sched with kvCacheManager := kv } })

/-- Preempts one running request. -/
def preempt (victim idx : ℕ) : Except SchedulerError (ℕ × Step K) := do
  let (idx, st) ← st.takeVictim cfg victim idx
  let s ← st.sched.preemptRequest victim
  return (idx, { st with sched := s, preemptedReqs := st.preemptedReqs ++ [victim] })

/-- The loop around `allocate_slots`. Each round takes one request out of `self.running`, so there
are at most as many rounds as running requests. -/
def preemptLoop (numNewTokens : ℤ) : ℕ → ℕ → Step K →
    Except SchedulerError (Option (List (List ℕ)) × ℕ × Step K)
  | 0, _, _ => .error .outOfRounds
  | fuel + 1, idx, st => do
    let (newBlocks, st) ← st.allocateRunning cfg id numNewTokens
    match newBlocks, st.sched.preemptionVictim cfg with
    | some newBlocks, _ => return (some newBlocks, idx, st)
    | none, none => .error (.raised (.indexError "pop from empty list"))
    | none, some victim => do
      let (idx, st) ← st.preempt cfg victim idx
      -- no more requests to preempt if the request itself was
      if victim = id then return (none, idx, st) else preemptLoop numNewTokens fuel idx st

omit [KVCacheManagerOps K] in
/-- The draft tokens of a running request that are scheduled with it, for `numNewTokens` tokens. -/
def recordSpecTokens (numNewTokens : ℤ) : AList fun _ : ℕ => List ℤ :=
  let request := st.request id
  let numScheduledSpecTokens :=
    numNewTokens + request.numComputedTokens - request.numTokens - request.numOutputPlaceholders
  if request.specTokenIds ≠ [] ∧ 0 < numScheduledSpecTokens then
    st.scheduledSpecDecodeTokens.insert id (request.specTokenIds.take numScheduledSpecTokens.toNat)
  else st.scheduledSpecDecodeTokens

/-- Records a running request as scheduled. -/
def scheduleRunning (newBlocks : List (List ℕ)) (plan : EncoderSchedule) :
    Except SchedulerError (Step K) :=
  let st := { st with
    scheduledRunningReqs := st.scheduledRunningReqs ++ [id]
    reqToNewBlocks := st.reqToNewBlocks.insert id newBlocks
    numScheduledTokens := st.numScheduledTokens.insert id plan.numNewTokens
    tokenBudget := st.tokenBudget - plan.numNewTokens
    scheduledSpecDecodeTokens := st.recordSpecTokens id plan.numNewTokens
    sched := st.sched.modify id fun r => { r with specTokenIds := [] } }
  st.scheduleEncoder id plan

/-- The body of the loop over the running requests, at the index `idx`. -/
def runningBody (idx : ℕ) : Except SchedulerError (Flow (ℕ × Step K)) :=
  match st.sched.running[idx]? with
  | none => .ok (.done (idx, st))
  | some id =>
    let request := st.request id
    if reachesMaxTokens request then .ok (.next (idx + 1, st))
    else do
      let (plan, st) ← st.tryEncoder cfg env id request.numComputedTokens
        (runningNewTokens cfg request st.tokenBudget)
      if plan.numNewTokens = 0 then return .next (idx + 1, st)
      else do
        let (newBlocks, idx, st) ←
          preemptLoop cfg id plan.numNewTokens st.sched.running.length idx st
        match newBlocks with
        | none => return .done (idx, st)
        | some newBlocks => do
          let st ← st.scheduleRunning id newBlocks plan
          return .next (idx + 1, st)

/-- The loop over the running requests, for a bounded number of rounds. -/
def runningLoop : ℕ → ℕ → Step K → Except SchedulerError (Step K)
  | 0, _, _ => .error .outOfRounds
  | fuel + 1, idx, st =>
    if idx < st.sched.running.length ∧ 0 < st.tokenBudget then do
      match ← st.runningBody cfg env idx with
      | .next (idx, st) => runningLoop fuel idx st
      | .done (_, st) => return st
    else .ok st

/-- The adapters of the scheduled running requests. -/
def recordLoras : Except SchedulerError (Step K) := match cfg.maxLoras with
  | none => .ok st
  | some maxLoras =>
    let scheduledLoras := ((st.scheduledRunningReqs.filterMap fun id =>
      (st.request id).loraRequest.map LoRARequest.loraIntId).filter (0 < ·)).toFinset
    do
      check (scheduledLoras.card ≤ maxLoras) "len(scheduled_loras) <= self.lora_config.max_loras"
      return { st with scheduledLoras := scheduledLoras }

/-! ### Waiting requests -/

omit [KVCacheManagerOps K] in
/-- Takes a request out of `self.waiting` and puts it aside. -/
def skipRequest : Step K := { st with
  sched := { st.sched with waiting := st.sched.waiting.erase id }
  skippedWaitingRequests := id :: st.skippedWaitingRequests }

/-- `(block_ids,) = ...`. -/
def singleGroup : List (List ℕ) → Except SchedulerError (List ℕ)
  | [blockIds] => .ok blockIds
  | _ => .error (.raised (.valueError "not one value to unpack"))

/-- `_update_waiting_for_remote_kv`. -/
def updateWaitingForRemoteKv (s : Scheduler K) : Except SchedulerError (Bool × Scheduler K) := do
  check (cfg.hasConnector = true) "self.connector is not None"
  if id ∉ s.finishedRecvingKvReqIds then return (false, s)
  else
    let r := s.heap id
    let finishedRecving := s.finishedRecvingKvReqIds.erase id
    if id ∈ s.failedRecvingKvReqIds then do
      let kv ← kvCall (if r.numComputedTokens ≠ 0 then
        cacheBlocks s.kvCacheManager id r r.numComputedTokens else free s.kvCacheManager id)
      return (true, { s with
        kvCacheManager := kv
        failedRecvingKvReqIds := s.failedRecvingKvReqIds.erase id
        finishedRecvingKvReqIds := finishedRecving })
    else do
      let blockIds ← singleGroup (getBlocks s.kvCacheManager id)
      let n := min (blockIds.length * cfg.blockSize) r.numTokens
      let n : ℤ := if n = r.numTokens then (n : ℤ) - 1 else n
      let kv ← kvCall (cacheBlocks s.kvCacheManager id r n)
      let s := s.modify id fun r => { r with numComputedTokens := n }
      return (true, { s with
        kvCacheManager := kv
        finishedRecvingKvReqIds := finishedRecving })

omit [KVCacheManagerOps K] in
/-- The status of a request whose remote KVs have arrived: it may have been preempted before. -/
def readyStatus : RequestStatus :=
  if (st.request id).numPreemptions ≠ 0 then .preempted else .waiting

/-- The state of a request that was waiting for remote KVs, once they have arrived. -/
def readyRemoteKv : Except SchedulerError (Bool × Step K) :=
  if (st.request id).status = .waitingForRemoteKvs then do
    let (isReady, s) ← updateWaitingForRemoteKv cfg id st.sched
    if isReady then return (true, { st with sched := s.setStatus id (st.readyStatus id) })
    else return (false, { st with sched := s })
  else .ok (true, st)

omit [KVCacheManagerOps K] in
/-- The state of a request that was waiting for its grammar, once it has been compiled. -/
def readyFsm : Bool × Step K := if (st.request id).status = .waitingForFsm then
    if (st.request id).useStructuredOutput && env.grammarReady id then
      (true, { st with sched := st.sched.setStatus id .waiting })
    else (false, st)
  else (true, st)

omit [KVCacheManagerOps K] in
/-- Scheduling the request would exceed `max_loras`. -/
def exceedsLoras : Bool := match cfg.maxLoras, (st.request id).loraRequest with
  | some maxLoras, some lora =>
    st.scheduledLoras.card = maxLoras ∧ lora.loraIntId ∉ st.scheduledLoras
  | _, _ => false

/-- The computed tokens of a waiting request: in the local cache, in a remote cache, and in all. -/
structure ComputedTokens where
  newComputedBlocks : List (List ℕ)
  numNewLocalComputedTokens : ℕ
  numExternalComputedTokens : ℕ
  loadKvAsync : Bool
  numComputedTokens : ℤ

/-- The already computed tokens of a waiting request, unless the connector cannot tell yet. -/
def getComputedTokens : Except SchedulerError (Option ComputedTokens) :=
  let kv := st.sched.kvCacheManager
  if (st.request id).numComputedTokens = 0 then do
    let (newComputedBlocks, numNewLocal) ← kvCall (getComputedBlocks kv id (st.request id))
    if cfg.hasConnector then
      match env.getNumNewMatchedTokens id numNewLocal with
      | (none, _) => return none
      | (some extTokens, loadKvAsync) =>
        return some ⟨newComputedBlocks, numNewLocal, extTokens, loadKvAsync,
          (numNewLocal + extTokens : ℕ)⟩
    else return some ⟨newComputedBlocks, numNewLocal, 0, false, numNewLocal⟩
  else .ok (some ⟨emptyKVCacheBlocks kv, 0, 0, false, (st.request id).numComputedTokens⟩)

omit [KVCacheManagerOps K] in
/-- The tokens of a waiting request that are scheduled; nothing if the loop breaks. -/
def waitingNewTokens (computed : ComputedTokens) :
    Except SchedulerError (Option EncoderSchedule × Step K) :=
  if computed.loadKvAsync then do
    check (0 < computed.numExternalComputedTokens) "num_external_computed_tokens > 0"
    return (some ⟨[], 0, st.encoderComputeBudget, [], [], 0⟩, st)
  else
    let n := cfg.capPrefill ((st.request id).numTokens - computed.numComputedTokens)
    if !cfg.enableChunkedPrefill ∧ st.tokenBudget < n then .ok (none, st)
    else do
      let n := min n st.tokenBudget
      check (0 < n) "num_new_tokens > 0"
      let (plan, st) ← st.tryEncoder cfg env id computed.numComputedTokens n
      return (if plan.numNewTokens = 0 then none else some plan, st)

variable (computed : ComputedTokens)

/-- `allocate_slots`, for a waiting request. -/
def allocateWaiting (numNewTokens : ℤ) :
    Except SchedulerError (Option (List (List ℕ)) × Step K) := do
  let request := st.request id
  let (kv, newBlocks) ← kvCall (allocateSlots st.sched.kvCacheManager id request
    ⟨numNewTokens, computed.numNewLocalComputedTokens, some computed.newComputedBlocks,
      if request.numComputedTokens = 0 then 0 else cfg.numLookaheadTokens,
      computed.numExternalComputedTokens, computed.loadKvAsync,
      if cfg.isEncoderDecoder ∧ request.hasEncoderInputs then cfg.numEncoderMaxInputTokens else 0⟩)
  return (newBlocks, { st with sched := { st.sched with kvCacheManager := kv } })

omit [KVCacheManagerOps K] in
/-- Records a request that is admitted as a new or as a resumed one. -/
def recordAdmitted (status : RequestStatus) : Except SchedulerError (Step K) := match status with
  | .waiting => .ok { st with scheduledNewReqs := st.scheduledNewReqs ++ [id] }
  | .preempted => .ok { st with scheduledResumedReqs := st.scheduledResumedReqs ++ [id] }
  | _ => .error (.raised (.runtimeError "Invalid request status"))

/-- Records a waiting request as scheduled. -/
def admitRequest (plan : EncoderSchedule) : Except SchedulerError (Step K) := do
  let request := st.request id
  let st := { st with sched := { st.sched with
    waiting := st.sched.waiting.erase id
    running := st.sched.running ++ [id] } }
  let st ← st.recordAdmitted id request.status
  let st := { st with
    scheduledLoras := if cfg.maxLoras.isSome then
      (request.loraRequest.map LoRARequest.loraIntId).elim st.scheduledLoras
        (insert · st.scheduledLoras) else st.scheduledLoras
    reqToNewBlocks := st.reqToNewBlocks.insert id (getBlocks st.sched.kvCacheManager id)
    numScheduledTokens := st.numScheduledTokens.insert id plan.numNewTokens
    tokenBudget := st.tokenBudget - plan.numNewTokens
    sched := st.sched.modify id fun r => { r with
      status := .running
      numComputedTokens := computed.numComputedTokens
      numCachedTokens :=
        if r.numCachedTokens < 0 then computed.numComputedTokens else r.numCachedTokens } }
  st.scheduleEncoder id plan

omit [KVCacheManagerOps K] in
/-- Drops the references of a request that could not be scheduled to encoder outputs. -/
def freeEncoder : Step K :=
  let m := st.sched.encoderCacheManager
  let m := if (st.request id).hasEncoderInputs then m.free id (st.request id) else m
  { st with sched := { st.sched with encoderCacheManager := m } }

omit [KVCacheManagerOps K] in
/-- Puts a request aside whose KVs are loaded asynchronously. -/
def waitForRemoteKvs : Step K :=
  { st.skipRequest id with
    sched := (st.skipRequest id).sched.setStatus id .waitingForRemoteKvs }

/-- Schedules a waiting request that is ready. -/
def scheduleWaiting : Except SchedulerError (Flow (Step K)) := do
  match ← st.getComputedTokens cfg env id with
  | none => return .next (st.skipRequest id)
  | some computed => do
    let (plan, st) ← st.waitingNewTokens cfg env id computed
    match plan with
    | none => return .done st
    | some plan => do
      let (newBlocks, st) ← st.allocateWaiting cfg id computed plan.numNewTokens
      match newBlocks with
      | none => return .done (st.freeEncoder id)
      | some _ =>
        if computed.loadKvAsync then return .next (st.waitForRemoteKvs id)
        else do
          let st ← st.admitRequest cfg id computed plan
          return .next st

/-- The body of the loop over the waiting requests, for the request at the front. -/
def waitingBody : Except SchedulerError (Flow (Step K)) := do
  let (isReady, st) ← st.readyRemoteKv cfg id
  if !isReady then return .next (st.skipRequest id)
  else
    let (isReady, st) := st.readyFsm env id
    if !isReady then return .next (st.skipRequest id)
    else if st.exceedsLoras cfg id then return .next (st.skipRequest id)
    else st.scheduleWaiting cfg env id

/-- The loop over the waiting requests. Each round takes one request out of `self.waiting` or ends
the loop, and there is a last round in which it finds that it has ended. -/
def waitingLoop : ℕ → Step K → Except SchedulerError (Step K)
  | 0, _ => .error .outOfRounds
  | fuel + 1, st =>
    match st.sched.peekRequest cfg st.sched.waiting with
    | none => .ok st
    | some id =>
      if 0 < st.tokenBudget ∧ st.sched.running.length ≠ cfg.maxNumRunningReqs then do
        match ← st.waitingBody cfg env id with
        | .next st => waitingLoop fuel st
        | .done st => return st
      else .ok st

/-- The waiting requests are scheduled if no running request was preempted. -/
def scheduleWaitingReqs : Except SchedulerError (Step K) :=
  if st.preemptedReqs = [] then waitingLoop cfg env (st.sched.waiting.length + 1) st else .ok st

section

omit [KVCacheManagerOps K]

/-- Puts the skipped requests back at the head of `self.waiting`. -/
def putBack : Step K :=
  { st with sched := { st.sched with
    waiting := st.skippedWaitingRequests.reverse ++ st.sched.waiting } }

/-- `total_num_scheduled_tokens`. -/
def totalNumScheduledTokens : ℤ := (st.numScheduledTokens.entries.map Sigma.snd).sum

/-- The assertions at the end of the loops. -/
def checkConstraints : Except SchedulerError Unit := do
  check (st.totalNumScheduledTokens ≤ cfg.maxNumScheduledTokens)
    "total_num_scheduled_tokens <= self.max_num_scheduled_tokens"
  check (0 ≤ st.tokenBudget) "token_budget >= 0"
  check (st.sched.running.length ≤ cfg.maxNumRunningReqs)
    "len(self.running) <= self.max_num_running_reqs"
  check (st.scheduledNewReqs.length + st.scheduledResumedReqs.length +
    st.scheduledRunningReqs.length ≤ st.sched.running.length)
    ("len(scheduled_new_reqs) + len(scheduled_resumed_reqs) + len(scheduled_running_reqs)" ++
      " <= len(self.running)")

end

end Step

/-! ### The output -/

/-- `NewRequestData`. -/
structure NewRequestData where
  reqId : ℕ
  request : EngineCoreRequest
  blockIds : List (List ℕ)
  numComputedTokens : ℤ

/-- `CachedRequestData`, as one record for each request. -/
structure CachedRequest where
  reqId : ℕ
  resumed : Bool
  newTokenIds : List ℕ
  allTokenIds : Option (List ℕ)
  newBlockIds : Option (List (List ℕ))
  numComputedTokens : ℤ
  numOutputTokens : ℤ
  deriving DecidableEq

/-- `SchedulerOutput`. -/
structure SchedulerOutput where
  scheduledNewReqs : List NewRequestData
  scheduledCachedReqs : List CachedRequest
  numScheduledTokens : AList fun _ : ℕ => ℤ
  totalNumScheduledTokens : ℤ
  scheduledSpecDecodeTokens : AList fun _ : ℕ => List ℤ
  scheduledEncoderInputs : AList fun _ : ℕ => List ℕ
  preemptedReqIds : Finset ℕ
  finishedReqIds : Finset ℕ
  freeEncoderMmHashes : List String

/-- The scheduled requests in the order in which they were scheduled. -/
def SchedulerOutput.scheduled (out : SchedulerOutput) : List ℕ := out.numScheduledTokens.keys.reverse

/-- The number of draft tokens that a step has for a request. -/
def SchedulerOutput.numDraftTokens (out : SchedulerOutput) (id : ℕ) : ℕ :=
  ((out.scheduledSpecDecodeTokens.lookup id).getD []).length

namespace Step

variable (cfg : SchedulerConfig) (st : Step K)

/-- `get_block_ids(allow_none=True)`. -/
def blockIdsAllowNone (blocks : List (List ℕ)) : Option (List (List ℕ)) :=
  if blocks.all List.isEmpty then none else some blocks

/-- The sampled tokens that the first stage of a pipeline has not seen. -/
def makeNewTokenIds (id : ℕ) : Except SchedulerError (List ℕ) := if cfg.usePp then do
    let r := st.request id
    let numScheduled ← getItem (st.numScheduledTokens.lookup id) id
    let numTokens := numScheduled - ((st.scheduledSpecDecodeTokens.lookup id).getD []).length
    return (r.allTokenIds.take (r.numComputedTokens + numTokens).toNat).drop
      r.numComputedTokens.toNat
  else .ok []

/-- The entry of `_make_cached_request_data` for one request. -/
def makeCachedRequest (resumed : Bool) (id : ℕ) : Except SchedulerError CachedRequest := do
  let r := st.request id
  let newTokenIds ← st.makeNewTokenIds cfg id
  let scheduledInPrevStep := decide (id ∈ st.sched.prevStepScheduledReqIds)
  check (resumed = true → scheduledInPrevStep = false) "not scheduled_in_prev_step"
  let newBlocks ← getItem (st.reqToNewBlocks.lookup id) id
  return {
    reqId := id
    resumed := resumed
    newTokenIds := newTokenIds
    allTokenIds := if scheduledInPrevStep then none else some r.allTokenIds
    newBlockIds := blockIdsAllowNone newBlocks
    numComputedTokens := r.numComputedTokens
    numOutputTokens := r.numOutputTokens + r.numOutputPlaceholders }

/-- `_make_cached_request_data`. -/
def makeCachedRequestData : Except SchedulerError (List CachedRequest) := do
  let running ← st.scheduledRunningReqs.mapM (st.makeCachedRequest cfg false)
  let resumed ← st.scheduledResumedReqs.mapM (st.makeCachedRequest cfg true)
  return running ++ resumed

/-- `NewRequestData.from_request`. -/
def makeNewRequest (id : ℕ) : Except SchedulerError NewRequestData := do
  let blocks ← getItem (st.reqToNewBlocks.lookup id) id
  return ⟨id, (st.request id).toEngineCoreRequest, blocks, (st.request id).numComputedTokens⟩

/-- Constructs the output, and records what was scheduled. -/
def makeOutput : Except SchedulerError (SchedulerOutput × Scheduler K) := do
  let newReqs ← st.scheduledNewReqs.mapM st.makeNewRequest
  let cached ← st.makeCachedRequestData cfg
  let (freed, encoder) := st.sched.encoderCacheManager.getFreedMmHashes
  return (
    { scheduledNewReqs := newReqs
      scheduledCachedReqs := cached
      numScheduledTokens := st.numScheduledTokens
      totalNumScheduledTokens := st.totalNumScheduledTokens
      scheduledSpecDecodeTokens := st.scheduledSpecDecodeTokens
      scheduledEncoderInputs := st.scheduledEncoderInputs
      preemptedReqIds := st.preemptedReqs.toFinset
      finishedReqIds := st.sched.finishedReqIds
      freeEncoderMmHashes := freed },
    { st.sched with
      encoderCacheManager := encoder
      prevStepScheduledReqIds := st.numScheduledTokens.keys.toFinset })

end Step

namespace Scheduler

variable (cfg : SchedulerConfig)

/-- `_free_encoder_inputs`. -/
def freeEncoderInputs (s : Scheduler K) (id : ℕ) : Scheduler K :=
  let request := s.heap id
  let inputIds := (s.encoderCacheManager.getCachedInputIds request).filter fun i =>
    match request.mmFeatures[i]? with
    | none => false
    | some feature => cfg.isEncoderDecoder ∧ 0 < request.numComputedTokens ∨
        ((feature.offset + feature.length : ℕ) : ℤ) ≤ request.numComputedTokens
  { s with encoderCacheManager := s.encoderCacheManager.freeEncoderInputs id request inputIds }

/-- `_update_after_schedule`, for one scheduled request. -/
def advance (s : Scheduler K) (id : ℕ) (numScheduledTokens : ℤ) :
    Except SchedulerError (Scheduler K) :=
  if id ∉ s.ids then .error (.raised (.keyError (toString id)))
  else
    let s := s.modify id fun r => r.advance numScheduledTokens
    .ok (if (s.heap id).hasEncoderInputs then s.freeEncoderInputs cfg id else s)

/-- The loop of `AsyncScheduler._update_after_schedule`, for one scheduled request. -/
def addPlaceholders (out : SchedulerOutput) (s : Scheduler K) (id : ℕ) : Scheduler K :=
  s.modify id fun r => r.addPlaceholders cfg.numSpecTokens (out.numDraftTokens id)

/-- `_update_after_schedule`, also of `AsyncScheduler`. -/
def updateAfterSchedule (out : SchedulerOutput) (s : Scheduler K) :
    Except SchedulerError (Scheduler K) := do
  let s ← out.numScheduledTokens.entries.reverse.foldlM
    (fun s entry => s.advance cfg entry.1 entry.2) s
  let s := { s with finishedReqIds := ∅ }
  return if cfg.isAsync then out.scheduled.foldl (addPlaceholders cfg out) s else s

variable [KVCacheManagerOps K]

/-- The loops of `schedule` and the assertions after them. -/
def scheduleLoops (env : ScheduleEnv) (s : Scheduler K) : Except SchedulerError (Step K) := do
  -- a round of the first loop goes on to the next request or takes one out of the list
  let st ← Step.runningLoop cfg env (2 * s.running.length + 1) 0 (Step.start cfg s)
  let st ← st.recordLoras cfg
  let st ← st.scheduleWaitingReqs cfg env
  let st := st.putBack
  st.checkConstraints cfg
  return st

/-- `schedule`. -/
def schedule (env : ScheduleEnv) (s : Scheduler K) :
    Except SchedulerError (SchedulerOutput × Scheduler K) := do
  let st ← s.scheduleLoops cfg env
  let (out, s) ← st.makeOutput cfg
  let s ← updateAfterSchedule cfg out s
  return (out, s)

end Scheduler

end LoptVllm.Sched
