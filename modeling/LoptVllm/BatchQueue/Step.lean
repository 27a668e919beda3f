import LoptVllm.Sched.Pending

/-!
# The batch queue of the engine

`EngineCore.step_with_batch_queue` keeps the batches that have been given to the worker in a queue.
It fills the queue before it waits for the oldest batch. A batch is sampled at once, or, if tokens
of its structured-output requests are still in flight, after the output of the oldest batch has been
processed.

The deque is the list of its elements, the oldest one first. A future is the call of the executor
that it belongs to.
-/

namespace LoptVllm.BatchQueue

open Sched

variable {K : Type}

/-! ### The scheduler -/

/-- `SchedulerOutput` with the flags about structured output. -/
structure BatchOutput extends SchedulerOutput where
  hasStructuredOutputRequests : Bool
  pendingStructuredOutputTokens : Bool

/-- The body of the loop of `AsyncScheduler._update_after_schedule`. -/
def addPlaceholders (cfg : SchedulerConfig) (out : SchedulerOutput) (x : Scheduler K × Bool × Bool)
    (id : ℕ) : Scheduler K × Bool × Bool :=
  let request := x.1.heap id
  (x.1.addPlaceholders cfg out id, x.2.1 || request.useStructuredOutput,
    x.2.2 || (request.useStructuredOutput && decide (0 < request.numOutputPlaceholders)))

/-- `_update_after_schedule`, with the flags. -/
def updateAfterSchedule (cfg : SchedulerConfig) (out : SchedulerOutput) (s : Scheduler K) :
    Except SchedulerError (BatchOutput × Scheduler K) := do
  let s ← out.numScheduledTokens.entries.reverse.foldlM
    (fun s entry => s.advance cfg entry.1 entry.2) s
  let s := { s with finishedReqIds := ∅ }
  let (s, hasStructured, pending) :=
    if cfg.isAsync then out.scheduled.foldl (addPlaceholders cfg out) (s, false, false)
    else (s, false, false)
  return (⟨out, hasStructured, pending⟩, s)

/-- `schedule`, with the flags. -/
def scheduleBatch [KVCacheManagerOps K] (cfg : SchedulerConfig) (env : ScheduleEnv)
    (s : Scheduler K) : Except SchedulerError (BatchOutput × Scheduler K) := do
  let st ← s.scheduleLoops cfg env
  let (out, s) ← st.makeOutput cfg
  updateAfterSchedule cfg out s

/-- `has_requests`. -/
def hasRequests (s : Scheduler K) : Bool :=
  0 < s.waiting.length + s.running.length ∨ 0 < s.finishedReqIds.card

variable (numAccepted : ℕ → List ℤ → ℕ)

/-- The body of the loop of `update_draft_token_ids_in_output`; `numAccepted` is the number of draft
tokens of a request that its grammar accepts. -/
def updateDraftInOutput (s : Scheduler K) (out : BatchOutput) (draft : ℕ × List ℤ) : BatchOutput :=
  match s.get? draft.1 with
  | none => out
  | some request =>
    if request.isFinished then out
    else match (out.scheduledSpecDecodeTokens.lookup draft.1).getD [] with
      | [] => out
      | placeholder :: placeholders =>
        let origNumSpecTokens := (placeholder :: placeholders).length
        let specTokenIds := draft.2.take origNumSpecTokens
        let specTokenIds := specTokenIds.take (numAccepted draft.1 specTokenIds)
        let specTokenIds :=
          specTokenIds ++ List.replicate (origNumSpecTokens - specTokenIds.length) (-1)
        { out with
          scheduledSpecDecodeTokens := out.scheduledSpecDecodeTokens.insert draft.1 specTokenIds }

/-- `update_draft_token_ids_in_output`. -/
def updateDraftTokenIdsInOutput (s : Scheduler K)
    (draftTokenIds : List (ℕ × List ℤ)) (out : BatchOutput) : BatchOutput :=
  draftTokenIds.foldl (updateDraftInOutput numAccepted s) out

/-! ### The worker -/

/-- A future, by the call of the executor that returned it: the execution of the `batch`-th batch,
or the sampling for it. -/
inductive ModelFuture
  | executeModel (batch : ℕ)
  | sampleTokens (batch : ℕ)
  deriving DecidableEq

/-- What the constructor of the engine fixes. There is a queue if the executor takes more than one
batch at a time, and it takes two with `AsyncScheduler`. -/
structure EngineConfig where
  cfg : SchedulerConfig
  batchQueueSize : ℕ
  isEcProducer : Bool
  isPoolingModel : Bool
  useSpecDecode : Bool
  one_lt_size : 1 < batchQueueSize
  size_of_async : cfg.isAsync = true → batchQueueSize = 2

/-- The results of the futures, for the batches as they were given to the worker. `none` stands for
an execution that failed. A worker that samples generates tokens as it is told. -/
structure Worker (c : EngineConfig) where
  result : ModelFuture → InFlight → Option ModelRunnerOutput
  generates : ∀ {future x modelOutput}, result future x = some modelOutput →
    c.isEcProducer = false → WorkerGenerates x modelOutput

/-! ### The engine -/

/-- The exceptions of the engine. -/
inductive EngineError
  | scheduler (e : SchedulerError)
  | assertion (condition : String)
  /-- `pop` from an empty queue. -/
  | emptyQueue
  /-- The execution of a batch failed. -/
  | executionFailed
  deriving DecidableEq

/-- A call of the scheduler. -/
def schedulerCall {α : Type} (x : Except SchedulerError α) : Except EngineError α :=
  x.mapError .scheduler

@[simp] theorem schedulerCall_eq_ok {α : Type} {x : Except SchedulerError α} {a : α} :
    schedulerCall x = .ok a ↔ x = .ok a := by
  cases x <;> simp [schedulerCall, Except.mapError]

/-- A batch that the worker executes, with the requests as they were when it was scheduled. -/
structure ExecutedBatch where
  schedulerOutput : BatchOutput
  execFuture : ModelFuture
  inFlight : InFlight

/-- An element of the batch queue. -/
structure QueuedBatch extends ExecutedBatch where
  future : ModelFuture

/-- A call of `get_grammar_bitmask`: the output, the requests, and the batches in the queue. -/
structure BitmaskCall where
  schedulerOutput : BatchOutput
  heap : ℕ → Request
  unprocessed : List InFlight

/-- A call of `update_from_output`, for a batch that was in the queue. -/
structure UpdateCall extends QueuedBatch where
  modelOutput : ModelRunnerOutput

/-- `EngineCore`, with the ids of the requests added so far. The lists are not part of the source:
the batches given to the worker, the bitmasks computed and the outputs processed so far. -/
structure EngineCore (K : Type) where
  scheduler : Scheduler K
  batchQueue : List QueuedBatch
  executed : List InFlight
  bitmasks : List BitmaskCall
  updates : List UpdateCall
  added : Finset ℕ

/-- What happens during a step: whether the oldest future is done, the aborts that have come in, the
answers of the connector, and the draft tokens of the worker. -/
structure StepEnv where
  schedule : ScheduleEnv
  done : Bool
  abortsQueue : List (List ℕ)
  requestFinished : RequestFinished
  draftTokenIds : Option (List (ℕ × List ℤ))
  numAccepted : ℕ → List ℤ → ℕ

variable (c : EngineConfig) (w : Worker c)

namespace EngineCore

variable (e : EngineCore K)

/-- Puts a batch into the queue. -/
def append (batch : ExecutedBatch) (future : ModelFuture) : EngineCore K :=
  { e with batchQueue := e.batchQueue ++ [⟨batch, future⟩] }

/-- `get_grammar_bitmask`. -/
def getGrammarBitmask (out : BatchOutput) : EngineCore K :=
  { e with
    bitmasks := e.bitmasks ++ [⟨out, e.scheduler.heap, e.batchQueue.map fun b => b.inFlight⟩] }

/-- `sample_tokens`, which samples for the batch that was executed last. -/
def sampleTokens : ModelFuture := .sampleTokens (e.executed.length - 1)

variable [KVCacheManagerOps K]

/-- Schedules a batch and gives it to the worker. -/
def executeBatch (e : EngineCore K) (env : StepEnv) :
    Except EngineError (EngineCore K × ExecutedBatch) := do
  let (out, s) ← schedulerCall (scheduleBatch c.cfg env.schedule e.scheduler)
  let x : InFlight := ⟨out.toSchedulerOutput, s.heap, ∅⟩
  return ({ e with
    scheduler := s
    executed := e.executed ++ [x] }, ⟨out, .executeModel e.executed.length, x⟩)

omit [KVCacheManagerOps K] in
/-- What is done with a batch that the worker executes: whether the model was executed, and the
batch if its sampling is deferred. -/
def submitBatch (e : EngineCore K) (batch : ExecutedBatch) :
    EngineCore K × Bool × Option ExecutedBatch :=
  let modelExecuted := !c.isEcProducer && decide (0 < batch.schedulerOutput.totalNumScheduledTokens)
  if c.isPoolingModel || !modelExecuted then
    (e.append batch batch.execFuture, modelExecuted, none)
  else if !batch.schedulerOutput.pendingStructuredOutputTokens then
    let e := e.getGrammarBitmask batch.schedulerOutput
    (e.append batch e.sampleTokens, modelExecuted, none)
  else (e, modelExecuted, some batch)

/-- `_process_aborts_queue`. -/
def processAbortsQueue (env : StepEnv) (s : Scheduler K) : Except SchedulerError (Scheduler K) :=
  if env.abortsQueue = [] then .ok s
  else s.finishRequests c.cfg env.requestFinished env.abortsQueue.flatten .finishedAborted

variable {c}

/-- Waits for the oldest batch, and processes its output. -/
def processOldest (e : EngineCore K) (env : StepEnv) :
    Except EngineError (EngineCore K × List EngineCoreOutput) :=
  match e.batchQueue with
  | [] => .error .emptyQueue
  | batch :: batchQueue =>
    match w.result batch.future batch.inFlight with
    | none => .error .executionFailed
    | some modelOutput => do
      let s ← schedulerCall (processAbortsQueue c env e.scheduler)
      let (s, outputs) ← schedulerCall (s.updateFromOutput c.cfg env.requestFinished
        batch.schedulerOutput.toSchedulerOutput modelOutput)
      return ({ e with
        scheduler := s
        batchQueue := batchQueue
        updates := e.updates ++ [⟨batch, modelOutput⟩] }, outputs)

variable (c)

omit [KVCacheManagerOps K] in
/-- The output of a deferred batch, with the draft tokens that the worker has made meanwhile. -/
def takeDrafts (e : EngineCore K) (env : StepEnv) (out : BatchOutput) :
    Except EngineError BatchOutput :=
  if !c.useSpecDecode then .ok out
  else match env.draftTokenIds with
    | none => .error (.assertion "draft_token_ids is not None")
    | some drafts => .ok (updateDraftTokenIdsInOutput env.numAccepted e.scheduler drafts out)

omit [KVCacheManagerOps K] in
/-- Samples for the deferred batch, if there is one. -/
def sampleDeferred (e : EngineCore K) (env : StepEnv) :
    Option ExecutedBatch → Except EngineError (EngineCore K)
  | none => .ok e
  | some batch => do
    let out ← e.takeDrafts c env batch.schedulerOutput
    let e := e.getGrammarBitmask out
    return e.append { batch with schedulerOutput := out } e.sampleTokens

/-- `step_with_batch_queue`: the engine, the outputs if there are any, and whether the model was
executed. -/
def stepWithBatchQueue (e : EngineCore K) (env : StepEnv) :
    Except EngineError (EngineCore K × Option (List EngineCoreOutput) × Bool) :=
  if c.batchQueueSize ≤ e.batchQueue.length then
    .error (.assertion "len(batch_queue) < self.batch_queue_size")
  else if hasRequests e.scheduler then do
    let (e, batch) ← e.executeBatch c env
    let (e, modelExecuted, deferred) := e.submitBatch c batch
    -- the queue is filled before the engine waits for the oldest batch
    if deferred.isNone ∧ modelExecuted = true ∧ e.batchQueue.length < c.batchQueueSize ∧
        env.done = false then return (e, none, true)
    else do
      let (e, outputs) ← e.processOldest w env
      let e ← e.sampleDeferred c env deferred
      return (e, some outputs, modelExecuted)
  else if e.batchQueue.isEmpty then .ok (e, none, false)
  else do
    let (e, outputs) ← e.processOldest w env
    return (e, some outputs, false)

omit [KVCacheManagerOps K] in
/-- `post_step`. -/
def postStep (e : EngineCore K) (env : StepEnv) (modelExecuted : Bool) : EngineCore K :=
  if !c.cfg.isAsync && c.useSpecDecode && modelExecuted then
    match env.draftTokenIds with
    | none => e
    | some drafts => { e with
        scheduler := e.scheduler.updateDraftTokenIds
          (fun id tokens => tokens.take (env.numAccepted id tokens)) drafts }
  else e

/-- `_process_engine_step`. -/
def processEngineStep (e : EngineCore K) (env : StepEnv) : Except EngineError (EngineCore K) := do
  let (e, _, modelExecuted) ← e.stepWithBatchQueue c w env
  return e.postStep c env modelExecuted

/-! ### Runs -/

/-- What happens to an engine: requests are added and aborted between its steps. -/
inductive Call
  | addRequest (id : ℕ) (request : EngineCoreRequest)
  | abortRequests (requestFinished : RequestFinished) (requestIds : List ℕ)
  | processEngineStep (env : StepEnv)

/-- The engine after a call. -/
def step (e : EngineCore K) : Call → Except EngineError (EngineCore K)
  | .addRequest id request => .ok { e with
      scheduler := e.scheduler.addRequest id request
      added := insert id e.added }
  | .abortRequests requestFinished requestIds => do
    let s ← schedulerCall
      (e.scheduler.finishRequests c.cfg requestFinished requestIds .finishedAborted)
    return { e with scheduler := s }
  | .processEngineStep env => e.processEngineStep c w env

omit [KVCacheManagerOps K] in
/-- Ids are not used a second time. -/
def Admissible (e : EngineCore K) : Call → Prop
  | .addRequest id _ => id ∉ e.added
  | .abortRequests _ _ | .processEngineStep _ => True

instance (e : EngineCore K) (call : Call) : Decidable (e.Admissible call) := match call with
  | .addRequest id _ => inferInstanceAs (Decidable (id ∉ e.added))
  | .abortRequests _ _ | .processEngineStep _ => inferInstanceAs (Decidable True)

/-- An engine without requests. -/
def new (kv : K) (encoder : EncoderCacheManager) (heap : ℕ → Request) : EngineCore K :=
  ⟨.new kv encoder heap, [], [], [], [], ∅⟩

/-- The engine at the end of a run whose calls all meet the condition `P`. -/
inductive Run (P : EngineCore K → Call → Prop) : EngineCore K → Prop
  | new (kv : K) (encoder : EncoderCacheManager) (heap : ℕ → Request) : Run P (new kv encoder heap)
  | step {e e' : EngineCore K} {call : Call} (h : Run P e) (hcall : e.Admissible call)
      (hP : P e call) (hs : e.step c w call = .ok e') : Run P e'

/-- A sequence of calls that are all admissible and meet the condition. -/
def runCalls (P : EngineCore K → Call → Prop) [∀ e call, Decidable (P e call)] :
    List Call → EngineCore K → Except EngineError (EngineCore K)
  | [], e => .ok e
  | call :: calls, e =>
    if e.Admissible call ∧ P e call then do
      let e ← e.step c w call
      runCalls P calls e
    else .error (.assertion "the call is admissible and meets the condition")

variable {c w} {P : EngineCore K → Call → Prop}

theorem Run.runCalls [∀ e call, Decidable (P e call)] {calls : List Call} :
    ∀ {e e' : EngineCore K}, Run c w P e → runCalls c w P calls e = .ok e' → Run c w P e' := by
  induction calls with
  | nil =>
    intro e e' h hrun
    cases hrun
    exact h
  | cons call calls ih =>
    intro e e' h hrun
    unfold EngineCore.runCalls at hrun
    split_ifs at hrun with hc
    obtain ⟨e₁, hs, hrun⟩ := bind_ok.1 hrun
    exact ih (h.step hc.1 hc.2 hs) hrun

end EngineCore

end LoptVllm.BatchQueue
