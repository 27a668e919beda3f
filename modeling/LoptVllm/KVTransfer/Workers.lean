import Mathlib.Data.List.FinRange
import LoptVllm.KVTransfer.Aggregator

/-!
# The workers and the engine's step

In a step each worker calls its connector once. The report goes out with `execute_model`, or it is
parked and goes out with the `sample_tokens` that follows.
-/

namespace LoptVllm.KVTransfer

variable {ι S E : Type*}

/-- The ranks are ordered by pipeline stage, and a stage has `tp * pcp` of them. With `batchQueue`
the engine uses `step_with_batch_queue`. -/
structure ParallelConfig where
  tensorParallelSize : ℕ
  prefillContextParallelSize : ℕ
  pipelineParallelSize : ℕ
  isPoolingModel : Bool
  batchQueue : Bool
  tensorParallelSize_pos : 0 < tensorParallelSize
  prefillContextParallelSize_pos : 0 < prefillContextParallelSize
  pipelineParallelSize_pos : 0 < pipelineParallelSize

namespace ParallelConfig

variable (cfg : ParallelConfig)

/-- The ranks of a pipeline stage. -/
def stageSize : ℕ := cfg.tensorParallelSize * cfg.prefillContextParallelSize

def worldSize : ℕ := cfg.pipelineParallelSize * cfg.stageSize

/-- `_get_output_rank`: the first worker of the last pipeline stage. -/
def outputRank : ℕ := cfg.worldSize - cfg.tensorParallelSize * cfg.prefillContextParallelSize

/-- `get_pp_group().is_last_rank`. -/
def isLastRank (rank : ℕ) : Bool := rank / cfg.stageSize = cfg.pipelineParallelSize - 1

end ParallelConfig

/-- What the connector of a worker returns: `get_finished`, `get_block_ids_with_load_errors`, and
its statistics and events. -/
structure ConnectorReport (ι S E : Type*) where
  finishedSending : Option (List ι)
  finishedRecving : Option (List ι)
  blockIdsWithLoadErrors : List ℤ
  stats : Option S
  events : Option E

/-- `_get_kv_connector_output`. -/
def ConnectorReport.output (r : ConnectorReport ι S E) : KVConnectorOutput ι S E where
  finishedSending := r.finishedSending
  finishedRecving := r.finishedRecving
  kvConnectorStats := r.stats
  kvCacheEvents := r.events
  invalidBlockIds := r.blockIdsWithLoadErrors
  expectedFinishedCount := 0

/-- The output of a worker without tokens, with its report. -/
def passThrough (kv : KVConnectorOutput ι S E) : ModelRunnerOutput ι S E :=
  if kv.isEmpty then emptyModelRunnerOutput else ⟨some kv⟩

/-- The fields of `GPUModelRunner` between its calls: whether it has the state of a forward pass to
sample from, and the parked report. -/
structure Worker (ι S E : Type*) where
  executeModelState : Bool
  kvConnectorOutput : Option (KVConnectorOutput ι S E)

def Worker.new : Worker ι S E := ⟨false, none⟩

/-- `execute_model`. The worker sends the intermediate tensors of an inner stage to the next one and
returns `None`. -/
def Worker.executeModel (cfg : ParallelConfig) (rank : ℕ) (totalNumScheduledTokens : ℕ)
    (report : ConnectorReport ι S E) (w : Worker ι S E) :
    Except PyErr (Option (ModelRunnerOutput ι S E) × Worker ι S E) :=
  if w.executeModelState then
    .error (.runtimeError
      "State error: sample_tokens() must be called after execute_model() returns None.")
  else if totalNumScheduledTokens = 0 then
    -- `kv_connector_no_forward`
    .ok (some (passThrough report.output), w)
  else if !cfg.isLastRank rank then
    .ok (none, { w with kvConnectorOutput := report.output })
  else if cfg.isPoolingModel then
    .ok (some ⟨some report.output⟩, w)
  else
    .ok (none, ⟨true, report.output⟩)

/-- `sample_tokens`. -/
def Worker.sampleTokens (w : Worker ι S E) : Option (ModelRunnerOutput ι S E) × Worker ι S E :=
  if w.executeModelState then (some ⟨w.kvConnectorOutput⟩, ⟨false, none⟩)
  else
    -- nothing to sample: the report is passed through
    match w.kvConnectorOutput with
    | none => (none, ⟨false, none⟩)
    | some kv => (some (passThrough kv), ⟨false, none⟩)

/-- The workers by rank, and the aggregator of the executor. -/
structure Engine (ι S E : Type*) where
  workers : List (Worker ι S E)
  aggregator : KVOutputAggregator ι

/-- The expected count is the number of workers. -/
def Engine.new (cfg : ParallelConfig) : Engine ι S E :=
  ⟨List.replicate cfg.worldSize .new, .new cfg.worldSize⟩

/-- What happens in a step: the tokens that are scheduled, and the report of each worker. -/
structure StepInput (ι S E : Type*) where
  totalNumScheduledTokens : ℕ
  report : ℕ → ConnectorReport ι S E

variable [DecidableEq ι]

/-- `collective_rpc` with the aggregator: every worker replies. -/
def Engine.rpc (telemetry : Telemetry S E) (cfg : ParallelConfig) (e : Engine ι S E)
    (replies : List (Option (ModelRunnerOutput ι S E) × Worker ι S E)) :
    Except PyErr (Option (ModelRunnerOutput ι S E) × Engine ι S E) := do
  let (output, aggregator) ← e.aggregator.aggregate telemetry (replies.map Prod.fst) cfg.outputRank
  .ok (output, ⟨replies.map Prod.snd, aggregator⟩)

/-- The call of `execute_model`. -/
def Engine.executeModel (telemetry : Telemetry S E) (cfg : ParallelConfig) (input : StepInput ι S E)
    (e : Engine ι S E) : Except PyErr (Option (ModelRunnerOutput ι S E) × Engine ι S E) := do
  let replies ← e.workers.zipIdx.mapM fun (w, rank) =>
    w.executeModel cfg rank input.totalNumScheduledTokens (input.report rank)
  e.rpc telemetry cfg replies

/-- The call of `sample_tokens`. -/
def Engine.sampleTokens (telemetry : Telemetry S E) (cfg : ParallelConfig) (e : Engine ι S E) :
    Except PyErr (Option (ModelRunnerOutput ι S E) × Engine ι S E) :=
  e.rpc telemetry cfg (e.workers.map Worker.sampleTokens)

/-- `step_with_batch_queue` raises on an output that is `None`. -/
def requireOutput (r : Option (ModelRunnerOutput ι S E) × Engine ι S E) :
    Except PyErr (Option (ModelRunnerOutput ι S E) × Engine ι S E) :=
  match r.1 with
  | none => .error (.runtimeError "unexpected error")
  | some _ => .ok r

/-- What follows `execute_model`: `EngineCore.step` samples when it gave nothing, and
`step_with_batch_queue` when a generation model has scheduled tokens. -/
def Engine.finish (telemetry : Telemetry S E) (cfg : ParallelConfig) (input : StepInput ι S E)
    (r : Option (ModelRunnerOutput ι S E) × Engine ι S E) :
    Except PyErr (Option (ModelRunnerOutput ι S E) × Engine ι S E) :=
  if cfg.batchQueue then
    if cfg.isPoolingModel ∨ input.totalNumScheduledTokens = 0 then requireOutput r
    else (r.2.sampleTokens telemetry cfg).bind requireOutput
  else
    match r.1 with
    | some _ => .ok r
    | none => r.2.sampleTokens telemetry cfg

/-- The calls for one batch, and the output that the scheduler gets. -/
def Engine.step (telemetry : Telemetry S E) (cfg : ParallelConfig) (e : Engine ι S E)
    (input : StepInput ι S E) : Except PyErr (Option (ModelRunnerOutput ι S E) × Engine ι S E) :=
  (e.executeModel telemetry cfg input).bind (Engine.finish telemetry cfg input)

/-- The outputs of a run. -/
def Engine.run (telemetry : Telemetry S E) (cfg : ParallelConfig) :
    Engine ι S E → List (StepInput ι S E) →
      Except PyErr (List (Option (ModelRunnerOutput ι S E)) × Engine ι S E)
  | e, [] => .ok ([], e)
  | e, input :: inputs => do
    let (output, e) ← e.step telemetry cfg input
    let (outputs, e) ← Engine.run telemetry cfg e inputs
    .ok (output :: outputs, e)

end LoptVllm.KVTransfer
