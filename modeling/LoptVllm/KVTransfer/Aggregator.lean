import Mathlib.Data.List.Lattice
import LoptVllm.Lib.OrderedDict
import LoptVllm.Python

/-!
# `KVOutputAggregator`

Every worker's connector reports the requests whose transfer it has finished. The aggregator counts
the reports of a request and hands it on when all workers have reported it.

A Python set is the list of its elements. The statistics and the events of a connector are values
of one type with the operations of their class: two of them are instances of each other's class.
-/

namespace LoptVllm.KVTransfer

variable {ι S E : Type*}

/-- `KVConnectorOutput`: request ids, statistics, events, and blocks that failed to load. -/
structure KVConnectorOutput (ι S E : Type*) where
  finishedSending : Option (List ι)
  finishedRecving : Option (List ι)
  kvConnectorStats : Option S
  kvCacheEvents : Option E
  invalidBlockIds : List ℤ
  expectedFinishedCount : ℤ

/-- `not s`, for a set or `None`. -/
def falsy (s : Option (List ι)) : Bool := (s.getD []).isEmpty

def KVConnectorOutput.isEmpty (kv : KVConnectorOutput ι S E) : Bool :=
  falsy kv.finishedSending && falsy kv.finishedRecving && kv.kvConnectorStats.isNone &&
    kv.kvCacheEvents.isNone && kv.invalidBlockIds.isEmpty

/-- The part of a model runner's output that the aggregator looks at. -/
structure ModelRunnerOutput (ι S E : Type*) where
  kvConnectorOutput : Option (KVConnectorOutput ι S E)

/-- `EMPTY_MODEL_RUNNER_OUTPUT`. -/
def emptyModelRunnerOutput : ModelRunnerOutput ι S E := ⟨none⟩

/-- The operations of the classes of a connector's statistics and events: `stats.aggregate(other)`,
and `add_events(other.get_all_events())` with `increment_workers(1)`. -/
structure Telemetry (S E : Type*) where
  aggregateStats : S → S → S
  addEvents : E → E → E

/-- The requests that some worker has yet to report, with the number of these workers. -/
structure KVOutputAggregator (ι : Type*) where
  recvRemainingCount : OrderedDict ι ℤ
  sendRemainingCount : OrderedDict ι ℤ
  expectedFinishedCount : ℤ

/-- `KVOutputAggregator(expected_finished_count)`. -/
def KVOutputAggregator.new (expectedFinishedCount : ℤ) : KVOutputAggregator ι :=
  ⟨∅, ∅, expectedFinishedCount⟩

variable [DecidableEq ι]

/-- `finished_set.add(req_id)`. -/
def setAdd (s : List ι) (a : ι) : List ι := if a ∈ s then s else s ++ [a]

/-- One round of the loop in `update_finished_set`. -/
def countReport (expected : ℤ) (st : OrderedDict ι ℤ × List ι) (reqId : ι) :
    OrderedDict ι ℤ × List ι :=
  let remainingCount := (st.1.lookup reqId).getD expected
  if remainingCount - 1 = 0 then (st.1.erase reqId, setAdd st.2 reqId)
  else (st.1.setItem reqId (remainingCount - 1), st.2)

/-- `update_finished_set`: the counts and the finished requests. -/
def updateFinishedSet (expected : ℤ) (reqIds : Option (List ι))
    (st : OrderedDict ι ℤ × List ι) : OrderedDict ι ℤ × List ι :=
  (reqIds.getD []).foldl (countReport expected) st

/-- The local variables of `aggregate`. -/
structure Accumulated (ι S E : Type*) where
  aggregator : KVOutputAggregator ι
  finishedSending : List ι
  finishedRecving : List ι
  aggregatedKvConnectorStats : Option S
  combinedKvCacheEvents : Option E
  invalidBlockIds : List ℤ

/-- The first value is the accumulator of the others. -/
def combine {α : Type*} (f : α → α → α) (acc new : Option α) : Option α := match acc, new with
  | none, new => new
  | some a, some b => some (f a b)
  | some a, none => some a

variable (telemetry : Telemetry S E) (acc : Accumulated ι S E)

/-- One worker's report. -/
def Accumulated.add (kv : KVConnectorOutput ι S E) : Accumulated ι S E :=
  -- the worker may update the expected number of finished transfers
  let expected :=
    if 0 < kv.expectedFinishedCount ∧ kv.expectedFinishedCount ≠ acc.aggregator.expectedFinishedCount
    then kv.expectedFinishedCount else acc.aggregator.expectedFinishedCount
  let sending := updateFinishedSet expected kv.finishedSending
    (acc.aggregator.sendRemainingCount, acc.finishedSending)
  let recving := updateFinishedSet expected kv.finishedRecving
    (acc.aggregator.recvRemainingCount, acc.finishedRecving)
  { aggregator := ⟨recving.1, sending.1, expected⟩
    finishedSending := sending.2
    finishedRecving := recving.2
    aggregatedKvConnectorStats :=
      combine telemetry.aggregateStats acc.aggregatedKvConnectorStats kv.kvConnectorStats
    combinedKvCacheEvents := combine telemetry.addEvents acc.combinedKvCacheEvents kv.kvCacheEvents
    invalidBlockIds := acc.invalidBlockIds ∪ kv.invalidBlockIds }

/-- The body of the loop over the outputs. -/
def Accumulated.addOutput (output : Option (ModelRunnerOutput ι S E)) : Except PyErr (Accumulated ι S E) :=
  match output with
  | none => .error (.assertionError "")
  | some output =>
    match output.kvConnectorOutput with
    | none => .ok acc
    | some kv => .ok (acc.add telemetry kv)

/-- `s or None`. -/
def orNone (s : List ι) : Option (List ι) := if s.isEmpty then none else some s

/-- `aggregate(outputs, output_rank)`. -/
def KVOutputAggregator.aggregate (aggregator : KVOutputAggregator ι)
    (outputs : List (Option (ModelRunnerOutput ι S E))) (outputRank : ℕ) :
    Except PyErr (Option (ModelRunnerOutput ι S E) × KVOutputAggregator ι) :=
  match outputs[outputRank]? with
  | none => .error (.indexError "list index out of range")
  | some none => .ok (none, aggregator)
  | some (some _) => do
    let acc ← outputs.foldlM (Accumulated.addOutput telemetry) ⟨aggregator, [], [], none, none, []⟩
    let kv := {
      finishedSending := orNone acc.finishedSending
      finishedRecving := orNone acc.finishedRecving
      kvConnectorStats := acc.aggregatedKvConnectorStats
      kvCacheEvents := acc.combinedKvCacheEvents
      invalidBlockIds := acc.invalidBlockIds
      expectedFinishedCount := acc.aggregator.expectedFinishedCount }
    .ok (some ⟨some kv⟩, acc.aggregator)

end LoptVllm.KVTransfer
