import LoptVllm.Python
import Mathlib.Data.Rat.Init

/-!
# The outputs of a request

The output processor puts the outputs into the collector of the request, where an output is merged
into one that waits for the consumer. The children of a parallel sampling request share their parent
and its collector.

A list that two objects share is named by its owner, and its entries are in `Shared`: the list of a
logprobs processor, which is handed out without a copy as long as it is empty, and the aggregator of a
parent.
-/

namespace LoptVllm.Frontend

open Function

/-- `RequestOutputKind`. -/
inductive RequestOutputKind
  | cumulative
  | delta
  | finalOnly
  deriving DecidableEq

/-- `FinishReason`. -/
inductive FinishReason
  | stop
  | length
  | abort
  | error
  deriving DecidableEq

/-- A stop reason is a stop string or a stop token. -/
inductive StopReason (α : Type)
  | text (s : List α)
  | token (id : ℕ)
  deriving DecidableEq

/-- An internal id: one that `assign_request_id` has made, or that of a child,
`f"{index}_{request_id}"`. -/
inductive RequestId
  | assigned (n : ℕ)
  | child (index : ℕ) (requestId : RequestId)
  deriving DecidableEq

/-- A list of logprobs: one of its own, or the list of the logprobs processor of a request. -/
inductive SampleLogprobs (L : Type)
  | own (l : List L)
  | shared (requestId : RequestId)

/-- `CompletionOutput`. The token ids are those at the time when the output is made. -/
structure CompletionOutput (α L : Type) where
  index : ℕ
  text : List α
  tokenIds : List ℕ
  logprobs : Option (SampleLogprobs L)
  finishReason : Option FinishReason
  stopReason : Option (StopReason α)

/-- `CompletionOutput.finished`. -/
def CompletionOutput.finished {α L : Type} (c : CompletionOutput α L) : Bool := c.finishReason.isSome

/-- The list of completions of an output: one of its own, or the `output_aggregator` of a parent. -/
inductive Completions (α L : Type)
  | own (l : List (Option (CompletionOutput α L)))
  | aggregator (requestId : RequestId)

/-- `RequestOutput`. -/
structure RequestOutput (α L : Type) where
  requestId : ℕ
  outputs : Completions α L
  finished : Bool

/-- `PoolingRequestOutput`. -/
structure PoolingRequestOutput where
  requestId : ℕ
  outputs : List ℚ
  finished : Bool

/-- What is put into a collector. -/
inductive Output (α L : Type)
  | completion (o : RequestOutput α L)
  | pooling (o : PoolingRequestOutput)

/-- `ParentRequest`. The set `child_requests` is listed in an order of no meaning. -/
structure ParentRequest (α L : Type) where
  requestId : RequestId
  externalReqId : ℕ
  n : ℕ
  outputKind : RequestOutputKind
  childRequests : List RequestId
  outputAggregator : List (Option (CompletionOutput α L))

/-- The objects that are shared. -/
structure Shared (α L : Type) where
  parents : RequestId → ParentRequest α L
  logprobs : RequestId → List L

variable {α L : Type}

section

variable (h : Shared α L)
include h

/-- The entries of a list of logprobs. -/
def SampleLogprobs.entries : SampleLogprobs L → List L
  | .own l => l
  | .shared requestId => h.logprobs requestId

/-- The entries of a list of completions; an aggregator starts with entries that are `None`. -/
def Completions.entries : Completions α L → List (Option (CompletionOutput α L))
  | .own l => l
  | .aggregator requestId => (h.parents requestId).outputAggregator

/-- A shared list of logprobs is changed. -/
def Shared.setLogprobs (requestId : RequestId) (l : List L) : Shared α L :=
  { h with logprobs := update h.logprobs requestId l }

/-- A parent is changed. -/
def Shared.setParent (p : ParentRequest α L) : Shared α L :=
  { h with parents := update h.parents p.requestId p }

end

/-! ### `RequestOutput.add` -/

section

variable (h : Shared α L)
include h

/-- `completion.logprobs.extend(l)`. -/
def SampleLogprobs.extend (l : List L) :
    SampleLogprobs L → SampleLogprobs L × Shared α L
  | .own l' => (.own (l' ++ l), h)
  | .shared requestId =>
    (.shared requestId, h.setLogprobs requestId (h.logprobs requestId ++ l))

/-- The logprobs of a merged completion. -/
def mergeLogprobs (logprobs next : Option (SampleLogprobs L)) :
    Except PyErr (Option (SampleLogprobs L) × Shared α L) :=
  match next with
  | none => .ok (logprobs, h)
  | some next =>
    if next.entries h = [] then .ok (logprobs, h)
    else match logprobs with
      | none => .error (.assertionError "")
      | some logprobs =>
        let (logprobs, h) := logprobs.extend h (next.entries h)
        .ok (some logprobs, h)

/-- Outputs with the same index are merged. -/
def CompletionOutput.merge (c next : CompletionOutput α L) :
    Except PyErr (CompletionOutput α L × Shared α L) := do
  let (logprobs, h) ← mergeLogprobs h c.logprobs next.logprobs
  return ({ c with
    text := c.text ++ next.text
    tokenIds := c.tokenIds ++ next.tokenIds
    logprobs := logprobs
    finishReason := next.finishReason
    stopReason := next.stopReason }, h)

/-- A list of completions is changed. -/
def Completions.setEntries (l : List (Option (CompletionOutput α L))) :
    Completions α L → Completions α L × Shared α L
  | .own _ => (.own l, h)
  | .aggregator requestId =>
    (.aggregator requestId, h.setParent { h.parents requestId with outputAggregator := l })

end

/-- The position of the first completion that has the index of the next one. -/
def findCompletion (next : Option (CompletionOutput α L)) :
    List (Option (CompletionOutput α L)) → Except PyErr (Option ℕ)
  | [] => .ok none
  | c :: cs =>
    match c, next with
    | some c, some n =>
      if c.index = n.index then .ok (some 0)
      else (findCompletion next cs).map (Option.map (· + 1))
    | _, _ => .error (.attributeError "'NoneType' object has no attribute 'index'")

/-- A round of the loop of `add` over the completions of the next output. -/
def addCompletion (aggregate : Bool) (outputs : Completions α L) (h : Shared α L)
    (next : Option (CompletionOutput α L)) : Except PyErr (Completions α L × Shared α L) := do
  let cs := outputs.entries h
  match ← findCompletion next cs with
  | none => return outputs.setEntries h (cs ++ [next])
  | some i =>
    match aggregate, cs[i]?, next with
    | true, some (some c), some next =>
      let (c, h) ← c.merge h next
      return outputs.setEntries h (cs.set i (some c))
    | _, _, _ => return outputs.setEntries h (cs.set i next)

/-- `RequestOutput.add`. -/
def RequestOutput.add (o next : RequestOutput α L) (aggregate : Bool) (h : Shared α L) :
    Except PyErr (RequestOutput α L × Shared α L) := do
  let (outputs, h) ← (next.outputs.entries h).foldlM
    (fun s c => addCompletion aggregate s.1 s.2 c) (o.outputs, h)
  return ({ o with outputs := outputs, finished := o.finished || next.finished }, h)

/-! ### `RequestOutputCollector` -/

/-- `RequestOutputCollector`; the output is there when `ready` is set. -/
structure RequestOutputCollector (α L : Type) where
  aggregate : Bool
  output : Option (Output α L)

namespace RequestOutputCollector

/-- `RequestOutputCollector(output_kind, …)`. -/
def new (outputKind : RequestOutputKind) : RequestOutputCollector α L := ⟨outputKind = .delta, none⟩

variable (q : RequestOutputCollector α L)

/-- `put`, of an output. -/
def put (h : Shared α L) (output : Output α L) :
    Except PyErr (RequestOutputCollector α L × Shared α L) :=
  match q.output, output with
  | none, _ => .ok ({ q with output := some output }, h)
  | some (.completion old), .completion next => do
    let (merged, h) ← old.add next q.aggregate h
    return ({ q with output := some (.completion merged) }, h)
  | some (.pooling _), .pooling _ => .ok ({ q with output := some output }, h)
  | some _, _ => .ok (q, h)

/-- `get_nowait`. -/
def getNowait : Option (Output α L) × RequestOutputCollector α L :=
  (q.output, { q with output := none })

end RequestOutputCollector

/-! ### `ParentRequest` -/

namespace ParentRequest

/-- `ParentRequest(request)`. -/
def new (requestId : RequestId) (externalReqId n : ℕ) (outputKind : RequestOutputKind) :
    ParentRequest α L where
  requestId := requestId
  externalReqId := externalReqId
  n := n
  outputKind := outputKind
  childRequests := []
  outputAggregator := if outputKind = .finalOnly then List.replicate n none else []

variable (p : ParentRequest α L)

/-- `get_child_info`, without the sampling parameters of the child. -/
def getChildInfo (index : ℕ) : RequestId × ParentRequest α L :=
  let childReqId := .child index p.requestId
  (childReqId, { p with childRequests := p.childRequests.insert childReqId })

/-- `get_outputs`. -/
def getOutputs (childRequestId : RequestId) (c : CompletionOutput α L) :
    Except PyErr ((Completions α L × Bool) × ParentRequest α L) :=
  let alreadyFinishedAndReturned := c.finished ∧ childRequestId ∉ p.childRequests
  let p := if c.finished then
    { p with childRequests := p.childRequests.erase childRequestId } else p
  if p.outputKind ≠ .finalOnly then
    .ok ((.own (if alreadyFinishedAndReturned then [] else [some c]), p.childRequests = []), p)
  else if c.index < p.outputAggregator.length then
    let p := { p with outputAggregator := p.outputAggregator.set c.index (some c) }
    .ok ((if p.childRequests = [] then .aggregator p.requestId else .own [],
      p.childRequests = []), p)
  else .error (.indexError "list assignment index out of range")

end ParentRequest

end LoptVllm.Frontend
