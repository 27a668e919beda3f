import LoptVllm.Frontend.RequestState
import LoptVllm.Lib.OrderedDict
import Mathlib.Data.Finset.Erase
import Mathlib.Data.Finset.Insert

/-!
# The output processor
-/

namespace LoptVllm.Frontend

open Function

variable {α L : Type}

/-- The order in which the elements of a set are listed. -/
structure SetOrder (β : Type) where
  list : List β → List β
  perm : ∀ l, (list l).Perm l

/-- `OutputProcessor`, with the objects that its requests share. A parent that is a value of
`parent_requests` is known by its id. -/
structure OutputProcessor (α L : Type) where
  streamInterval : ℕ
  requestStates : OrderedDict RequestId (RequestState α)
  parentRequests : Finset RequestId
  externalReqIds : OrderedDict ℕ (List RequestId)
  requestsDrained : Bool
  shared : Shared α L
  queues : RequestId → RequestOutputCollector α L

namespace OutputProcessor

/-- `OutputProcessor(…)`. -/
def new (streamInterval : ℕ) : OutputProcessor α L where
  streamInterval := streamInterval
  requestStates := ∅
  parentRequests := ∅
  externalReqIds := ∅
  requestsDrained := true
  shared := ⟨fun requestId => .new requestId 0 0 .cumulative, fun _ => []⟩
  queues := fun _ => .new .cumulative

variable (p : OutputProcessor α L)

/-- `external_req_ids[external_req_id]`; the dictionary makes an empty list for a new key. -/
def internalIds (externalReqId : ℕ) : List RequestId :=
  (p.externalReqIds.lookup externalReqId).getD []

/-- `add_request`. -/
def addRequest (request : EngineCoreRequest α) (parentReq : Option RequestId) (requestIndex : ℕ)
    (queue : Option RequestId) : Except PyErr (OutputProcessor α L) :=
  if request.requestId ∈ p.requestStates then .error (.valueError "Request id already running.")
  else
    let reqState : RequestState α :=
      .fromNewRequest request parentReq requestIndex queue p.streamInterval
    .ok { p with
      requestsDrained := false
      requestStates := p.requestStates.setItem request.requestId reqState
      parentRequests := match parentReq with
        | some parent => insert parent p.parentRequests
        | none => p.parentRequests
      externalReqIds := p.externalReqIds.setItem reqState.externalReqId
        (p.internalIds reqState.externalReqId ++ [request.requestId])
      shared := p.shared.setLogprobs request.requestId [] }

/-- An internal id is removed from the list of its external id, and the list when it is empty. -/
def removeInternalId (externalReqId : ℕ) (requestId : RequestId) :
    Except PyErr (OutputProcessor α L) :=
  let internalIds := p.internalIds externalReqId
  if requestId ∈ internalIds then .ok { p with
    externalReqIds := if internalIds.erase requestId = [] then p.externalReqIds.erase externalReqId
      else p.externalReqIds.setItem externalReqId (internalIds.erase requestId) }
  else .error (.valueError "list.remove(x): x not in list")

/-- `if not self.request_states: self._requests_drained.set()`. -/
def setDrained : OutputProcessor α L :=
  if p.requestStates.entries = [] then { p with requestsDrained := true } else p

/-- An output is put into a queue. -/
def putOutput (queue : RequestId) (output : Output α L) : Except PyErr (OutputProcessor α L) := do
  let (q, h) ← (p.queues queue).put p.shared output
  return { p with queues := update p.queues queue q, shared := h }

/-! ### `process_outputs` -/

/-- What `process_outputs` returns. -/
structure Returned (α L : Type) where
  requestOutputs : List (Output α L)
  reqsToAbort : List RequestId

/-- Step 4 of `process_outputs`: an output is put into the queue, or returned. -/
def deliver (queue : Option RequestId) (output : Option (Output α L)) :
    Except PyErr (List (Output α L) × OutputProcessor α L) :=
  match output, queue with
  | none, _ => .ok ([], p)
  | some output, none => .ok ([output], p)
  | some output, some queue => do
    let p ← p.putOutput queue output
    return ([], p)

/-- The end of a round of `process_outputs`: a completed request is freed. -/
def freeCompleted (reqId : RequestId) (s : RequestState α) :
    Except PyErr (OutputProcessor α L) := do
  let p ← { p with requestStates := p.requestStates.erase reqId }.removeInternalId
    s.externalReqId reqId
  let p := match s.parentReq with
    | some parent =>
      if (p.shared.parents parent).childRequests = [] then
        { p with parentRequests := p.parentRequests.erase parent }
      else p
    | none => p
  return p.setDrained

variable [DecidableEq α]

/-- A round of `process_outputs`. -/
def processOutput (r : Returned α L) (o : EngineCoreOutput α L) :
    Except PyErr (Returned α L × OutputProcessor α L) :=
  match p.requestStates.lookup o.requestId with
  | none => .ok (r, p)
  | some s => do
    let ((finishReason, stopReason), s, h) ← s.updateFromOutput p.shared o
    let (output, s, h) ← s.makeRequestOutput h o.newTokenIds o.poolingOutput finishReason stopReason
    let p := { p with requestStates := p.requestStates.setItem o.requestId s, shared := h }
    let (outputs, p) ← p.deliver s.queue output
    let r := { r with requestOutputs := r.requestOutputs ++ outputs }
    match finishReason with
    | none => return (r, p)
    | some _ =>
      let p ← p.freeCompleted o.requestId s
      if o.finishReason = none then
        return ({ r with reqsToAbort := r.reqsToAbort ++ [o.requestId] }, p)
      else return (r, p)

/-- `process_outputs`. -/
def processOutputs (outputs : List (EngineCoreOutput α L)) :
    Except PyErr (Returned α L × OutputProcessor α L) :=
  outputs.foldlM (fun rp o => rp.2.processOutput rp.1 o) (⟨[], []⟩, p)

end OutputProcessor

/-! ### `abort_requests` -/

/-- The ids that are passed to `abort_requests`, with `internal`. -/
inductive AbortIds
  | internal (requestIds : List RequestId)
  | external (requestIds : List ℕ)

namespace OutputProcessor

variable (p : OutputProcessor α L)

/-- A round of the first loop of `abort_requests`, on an internal id. -/
def unlist (requestId : RequestId) : Except PyErr (OutputProcessor α L) :=
  match p.requestStates.lookup requestId with
  | some s => p.removeInternalId s.externalReqId requestId
  | none => .ok p

/-- The first loop of `abort_requests`: the internal ids are collected, and removed from the lists of
the external ids. -/
def collectInternalIds : AbortIds → Except PyErr (List RequestId × OutputProcessor α L)
  | .internal requestIds => do
    let p ← requestIds.foldlM unlist p
    return (requestIds, p)
  | .external requestIds =>
    .ok (requestIds.foldl (fun (internalReqIds, p) requestId =>
      (internalReqIds ++ p.internalIds requestId,
        { p with externalReqIds := p.externalReqIds.erase requestId })) ([], p))

/-- The final output of a request that is aborted. -/
def abortState (s : RequestState α) : Except PyErr (OutputProcessor α L) := match s.queue with
  | none => .ok p
  | some queue => do
    let (output, _, h) ← s.makeRequestOutput p.shared []
      (if s.detokenizer.isNone then some [] else none) (some .abort) none
    let p := { p with shared := h }
    match output with
    | none => return p
    | some output => p.putOutput queue output

/-- A round of the second loop of `abort_requests`: a request is aborted, or the children of a
parent. -/
def abortRound (order : SetOrder RequestId) (abortChildren : OutputProcessor α L → AbortIds →
      Except PyErr (List RequestId × OutputProcessor α L))
    (r : List RequestId × OutputProcessor α L) (requestId : RequestId) :
    Except PyErr (List RequestId × OutputProcessor α L) :=
  let (requestIdsToAbort, p) := r
  match p.requestStates.lookup requestId with
  | some s => do
    let p ← { p with requestStates := p.requestStates.erase requestId }.abortState s
    return (requestIdsToAbort ++ [requestId], p)
  | none =>
    if requestId ∈ p.parentRequests then do
      let childRequests := (p.shared.parents requestId).childRequests
      let (childReqs, p) ← if childRequests = [] then .ok ([], p)
        else abortChildren p (.internal (order.list childRequests))
      return (requestIdsToAbort ++ childReqs,
        { p with parentRequests := p.parentRequests.erase requestId })
    else .ok (requestIdsToAbort, p)

/-- `abort_requests`, with the depth that is left for its recursion. -/
def abortRequests (order : SetOrder RequestId) :
    ℕ → OutputProcessor α L → AbortIds → Except PyErr (List RequestId × OutputProcessor α L)
  | 0, _, _ => .error (.runtimeError "maximum recursion depth exceeded")
  | depth + 1, p, ids => do
    let (internalReqIds, p) ← p.collectInternalIds ids
    let (requestIdsToAbort, p) ←
      internalReqIds.foldlM (abortRound order (abortRequests order depth)) ([], p)
    return (requestIdsToAbort, p.setDrained)

end OutputProcessor

/-! ### The front-end -/

/-- `AsyncLLM.add_request` of a request with several children, between two of them. -/
structure FanOut (α : Type) where
  request : EngineCoreRequest α
  queue : Option RequestId
  idx : ℕ

/-- The front-end: `AsyncLLM`, which has a queue for each request, or `LLMEngine`, which has none.
What the consumer of a queue has received is kept as it was when it was taken. -/
structure EngineFrontend (α L : Type) where
  outputProcessor : OutputProcessor α L
  fanOuts : RequestId → Option (FanOut α)
  received : RequestId → List (Output α L)
  /-- The ids that `assign_request_id` has made. -/
  assigned : Finset ℕ

/-- A call of the front-end. A list of outputs is processed one by one. -/
inductive FrontendCall (α L : Type)
  | addRequest (request : EngineCoreRequest α) (queue : Bool)
  | fanOut (request : EngineCoreRequest α) (queue : Bool)
  | addChild (requestId : RequestId)
  | processOutput (o : EngineCoreOutput α L)
  | abort (ids : AbortIds)
  | get (queue : RequestId)

/-- The lists of an output, copied. -/
def CompletionOutput.copy (h : Shared α L) (c : CompletionOutput α L) : CompletionOutput α L :=
  { c with logprobs := c.logprobs.map fun l => .own (l.entries h) }

/-- The lists of an output, copied. -/
def Output.copy (h : Shared α L) : Output α L → Output α L
  | .completion o => .completion { o with
      outputs := .own ((o.outputs.entries h).map (Option.map (CompletionOutput.copy h))) }
  | .pooling o => .pooling o

namespace EngineFrontend

/-- No request has been added. -/
def new (streamInterval : ℕ) : EngineFrontend α L :=
  ⟨.new streamInterval, fun _ => none, fun _ => [], ∅⟩

variable (f : EngineFrontend α L)

/-- A collector is made for a request. -/
def newQueue (request : EngineCoreRequest α) : OutputProcessor α L :=
  { f.outputProcessor with
    queues := update f.outputProcessor.queues request.requestId (.new request.outputKind) }

/-- The id of a request is taken. -/
def take (requestId : RequestId) : Finset ℕ := match requestId with
  | .assigned n => insert n f.assigned
  | .child _ _ => f.assigned

/-- The next child of a parallel sampling request is added. -/
def addChild (requestId : RequestId) : Except PyErr (EngineFrontend α L) :=
  match f.fanOuts requestId with
  | none => .ok f
  | some fanOut => do
    let p := f.outputProcessor
    let (childReqId, parent) := (p.shared.parents requestId).getChildInfo fanOut.idx
    let p ← { p with shared := p.shared.setParent parent }.addRequest
      { fanOut.request with requestId := childReqId, n := 1 } (some requestId) fanOut.idx
      fanOut.queue
    return { f with
      outputProcessor := p
      fanOuts := update f.fanOuts requestId (some { fanOut with idx := fanOut.idx + 1 }) }

/-- The consumer takes the output that waits in a queue, if there is one. -/
def get (queue : RequestId) : EngineFrontend α L :=
  let (output, q) := (f.outputProcessor.queues queue).getNowait
  { f with
    outputProcessor := { f.outputProcessor with
      queues := update f.outputProcessor.queues queue q }
    received := update f.received queue (f.received queue ++
      (output.map (Output.copy f.outputProcessor.shared)).toList) }

/-- A call. -/
def step [DecidableEq α] (order : SetOrder RequestId) :
    FrontendCall α L → Except PyErr (EngineFrontend α L)
  | .addRequest request queue => do
    let p ← (if queue then f.newQueue request else f.outputProcessor).addRequest request none 0
      (if queue then some request.requestId else none)
    return { f with outputProcessor := p, assigned := f.take request.requestId }
  | .fanOut request queue =>
    let p := if queue then f.newQueue request else f.outputProcessor
    let parent := .new request.requestId request.externalReqId request.n request.outputKind
    .ok { f with
      outputProcessor := { p with shared := p.shared.setParent parent }
      fanOuts := update f.fanOuts request.requestId
        (some ⟨request, if queue then some request.requestId else none, 0⟩)
      assigned := f.take request.requestId }
  | .addChild requestId => f.addChild requestId
  | .processOutput o => do
    let (_, p) ← f.outputProcessor.processOutput ⟨[], []⟩ o
    return { f with outputProcessor := p }
  | .abort ids => do
    let (_, p) ← OutputProcessor.abortRequests order 1000 f.outputProcessor ids
    return { f with outputProcessor := p }
  | .get queue => .ok (f.get queue)

/-- What the front-end ensures of a call: `assign_request_id` makes a new id; a child is added while
there are more of them; and the queue of a parent is returned when all children are added. -/
def Admissible : FrontendCall α L → Prop
  | .addRequest request _ => (∃ n ∉ f.assigned, request.requestId = .assigned n) ∧ request.n = 1
  | .fanOut request _ => (∃ n ∉ f.assigned, request.requestId = .assigned n) ∧ 1 < request.n ∧
    request.detokenizer.isSome
  | .addChild requestId => ∃ fanOut ∈ f.fanOuts requestId, fanOut.idx < fanOut.request.n
  | .processOutput _ => True
  | .abort _ => True
  | .get queue => ∀ fanOut ∈ f.fanOuts queue, fanOut.idx = fanOut.request.n

end EngineFrontend

/-- The states after any number of calls, each of which meets a condition. -/
inductive Run [DecidableEq α] (order : SetOrder RequestId)
    (meets : EngineFrontend α L → FrontendCall α L → Prop) : EngineFrontend α L → Prop
  | new (streamInterval : ℕ) : Run order meets (.new streamInterval)
  | step {f f' : EngineFrontend α L} (call : FrontendCall α L) (h : Run order meets f)
      (hcall : f.Admissible call) (hmeets : meets f call) (hf : f.step order call = .ok f') :
      Run order meets f'

variable [DecidableEq α]

/-- What a round does to the state does not depend on what is returned. -/
theorem OutputProcessor.processOutput_returned {p p' : OutputProcessor α L} {r r' : Returned α L}
    {o : EngineCoreOutput α L} (h : p.processOutput r o = .ok (r', p')) :
    ∃ r₀, p.processOutput ⟨[], []⟩ o = .ok (r₀, p') := by
  unfold processOutput at h ⊢
  cases hs : p.requestStates.lookup o.requestId with
  | none =>
    rw [hs] at h
    cases h
    exact ⟨_, rfl⟩
  | some s =>
    rw [hs] at h
    obtain ⟨⟨⟨finishReason, stopReason⟩, s, h₁⟩, hupdate, h⟩ := bind_ok.1 h
    obtain ⟨⟨output, s', h₂⟩, hmake, h⟩ := bind_ok.1 h
    obtain ⟨⟨outputs, p₁⟩, hdeliver, h⟩ := bind_ok.1 h
    simp only [hupdate, hmake, hdeliver, ok_bind]
    cases finishReason with
    | none =>
      cases h
      exact ⟨_, rfl⟩
    | some reason =>
      obtain ⟨p₂, hfree, h⟩ := bind_ok.1 h
      simp only [hfree, ok_bind]
      split_ifs at h ⊢ <;> (cases h; exact ⟨_, rfl⟩)

/-- A call of `process_outputs` is a run of its rounds. -/
theorem Run.processOutputs {order : SetOrder RequestId}
    {meets : EngineFrontend α L → FrontendCall α L → Prop} {outputs : List (EngineCoreOutput α L)}
    (hmeets : ∀ f, ∀ o ∈ outputs, meets f (.processOutput o)) {f : EngineFrontend α L}
    (h : Run order meets f) {r : OutputProcessor.Returned α L} {p : OutputProcessor α L}
    (hok : f.outputProcessor.processOutputs outputs = .ok (r, p)) :
    Run order meets { f with outputProcessor := p } := by
  unfold OutputProcessor.processOutputs at hok
  generalize (⟨[], []⟩ : OutputProcessor.Returned α L) = r₀ at hok
  induction outputs generalizing f r₀ with
  | nil =>
    cases hok
    exact h
  | cons o outputs ih =>
    obtain ⟨⟨r₁, p₁⟩, hround, hok⟩ := bind_ok.1 hok
    obtain ⟨r₂, hround'⟩ := OutputProcessor.processOutput_returned hround
    have hstep : f.step order (.processOutput o) = .ok { f with outputProcessor := p₁ } :=
      bind_ok.2 ⟨_, hround', rfl⟩
    have h' : Run order meets { f with outputProcessor := p₁ } :=
      .step (.processOutput o) h trivial (hmeets f o (.head _)) hstep
    exact (ih (fun f' o' ho' => hmeets f' o' (.tail _ ho')) h' _ hok :)

end LoptVllm.Frontend
