import LoptVllm.Frontend.Outputs
import LoptVllm.Frontend.Detokenizer

/-!
# The state of a request in the output processor
-/

namespace LoptVllm.Frontend

variable {α L : Type}

/-- `IncrementalDetokenizer`: without a tokenizer, or with the `decode_next` of the tokenizer. -/
inductive IncrementalDetokenizer (α : Type)
  | plain (tokenIds : List ℕ)
  | base (decodeNext : List ℕ → List α) (d : BaseIncrementalDetokenizer α)

namespace IncrementalDetokenizer

/-- `output_token_ids`. -/
def outputTokenIds : IncrementalDetokenizer α → List ℕ
  | .plain tokenIds => tokenIds
  | .base _ d => d.outputTokenIds

/-- `update`. -/
def update [DecidableEq α] (newTokenIds : List ℕ) (stopTerminated : Bool) :
    IncrementalDetokenizer α → Option (List α) × IncrementalDetokenizer α
  | .plain tokenIds => (none, .plain (tokenIds ++ newTokenIds))
  | .base decodeNext d =>
    let (stopString, d) := d.update decodeNext newTokenIds stopTerminated
    (stopString, .base decodeNext d)

/-- `get_next_output_text`. -/
def getNextOutputText (finished delta : Bool) :
    IncrementalDetokenizer α → List α × IncrementalDetokenizer α
  | .plain tokenIds => ([], .plain tokenIds)
  | .base decodeNext d =>
    let (text, d) := d.getNextOutputText finished delta
    (text, .base decodeNext d)

end IncrementalDetokenizer

/-- `EngineCoreRequest`, with the detokenizer that is made for it; a pooling request has none. -/
structure EngineCoreRequest (α : Type) where
  requestId : RequestId
  externalReqId : ℕ
  outputKind : RequestOutputKind
  n : ℕ
  /-- `sampling_params.logprobs is not None`. -/
  logprobs : Bool
  /-- `prompt_token_ids is not None`. -/
  hasPromptTokenIds : Bool
  detokenizer : Option (IncrementalDetokenizer α)

/-- `EngineCoreOutput`. -/
structure EngineCoreOutput (α L : Type) where
  requestId : RequestId
  newTokenIds : List ℕ
  newLogprobs : Option (List L)
  poolingOutput : Option (List ℚ)
  finishReason : Option FinishReason
  stopReason : Option (StopReason α)

/-- `RequestState`. A parent and a queue are known by the id of the request that they belong to. -/
structure RequestState (α : Type) where
  requestId : RequestId
  externalReqId : ℕ
  parentReq : Option RequestId
  requestIndex : ℕ
  outputKind : RequestOutputKind
  hasPromptTokenIds : Bool
  /-- `logprobs_processor.logprobs is not None`. -/
  logprobs : Bool
  detokenizer : Option (IncrementalDetokenizer α)
  queue : Option RequestId
  streamInterval : ℕ
  sentTokensOffset : ℕ

namespace RequestState

/-- `RequestState.from_new_request`. -/
def fromNewRequest (request : EngineCoreRequest α) (parentReq : Option RequestId)
    (requestIndex : ℕ) (queue : Option RequestId) (streamInterval : ℕ) : RequestState α where
  requestId := request.requestId
  externalReqId := request.externalReqId
  parentReq := parentReq
  requestIndex := requestIndex
  outputKind := request.outputKind
  hasPromptTokenIds := request.hasPromptTokenIds
  logprobs := request.logprobs
  detokenizer := request.detokenizer
  queue := queue
  streamInterval := streamInterval
  sentTokensOffset := 0

variable (s : RequestState α)

/-- `logprobs_processor.update_from_output`. -/
def updateLogprobs (h : Shared α L) (newLogprobs : Option (List L)) : Except PyErr (Shared α L) :=
  match newLogprobs with
  | none => .ok h
  | some l =>
    if s.logprobs then .ok (h.setLogprobs s.requestId (h.logprobs s.requestId ++ l))
    else .error (.assertionError "")

/-- Steps 2 and 3 of `process_outputs`: the tokens and the logprobs of an engine output, and why the
request finishes. -/
def updateFromOutput [DecidableEq α] (h : Shared α L) (o : EngineCoreOutput α L) :
    Except PyErr ((Option FinishReason × Option (StopReason α)) × RequestState α × Shared α L) :=
  match o.poolingOutput with
  | some _ => .ok ((o.finishReason, o.stopReason), s, h)
  | none =>
    match s.detokenizer with
    | none => .error (.assertionError "")
    | some d => do
      let (stopString, d) := d.update o.newTokenIds (o.finishReason = some .stop)
      let (finishReason, stopReason) := match stopString with
        | some stop => if stop = [] then (o.finishReason, o.stopReason)
          else (some .stop, some (.text stop))
        | none => (o.finishReason, o.stopReason)
      let h ← s.updateLogprobs h o.newLogprobs
      return ((finishReason, stopReason), { s with detokenizer := some d }, h)

/-- `logprobs[-n:]`. -/
def lastLogprobs (n : ℕ) (l : List L) : List L := if n = 0 then l else l.drop (l.length - n)

/-- `_new_completion_output`. -/
def newCompletionOutput (h : Shared α L) (tokenIds : List ℕ) (finishReason : Option FinishReason)
    (stopReason : Option (StopReason α)) : Except PyErr (CompletionOutput α L × RequestState α) :=
  match s.detokenizer with
  | none => .error (.assertionError "")
  | some d =>
    let finished := finishReason.isSome
    let delta : Bool := s.outputKind = .delta
    let (text, d') := d.getNextOutputText finished delta
    let tokenIds := if delta then tokenIds else d.outputTokenIds
    let logprobs := if s.logprobs then
        some (if delta ∧ h.logprobs s.requestId ≠ [] then
          SampleLogprobs.own (lastLogprobs tokenIds.length (h.logprobs s.requestId))
          else .shared s.requestId)
      else none
    .ok ({
      index := s.requestIndex
      text := text
      tokenIds := tokenIds
      logprobs := logprobs
      finishReason := finishReason
      stopReason := if finished then stopReason else none },
      { s with detokenizer := some d' })

/-- The output of a pooling request. -/
def newPoolingRequestOutput (poolingOutput : List ℚ) (finished : Bool) :
    Except PyErr PoolingRequestOutput :=
  if s.hasPromptTokenIds then .ok ⟨s.externalReqId, poolingOutput, finished⟩
  else .error (.assertionError "")

/-- The stream interval: whether there is an output now, and the tokens that it has. -/
def applyStreamInterval (newTokenIds : List ℕ) (finished : Bool) :
    Except PyErr (Option (List ℕ) × RequestState α) :=
  if s.streamInterval ≤ 1 then .ok (some newTokenIds, s)
  else match s.detokenizer with
    | none => .error (.assertionError "")
    | some d =>
      if ¬ (finished ∨ s.sentTokensOffset = 0 ∨
          s.streamInterval ≤ d.outputTokenIds.length - s.sentTokensOffset) then .ok (none, s)
      else if s.outputKind = .delta then
        .ok (some (d.outputTokenIds.drop s.sentTokensOffset),
          { s with sentTokensOffset := d.outputTokenIds.length })
      else .ok (some newTokenIds, s)

/-- The completion is handed out: by the parent, if there is one. -/
def wrapCompletion (h : Shared α L) (c : CompletionOutput α L) :
    Except PyErr (Option (Output α L) × Shared α L) :=
  match s.parentReq with
  | none =>
    .ok (some (.completion ⟨s.externalReqId, .own [some c], c.finished⟩), h)
  | some parent => do
    let ((outputs, finished), p) ← (h.parents parent).getOutputs s.requestId c
    let h := h.setParent p
    if outputs.entries h = [] then return (none, h)
    else return (some (.completion ⟨p.externalReqId, outputs, finished⟩), h)

/-- `make_request_output`. -/
def makeRequestOutput (h : Shared α L) (newTokenIds : List ℕ) (poolingOutput : Option (List ℚ))
    (finishReason : Option FinishReason) (stopReason : Option (StopReason α)) :
    Except PyErr (Option (Output α L) × RequestState α × Shared α L) :=
  let finished := finishReason.isSome
  if finished = false ∧ s.outputKind = .finalOnly then .ok (none, s, h)
  else do
    let (tokens, s) ← s.applyStreamInterval newTokenIds finished
    match tokens with
    | none => return (none, s, h)
    | some newTokenIds =>
      match poolingOutput with
      | some data =>
        let o ← s.newPoolingRequestOutput data finished
        return (some (.pooling o), s, h)
      | none =>
        let (c, s) ← s.newCompletionOutput h newTokenIds finishReason stopReason
        let (o, h) ← s.wrapCompletion h c
        return (o, s, h)

end RequestState

end LoptVllm.Frontend
