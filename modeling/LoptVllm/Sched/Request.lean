import LoptVllm.KVCache.Hash
import Mathlib.Algebra.Group.Int.Defs

/-!
# Requests

A `Request` is what the scheduler keeps for a generation or pooling request: the arguments of its
constructor, and the state that the scheduler changes while the request is served. The tokens of a
request are its prompt and the output tokens appended so far; `num_computed_tokens` of them have
been scheduled.
-/

namespace LoptVllm.Sched

/-- `RequestStatus`. -/
inductive RequestStatus
  | waiting
  | waitingForFsm
  | waitingForRemoteKvs
  | running
  | preempted
  | finishedStopped
  | finishedLengthCapped
  | finishedAborted
  | finishedIgnored
  | finishedError
  deriving DecidableEq, Repr

/-- `RequestStatus.is_finished`. -/
def RequestStatus.isFinished : RequestStatus → Bool
  | .waiting | .waitingForFsm | .waitingForRemoteKvs | .running | .preempted => false
  | _ => true

/-- `FinishReason`. -/
inductive FinishReason
  | stop
  | length
  | abort
  | error
  deriving DecidableEq, Repr

/-- `RequestStatus.get_finished_reason`. -/
def RequestStatus.getFinishedReason : RequestStatus → Option FinishReason
  | .finishedStopped => some .stop
  | .finishedLengthCapped => some .length
  | .finishedAborted => some .abort
  | .finishedIgnored => some .length
  | .finishedError => some .error
  | _ => none

/-- `SamplingParams`, as far as the scheduler reads them. -/
structure SamplingParams where
  minTokens : ℕ
  maxTokens : ℕ
  ignoreEos : Bool
  stopTokenIds : List ℕ
  structuredOutputs : Bool
  skipReadingPrefixCache : Option Bool
  deriving DecidableEq

/-- `sampling_params` or `pooling_params`; a request has exactly one of them. -/
inductive RequestParams
  | sampling (params : SamplingParams)
  | pooling (skipReadingPrefixCache : Option Bool)
  deriving DecidableEq

/-- `MultiModalFeatureSpec`, with the mask of its placeholder range. -/
structure MultiModalFeatureSpec extends KVCache.MultiModalFeature where
  isEmbed : Option (List Bool)
  deriving DecidableEq

namespace MultiModalFeatureSpec

variable (f : MultiModalFeatureSpec)

/-- `PlaceholderRange.get_num_embeds`. -/
def getNumEmbeds : ℕ := match f.isEmbed with
  | none => f.length
  | some mask => mask.count true

/-- `embeds_cumsum[i]`; a negative index counts from the end. -/
def embedsCumsum (mask : List Bool) (i : ℤ) : ℕ :=
  (mask.take ((if i < 0 then mask.length + i else i) + 1).toNat).count true

/-- `PlaceholderRange.get_embeds_indices_in_range`. -/
def getEmbedsIndicesInRange (startIdx endIdx : ℤ) : ℤ × ℤ := match f.isEmbed with
  | none => (startIdx, endIdx)
  | some mask =>
    (if 0 < startIdx then embedsCumsum mask (startIdx - 1) else 0, embedsCumsum mask (endIdx - 1))

end MultiModalFeatureSpec

/-- `LoRARequest`. -/
structure LoRARequest where
  loraName : String
  loraIntId : ℕ
  deriving DecidableEq

/-- What a request is made of. Arrival times are only compared. -/
structure EngineCoreRequest where
  priority : ℤ
  arrivalTime : ℤ
  params : RequestParams
  eosTokenId : Option ℕ
  promptTokenIds : Option (List ℕ)
  promptEmbeds : Option KVCache.PromptEmbeds
  mmFeatures : List MultiModalFeatureSpec
  loraRequest : Option LoRARequest
  cacheSalt : Option String

namespace EngineCoreRequest

variable (r : EngineCoreRequest)

/-- `prompt_token_ids`, or a zero for each row of the prompt embeddings. -/
def promptTokens : List ℕ := match r.promptTokenIds, r.promptEmbeds with
  | some ids, _ => ids
  | none, some embeds => List.replicate embeds.rows.length 0
  | none, none => []

/-- `num_prompt_tokens`. -/
def numPromptTokens : ℕ := r.promptTokens.length

/-- `max_tokens`. -/
def maxTokens : ℕ := match r.params with
  | .sampling params => params.maxTokens
  | .pooling _ => 1

/-- `pooling_params is not None`. -/
def isPooling : Bool := match r.params with
  | .sampling _ => false
  | .pooling _ => true

/-- `use_structured_output`. -/
def useStructuredOutput : Bool := match r.params with
  | .sampling params => params.structuredOutputs
  | .pooling _ => false

/-- `get_skip_reading_prefix_cache`. -/
def getSkipReadingPrefixCache : Bool := match r.params with
  | .sampling params => params.skipReadingPrefixCache.getD false
  | .pooling skip => skip.getD false

/-- `has_encoder_inputs`. -/
def hasEncoderInputs : Bool := !r.mmFeatures.isEmpty

end EngineCoreRequest

/-- `Request`. The draft tokens of `spec_token_ids` are −1 while they are placeholders. -/
structure Request extends EngineCoreRequest where
  status : RequestStatus
  stopReason : Option ℕ
  outputTokenIds : List ℕ
  specTokenIds : List ℤ
  numComputedTokens : ℤ
  numOutputPlaceholders : ℤ
  discardLatestAsyncTokens : Bool
  numCachedTokens : ℤ
  numPreemptions : ℕ

/-- `Request.from_engine_core_request`. -/
def Request.fromEngineCoreRequest (request : EngineCoreRequest) : Request where
  toEngineCoreRequest := request
  status := if request.useStructuredOutput then .waitingForFsm else .waiting
  stopReason := none
  outputTokenIds := []
  specTokenIds := []
  numComputedTokens := 0
  numOutputPlaceholders := 0
  discardLatestAsyncTokens := false
  numCachedTokens := -1
  numPreemptions := 0

namespace Request

variable (r : Request)

/-- `all_token_ids`. -/
def allTokenIds : List ℕ := r.promptTokens ++ r.outputTokenIds

/-- `num_tokens`. -/
def numTokens : ℕ := r.allTokenIds.length

/-- `num_tokens_with_spec`. -/
def numTokensWithSpec : ℕ := r.numTokens + r.specTokenIds.length

/-- `num_output_tokens`. -/
def numOutputTokens : ℕ := r.outputTokenIds.length

/-- `is_finished`. -/
def isFinished : Bool := r.status.isFinished

/-- `append_output_token_ids`. -/
def appendOutputTokenIds (tokenId : ℕ) : Request :=
  { r with outputTokenIds := r.outputTokenIds ++ [tokenId] }

/-- The request after `_preempt_request`. -/
def preempt : Request := { r with
  status := .preempted
  numComputedTokens := 0
  specTokenIds := []
  numPreemptions := r.numPreemptions + 1 }

/-- The request after `n` of its tokens were scheduled. -/
def advance (n : ℤ) : Request := { r with numComputedTokens := r.numComputedTokens + n }

/-- The request after a step of `AsyncScheduler` with `numDraft` draft tokens: if the step covers
all tokens, with those that are still in flight, it generates a token and checks the drafts. -/
def addPlaceholders (numSpecTokens numDraft : ℕ) : Request :=
  if r.numComputedTokens = r.numTokens + r.numOutputPlaceholders + numDraft then { r with
    numOutputPlaceholders := r.numOutputPlaceholders + (1 + numDraft)
    specTokenIds := List.replicate numSpecTokens (-1) }
  else r

@[simp] theorem advance_zero : r.advance 0 = r := by
  unfold advance
  rw [add_zero]

@[simp] theorem advance_advance (m n : ℤ) : (r.advance m).advance n = r.advance (m + n) := by
  unfold advance
  rw [← add_assoc]

theorem numTokens_eq : r.numTokens = r.numPromptTokens + r.numOutputTokens := by
  exact List.length_append

/-- `__lt__`, on the priority and the arrival time; `id` is the request id, which breaks ties. -/
def lt (id : ℕ) (r' : Request) (id' : ℕ) : Bool :=
  if r.priority ≠ r'.priority then r.priority < r'.priority
  else if r.arrivalTime ≠ r'.arrivalTime then r.arrivalTime < r'.arrivalTime
  else id < id'

end Request

/-- `check_stop`: the request with its new status, and whether it stops. -/
def checkStop (request : Request) (maxModelLen : ℕ) : Except PyErr (Request × Bool) :=
  match request.params with
  | .pooling _ => .error (.assertionError "not request.pooling_params")
  | .sampling params =>
    if request.numOutputTokens < params.minTokens then .ok (request, false)
    else match request.outputTokenIds.getLast? with
      | none => .error (.indexError "list index out of range")
      | some lastTokenId =>
        if !params.ignoreEos ∧ request.eosTokenId = some lastTokenId then
          .ok ({ request with status := .finishedStopped }, true)
        else if lastTokenId ∈ params.stopTokenIds then
          .ok ({ request with status := .finishedStopped, stopReason := some lastTokenId }, true)
        else if maxModelLen ≤ request.numTokens ∨ request.maxTokens ≤ request.numOutputTokens then
          .ok ({ request with status := .finishedLengthCapped }, true)
        else .ok (request, false)

/-- `check_stop` only changes the status and the stop reason, and a request that does not stop is
unchanged. -/
theorem checkStop_eq {request request' : Request} {maxModelLen : ℕ} {stopped : Bool}
    (h : checkStop request maxModelLen = .ok (request', stopped)) :
    (stopped = false ∧ request' = request) ∨
      (stopped = true ∧ ∃ status stopReason, status.isFinished = true ∧
        request' = { request with status := status, stopReason := stopReason }) := by
  unfold checkStop at h
  split at h
  · cases h
  · split at h
    · cases h
      exact .inl ⟨rfl, rfl⟩
    · split at h
      · cases h
      · split_ifs at h <;> cases h
        · exact .inr ⟨rfl, _, _, rfl, rfl⟩
        · exact .inr ⟨rfl, _, _, rfl, rfl⟩
        · exact .inr ⟨rfl, _, _, rfl, rfl⟩
        · exact .inl ⟨rfl, rfl⟩

end LoptVllm.Sched
