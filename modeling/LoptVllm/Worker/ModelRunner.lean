import LoptVllm.Worker.InputBatch

/-!
# The worker and its batch

In a step the worker removes the requests that are finished or not scheduled, updates the states of
the others, adds the requests that are new or resumed, closes the gaps, and lets the attention
backend reorder the rows.
-/

namespace LoptVllm.Worker

open Function

/-- What `GPUModelRunner` keeps of its requests. -/
structure ModelRunner where
  maxModelLen : ℕ
  requests : OrderedDict ℕ CachedRequestState
  inputBatch : InputBatch

/-- A call of a step. -/
inductive RunnerCall
  | finish (reqId : ℕ)
  | unschedule (reqId : ℕ)
  | cache (request : CachedRequestState)
  | update (reqId numComputedTokens : ℕ) (newBlockIds : Option (List (List ℕ)))
      (specTokenIds : List ℤ)
  | sample (reqIdx : ℕ) (sampledIds : List ℤ)
  | add (reqId : ℕ) (specTokenIds : List ℤ)
  | condense
  | swap (i1 i2 : ℕ)
  | refresh

/-- `for block_ids, new_ids in zip(req_state.block_ids, new_block_ids): block_ids.extend(new_ids)`. -/
def extendBlockIds (blockIds newBlockIds : List (List ℕ)) : List (List ℕ) :=
  List.zipWith (· ++ ·) blockIds newBlockIds

namespace ModelRunner

/-- No request is known. -/
def new (maxModelLen maxNumReqs vocabSize : ℕ) (isPoolingModel : Bool)
    (blockTable : MultiGroupBlockTable) : ModelRunner :=
  ⟨maxModelLen, ∅, .new maxNumReqs vocabSize isPoolingModel blockTable⟩

variable (w : ModelRunner)

/-- The output tokens of a request. -/
def outputTokenIds (reqId : ℕ) : List ℤ :=
  ((w.requests.lookup reqId).map CachedRequestState.outputTokenIds).getD []

/-- A running request of `_update_states`, on the last rank. -/
def updateRequest (reqId numComputedTokens : ℕ) (newBlockIds : Option (List (List ℕ)))
    (specTokenIds : List ℤ) : Except PyErr ModelRunner :=
  match w.requests.lookup reqId with
  | none => .error (.keyError "")
  | some reqState =>
    let reqState := { reqState with
      numComputedTokens := numComputedTokens
      blockIds := match newBlockIds with
        | some new => extendBlockIds reqState.blockIds new
        | none => reqState.blockIds }
    let w := { w with requests := w.requests.setItem reqId reqState }
    match w.inputBatch.reqIdToIndex.lookup reqId with
    | none => .ok w
    | some reqIndex => do
      let batch ← { w.inputBatch with
        numComputedTokensCpu := update w.inputBatch.numComputedTokensCpu reqIndex numComputedTokens
        blockTable := match newBlockIds with
          | some new => w.inputBatch.blockTable.appendRow new reqIndex
          | none => w.inputBatch.blockTable }.updateReqSpecTokenIds reqId specTokenIds
      return { w with inputBatch := batch }

/-- The tokens that were sampled for a row are written to the batch and to the request. -/
def sampleTokens (reqIdx : ℕ) (sampledIds : List ℤ) : Except PyErr ModelRunner :=
  if sampledIds = [] then .ok w
  else
    let startIdx := w.inputBatch.numTokensNoSpec reqIdx
    let endIdx := startIdx + sampledIds.length
    if w.maxModelLen < endIdx then
      .error (.assertionError "Sampled token IDs exceed the max model length.")
    else match w.inputBatch.reqIds[reqIdx]? with
      | some (some reqId) =>
        match w.requests.lookup reqId with
        | none => .error (.keyError "")
        | some reqState => .ok { w with
            requests := w.requests.setItem reqId { reqState with
              outputTokenIds := reqState.outputTokenIds ++ sampledIds }
            inputBatch := { w.inputBatch with
              tokenIdsCpu := update w.inputBatch.tokenIdsCpu reqIdx
                (setSlice (w.inputBatch.tokenIdsCpu reqIdx) startIdx sampledIds)
              isTokenIds := update w.inputBatch.isTokenIds reqIdx
                (setSlice (w.inputBatch.isTokenIds reqIdx) startIdx
                  (List.replicate sampledIds.length true))
              numTokensNoSpec := update w.inputBatch.numTokensNoSpec reqIdx endIdx } }
      | some none => .error (.keyError "None")
      | none => .error (.indexError "list index out of range")

/-- A request of `reqs_to_add`. -/
def addRequest (reqId : ℕ) (specTokenIds : List ℤ) : Except PyErr ModelRunner :=
  match w.requests.lookup reqId with
  | none => .error (.keyError "")
  | some request => do
    let batch ← w.inputBatch.addRequest request
    let batch ← batch.updateReqSpecTokenIds reqId specTokenIds
    return { w with inputBatch := batch }

/-- A call. -/
def step : RunnerCall → Except PyErr ModelRunner
  | .finish reqId => do
    let batch ← w.inputBatch.removeRequest reqId
    return { w with requests := w.requests.erase reqId, inputBatch := batch }
  | .unschedule reqId => do
    let batch ← w.inputBatch.removeRequest reqId
    return { w with inputBatch := batch }
  | .cache request => .ok { w with requests := w.requests.setItem request.reqId request }
  | .update reqId numComputedTokens newBlockIds specTokenIds =>
    w.updateRequest reqId numComputedTokens newBlockIds specTokenIds
  | .sample reqIdx sampledIds => w.sampleTokens reqIdx sampledIds
  | .add reqId specTokenIds => w.addRequest reqId specTokenIds
  | .condense => do
    let batch ← w.inputBatch.condense
    return { w with inputBatch := batch }
  | .swap i1 i2 => do
    let batch ← w.inputBatch.swapStates i1 i2
    return { w with inputBatch := batch }
  | .refresh => do
    let batch ← w.inputBatch.refreshMetadata w.outputTokenIds
    return { w with inputBatch := batch }

/-- The parameters of a request fit the model, and there is a list of blocks for each KV cache
group. -/
def Fits (request : CachedRequestState) : Prop :=
  request.samplingParams.isSome = !w.inputBatch.isPoolingModel ∧
    request.poolingParams.isSome = w.inputBatch.isPoolingModel ∧
    request.blockIds.length = w.inputBatch.blockTable.length

instance (request : CachedRequestState) : Decidable (w.Fits request) :=
  inferInstanceAs (Decidable (_ ∧ _ ∧ _))

/-- What the worker ensures of a call: the state of a request is replaced, and a request is added,
only when it has no row. -/
def Admissible : RunnerCall → Prop
  | .cache request => request.reqId ∉ w.inputBatch.reqIdToIndex ∧ w.Fits request
  | .update _ _ newBlockIds _ =>
    ∀ new ∈ newBlockIds, new.length = w.inputBatch.blockTable.length
  | .add reqId _ => reqId ∉ w.inputBatch.reqIdToIndex
  | _ => True

instance : DecidablePred w.Admissible
  | .cache _ => inferInstanceAs (Decidable (_ ∧ _))
  | .update _ _ newBlockIds _ => inferInstanceAs
    (Decidable (∀ new ∈ newBlockIds, new.length = w.inputBatch.blockTable.length))
  | .add _ _ => inferInstanceAs (Decidable (_ ∉ _))
  | .finish _ | .unschedule _ | .sample _ _ | .condense | .swap _ _ | .refresh =>
    inferInstanceAs (Decidable True)

end ModelRunner

/-- The part of a step. -/
inductive Phase
  | updating
  | adding
  | condensed
  deriving DecidableEq

/-- The order of the calls in a step; a call that is not in order has no next part. -/
def RunnerCall.next : RunnerCall → Phase → Option Phase
  | .add _ _, .updating | .add _ _, .adding => some .adding
  | .condense, .updating | .condense, .adding => some .condensed
  | .swap _ _, .condensed => some .condensed
  | .refresh, .condensed => some .updating
  | .finish _, .updating | .unschedule _, .updating | .cache _, .updating
  | .update _ _ _ _, .updating | .sample _ _, .updating => some .updating
  | _, _ => none

/-- The states after the calls of any number of steps, in which every call meets a condition. -/
inductive Run (meets : ModelRunner → RunnerCall → Prop) : Phase → ModelRunner → Prop
  | new {maxModelLen maxNumReqs vocabSize : ℕ} {isPoolingModel : Bool}
      {blockTable : MultiGroupBlockTable} : Run meets .updating
        (.new maxModelLen maxNumReqs vocabSize isPoolingModel blockTable)
  | step {p p' : Phase} {w w' : ModelRunner} (call : RunnerCall) (h : Run meets p w)
      (hp : call.next p = some p') (hcall : w.Admissible call) (hmeets : meets w call)
      (hw : w.step call = .ok w') : Run meets p' w'

/-- The state after a list of calls, if each is in order, admissible and meets the condition, and none
fails. -/
def replay (meets : ModelRunner → RunnerCall → Prop) [∀ w, DecidablePred (meets w)] :
    List RunnerCall → Phase → ModelRunner → Option (Phase × ModelRunner)
  | [], p, w => some (p, w)
  | call :: calls, p, w =>
    match call.next p, w.step call with
    | some p', .ok w' =>
      if w.Admissible call ∧ meets w call then replay meets calls p' w' else none
    | _, _ => none

theorem Run.replay {meets : ModelRunner → RunnerCall → Prop} [∀ w, DecidablePred (meets w)] :
    ∀ {calls : List RunnerCall} {p p' : Phase} {w w' : ModelRunner}, Run meets p w →
      replay meets calls p w = some (p', w') → Run meets p' w'
  | [], p, p', w, w', h, heq => by
    cases heq
    exact h
  | call :: calls, p, p', w, w', h, heq => by
    unfold Worker.replay at heq
    split at heq
    · next hp hw =>
      split at heq
      · next hmeets => exact (h.step call hp hmeets.1 hmeets.2 hw).replay heq
      · cases heq
    · cases heq

/-- What holds of the batch that a step works with, after a list of calls. -/
def refreshed (meets : ModelRunner → RunnerCall → Prop) [∀ w, DecidablePred (meets w)]
    (calls : List RunnerCall) (w : ModelRunner) (P : ModelRunner → Prop) [DecidablePred P] : Bool :=
  match replay meets calls .updating w with
  | some (.condensed, w') =>
    match w'.step .refresh with
    | .ok w'' => P w''
    | .error _ => false
  | _ => false

theorem exists_of_refreshed (meets : ModelRunner → RunnerCall → Prop)
    [∀ w, DecidablePred (meets w)] (calls : List RunnerCall) (w : ModelRunner)
    (P : ModelRunner → Prop) [DecidablePred P] (hw : Run meets .updating w)
    (h : refreshed meets calls w P = true) : ∃ w' w'', Run meets .condensed w' ∧
      w'.step .refresh = .ok w'' ∧ P w'' := by
  unfold refreshed at h
  split at h
  · next w' hreplay =>
    split at h
    · next w'' hrefresh => exact ⟨w', w'', hw.replay hreplay, hrefresh, of_decide_eq_true h⟩
    · cases h
  · cases h

/-! ### A small worker -/

/-- Sampling parameters with nothing special. -/
def smallSamplingParams : SamplingParams where
  temperature := 1
  seed := none
  topP := 1
  topK := 0
  frequencyPenalty := 0
  presencePenalty := 0
  repetitionPenalty := 1
  logprobs := none
  minTokens := 2
  allStopTokenIds := [7]
  logitBias := none
  allowedTokenIds := none
  badWordsTokenIds := none

/-- A request with a prompt of one token. -/
def smallRequest (reqId : ℕ) : CachedRequestState where
  reqId := reqId
  promptTokenIds := some [5]
  promptEmbeds := none
  samplingParams := some smallSamplingParams
  poolingParams := none
  generator := none
  blockIds := [[reqId]]
  numComputedTokens := 0
  outputTokenIds := []
  loraRequest := none
  numPromptTokens := 1
  numPromptTokens_eq := rfl

/-- A worker with one KV cache group. -/
def smallRunner (isPoolingModel : Bool) : ModelRunner :=
  .new 16 4 8 isPoolingModel [⟨1, false, fun _ _ => 0, fun _ => 0⟩]

end LoptVllm.Worker
