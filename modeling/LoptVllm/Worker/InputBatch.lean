import LoptVllm.Worker.BlockTable
import LoptVllm.Worker.LogitsProcessor
import Mathlib.Data.Finset.Erase
import Mathlib.Data.Finset.Insert

/-!
# The persistent batch of the worker

Each request of the batch has a row in a number of arrays. Rows are freed and filled again,
`condense` moves the last rows to the free rows, and `swap_states` exchanges two rows.
-/

namespace LoptVllm.Worker

open Function List

/-- What the batch reads of `PoolingParams`. -/
structure PoolingParams where
  requiresTokenIds : Bool
  deriving DecidableEq

/-- `length_from_prompt_token_ids_or_embeds`. -/
def lengthFromPromptTokenIdsOrEmbeds : Option (List ℤ) → Option (List (List ℚ)) → Except PyErr ℕ
  | none, none =>
    .error (.valueError "Neither prompt_token_ids nor prompt_embeds were defined.")
  | none, some embeds => .ok embeds.length
  | some ids, none => .ok ids.length
  | some ids, some embeds =>
    if embeds.length ≠ ids.length then
      .error (.valueError "Prompt token ids and prompt embeds had different lengths")
    else .ok ids.length

/-- `CachedRequestState`. A generator and a LoRA request are known by their ids. -/
structure CachedRequestState where
  reqId : ℕ
  promptTokenIds : Option (List ℤ)
  promptEmbeds : Option (List (List ℚ))
  samplingParams : Option SamplingParams
  poolingParams : Option PoolingParams
  generator : Option ℕ
  blockIds : List (List ℕ)
  numComputedTokens : ℕ
  outputTokenIds : List ℤ
  loraRequest : Option ℕ
  numPromptTokens : ℕ
  numPromptTokens_eq :
    lengthFromPromptTokenIdsOrEmbeds promptTokenIds promptEmbeds = .ok numPromptTokens

/-- `num_tokens`. -/
def CachedRequestState.numTokens (req : CachedRequestState) : ℕ :=
  req.numPromptTokens + req.outputTokenIds.length

/-- `sampling_type == SamplingType.GREEDY`. -/
def SamplingParams.isGreedy (params : SamplingParams) : Prop := params.temperature < 1 / 100000

instance (params : SamplingParams) : Decidable params.isGreedy :=
  inferInstanceAs (Decidable (_ < _))

/-- `l[i], l[j] = l[j], l[i]`. -/
def swapEntries {α : Type} (l : List α) (i j : ℕ) : List α := match l[i]?, l[j]? with
  | some a, some b => (l.set i b).set j a
  | _, _ => l

/-- `InputBatch`. A row of `reqOutputTokenIds` is the list of the request with that id. -/
structure InputBatch where
  isPoolingModel : Bool
  maxNumReqs : ℕ
  vocabSize : ℕ
  reqIds : List (Option ℕ)
  reqIdToIndex : OrderedDict ℕ ℕ
  tokenIdsCpu : ℕ → ℕ → ℤ
  isTokenIds : ℕ → ℕ → Bool
  reqPromptEmbeds : OrderedDict ℕ (List (List ℚ))
  numTokensNoSpec : ℕ → ℕ
  numPromptTokens : ℕ → ℕ
  numComputedTokensCpu : ℕ → ℕ
  blockTable : MultiGroupBlockTable
  temperatureCpu : ℕ → ℚ
  greedyReqs : Finset ℕ
  randomReqs : Finset ℕ
  topPCpu : ℕ → ℚ
  topPReqs : Finset ℕ
  topKCpu : ℕ → ℤ
  topKReqs : Finset ℕ
  frequencyPenaltiesCpu : ℕ → ℚ
  frequencyPenaltiesReqs : Finset ℕ
  presencePenaltiesCpu : ℕ → ℚ
  presencePenaltiesReqs : Finset ℕ
  repetitionPenaltiesCpu : ℕ → ℚ
  repetitionPenaltiesReqs : Finset ℕ
  numAcceptedTokensCpu : ℕ → ℕ
  requestLoraMapping : ℕ → ℕ
  loraIdToRequestIds : OrderedDict ℕ (Finset ℕ)
  generators : OrderedDict ℕ ℕ
  numLogprobs : OrderedDict ℕ ℤ
  batchUpdateBuilder : BatchUpdateBuilder
  hasAllowedTokenIds : Finset ℕ
  allowedTokenIdsMaskCpuTensor : Option (ℕ → ℕ → Bool)
  badWordsTokenIds : OrderedDict ℕ (List (List ℕ))
  logitsProcessingNeedsTokenIds : ℕ → Bool
  reqOutputTokenIds : List (Option ℕ)
  biases : OrderedDict ℕ (OrderedDict ℕ ℚ)
  minToks : OrderedDict ℕ MinTokensEntry
  specTokenIds : List (List ℤ)
  poolingParams : OrderedDict ℕ PoolingParams
  /-- `sampling_metadata.allowed_token_ids_mask`. -/
  allowedTokenIdsMask : Option (List (ℕ → Bool))

namespace InputBatch

/-- `InputBatch(max_num_reqs, …, vocab_size, …, is_pooling_model)`. -/
def new (maxNumReqs vocabSize : ℕ) (isPoolingModel : Bool) (blockTable : MultiGroupBlockTable) :
    InputBatch where
  isPoolingModel := isPoolingModel
  maxNumReqs := maxNumReqs
  vocabSize := vocabSize
  reqIds := []
  reqIdToIndex := ∅
  tokenIdsCpu := fun _ _ => 0
  isTokenIds := fun _ _ => false
  reqPromptEmbeds := ∅
  numTokensNoSpec := fun _ => 0
  numPromptTokens := fun _ => 0
  numComputedTokensCpu := fun _ => 0
  blockTable := blockTable
  temperatureCpu := fun _ => 0
  greedyReqs := ∅
  randomReqs := ∅
  topPCpu := fun _ => 0
  topPReqs := ∅
  topKCpu := fun _ => 0
  topKReqs := ∅
  frequencyPenaltiesCpu := fun _ => 0
  frequencyPenaltiesReqs := ∅
  presencePenaltiesCpu := fun _ => 0
  presencePenaltiesReqs := ∅
  repetitionPenaltiesCpu := fun _ => 0
  repetitionPenaltiesReqs := ∅
  numAcceptedTokensCpu := fun _ => 1
  requestLoraMapping := fun _ => 0
  loraIdToRequestIds := ∅
  generators := ∅
  numLogprobs := ∅
  batchUpdateBuilder := .new
  hasAllowedTokenIds := ∅
  allowedTokenIdsMaskCpuTensor := none
  badWordsTokenIds := ∅
  logitsProcessingNeedsTokenIds := fun _ => false
  reqOutputTokenIds := []
  biases := ∅
  minToks := ∅
  specTokenIds := replicate maxNumReqs []
  poolingParams := ∅
  allowedTokenIdsMask := none

variable (b : InputBatch)

/-- `num_reqs`. -/
def numReqs : ℕ := b.reqIdToIndex.entries.length

/-! ### `add_request` -/

/-- `_register_add_request`. -/
def registerAddRequest (request : CachedRequestState) : Except PyErr (ℕ × InputBatch) :=
  let (popped, builder) := b.batchUpdateBuilder.popRemoved
  let newReqIndex := popped.getD b.numReqs
  if b.maxNumReqs ≤ newReqIndex then .error (.assertionError "")
  else
    let added := match request.samplingParams with
      | some params =>
        builder.added ++ [⟨newReqIndex, params, request.promptTokenIds, request.reqId⟩]
      | none => builder.added
    .ok (newReqIndex,
      { b with batchUpdateBuilder := { builder with batchChanged := true, added := added } })

/-- The row gets the id of the request. -/
def placeRequest (reqId reqIndex : ℕ) : Except PyErr InputBatch :=
  let b := { b with reqIdToIndex := b.reqIdToIndex.setItem reqId reqIndex }
  if reqIndex = b.reqIds.length then
    .ok { b with
      reqIds := b.reqIds ++ [some reqId]
      reqOutputTokenIds := b.reqOutputTokenIds ++ [some reqId]
      specTokenIds := b.specTokenIds ++ [[]] }
  else if reqIndex < b.reqIds.length then
    .ok { b with
      reqIds := b.reqIds.set reqIndex (some reqId)
      reqOutputTokenIds := b.reqOutputTokenIds.set reqIndex (some reqId)
      specTokenIds := b.specTokenIds.set reqIndex [] }
  else .error (.indexError "list assignment index out of range")

variable (request : CachedRequestState)

/-- The tokens of a request are copied to its row. -/
def addTokens (reqIndex : ℕ) : InputBatch :=
  let startIdx := request.numPromptTokens
  let tokens := match request.promptTokenIds with
    | some ids => setSlice (b.tokenIdsCpu reqIndex) 0 ids
    | none => b.tokenIdsCpu reqIndex
  let isTokens := setSlice (b.isTokenIds reqIndex) 0
    (replicate startIdx request.promptTokenIds.isSome)
  { b with
    numPromptTokens := update b.numPromptTokens reqIndex startIdx
    tokenIdsCpu := update b.tokenIdsCpu reqIndex (setSlice tokens startIdx request.outputTokenIds)
    isTokenIds := update b.isTokenIds reqIndex
      (setSlice isTokens startIdx (replicate request.outputTokenIds.length true))
    reqPromptEmbeds := b.reqPromptEmbeds.setSome reqIndex request.promptEmbeds
    numTokensNoSpec := update b.numTokensNoSpec reqIndex request.numTokens
    numComputedTokensCpu := update b.numComputedTokensCpu reqIndex request.numComputedTokens
    blockTable := b.blockTable.addRow request.blockIds reqIndex }

/-- The value of `top_k` that is stored. -/
def effectiveTopK (topK : ℤ) (vocabSize : ℕ) : ℤ :=
  if 0 < topK ∧ topK < vocabSize then topK else vocabSize

/-- A member is added to a set, if it is to be. -/
def addIf (s : Finset ℕ) (p : Prop) [Decidable p] (reqId : ℕ) : Finset ℕ :=
  if p then insert reqId s else s

/-- The sampling parameters of a request are copied to its row. -/
def addSamplingParams (params : SamplingParams) (reqIndex : ℕ) : InputBatch :=
  let reqId := request.reqId
  { b with
    temperatureCpu := update b.temperatureCpu reqIndex
      (if params.isGreedy then 0 else params.temperature)
    greedyReqs := addIf b.greedyReqs params.isGreedy reqId
    randomReqs := addIf b.randomReqs (¬ params.isGreedy) reqId
    topPCpu := update b.topPCpu reqIndex params.topP
    topPReqs := addIf b.topPReqs (params.topP < 1) reqId
    topKCpu := update b.topKCpu reqIndex (effectiveTopK params.topK b.vocabSize)
    topKReqs := addIf b.topKReqs (0 < params.topK ∧ params.topK < b.vocabSize) reqId
    frequencyPenaltiesCpu := update b.frequencyPenaltiesCpu reqIndex params.frequencyPenalty
    frequencyPenaltiesReqs := addIf b.frequencyPenaltiesReqs (params.frequencyPenalty ≠ 0) reqId
    presencePenaltiesCpu := update b.presencePenaltiesCpu reqIndex params.presencePenalty
    presencePenaltiesReqs := addIf b.presencePenaltiesReqs (params.presencePenalty ≠ 0) reqId
    repetitionPenaltiesCpu := update b.repetitionPenaltiesCpu reqIndex params.repetitionPenalty
    repetitionPenaltiesReqs := addIf b.repetitionPenaltiesReqs (params.repetitionPenalty ≠ 1) reqId
    generators := b.generators.setSome reqIndex request.generator
    numLogprobs := b.numLogprobs.setSome reqId
      (params.logprobs.map fun n => if n = -1 then b.vocabSize else n)
    badWordsTokenIds :=
      b.badWordsTokenIds.setSome reqIndex (params.badWordsTokenIds.filter (· ≠ [])) }

/-- The row of the mask is filled, if the request has `allowed_token_ids`; the mask is allocated with
the first one. -/
def addAllowedTokenIds (reqId reqIndex : ℕ) (allowedTokenIds : Option (List ℕ)) :
    Except PyErr InputBatch :=
  match allowedTokenIds with
  | some (id :: ids) =>
    if ∃ t ∈ id :: ids, b.vocabSize ≤ t then .error (.indexError "index out of range")
    else
      let mask := b.allowedTokenIdsMaskCpuTensor.getD fun _ _ => false
      .ok { b with
        hasAllowedTokenIds := insert reqId b.hasAllowedTokenIds
        allowedTokenIdsMaskCpuTensor := some (update mask reqIndex fun t => t ∉ id :: ids) }
  | _ => .ok b

/-- The LoRA id of a request is copied to its row. -/
def addLora (reqId reqIndex : ℕ) (loraRequest : Option ℕ) : InputBatch := match loraRequest with
  | some loraId => { b with
      requestLoraMapping := update b.requestLoraMapping reqIndex loraId
      loraIdToRequestIds := b.loraIdToRequestIds.setItem loraId
        (insert reqId ((b.loraIdToRequestIds.lookup loraId).getD ∅)) }
  | none => { b with requestLoraMapping := update b.requestLoraMapping reqIndex 0 }

/-- The parameters of a request are copied to its row. -/
def addParams (request : CachedRequestState) (reqIndex : ℕ) : Except PyErr InputBatch :=
  match request.samplingParams, request.poolingParams with
  | some params, _ =>
    (b.addSamplingParams request params reqIndex).addAllowedTokenIds request.reqId reqIndex
      params.allowedTokenIds
  | none, some params => .ok { b with
      poolingParams := b.poolingParams.setItem request.reqId params
      logitsProcessingNeedsTokenIds :=
        update b.logitsProcessingNeedsTokenIds reqIndex params.requiresTokenIds }
  | none, none => .error .notImplementedError

/-- `add_request`. -/
def addRequest (request : CachedRequestState) : Except PyErr InputBatch := do
  let (reqIndex, b) ← b.registerAddRequest request
  let b ← b.placeRequest request.reqId reqIndex
  let b ← (b.addTokens request reqIndex).addParams request reqIndex
  let b := { b with numAcceptedTokensCpu := update b.numAcceptedTokensCpu reqIndex 1 }
  return b.addLora request.reqId reqIndex request.loraRequest

/-- `update_req_spec_token_ids`. -/
def updateReqSpecTokenIds (reqId : ℕ) (specTokenIds : List ℤ) : Except PyErr InputBatch :=
  match b.reqIdToIndex.lookup reqId with
  | none => .error (.keyError "")
  | some reqIndex => .ok { b with
      specTokenIds := b.specTokenIds.set reqIndex specTokenIds
      tokenIdsCpu := update b.tokenIdsCpu reqIndex
        (setSlice (b.tokenIdsCpu reqIndex) (b.numTokensNoSpec reqIndex) specTokenIds) }

/-! ### `remove_request` -/

/-- The LoRA id of a row is removed. -/
def removeLora (reqId reqIndex : ℕ) : Except PyErr InputBatch :=
  let loraId := b.requestLoraMapping reqIndex
  if loraId = 0 then .ok b
  else match b.loraIdToRequestIds.lookup loraId with
    | none => .error (.keyError "")
    | some ids => .ok { b with
        loraIdToRequestIds := if ids.erase reqId = ∅ then b.loraIdToRequestIds.erase loraId
          else b.loraIdToRequestIds.setItem loraId (ids.erase reqId)
        requestLoraMapping := update b.requestLoraMapping reqIndex 0 }

/-- The parameters of a row are removed. -/
def removeParams (reqId reqIndex : ℕ) : InputBatch :=
  if b.isPoolingModel then { b with poolingParams := b.poolingParams.erase reqId }
  else { b with
    greedyReqs := b.greedyReqs.erase reqId
    randomReqs := b.randomReqs.erase reqId
    topPReqs := b.topPReqs.erase reqId
    topKReqs := b.topKReqs.erase reqId
    frequencyPenaltiesReqs := b.frequencyPenaltiesReqs.erase reqId
    presencePenaltiesReqs := b.presencePenaltiesReqs.erase reqId
    repetitionPenaltiesReqs := b.repetitionPenaltiesReqs.erase reqId
    generators := b.generators.erase reqIndex
    numLogprobs := b.numLogprobs.erase reqId
    hasAllowedTokenIds := b.hasAllowedTokenIds.erase reqId
    allowedTokenIdsMaskCpuTensor := b.allowedTokenIdsMaskCpuTensor.map fun mask =>
      update mask reqIndex fun _ => false
    badWordsTokenIds := b.badWordsTokenIds.erase reqIndex }

/-- `remove_request`. -/
def removeRequest (reqId : ℕ) : Except PyErr InputBatch := match b.reqIdToIndex.lookup reqId with
  | none => .ok b
  | some reqIndex => do
    let builder ← b.batchUpdateBuilder.removedAppend reqIndex
    let b ← { b with
      reqIdToIndex := b.reqIdToIndex.erase reqId
      batchUpdateBuilder := builder
      reqIds := b.reqIds.set reqIndex none
      reqOutputTokenIds := b.reqOutputTokenIds.set reqIndex none
      specTokenIds := b.specTokenIds.set reqIndex [] }.removeLora reqId reqIndex
    return b.removeParams reqId reqIndex

/-! ### `swap_states` -/

/-- The rows of the sampling parameters are exchanged. An assignment to a row of the tensor of the
mask writes through a view of it, so that the second one reads what the first one wrote. -/
def swapSamplingParams (i1 i2 : ℕ) : InputBatch :=
  { b with
    batchUpdateBuilder := { b.batchUpdateBuilder with
      moved := b.batchUpdateBuilder.moved ++ [(i1, i2, .swap)] }
    temperatureCpu := swapRows b.temperatureCpu i1 i2
    topPCpu := swapRows b.topPCpu i1 i2
    topKCpu := swapRows b.topKCpu i1 i2
    frequencyPenaltiesCpu := swapRows b.frequencyPenaltiesCpu i1 i2
    presencePenaltiesCpu := swapRows b.presencePenaltiesCpu i1 i2
    repetitionPenaltiesCpu := swapRows b.repetitionPenaltiesCpu i1 i2
    numAcceptedTokensCpu := swapRows b.numAcceptedTokensCpu i1 i2
    generators := b.generators.swapDictValues i1 i2
    badWordsTokenIds := b.badWordsTokenIds.swapDictValues i1 i2
    allowedTokenIdsMaskCpuTensor := b.allowedTokenIdsMaskCpuTensor.map fun mask =>
      copyRow (copyRow mask i2 i1) i1 i2 }

/-- `swap_states`. -/
def swapStates (i1 i2 : ℕ) : Except PyErr InputBatch := match b.reqIds[i1]?, b.reqIds[i2]? with
  | some (some oldIdI1), some (some oldIdI2) =>
    match b.reqIdToIndex.lookup oldIdI1, b.reqIdToIndex.lookup oldIdI2 with
    | some index1, some index2 =>
      let b := { b with
        reqIds := swapEntries b.reqIds i1 i2
        reqOutputTokenIds := swapEntries b.reqOutputTokenIds i1 i2
        specTokenIds := swapEntries b.specTokenIds i1 i2
        reqIdToIndex := (b.reqIdToIndex.setItem oldIdI1 index2).setItem oldIdI2 index1
        numTokensNoSpec := swapRows b.numTokensNoSpec i1 i2
        numPromptTokens := swapRows b.numPromptTokens i1 i2
        numComputedTokensCpu := swapRows b.numComputedTokensCpu i1 i2
        tokenIdsCpu := swapRows b.tokenIdsCpu i1 i2
        isTokenIds := swapRows b.isTokenIds i1 i2
        reqPromptEmbeds := b.reqPromptEmbeds.swapDictValues i1 i2
        blockTable := b.blockTable.swapRow i1 i2
        requestLoraMapping := swapRows b.requestLoraMapping i1 i2 }
      .ok (if b.isPoolingModel then b else b.swapSamplingParams i1 i2)
    | _, _ => .error (.keyError "")
  | some _, some _ => .error (.assertionError "")
  | _, _ => .error (.indexError "list index out of range")

/-! ### `condense` -/

variable (lastReqIndex emptyIndex : ℕ)

/-- The rows of the sampling parameters are copied. -/
def moveSamplingParams : InputBatch :=
  { b with
    batchUpdateBuilder := { b.batchUpdateBuilder with
      moved := b.batchUpdateBuilder.moved ++ [(lastReqIndex, emptyIndex, .unidirectional)] }
    temperatureCpu := copyRow b.temperatureCpu lastReqIndex emptyIndex
    topPCpu := copyRow b.topPCpu lastReqIndex emptyIndex
    topKCpu := copyRow b.topKCpu lastReqIndex emptyIndex
    frequencyPenaltiesCpu := copyRow b.frequencyPenaltiesCpu lastReqIndex emptyIndex
    presencePenaltiesCpu := copyRow b.presencePenaltiesCpu lastReqIndex emptyIndex
    repetitionPenaltiesCpu := copyRow b.repetitionPenaltiesCpu lastReqIndex emptyIndex
    numAcceptedTokensCpu := copyRow b.numAcceptedTokensCpu lastReqIndex emptyIndex
    generators := b.generators.moveDictValue lastReqIndex emptyIndex
    allowedTokenIdsMaskCpuTensor := b.allowedTokenIdsMaskCpuTensor.map fun mask =>
      copyRow mask lastReqIndex emptyIndex
    badWordsTokenIds := b.badWordsTokenIds.moveDictValue lastReqIndex emptyIndex }

/-- The request of the last row moves to an empty row. -/
def moveRequest : Except PyErr InputBatch :=
  match b.reqIds[lastReqIndex]? with
  | some (some reqId) =>
    let specTokenIds := b.specTokenIds.getD lastReqIndex []
    let numTokens := b.numTokensNoSpec lastReqIndex + specTokenIds.length
    let b := { b with
      reqIds := (b.reqIds.set emptyIndex (some reqId)).set lastReqIndex none
      reqOutputTokenIds := (b.reqOutputTokenIds.set emptyIndex
        (b.reqOutputTokenIds.getD lastReqIndex none)).set lastReqIndex none
      reqIdToIndex := b.reqIdToIndex.setItem reqId emptyIndex
      specTokenIds := (b.specTokenIds.set emptyIndex specTokenIds).set lastReqIndex []
      tokenIdsCpu := update b.tokenIdsCpu emptyIndex (setSlice (b.tokenIdsCpu emptyIndex) 0
        ((range numTokens).map (b.tokenIdsCpu lastReqIndex)))
      isTokenIds := update b.isTokenIds emptyIndex (setSlice (b.isTokenIds emptyIndex) 0
        ((range numTokens).map (b.isTokenIds lastReqIndex)))
      reqPromptEmbeds := b.reqPromptEmbeds.moveDictValue lastReqIndex emptyIndex
      numTokensNoSpec := copyRow b.numTokensNoSpec lastReqIndex emptyIndex
      numPromptTokens := copyRow b.numPromptTokens lastReqIndex emptyIndex
      numComputedTokensCpu := copyRow b.numComputedTokensCpu lastReqIndex emptyIndex
      blockTable := b.blockTable.moveRow lastReqIndex emptyIndex
      requestLoraMapping := copyRow b.requestLoraMapping lastReqIndex emptyIndex }
    .ok (if b.isPoolingModel then b else b.moveSamplingParams lastReqIndex emptyIndex)
  | _ => .error (.assertionError "")

/-- The largest non-empty index. -/
def skipRemoved (removed : List ℕ) : ℕ → ℕ
  | 0 => 0
  | n + 1 => if n + 1 ∈ removed then skipRemoved removed n else n + 1

/-- The loop of `condense` over the removed indices. -/
def condenseLoop : List ℕ → InputBatch → ℕ → Except PyErr InputBatch
  | [], b, _ => .ok b
  | emptyIndex :: removed, b, last =>
    let lastReqIndex := skipRemoved (emptyIndex :: removed) last
    if lastReqIndex ≤ emptyIndex then .ok b
    else do
      let b ← { b with batchUpdateBuilder := { b.batchUpdateBuilder with
        removed := removed } }.moveRequest lastReqIndex emptyIndex
      condenseLoop removed b (lastReqIndex - 1)

/-- `condense`. -/
def condense : Except PyErr InputBatch :=
  let b := { b with batchUpdateBuilder := b.batchUpdateBuilder.ensureRemovedSorted }
  let removed := b.batchUpdateBuilder.removed
  let numReqs := b.numReqs
  if removed = [] then .ok b
  else if numReqs = 0 then .ok { b with reqIds := [], reqOutputTokenIds := [], specTokenIds := [] }
  else do
    let b ← condenseLoop removed b (numReqs + removed.length - 1)
    return { b with
      reqIds := b.reqIds.take numReqs
      reqOutputTokenIds := b.reqOutputTokenIds.take numReqs
      specTokenIds := b.specTokenIds.take numReqs }

/-! ### `refresh_metadata` -/

/-- The mask of `_make_sampling_metadata`. -/
def makeSamplingMetadata : Except PyErr InputBatch :=
  if b.hasAllowedTokenIds = ∅ then .ok { b with allowedTokenIdsMask := none }
  else match b.allowedTokenIdsMaskCpuTensor with
    | none => .error (.assertionError "")
    | some mask => .ok { b with allowedTokenIdsMask := some ((range b.numReqs).map mask) }

/-- `refresh_metadata`. -/
def refreshMetadata (outputs : ℕ → List ℤ) : Except PyErr InputBatch := if b.isPoolingModel then
    let (batchChanged, builder) := b.batchUpdateBuilder.reset
    let b := { b with batchUpdateBuilder := builder }
    if batchChanged then b.makeSamplingMetadata else .ok b
  else
    let (batchUpdate, builder) := b.batchUpdateBuilder.getAndReset b.numReqs
    let b := { b with
      batchUpdateBuilder := builder
      biases := LogitBiasLogitsProcessor.updateState b.biases batchUpdate
      minToks := MinTokensLogitsProcessor.updateState outputs b.minToks batchUpdate }
    if batchUpdate.isSome then b.makeSamplingMetadata else .ok b

end InputBatch

end LoptVllm.Worker
