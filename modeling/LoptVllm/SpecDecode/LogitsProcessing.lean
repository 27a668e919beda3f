import LoptVllm.Lib.OrderedDict
import Mathlib.Algebra.Order.Field.Basic
import Mathlib.Algebra.Order.WithTop.Untop0

/-!
# Logits processing with draft tokens

`Sampler.apply_logits_processors` has a row of logits for each request, and
`RejectionSampler.apply_logits_processors` one for each draft token. A logit is a number, or `⊥` for
`-inf`. What raises gives `none`.
-/

namespace LoptVllm.SpecDecode

open List

/-- A request of a batch, with its sampling parameters. -/
structure SamplingRequest (K : Type) [Field K] [LinearOrder K] where
  promptTokenIds : List ℕ
  outputTokenIds : List ℕ
  specTokenIds : List ℕ
  presencePenalty : K
  frequencyPenalty : K
  repetitionPenalty : K
  repetitionPenalty_pos : 0 < repetitionPenalty
  badWordsTokenIds : List (List ℕ)
  badWords_ne_nil : ∀ word ∈ badWordsTokenIds, word ≠ []
  allowedTokenIds : List ℕ

/-- The batch of a step. The bad words are in the order in which their requests were added. -/
structure InputBatch (K : Type) [Field K] [LinearOrder K] where
  requests : List (SamplingRequest K)
  badWordsTokenIds : OrderedDict ℕ (List (List ℕ))
  lookup_badWords : ∀ i, badWordsTokenIds.lookup i =
    (requests[i]?).bind fun r => if r.badWordsTokenIds = [] then none else some r.badWordsTokenIds
  logitsprocsNeedOutputTokenIds : Bool
  vocabSize : ℕ
  badWords_lt : ∀ r ∈ requests, ∀ word ∈ r.badWordsTokenIds, ∀ t ∈ word, t < vocabSize

/-- `SamplingMetadata`, as far as the two functions read it. -/
structure SamplingMetadata (K : Type) where
  noPenalties : Bool
  promptTokenIds : Option (List (List ℕ))
  frequencyPenalties : List K
  presencePenalties : List K
  repetitionPenalties : List K
  outputTokenIds : List (List ℕ)
  specTokenIds : Option (List (List ℕ))
  allowedTokenIdsMask : Option (List (List Bool))
  badWordsTokenIds : OrderedDict ℕ (List (List ℕ))

/-- `make_tensor_with_pad`. -/
def makeTensorWithPad (pad : ℕ) (rows : List (List ℕ)) : List (List ℕ) :=
  rows.map fun row => row ++ replicate ((rows.map length).foldr max 0 - row.length) pad

section

variable {K : Type} [Field K] [LinearOrder K]

namespace SamplingRequest

variable (r : SamplingRequest K)

/-- Whether the request is in one of the sets of requests with penalties. -/
def HasPenalties : Prop := r.presencePenalty ≠ 0 ∨ r.frequencyPenalty ≠ 0 ∨ r.repetitionPenalty ≠ 1

instance : Decidable r.HasPenalties := inferInstanceAs (Decidable (_ ∨ _))

/-- The row of `allowed_token_ids_mask`: `false` means that the logit is kept. -/
def allowedMask (vocabSize : ℕ) : List Bool :=
  (range vocabSize).map fun t => decide (r.allowedTokenIds ≠ [] ∧ t ∉ r.allowedTokenIds)

end SamplingRequest

namespace InputBatch

variable (b : InputBatch K)

/-- `no_penalties`. -/
def noPenalties : Bool := b.requests.all fun r => decide ¬r.HasPenalties

/-- `no_allowed_token_ids`. -/
def noAllowedTokenIds : Bool := b.requests.all fun r => decide (r.allowedTokenIds = [])

/-- `_make_sampling_metadata`. -/
def makeSamplingMetadata : SamplingMetadata K :=
  let needsOutputTokenIds :=
    !b.noPenalties || decide (b.badWordsTokenIds.items ≠ []) || b.logitsprocsNeedOutputTokenIds
  { noPenalties := b.noPenalties
    promptTokenIds := if b.noPenalties then none
      else some (makeTensorWithPad b.vocabSize (b.requests.map (·.promptTokenIds)))
    frequencyPenalties := b.requests.map (·.frequencyPenalty)
    presencePenalties := b.requests.map (·.presencePenalty)
    repetitionPenalties := b.requests.map (·.repetitionPenalty)
    outputTokenIds := if needsOutputTokenIds then b.requests.map (·.outputTokenIds) else []
    specTokenIds := some (b.requests.map (·.specTokenIds))
    allowedTokenIdsMask := if b.noAllowedTokenIds then none
      else some (b.requests.map (·.allowedMask b.vocabSize))
    badWordsTokenIds := b.badWordsTokenIds }

end InputBatch

/-! ### Operations on the rows -/

/-- A row of logits. -/
abbrev Logits (K : Type) := List (WithBot K)

/-- `apply_penalties` on a row. The padding is not in the vocabulary, and is not counted. -/
def penalizeRow (promptTokens outputTokens : List ℕ) (presencePenalty frequencyPenalty
    repetitionPenalty : K) (logits : Logits K) : Logits K :=
  logits.mapIdx fun t x =>
    let penalty := if t ∈ promptTokens ∨ t ∈ outputTokens then repetitionPenalty else 1
    let x := x.map fun v => v * if v > 0 then 1 / penalty else penalty
    let x := x.map fun v => v - frequencyPenalty * outputTokens.count t
    x.map fun v => v - presencePenalty * if t ∈ outputTokens then 1 else 0

/-- `apply_all_penalties`. -/
def applyAllPenalties (vocabSize : ℕ) (logits : List (Logits K)) (promptTokenIds : List (List ℕ))
    (presencePenalties frequencyPenalties repetitionPenalties : List K)
    (outputTokenIds : List (List ℕ)) : Option (List (Logits K)) :=
  let outputTokens := makeTensorWithPad vocabSize outputTokenIds
  -- the rows of the tensors have to be those of the logits
  if promptTokenIds.length = logits.length ∧ outputTokens.length = logits.length ∧
      presencePenalties.length = logits.length ∧ frequencyPenalties.length = logits.length ∧
      repetitionPenalties.length = logits.length then
    some (logits.mapIdx fun i row => penalizeRow (promptTokenIds.getD i []) (outputTokens.getD i [])
      (presencePenalties.getD i 0) (frequencyPenalties.getD i 0) (repetitionPenalties.getD i 0) row)
  else none

/-- `masked_fill_` on a row, with `-inf`. -/
def maskRow (mask : List Bool) (logits : Logits K) : Logits K :=
  zipWith (fun x masked => if masked then ⊥ else x) logits mask

variable (logits : List (Logits K))

/-- `masked_fill_`: a single row of the mask is used for all. -/
def maskedFill (mask : List (List Bool)) : Option (List (Logits K)) :=
  match mask with
  | [row] => some (logits.map (maskRow row))
  | _ => if mask.length = logits.length then some (zipWith maskRow mask logits) else none

/-- `_apply_bad_words_single_batch`. -/
def applyBadWordsSingleBatch (logits : Logits K) (badWordsTokenIds : List (List ℕ))
    (pastTokensIds : List ℕ) : Logits K :=
  badWordsTokenIds.foldl (fun logits badWordIds =>
    if badWordIds.length > pastTokensIds.length + 1 then logits
    else
      let prefixLength := badWordIds.length - 1
      let lastTokenId := badWordIds.getLastD 0
      let actualPrefix :=
        if prefixLength > 0 then pastTokensIds.drop (pastTokensIds.length - prefixLength) else []
      let expectedPrefix := badWordIds.take prefixLength
      if actualPrefix = expectedPrefix then logits.set lastTokenId ⊥ else logits) logits

/-- `_apply_bad_words_single_batch` on a row of the logits. -/
def badWordsAt (i : ℕ) (badWordsIds : List (List ℕ))
    (pastTokensIds : List (List ℕ)) : Option (List (Logits K)) := do
  let row ← logits[i]?
  let past ← pastTokensIds[i]?
  some (logits.set i (applyBadWordsSingleBatch row badWordsIds past))

/-- `apply_bad_words`. -/
def applyBadWords (badWordsTokenIds : OrderedDict ℕ (List (List ℕ)))
    (pastTokensIds : List (List ℕ)) : Option (List (Logits K)) :=
  badWordsTokenIds.items.foldlM (fun logits item => badWordsAt logits item.1 item.2 pastTokensIds) logits

/-- The loop of `apply_bad_words_with_drafts`, from the request `i` on. -/
def badWordsLoop (badWordsTokenIds : OrderedDict ℕ (List (List ℕ))) (pastTokensIds : List (List ℕ)) :
    ℕ → ℕ → ℕ → List ℕ → List (Logits K) → Option (List (Logits K))
  | _, _, _, [], logits => some logits
  | i, startIdx, remaining, n :: ns, logits =>
    match badWordsTokenIds.lookup i with
    | none => badWordsLoop badWordsTokenIds pastTokensIds (i + 1) (startIdx + n) remaining ns logits
    | some badWordsIds => do
      let logits ← (range' startIdx n).foldlM (fun logits draftIdx =>
        badWordsAt logits draftIdx badWordsIds pastTokensIds) logits
      let remaining := remaining - 1
      if remaining = 0 then some logits
      else badWordsLoop badWordsTokenIds pastTokensIds (i + 1) (startIdx + n) remaining ns logits

/-- `apply_bad_words_with_drafts`. -/
def applyBadWordsWithDrafts (logits : List (Logits K))
    (badWordsTokenIds : OrderedDict ℕ (List (List ℕ))) (pastTokensIds : List (List ℕ))
    (numDraftTokens : List ℕ) : Option (List (Logits K)) :=
  badWordsLoop badWordsTokenIds pastTokensIds 0 0 badWordsTokenIds.items.length numDraftTokens logits

/-- `torch.arange(n).repeat_interleave(repeats)`: a single number of repeats is used for all. -/
def repeatInterleave (n : ℕ) (repeats : List ℕ) : Option (List ℕ) := match repeats with
  | [k] => some ((range n).flatMap fun i => replicate k i)
  | _ =>
    if repeats.length = n then some ((range n).flatMap fun i => replicate (repeats.getD i 0) i)
    else none

/-- Indexing of a tensor by a tensor of indices. -/
def gather {α : Type} (l : List α) (indices : List ℕ) : Option (List α) := indices.mapM (l[·]?)

/-! ### The two samplers -/

namespace Sampler

/-- `Sampler._combine_outputs_with_spec_tokens`. -/
def combineOutputsWithSpecTokens (outputTokenIds : List (List ℕ)) :
    Option (List (List ℕ)) → List (List ℕ)
  | none => outputTokenIds
  | some specTokenIds =>
    zipWith (fun out spec => if spec = [] then out else out ++ spec) outputTokenIds specTokenIds

/-- `Sampler.apply_penalties`. -/
def applyPenalties (vocabSize : ℕ) (m : SamplingMetadata K) (logits : List (Logits K))
    (outputTokenIds : List (List ℕ)) : Option (List (Logits K)) :=
  if m.noPenalties then some logits
  else do
    let promptTokenIds ← m.promptTokenIds
    applyAllPenalties vocabSize logits promptTokenIds m.presencePenalties m.frequencyPenalties
      m.repetitionPenalties outputTokenIds

/-- `Sampler.apply_logits_processors`. -/
def applyLogitsProcessors (vocabSize : ℕ) (m : SamplingMetadata K) (predictBonusToken : Bool)
    (logits : List (Logits K)) : Option (List (Logits K)) := do
  let anyPenaltiesOrBadWords := decide (m.badWordsTokenIds.items ≠ []) || !m.noPenalties
  let outputTokenIds := if predictBonusToken && anyPenaltiesOrBadWords then
    combineOutputsWithSpecTokens m.outputTokenIds m.specTokenIds else m.outputTokenIds
  let logits ← (match m.allowedTokenIdsMask with
    | none => some logits
    | some mask => maskedFill logits mask)
  let logits ← (if m.badWordsTokenIds.items = [] then some logits
    else applyBadWords logits m.badWordsTokenIds outputTokenIds)
  applyPenalties vocabSize m logits outputTokenIds

end Sampler

namespace RejectionSampler

/-- The loop over the requests in `RejectionSampler._combine_outputs_with_spec_tokens`. -/
def combineLoop : List (List ℕ × List ℕ) → List (List ℕ) → List (List ℕ)
  | [], result => result
  | (out, spec) :: rest, result =>
    if spec.length = 0 then combineLoop rest result
    else combineLoop rest ((range (spec.length - 1)).foldl
      (fun result i => result ++ [result.getLastD [] ++ [spec.getD i 0]]) (result ++ [out]))

/-- `RejectionSampler._combine_outputs_with_spec_tokens`. -/
def combineOutputsWithSpecTokens (outputTokenIds : List (List ℕ)) :
    Option (List (List ℕ)) → List (List ℕ)
  | none => outputTokenIds
  | some specTokenIds => combineLoop (outputTokenIds.zip specTokenIds) []

/-- `RejectionSampler.apply_penalties`. -/
def applyPenalties (vocabSize : ℕ) (logits : List (Logits K)) (m : SamplingMetadata K)
    (repeatIndices : List ℕ) (outputTokenIds : List (List ℕ)) : Option (List (Logits K)) :=
  if m.noPenalties then some logits
  else do
    let promptTokenIds ← gather (← m.promptTokenIds) repeatIndices
    let presencePenalties ← gather m.presencePenalties repeatIndices
    let frequencyPenalties ← gather m.frequencyPenalties repeatIndices
    let repetitionPenalties ← gather m.repetitionPenalties repeatIndices
    applyAllPenalties vocabSize logits promptTokenIds presencePenalties frequencyPenalties
      repetitionPenalties outputTokenIds

/-- `RejectionSampler.apply_logits_processors`. -/
def applyLogitsProcessors (vocabSize : ℕ) (m : SamplingMetadata K) (numDraftTokens : List ℕ)
    (logits : List (Logits K)) : Option (List (Logits K)) := do
  let hasPenalties := !m.noPenalties
  let anyPenaltiesOrBadWords := decide (m.badWordsTokenIds.items ≠ []) || hasPenalties
  let outputTokenIds := if anyPenaltiesOrBadWords then
    combineOutputsWithSpecTokens m.outputTokenIds m.specTokenIds else m.outputTokenIds
  let logits ← (if m.allowedTokenIdsMask.isSome || hasPenalties then do
      let numRequests := m.outputTokenIds.length
      let repeatIndices ← repeatInterleave numRequests numDraftTokens
      let logits ← applyPenalties vocabSize logits m repeatIndices outputTokenIds
      match m.allowedTokenIdsMask with
      | none => some logits
      | some mask => maskedFill logits (← gather mask repeatIndices)
    else some logits)
  if m.badWordsTokenIds.items = [] then some logits
  else applyBadWordsWithDrafts logits m.badWordsTokenIds outputTokenIds numDraftTokens

end RejectionSampler

end

end LoptVllm.SpecDecode
