import LoptVllm.Lib.Overwrite
import Mathlib.Algebra.Order.Field.Basic
import Mathlib.Data.List.GetD

/-!
# Rejection sampling of draft tokens

The tensors of a step are flat: the rows of a request are those from `cu_num_draft_tokens[r - 1]` up to
`cu_num_draft_tokens[r]`. A kernel runs once for each request (and position), and loads and stores at
computed offsets.
-/

namespace LoptVllm.SpecDecode

open List

/-- `PLACEHOLDER_TOKEN_ID`. -/
def placeholderTokenId : ℤ := -1

/-- The tensors of `rejection_sample`. Probabilities are in row-major order. -/
structure Tensors (K : Type) where
  draftTokenIds : List ℕ
  numDraftTokens : List ℕ
  maxSpecLen : ℕ
  cuNumDraftTokens : List ℕ
  draftProbs : Option (List K)
  targetProbs : List K
  bonusTokenIds : List ℕ
  temperature : List K
  vocabSize : ℕ
  paddedVocabSize : ℕ

section

variable {K : Type} [Field K] [LinearOrder K]

/-- The index of the first greatest value, if there is a greater value than `best` at `idx`. -/
def argmaxFrom (best : K) (idx i : ℕ) : List K → ℕ
  | [] => idx
  | x :: xs => if best < x then argmaxFrom x i (i + 1) xs else argmaxFrom best idx (i + 1) xs

/-- `argmax`. -/
def argmax : List K → ℕ
  | [] => 0
  | x :: xs => argmaxFrom x 0 1 xs

namespace Tensors

variable (t : Tensors K)

/-- `start_idx` of a request. -/
def startIdx (reqIdx : ℕ) : ℕ := if reqIdx = 0 then 0 else t.cuNumDraftTokens.getD (reqIdx - 1) 0

/-- `num_draft_tokens` of a request in the kernels. -/
def numDrafts (reqIdx : ℕ) : ℕ := t.cuNumDraftTokens.getD reqIdx 0 - t.startIdx reqIdx

/-- `sampling_metadata.all_greedy`: no request is random. -/
def allGreedy : Bool := t.temperature.all fun temperature => decide (temperature = 0)

/-- `sampling_metadata.all_random`: no request is greedy. -/
def allRandom : Bool := t.temperature.all fun temperature => decide (temperature ≠ 0)

end Tensors

/-- The loop of the two kernels over the draft positions: a token is stored at each position up to the
first rejection, and the bonus token after the last position if none was rejected. -/
def storeTokens (base n : ℕ) (tokenAt : ℕ → ℤ × Bool) (bonus : ℤ) (out : List ℤ) : List ℤ :=
  let (rejected, out) := (range n).foldl (fun (s : Bool × List ℤ) pos =>
    if s.1 then s
    else
      let (token, rejected) := tokenAt pos
      (rejected, s.2.set (base + pos) token)) (false, out)
  if rejected then out else out.set (base + n) bonus

variable (t : Tensors K)

/-- `rejection_greedy_sample_kernel`. -/
def rejectionGreedySampleKernel (targetArgmax : List ℕ) (isGreedy : Option (List Bool)) (reqIdx : ℕ)
    (out : List ℤ) : List ℤ :=
  if (isGreedy.elim true fun l => l.getD reqIdx false) = false then out
  else
    storeTokens (reqIdx * (t.maxSpecLen + 1)) (t.numDrafts reqIdx)
      (fun pos =>
        let draftTokenId := t.draftTokenIds.getD (t.startIdx reqIdx + pos) 0
        let targetArgmaxId := targetArgmax.getD (t.startIdx reqIdx + pos) 0
        (targetArgmaxId, decide (draftTokenId ≠ targetArgmaxId)))
      (t.bonusTokenIds.getD reqIdx 0) out

/-- `rejection_random_sample_kernel`. -/
def rejectionRandomSampleKernel (recoveredTokenIds : List ℕ) (uniformProbs : List K)
    (isGreedy : List Bool) (reqIdx : ℕ) (out : List ℤ) : List ℤ :=
  if isGreedy.getD reqIdx false then out
  else
    storeTokens (reqIdx * (t.maxSpecLen + 1)) (t.numDrafts reqIdx)
      (fun pos =>
        let draftTokenId := t.draftTokenIds.getD (t.startIdx reqIdx + pos) 0
        let draftProb := match t.draftProbs with
          | none => 1
          | some draftProbs =>
            draftProbs.getD ((t.startIdx reqIdx + pos) * t.vocabSize + draftTokenId) 0
        let targetProb :=
          t.targetProbs.getD ((t.startIdx reqIdx + pos) * t.vocabSize + draftTokenId) 0
        let uniformProb := uniformProbs.getD (t.startIdx reqIdx + pos) 0
        -- a draft probability of 0 is rejected, too
        if draftProb > 0 ∧ targetProb / draftProb ≥ uniformProb then (draftTokenId, false)
        else (recoveredTokenIds.getD (t.startIdx reqIdx + pos) 0, true))
      (t.bonusTokenIds.getD reqIdx 0) out

/-- `tl.argmax(prob / q)`: the padding has the weight 0 (and `q` is `-inf` there). -/
def recoveredId (paddedVocabSize vocabSize : ℕ) (prob q : ℕ → K) : ℕ :=
  argmax ((range paddedVocabSize).map fun i => if i < vocabSize then prob i / q i else 0)

/-- The weights of `sample_recovered_tokens_kernel` at a position: the target without the draft token
if there is no draft distribution, else what the target exceeds the draft by. -/
def recoveredProb (reqIdx pos : ℕ) (i : ℕ) : K := match t.draftProbs with
  | none =>
    let draftTokenId := t.draftTokenIds.getD (t.startIdx reqIdx + pos) 0
    if i < t.vocabSize ∧ i ≠ draftTokenId then
      t.targetProbs.getD ((t.startIdx reqIdx + pos) * t.vocabSize + i) 0
    else 0
  | some draftProbs =>
    let draftProb :=
      if i < t.vocabSize then draftProbs.getD ((t.startIdx reqIdx + pos) * t.vocabSize + i) 0 else 0
    let targetProb :=
      if i < t.vocabSize then t.targetProbs.getD ((t.startIdx reqIdx + pos) * t.vocabSize + i) 0 else 0
    max (targetProb - draftProb) 0

/-- `sample_recovered_tokens_kernel`. -/
def sampleRecoveredTokensKernel (q : List K) (reqIdx pos : ℕ) (out : List ℕ) : List ℕ :=
  if t.numDrafts reqIdx ≤ pos then out
  else
    out.set (t.startIdx reqIdx + pos)
      (recoveredId t.paddedVocabSize t.vocabSize (recoveredProb t reqIdx pos)
        fun i => q.getD (reqIdx * t.vocabSize + i) 0)

/-- `sample_recovered_tokens`. -/
def sampleRecoveredTokens (q : List K) : List ℕ :=
  (range t.numDraftTokens.length).foldl (fun out reqIdx =>
    (range t.maxSpecLen).foldl (fun out pos => sampleRecoveredTokensKernel t q reqIdx pos out) out)
    (t.draftTokenIds.map fun _ => 0)

/-- `rejection_sample`, for the random numbers `uniform_probs` and `q`. -/
def rejectionSample (uniformProbs q : List K) : List ℤ :=
  let batchSize := t.numDraftTokens.length
  let out := replicate (batchSize * (t.maxSpecLen + 1)) placeholderTokenId
  let isGreedy := if t.allGreedy then none
    else some (t.temperature.map fun temperature => decide (temperature = 0))
  let out := if t.allRandom then out
    else
      let targetArgmax := (range t.draftTokenIds.length).map fun i =>
        argmax ((range t.vocabSize).map fun x => t.targetProbs.getD (i * t.vocabSize + x) 0)
      (range batchSize).foldl
        (fun out reqIdx => rejectionGreedySampleKernel t targetArgmax isGreedy reqIdx out) out
  match isGreedy with
  | none => out
  | some isGreedy =>
    (range batchSize).foldl (fun out reqIdx => rejectionRandomSampleKernel t
      (sampleRecoveredTokens t q) uniformProbs isGreedy reqIdx out) out

/-- The tokens of a request in the output: its row without the placeholders. -/
def outputTokens (maxSpecLen : ℕ) (out : List ℤ) (reqIdx : ℕ) : List ℤ :=
  ((out.drop (reqIdx * (maxSpecLen + 1))).take (maxSpecLen + 1)).filter fun token =>
    decide (token ≠ placeholderTokenId)

end

/-! ### The tensors of the requests -/

/-- A request of the step: its draft tokens, and a row of probabilities for each of them. -/
structure SpecRow (K : Type) where
  draftTokenIds : List ℕ
  draftProbs : List (List K)
  targetProbs : List (List K)
  bonusTokenId : ℕ
  temperature : K

/-- The tensors of the requests of a step. -/
def tensorsOf {K : Type} (vocabSize paddedVocabSize maxSpecLen : ℕ) (hasDraftProbs : Bool)
    (rows : List (SpecRow K)) : Tensors K where
  draftTokenIds := rows.flatMap (·.draftTokenIds)
  numDraftTokens := rows.map (·.draftTokenIds.length)
  maxSpecLen := maxSpecLen
  cuNumDraftTokens := (range rows.length).map fun i =>
    ((rows.take (i + 1)).map (·.draftTokenIds.length)).sum
  draftProbs := if hasDraftProbs then some (rows.flatMap (·.draftProbs)).flatten else none
  targetProbs := (rows.flatMap (·.targetProbs)).flatten
  bonusTokenIds := rows.map (·.bonusTokenId)
  temperature := rows.map (·.temperature)
  vocabSize := vocabSize
  paddedVocabSize := paddedVocabSize

/-- The rows of a request fit the tensors. -/
structure SpecRow.Fits {K : Type} (vocabSize maxSpecLen : ℕ) (hasDraftProbs : Bool) (r : SpecRow K) :
    Prop where
  length_le : r.draftTokenIds.length ≤ maxSpecLen
  draftTokenIds : ∀ d ∈ r.draftTokenIds, d < vocabSize
  length_targetProbs : r.targetProbs.length = r.draftTokenIds.length
  targetProbs : ∀ p ∈ r.targetProbs, p.length = vocabSize
  length_draftProbs : hasDraftProbs = true → r.draftProbs.length = r.draftTokenIds.length
  draftProbs : hasDraftProbs = true → ∀ p ∈ r.draftProbs, p.length = vocabSize

end LoptVllm.SpecDecode
