import LoptVllm.StructuredOutput.Manager

/-!
# The bitmasks in the worker

The worker brings the rows into the order of its batch, in which a request has one row more than it
has draft tokens.
-/

namespace LoptVllm.StructuredOutput

variable {ρ Mask Row : Type} [DecidableEq ρ]

/-- The index of the first row of each structured request, and the offset of the drafts. -/
structure BatchIndices (ρ : Type) where
  structOutReqBatchIndices : OrderedDict ρ ℕ
  batchIndex : ℕ
  cumulativeOffset : ℕ

variable (specTokens : OrderedDict ρ (List ℤ))

/-- The number of draft tokens of a request. -/
def numSpecTokens (reqId : ρ) : ℕ :=
  ((specTokens.lookup reqId).getD []).length

/-- A round of the loop over the batch. -/
def batchRound (structOutReqIds : List ρ) (b : BatchIndices ρ) (reqId : ρ) : BatchIndices ρ where
  structOutReqBatchIndices := if reqId ∈ structOutReqIds then
      b.structOutReqBatchIndices.setItem reqId (b.batchIndex + b.cumulativeOffset)
    else b.structOutReqBatchIndices
  batchIndex := b.batchIndex + 1
  cumulativeOffset := b.cumulativeOffset + numSpecTokens specTokens reqId

/-- The bitmask in the order of the batch, while it is put together. -/
structure Sorting (Mask : Type) where
  sortedBitmask : List Mask
  outIndices : List ℕ
  cumulativeIndex : ℕ

/-- A row of the bitmask is copied. -/
def copyMask (grammarBitmask : List Mask) (logitIdx : ℕ) (s : Sorting Mask) (i : ℕ) :
    Except PyErr (Sorting Mask) :=
  match grammarBitmask[s.cumulativeIndex + i]? with
  | none => .error (.indexError "")
  | some mask =>
    if logitIdx + i < s.sortedBitmask.length then
      .ok { s with
        sortedBitmask := s.sortedBitmask.set (logitIdx + i) mask
        outIndices := s.outIndices ++ [logitIdx + i] }
    else .error (.indexError "")

/-- The rows of a request are copied, if it is in the batch. -/
def sortRequest (indices : OrderedDict ρ ℕ)
    (grammarBitmask : List Mask) (s : Sorting Mask) (reqId : ρ) : Except PyErr (Sorting Mask) := do
  let n := 1 + numSpecTokens specTokens reqId
  let s ← match indices.lookup reqId with
    | none => .ok s
    | some logitIdx => (List.range n).foldlM (copyMask grammarBitmask logitIdx) s
  return { s with cumulativeIndex := s.cumulativeIndex + n }

/-- `apply_grammar_bitmask`, with the kernel that masks the logits, on all rows or on some of them. -/
def applyGrammarBitmask (full : Mask)
    (applyTokenBitmaskInplace : List Row → List Mask → Option (List ℕ) → List Row)
    (output : SchedulerOutput ρ) (grammarOutput : GrammarOutput ρ Mask) (reqIds : List ρ)
    (logits : List Row) : Except PyErr (List Row) :=
  match grammarOutput.grammarBitmask with
  | none => .error (.attributeError "")
  | some grammarBitmask => do
    let specTokens := output.scheduledSpecDecodeTokens
    let b := reqIds.foldl (batchRound specTokens grammarOutput.structuredOutputRequestIds) ⟨∅, 0, 0⟩
    let s ← grammarOutput.structuredOutputRequestIds.foldlM
      (sortRequest specTokens b.structOutReqBatchIndices grammarBitmask)
      ⟨.replicate logits.length full, [], 0⟩
    return applyTokenBitmaskInplace logits s.sortedBitmask
      (if s.outIndices.length = logits.length then none else some s.outIndices)

/-- `sample_tokens`: the bitmask is applied if there is one. -/
def applyGrammarOutput (full : Mask)
    (applyTokenBitmaskInplace : List Row → List Mask → Option (List ℕ) → List Row)
    (output : SchedulerOutput ρ) (grammarOutput : Option (GrammarOutput ρ Mask)) (reqIds : List ρ)
    (logits : List Row) : Except PyErr (List Row) :=
  match grammarOutput with
  | none => .ok logits
  | some grammarOutput =>
    applyGrammarBitmask full applyTokenBitmaskInplace output grammarOutput reqIds logits

/-- The kernel puts the mask of a row on the logits of that row, on all rows or on those that are
listed; a mask that allows all changes nothing. -/
structure AppliesBitmask (full : Mask) (applyMask : Mask → Row → Row)
    (applyTokenBitmaskInplace : List Row → List Mask → Option (List ℕ) → List Row) : Prop where
  fullMask : ∀ row, applyMask full row = row
  allRows : ∀ logits bitmask, bitmask.length = logits.length →
    applyTokenBitmaskInplace logits bitmask none = List.zipWith applyMask bitmask logits
  someRows : ∀ logits bitmask indices, bitmask.length = logits.length →
    (∀ i ∈ indices, i < logits.length) → ∀ i : ℕ,
      (applyTokenBitmaskInplace logits bitmask (some indices))[i]? =
        if i ∈ indices then (List.zipWith applyMask bitmask logits)[i]? else logits[i]?

end LoptVllm.StructuredOutput
