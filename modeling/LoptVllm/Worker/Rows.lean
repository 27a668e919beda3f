import LoptVllm.Worker.ModelRunner

/-!
# The rows of the persistent batch
-/

namespace LoptVllm.Worker

open SamplingParams

open List Option Function OrderedDict AList Except Equiv MultiGroupBlockTable BatchUpdateBuilder

/-- The sampling parameters of a row. -/
structure SamplingRow where
  temperature : ℚ
  topP : ℚ
  topK : ℤ
  frequencyPenalty : ℚ
  presencePenalty : ℚ
  repetitionPenalty : ℚ
  generator : Option ℕ
  badWords : Option (List (List ℕ))

/-- A row of the batch. A position whose token id is not known has no token. -/
@[ext]
structure Row where
  outputTokenIds : Option ℕ
  numPromptTokens : ℕ
  numTokens : ℕ
  tokens : List (Option ℤ)
  numComputedTokens : ℕ
  blocks : List (List ℕ)
  loraId : ℕ
  /-- The rows of a pooling model have no sampling parameters. -/
  sampling : Option SamplingRow

/-- The tokens of a request. -/
def CachedRequestState.tokens (req : CachedRequestState) : List (Option ℤ) :=
  (match req.promptTokenIds with
    | some ids => ids.map some
    | none => replicate req.numPromptTokens none) ++ req.outputTokenIds.map some

namespace InputBatch

variable (b : InputBatch)

/-- The tokens of a row. -/
def tokens (i : ℕ) : List (Option ℤ) := (range (b.numTokensNoSpec i)).map fun j =>
    if b.isTokenIds i j then some (b.tokenIdsCpu i j) else none

/-- The sampling parameters at a row. -/
def samplingAt (i : ℕ) : SamplingRow where
  temperature := b.temperatureCpu i
  topP := b.topPCpu i
  topK := b.topKCpu i
  frequencyPenalty := b.frequencyPenaltiesCpu i
  presencePenalty := b.presencePenaltiesCpu i
  repetitionPenalty := b.repetitionPenaltiesCpu i
  generator := b.generators.lookup i
  badWords := b.badWordsTokenIds.lookup i

/-- What the arrays hold at a row. -/
def row (i : ℕ) : Row where
  outputTokenIds := (b.reqOutputTokenIds[i]?).join
  numPromptTokens := b.numPromptTokens i
  numTokens := b.numTokensNoSpec i
  tokens := b.tokens i
  numComputedTokens := b.numComputedTokensCpu i
  blocks := b.blockTable.row i
  loraId := b.requestLoraMapping i
  sampling := if b.isPoolingModel then none else some (b.samplingAt i)

variable (req : CachedRequestState)

/-- The sampling parameters of a request. -/
def samplingOf (params : SamplingParams) : SamplingRow where
  temperature := if params.isGreedy then 0 else params.temperature
  topP := params.topP
  topK := effectiveTopK params.topK b.vocabSize
  frequencyPenalty := params.frequencyPenalty
  presencePenalty := params.presencePenalty
  repetitionPenalty := params.repetitionPenalty
  generator := req.generator
  badWords := params.badWordsTokenIds.filter (· ≠ [])

/-- What the arrays are to hold for a request. -/
def rowOf : Row where
  outputTokenIds := some req.reqId
  numPromptTokens := req.numPromptTokens
  numTokens := req.numTokens
  tokens := req.tokens
  numComputedTokens := req.numComputedTokens
  blocks := b.blockTable.kernelBlocks req.blockIds
  loraId := req.loraRequest.getD 0
  sampling := req.samplingParams.map (b.samplingOf req)

/-- What an operation does not change. -/
structure SameConfig (b b' : InputBatch) : Prop where
  isPoolingModel : b'.isPoolingModel = b.isPoolingModel
  maxNumReqs : b'.maxNumReqs = b.maxNumReqs
  vocabSize : b'.vocabSize = b.vocabSize
  kernelBlocks : b'.blockTable.kernelBlocks = b.blockTable.kernelBlocks
  length_blockTable : b'.blockTable.length = b.blockTable.length

variable {b} {b' : InputBatch}

theorem SameConfig.rowOf (h : SameConfig b b') (req : CachedRequestState) :
    b'.rowOf req = b.rowOf req := by
  unfold InputBatch.rowOf samplingOf
  rw [h.kernelBlocks, h.vocabSize]

theorem SameConfig.trans {b'' : InputBatch} (h : SameConfig b b') (h' : SameConfig b' b'') :
    SameConfig b b'' :=
  ⟨h'.isPoolingModel.trans h.isPoolingModel, h'.maxNumReqs.trans h.maxNumReqs,
    h'.vocabSize.trans h.vocabSize, h'.kernelBlocks.trans h.kernelBlocks,
    h'.length_blockTable.trans h.length_blockTable⟩

/-- The id of the request at a row. -/
def idAt (b : InputBatch) (i : ℕ) : Option ℕ := (b.reqIds[i]?).join

variable {i id : ℕ}

theorem idAt_eq_some: b.idAt i = some id ↔ b.reqIds[i]? = some (some id) := by
  unfold idAt
  rw [join_eq_some_iff]

/-- The index of an id is the row at which it is, and a row without a request has no entries in the
dictionaries of the sampling parameters. -/
structure WellFormed (b : InputBatch) : Prop where
  inverse : ∀ id i, b.reqIdToIndex.lookup id = some i ↔ b.idAt i = some id
  length_outputs : b.reqOutputTokenIds.length = b.reqIds.length
  clean : b.isPoolingModel = false → ∀ i, b.idAt i = none →
    b.generators.lookup i = none ∧ b.badWordsTokenIds.lookup i = none

/-- A request has one row. -/
theorem WellFormed.row_unique (hwf : b.WellFormed) {k : ℕ} (hk : b.idAt k = some id)
    (hi : b.idAt i = some id) : k = i :=
  some.inj (((hwf.inverse id k).2 hk).symm.trans ((hwf.inverse id i).2 hi))

/-! ### Exchanged rows -/

variable {α : Type} {l : List α}

theorem getElem?_swapEntries {j : ℕ} (hi : i < l.length) (hj : j < l.length)
    (k : ℕ) : (swapEntries l i j)[k]? = l[swap i j k]? := by
  unfold swapEntries
  rw [getElem?_eq_getElem hi, getElem?_eq_getElem hj]
  rw [getElem?_set, getElem?_set, length_set]
  by_cases hkj : k = j
  · rw [if_pos hkj.symm, if_pos (hkj ▸ hj), hkj, swap_apply_right, getElem?_eq_getElem]
  · rw [if_neg fun h => hkj h.symm]
    by_cases hki : k = i
    · rw [if_pos hki.symm, if_pos (hki ▸ hi), hki, swap_apply_left, getElem?_eq_getElem]
    · rw [if_neg fun h => hki h.symm, swap_apply_of_ne_of_ne hki hkj]

theorem length_swapEntries (l : List α) (i j : ℕ) : (swapEntries l i j).length = l.length := by
  unfold swapEntries
  split <;> simp

/-- What does not depend on the rows stays as it is. -/
structure SameOptions (b b' : InputBatch) : Prop where
  config : SameConfig b b'
  biases : b'.biases = b.biases
  minToks : b'.minToks = b.minToks
  flags : b'.logitsProcessingNeedsTokenIds = b.logitsProcessingNeedsTokenIds
  poolingParams : b'.poolingParams = b.poolingParams
  hasAllowed : b'.hasAllowedTokenIds = b.hasAllowedTokenIds
  metadata : b'.allowedTokenIdsMask = b.allowedTokenIdsMask

/-- What `swap_states` does. -/
structure Swaps (b b' : InputBatch) (i1 i2 : ℕ) : Prop extends SameOptions b b' where
  row : ∀ k, b'.row k = b.row (swap i1 i2 k)
  idAt : ∀ k, b'.idAt k = b.idAt (swap i1 i2 k)
  wellFormed : b'.WellFormed
  embeds : ∀ k, b'.reqPromptEmbeds.lookup k = b.reqPromptEmbeds.lookup (swap i1 i2 k)
  length_reqIds : b'.reqIds.length = b.reqIds.length
  removed : b'.batchUpdateBuilder.removed = b.batchUpdateBuilder.removed
  added : b'.batchUpdateBuilder.added = b.batchUpdateBuilder.added
  moved : b'.batchUpdateBuilder.moved = if b.isPoolingModel then b.batchUpdateBuilder.moved
    else b.batchUpdateBuilder.moved ++ [(i1, i2, .swap)]
  mask : b'.allowedTokenIdsMaskCpuTensor = if b.isPoolingModel then b.allowedTokenIdsMaskCpuTensor
    else b.allowedTokenIdsMaskCpuTensor.map fun mask => copyRow (copyRow mask i2 i1) i1 i2

theorem swapStates_eq {i1 i2 : ℕ} (hwf : b.WellFormed) (h : b.swapStates i1 i2 = .ok b') :
    Swaps b b' i1 i2 ∧ (b.idAt i1).isSome ∧ (b.idAt i2).isSome := by
  unfold swapStates at h
  split at h
  · next id1 id2 h1 h2 =>
    have hid1 : b.idAt i1 = some id1 := idAt_eq_some.2 h1
    have hid2 : b.idAt i2 = some id2 := idAt_eq_some.2 h2
    have hl1 : i1 < b.reqIds.length := (List.getElem?_eq_some_iff.1 h1).1
    have hl2 : i2 < b.reqIds.length := (List.getElem?_eq_some_iff.1 h2).1
    have ho1 : i1 < b.reqOutputTokenIds.length := hwf.length_outputs ▸ hl1
    have ho2 : i2 < b.reqOutputTokenIds.length := hwf.length_outputs ▸ hl2
    rw [(hwf.inverse id1 i1).2 hid1, (hwf.inverse id2 i2).2 hid2] at h
    replace h := ok.inj h
    refine ⟨?_, hid1 ▸ rfl, hid2 ▸ rfl⟩
    have hkernel : (b.blockTable.swapRow i1 i2).kernelBlocks = b.blockTable.kernelBlocks :=
      kernelBlocks_swapRow i1 i2
    have hids := getElem?_swapEntries hl1 hl2
    have houtputs := getElem?_swapEntries ho1 ho2
    have hidAt : ∀ k, ((swapEntries b.reqIds i1 i2)[k]?).join = b.idAt (swap i1 i2 k) :=
      fun k => by rw [hids, idAt]
    have hlookup : ∀ id i, ((b.reqIdToIndex.setItem id1 i2).setItem id2 i1).lookup id = some i ↔
        ((swapEntries b.reqIds i1 i2)[i]?).join = some id := by
      intro id i
      have hmap : ((b.reqIdToIndex.setItem id1 i2).setItem id2 i1).lookup id =
          (b.reqIdToIndex.lookup id).map fun i => swap i1 i2 i := by
        rw [lookup_setItem, lookup_setItem]
        split_ifs with hi2 hi1
        · rw [hi2, (hwf.inverse id2 i2).2 hid2, map_some, swap_apply_right]
        · rw [hi1, (hwf.inverse id1 i1).2 hid1, map_some, swap_apply_left]
        · -- any other id is at another row
          cases hi : b.reqIdToIndex.lookup id with
          | none => rfl
          | some i =>
            have hid := (hwf.inverse id i).1 hi
            have hne1 : i ≠ i1 := fun heq => hi1 (some.inj (hid.symm.trans (heq ▸ hid1)))
            have hne2 : i ≠ i2 := fun heq => hi2 (some.inj (hid.symm.trans (heq ▸ hid2)))
            rw [map_some, swap_apply_of_ne_of_ne hne1 hne2]
      rw [hmap, hidAt, ← hwf.inverse, map_eq_some_iff]
      constructor
      · rintro ⟨k, hk, rfl⟩
        rw [hk, swap_apply_self]
      · intro hk
        exact ⟨_, hk, swap_apply_self _ _ _⟩
    have hlength : (swapEntries b.reqOutputTokenIds i1 i2).length =
        (swapEntries b.reqIds i1 i2).length := by
      rw [length_swapEntries, length_swapEntries, hwf.length_outputs]
    -- a pooling model has no sampling parameters to swap
    by_cases hp : b.isPoolingModel
    · rw [if_pos hp] at h
      subst h
      refine ⟨⟨⟨rfl, rfl, rfl, hkernel, length_map _⟩, rfl, rfl, rfl, rfl, rfl, rfl⟩, fun k => ?_, hidAt,
        ⟨hlookup, hlength, fun hnp => ?_⟩,
        lookup_swapDictValues _ _ _, length_swapEntries _ _ _, rfl, rfl,
        (if_pos hp).symm, (if_pos hp).symm⟩
      · simp [row, tokens, houtputs, swapRows_apply, row_swapRow, hp]
      · rw [hp] at hnp
        cases hnp
    · rw [if_neg hp] at h
      subst h
      refine ⟨⟨⟨rfl, rfl, rfl, hkernel, length_map _⟩, rfl, rfl, rfl, rfl, rfl, rfl⟩, fun k => ?_, hidAt,
        ⟨hlookup, hlength, fun hnp i hi => ?_⟩,
        lookup_swapDictValues _ _ _, length_swapEntries _ _ _, rfl, rfl,
        (if_neg hp).symm, (if_neg hp).symm⟩
      · simp [row, samplingAt, tokens, swapSamplingParams, houtputs, swapRows_apply,
          row_swapRow, lookup_swapDictValues]
      · have hclean := hwf.clean hnp _ ((hidAt i).symm.trans hi)
        simpa [swapSamplingParams, lookup_swapDictValues] using hclean
  all_goals cases h

/-! ### Moved rows -/

/-- What a move of `condense` does. -/
structure Moves (b b' : InputBatch) (last empty : ℕ) : Prop extends SameOptions b b' where
  row : ∀ k, k ≠ last → b'.row k = b.row (if k = empty then last else k)
  idAt : ∀ k, b'.idAt k = if k = empty then b.idAt last else if k = last then none else b.idAt k
  wellFormed : b'.WellFormed
  embeds : ∀ k, b'.reqPromptEmbeds.lookup k =
    if k = empty then (b.reqPromptEmbeds.lookup last).or (b.reqPromptEmbeds.lookup empty)
    else if k = last then none else b.reqPromptEmbeds.lookup k
  numReqs : b'.numReqs = b.numReqs
  length_reqIds : b'.reqIds.length = b.reqIds.length
  removed : b'.batchUpdateBuilder.removed = b.batchUpdateBuilder.removed
  isRemovedSorted : b'.batchUpdateBuilder.isRemovedSorted = b.batchUpdateBuilder.isRemovedSorted
  added : b'.batchUpdateBuilder.added = b.batchUpdateBuilder.added
  moved : b'.batchUpdateBuilder.moved = if b.isPoolingModel then b.batchUpdateBuilder.moved
    else b.batchUpdateBuilder.moved ++ [(last, empty, .unidirectional)]
  mask : b'.allowedTokenIdsMaskCpuTensor = if b.isPoolingModel then b.allowedTokenIdsMaskCpuTensor
    else b.allowedTokenIdsMaskCpuTensor.map fun mask => copyRow mask last empty

/-- An entry of a row whose first entries are copied. -/
theorem copySlice_apply (a : ℕ → ℕ → α) {last empty k j m : ℕ} (hj : k = empty → j < m) :
    update a empty (setSlice (a empty) 0 ((range m).map (a last))) k j =
      a (if k = empty then last else k) j := by
  by_cases hk : k = empty
  · have hget : ((range m).map (a last))[j]? = some (a last j) := by simp [hj hk]
    have hset := setSlice_add (a empty) 0 hget
    rw [if_pos hk, hk, update_self]
    rwa [zero_add] at hset
  · rw [if_neg hk, update_of_ne hk]

theorem moveRequest_eq {last empty : ℕ} (hwf : b.WellFormed) (hlt : empty < last)
    (hempty : b.idAt empty = none) (h : b.moveRequest last empty = .ok b') :
    Moves b b' last empty ∧ (b.idAt last).isSome := by
  unfold moveRequest at h
  split at h
  · next id hlast =>
    have hid : b.idAt last = some id := idAt_eq_some.2 hlast
    have hl : last < b.reqIds.length := (List.getElem?_eq_some_iff.1 hlast).1
    have he : empty < b.reqIds.length := lt_trans hlt hl
    have hne : empty ≠ last := hlt.ne
    replace h := ok.inj h
    refine ⟨?_, hid ▸ rfl⟩
    have hkernel : (b.blockTable.moveRow last empty).kernelBlocks = b.blockTable.kernelBlocks :=
      kernelBlocks_moveRow last empty
    -- the row of `last` is at `empty` now
    have hidAt : ∀ k, (((b.reqIds.set empty (some id)).set last none)[k]?).join =
        if k = empty then b.idAt last else if k = last then none else b.idAt k := by
      intro k
      unfold idAt
      by_cases hke : k = empty <;> by_cases hkl : k = last <;> simp_all [Ne.symm]
    have houtputs : ∀ k, k ≠ last → (((b.reqOutputTokenIds.set empty
        (b.reqOutputTokenIds.getD last none)).set last none)[k]?).join =
          (b.reqOutputTokenIds[if k = empty then last else k]?).join := by
      intro k hk
      have hlo : last < b.reqOutputTokenIds.length := hwf.length_outputs ▸ hl
      have heo : empty < b.reqOutputTokenIds.length := hwf.length_outputs ▸ he
      by_cases hke : k = empty <;> simp_all [Ne.symm]
    have hlookup : ∀ id' i, (b.reqIdToIndex.setItem id empty).lookup id' = some i ↔
        (((b.reqIds.set empty (some id)).set last none)[i]?).join = some id' := by
      intro id' i
      rw [lookup_setItem, hidAt, hid]
      have hinv := hwf.inverse id' i
      by_cases hid' : id' = id
      · subst hid'
        have hrow : b.idAt i = some id' → i = last := fun hi => hwf.row_unique hi hid
        by_cases hie : i = empty
        · simp [hie]
        · by_cases hil : i = last
          · simp [hil, hne, hlt.ne']
          · simp only [if_true, if_neg hie, if_neg hil, some.injEq]
            exact ⟨fun h => absurd h.symm hie, fun h => absurd (hrow h) hil⟩
      · rw [if_neg hid', hinv]
        by_cases hie : i = empty
        · simp [hie, hempty, Ne.symm hid']
        · by_cases hil : i = last
          · simp [hil, hid, Ne.symm hid']
          · simp [hie, hil]
    have hlength : ((b.reqOutputTokenIds.set empty
        (b.reqOutputTokenIds.getD last none)).set last none).length =
          ((b.reqIds.set empty (some id)).set last none).length := by
      simp [hwf.length_outputs]
    have hnum : (b.reqIdToIndex.setItem id empty).entries.length = b.reqIdToIndex.entries.length := by
      have hmem : id ∈ b.reqIdToIndex := lookup_isSome.1 (by rw [(hwf.inverse id last).2 hid]; rfl)
      unfold setItem
      rw [if_pos hmem, OrderedDict.length_modify]
    have htokens : ∀ k, (range (copyRow b.numTokensNoSpec last empty k)).map (fun j =>
        if update b.isTokenIds empty (setSlice (b.isTokenIds empty) 0 ((range
            (b.numTokensNoSpec last + (b.specTokenIds.getD last []).length)).map
              (b.isTokenIds last))) k j then
          some (update b.tokenIdsCpu empty (setSlice (b.tokenIdsCpu empty) 0 ((range
            (b.numTokensNoSpec last + (b.specTokenIds.getD last []).length)).map
              (b.tokenIdsCpu last))) k j)
        else none) = b.tokens (if k = empty then last else k) := by
      intro k
      rw [copyRow_apply]
      refine map_congr_left fun j hj => ?_
      have hj : k = empty → j < b.numTokensNoSpec last + (b.specTokenIds.getD last []).length :=
        fun hk => by
          rw [if_pos hk, mem_range] at hj
          omega
      rw [copySlice_apply _ hj, copySlice_apply _ hj]
    -- a pooling model has no sampling parameters to move
    by_cases hp : b.isPoolingModel
    · rw [if_pos hp] at h
      subst h
      refine ⟨⟨⟨rfl, rfl, rfl, hkernel, length_map _⟩, rfl, rfl, rfl, rfl, rfl, rfl⟩, fun k hk => ?_, hidAt,
        ⟨hlookup, hlength, fun hnp => ?_⟩, lookup_moveDictValue _ _ _, hnum,
        by simp, rfl, rfl, rfl, (if_pos hp).symm, (if_pos hp).symm⟩
      · exact Row.ext (houtputs k hk) (copyRow_apply _ _ _ _) (copyRow_apply _ _ _ _) (htokens k)
          (copyRow_apply _ _ _ _) (row_moveRow _ _ _) (copyRow_apply _ _ _ _)
          (by simp [row, hp])
      · rw [hp] at hnp
        cases hnp
    · rw [if_neg hp] at h
      subst h
      have hclean := hwf.clean (by simpa using hp)
      refine ⟨⟨⟨rfl, rfl, rfl, hkernel, length_map _⟩, rfl, rfl, rfl, rfl, rfl, rfl⟩, fun k hk => ?_, hidAt,
        ⟨hlookup, hlength, fun hnp i hi => ?_⟩,
        lookup_moveDictValue _ _ _, hnum, by simp [moveSamplingParams], rfl, rfl, rfl,
        (if_neg hp).symm, (if_neg hp).symm⟩
      · refine Row.ext (houtputs k hk) (copyRow_apply _ _ _ _) (copyRow_apply _ _ _ _) (htokens k)
          (copyRow_apply _ _ _ _) (row_moveRow _ _ _) (copyRow_apply _ _ _ _) ?_
        simp [row, samplingAt, moveSamplingParams, copyRow_apply,
          lookup_moveDictValue_of_none (hclean empty hempty).1 hk,
          lookup_moveDictValue_of_none (hclean empty hempty).2 hk]
      · replace hi := (hidAt i).symm.trans hi
        show (b.generators.moveDictValue last empty).lookup i = none ∧
          (b.badWordsTokenIds.moveDictValue last empty).lookup i = none
        rw [lookup_moveDictValue, lookup_moveDictValue]
        by_cases hie : i = empty
        · rw [if_pos hie, hid] at hi
          cases hi
        · by_cases hil : i = last
          · simp [hil, hlt.ne']
          · rw [if_neg hie, if_neg hil] at hi
            simpa [hie, hil] using hclean i hi
  · cases h

/-! ### Removed rows -/

/-- What `remove_request` does. -/
structure Removes (b b' : InputBatch) (id i : ℕ) : Prop where
  config : SameConfig b b'
  row : ∀ k, k ≠ i → b'.row k = b.row k
  idAt : ∀ k, b'.idAt k = if k = i then none else b.idAt k
  wellFormed : b'.WellFormed
  embeds : b'.reqPromptEmbeds = b.reqPromptEmbeds
  length_reqIds : b'.reqIds.length = b.reqIds.length
  isRemovedSorted : b.batchUpdateBuilder.isRemovedSorted = false
  builder : b'.batchUpdateBuilder = { b.batchUpdateBuilder with
    removed := i :: b.batchUpdateBuilder.removed, batchChanged := true }
  biases : b'.biases = b.biases
  minToks : b'.minToks = b.minToks
  flags : b'.logitsProcessingNeedsTokenIds = b.logitsProcessingNeedsTokenIds
  poolingParams : ∀ a, a ≠ id → b'.poolingParams.lookup a = b.poolingParams.lookup a
  hasAllowed : b'.hasAllowedTokenIds =
    if b.isPoolingModel then b.hasAllowedTokenIds else b.hasAllowedTokenIds.erase id
  mask : b'.allowedTokenIdsMaskCpuTensor = if b.isPoolingModel then b.allowedTokenIdsMaskCpuTensor
    else b.allowedTokenIdsMaskCpuTensor.map fun mask => update mask i fun _ => false
  metadata : b'.allowedTokenIdsMask = b.allowedTokenIdsMask

/-- The LoRA id of a row is reset, and nothing else changes in the rows. -/
theorem removeLora_eq (h : b.removeLora id i = .ok b') :
    ∃ d f, (∀ k, k ≠ i → f k = b.requestLoraMapping k) ∧
      b' = { b with loraIdToRequestIds := d, requestLoraMapping := f } := by
  unfold removeLora at h
  dsimp only at h
  split at h
  · cases h
    exact ⟨_, _, fun _ _ => rfl, rfl⟩
  · split at h
    · cases h
    · cases h
      exact ⟨_, _, fun k hk => update_of_ne hk _ _, rfl⟩

theorem removeRequest_eq (hwf : b.WellFormed) (h : b.removeRequest id = .ok b') :
    (b.reqIdToIndex.lookup id = none ∧ b' = b) ∨ ∃ i, b.idAt i = some id ∧ Removes b b' id i := by
  unfold removeRequest at h
  split at h
  · next hnone =>
    cases h
    exact .inl ⟨hnone, rfl⟩
  · next i hi =>
    have hid := (hwf.inverse id i).1 hi
    have hl : i < b.reqIds.length := (List.getElem?_eq_some_iff.1 (idAt_eq_some.1 hid)).1
    refine .inr ⟨i, hid, ?_⟩
    obtain ⟨builder, hbuilder, h⟩ := bind_ok.1 h
    obtain ⟨b₁, hlora, h⟩ := bind_ok.1 h
    cases h
    unfold removedAppend at hbuilder
    split at hbuilder
    · cases hbuilder
    next hsorted =>
    cases hbuilder
    obtain ⟨d, f, hf, rfl⟩ := removeLora_eq hlora
    have hidAt : ∀ k, ((b.reqIds.set i none)[k]?).join = if k = i then none else b.idAt k := by
      intro k
      unfold idAt
      by_cases hk : k = i <;> simp_all [Ne.symm]
    have houtputs : ∀ k, k ≠ i →
        ((b.reqOutputTokenIds.set i none)[k]?).join = (b.reqOutputTokenIds[k]?).join := by
      intro k hk
      simp [Ne.symm hk]
    have hlookup : ∀ id' k, lookup id' (b.reqIdToIndex.erase id) = some k ↔
        ((b.reqIds.set i none)[k]?).join = some id' := by
      intro id' k
      rw [hidAt]
      by_cases hid' : id' = id
      · subst hid'
        rw [lookup_erase]
        split_ifs with hk
        · rfl
        · exact ⟨nofun, fun hk' => absurd (hwf.row_unique hk' hid) hk⟩
      · rw [lookup_erase_ne hid', hwf.inverse]
        split_ifs with hk
        · rw [hk, hid]
          exact ⟨fun h => absurd (some.inj h).symm hid', nofun⟩
        · rfl
    have hlength : (b.reqOutputTokenIds.set i none).length = (b.reqIds.set i none).length := by
      simp [hwf.length_outputs]
    have hsorted' : b.batchUpdateBuilder.isRemovedSorted = false := by simpa using hsorted
    unfold removeParams
    -- a pooling model has no sampling parameters to clear
    by_cases hp : b.isPoolingModel
    · rw [if_pos hp]
      refine ⟨⟨rfl, rfl, rfl, rfl, rfl⟩, fun k hk => ?_, hidAt,
        ⟨hlookup, hlength, fun hnp => ?_⟩, rfl, by simp, hsorted', rfl, rfl, rfl, rfl, fun a ha =>
          lookup_erase_ne ha, (if_pos hp).symm, (if_pos hp).symm, rfl⟩
      · exact Row.ext (houtputs k hk) rfl rfl rfl rfl rfl (hf k hk) (by simp [row, hp])
      · rw [hp] at hnp
        cases hnp
    · rw [if_neg hp]
      have hclean := hwf.clean (by simpa using hp)
      refine ⟨⟨rfl, rfl, rfl, rfl, rfl⟩, fun k hk => ?_, hidAt,
        ⟨hlookup, hlength, fun _ k hk => ?_⟩, rfl, by simp, hsorted', rfl, rfl, rfl, rfl,
        fun _ _ => rfl, (if_neg hp).symm, (if_neg hp).symm, rfl⟩
      · refine Row.ext (houtputs k hk) rfl rfl rfl rfl rfl (hf k hk) ?_
        simp [row, samplingAt, lookup_erase_ne hk]
      · replace hk := (hidAt k).symm.trans hk
        rw [lookup_erase', lookup_erase']
        split_ifs at hk with hki
        · simp [hki]
        · simpa [hki] using hclean k hk

/-! ### Added rows -/

/-- The parameters of a request are copied. -/
structure Copies (b b' : InputBatch) (req : CachedRequestState) (i : ℕ) : Prop where
  config : SameConfig b b'
  embeds : ∀ k, b'.reqPromptEmbeds.lookup k =
    if k = i then req.promptEmbeds.or (b.reqPromptEmbeds.lookup i) else b.reqPromptEmbeds.lookup k
  biases : b'.biases = b.biases
  minToks : b'.minToks = b.minToks
  flags : ∀ k, b'.logitsProcessingNeedsTokenIds k =
    if k = i ∧ b.isPoolingModel then (req.poolingParams.map PoolingParams.requiresTokenIds).getD false
    else b.logitsProcessingNeedsTokenIds k
  poolingParams : ∀ a, b'.poolingParams.lookup a =
    if a = req.reqId ∧ b.isPoolingModel then req.poolingParams else b.poolingParams.lookup a
  mask : (req.samplingParams.bind allowedTokenIds).getD [] = [] ∧
      b'.allowedTokenIdsMaskCpuTensor = b.allowedTokenIdsMaskCpuTensor ∧
      b'.hasAllowedTokenIds = b.hasAllowedTokenIds ∨
    ∃ ids, req.samplingParams.bind allowedTokenIds = some ids ∧ ids ≠ [] ∧
      b'.allowedTokenIdsMaskCpuTensor = some (update
        (b.allowedTokenIdsMaskCpuTensor.getD fun _ _ => false) i fun t => t ∉ ids) ∧
      b'.hasAllowedTokenIds = insert req.reqId b.hasAllowedTokenIds
  metadata : b'.allowedTokenIdsMask = b.allowedTokenIdsMask

/-- What `add_request` does. -/
structure Adds (b b' : InputBatch) (req : CachedRequestState) (i : ℕ) : Prop extends Copies b b' req i where
  row : ∀ k, b'.row k = if k = i then b.rowOf req else b.row k
  idAt : ∀ k, b'.idAt k = if k = i then some req.reqId else b.idAt k
  wellFormed : b'.WellFormed
  length_reqIds : b'.reqIds.length = if i = b.reqIds.length then b.reqIds.length + 1
    else b.reqIds.length
  le_length : i ≤ b.reqIds.length
  index : b.batchUpdateBuilder.popRemoved.1.getD b.numReqs = i
  removed : b'.batchUpdateBuilder.removed = b.batchUpdateBuilder.popRemoved.2.removed
  isRemovedSorted : b'.batchUpdateBuilder.isRemovedSorted =
    b.batchUpdateBuilder.popRemoved.2.isRemovedSorted
  added : b'.batchUpdateBuilder.added = b.batchUpdateBuilder.added ++
    req.samplingParams.toList.map fun params => ⟨i, params, req.promptTokenIds, req.reqId⟩
  moved : b'.batchUpdateBuilder.moved = b.batchUpdateBuilder.moved

/-- A list with an entry that is set, or appended if it is the next one. -/
def putEntry {α : Type} (l : List α) (i : ℕ) (a : α) : List α :=
  if i = l.length then l ++ [a] else l.set i a

theorem getElem?_putEntry (hi : i ≤ l.length) (a : α) (k : ℕ) :
    (putEntry l i a)[k]? = if k = i then some a else l[k]? := by
  unfold putEntry
  split_ifs with hlen hk hk
  · simp [hk, hlen]
  · by_cases hlt : k < l.length
    · rw [getElem?_append_left hlt]
    · have hlength : (l ++ [a]).length ≤ k := by
        rw [length_append, length_singleton]
        omega
      rw [getElem?_eq_none hlength, getElem?_eq_none (by omega)]
  · rw [hk, getElem?_set_self (by omega)]
  · rw [getElem?_set_ne (Ne.symm hk)]

theorem length_putEntry (l : List α) (i : ℕ) (a : α) :
    (putEntry l i a).length = if i = l.length then l.length + 1 else l.length := by
  unfold putEntry
  split_ifs <;> simp

theorem placeRequest_eq (h : b.placeRequest id i = .ok b')
    (hlen : b.reqOutputTokenIds.length = b.reqIds.length) :
    i ≤ b.reqIds.length ∧ ∃ specs, b' = { b with
      reqIdToIndex := b.reqIdToIndex.setItem id i
      reqIds := putEntry b.reqIds i (some id)
      reqOutputTokenIds := putEntry b.reqOutputTokenIds i (some id)
      specTokenIds := specs } := by
  unfold placeRequest at h
  dsimp only at h
  unfold putEntry
  rw [hlen]
  split at h
  · next heq =>
    cases h
    simp only [if_pos heq]
    exact ⟨heq.le, _, rfl⟩
  · next hne =>
    split at h
    · next hlt =>
      cases h
      simp only [if_neg hne]
      exact ⟨hlt.le, _, rfl⟩
    · cases h

variable {req : CachedRequestState}

theorem length_promptTokenIds {ids : List ℤ}
    (h : req.promptTokenIds = some ids) : ids.length = req.numPromptTokens := by
  have heq := req.numPromptTokens_eq
  rw [h] at heq
  cases he : req.promptEmbeds with
  | none =>
    rw [he] at heq
    exact ok.inj heq
  | some embeds =>
    rw [he] at heq
    unfold lengthFromPromptTokenIdsOrEmbeds at heq
    dsimp only at heq
    split at heq
    · cases heq
    · exact ok.inj heq

theorem setSlice_zero (row : ℕ → α) {j : ℕ} {a : α} (h : l[j]? = some a) :
    setSlice row 0 l j = a := by
  have hset := setSlice_add row 0 h
  rwa [zero_add] at hset

theorem tokens_addTokens (req : CachedRequestState) (i : ℕ) :
    (b.addTokens req i).tokens i = req.tokens := by
  unfold tokens addTokens CachedRequestState.tokens CachedRequestState.numTokens
  simp only [update_self]
  rw [range_add, map_append, List.map_map]
  refine congrArg₂ _ ?_ ?_
  · -- the prompt, of which the tokens are known or not
    have hflag : ∀ (s : Bool), ∀ j < req.numPromptTokens,
        setSlice (b.isTokenIds i) 0 (replicate req.numPromptTokens s) j = s :=
      fun s j hj => setSlice_zero _ (by simp [hj])
    cases hp : req.promptTokenIds with
    | none =>
      refine ext_getElem (by simp) fun j h₁ h₂ => ?_
      have hj : j < req.numPromptTokens := by simpa using h₁
      simp [setSlice_of_lt _ _ hj, hflag false j hj]
    | some ids =>
      have hlen := length_promptTokenIds hp
      refine ext_getElem (by simp [hlen]) fun j h₁ h₂ => ?_
      have hj : j < req.numPromptTokens := by simpa using h₁
      have hget : ids[j]? = some ids[j] := getElem?_eq_getElem (hlen ▸ hj)
      simp [setSlice_of_lt _ _ hj, hflag true j hj, setSlice_zero _ hget]
  · -- the output
    refine ext_getElem (by simp) fun j h₁ h₂ => ?_
    have hj : j < req.outputTokenIds.length := by simpa using h₁
    have hget : req.outputTokenIds[j]? = some req.outputTokenIds[j] := getElem?_eq_getElem hj
    have hget' : (replicate req.outputTokenIds.length true)[j]? = some true := by simp [hj]
    simp [setSlice_add _ _ hget, setSlice_add _ _ hget']

theorem addLora_eq (id i : ℕ) (lora : Option ℕ) : ∃ d, b.addLora id i lora = { b with
    loraIdToRequestIds := d
    requestLoraMapping := update b.requestLoraMapping i (lora.getD 0) } := by
  cases lora with
  | none => exact ⟨_, rfl⟩
  | some loraId => exact ⟨_, rfl⟩

/-- A request without `allowed_token_ids` leaves the mask as it is. -/
theorem addAllowedTokenIds_eq {allowed : Option (List ℕ)}
    (h : b.addAllowedTokenIds id i allowed = .ok b') : ∃ s m, b' = { b with
      hasAllowedTokenIds := s
      allowedTokenIdsMaskCpuTensor := m } ∧
    (allowed.getD [] = [] ∧ m = b.allowedTokenIdsMaskCpuTensor ∧ s = b.hasAllowedTokenIds ∨
      ∃ ids, allowed = some ids ∧ ids ≠ [] ∧
        m = some (update (b.allowedTokenIdsMaskCpuTensor.getD fun _ _ => false) i
          fun t => t ∉ ids) ∧ s = insert id b.hasAllowedTokenIds) := by
  unfold addAllowedTokenIds at h
  split at h
  · next a ids =>
    split at h
    · cases h
    · cases h
      exact ⟨_, _, rfl, .inr ⟨a :: ids, rfl, by simp, rfl, rfl⟩⟩
  · next hnot =>
    cases h
    refine ⟨_, _, rfl, .inl ⟨?_, rfl, rfl⟩⟩
    cases allowed with
    | none => rfl
    | some ids =>
      cases ids with
      | nil => rfl
      | cons a ids => exact absurd rfl (hnot a ids)

theorem registerAddRequest_eq (h : b.registerAddRequest req = .ok (i, b')) :
    b.batchUpdateBuilder.popRemoved.1.getD b.numReqs = i ∧ b' = { b with
      batchUpdateBuilder := { b.batchUpdateBuilder.popRemoved.2 with
        batchChanged := true
        added := b.batchUpdateBuilder.popRemoved.2.added ++ req.samplingParams.toList.map
          fun params => ⟨i, params, req.promptTokenIds, req.reqId⟩ } } := by
  unfold registerAddRequest at h
  dsimp only at h
  split at h
  · cases h
  · cases h
    refine ⟨rfl, ?_⟩
    cases req.samplingParams with
    | none => simp
    | some params => rfl

theorem popRemoved_added (builder : BatchUpdateBuilder) :
    builder.popRemoved.2.added = builder.added ∧ builder.popRemoved.2.moved = builder.moved := by
  unfold popRemoved ensureRemovedSorted
  split_ifs <;> exact ⟨rfl, rfl⟩

variable {params : SamplingParams}

/-- The sampling parameters of the added row, in which nothing was left. -/
theorem samplingAt_addSamplingParams
    (hclean : b.generators.lookup i = none ∧ b.badWordsTokenIds.lookup i = none) (k : ℕ) :
    (b.addSamplingParams req params i).samplingAt k =
      if k = i then b.samplingOf req params else b.samplingAt k := by
  unfold samplingAt samplingOf addSamplingParams
  by_cases hk : k = i
  · simp [hk, hclean, lookup_setSome]
  · simp [hk, lookup_setSome]

theorem tokens_addTokens_of_ne (req : CachedRequestState) {k : ℕ} (hk : k ≠ i) :
    (b.addTokens req i).tokens k = b.tokens k := by
  unfold tokens addTokens
  simp [update_of_ne hk]

/-- What registering a request and placing its id do. -/
structure Places (b b' : InputBatch) (req : CachedRequestState) (i : ℕ) :
    Prop extends SameOptions b b' where
  row : ∀ k, k ≠ i → b'.row k = b.row k
  idAt : ∀ k, b'.idAt k = if k = i then some req.reqId else b.idAt k
  outputs : (b'.reqOutputTokenIds[i]?).join = some req.reqId
  inverse : ∀ id k, b'.reqIdToIndex.lookup id = some k ↔ b'.idAt k = some id
  length_outputs : b'.reqOutputTokenIds.length = b'.reqIds.length
  length_reqIds : b'.reqIds.length = if i = b.reqIds.length then b.reqIds.length + 1
    else b.reqIds.length
  le_length : i ≤ b.reqIds.length
  index : b.batchUpdateBuilder.popRemoved.1.getD b.numReqs = i
  builder : b'.batchUpdateBuilder = { b.batchUpdateBuilder.popRemoved.2 with
    batchChanged := true
    added := b.batchUpdateBuilder.popRemoved.2.added ++ req.samplingParams.toList.map
      fun params => ⟨i, params, req.promptTokenIds, req.reqId⟩ }
  embeds : b'.reqPromptEmbeds = b.reqPromptEmbeds
  generators : b'.generators = b.generators
  badWords : b'.badWordsTokenIds = b.badWordsTokenIds
  mask : b'.allowedTokenIdsMaskCpuTensor = b.allowedTokenIdsMaskCpuTensor

theorem places {b₁ : InputBatch} (hwf : b.WellFormed) (hid : b.reqIdToIndex.lookup req.reqId = none)
    (hhole : b.idAt (b.batchUpdateBuilder.popRemoved.1.getD b.numReqs) = none)
    (hreg : b.registerAddRequest req = .ok (i, b₁))
    (hplace : b₁.placeRequest req.reqId i = .ok b') : Places b b' req i := by
  obtain ⟨hindex, rfl⟩ := registerAddRequest_eq hreg
  obtain ⟨hle, specs, rfl⟩ := placeRequest_eq hplace hwf.length_outputs
  rw [hindex] at hhole
  have hidAt : ∀ k, ((putEntry b.reqIds i (some req.reqId))[k]?).join =
      if k = i then some req.reqId else b.idAt k := by
    intro k
    rw [getElem?_putEntry hle]
    split_ifs <;> rfl
  have houtputs : ∀ k, ((putEntry b.reqOutputTokenIds i (some req.reqId))[k]?).join =
      if k = i then some req.reqId else (b.reqOutputTokenIds[k]?).join := by
    intro k
    rw [getElem?_putEntry (hwf.length_outputs ▸ hle)]
    split_ifs <;> rfl
  refine ⟨⟨⟨rfl, rfl, rfl, rfl, rfl⟩, rfl, rfl, rfl, rfl, rfl, rfl⟩, fun k hk => ?_, hidAt,
    (houtputs i).trans (if_pos rfl), fun id k => ?_, ?_, length_putEntry _ _ _, hle, hindex, rfl, rfl, rfl,
    rfl, rfl⟩
  · exact Row.ext ((houtputs k).trans (if_neg hk)) rfl rfl rfl rfl rfl rfl rfl
  · show (b.reqIdToIndex.setItem req.reqId i).lookup id = some k ↔
      ((putEntry b.reqIds i (some req.reqId))[k]?).join = some id
    rw [lookup_setItem, hidAt]
    have hinv := hwf.inverse id k
    by_cases hid' : id = req.reqId
    · subst hid'
      rw [if_pos rfl]
      split_ifs with hk
      · simp [hk]
      · rw [← hinv, hid]
        exact ⟨fun h => absurd (some.inj h).symm hk, nofun⟩
    · rw [if_neg hid', hinv]
      split_ifs with hk
      · rw [hk, hhole]
        exact ⟨nofun, fun h => absurd (some.inj h).symm hid'⟩
      · rfl
  · show (putEntry b.reqOutputTokenIds i (some req.reqId)).length =
      (putEntry b.reqIds i (some req.reqId)).length
    rw [length_putEntry, length_putEntry, hwf.length_outputs]

/-- What copying the data of a request to its row does. -/
structure Fills (b b' : InputBatch) (req : CachedRequestState) (i : ℕ) :
    Prop extends Copies b b' req i where
  row : ∀ k, b'.row k =
    if k = i then { b.rowOf req with outputTokenIds := (b.reqOutputTokenIds[i]?).join } else b.row k
  reqIds : b'.reqIds = b.reqIds
  outputs : b'.reqOutputTokenIds = b.reqOutputTokenIds
  reqIdToIndex : b'.reqIdToIndex = b.reqIdToIndex
  builder : b'.batchUpdateBuilder = b.batchUpdateBuilder
  generators : ∀ k, k ≠ i → b'.generators.lookup k = b.generators.lookup k
  badWords : ∀ k, k ≠ i → b'.badWordsTokenIds.lookup k = b.badWordsTokenIds.lookup k

theorem fills_sampling {f : ℕ → ℕ} (hs : req.samplingParams = some params)
    (hp : b.isPoolingModel = false)
    (hclean : b.generators.lookup i = none ∧ b.badWordsTokenIds.lookup i = none)
    (hparams : ((b.addTokens req i).addSamplingParams req params i).addAllowedTokenIds req.reqId i
      params.allowedTokenIds = .ok b') :
    Fills b (({ b' with numAcceptedTokensCpu := f } : InputBatch).addLora req.reqId i
      req.loraRequest) req i := by
  obtain ⟨s, m, rfl, hmask⟩ := addAllowedTokenIds_eq hparams
  obtain ⟨d, hlora⟩ := addLora_eq req.reqId i req.loraRequest
  rw [hlora]
  have hblocks : ∀ k, (b.blockTable.addRow req.blockIds i).row k = _ := row_addRow req.blockIds i
  have hsampling : ∀ k, ((b.addTokens req i).addSamplingParams req params i).samplingAt k =
      if k = i then (b.addTokens req i).samplingOf req params
      else (b.addTokens req i).samplingAt k := samplingAt_addSamplingParams hclean
  refine ⟨⟨⟨rfl, rfl, rfl, kernelBlocks_addRow _ _, length_mapIdx⟩, fun k => lookup_setSome _ _ _ _, rfl,
    rfl, fun k => ?_, fun a => ?_, ?_, rfl⟩, fun k => ?_, rfl, rfl, rfl, rfl, fun k hk => ?_,
      fun k hk => ?_⟩
  · rw [if_neg fun h => by simp [hp] at h]
    rfl
  · rw [if_neg fun h => by simp [hp] at h]
    rfl
  · rw [hs]
    exact hmask
  · by_cases hk : k = i
    · subst hk
      rw [if_pos rfl]
      refine Row.ext rfl (update_self _ _ _)
        (update_self _ _ _) (tokens_addTokens req k) (update_self _ _ _)
        ((hblocks k).trans (if_pos rfl)) (update_self _ _ _) ?_
      show (if b.isPoolingModel then none else some
        (((b.addTokens req k).addSamplingParams req params k).samplingAt k)) =
          req.samplingParams.map (b.samplingOf req)
      rw [hsampling, if_pos rfl, hs, hp]
      rfl
    · rw [if_neg hk]
      refine Row.ext rfl (update_of_ne hk _ _)
        (update_of_ne hk _ _) (tokens_addTokens_of_ne req hk)
        (update_of_ne hk _ _) ((hblocks k).trans (if_neg hk))
        (update_of_ne hk _ _) ?_
      show (if b.isPoolingModel then none else some
        (((b.addTokens req i).addSamplingParams req params i).samplingAt k)) =
          if b.isPoolingModel then none else some (b.samplingAt k)
      rw [hsampling, if_neg hk]
      rfl
  · exact (lookup_setSome _ _ _ _).trans (if_neg hk)
  · exact (lookup_setSome _ _ _ _).trans (if_neg hk)

theorem fills_pooling {params : PoolingParams} {f : ℕ → ℕ} (hs : req.samplingParams = none)
    (hpp : req.poolingParams = some params) (hp : b.isPoolingModel = true) :
    Fills b (({ b.addTokens req i with
      poolingParams := b.poolingParams.setItem req.reqId params
      logitsProcessingNeedsTokenIds :=
        update b.logitsProcessingNeedsTokenIds i params.requiresTokenIds
      numAcceptedTokensCpu := f } : InputBatch).addLora req.reqId i req.loraRequest) req i := by
  obtain ⟨d, hlora⟩ := addLora_eq req.reqId i req.loraRequest
  rw [hlora]
  have hblocks : ∀ k, (b.blockTable.addRow req.blockIds i).row k = _ := row_addRow req.blockIds i
  refine ⟨⟨⟨rfl, rfl, rfl, kernelBlocks_addRow _ _, length_mapIdx⟩, fun k => lookup_setSome _ _ _ _, rfl,
    rfl, fun k => ?_, fun a => ?_, .inl ⟨by rw [hs]; rfl, rfl, rfl⟩, rfl⟩, fun k => ?_, rfl, rfl, rfl, rfl,
    fun _ _ => rfl, fun _ _ => rfl⟩
  · rw [hpp]
    by_cases hk : k = i
    · rw [if_pos ⟨hk, hp⟩, hk]
      exact update_self _ _ _
    · rw [if_neg fun h => hk h.1]
      exact update_of_ne hk _ _
  · rw [hpp]
    by_cases ha : a = req.reqId
    · rw [if_pos ⟨ha, hp⟩]
      exact (lookup_setItem _ _ _ _).trans (if_pos ha)
    · rw [if_neg fun h => ha h.1]
      exact (lookup_setItem _ _ _ _).trans (if_neg ha)
  · by_cases hk : k = i
    · subst hk
      rw [if_pos rfl]
      refine Row.ext rfl (update_self _ _ _)
        (update_self _ _ _) (tokens_addTokens req k) (update_self _ _ _)
        ((hblocks k).trans (if_pos rfl)) (update_self _ _ _) ?_
      simp [row, rowOf, addTokens, hs, hp]
    · rw [if_neg hk]
      refine Row.ext rfl (update_of_ne hk _ _)
        (update_of_ne hk _ _) (tokens_addTokens_of_ne req hk)
        (update_of_ne hk _ _) ((hblocks k).trans (if_neg hk))
        (update_of_ne hk _ _) ?_
      simp [row, addTokens, hp]

theorem addRequest_eq (hwf : b.WellFormed)
    (hsampling : req.samplingParams.isSome = !b.isPoolingModel)
    (hpooling : req.poolingParams.isSome = b.isPoolingModel)
    (hid : b.reqIdToIndex.lookup req.reqId = none)
    (hhole : b.idAt (b.batchUpdateBuilder.popRemoved.1.getD b.numReqs) = none)
    (h : b.addRequest req = .ok b') : ∃ i, Adds b b' req i := by
  obtain ⟨⟨i, b₁⟩, hreg, h⟩ := bind_ok.1 h
  obtain ⟨b₂, hplace, h⟩ := bind_ok.1 h
  obtain ⟨b₄, hparams, h⟩ := bind_ok.1 h
  cases h
  have hpl := places hwf hid hhole hreg hplace
  rw [hpl.index] at hhole
  obtain ⟨hadded, hmoved⟩ := popRemoved_added b.batchUpdateBuilder
  have hpm := hpl.config.isPoolingModel
  generalize hb' : InputBatch.addLora _ req.reqId i req.loraRequest = b₅
  -- the parameters fill the row `i`, for sampling or for pooling
  have hfills : Fills b₂ b₅ req i := by
    rw [← hb']
    unfold addParams at hparams
    split at hparams
    · next params hs =>
      have hp : b.isPoolingModel = false := by simpa [hs] using hsampling
      have hclean := hwf.clean hp i hhole
      rw [← hpl.generators, ← hpl.badWords] at hclean
      exact fills_sampling hs (hpm.trans hp) hclean hparams
    · next params hs hpp =>
      have hp : b.isPoolingModel = true := by simpa [hpp] using hpooling.symm
      cases hparams
      exact fills_pooling hs hpp (hpm.trans hp)
    · cases hparams
  have hidAt : ∀ k, b₅.idAt k = b₂.idAt k := fun k => by rw [idAt, idAt, hfills.reqIds]
  refine ⟨i, ⟨hpl.config.trans hfills.config, fun k => ?_, hfills.biases.trans hpl.biases,
    hfills.minToks.trans hpl.minToks, fun k => ?_, fun a => ?_, ?_, hfills.metadata.trans hpl.metadata⟩,
    fun k => ?_, fun k => (hidAt k).trans (hpl.idAt k), ⟨fun id k => ?_, ?_, fun hp k hk => ?_⟩, ?_,
    hpl.le_length, hpl.index, ?_, ?_, ?_, ?_⟩
  · rw [hfills.embeds, hpl.embeds]
  · rw [hfills.flags, hpl.flags, hpm]
  · rw [hfills.poolingParams, hpl.poolingParams, hpm]
  · have hmask := hfills.mask
    rwa [hpl.mask, hpl.hasAllowed] at hmask
  · rw [hfills.row, hpl.outputs]
    split_ifs with hk
    · exact hpl.config.rowOf req
    · exact hpl.row k hk
  · rw [hfills.reqIdToIndex, hidAt, hpl.inverse]
  · rw [hfills.outputs, hfills.reqIds, hpl.length_outputs]
  · rw [hidAt, hpl.idAt] at hk
    split_ifs at hk with hki
    rw [hfills.generators k hki, hfills.badWords k hki, hpl.generators, hpl.badWords]
    exact hwf.clean ((hfills.config.isPoolingModel.trans hpm).symm.trans hp) k hk
  · rw [hfills.reqIds, hpl.length_reqIds]
  · rw [hfills.builder, hpl.builder]
  · rw [hfills.builder, hpl.builder]
  · rw [hfills.builder, hpl.builder, hadded]
  · rw [hfills.builder, hpl.builder, hmoved]

end InputBatch

end LoptVllm.Worker
