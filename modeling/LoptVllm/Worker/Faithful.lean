import LoptVllm.Worker.RowInvariant

/-!
# The persistent batch is faithful
-/

namespace LoptVllm.Worker

open List Option Function Equiv MultiGroupBlockTable

open InputBatch

/-! ### The entries of the logits processors -/

variable {T : Type}

/-- The entries of a processor when the record of a step is applied. -/
def pend (newState : AddedRequest → Option T) (builder : BatchUpdateBuilder) (f : ℕ → Option T) :
    ℕ → Option T :=
  applyUpdates newState builder.removed builder.added builder.moved f

variable {newState : AddedRequest → Option T} {f : ℕ → Option T} {b b' : InputBatch}
  {w w' : ModelRunner}

theorem pend_of_added_eq_nil (newState newState' : AddedRequest → Option T)
    {builder : BatchUpdateBuilder} (h : builder.added = []) :
    pend newState builder f = pend newState' builder f := by
  unfold pend applyUpdates
  rw [h]
  rfl

variable {removed : List ℕ}

theorem applyUpdates_congr {removed' : List ℕ} {added : List AddedRequest}
    {moved : List MovedRequest} (h : ∀ i, i ∈ removed ↔ i ∈ removed') :
    applyUpdates newState removed added moved f = applyUpdates newState removed' added moved f := by
  unfold applyUpdates
  simp [h]

variable {i k : ℕ}

theorem pend_removes {id : ℕ} (h : Removes b b' id i) (hm : b.batchUpdateBuilder.moved = [])
    (hk : k ≠ i) :
    pend newState b'.batchUpdateBuilder f k = pend newState b.batchUpdateBuilder f k := by
  unfold pend
  rw [h.builder]
  rw [hm]
  exact applyUpdates_remove hk

variable {params : SamplingParams}

theorem pend_adds {req : CachedRequestState} (h : Adds b b' req i)
    (hmem : ∀ k, k ∈ b'.batchUpdateBuilder.removed ↔ k ∈ b.batchUpdateBuilder.removed ∧ k ≠ i)
    (hm : b.batchUpdateBuilder.moved = [])
    (hs : req.samplingParams = some params) (k : ℕ) : pend newState b'.batchUpdateBuilder f k =
      if k = i then newState ⟨i, params, req.promptTokenIds, req.reqId⟩
      else pend newState b.batchUpdateBuilder f k := by
  unfold pend
  rw [h.added, h.moved, hm, hs]
  show applyUpdates newState _ (_ ++ [(⟨i, params, req.promptTokenIds, req.reqId⟩ :
    AddedRequest)]) [] f k = _
  rw [applyUpdates_add]
  have hi : i ∉ b'.batchUpdateBuilder.removed := fun hi => ((hmem i).1 hi).2 rfl
  by_cases hk : k = i
  · rw [if_pos ⟨hk, hk ▸ hi⟩, if_pos hk]
  · rw [if_neg fun h => hk h.1, if_neg hk]
    unfold applyUpdates
    simp [hmem, hk]

theorem pend_moves {l e : ℕ} (h : Moves (b.withRemoved removed) b' l e)
    (hp : b.isPoolingModel = false) (hrem : b.batchUpdateBuilder.removed = e :: removed)
    (hmoved : ∀ m ∈ b.batchUpdateBuilder.moved, m.1 ≠ e ∧ m.2.1 ≠ e) (hle : l ≠ e)
    (hk : k ≠ l) : pend newState b'.batchUpdateBuilder f k =
      pend newState b.batchUpdateBuilder f (if k = e then l else k) := by
  unfold pend
  have hmoves : b'.batchUpdateBuilder.moved =
      b.batchUpdateBuilder.moved ++ [(l, e, .unidirectional)] := by
    rw [h.moved]
    exact if_neg (by simpa [withRemoved] using hp)
  have hadded : b'.batchUpdateBuilder.added = b.batchUpdateBuilder.added := h.added
  have hremoved : b'.batchUpdateBuilder.removed = removed := h.removed
  rw [hmoves, hadded, hremoved, hrem, applyUpdates_move]
  unfold moveEntry
  by_cases hke : k = e
  · rw [if_pos hke, if_pos hke]
    exact (applyUpdates_remove_of_notMem hmoved hle).symm
  · rw [if_neg hke, if_neg hk, if_neg hke]
    exact (applyUpdates_remove_of_notMem hmoved hke).symm

theorem pend_swaps {i1 i2 : ℕ} (h : Swaps b b' i1 i2) (hp : b.isPoolingModel = false) (k : ℕ) :
    pend newState b'.batchUpdateBuilder f k =
      pend newState b.batchUpdateBuilder f (swap i1 i2 k) := by
  unfold pend
  rw [h.moved, h.added, h.removed, if_neg (by simpa using hp), applyUpdates_move]
  unfold moveEntry
  by_cases hk2 : k = i2
  · rw [if_pos hk2, hk2, swap_apply_right]
  · rw [if_neg hk2]
    by_cases hk1 : k = i1
    · rw [if_pos hk1, hk1, swap_apply_left, if_pos rfl]
    · rw [if_neg hk1, swap_apply_of_ne_of_ne hk1 hk2]

/-! ### The row of a request -/

variable (req : CachedRequestState)

/-- The entry of a request in `min_toks`, which may be there until the next update. -/
def GoodMinTokens : Option MinTokensEntry → Prop
  | none => ∀ params ∈ req.samplingParams, params.minTokens ≤ req.outputTokenIds.length
  | some e => ∃ params ∈ req.samplingParams,
      e = ⟨params.minTokens, req.reqId, params.allStopTokenIds⟩

/-- The new entries of `min_toks`. -/
abbrev newMinTokens (outputs : ℕ → List ℤ) (a : AddedRequest) : Option MinTokensEntry :=
  MinTokensLogitsProcessor.addRequest outputs a

/-- The pooling flag of a request. -/
def CachedRequestState.requiresTokenIds : Bool :=
  (req.poolingParams.map PoolingParams.requiresTokenIds).getD false

/-- A row is that of a request. -/
structure Matches (outputs : ℕ → List ℤ) (b : InputBatch) (i : ℕ) (req : CachedRequestState) :
    Prop where
  row : b.row i = b.rowOf req
  embeds : b.reqPromptEmbeds.lookup i = req.promptEmbeds
  pooling : b.isPoolingModel = true → b.poolingParams.lookup req.reqId = req.poolingParams ∧
    b.logitsProcessingNeedsTokenIds i = req.requiresTokenIds
  processors : b.isPoolingModel = false →
    pend (fun a => a.params.bias) b.batchUpdateBuilder (fun k => b.biases.lookup k) i =
      req.samplingParams.bind SamplingParams.bias ∧
    GoodMinTokens req (pend (newMinTokens outputs) b.batchUpdateBuilder
      (fun k => b.minToks.lookup k) i)

variable {outputs : ℕ → List ℤ} {req : CachedRequestState}

/-- A row that is copied with all that belongs to it is still that of its request. -/
theorem Matches.copied {k' : ℕ} (hconfig : SameConfig b b') (hbiases : b'.biases = b.biases)
    (hminToks : b'.minToks = b.minToks) (hrow : b'.row k = b.row k')
    (hembeds : b'.reqPromptEmbeds.lookup k = b.reqPromptEmbeds.lookup k')
    (hpooling : b.isPoolingModel = true →
      b'.poolingParams.lookup req.reqId = b.poolingParams.lookup req.reqId ∧
        b'.logitsProcessingNeedsTokenIds k = b.logitsProcessingNeedsTokenIds k')
    (hpend : b.isPoolingModel = false → ∀ {T : Type} (newState : AddedRequest → Option T) f,
      pend newState b'.batchUpdateBuilder f k = pend newState b.batchUpdateBuilder f k')
    (hmatch : Matches outputs b k' req) : Matches outputs b' k req := by
  refine ⟨?_, hembeds.trans hmatch.embeds, fun hp => ?_, fun hp => ?_⟩
  · rw [hrow, hconfig.rowOf, hmatch.row]
  · have hp' := hconfig.isPoolingModel.symm.trans hp
    rw [(hpooling hp').1, (hpooling hp').2]
    exact hmatch.pooling hp'
  · have hp' := hconfig.isPoolingModel.symm.trans hp
    rw [hpend hp', hpend hp', hbiases, hminToks]
    exact hmatch.processors hp'

theorem Matches.removes {id : ℕ} (h : Removes b b' id i) (hm : b.batchUpdateBuilder.moved = [])
    (hk : k ≠ i) (hid : req.reqId ≠ id)
    (hmatch : Matches outputs b k req) : Matches outputs b' k req :=
  hmatch.copied h.config h.biases h.minToks (h.row k hk) (by rw [h.embeds])
    (fun _ => ⟨h.poolingParams _ hid, congrFun h.flags k⟩) fun _ _ _ _ => pend_removes h hm hk

theorem Matches.adds_of_ne {added : CachedRequestState} (h : Adds b b' added i)
    (hmem : ∀ k, k ∈ b'.batchUpdateBuilder.removed ↔ k ∈ b.batchUpdateBuilder.removed ∧ k ≠ i)
    (hm : b.batchUpdateBuilder.moved = []) (hk : k ≠ i) (hid : req.reqId ≠ added.reqId)
    (hsampling : added.samplingParams.isSome = !b.isPoolingModel)
    (hmatch : Matches outputs b k req) : Matches outputs b' k req := by
  refine hmatch.copied h.config h.biases h.minToks ?_ ?_ (fun _ => ?_) fun hp _ newState f => ?_
  · rw [h.row, if_neg hk]
  · rw [h.embeds, if_neg hk]
  · rw [h.poolingParams, h.flags, if_neg fun h => hid h.1, if_neg fun h => hk h.1]
    exact ⟨rfl, rfl⟩
  · rw [hp] at hsampling
    obtain ⟨params, hs⟩ := isSome_iff_exists.1 hsampling
    rw [pend_adds h hmem hm hs, if_neg hk]

theorem goodMinTokens_new (hs : req.samplingParams = some params)
    (houtputs : outputs req.reqId = req.outputTokenIds) : GoodMinTokens req
      (newMinTokens outputs ⟨i, params, req.promptTokenIds, req.reqId⟩) := by
  unfold newMinTokens MinTokensLogitsProcessor.addRequest
  dsimp only
  rw [houtputs]
  split_ifs with h
  · intro params' hparams'
    cases hs.symm.trans hparams'
    omega
  · exact ⟨params, hs, rfl⟩

theorem Matches.adds_self (h : Adds b b' req i)
    (hmem : ∀ k, k ∈ b'.batchUpdateBuilder.removed ↔ k ∈ b.batchUpdateBuilder.removed ∧ k ≠ i)
    (hm : b.batchUpdateBuilder.moved = [])
    (hsampling : req.samplingParams.isSome = !b.isPoolingModel)
    (houtputs : outputs req.reqId = req.outputTokenIds)
    (hembeds : req.promptEmbeds ≠ none ∨ b.reqPromptEmbeds.lookup i = none) :
    Matches outputs b' i req := by
  refine ⟨?_, ?_, fun hp => ?_, fun hp => ?_⟩
  · rw [h.row, if_pos rfl, h.config.rowOf]
  · rw [h.embeds, if_pos rfl]
    cases hreq : req.promptEmbeds with
    | none => exact hembeds.resolve_left fun hne => hne hreq
    | some embeds => rfl
  · have hp' := h.config.isPoolingModel.symm.trans hp
    rw [h.poolingParams, h.flags, if_pos ⟨rfl, hp'⟩, if_pos ⟨rfl, hp'⟩]
    exact ⟨rfl, rfl⟩
  · rw [h.config.isPoolingModel.symm.trans hp] at hsampling
    obtain ⟨params, hs⟩ := isSome_iff_exists.1 hsampling
    rw [pend_adds h hmem hm hs, pend_adds h hmem hm hs, if_pos rfl, if_pos rfl]
    exact ⟨by rw [hs]; rfl, goodMinTokens_new hs houtputs⟩

/-- What is needed of a move, so that the row that is moved is that of its request. -/
def MoveOk (b : InputBatch) (m : ℕ × ℕ) : Prop :=
  (b.reqPromptEmbeds.lookup m.1 ≠ none ∨ b.reqPromptEmbeds.lookup m.2 = none) ∧
    (b.isPoolingModel = true →
      b.logitsProcessingNeedsTokenIds m.1 = b.logitsProcessingNeedsTokenIds m.2)

instance (b : InputBatch) : DecidablePred (MoveOk b) := fun m =>
  inferInstanceAs (Decidable ((b.reqPromptEmbeds.lookup m.1 ≠ none ∨
    b.reqPromptEmbeds.lookup m.2 = none) ∧ (b.isPoolingModel = true →
      b.logitsProcessingNeedsTokenIds m.1 = b.logitsProcessingNeedsTokenIds m.2)))

theorem Matches.moves {l e : ℕ} (h : Moves (b.withRemoved removed) b' l e)
    (hrem : b.batchUpdateBuilder.removed = e :: removed)
    (hmoved : ∀ m ∈ b.batchUpdateBuilder.moved, m.1 ≠ e ∧ m.2.1 ≠ e) (hle : l ≠ e) (hk : k ≠ l)
    (hok : MoveOk b (l, e)) (hmatch : Matches outputs b (if k = e then l else k) req) :
    Matches outputs b' k req := by
  obtain ⟨hokEmbeds, hokFlags⟩ := hok
  refine hmatch.copied h.config.of_withRemoved h.biases h.minToks (h.row k hk) ?_
    (fun hp => ⟨congrArg (·.lookup req.reqId) h.poolingParams, ?_⟩)
    fun hp _ newState f => pend_moves h hp hrem hmoved hle hk
  · have hlookup : b'.reqPromptEmbeds.lookup k = if k = e then
        (b.reqPromptEmbeds.lookup l).or (b.reqPromptEmbeds.lookup e)
        else if k = l then none else b.reqPromptEmbeds.lookup k := h.embeds k
    rw [hlookup, if_neg hk]
    by_cases hke : k = e
    · rw [if_pos hke, if_pos hke]
      rcases hokEmbeds with hne | hnone
      · obtain ⟨v, hv⟩ := ne_none_iff_exists'.1 hne
        rw [hv, some_or]
      · rw [show b.reqPromptEmbeds.lookup e = none from hnone, or_none]
    · rw [if_neg hke, if_neg hke]
  · rw [h.flags]
    show b.logitsProcessingNeedsTokenIds k = _
    by_cases hke : k = e
    · rw [if_pos hke, hke]
      exact (hokFlags hp).symm
    · rw [if_neg hke]

theorem Matches.swaps {i1 i2 : ℕ} (h : Swaps b b' i1 i2) (hok : b.isPoolingModel = true →
      b.logitsProcessingNeedsTokenIds i1 = b.logitsProcessingNeedsTokenIds i2)
    (hmatch : Matches outputs b (swap i1 i2 k) req) : Matches outputs b' k req := by
  refine hmatch.copied h.config h.biases h.minToks (h.row k) (h.embeds k)
    (fun hp => ⟨congrArg (·.lookup req.reqId) h.poolingParams, ?_⟩) fun hp _ _ _ => pend_swaps h hp k
  rw [h.flags]
  by_cases hk1 : k = i1
  · rw [hk1, swap_apply_left, hok hp]
  · by_cases hk2 : k = i2
    · rw [hk2, swap_apply_right, hok hp]
    · rw [swap_apply_of_ne_of_ne hk1 hk2]

theorem Matches.sameRows (h : SameRows b b') (hk : (b.idAt k).isSome)
    (hmatch : Matches outputs b k req) : Matches outputs b' k req := by
  refine hmatch.copied h.config h.biases h.minToks (h.row k hk) (by rw [h.embeds])
    (fun _ => ⟨congrArg (·.lookup req.reqId) h.poolingParams, congrFun h.flags k⟩)
    fun _ _ newState f => congrFun ?_ k
  unfold pend
  rw [h.added, h.moved]
  exact applyUpdates_congr h.removed

/-- Without added requests the new entries do not matter. -/
theorem Matches.congr_outputs {outputs' : ℕ → List ℤ} (h : b.batchUpdateBuilder.added = [])
    (hmatch : Matches outputs b k req) : Matches outputs' b k req := by
  obtain ⟨hrow, hembeds, hpooling, hprocessors⟩ := hmatch
  refine ⟨hrow, hembeds, hpooling, fun hp => ?_⟩
  have hpend := pend_of_added_eq_nil (f := fun k => b.minToks.lookup k) (newMinTokens outputs)
    (newMinTokens outputs') h
  rw [← hpend]
  exact hprocessors hp

/-! ### The calls that change a request -/

variable {n : ℕ} {new : Option (List (List ℕ))}

theorem row_advance_of_ne (hk : k ≠ i) : (b.advance i n new).row k = b.row k := by
  refine Row.ext rfl rfl rfl rfl (update_of_ne hk _ _) ?_ rfl rfl
  cases new with
  | none => rfl
  | some ids => exact row_appendRow_of_ne ids hk

theorem row_advance_self (hlen : req.blockIds.length = b.blockTable.length)
    (hnew : ∀ ids ∈ new, ids.length = b.blockTable.length) (h : b.row i = b.rowOf req) :
    (b.advance i n new).row i = (b.advance i n new).rowOf (req.advance n new) := by
  have hblocks : b.blockTable.row i = b.blockTable.kernelBlocks req.blockIds :=
    congrArg Row.blocks h
  refine Row.ext (congrArg Row.outputTokenIds h :) (congrArg Row.numPromptTokens h :)
    (congrArg Row.numTokens h :) (congrArg Row.tokens h :) (update_self _ _ _) ?_
    (congrArg Row.loraId h :) (congrArg Row.sampling h :)
  cases new with
  | none => exact hblocks
  | some ids =>
    show (b.blockTable.appendRow ids i).row i =
      (b.blockTable.appendRow ids i).kernelBlocks (List.zipWith (· ++ ·) req.blockIds ids)
    rw [kernelBlocks_appendRow, row_appendRow_self,
      kernelBlocks_zipWith hlen (hnew ids rfl), hblocks]

theorem tokens_extend_self (i : ℕ) (ids : List ℤ) :
    (b.extend i ids).tokens i = b.tokens i ++ ids.map some := by
  unfold tokens InputBatch.extend
  simp only [update_self]
  rw [range_add, map_append, List.map_map]
  refine congrArg₂ _ (map_congr_left fun j hj => ?_) ?_
  · have hj : j < b.numTokensNoSpec i := mem_range.1 hj
    rw [setSlice_of_lt _ _ hj, setSlice_of_lt _ _ hj]
  · refine ext_getElem (by simp) fun j h₁ h₂ => ?_
    have hj : j < ids.length := by simpa using h₁
    have hget : ids[j]? = some ids[j] := getElem?_eq_getElem hj
    have hget' : (List.replicate ids.length true)[j]? = some true := by simp [hj]
    simp [setSlice_add _ _ hget, setSlice_add _ _ hget']

theorem tokens_extend (req : CachedRequestState) (ids : List ℤ) :
    (req.extend ids).tokens = req.tokens ++ ids.map some := by
  unfold CachedRequestState.tokens CachedRequestState.extend
  rw [map_append, ← append_assoc]

variable {ids : List ℤ}

theorem row_extend_of_ne (hk : k ≠ i) : (b.extend i ids).row k = b.row k := by
  refine Row.ext rfl rfl (update_of_ne hk _ _) ?_ rfl rfl rfl rfl
  show (b.extend i ids).tokens k = b.tokens k
  unfold tokens InputBatch.extend
  simp [update_of_ne hk]

theorem row_extend_self (h : b.row i = b.rowOf req) :
    (b.extend i ids).row i = (b.extend i ids).rowOf (req.extend ids) := by
  refine Row.ext (congrArg Row.outputTokenIds h :) (congrArg Row.numPromptTokens h :) ?_ ?_
    (congrArg Row.numComputedTokens h :) (congrArg Row.blocks h :) (congrArg Row.loraId h :)
    (congrArg Row.sampling h :)
  · have hnum : b.numTokensNoSpec i = req.numPromptTokens + req.outputTokenIds.length :=
      congrArg Row.numTokens h
    show update b.numTokensNoSpec i (b.numTokensNoSpec i + ids.length) i =
      req.numPromptTokens + (req.outputTokenIds ++ ids).length
    rw [update_self, hnum, length_append, add_assoc]
  · have htokens : b.tokens i = req.tokens := congrArg Row.tokens h
    show (b.extend i ids).tokens i = (req.extend ids).tokens
    rw [tokens_extend_self, tokens_extend, htokens]

theorem Matches.advance_of_ne (hk : k ≠ i)
    (hmatch : Matches outputs b k req) : Matches outputs (b.advance i n new) k req := by
  obtain ⟨hrow, hembeds, hpooling, hprocessors⟩ := hmatch
  refine ⟨?_, hembeds, hpooling, hprocessors⟩
  rw [row_advance_of_ne hk, (sameShape_advance i n new).config.rowOf, hrow]

theorem Matches.advance_self (hlen : req.blockIds.length = b.blockTable.length)
    (hnew : ∀ ids ∈ new, ids.length = b.blockTable.length) (hmatch : Matches outputs b i req) :
    Matches outputs (b.advance i n new) i (req.advance n new) :=
  ⟨row_advance_self hlen hnew hmatch.row, hmatch.embeds, hmatch.pooling, fun hp => by
    obtain ⟨hbias, hminToks⟩ := hmatch.processors hp
    exact ⟨hbias, hminToks⟩⟩

theorem Matches.extend_of_ne (hk : k ≠ i)
    (hmatch : Matches outputs b k req) : Matches outputs (b.extend i ids) k req := by
  obtain ⟨hrow, hembeds, hpooling, hprocessors⟩ := hmatch
  refine ⟨?_, hembeds, hpooling, hprocessors⟩
  rw [row_extend_of_ne hk, (sameShape_extend i ids).config.rowOf, hrow]

/-- An entry of `min_toks` stays good, since there are only more output tokens. -/
theorem GoodMinTokens.extend {e : Option MinTokensEntry} (ids : List ℤ) (h : GoodMinTokens req e) :
    GoodMinTokens (req.extend ids) e := by
  cases e with
  | none =>
    intro params hparams
    have hle := h params hparams
    show params.minTokens ≤ (req.outputTokenIds ++ ids).length
    rw [length_append]
    omega
  | some e => exact h

theorem Matches.extend_self (hmatch : Matches outputs b i req) :
    Matches outputs (b.extend i ids) i (req.extend ids) :=
  ⟨row_extend_self hmatch.row, hmatch.embeds, hmatch.pooling, fun hp => by
    obtain ⟨hbias, hminToks⟩ := hmatch.processors hp
    exact ⟨hbias, hminToks.extend ids⟩⟩

/-! ### Every row -/

theorem outputTokenIds_eq {id : ℕ} (h : w.requests.lookup id = some req) (hid : req.reqId = id) :
    w.outputTokenIds req.reqId = req.outputTokenIds := by
  unfold ModelRunner.outputTokenIds
  rw [hid, h]
  rfl

/-- What is needed of a call, so that the rows stay those of the requests: `add_request` and
`condense` leave prompt embeddings of a request that is gone where they are, unless others take
their place, and the pooling flags are not moved at all. -/
def KeepsRows (w : ModelRunner) : RunnerCall → Prop
  | .add id _ => ∀ req ∈ w.requests.lookup id, req.promptEmbeds ≠ none ∨
    w.inputBatch.reqPromptEmbeds.lookup
      (w.inputBatch.batchUpdateBuilder.popRemoved.1.getD w.inputBatch.numReqs) = none
  | .condense => ∀ m ∈ w.inputBatch.condenseMoves, MoveOk w.inputBatch m
  | .swap i1 i2 => w.inputBatch.isPoolingModel = true →
    w.inputBatch.logitsProcessingNeedsTokenIds i1 = w.inputBatch.logitsProcessingNeedsTokenIds i2
  | _ => True

instance (w : ModelRunner) : DecidablePred (KeepsRows w)
  | .add id _ => inferInstanceAs (Decidable (∀ req ∈ w.requests.lookup id,
      req.promptEmbeds ≠ none ∨ w.inputBatch.reqPromptEmbeds.lookup
        (w.inputBatch.batchUpdateBuilder.popRemoved.1.getD w.inputBatch.numReqs) = none))
  | .condense => inferInstanceAs (Decidable (∀ m ∈ w.inputBatch.condenseMoves,
      MoveOk w.inputBatch m))
  | .swap i1 i2 => inferInstanceAs (Decidable (w.inputBatch.isPoolingModel = true →
      w.inputBatch.logitsProcessingNeedsTokenIds i1 =
        w.inputBatch.logitsProcessingNeedsTokenIds i2))
  | .finish _ | .unschedule _ | .cache _ | .update _ _ _ _ | .sample _ _ | .refresh =>
    inferInstanceAs (Decidable True)

/-- The state of a row after the processors are updated. -/
structure RowFaithful (b : InputBatch) (i : ℕ) (req : CachedRequestState) : Prop where
  row : b.row i = b.rowOf req
  embeds : b.reqPromptEmbeds.lookup i = req.promptEmbeds
  pooling : b.isPoolingModel = true → b.poolingParams.lookup req.reqId = req.poolingParams ∧
    b.logitsProcessingNeedsTokenIds i = req.requiresTokenIds
  bias : b.isPoolingModel = false → b.biases.lookup i = req.samplingParams.bind SamplingParams.bias
  minToks : b.isPoolingModel = false → b.minToks.lookup i = req.samplingParams.bind fun params =>
    if params.minTokens ≤ req.outputTokenIds.length then none
    else some ⟨params.minTokens, req.reqId, params.allStopTokenIds⟩

/-- The rows with a request are the first ones, and each is that of its request. -/
structure Faithful (w : ModelRunner) : Prop where
  length_reqIds : w.inputBatch.reqIds.length = w.inputBatch.numReqs
  dense : ∀ i, i < w.inputBatch.numReqs → ∃ id, w.inputBatch.reqIds[i]? = some (some id)
  inverse : ∀ id i, w.inputBatch.reqIdToIndex.lookup id = some i ↔
    w.inputBatch.reqIds[i]? = some (some id)
  rows : ∀ i id, w.inputBatch.reqIds[i]? = some (some id) → ∃ req,
    w.requests.lookup id = some req ∧ req.reqId = id ∧ RowFaithful w.inputBatch i req

theorem Matches.refreshes (h : Refreshes outputs b b')
    (hsampling : req.samplingParams.isSome = !b.isPoolingModel)
    (houtputs : outputs req.reqId = req.outputTokenIds)
    (hmatch : Matches outputs b k req) : RowFaithful b' k req := by
  obtain ⟨hrow, hembeds, hpooling, hprocessors⟩ := hmatch
  refine ⟨?_, ?_, fun hp => ?_, fun hp => ?_, fun hp => ?_⟩
  · rw [h.row, h.config.rowOf, hrow]
  · rw [h.embeds, hembeds]
  · rw [h.poolingParams, h.flags]
    exact hpooling (h.config.isPoolingModel.symm.trans hp)
  · have hp' := h.config.isPoolingModel.symm.trans hp
    rw [h.biases hp', ← (hprocessors hp').1]
    rfl
  · have hp' := h.config.isPoolingModel.symm.trans hp
    rw [hp'] at hsampling
    obtain ⟨params, hs⟩ := isSome_iff_exists.1 hsampling
    have hgood := (hprocessors hp').2
    rw [h.minToks hp', hs]
    unfold pend newMinTokens at hgood
    -- an entry that is not needed any more is removed now
    generalize applyUpdates (MinTokensLogitsProcessor.addRequest outputs) _ _ _ _ k = e at hgood ⊢
    cases e with
    | none =>
      have hle := hgood params hs
      exact (if_pos hle).symm
    | some e =>
      obtain ⟨params', hs', rfl⟩ := hgood
      cases hs.symm.trans hs'
      show Option.filter _ _ = if _ then none else _
      by_cases hle : params.minTokens ≤ req.outputTokenIds.length
      · rw [if_pos hle]
        exact filter_some_neg (by simpa [houtputs] using hle)
      · rw [if_neg hle]
        exact filter_some_pos (by simpa [houtputs] using hle)

/-- Where nothing is recorded the processors are up to date. -/
theorem RowFaithful.matches (h : RowFaithful b k req) (hremoved : b.batchUpdateBuilder.removed = [])
    (hadded : b.batchUpdateBuilder.added = []) (hmoved : b.batchUpdateBuilder.moved = [])
    (hsampling : req.samplingParams.isSome = !b.isPoolingModel) : Matches outputs b k req := by
  refine ⟨h.row, h.embeds, h.pooling, fun hp => ?_⟩
  unfold pend
  rw [hremoved, hadded, hmoved, applyUpdates_nil, applyUpdates_nil, h.bias hp, h.minToks hp]
  rw [hp] at hsampling
  obtain ⟨params, hs⟩ := isSome_iff_exists.1 hsampling
  refine ⟨rfl, ?_⟩
  rw [hs]
  show GoodMinTokens req (if _ then none else _)
  split_ifs with hle
  · intro params' hparams'
    cases hs.symm.trans hparams'
    exact hle
  · exact ⟨params, hs, rfl⟩

theorem Faithful.of_refreshes (hs : Shape .condensed w) (hrows : RowsHold Matches w)
    (h : Refreshes w.outputTokenIds w.inputBatch b') : Faithful { w with inputBatch := b' } := by
  have hs' := hs.refreshes h
  have hlen := hs.numReqs_of_refreshes h
  refine ⟨hlen.symm, fun i hi => ?_, fun id i => ?_, fun i id hid => ?_⟩
  · have hi' : i < w.inputBatch.reqIds.length := by
      rw [← h.length_reqIds, ← hlen]
      exact hi
    obtain ⟨id, hid⟩ := isSome_iff_exists.1 (hs.dense rfl i hi')
    exact ⟨id, idAt_eq_some.1 ((h.idAt i).trans hid)⟩
  · exact (hs'.wellFormed.inverse id i).trans idAt_eq_some
  · have hid' : w.inputBatch.idAt i = some id := (h.idAt i).symm.trans (idAt_eq_some.2 hid)
    obtain ⟨req, hreq, hmatch⟩ := hrows i id hid'
    obtain ⟨hreqId, hsampling, -⟩ := hs.requests id req hreq
    exact ⟨req, hreq, hreqId, hmatch.refreshes h hsampling (outputTokenIds_eq hreq hreqId)⟩

theorem rowInvariant_matches : RowInvariant KeepsRows MoveOk Matches where
  outputs := fun hadded hmatch => hmatch.congr_outputs hadded
  sameRows := fun h hk hmatch => hmatch.sameRows h hk
  removes := fun h hm hk hid hmatch => hmatch.removes h hm hk hid
  adds_self := fun {w b' id specs i req} h hmem hm hreq hid hfits hkeeps => by
    refine Matches.adds_self h hmem hm hfits.1 ?_ ?_
    · exact outputTokenIds_eq hreq hid
    · have hembeds := hkeeps req hreq
      rwa [h.index] at hembeds
  adds_of_ne := fun h hmem hm hfits hk hid hmatch => hmatch.adds_of_ne h hmem hm hk hid hfits.1
  ok_frame := fun {b b' l e removed m} hm h₁ h₂ h₃ h₄ ⟨hembeds, hflags⟩ => by
    have hlookup : ∀ k, k ≠ l → k ≠ e →
        b'.reqPromptEmbeds.lookup k = b.reqPromptEmbeds.lookup k := fun k hkl hke =>
      (hm.embeds k).trans ((if_neg hke).trans (if_neg hkl))
    unfold MoveOk
    rw [hlookup _ h₁ h₂, hlookup _ h₃ h₄, hm.flags]
    exact ⟨hembeds, fun hp => hflags (hm.config.isPoolingModel.symm.trans hp)⟩
  ok_of_meets := fun hkeeps => hkeeps
  moves := fun h hrem hmoved hle hk hok hmatch => hmatch.moves h hrem hmoved hle hk hok
  swaps := fun h hkeeps hmatch => hmatch.swaps h hkeeps
  advance_self := fun hlen hnew hmatch => hmatch.advance_self hlen hnew
  advance_of_ne := fun hk hmatch => hmatch.advance_of_ne hk
  extend_self := fun hmatch => hmatch.extend_self
  extend_of_ne := fun hk hmatch => hmatch.extend_of_ne hk
  refreshes := fun {w b' k id req} h hreq hid hfits hmatch => by
    have hrow := hmatch.refreshes h hfits.1 (outputTokenIds_eq hreq hid)
    obtain ⟨hremoved, hmoved, hadded, -⟩ := h.builder_nil
    refine hrow.matches hremoved hadded hmoved ?_
    rw [h.config.isPoolingModel]
    exact hfits.1

theorem Run.rowsMatch {p : Phase} (h : Run KeepsRows p w) : RowsHold Matches w :=
  rowInvariant_matches.run h

/-- The batch that a step works with is dense, and each row is that of its request. -/
theorem Run.faithful (h : Run KeepsRows .condensed w) (hw : w.step .refresh = .ok w') :
    Faithful w' := by
  have hnext : RunnerCall.refresh.next .condensed = some .updating := rfl
  have heffect : Effect w .refresh w' := step_effect h.shape hnext trivial hw
  cases heffect with
  | refresh hrefresh =>
    exact .of_refreshes h.shape h.rowsMatch (refreshMetadata_eq h.shape.wellFormed hrefresh)

/-! ### Small runs -/

/-- A request with a prompt of one embedding. -/
def smallEmbedsRequest (reqId : ℕ) : CachedRequestState :=
  { smallRequest reqId with
    promptTokenIds := none
    promptEmbeds := some [[1, 2]]
    numPromptTokens_eq := rfl }

/-- A request of a pooling model. -/
def smallPoolingRequest (reqId : ℕ) (requiresTokenIds : Bool) : CachedRequestState :=
  { smallRequest reqId with
    samplingParams := none
    poolingParams := some ⟨requiresTokenIds⟩ }

/-- A request with prompt embeddings is finished, and another request gets its row; or a request of a
pooling model is moved. -/
theorem not_faithful_of_leftovers :
    (∃ w w', Run (fun _ _ => True) .condensed w ∧ w.step .refresh = .ok w' ∧
      w'.inputBatch.isPoolingModel = false ∧ ¬ Faithful w') ∧
    ∃ w w', Run (fun _ _ => True) .condensed w ∧ w.step .refresh = .ok w' ∧
      w'.inputBatch.isPoolingModel = true ∧ ¬ Faithful w' := by
  refine ⟨?_, ?_⟩
  · obtain ⟨w, w', hrun, hw, hp, hid, hembeds, hnone⟩ := exists_of_refreshed (fun _ _ => True)
      [.cache (smallEmbedsRequest 1), .add 1 [], .condense, .refresh, .finish 1,
        .cache (smallRequest 2), .add 2 [], .condense] (smallRunner false)
      (fun w => w.inputBatch.isPoolingModel = false ∧ w.inputBatch.reqIds[0]? = some (some 2) ∧
        (w.inputBatch.reqPromptEmbeds.lookup 0).isSome ∧
        (w.requests.lookup 2).map CachedRequestState.promptEmbeds = some none)
      .new (by decide +kernel)
    refine ⟨w, w', hrun, hw, hp, fun hfaithful => ?_⟩
    obtain ⟨req, hreq, -, hrow⟩ := hfaithful.rows 0 2 hid
    rw [hreq] at hnone
    rw [hrow.embeds, some.inj hnone] at hembeds
    cases hembeds
  · obtain ⟨w, w', hrun, hw, hp, hid, hflag, htrue⟩ := exists_of_refreshed (fun _ _ => True)
      [.cache (smallPoolingRequest 1 false), .cache (smallPoolingRequest 2 true), .add 1 [],
        .add 2 [], .condense, .refresh, .finish 1, .condense] (smallRunner true)
      (fun w => w.inputBatch.isPoolingModel = true ∧ w.inputBatch.reqIds[0]? = some (some 2) ∧
        w.inputBatch.logitsProcessingNeedsTokenIds 0 = false ∧
        (w.requests.lookup 2).map CachedRequestState.requiresTokenIds = some true)
      .new (by decide +kernel)
    refine ⟨w, w', hrun, hw, hp, fun hfaithful => ?_⟩
    obtain ⟨req, hreq, -, hrow⟩ := hfaithful.rows 0 2 hid
    rw [hreq] at htrue
    rw [(hrow.pooling hp).2, some.inj htrue] at hflag
    cases hflag

/-- A request is moved to the row of a request that had no prompt embeddings. -/
theorem faithful_of_moved_request : ∃ w w', Run KeepsRows .condensed w ∧
    w.step .refresh = .ok w' ∧ w'.inputBatch.reqIds = [some 2, some 3] ∧ Faithful w' := by
  obtain ⟨w, w', hrun, hw, hids⟩ := exists_of_refreshed KeepsRows
    [.cache (smallRequest 1), .cache (smallEmbedsRequest 2), .cache (smallRequest 3),
      .add 1 [], .add 2 [], .add 3 [], .condense, .swap 0 1, .refresh, .sample 2 [6],
      .update 3 1 (some [[4]]) [], .finish 1, .condense] (smallRunner false)
    (fun w => w.inputBatch.reqIds = [some 2, some 3]) .new (by decide +kernel)
  exact ⟨w, w', hrun, hw, hids, hrun.faithful hw⟩

end LoptVllm.Worker
