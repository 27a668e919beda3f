import LoptVllm.Worker.Condense

/-!
# What a call of the worker does
-/

namespace LoptVllm.Worker

open List Option Function OrderedDict AList Equiv MinTokensLogitsProcessor

open InputBatch

variable {b b' : InputBatch} {w w' : ModelRunner}

/-! ### The calls that read the requests -/

variable {id : ℕ} {specs : List ℤ}

theorem sameRows_updateReqSpecTokenIds (hwf : b.WellFormed)
    (h : b.updateReqSpecTokenIds id specs = .ok b') : SameRows b b' := by
  unfold updateReqSpecTokenIds at h
  split at h
  · cases h
  · next i hi =>
    cases h
    refine ⟨⟨⟨rfl, rfl, rfl, rfl, rfl⟩, rfl, rfl, rfl, rfl, rfl, rfl⟩, fun k _ => ?_, fun _ => rfl,
      ⟨hwf.inverse, hwf.length_outputs, hwf.clean⟩, rfl, rfl, fun _ => Iff.rfl, rfl, rfl, rfl⟩
    refine Row.ext rfl rfl rfl ?_ rfl rfl rfl rfl
    refine map_congr_left fun j hj => ?_
    rw [mem_range] at hj
    dsimp only at hj ⊢
    by_cases hk : k = i
    · rw [hk] at hj ⊢
      rw [update_self, setSlice_of_lt _ _ hj]
    · rw [update_of_ne hk]

/-- A request that is running: its blocks are extended. -/
def CachedRequestState.advance (req : CachedRequestState) (numComputedTokens : ℕ)
    (newBlockIds : Option (List (List ℕ))) : CachedRequestState :=
  { req with
    numComputedTokens := numComputedTokens
    blockIds := match newBlockIds with
      | some new => extendBlockIds req.blockIds new
      | none => req.blockIds }

/-- The row of a request that is running. -/
def InputBatch.advance (b : InputBatch) (i numComputedTokens : ℕ)
    (newBlockIds : Option (List (List ℕ))) : InputBatch :=
  { b with
    numComputedTokensCpu := update b.numComputedTokensCpu i numComputedTokens
    blockTable := match newBlockIds with
      | some new => b.blockTable.appendRow new i
      | none => b.blockTable }

variable {new : Option (List (List ℕ))}

theorem updateRequest_eq {n : ℕ}
    (h : w.updateRequest id n new specs = .ok w') : ∃ req, w.requests.lookup id = some req ∧
      w'.requests = w.requests.setItem id (req.advance n new) ∧ w'.maxModelLen = w.maxModelLen ∧
      (w.inputBatch.reqIdToIndex.lookup id = none ∧ w'.inputBatch = w.inputBatch ∨
        ∃ i, w.inputBatch.reqIdToIndex.lookup id = some i ∧
          (w.inputBatch.advance i n new).updateReqSpecTokenIds id specs = .ok w'.inputBatch) := by
  unfold ModelRunner.updateRequest at h
  split at h
  · cases h
  · next req hreq =>
    refine ⟨req, hreq, ?_⟩
    dsimp only at h
    split at h
    · next hnone =>
      cases h
      exact ⟨rfl, rfl, .inl ⟨hnone, rfl⟩⟩
    · next i hi =>
      obtain ⟨batch, hbatch, h⟩ := bind_ok.1 h
      cases h
      exact ⟨rfl, rfl, .inr ⟨i, hi, hbatch⟩⟩

/-- A request with more output tokens. -/
def CachedRequestState.extend (req : CachedRequestState) (sampledIds : List ℤ) :
    CachedRequestState :=
  { req with outputTokenIds := req.outputTokenIds ++ sampledIds }

/-- A row with more tokens. -/
def InputBatch.extend (b : InputBatch) (i : ℕ) (sampledIds : List ℤ) : InputBatch :=
  { b with
    tokenIdsCpu := update b.tokenIdsCpu i
      (setSlice (b.tokenIdsCpu i) (b.numTokensNoSpec i) sampledIds)
    isTokenIds := update b.isTokenIds i
      (setSlice (b.isTokenIds i) (b.numTokensNoSpec i) (List.replicate sampledIds.length true))
    numTokensNoSpec := update b.numTokensNoSpec i (b.numTokensNoSpec i + sampledIds.length) }

variable {i : ℕ}

theorem sampleTokens_eq {ids : List ℤ} (h : w.sampleTokens i ids = .ok w') : w' = w ∨
    ∃ id req, w.inputBatch.idAt i = some id ∧ w.requests.lookup id = some req ∧ w' = { w with
        requests := w.requests.setItem id (req.extend ids)
        inputBatch := w.inputBatch.extend i ids } := by
  unfold ModelRunner.sampleTokens at h
  split at h
  · cases h
    exact .inl rfl
  · dsimp only at h
    split at h
    · cases h
    · split at h
      · next id hid =>
        split at h
        · cases h
        · next req hreq =>
          cases h
          exact .inr ⟨id, req, idAt_eq_some.2 hid, hreq, rfl⟩
      all_goals cases h

/-! ### `refresh_metadata` -/

/-- The mask that `_make_sampling_metadata` makes. -/
def InputBatch.currentMask (b : InputBatch) : Option (List (ℕ → Bool)) :=
  if b.hasAllowedTokenIds = ∅ then none
  else b.allowedTokenIdsMaskCpuTensor.map fun mask => (List.range b.numReqs).map mask

/-- What `refresh_metadata` does. -/
structure Refreshes (outputs : ℕ → List ℤ) (b b' : InputBatch) : Prop where
  config : SameConfig b b'
  row : ∀ k, b'.row k = b.row k
  idAt : ∀ k, b'.idAt k = b.idAt k
  wellFormed : b'.WellFormed
  numReqs : b'.numReqs = b.numReqs
  embeds : b'.reqPromptEmbeds = b.reqPromptEmbeds
  length_reqIds : b'.reqIds.length = b.reqIds.length
  builder : b'.batchUpdateBuilder = .new ∨ b'.batchUpdateBuilder =
    { b.batchUpdateBuilder with isRemovedSorted := false, batchChanged := false } ∧
      b.batchUpdateBuilder.removed = [] ∧ b.batchUpdateBuilder.moved = [] ∧
      b.batchUpdateBuilder.added = []
  flags : b'.logitsProcessingNeedsTokenIds = b.logitsProcessingNeedsTokenIds
  poolingParams : b'.poolingParams = b.poolingParams
  biases : b.isPoolingModel = false → ∀ k, b'.biases.lookup k =
    applyUpdates (fun a => a.params.bias) b.batchUpdateBuilder.removed b.batchUpdateBuilder.added
      b.batchUpdateBuilder.moved (fun k => b.biases.lookup k) k
  minToks : b.isPoolingModel = false → ∀ k, b'.minToks.lookup k =
    (applyUpdates (addRequest outputs) b.batchUpdateBuilder.removed
      b.batchUpdateBuilder.added b.batchUpdateBuilder.moved (fun k => b.minToks.lookup k) k).filter
        fun e => (outputs e.outTokIds).length < e.minToks
  hasAllowed : b'.hasAllowedTokenIds = b.hasAllowedTokenIds
  mask : b'.allowedTokenIdsMaskCpuTensor = b.allowedTokenIdsMaskCpuTensor
  metadata : b'.allowedTokenIdsMask = b'.currentMask ∨
    b'.allowedTokenIdsMask = b.allowedTokenIdsMask ∧ (b.isPoolingModel = true ∨
      b.batchUpdateBuilder.removed = [] ∧ b.batchUpdateBuilder.moved = [] ∧
        b.batchUpdateBuilder.added = [])

theorem makeSamplingMetadata_eq (h : b.makeSamplingMetadata = .ok b') :
    b' = { b with allowedTokenIdsMask := b.currentMask } := by
  unfold makeSamplingMetadata at h
  unfold currentMask
  split at h
  · next hempty =>
    cases h
    rw [if_pos hempty]
  · next hne =>
    rw [if_neg hne]
    split at h
    · cases h
    · next mask hmask =>
      cases h
      rw [hmask]
      rfl

theorem applyUpdates_nil {T : Type} (newState : AddedRequest → Option T) (f : ℕ → Option T) :
    applyUpdates newState [] [] [] f = f := by
  simp [applyUpdates]

variable {outputs : ℕ → List ℤ}

/-- The entries that are not needed any more are removed. -/
theorem lookup_updateState (d : OrderedDict ℕ MinTokensEntry) (u : Option BatchUpdate)
    (k : ℕ) : (updateState outputs d u).lookup k =
      ((processDictUpdates d u (addRequest outputs)).lookup k).filter
        fun e => (outputs e.outTokIds).length < e.minToks := by
  unfold updateState
  rw [lookup_foldl_erase]
  generalize processDictUpdates d u (addRequest outputs) = d'
  have hmem : k ∈ (d'.items.filter fun e => e.2.minToks ≤ (outputs e.2.outTokIds).length).map
      Prod.fst ↔ ∃ e, d'.lookup k = some e ∧ e.minToks ≤ (outputs e.outTokIds).length := by
    simp [List.mem_map, mem_filter, decide_eq_true_eq, Prod.exists, exists_and_right,
      exists_eq_right, mem_items]
  rw [if_congr hmem rfl rfl]
  cases hk : d'.lookup k with
  | none => simp
  | some e =>
    by_cases he : e.minToks ≤ (outputs e.outTokIds).length
    · rw [if_pos ⟨e, rfl, he⟩, filter_some_neg (by simpa using he)]
    · rw [if_neg (by simpa using he), filter_some_pos (by simpa using he)]

theorem refreshMetadata_eq (hwf : b.WellFormed)
    (h : b.refreshMetadata outputs = .ok b') : Refreshes outputs b b' := by
  unfold refreshMetadata BatchUpdateBuilder.reset at h
  by_cases hp : b.isPoolingModel = true
  · rw [if_pos hp] at h
    dsimp only at h
    have hnp : b.isPoolingModel ≠ false := by simp [hp]
    obtain ⟨m, rfl, hm⟩ : ∃ m, b' = { b with
        batchUpdateBuilder := .new, allowedTokenIdsMask := m } ∧
        (m = b.currentMask ∨ m = b.allowedTokenIdsMask) := by
      split at h
      · exact ⟨_, makeSamplingMetadata_eq h, .inl rfl⟩
      · cases h
        exact ⟨_, rfl, .inr rfl⟩
    exact ⟨⟨rfl, rfl, rfl, rfl, rfl⟩, fun _ => rfl, fun _ => rfl,
      ⟨hwf.inverse, hwf.length_outputs, hwf.clean⟩, rfl, rfl, rfl, .inl rfl, rfl, rfl,
      fun h => absurd h hnp, fun h => absurd h hnp, rfl, rfl,
      hm.imp (fun h => h) fun h => ⟨h, .inl hp⟩⟩
  · rw [if_neg hp] at h
    by_cases hempty : b.batchUpdateBuilder.removed = [] ∧ b.batchUpdateBuilder.moved = [] ∧
        b.batchUpdateBuilder.added = []
    · have hrecord : b.batchUpdateBuilder.getAndReset b.numReqs = (none, { b.batchUpdateBuilder with
          isRemovedSorted := false, batchChanged := false }) := if_pos hempty
      rw [hrecord] at h
      simp only [isSome_none, Bool.false_eq_true, if_false, Except.ok.injEq] at h
      subst h
      obtain ⟨hremoved, hmoved, hadded⟩ := hempty
      refine ⟨⟨rfl, rfl, rfl, rfl, rfl⟩, fun _ => rfl, fun _ => rfl,
        ⟨hwf.inverse, hwf.length_outputs, hwf.clean⟩, rfl, rfl, rfl,
        .inr ⟨rfl, hremoved, hmoved, hadded⟩, rfl, rfl, fun _ k => ?_, fun _ k => ?_, rfl, rfl,
        .inr ⟨rfl, .inr ⟨hremoved, hmoved, hadded⟩⟩⟩
      · rw [hremoved, hmoved, hadded, applyUpdates_nil]
        rfl
      · rw [hremoved, hmoved, hadded, applyUpdates_nil]
        exact lookup_updateState b.minToks none k
    · have hrecord : b.batchUpdateBuilder.getAndReset b.numReqs =
          (some ⟨b.numReqs, b.batchUpdateBuilder.removed, b.batchUpdateBuilder.added,
            b.batchUpdateBuilder.moved⟩, .new) := if_neg hempty
      rw [hrecord] at h
      obtain rfl := makeSamplingMetadata_eq h
      exact ⟨⟨rfl, rfl, rfl, rfl, rfl⟩, fun _ => rfl, fun _ => rfl,
        ⟨hwf.inverse, hwf.length_outputs, hwf.clean⟩, rfl, rfl, rfl, .inl rfl, rfl, rfl,
        fun _ k => lookup_processDictUpdates b.biases _ _ k, fun _ k => by
          refine (lookup_updateState b.minToks _ k).trans ?_
          rw [lookup_processDictUpdates], rfl, rfl, .inl rfl⟩

/-- Nothing is recorded any more. -/
theorem Refreshes.builder_nil (h : Refreshes outputs b b') :
    b'.batchUpdateBuilder.removed = [] ∧ b'.batchUpdateBuilder.moved = [] ∧
      b'.batchUpdateBuilder.added = [] ∧ b'.batchUpdateBuilder.isRemovedSorted = false := by
  rcases h.builder with hnew | ⟨hsame, hremoved, hmoved, hadded⟩
  · rw [hnew]
    exact ⟨rfl, rfl, rfl, rfl⟩
  · rw [hsame]
    exact ⟨hremoved, hmoved, hadded, rfl⟩

/-! ### The rows without a request -/

/-- The rows without a request in each part of a step, and what is recorded. -/
structure Shape (p : Phase) (w : ModelRunner) : Prop where
  wellFormed : w.inputBatch.WellFormed
  known : ∀ i id, w.inputBatch.idAt i = some id → id ∈ w.requests
  requests : ∀ id req, w.requests.lookup id = some req → req.reqId = id ∧ w.Fits req
  holes : p ≠ .condensed → w.inputBatch.Holes w.inputBatch.batchUpdateBuilder.removed ∧
    (w.inputBatch.batchUpdateBuilder.isRemovedSorted = true →
      w.inputBatch.batchUpdateBuilder.removed.Pairwise (· < ·)) ∧
    w.inputBatch.batchUpdateBuilder.moved = []
  added : p = .updating → w.inputBatch.batchUpdateBuilder.added = []
  dense : p = .condensed → ∀ i, i < w.inputBatch.reqIds.length → (w.inputBatch.idAt i).isSome

variable {p : Phase}

theorem Shape.idAt_popRemoved (hs : Shape p w) (hp : p ≠ .condensed) : w.inputBatch.idAt
      (w.inputBatch.batchUpdateBuilder.popRemoved.1.getD w.inputBatch.numReqs) = none := by
  obtain ⟨hholes, -, -⟩ := hs.holes hp
  unfold BatchUpdateBuilder.popRemoved
  split
  · next hnil =>
    -- without removed rows, the next row is behind the last
    have hnum := numReqs_add hs.wellFormed hholes
    rw [hnil] at hnum
    unfold idAt
    rw [getElem?_eq_none (by simpa using hnum.ge)]
    rfl
  · next hne =>
    have hmem := mem_ensureRemovedSorted w.inputBatch.batchUpdateBuilder
    dsimp only
    cases hrem : w.inputBatch.batchUpdateBuilder.ensureRemovedSorted.removed with
    | nil =>
      obtain ⟨a, ha⟩ := exists_mem_of_ne_nil _ hne
      have := (hmem a).2 ha
      rw [hrem] at this
      exact absurd this not_mem_nil
    | cons e rest =>
      have he := (hmem e).1 (hrem ▸ mem_cons_self)
      exact ((hholes.mem_iff e).1 he).2

variable {req : CachedRequestState}

theorem Shape.mem_removed (hs : Shape p w) (hp : p ≠ .condensed) (h : Adds w.inputBatch b' req i)
    (k : ℕ) :
    k ∈ b'.batchUpdateBuilder.removed ↔ k ∈ w.inputBatch.batchUpdateBuilder.removed ∧ k ≠ i := by
  have hindex := h.index
  have hnodup := (hs.holes hp).1.nodup
  rw [h.removed]
  unfold BatchUpdateBuilder.popRemoved at hindex ⊢
  by_cases hnil : w.inputBatch.batchUpdateBuilder.removed = []
  · rw [if_pos hnil, hnil]
    simp
  · rw [if_neg hnil] at hindex ⊢
    dsimp only at hindex ⊢
    have hmem := mem_ensureRemovedSorted w.inputBatch.batchUpdateBuilder
    have hnodup' : w.inputBatch.batchUpdateBuilder.ensureRemovedSorted.removed.Nodup :=
      (sorted_ensureRemovedSorted hnodup (hs.holes hp).2.1).imp ne_of_lt
    rw [← hmem]
    cases hrem : w.inputBatch.batchUpdateBuilder.ensureRemovedSorted.removed with
    | nil =>
      obtain ⟨a, ha⟩ := exists_mem_of_ne_nil _ hnil
      have := (hmem a).2 ha
      rw [hrem] at this
      exact absurd this not_mem_nil
    | cons e rest =>
      rw [hrem] at hindex hnodup'
      obtain rfl : e = i := hindex
      rw [tail_cons, mem_cons]
      have hnot := (nodup_cons.1 hnodup').1
      constructor
      · exact fun hk => ⟨.inr hk, fun heq => hnot (heq ▸ hk)⟩
      · exact fun hk => hk.1.resolve_left hk.2

variable {requests : OrderedDict ℕ CachedRequestState}

/-- A request that is known fits the batch after each operation. -/
theorem Shape.fits (hs : Shape p w) (h : SameConfig w.inputBatch b')
    (hreq : w.requests.lookup id = some req) : req.reqId = id ∧
      ModelRunner.Fits { w with requests := requests, inputBatch := b' } req := by
  obtain ⟨hid, hfits⟩ := hs.requests id req hreq
  unfold ModelRunner.Fits at hfits ⊢
  rw [← h.isPoolingModel, ← h.length_blockTable] at hfits
  exact ⟨hid, hfits⟩

/-- What decides which rows have a request, and what is recorded, is not changed. -/
structure SameShape (b b' : InputBatch) : Prop where
  config : SameConfig b b'
  reqIds : b'.reqIds = b.reqIds
  reqIdToIndex : b'.reqIdToIndex = b.reqIdToIndex
  reqOutputTokenIds : b'.reqOutputTokenIds = b.reqOutputTokenIds
  generators : b'.generators = b.generators
  badWords : b'.badWordsTokenIds = b.badWordsTokenIds
  builder : b'.batchUpdateBuilder = b.batchUpdateBuilder

theorem SameShape.refl (b : InputBatch) : SameShape b b :=
  ⟨⟨rfl, rfl, rfl, rfl, rfl⟩, rfl, rfl, rfl, rfl, rfl, rfl⟩

theorem SameShape.trans {b'' : InputBatch} (h : SameShape b b') (h' : SameShape b' b'') :
    SameShape b b'' :=
  ⟨h.config.trans h'.config, h'.reqIds.trans h.reqIds, h'.reqIdToIndex.trans h.reqIdToIndex,
    h'.reqOutputTokenIds.trans h.reqOutputTokenIds, h'.generators.trans h.generators,
    h'.badWords.trans h.badWords, h'.builder.trans h.builder⟩

theorem SameShape.idAt (h : SameShape b b') (k : ℕ) : b'.idAt k = b.idAt k := by
  unfold InputBatch.idAt
  rw [h.reqIds]

theorem SameShape.wellFormed (h : SameShape b b') (hwf : b.WellFormed) : b'.WellFormed := by
  refine ⟨fun id i => ?_, ?_, fun hp i hi => ?_⟩
  · rw [h.reqIdToIndex, h.idAt]
    exact hwf.inverse id i
  · rw [h.reqOutputTokenIds, h.reqIds, hwf.length_outputs]
  · rw [h.generators, h.badWords]
    exact hwf.clean (h.config.isPoolingModel.symm.trans hp) i ((h.idAt i).symm.trans hi)

theorem sameShape_updateReqSpecTokenIds
    (h : b.updateReqSpecTokenIds id specs = .ok b') : SameShape b b' := by
  unfold updateReqSpecTokenIds at h
  split at h
  · cases h
  · cases h
    exact ⟨⟨rfl, rfl, rfl, rfl, rfl⟩, rfl, rfl, rfl, rfl, rfl, rfl⟩

theorem sameShape_advance (i n : ℕ) (new : Option (List (List ℕ))) :
    SameShape b (b.advance i n new) := by
  cases new with
  | none => exact ⟨⟨rfl, rfl, rfl, rfl, rfl⟩, rfl, rfl, rfl, rfl, rfl, rfl⟩
  | some new =>
    exact ⟨⟨rfl, rfl, rfl, MultiGroupBlockTable.kernelBlocks_appendRow new i, length_mapIdx⟩,
      rfl, rfl, rfl, rfl, rfl, rfl⟩

theorem sameShape_extend (i : ℕ) (ids : List ℤ) : SameShape b (b.extend i ids) :=
  ⟨⟨rfl, rfl, rfl, rfl, rfl⟩, rfl, rfl, rfl, rfl, rfl, rfl⟩

theorem Shape.congr (hs : Shape p w) (h : SameShape w.inputBatch w'.inputBatch)
    (hknown : ∀ i id, w.inputBatch.idAt i = some id → id ∈ w'.requests)
    (hrequests : ∀ id req, w'.requests.lookup id = some req → req.reqId = id ∧ w.Fits req) :
    Shape p w' := by
  refine ⟨h.wellFormed hs.wellFormed, fun i id hid => ?_, fun id req hreq => ?_, fun hp => ?_,
    fun hp => ?_, fun hp i hi => ?_⟩
  · exact hknown i id ((h.idAt i).symm.trans hid)
  · obtain ⟨hid, hfits⟩ := hrequests id req hreq
    unfold ModelRunner.Fits at hfits ⊢
    rw [← h.config.isPoolingModel, ← h.config.length_blockTable] at hfits
    exact ⟨hid, hfits⟩
  · obtain ⟨hholes, hsorted, hmoved⟩ := hs.holes hp
    rw [h.builder]
    refine ⟨⟨hholes.nodup, fun i => ?_⟩, hsorted, hmoved⟩
    rw [h.reqIds, h.idAt]
    exact hholes.mem_iff i
  · rw [h.builder]
    exact hs.added hp
  · rw [h.reqIds] at hi
    rw [h.idAt]
    exact hs.dense hp i hi

theorem Shape.setItem (hs : Shape p w) (req : CachedRequestState) (h : SameShape w.inputBatch b')
    (hfits : w.Fits req) :
    Shape p { w with requests := w.requests.setItem req.reqId req, inputBatch := b' } := by
  refine hs.congr h (fun i id hid => ?_) fun id req' hreq' => ?_
  · replace hid := hs.known i id hid
    rw [← lookup_isSome] at hid ⊢
    rw [lookup_setItem]
    split_ifs
    · rfl
    · exact hid
  · rw [lookup_setItem] at hreq'
    split_ifs at hreq' with hid
    · cases hreq'
      exact ⟨hid.symm, hfits⟩
    · exact hs.requests id req' hreq'

theorem Shape.removes (hs : Shape .updating w)
    (h : Removes w.inputBatch b' id i) (hid : w.inputBatch.idAt i = some id)
    (hknown : ∀ id' ∈ w.requests, id' ≠ id → id' ∈ requests)
    (hsub : ∀ id' req, requests.lookup id' = some req → w.requests.lookup id' = some req) :
    Shape .updating { w with requests := requests, inputBatch := b' } := by
  obtain ⟨hholes, -, hmoved⟩ := hs.holes nofun
  have hbuilder := h.builder
  refine ⟨h.wellFormed, fun k id' hk => ?_, fun id' req hreq => ?_,
    fun _ => ⟨⟨?_, fun k => ?_⟩, fun hsorted => ?_, ?_⟩, fun _ => ?_, nofun⟩
  · have hk' : b'.idAt k = some id' := hk
    rw [h.idAt] at hk'
    split_ifs at hk' with hki
    refine hknown id' (hs.known k id' hk') fun heq => hki ?_
    subst heq
    exact hs.wellFormed.row_unique hk' hid
  · exact hs.fits h.config (hsub id' req hreq)
  · show b'.batchUpdateBuilder.removed.Nodup
    rw [hbuilder]
    refine nodup_cons.2 ⟨fun hi => ?_, hholes.nodup⟩
    rw [((hholes.mem_iff i).1 hi).2] at hid
    cases hid
  · show k ∈ b'.batchUpdateBuilder.removed ↔ k < b'.reqIds.length ∧ b'.idAt k = none
    have hi : i < w.inputBatch.reqIds.length := (List.getElem?_eq_some_iff.1 (idAt_eq_some.1 hid)).1
    rw [hbuilder, h.length_reqIds, h.idAt]
    rw [mem_cons, hholes.mem_iff]
    split_ifs with hki
    · exact ⟨fun _ => ⟨hki ▸ hi, rfl⟩, fun _ => .inl hki⟩
    · exact ⟨fun h => h.resolve_left hki, .inr⟩
  · have hsorted' : b'.batchUpdateBuilder.isRemovedSorted = true := hsorted
    rw [hbuilder] at hsorted'
    rw [h.isRemovedSorted] at hsorted'
    cases hsorted'
  · show b'.batchUpdateBuilder.moved = []
    rw [hbuilder]
    exact hmoved
  · show b'.batchUpdateBuilder.added = []
    rw [hbuilder]
    exact hs.added rfl

theorem Shape.adds (hs : Shape p w) (hp : p ≠ .condensed) (h : Adds w.inputBatch b' req i)
    (hreq : req.reqId ∈ w.requests) : Shape .adding { w with inputBatch := b' } := by
  obtain ⟨hholes, hsorted, hmoved⟩ := hs.holes hp
  have hmem := hs.mem_removed hp h
  have hremoved := h.removed
  refine ⟨h.wellFormed, fun k id hk => ?_, fun id req' hreq' => ?_,
    fun _ => ⟨⟨?_, fun k => ?_⟩, fun hsorted' => ?_, ?_⟩, nofun, nofun⟩
  · have hk' : b'.idAt k = some id := hk
    rw [h.idAt] at hk'
    split_ifs at hk' with hki
    · cases hk'
      exact hreq
    · exact hs.known k id hk'
  · exact hs.fits h.config hreq'
  · show b'.batchUpdateBuilder.removed.Nodup
    rw [hremoved]
    unfold BatchUpdateBuilder.popRemoved
    split_ifs
    · exact hholes.nodup
    · exact ((sorted_ensureRemovedSorted hholes.nodup hsorted).imp ne_of_lt).sublist
        (tail_sublist _)
  · show k ∈ b'.batchUpdateBuilder.removed ↔ k < b'.reqIds.length ∧ b'.idAt k = none
    rw [hmem, hholes.mem_iff, h.length_reqIds, h.idAt]
    by_cases hki : k = i
    · simp [hki]
    · rw [if_neg hki]
      split_ifs with hlen
      · constructor
        · rintro ⟨⟨hk, hnone⟩, -⟩
          exact ⟨by omega, hnone⟩
        · rintro ⟨hk, hnone⟩
          exact ⟨⟨by omega, hnone⟩, hki⟩
      · exact ⟨fun h => h.1, fun h => ⟨h, hki⟩⟩
  · have hsorted'' : b'.batchUpdateBuilder.isRemovedSorted = true := hsorted'
    rw [h.isRemovedSorted] at hsorted''
    rw [hremoved]
    unfold BatchUpdateBuilder.popRemoved at hsorted'' ⊢
    split_ifs with hnil
    · rw [if_pos hnil] at hsorted''
      exact hsorted hsorted''
    · exact (sorted_ensureRemovedSorted hholes.nodup hsorted).sublist (tail_sublist _)
  · show b'.batchUpdateBuilder.moved = []
    rw [h.moved]
    exact hmoved

theorem Shape.condense (hs : Shape p w) (hp : p ≠ .condensed)
    (h : w.inputBatch.condense = .ok b') : Shape .condensed { w with inputBatch := b' } := by
  obtain ⟨hholes, hsorted, -⟩ := hs.holes hp
  obtain ⟨⟨hconfig, hknown⟩, hwf, hdense⟩ := condense_eq
    (fun c => SameConfig w.inputBatch c ∧ ∀ i id, c.idAt i = some id → id ∈ w.requests)
    (fun _ _ => True) ⟨fun _ _ _ _ _ _ => trivial,
      fun {c c' l e removed} _ _ _ _ _ hm _ ⟨hconfig, hknown⟩ =>
        ⟨hconfig.trans hm.config.of_withRemoved,
          fun i id hi => by
            have hidAt : c'.idAt i = if i = e then c.idAt l else if i = l then none else c.idAt i :=
              hm.idAt i
            rw [hidAt] at hi
            split_ifs at hi
            · exact hknown l id hi
            · exact hknown i id hi⟩⟩
    (fun {c c'} hsame ⟨hconfig, hknown⟩ => ⟨hconfig.trans hsame.config,
      fun i id hi => hknown i id ((hsame.idAt i).symm.trans hi)⟩)
    hs.wellFormed hholes hsorted (fun _ _ => trivial) ⟨⟨rfl, rfl, rfl, rfl, rfl⟩, hs.known⟩ h
  exact ⟨hwf, hknown, fun _ _ hreq => hs.fits hconfig hreq, fun hne => absurd rfl hne, nofun,
    fun _ => hdense⟩

section

variable (hs : Shape .condensed w)
include hs

theorem Shape.swaps {i1 i2 : ℕ}
    (h : w.inputBatch.swapStates i1 i2 = .ok b') : Shape .condensed { w with inputBatch := b' } := by
  obtain ⟨hswaps, hi1, hi2⟩ := swapStates_eq hs.wellFormed h
  refine ⟨hswaps.wellFormed, fun i id hid => ?_, fun _ _ hreq => hs.fits hswaps.config hreq,
    fun hne => absurd rfl hne, nofun, fun _ i hi => ?_⟩
  · exact hs.known _ id ((hswaps.idAt i).symm.trans hid)
  · show (b'.idAt i).isSome
    rw [hswaps.idAt]
    by_cases hk1 : i = i1
    · rwa [hk1, swap_apply_left]
    · by_cases hk2 : i = i2
      · rwa [hk2, swap_apply_right]
      · rw [swap_apply_of_ne_of_ne hk1 hk2]
        exact hs.dense rfl i (hswaps.length_reqIds ▸ hi)

theorem Shape.refreshes (h : Refreshes outputs w.inputBatch b') :
    Shape .updating { w with inputBatch := b' } := by
  obtain ⟨hremoved, hmoved, hadded, hsorted⟩ := h.builder_nil
  refine ⟨h.wellFormed, fun i id hid => hs.known i id ((h.idAt i).symm.trans hid),
    fun _ _ hreq => hs.fits h.config hreq, fun _ => ⟨⟨?_, fun k => ?_⟩, fun hsorted' => ?_, hmoved⟩,
    fun _ => hadded, nofun⟩
  · show b'.batchUpdateBuilder.removed.Nodup
    rw [hremoved]
    exact nodup_nil
  · show k ∈ b'.batchUpdateBuilder.removed ↔ k < b'.reqIds.length ∧ b'.idAt k = none
    rw [hremoved, h.length_reqIds, h.idAt]
    refine ⟨nofun, fun ⟨hk, hnone⟩ => ?_⟩
    have hsome := hs.dense rfl k hk
    rw [hnone] at hsome
    cases hsome
  · have hsorted'' : b'.batchUpdateBuilder.isRemovedSorted = true := hsorted'
    rw [hsorted] at hsorted''
    cases hsorted''

/-- Every row of the batch that a step works with has a request. -/
theorem Shape.numReqs_of_refreshes (h : Refreshes outputs w.inputBatch b') :
    b'.numReqs = b'.reqIds.length := by
  refine numReqs_eq_of_dense h.wellFormed (fun i => ?_) (le_refl _)
  rw [h.idAt]
  refine ⟨fun hi => ?_, fun hi => hs.dense rfl i (h.length_reqIds ▸ hi)⟩
  obtain ⟨id, hid⟩ := isSome_iff_exists.1 hi
  rw [h.length_reqIds]
  exact (List.getElem?_eq_some_iff.1 (idAt_eq_some.1 hid)).1

end

/-! ### The calls -/

/-- What a call does to the requests and to the batch. -/
inductive Effect (w : ModelRunner) : RunnerCall → ModelRunner → Prop
  | finishAbsent {id : ℕ} (hrow : w.inputBatch.reqIdToIndex.lookup id = none) :
      Effect w (.finish id) { w with requests := w.requests.erase id }
  | finish {id i : ℕ} {b' : InputBatch} (hid : w.inputBatch.idAt i = some id)
      (h : Removes w.inputBatch b' id i) :
      Effect w (.finish id) { w with requests := w.requests.erase id, inputBatch := b' }
  | unscheduleAbsent {id : ℕ} : Effect w (.unschedule id) w
  | unschedule {id i : ℕ} {b' : InputBatch} (hid : w.inputBatch.idAt i = some id)
      (h : Removes w.inputBatch b' id i) :
      Effect w (.unschedule id) { w with inputBatch := b' }
  | cache {req : CachedRequestState} (hrow : w.inputBatch.reqIdToIndex.lookup req.reqId = none)
      (hfits : w.Fits req) :
      Effect w (.cache req) { w with requests := w.requests.setItem req.reqId req }
  | updateAbsent {id n : ℕ} {new : Option (List (List ℕ))} {specs : List ℤ}
      {req : CachedRequestState} (hreq : w.requests.lookup id = some req)
      (hrow : w.inputBatch.reqIdToIndex.lookup id = none)
      (hnew : ∀ ids ∈ new, ids.length = w.inputBatch.blockTable.length) :
      Effect w (.update id n new specs)
        { w with requests := w.requests.setItem id (req.advance n new) }
  | update {id n i : ℕ} {new : Option (List (List ℕ))} {specs : List ℤ}
      {req : CachedRequestState} {b' : InputBatch} (hreq : w.requests.lookup id = some req)
      (hid : w.inputBatch.idAt i = some id)
      (hnew : ∀ ids ∈ new, ids.length = w.inputBatch.blockTable.length)
      (h : (w.inputBatch.advance i n new).updateReqSpecTokenIds id specs = .ok b') :
      Effect w (.update id n new specs)
        { w with requests := w.requests.setItem id (req.advance n new), inputBatch := b' }
  | sampleNothing {i : ℕ} {ids : List ℤ} : Effect w (.sample i ids) w
  | sample {i id : ℕ} {ids : List ℤ} {req : CachedRequestState}
      (hid : w.inputBatch.idAt i = some id) (hreq : w.requests.lookup id = some req) :
      Effect w (.sample i ids) { w with
        requests := w.requests.setItem id (req.extend ids)
        inputBatch := w.inputBatch.extend i ids }
  | add {id i : ℕ} {specs : List ℤ} {req : CachedRequestState} {b₁ b' : InputBatch}
      (hreq : w.requests.lookup id = some req)
      (hrow : w.inputBatch.reqIdToIndex.lookup id = none) (h : Adds w.inputBatch b₁ req i)
      (hspecs : b₁.updateReqSpecTokenIds id specs = .ok b') :
      Effect w (.add id specs) { w with inputBatch := b' }
  | condense {b' : InputBatch} (h : w.inputBatch.condense = .ok b') :
      Effect w .condense { w with inputBatch := b' }
  | swap {i1 i2 : ℕ} {b' : InputBatch} (h : w.inputBatch.swapStates i1 i2 = .ok b') :
      Effect w (.swap i1 i2) { w with inputBatch := b' }
  | refresh {b' : InputBatch} (h : w.inputBatch.refreshMetadata w.outputTokenIds = .ok b') :
      Effect w .refresh { w with inputBatch := b' }

theorem step_effect {p' : Phase} {call : RunnerCall} (hs : Shape p w) (hp : call.next p = some p')
    (hcall : w.Admissible call) (h : w.step call = .ok w') : Effect w call w' := by
  have hwf := hs.wellFormed
  cases call with
  | finish id =>
    obtain ⟨b', hremove, h⟩ := bind_ok.1 h
    cases h
    rcases removeRequest_eq hwf hremove with ⟨hnone, rfl⟩ | ⟨i, hid, hremoves⟩
    · exact .finishAbsent hnone
    · exact .finish hid hremoves
  | unschedule id =>
    obtain ⟨b', hremove, h⟩ := bind_ok.1 h
    cases h
    rcases removeRequest_eq hwf hremove with ⟨-, rfl⟩ | ⟨i, hid, hremoves⟩
    · exact .unscheduleAbsent
    · exact .unschedule hid hremoves
  | cache req =>
    cases h
    exact .cache (lookup_eq_none.2 hcall.1) hcall.2
  | update id n new specs =>
    obtain ⟨req, hreq, hrequests, hlen, hbatch⟩ := updateRequest_eq h
    obtain ⟨maxModelLen, requests, batch⟩ := w'
    subst hrequests hlen
    rcases hbatch with ⟨hnone, rfl⟩ | ⟨i, hi, hspecs⟩
    · exact .updateAbsent hreq hnone hcall
    · exact .update hreq ((hwf.inverse id i).1 hi) hcall hspecs
  | sample i ids =>
    rcases sampleTokens_eq h with rfl | ⟨id, req, hid, hreq, rfl⟩
    · exact .sampleNothing
    · exact .sample hid hreq
  | add id specs =>
    have hp' : p ≠ .condensed := fun heq => by
      rw [heq] at hp
      cases hp
    change w.addRequest id specs = _ at h
    unfold ModelRunner.addRequest at h
    split at h
    · cases h
    · next req hreq =>
      obtain ⟨b₁, hadd, h⟩ := bind_ok.1 h
      obtain ⟨b', hspecs, h⟩ := bind_ok.1 h
      cases h
      obtain ⟨hid, hsampling, hpooling, -⟩ := hs.requests id req hreq
      have hnone : w.inputBatch.reqIdToIndex.lookup id = none := lookup_eq_none.2 hcall
      obtain ⟨i, hadds⟩ := addRequest_eq hwf hsampling hpooling (by rwa [hid])
        (hs.idAt_popRemoved hp') hadd
      exact .add hreq hnone hadds hspecs
  | condense =>
    obtain ⟨b', hcondense, h⟩ := bind_ok.1 h
    cases h
    exact .condense hcondense
  | swap i1 i2 =>
    obtain ⟨b', hswap, h⟩ := bind_ok.1 h
    cases h
    exact .swap hswap
  | refresh =>
    obtain ⟨b', hrefresh, h⟩ := bind_ok.1 h
    cases h
    exact .refresh hrefresh

theorem length_extendBlockIds {ids new : List (List ℕ)} {n : ℕ} (h : ids.length = n)
    (h' : new.length = n) : (extendBlockIds ids new).length = n := by
  simp [extendBlockIds, h, h']

theorem fits_advance {n : ℕ} (hfits : w.Fits req)
    (hnew : ∀ ids ∈ new, ids.length = w.inputBatch.blockTable.length) :
    w.Fits (req.advance n new) := by
  obtain ⟨hsampling, hpooling, hlen⟩ := hfits
  refine ⟨hsampling, hpooling, ?_⟩
  cases new with
  | none => exact hlen
  | some ids => exact length_extendBlockIds hlen (hnew ids rfl)

theorem Shape.step {p' : Phase} {call : RunnerCall} (hs : Shape p w) (hp : call.next p = some p')
    (h : Effect w call w') : Shape p' w' := by
  have hself := SameShape.refl w.inputBatch
  cases h with
  | @finishAbsent id hrow =>
    cases p <;> cases hp
    refine hs.congr hself (fun i id' hid' => ?_) fun id' req hreq => ?_
    · have hne : id' ≠ id := fun heq => by
        rw [← hs.wellFormed.inverse, heq, hrow] at hid'
        cases hid'
      have hmem := hs.known i id' hid'
      rw [← lookup_isSome] at hmem ⊢
      rwa [lookup_erase', if_neg hne]
    · rw [lookup_erase'] at hreq
      split_ifs at hreq
      exact hs.requests id' req hreq
  | @finish id i b' hid h =>
    cases p <;> cases hp
    refine hs.removes h hid (fun id' hid' hne => ?_) fun id' req hreq => ?_
    · rw [← lookup_isSome] at hid' ⊢
      rwa [lookup_erase', if_neg hne]
    · rw [lookup_erase'] at hreq
      split_ifs at hreq
      exact hreq
  | unscheduleAbsent =>
    cases p <;> cases hp
    exact hs
  | unschedule hid h =>
    cases p <;> cases hp
    exact hs.removes h hid (fun _ h _ => h) fun _ _ h => h
  | cache hrow hfits =>
    cases p <;> cases hp
    exact hs.setItem _ hself hfits
  | @updateAbsent id n new specs req hreq hrow hnew =>
    cases p <;> cases hp
    obtain ⟨rfl, hfits⟩ := hs.requests id req hreq
    exact hs.setItem (req.advance n new) hself (fits_advance hfits hnew)
  | @update id n i new specs req b' hreq hid hnew h =>
    cases p <;> cases hp
    obtain ⟨rfl, hfits⟩ := hs.requests id req hreq
    exact hs.setItem (req.advance n new)
      ((sameShape_advance i n new).trans (sameShape_updateReqSpecTokenIds h))
      (fits_advance hfits hnew)
  | sampleNothing =>
    cases p <;> cases hp
    exact hs
  | @sample i id ids req hid hreq =>
    cases p <;> cases hp
    obtain ⟨rfl, hfits⟩ := hs.requests id req hreq
    exact hs.setItem (req.extend ids) (sameShape_extend i ids) hfits
  | @add id i specs req b₁ b' hreq hrow h hspecs =>
    obtain ⟨rfl, hne⟩ : p' = .adding ∧ p ≠ .condensed := by
      cases p <;> cases hp <;> exact ⟨rfl, nofun⟩
    obtain ⟨hid, -⟩ := hs.requests id req hreq
    have hmem : req.reqId ∈ w.requests := by
      rw [hid, ← lookup_isSome, hreq]
      rfl
    have hadds := hs.adds hne h hmem
    exact hadds.congr (sameShape_updateReqSpecTokenIds hspecs) hadds.known hadds.requests
  | condense h =>
    obtain ⟨rfl, hne⟩ : p' = .condensed ∧ p ≠ .condensed := by
      cases p <;> cases hp <;> exact ⟨rfl, nofun⟩
    exact hs.condense hne h
  | swap h =>
    cases p <;> cases hp
    exact hs.swaps h
  | refresh h =>
    cases p <;> cases hp
    exact hs.refreshes (refreshMetadata_eq hs.wellFormed h)

theorem shape_new {maxModelLen maxNumReqs vocabSize : ℕ} {isPoolingModel : Bool}
    {blockTable : MultiGroupBlockTable} :
    Shape .updating (.new maxModelLen maxNumReqs vocabSize isPoolingModel blockTable) := by
  have hidAt : ∀ i id, InputBatch.idAt (.new maxNumReqs vocabSize isPoolingModel blockTable) i ≠
      some id := fun i id h => by
    cases h
  have hempty : ∀ {β : Type} (id : ℕ) (v : β), lookup id (∅ : OrderedDict ℕ β) ≠ some v :=
    fun id v h => by
      cases h
  refine ⟨⟨fun id i => ⟨fun h => absurd h (hempty id i), fun h => absurd h (hidAt i id)⟩, rfl,
    fun _ _ _ => ⟨rfl, rfl⟩⟩, fun i id h => absurd h (hidAt i id),
    fun id req h => absurd h (hempty id req), fun _ => ⟨⟨nodup_nil, fun i => ?_⟩, nofun, rfl⟩,
    fun _ => rfl, nofun⟩
  exact ⟨nofun, fun h => absurd h.1 (Nat.not_lt_zero i)⟩

theorem Run.shape {meets : ModelRunner → RunnerCall → Prop} (h : Run meets p w) : Shape p w := by
  induction h with
  | new => exact shape_new
  | step call _ hp hcall _ hw ih => exact ih.step hp (step_effect ih hp hcall hw)

end LoptVllm.Worker
