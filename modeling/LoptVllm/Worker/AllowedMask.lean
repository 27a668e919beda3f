import LoptVllm.Worker.RowInvariant

/-!
# The mask of allowed token ids
-/

namespace LoptVllm.Worker

open List Option Function Finset Equiv CachedRequestState

open InputBatch

variable {b b' : InputBatch} {w w' : ModelRunner} {req : CachedRequestState}

/-- The allowed token ids of a request; without any, all are allowed. -/
def CachedRequestState.allowedTokenIds (req : CachedRequestState) : List ℕ :=
  (req.samplingParams.bind SamplingParams.allowedTokenIds).getD []

/-- The row of the mask for a request: the token ids that are not allowed. -/
def CachedRequestState.forbids (req : CachedRequestState) (t : ℕ) : Bool :=
  decide (req.allowedTokenIds ≠ [] ∧ t ∉ req.allowedTokenIds)

/-! ### The rows of the mask -/

/-- A row of the mask is that of a request. -/
structure MaskMatches (b : InputBatch) (i : ℕ) (req : CachedRequestState) : Prop where
  row : ∀ mask ∈ b.allowedTokenIdsMaskCpuTensor, ∀ t < b.vocabSize, mask i t = req.forbids t
  allocated : req.allowedTokenIds ≠ [] → b.allowedTokenIdsMaskCpuTensor ≠ none
  has : req.allowedTokenIds ≠ [] → req.reqId ∈ b.hasAllowedTokenIds

theorem forbids_of_eq_nil (h : req.allowedTokenIds = []) (t : ℕ) : req.forbids t = false := by
  simp [forbids, h]

/-- What is needed of a call, so that the rows of the mask stay those of the requests: the row that
was moved by `condense` is still in the mask, and `swap_states` does not exchange two rows. -/
def KeepsMask (w : ModelRunner) : RunnerCall → Prop
  | .add id _ => ∀ req ∈ w.requests.lookup id, req.allowedTokenIds ≠ [] ∨
    (∀ mask ∈ w.inputBatch.allowedTokenIdsMaskCpuTensor, ∀ t < w.inputBatch.vocabSize,
      mask (w.inputBatch.batchUpdateBuilder.popRemoved.1.getD w.inputBatch.numReqs) t = false)
  | .swap i1 i2 => ∀ mask ∈ w.inputBatch.allowedTokenIdsMaskCpuTensor,
    ∀ t < w.inputBatch.vocabSize, mask i1 t = mask i2 t
  | _ => True

instance (w : ModelRunner) : DecidablePred (KeepsMask w)
  | .add id _ => inferInstanceAs (Decidable (∀ req ∈ w.requests.lookup id,
      req.allowedTokenIds ≠ [] ∨ (∀ mask ∈ w.inputBatch.allowedTokenIdsMaskCpuTensor,
        ∀ t < w.inputBatch.vocabSize,
          mask (w.inputBatch.batchUpdateBuilder.popRemoved.1.getD w.inputBatch.numReqs) t = false)))
  | .swap i1 i2 => inferInstanceAs (Decidable (∀ mask ∈ w.inputBatch.allowedTokenIdsMaskCpuTensor,
      ∀ t < w.inputBatch.vocabSize, mask i1 t = mask i2 t))
  | .finish _ | .unschedule _ | .cache _ | .update _ _ _ _ | .sample _ _ | .condense | .refresh =>
    inferInstanceAs (Decidable True)

/-- The rows of a pooling model have no mask. -/
def MaskProperty : RowProperty := fun _ b i req =>
  b.isPoolingModel = false → MaskMatches b i req

theorem MaskMatches.congr {k : ℕ} (h : MaskMatches b k req) (hconfig : SameConfig b b')
    (hmask : b'.allowedTokenIdsMaskCpuTensor = b.allowedTokenIdsMaskCpuTensor)
    (hhas : b'.hasAllowedTokenIds = b.hasAllowedTokenIds) : MaskMatches b' k req := by
  refine ⟨?_, ?_, ?_⟩
  · rw [hmask, hconfig.vocabSize]
    exact h.row
  · rw [hmask]
    exact h.allocated
  · rw [hhas]
    exact h.has

theorem MaskMatches.removes {id i k : ℕ} (h : Removes b b' id i) (hp : b.isPoolingModel = false)
    (hk : k ≠ i) (hid : req.reqId ≠ id) (hmatch : MaskMatches b k req) : MaskMatches b' k req := by
  have hmask := h.mask
  have hhas := h.hasAllowed
  rw [if_neg (by simp [hp])] at hmask hhas
  refine ⟨fun mask' hmask' t ht => ?_, fun hne => ?_, fun hne => ?_⟩
  · rw [hmask] at hmask'
    obtain ⟨mask, hmem, rfl⟩ := map_eq_some_iff.1 hmask'
    rw [update_of_ne hk]
    exact hmatch.row mask hmem t (h.config.vocabSize ▸ ht)
  · rw [hmask]
    simpa using hmatch.allocated hne
  · rw [hhas]
    exact mem_erase.2 ⟨hid, hmatch.has hne⟩

theorem MaskMatches.adds_of_ne {added : CachedRequestState} {i k : ℕ} (h : Adds b b' added i)
    (hk : k ≠ i) (hmatch : MaskMatches b k req) : MaskMatches b' k req := by
  rcases h.mask with ⟨-, hmask, hhas⟩ | ⟨ids, -, -, hmask, hhas⟩
  · exact hmatch.congr h.config hmask hhas
  · refine ⟨fun mask' hmask' t ht => ?_, fun _ => ?_, fun hne => ?_⟩
    · rw [hmask] at hmask'
      cases hmask'
      rw [update_of_ne hk]
      cases hold : b.allowedTokenIdsMaskCpuTensor with
      | none =>
        -- the mask is allocated, and the others have no allowed token ids
        refine (forbids_of_eq_nil ?_ t).symm
        by_contra hne
        exact hmatch.allocated hne hold
      | some mask => exact hmatch.row mask hold t (h.config.vocabSize ▸ ht)
    · rw [hmask]
      exact some_ne_none _
    · rw [hhas]
      exact mem_insert_of_mem (hmatch.has hne)

theorem MaskMatches.adds_self {i : ℕ} (h : Adds b b' req i) (hclean : req.allowedTokenIds ≠ [] ∨
      (∀ mask ∈ b.allowedTokenIdsMaskCpuTensor, ∀ t < b.vocabSize, mask i t = false)) :
    MaskMatches b' i req := by
  rcases h.mask with ⟨hnil, hmask, -⟩ | ⟨ids, hids, hne, hmask, hhas⟩
  · refine ⟨fun mask hmask' t ht => ?_, fun hne => absurd hnil hne, fun hne => absurd hnil hne⟩
    rw [hmask] at hmask'
    rw [forbids_of_eq_nil hnil]
    exact (hclean.resolve_left fun hne => hne hnil) mask hmask' t (h.config.vocabSize ▸ ht)
  · have hallowed : req.allowedTokenIds = ids := by
      unfold allowedTokenIds
      rw [hids]
      rfl
    refine ⟨fun mask hmask' t _ => ?_, fun _ => ?_, fun _ => ?_⟩
    · rw [hmask] at hmask'
      cases hmask'
      simp [forbids, hallowed, hne]
    · rw [hmask]
      exact some_ne_none _
    · rw [hhas]
      exact mem_insert_self _ _

theorem MaskMatches.moves {l e k : ℕ} {removed : List ℕ} (h : Moves (b.withRemoved removed) b' l e)
    (hp : b.isPoolingModel = false) (hmatch : MaskMatches b (if k = e then l else k) req) :
    MaskMatches b' k req := by
  have hmask : b'.allowedTokenIdsMaskCpuTensor =
      b.allowedTokenIdsMaskCpuTensor.map fun mask => copyRow mask l e :=
    h.mask.trans (if_neg (by simpa [withRemoved] using hp))
  have hhas : b'.hasAllowedTokenIds = b.hasAllowedTokenIds := h.hasAllowed
  have hvocab : b'.vocabSize = b.vocabSize := h.config.vocabSize
  refine ⟨fun mask' hmask' t ht => ?_, fun hne => ?_, ?_⟩
  · rw [hmask] at hmask'
    obtain ⟨mask, hmem, rfl⟩ := map_eq_some_iff.1 hmask'
    rw [copyRow_apply]
    exact hmatch.row mask hmem t (hvocab ▸ ht)
  · rw [hmask]
    simpa using hmatch.allocated hne
  · rw [hhas]
    exact hmatch.has

/-- Both rows become the second one, which is what they were. -/
theorem MaskMatches.swaps {i1 i2 k : ℕ} (h : Swaps b b' i1 i2) (hp : b.isPoolingModel = false)
    (hsame : ∀ mask ∈ b.allowedTokenIdsMaskCpuTensor, ∀ t < b.vocabSize, mask i1 t = mask i2 t)
    (hmatch : MaskMatches b (Equiv.swap i1 i2 k) req) : MaskMatches b' k req := by
  have hmask := h.mask
  rw [if_neg (by simp [hp])] at hmask
  refine ⟨fun mask' hmask' t ht => ?_, fun hne => ?_, ?_⟩
  · rw [hmask] at hmask'
    obtain ⟨mask, hmem, rfl⟩ := map_eq_some_iff.1 hmask'
    have ht' : t < b.vocabSize := h.config.vocabSize ▸ ht
    rw [← hmatch.row mask hmem t ht', copyRow_apply, copyRow_apply]
    have heq := hsame mask hmem t ht'
    by_cases hk1 : k = i1
    · subst hk1
      rw [swap_apply_left]
      split_ifs <;> first | rfl | contradiction
    · by_cases hk2 : k = i2
      · subst hk2
        rw [swap_apply_right, if_pos rfl, if_pos rfl, heq]
      · rw [swap_apply_of_ne_of_ne hk1 hk2, if_neg hk2, if_neg hk1]
  · rw [hmask]
    simpa using hmatch.allocated hne
  · rw [h.hasAllowed]
    exact hmatch.has

theorem rowInvariant_mask : RowInvariant KeepsMask (fun _ _ => True) MaskProperty where
  outputs := fun _ hmatch => hmatch
  sameRows := fun h _ hmatch hp =>
    (hmatch (h.config.isPoolingModel.symm.trans hp)).congr h.config h.mask h.hasAllowed
  removes := fun h _ hk hid hmatch hp => by
    have hp' := h.config.isPoolingModel.symm.trans hp
    exact (hmatch hp').removes h hp' hk hid
  adds_self := fun h _ _ hreq _ _ hkeeps _ => by
    have hclean := hkeeps _ hreq
    rw [h.index] at hclean
    exact MaskMatches.adds_self h hclean
  adds_of_ne := fun h _ _ _ hk _ hmatch hp =>
    (hmatch (h.config.isPoolingModel.symm.trans hp)).adds_of_ne h hk
  ok_frame := fun _ _ _ _ _ _ => trivial
  ok_of_meets := fun _ _ _ => trivial
  moves := fun h _ _ _ _ _ hmatch hp => by
    have hp' := h.config.isPoolingModel.symm.trans hp
    exact (hmatch hp').moves h hp'
  swaps := fun h hkeeps hmatch hp => by
    have hp' := h.config.isPoolingModel.symm.trans hp
    exact (hmatch hp').swaps h hp' hkeeps
  advance_self := fun _ _ hmatch hp => by
    obtain ⟨hrow, hallocated, hhas⟩ := hmatch hp
    exact ⟨hrow, hallocated, hhas⟩
  advance_of_ne := fun _ hmatch hp =>
    (hmatch hp).congr (sameShape_advance _ _ _).config rfl rfl
  extend_self := fun hmatch hp => by
    obtain ⟨hrow, hallocated, hhas⟩ := hmatch hp
    exact ⟨hrow, hallocated, hhas⟩
  extend_of_ne := fun _ hmatch hp => (hmatch hp).congr (sameShape_extend _ _).config rfl rfl
  refreshes := fun h _ _ _ hmatch hp =>
    (hmatch (h.config.isPoolingModel.symm.trans hp)).congr h.config h.mask h.hasAllowed

/-! ### The mask of the sampling metadata -/

/-- The mask of the sampling metadata is that of the batch, if nothing is recorded; a pooling model
has none. -/
structure MaskFresh (b : InputBatch) : Prop where
  pooling : b.isPoolingModel = true → b.hasAllowedTokenIds = ∅ ∧ b.allowedTokenIdsMask = none
  sampling : b.isPoolingModel = false → b.batchUpdateBuilder.removed = [] →
    b.batchUpdateBuilder.moved = [] → b.batchUpdateBuilder.added = [] →
    b.allowedTokenIdsMask = b.currentMask

section

variable (h : MaskFresh b)
include h

theorem MaskFresh.congr (hconfig : SameConfig b b') (hnum : b'.numReqs = b.numReqs)
    (hmask : b'.allowedTokenIdsMaskCpuTensor = b.allowedTokenIdsMaskCpuTensor)
    (hhas : b'.hasAllowedTokenIds = b.hasAllowedTokenIds)
    (hmetadata : b'.allowedTokenIdsMask = b.allowedTokenIdsMask)
    (hremoved : b'.batchUpdateBuilder.removed = [] → b.batchUpdateBuilder.removed = [])
    (hmoved : b'.batchUpdateBuilder.moved = [] → b.batchUpdateBuilder.moved = [])
    (hadded : b'.batchUpdateBuilder.added = [] → b.batchUpdateBuilder.added = []) :
    MaskFresh b' := by
  refine ⟨fun hp => ?_, fun hp h₁ h₂ h₃ => ?_⟩
  · rw [hhas, hmetadata]
    exact h.pooling (hconfig.isPoolingModel.symm.trans hp)
  · unfold currentMask
    rw [hmetadata, hhas, hmask, hnum]
    exact h.sampling (hconfig.isPoolingModel.symm.trans hp) (hremoved h₁) (hmoved h₂) (hadded h₃)

/-- Where something is recorded nothing is said of a generating model. -/
theorem MaskFresh.of_recorded (hconfig : SameConfig b b')
    (hhas : b.isPoolingModel = true → b'.hasAllowedTokenIds = b.hasAllowedTokenIds)
    (hmetadata : b'.allowedTokenIdsMask = b.allowedTokenIdsMask)
    (hrecorded : b.isPoolingModel = false → b'.batchUpdateBuilder.removed ≠ [] ∨
      b'.batchUpdateBuilder.moved ≠ [] ∨ b'.batchUpdateBuilder.added ≠ []) : MaskFresh b' := by
  refine ⟨fun hp => ?_, fun hp h₁ h₂ h₃ => ?_⟩
  · have hp' := hconfig.isPoolingModel.symm.trans hp
    rw [hhas hp', hmetadata]
    exact h.pooling hp'
  · rcases hrecorded (hconfig.isPoolingModel.symm.trans hp) with h | h | h <;> contradiction

theorem MaskFresh.sameRows (hsame : SameRows b b') : MaskFresh b' := by
  refine h.congr hsame.config hsame.numReqs hsame.mask hsame.hasAllowed hsame.metadata (fun hnil => ?_)
    (fun hnil => hsame.moved ▸ hnil) fun hnil => hsame.added ▸ hnil
  refine eq_nil_iff_forall_not_mem.2 fun i hi => ?_
  have hmem := (hsame.removed i).2 hi
  rw [hnil] at hmem
  exact absurd hmem not_mem_nil

theorem MaskFresh.refreshes {outputs : ℕ → List ℤ}
    (hrefresh : Refreshes outputs b b') : b'.allowedTokenIdsMask = b'.currentMask := by
  rcases hrefresh.metadata with hcurrent | ⟨hsame, hp | ⟨hremoved, hmoved, hadded⟩⟩
  · exact hcurrent
  · obtain ⟨hhas, hnone⟩ := h.pooling hp
    unfold currentMask
    rw [hsame, hnone, if_pos (hrefresh.hasAllowed.trans hhas)]
  · by_cases hp : b.isPoolingModel = true
    · obtain ⟨hhas, hnone⟩ := h.pooling hp
      unfold currentMask
      rw [hsame, hnone, if_pos (hrefresh.hasAllowed.trans hhas)]
    · have hcurrent := h.sampling (by simpa using hp) hremoved hmoved hadded
      unfold currentMask at hcurrent ⊢
      rw [hsame, hcurrent, hrefresh.hasAllowed, hrefresh.mask, hrefresh.numReqs]

end

theorem MaskFresh.step {p p' : Phase} {call : RunnerCall} (hs : Shape p w)
    (hfresh : MaskFresh w.inputBatch) (hp : call.next p = some p') (h : Effect w call w') :
    MaskFresh w'.inputBatch := by
  -- a removal is recorded, so the metadata are refreshed
  have hremoves : ∀ {b' id i}, Removes w.inputBatch b' id i → MaskFresh b' := fun h => by
    refine hfresh.of_recorded h.config (fun hp => ?_) h.metadata fun _ => .inl ?_
    · rw [h.hasAllowed, if_pos hp]
    · rw [h.builder]
      exact cons_ne_nil _ _
  cases h with
  | finishAbsent hrow => exact hfresh
  | finish hid h => exact hremoves h
  | unscheduleAbsent => exact hfresh
  | unschedule hid h => exact hremoves h
  | cache hrow hfits => exact hfresh
  | updateAbsent hreq hrow hnew => exact hfresh
  | @update id n i new specs req b' hreq hid hnew h =>
    have hshape := sameShape_advance (b := w.inputBatch) i n new
    have hadvance : MaskFresh (w.inputBatch.advance i n new) :=
      hfresh.congr hshape.config rfl rfl rfl rfl (fun h => h) (fun h => h) fun h => h
    exact hadvance.sameRows (sameRows_updateReqSpecTokenIds (hshape.wellFormed hs.wellFormed) h)
  | sampleNothing => exact hfresh
  | @sample i id ids req hid hreq =>
    exact hfresh.congr (sameShape_extend i ids).config rfl rfl rfl rfl (fun h => h) (fun h => h)
      fun h => h
  | @add id i specs req b₁ b' hreq hrow h hspecs =>
    obtain ⟨-, hsampling, -, -⟩ := hs.requests id req hreq
    have hadds : MaskFresh b₁ := by
      refine hfresh.of_recorded h.config (fun hp => ?_) h.metadata fun hp => .inr (.inr ?_)
      · -- a request of a pooling model has no sampling parameters
        rw [hp] at hsampling
        have hnone : req.samplingParams = none := by simpa using hsampling
        rcases h.mask with ⟨-, -, hhas⟩ | ⟨ids, hids, -⟩
        · exact hhas
        · rw [hnone] at hids
          cases hids
      · rw [hp] at hsampling
        obtain ⟨params, hparams⟩ := isSome_iff_exists.1 hsampling
        rw [h.added, hparams]
        simp
    exact hadds.sameRows (sameRows_updateReqSpecTokenIds h.wellFormed hspecs)
  | condense h =>
    have hne : p ≠ .condensed := fun heq => by
      rw [heq] at hp
      cases hp
    obtain ⟨hholes, hsorted, -⟩ := hs.holes hne
    refine (condense_eq MaskFresh (fun _ _ => True) ⟨fun _ _ _ _ _ _ => trivial,
      fun {c c' l e removed} _ _ _ _ _ hm _ hfresh => ?_⟩ (fun hsame hfresh => hfresh.sameRows hsame)
      hs.wellFormed hholes hsorted (fun _ _ => trivial) hfresh h).1
    refine MaskFresh.of_recorded hfresh hm.config.of_withRemoved (fun _ => hm.hasAllowed)
      hm.metadata fun hp => .inr (.inl ?_)
    have hmoved : c'.batchUpdateBuilder.moved = if c.isPoolingModel then c.batchUpdateBuilder.moved
        else c.batchUpdateBuilder.moved ++ [(l, e, .unidirectional)] := hm.moved
    rw [hmoved, if_neg (by simp [hp])]
    simp
  | swap h =>
    obtain ⟨hswaps, -, -⟩ := swapStates_eq hs.wellFormed h
    refine hfresh.of_recorded hswaps.config (fun _ => hswaps.hasAllowed) hswaps.metadata
      fun hp => .inr (.inl ?_)
    rw [hswaps.moved, if_neg (by simp [hp])]
    simp
  | refresh h =>
    have hrefresh := refreshMetadata_eq hs.wellFormed h
    refine ⟨fun hp => ?_, fun _ _ _ _ => hfresh.refreshes hrefresh⟩
    have hhas := (hfresh.pooling (hrefresh.config.isPoolingModel.symm.trans hp)).1
    refine ⟨hrefresh.hasAllowed.trans hhas, (hfresh.refreshes hrefresh).trans ?_⟩
    exact if_pos (hrefresh.hasAllowed.trans hhas)

theorem Run.maskFresh {meets : ModelRunner → RunnerCall → Prop} {p : Phase} (h : Run meets p w) :
    MaskFresh w.inputBatch := by
  induction h with
  | new => exact ⟨fun _ => ⟨rfl, rfl⟩, fun _ _ _ _ => rfl⟩
  | step call hrun hp hcall _ hw ih =>
    exact ih.step hrun.shape hp (step_effect hrun.shape hp hcall hw)

/-- The mask that is passed to the sampler: a token id is forbidden if it is not one of the allowed
ids of the request at the row. Without a mask no request has allowed token ids. -/
structure MaskFaithful (w : ModelRunner) : Prop where
  passed : ∀ rows, w.inputBatch.allowedTokenIdsMask = some rows →
    rows.length = w.inputBatch.numReqs ∧
      ∀ i id : ℕ, w.inputBatch.reqIds[i]? = some (some id) → ∃ (req : CachedRequestState) (row : ℕ → Bool),
        w.requests.lookup id = some req ∧ rows[i]? = some row ∧
          ∀ t < w.inputBatch.vocabSize, row t = req.forbids t
  omitted : w.inputBatch.allowedTokenIdsMask = none →
    ∀ i id : ℕ, w.inputBatch.reqIds[i]? = some (some id) → ∃ req,
      w.requests.lookup id = some req ∧ req.allowedTokenIds = []

theorem MaskFaithful.of_refreshes (hs : Shape .condensed w) (hrows : RowsHold MaskProperty w)
    (hfresh : MaskFresh w.inputBatch) (h : Refreshes w.outputTokenIds w.inputBatch b') :
    MaskFaithful { w with inputBatch := b' } := by
  have hs' := hs.refreshes h
  have hlen := hs.numReqs_of_refreshes h
  have hcurrent := hfresh.refreshes h
  have hrows' : ∀ i id, b'.idAt i = some id → ∃ req, w.requests.lookup id = some req ∧
      MaskProperty w.outputTokenIds b' i req := fun i id hid => by
    obtain ⟨req, hreq, hmatch⟩ := hrows i id ((h.idAt i).symm.trans hid)
    obtain ⟨hreqId, hfits⟩ := hs.requests id req hreq
    exact ⟨req, hreq, rowInvariant_mask.refreshes h hreq hreqId hfits hmatch⟩
  refine ⟨fun rows hmask => ?_, fun hmask i id hid => ?_⟩
  · have hmask' : b'.allowedTokenIdsMask = some rows := hmask
    rw [hcurrent] at hmask'
    unfold currentMask at hmask'
    split_ifs at hmask' with hempty
    obtain ⟨mask, hmem, rfl⟩ := map_eq_some_iff.1 hmask'
    have hp : b'.isPoolingModel = false := by
      by_contra hne
      have hp := h.config.isPoolingModel.symm.trans (by simpa using hne)
      exact hempty (h.hasAllowed.trans (hfresh.pooling hp).1)
    refine ⟨by simp, fun i id hid => ?_⟩
    obtain ⟨req, hreq, hmatch⟩ := hrows' i id (idAt_eq_some.2 hid)
    have hi : i < b'.numReqs := by
      rw [hlen]
      exact (List.getElem?_eq_some_iff.1 hid).1
    refine ⟨req, mask i, hreq, ?_, (hmatch hp).row mask hmem⟩
    rw [getElem?_map, getElem?_range hi]
    rfl
  -- without a mask no request has allowed token ids
  · have hmask' : b'.allowedTokenIdsMask = none := hmask
    obtain ⟨req, hreq, hmatch⟩ := hrows' i id (idAt_eq_some.2 hid)
    refine ⟨req, hreq, ?_⟩
    by_contra hne
    by_cases hp : b'.isPoolingModel = true
    · obtain ⟨-, hsampling, -⟩ := hs'.requests id req hreq
      have hsampling' : req.samplingParams.isSome = !b'.isPoolingModel := hsampling
      rw [hp] at hsampling'
      have hnone : req.samplingParams = none := by simpa using hsampling'
      refine hne ?_
      unfold allowedTokenIds
      rw [hnone]
      rfl
    · obtain ⟨-, hallocated, hhas⟩ := hmatch (by simpa using hp)
      rw [hcurrent] at hmask'
      unfold currentMask at hmask'
      split_ifs at hmask' with hempty
      · have hmem := hhas hne
        rw [hempty] at hmem
        exact absurd hmem (notMem_empty _)
      · exact hallocated hne (map_eq_none_iff.1 hmask')

/-- The mask that is passed to the sampler is that of the requests. -/
theorem Run.maskFaithful (h : Run KeepsMask .condensed w) (hw : w.step .refresh = .ok w') :
    MaskFaithful w' := by
  have hnext : RunnerCall.refresh.next .condensed = some .updating := rfl
  have heffect : Effect w .refresh w' := step_effect h.shape hnext trivial hw
  cases heffect with
  | refresh hrefresh =>
    exact .of_refreshes h.shape (rowInvariant_mask.run h) h.maskFresh
      (refreshMetadata_eq h.shape.wellFormed hrefresh)

/-! ### Small runs -/

/-- A request with one allowed token id. -/
def smallAllowedRequest (reqId : ℕ) : CachedRequestState :=
  { smallRequest reqId with
    samplingParams := some { smallSamplingParams with allowedTokenIds := some [3] } }

/-- A row of a request without allowed token ids forbids a token id. -/
def Leaks (i id t : ℕ) (w : ModelRunner) : Prop :=
  (w.inputBatch.allowedTokenIdsMask.bind fun rows => rows[i]?.map fun row => row t) = some true ∧
    w.inputBatch.reqIds[i]? = some (some id) ∧ t < w.inputBatch.vocabSize ∧
    (w.requests.lookup id).map allowedTokenIds = some []

instance (i id t : ℕ) : DecidablePred (Leaks i id t) := fun _ =>
  inferInstanceAs (Decidable (_ ∧ _ ∧ _ ∧ _))

theorem Leaks.not_maskFaithful {i id t : ℕ} (h : Leaks i id t w) : ¬ MaskFaithful w := by
  obtain ⟨hrow, hid, ht, hreq⟩ := h
  intro hfaithful
  obtain ⟨rows, hrows, hrow⟩ := bind_eq_some_iff.1 hrow
  obtain ⟨row, hrow, hforbids⟩ := map_eq_some_iff.1 hrow
  obtain ⟨req, row', hreq', hrow', heq⟩ := (hfaithful.passed rows hrows).2 i id hid
  cases hrow.symm.trans hrow'
  rw [hreq'] at hreq
  rw [heq t ht, forbids_of_eq_nil (Option.some.inj hreq)] at hforbids
  cases hforbids

/-- A call that exchanges rows. -/
def RunnerCall.isSwap : RunnerCall → Bool
  | .swap _ _ => true
  | _ => false

/-- Two rows are exchanged; or, without that, a request is added to a row that was moved. -/
theorem not_maskFaithful_of_swap_or_stale_row :
    (∃ w w', Run (fun _ _ => True) .condensed w ∧ w.step .refresh = .ok w' ∧ ¬ MaskFaithful w') ∧
    ∃ w w', Run (fun _ call => call.isSwap = false) .condensed w ∧ w.step .refresh = .ok w' ∧
      ¬ MaskFaithful w' := by
  refine ⟨?_, ?_⟩
  · obtain ⟨w, w', hrun, hw, hleaks⟩ := exists_of_refreshed (fun _ _ => True)
      [.cache (smallAllowedRequest 1), .cache (smallRequest 2), .add 1 [], .add 2 [], .condense,
        .swap 1 0] (smallRunner false) (Leaks 0 2 4) .new (by decide +kernel)
    exact ⟨w, w', hrun, hw, hleaks.not_maskFaithful⟩
  · obtain ⟨w, w', hrun, hw, hleaks⟩ := exists_of_refreshed (fun _ call => call.isSwap = false)
      [.cache (smallRequest 1), .cache (smallAllowedRequest 2), .add 1 [], .add 2 [], .condense,
        .refresh, .finish 1, .condense, .refresh, .cache (smallRequest 3), .add 3 [], .condense]
      (smallRunner false) (Leaks 1 3 4) .new (by decide +kernel)
    exact ⟨w, w', hrun, hw, hleaks.not_maskFaithful⟩

/-- The request with allowed token ids is moved, and no other is added to its row. -/
theorem maskFaithful_of_moved_request : ∃ w w', Run KeepsMask .condensed w ∧
    w.step .refresh = .ok w' ∧ w'.inputBatch.reqIds = [some 2, some 3] ∧ MaskFaithful w' := by
  obtain ⟨w, w', hrun, hw, hids⟩ := exists_of_refreshed KeepsMask
    [.cache (smallRequest 1), .cache (smallAllowedRequest 2), .add 1 [], .add 2 [], .condense,
      .refresh, .finish 1, .cache (smallAllowedRequest 3), .condense, .refresh, .add 3 [], .condense]
    (smallRunner false) (fun w => w.inputBatch.reqIds = [some 2, some 3]) .new (by decide +kernel)
  exact ⟨w, w', hrun, hw, hids, hrun.maskFaithful hw⟩

end LoptVllm.Worker
