import LoptVllm.Attention.Reorder
import Mathlib.Algebra.Ring.Nat

/-!
# Where the attention backends split the batch
-/

namespace LoptVllm.Attention

open List Bool Or ScheduledReq

/-- `CommonAttentionMetadata`, for the splitters. -/
structure CommonAttentionMetadata where
  maxQueryLen : ℕ
  numReqs : ℕ
  numActualTokens : ℕ
  queryStartLoc : List ℕ
  seqLens : List ℕ

/-- The metadata of a batch: the query lengths are the scheduled tokens. -/
def metadataOf (batch : List ScheduledReq) : CommonAttentionMetadata where
  maxQueryLen := (batch.map (·.numScheduledTokens)).foldr max 0
  numReqs := batch.length
  numActualTokens := (batch.map (·.numScheduledTokens)).sum
  queryStartLoc := (List.range (batch.length + 1)).map fun i =>
    ((batch.take i).map (·.numScheduledTokens)).sum
  seqLens := batch.map fun r => r.numComputedTokens + r.numScheduledTokens

namespace CommonAttentionMetadata

variable (m : CommonAttentionMetadata)

/-- `query_start_loc[1:] - query_start_loc[:-1]`. -/
def queryLens : List ℕ := zipWith (· - ·) m.queryStartLoc.tail m.queryStartLoc

/-- `compute_num_computed_tokens`. -/
def computeNumComputedTokens : List ℕ := zipWith (· - ·) m.seqLens m.queryLens

end CommonAttentionMetadata

/-- `mask.int().argmax()`: the first index of the mask, or 0. -/
def argmaxMask (mask : List Bool) : ℕ := if mask.any id then mask.findIdx id else 0

/-- The result of `split_decodes_prefills_and_extends`. -/
structure DecodesExtendsPrefills where
  numDecodes : ℕ
  numExtends : ℕ
  numPrefills : ℕ
  numDecodeTokens : ℕ
  numExtendTokens : ℕ
  numPrefillTokens : ℕ
  deriving DecidableEq

/-- The result of `split_decodes_and_prefills`. -/
structure DecodesPrefills where
  numDecodes : ℕ
  numPrefills : ℕ
  numDecodeTokens : ℕ
  numPrefillTokens : ℕ
  deriving DecidableEq

variable (m : CommonAttentionMetadata)

/-- `split_decodes_prefills_and_extends`. -/
def splitDecodesPrefillsAndExtends (decodeThreshold : ℕ) : DecodesExtendsPrefills :=
  if m.maxQueryLen ≤ decodeThreshold then ⟨m.numReqs, 0, 0, m.numActualTokens, 0, 0⟩
  else
    let isPrefillOrExtend := m.queryLens.map fun q => decide (decodeThreshold < q)
    let isPrefill := zipWith (fun same long => same && long)
      (zipWith (fun s q => decide (s = q)) m.seqLens m.queryLens) isPrefillOrExtend
    let firstExtend := argmaxMask isPrefillOrExtend
    let firstPrefill := argmaxMask isPrefill
    let numDecodes := firstExtend
    let numDecodeTokens := m.queryStartLoc.getD firstExtend 0
    if !isPrefillOrExtend.any id then ⟨numDecodes, 0, 0, numDecodeTokens, 0, 0⟩
    else
      let numPrefillsOrExtends := m.numReqs - numDecodes
      let numPrefillOrExtendTokens := m.numActualTokens - numDecodeTokens
      if !isPrefill.any id then
        ⟨numDecodes, numPrefillsOrExtends, 0, numDecodeTokens, numPrefillOrExtendTokens, 0⟩
      else
        let numPrefillTokens := m.numActualTokens - m.queryStartLoc.getD firstPrefill 0
        ⟨numDecodes, firstPrefill - numDecodes, m.numReqs - firstPrefill, numDecodeTokens,
          numPrefillOrExtendTokens - numPrefillTokens, numPrefillTokens⟩

/-- `split_decodes_and_prefills`. -/
def splitDecodesAndPrefills (decodeThreshold : ℕ)
    (requireUniform : Bool) : Except PyErr DecodesPrefills :=
  if m.maxQueryLen ≤ decodeThreshold ∧ (requireUniform = false ∨ decodeThreshold ≤ 1) then
    .ok ⟨m.numReqs, 0, m.numActualTokens, 0⟩
  else
    match m.queryLens[0]? with
    | none => .error (.indexError "index 0 is out of bounds")
    | some first =>
      if decodeThreshold < first then
        -- the first request is not a decode, so there are none
        .ok ⟨0, m.numReqs, 0, m.numActualTokens⟩
      else if requireUniform ∧ m.queryLens.all (fun q => decide (q = first ∨ q = 0)) then
        -- a padded uniform batch
        if m.numReqs * first = m.numActualTokens then .ok ⟨m.numReqs, 0, m.numActualTokens, 0⟩
        else .error (.assertionError "tokens not padded correctly")
      else
        let isPrefill := m.queryLens.map fun q =>
          if requireUniform then decide (q ≠ first) else decide (decodeThreshold < q)
        if !isPrefill.any id then .ok ⟨m.numReqs, 0, m.numActualTokens, 0⟩
        else
          let firstPrefill := argmaxMask isPrefill
          if (m.queryLens.take firstPrefill).all fun q => decide (q ≤ decodeThreshold) then
            let numDecodeTokens := m.queryStartLoc.getD firstPrefill 0
            .ok ⟨firstPrefill, m.numReqs - firstPrefill, numDecodeTokens,
              m.numActualTokens - numDecodeTokens⟩
          else .error (.assertionError "")

/-- The metadata of `_compute_common_metadata`: the split, and for the prefills whether they have an
initial state. -/
structure BaseMambaAttentionMetadata where
  split : DecodesPrefills
  queryStartLocP : Option (List ℕ)
  hasInitialStatesP : Option (List Bool)
  numReqs : ℕ

/-- `_compute_common_metadata`. -/
def computeCommonMetadata (reorderBatchThreshold : ℕ) : Except PyErr BaseMambaAttentionMetadata :=
  (splitDecodesAndPrefills m reorderBatchThreshold false).map fun s =>
    if s.numPrefills > 0 then
      { split := s
        queryStartLocP := some ((m.queryStartLoc.drop (m.queryStartLoc.length - (s.numPrefills + 1))).map
          (· - s.numDecodeTokens))
        hasInitialStatesP := some (((m.computeNumComputedTokens.take m.numReqs).drop
          (m.numReqs - s.numPrefills)).map fun c => decide (c > 0))
        numReqs := m.numReqs }
    else
      { split := s
        queryStartLocP := none
        hasInitialStatesP := none
        numReqs := m.numReqs }

/-- Request `i` is run from the state that is stored for it: all decodes are, and the prefills that
have an initial state. -/
def BaseMambaAttentionMetadata.ReadsState (md : BaseMambaAttentionMetadata) (i : ℕ) : Prop :=
  i < md.split.numDecodes ∨
    ∃ flags, md.hasInitialStatesP = some flags ∧ flags[i - md.split.numDecodes]? = some true

/-! ### Agreement -/

/-- The boundaries are those of the regions, and the numbers of tokens are those of the ranges. -/
structure Consistent (decodeThreshold : ℕ) (batch : List ScheduledReq) (s : DecodesExtendsPrefills) :
    Prop where
  decodes : ∀ i r, batch[i]? = some r → (i < s.numDecodes ↔ r.IsDecode decodeThreshold)
  extends' : ∀ i r, batch[i]? = some r →
    (s.numDecodes ≤ i ∧ i < s.numDecodes + s.numExtends ↔ r.IsExtend decodeThreshold)
  prefills : ∀ i r, batch[i]? = some r → (s.numDecodes + s.numExtends ≤ i ↔ r.IsPrefill)
  total : s.numDecodes + s.numExtends + s.numPrefills = batch.length
  decodeTokens : s.numDecodeTokens = ((batch.take s.numDecodes).map (·.numScheduledTokens)).sum
  extendTokens : s.numExtendTokens =
    (((batch.drop s.numDecodes).take s.numExtends).map (·.numScheduledTokens)).sum
  prefillTokens : s.numPrefillTokens =
    ((batch.drop (s.numDecodes + s.numExtends)).map (·.numScheduledTokens)).sum

/-- The decodes are those of the reordering, and all other requests are prefills. -/
structure ConsistentDecodes (decodeThreshold : ℕ) (batch : List ScheduledReq) (s : DecodesPrefills) :
    Prop where
  decodes : ∀ i r, batch[i]? = some r → (i < s.numDecodes ↔ r.IsDecode decodeThreshold)
  total : s.numDecodes + s.numPrefills = batch.length
  decodeTokens : s.numDecodeTokens = ((batch.take s.numDecodes).map (·.numScheduledTokens)).sum
  prefillTokens : s.numPrefillTokens = ((batch.drop s.numDecodes).map (·.numScheduledTokens)).sum

/-- The splitters agree with the reordered batch, and no request without computed tokens is run from
a stored state. -/
structure SplitAgrees (decodeThreshold : ℕ) (batch : List ScheduledReq) : Prop where
  extends' : Consistent decodeThreshold batch
    (splitDecodesPrefillsAndExtends (metadataOf batch) decodeThreshold)
  decodes : ∃ s, splitDecodesAndPrefills (metadataOf batch) decodeThreshold false = .ok s ∧
    ConsistentDecodes decodeThreshold batch s
  mamba : ∃ md, computeCommonMetadata (metadataOf batch) decodeThreshold = .ok md ∧
    ∀ i r, batch[i]? = some r → r.IsPrefill → ¬ md.ReadsState i

/-! ### The metadata of a batch -/

section

variable {decodeThreshold : ℕ} {batch : List ScheduledReq}

theorem queryLens_metadataOf : (metadataOf batch).queryLens = batch.map (·.numScheduledTokens) := by
  refine ext_getElem (by simp [CommonAttentionMetadata.queryLens, metadataOf]) fun i hi hi' => ?_
  rw [length_map] at hi'
  have htake : batch.take (i + 1) = batch.take i ++ [batch[i]] := take_succ_eq_append_getElem hi'
  simp only [CommonAttentionMetadata.queryLens, metadataOf, getElem_zipWith, getElem_tail,
    getElem_map, getElem_range, htake, map_append, map_singleton, sum_append,
    sum_singleton]
  omega

theorem computeNumComputedTokens_metadataOf :
    (metadataOf batch).computeNumComputedTokens = batch.map (·.numComputedTokens) := by
  unfold CommonAttentionMetadata.computeNumComputedTokens
  rw [queryLens_metadataOf]
  simp [metadataOf]

theorem maxQueryLen_le : (metadataOf batch).maxQueryLen ≤ decodeThreshold ↔
    ∀ r ∈ batch, r.numScheduledTokens ≤ decodeThreshold := by
  show (batch.map (·.numScheduledTokens)).foldr max 0 ≤ decodeThreshold ↔ _
  induction batch with
  | nil => simp
  | cons r batch ih =>
    rw [map_cons, foldr_cons, max_le_iff, ih, forall_mem_cons]

theorem queryStartLoc_metadataOf {i : ℕ} (h : i ≤ batch.length) :
    (metadataOf batch).queryStartLoc.getD i 0 = ((batch.take i).map (·.numScheduledTokens)).sum := by
  have hi : i < (metadataOf batch).queryStartLoc.length := by
    simp only [metadataOf, length_map, length_range]
    omega
  rw [getD_eq_getElem?_getD, getElem?_eq_getElem hi]
  simp [metadataOf]

variable {p : ScheduledReq → Bool}

theorem argmaxMask_map (h : batch.any p = true) : argmaxMask (batch.map p) = batch.findIdx p := by
  unfold argmaxMask
  rw [if_pos (by rwa [any_map]), findIdx_map]
  rfl

variable (decodeThreshold) in
/-- More than `decode_threshold` tokens are scheduled. -/
def ScheduledReq.isLong (r : ScheduledReq) : Bool := decide (decodeThreshold < r.numScheduledTokens)

variable (decodeThreshold) in
/-- A long request without context. -/
def ScheduledReq.isLongPrefill (r : ScheduledReq) : Bool :=
  decide r.IsPrefill && r.isLong decodeThreshold

variable (decodeThreshold batch) in
/-- The masks of the splitters. -/
theorem masks_metadataOf :
    ((metadataOf batch).queryLens.map fun q => decide (decodeThreshold < q)) =
      batch.map (·.isLong decodeThreshold) ∧ zipWith (fun same long => same && long)
      (zipWith (fun s q => decide (s = q)) (metadataOf batch).seqLens (metadataOf batch).queryLens)
      (batch.map (·.isLong decodeThreshold)) = batch.map (·.isLongPrefill decodeThreshold) := by
  rw [queryLens_metadataOf]
  refine ⟨by rw [map_map]; rfl, ext_getElem (by simp [metadataOf]) fun i hi hi' => ?_⟩
  simp [metadataOf, isLongPrefill]
  rfl

variable (batch) in
/-- The tokens of the first requests. -/
def tokensOf (i : ℕ) : ℕ := ((batch.take i).map (·.numScheduledTokens)).sum

theorem any_isLong (h : ¬ ∀ r ∈ batch, r.numScheduledTokens ≤ decodeThreshold) :
    batch.any (·.isLong decodeThreshold) = true := by
  obtain ⟨r, hr⟩ := not_forall.1 h
  obtain ⟨hmem, hlong⟩ := Classical.not_imp.1 hr
  exact any_eq_true.2 ⟨r, hmem, decide_eq_true (not_le.1 hlong)⟩

/-- The splitter on a batch. -/
theorem splitDecodesPrefillsAndExtends_metadataOf :
    splitDecodesPrefillsAndExtends (metadataOf batch) decodeThreshold =
      if ∀ r ∈ batch, r.numScheduledTokens ≤ decodeThreshold then
        ⟨batch.length, 0, 0, tokensOf batch batch.length, 0, 0⟩
      else
        let firstExtend := batch.findIdx (·.isLong decodeThreshold)
        let firstPrefill := batch.findIdx (·.isLongPrefill decodeThreshold)
        let rest := tokensOf batch batch.length - tokensOf batch firstExtend
        if batch.any (·.isLongPrefill decodeThreshold) = false then
          ⟨firstExtend, batch.length - firstExtend, 0, tokensOf batch firstExtend, rest, 0⟩
        else
          let prefillTokens := tokensOf batch batch.length - tokensOf batch firstPrefill
          ⟨firstExtend, firstPrefill - firstExtend, batch.length - firstPrefill,
            tokensOf batch firstExtend, rest - prefillTokens, prefillTokens⟩ := by
  have htokens : (metadataOf batch).numActualTokens = tokensOf batch batch.length := by
    rw [tokensOf, take_length]
    rfl
  have hreqs : (metadataOf batch).numReqs = batch.length := rfl
  obtain ⟨hmask, hmask'⟩ := masks_metadataOf decodeThreshold batch
  unfold splitDecodesPrefillsAndExtends
  simp only [maxQueryLen_le, htokens, hreqs]
  by_cases hmax : ∀ r ∈ batch, r.numScheduledTokens ≤ decodeThreshold
  · rw [if_pos hmax, if_pos hmax]
  · rw [if_neg hmax, if_neg hmax]
    have hlong := any_isLong hmax
    have hstart := queryStartLoc_metadataOf (i := batch.findIdx (·.isLong decodeThreshold))
      findIdx_le_length
    have hany : (batch.map (·.isLong decodeThreshold)).any id = true := by rwa [any_map]
    simp only [hmask, hmask', hany, argmaxMask_map hlong, hstart]
    have hmap : (batch.map (·.isLongPrefill decodeThreshold)).any id =
        batch.any (·.isLongPrefill decodeThreshold) := any_map
    rw [hmap]
    cases hprefill : batch.any (·.isLongPrefill decodeThreshold) with
    | false => rfl
    | true =>
      have hstart' := queryStartLoc_metadataOf (i := batch.findIdx (·.isLongPrefill decodeThreshold))
        findIdx_le_length
      simp only [argmaxMask_map hprefill, hstart']
      rfl

theorem findIdx_append_cons {l rest : List ScheduledReq} {r : ScheduledReq}
    (hl : ∀ r ∈ l, p r = false) (hr : p r = true) : (l ++ r :: rest).findIdx p = l.length := by
  induction l with
  | nil => simp [findIdx_cons, hr]
  | cons a l ih =>
    rw [cons_append, findIdx_cons, hl a mem_cons_self, ih fun r hr => hl r (.tail _ hr)]
    rfl

end

/-! ### A batch of decodes, extends and prefills -/

/-- Decodes, extends and prefills. -/
structure Grouped (decodeThreshold : ℕ) (ds es ps : List ScheduledReq) : Prop where
  decodes : ∀ r ∈ ds, r.IsDecode decodeThreshold
  extends' : ∀ r ∈ es, r.IsExtend decodeThreshold
  prefills : ∀ r ∈ ps, r.IsPrefill

/-- The reordered batch. -/
theorem reorderBatch_grouped (decodeThreshold : ℕ) (batch : List ScheduledReq) :
    ∃ ds es ps, Grouped decodeThreshold ds es ps ∧
      (reorderBatch decodeThreshold batch).1 = ds ++ (es ++ ps) ∧
      ps.head? = firstPrefill decodeThreshold batch := by
  have hregion := fun {i r} => reorderBatch_region decodeThreshold batch (i := i) (r := r)
  have hfirst := reorderBatch_firstPrefill decodeThreshold batch
  generalize (reorderBatch decodeThreshold batch).1 = new at hregion hfirst ⊢
  unfold targetRegion at hregion
  generalize numDecodes decodeThreshold batch = d at hregion hfirst
  generalize numExtends decodeThreshold batch = e at hregion hfirst
  refine ⟨new.take d, (new.drop d).take e, new.drop (d + e), ⟨fun r hr => ?_, fun r hr => ?_,
    fun r hr => ?_⟩, ?_, ?_⟩
  · obtain ⟨i, hi, rfl⟩ := mem_take_iff_getElem.1 hr
    have := hregion (getElem?_eq_getElem (by omega : i < new.length))
    rw [if_pos (by omega)] at this
    exact (region_eq_zero decodeThreshold).1 this
  · obtain ⟨i, hi, rfl⟩ := mem_take_iff_getElem.1 hr
    rw [length_drop] at hi
    rw [getElem_drop]
    have := hregion (getElem?_eq_getElem (by omega : d + i < new.length))
    rw [if_neg (by omega), if_pos (by omega)] at this
    exact (region_eq_one decodeThreshold).1 this
  · obtain ⟨i, hi, rfl⟩ := mem_drop_iff_getElem.1 hr
    have := hregion (getElem?_eq_getElem hi)
    rw [if_neg (by omega), if_neg (by omega)] at this
    exact (region_eq_two decodeThreshold).1 (by simpa only [add_comm] using this)
  · rw [← drop_drop, take_append_drop, take_append_drop]
  · rw [head?_drop, hfirst]

section

variable {decodeThreshold : ℕ} {ds es ps : List ScheduledReq}

section

variable (h : Grouped decodeThreshold ds es ps)

include h

theorem Grouped.consistent :
    Consistent decodeThreshold (ds ++ (es ++ ps)) ⟨ds.length, es.length, ps.length,
      (ds.map (·.numScheduledTokens)).sum, (es.map (·.numScheduledTokens)).sum,
      (ps.map (·.numScheduledTokens)).sum⟩ := by
  have hwhere : ∀ i r, (ds ++ (es ++ ps))[i]? = some r →
      (i < ds.length ∧ r.IsDecode decodeThreshold) ∨
      (ds.length ≤ i ∧ i < ds.length + es.length ∧ r.IsExtend decodeThreshold) ∨
      (ds.length + es.length ≤ i ∧ r.IsPrefill) := by
    intro i r hr
    rcases lt_or_ge i ds.length with hi | hi
    · rw [getElem?_append_left hi] at hr
      exact inl ⟨hi, h.decodes r (mem_of_getElem? hr)⟩
    · rw [getElem?_append_right hi] at hr
      rcases lt_or_ge (i - ds.length) es.length with hi' | hi'
      · rw [getElem?_append_left hi'] at hr
        exact inr (inl ⟨hi, by omega, h.extends' r (mem_of_getElem? hr)⟩)
      · rw [getElem?_append_right hi'] at hr
        exact inr (inr ⟨by omega, h.prefills r (mem_of_getElem? hr)⟩)
  refine ⟨fun i r hr => ?_, fun i r hr => ?_, fun i r hr => ?_, ?_, ?_, ?_, ?_⟩
  · rcases hwhere i r hr with ⟨hi, hr⟩ | ⟨hi, -, hr⟩ | ⟨hi, hr⟩
    · exact iff_of_true hi hr
    · exact iff_of_false (not_lt.2 hi) fun hd => not_lt.2 hd.1 hr.1
    · exact iff_of_false (by simp only; omega) fun hd => hd.2 hr
  · rcases hwhere i r hr with ⟨hi, hr⟩ | ⟨hi, hi', hr⟩ | ⟨hi, hr⟩
    · exact iff_of_false (by simp only; omega) fun he => not_lt.2 hr.1 he.1
    · exact iff_of_true ⟨hi, hi'⟩ hr
    · exact iff_of_false (by simp only; omega) fun he => he.2 hr
  · rcases hwhere i r hr with ⟨hi, hr⟩ | ⟨hi, hi', hr⟩ | ⟨hi, hr⟩
    · exact iff_of_false (by simp only; omega) hr.2
    · exact iff_of_false (by simp only; omega) hr.2
    · exact iff_of_true hi hr
  · simp only [length_append]
    omega
  · simp
  · simp
  · rw [← append_assoc, ← length_append, drop_left]

/-- The first long request is the first one that is not a decode. -/
theorem Grouped.exists_cons (hfirst : ∀ r ∈ ps.head?, decodeThreshold < r.numScheduledTokens)
    (hmax : ¬ ∀ r ∈ ds ++ (es ++ ps), r.numScheduledTokens ≤ decodeThreshold) :
    ∃ r rest, es ++ ps = r :: rest ∧ decodeThreshold < r.numScheduledTokens := by
  cases es with
  | cons r es => exact ⟨r, es ++ ps, rfl, (h.extends' r (.head _)).1⟩
  | nil =>
    cases ps with
    | cons r ps => exact ⟨r, ps, rfl, hfirst r rfl⟩
    | nil =>
      refine absurd (fun r hr => ?_) hmax
      rw [append_nil, append_nil] at hr
      exact (h.decodes r hr).1

theorem Grouped.isLong_decodes : ∀ r ∈ ds, r.isLong decodeThreshold = false :=
  fun r hr => decide_eq_false (not_lt.2 (h.decodes r hr).1)

theorem Grouped.isLongPrefill_eq_false :
    ∀ r ∈ ds ++ es, r.isLongPrefill decodeThreshold = false := by
  intro r hr
  unfold isLongPrefill
  rcases mem_append.1 hr with hr | hr
  · rw [h.isLong_decodes r hr, Bool.and_false]
  · rw [decide_eq_false (h.extends' r hr).2, Bool.false_and]

section

variable (hfirst : ∀ r ∈ ps.head?, decodeThreshold < r.numScheduledTokens)

include hfirst

/-- If all requests are short, all of them are decodes. -/
theorem Grouped.eq_nil
    (hmax : ∀ r ∈ ds ++ (es ++ ps), r.numScheduledTokens ≤ decodeThreshold) : es = [] ∧ ps = [] := by
  constructor
  · refine eq_nil_iff_forall_not_mem.2 fun r hr => ?_
    exact not_le.2 (h.extends' r hr).1 (hmax r (by simp [hr]))
  · cases ps with
    | nil => rfl
    | cons r ps => exact absurd (hmax r (by simp)) (not_le.2 (hfirst r rfl))

/-- What the splitters return if the first request without context is long: the boundaries of the
regions. -/
theorem Grouped.splitDecodesPrefillsAndExtends_eq :
    splitDecodesPrefillsAndExtends (metadataOf (ds ++ (es ++ ps))) decodeThreshold =
      ⟨ds.length, es.length, ps.length, (ds.map (·.numScheduledTokens)).sum,
        (es.map (·.numScheduledTokens)).sum, (ps.map (·.numScheduledTokens)).sum⟩ := by
  rw [splitDecodesPrefillsAndExtends_metadataOf]
  by_cases hmax : ∀ r ∈ ds ++ (es ++ ps), r.numScheduledTokens ≤ decodeThreshold
  · rw [if_pos hmax]
    obtain ⟨rfl, rfl⟩ := h.eq_nil hfirst hmax
    simp [tokensOf]
  · rw [if_neg hmax]
    obtain ⟨r, rest, hcons, hlong⟩ := h.exists_cons hfirst hmax
    have hextend : (ds ++ (es ++ ps)).findIdx (·.isLong decodeThreshold) = ds.length := by
      rw [hcons]
      exact findIdx_append_cons h.isLong_decodes (decide_eq_true hlong)
    have hall : tokensOf (ds ++ (es ++ ps)) (ds ++ (es ++ ps)).length =
        (ds.map (·.numScheduledTokens)).sum + ((es.map (·.numScheduledTokens)).sum +
          (ps.map (·.numScheduledTokens)).sum) := by
      rw [tokensOf, take_length, map_append, map_append, sum_append, sum_append]
    have hds : tokensOf (ds ++ (es ++ ps)) ds.length = (ds.map (·.numScheduledTokens)).sum := by
      rw [tokensOf, take_left]
    simp only [hextend, hall, hds]
    cases ps with
    | nil =>
      have hany : (ds ++ (es ++ [])).any (·.isLongPrefill decodeThreshold) = false := by
        rw [any_eq_false, append_nil]
        exact fun r hr => eq_false_iff.1 (h.isLongPrefill_eq_false r hr)
      rw [if_pos hany]
      simp
    | cons p ps =>
      have hp : p.isLongPrefill decodeThreshold = true := by
        unfold isLongPrefill isLong
        rw [decide_eq_true (h.prefills p mem_cons_self), decide_eq_true (hfirst p rfl)]
        rfl
      have hany : (ds ++ (es ++ p :: ps)).any (·.isLongPrefill decodeThreshold) = true :=
        any_eq_true.2 ⟨p, by simp, hp⟩
      have hprefill : (ds ++ (es ++ p :: ps)).findIdx (·.isLongPrefill decodeThreshold) =
          ds.length + es.length := by
        rw [← append_assoc, findIdx_append_cons h.isLongPrefill_eq_false hp, length_append]
      have hes : tokensOf (ds ++ (es ++ p :: ps)) (ds.length + es.length) =
          (ds.map (·.numScheduledTokens)).sum + (es.map (·.numScheduledTokens)).sum := by
        rw [tokensOf, ← append_assoc, ← length_append, take_left, map_append, sum_append]
      rw [if_neg (by rw [hany]; exact nofun), hprefill, hes, DecodesExtendsPrefills.mk.injEq]
      refine ⟨rfl, Nat.add_sub_cancel_left _ _, ?_, rfl, ?_, ?_⟩
      · simp only [length_append]
        omega
      · omega
      · omega

theorem Grouped.splitDecodesAndPrefills_eq :
    splitDecodesAndPrefills (metadataOf (ds ++ (es ++ ps))) decodeThreshold false =
      .ok ⟨ds.length, es.length + ps.length, (ds.map (·.numScheduledTokens)).sum,
        ((es ++ ps).map (·.numScheduledTokens)).sum⟩ := by
  have htokens : (metadataOf (ds ++ (es ++ ps))).numActualTokens =
      (ds.map (·.numScheduledTokens)).sum + ((es ++ ps).map (·.numScheduledTokens)).sum := by
    show ((ds ++ (es ++ ps)).map (·.numScheduledTokens)).sum = _
    rw [map_append, sum_append]
  have hreqs : (metadataOf (ds ++ (es ++ ps))).numReqs = ds.length + (es.length + ps.length) := by
    simp [metadataOf]
  unfold splitDecodesAndPrefills
  by_cases hmax : ∀ r ∈ ds ++ (es ++ ps), r.numScheduledTokens ≤ decodeThreshold
  · rw [if_pos ⟨maxQueryLen_le.2 hmax, inl rfl⟩]
    obtain ⟨rfl, rfl⟩ := h.eq_nil hfirst hmax
    rw [htokens, hreqs]
    rfl
  · rw [if_neg fun hle => hmax (maxQueryLen_le.1 hle.1), queryLens_metadataOf, getElem?_map]
    obtain ⟨r, rest, hcons, hlong⟩ := h.exists_cons hfirst hmax
    cases ds with
    | nil =>
      rw [hcons, nil_append] at htokens hreqs ⊢
      simp only [getElem?_cons_zero, Option.map_some, if_pos hlong, htokens, hreqs]
      simp
    | cons d ds =>
      have hd := (h.decodes d (.head _)).1
      have hmask : ((d :: ds ++ (es ++ ps)).map (·.numScheduledTokens)).map (fun q =>
          if false = true then decide (q ≠ d.numScheduledTokens) else decide (decodeThreshold < q)) =
          (d :: ds ++ (es ++ ps)).map (·.isLong decodeThreshold) := by
        rw [map_map]
        rfl
      have hany : (d :: ds ++ (es ++ ps)).any (·.isLong decodeThreshold) = true := any_isLong hmax
      have hany' : ((d :: ds ++ (es ++ ps)).map (·.isLong decodeThreshold)).any id = true := by
        rwa [any_map]
      have hextend : (d :: ds ++ (es ++ ps)).findIdx (·.isLong decodeThreshold) =
          (d :: ds).length := by
        rw [hcons]
        exact findIdx_append_cons h.isLong_decodes (decide_eq_true hlong)
      have hstart := @queryStartLoc_metadataOf (d :: ds ++ (es ++ ps)) (d :: ds).length (by simp)
      rw [take_left] at hstart
      -- the assertion holds
      have hshort : (((d :: ds ++ (es ++ ps)).map (·.numScheduledTokens)).take (d :: ds).length).all
          (fun q => decide (q ≤ decodeThreshold)) = true := by
        rw [← map_take, take_left, all_map, all_eq_true]
        exact fun r hr => decide_eq_true (h.decodes r hr).1
      have hzero : (d :: ds ++ (es ++ ps))[0]? = some d := rfl
      simp only [hzero, Option.map_some, if_neg (not_lt.2 hd)]
      rw [if_neg fun hu => Bool.false_ne_true hu.1, hmask, hany', argmaxMask_map hany, hextend, hshort,
        hstart, htokens, hreqs]
      simp [Bool.not_true, Bool.false_eq_true]

end

end

/-- The metadata of the Mamba backends, for a split that is consistent: a request without computed
tokens is no decode, and has no initial state. -/
theorem ConsistentDecodes.not_readsState {batch : List ScheduledReq} {s : DecodesPrefills}
    (h : ConsistentDecodes decodeThreshold batch s)
    (hs : splitDecodesAndPrefills (metadataOf batch) decodeThreshold false = .ok s) :
    ∃ md, computeCommonMetadata (metadataOf batch) decodeThreshold = .ok md ∧
      ∀ i r, batch[i]? = some r → r.IsPrefill → ¬ md.ReadsState i := by
  have hnot : ∀ i r, batch[i]? = some r → r.IsPrefill → ¬ i < s.numDecodes := fun i r hr hprefill hi =>
    ((h.decodes i r hr).1 hi).2 hprefill
  unfold computeCommonMetadata
  rw [hs]
  simp only [Except.map]
  split_ifs with hpos
  · refine ⟨_, rfl, fun i r hr hprefill => ?_⟩
    rintro (hi | ⟨flags, hflags, hflag⟩)
    · exact hnot i r hr hprefill hi
    · obtain rfl := Option.some.inj hflags
      have hi := not_lt.1 (hnot i r hr hprefill)
      have hlt := (List.getElem?_eq_some_iff.1 hr).1
      have htotal := h.total
      have hnumReqs : (metadataOf batch).numReqs = batch.length := rfl
      have hfirst : batch.length - s.numPrefills = s.numDecodes := by omega
      have hat : s.numDecodes + (i - s.numDecodes) = i := by omega
      rw [computeNumComputedTokens_metadataOf, hnumReqs, hfirst] at hflag
      simp only [getElem?_map, getElem?_drop, hat] at hflag
      rw [getElem?_take_of_lt hlt, getElem?_map, hr] at hflag
      simp only [Option.map_some, Option.some.injEq, decide_eq_true_eq] at hflag
      exact absurd hprefill hflag.ne'
  · refine ⟨_, rfl, fun i r hr hprefill => ?_⟩
    rintro (hi | ⟨flags, hflags, -⟩)
    · exact hnot i r hr hprefill hi
    · cases hflags

/-- A short request without context at the first place for these requests is counted as something
else. -/
theorem Grouped.not_consistent {p : ScheduledReq} {ps : List ScheduledReq}
    (h : Grouped decodeThreshold ds es (p :: ps)) (hshort : p.numScheduledTokens ≤ decodeThreshold) :
    ¬ Consistent decodeThreshold (ds ++ (es ++ p :: ps))
      (splitDecodesPrefillsAndExtends (metadataOf (ds ++ (es ++ p :: ps))) decodeThreshold) := by
  intro hconsistent
  have hp : (ds ++ (es ++ p :: ps))[ds.length + es.length]? = some p := by
    rw [← append_assoc, ← length_append, getElem?_append_right (le_refl _), Nat.sub_self]
    rfl
  have hprefill := (hconsistent.prefills _ p hp).2 (h.prefills p (.head _))
  have hlt := (List.getElem?_eq_some_iff.1 hp).1
  rw [splitDecodesPrefillsAndExtends_metadataOf] at hprefill
  split_ifs at hprefill with hmax hany
  · simp only at hprefill
    omega
  · have hle : (ds ++ (es ++ p :: ps)).findIdx (·.isLong decodeThreshold) ≤
        (ds ++ (es ++ p :: ps)).length := findIdx_le_length
    simp only at hprefill
    omega
  · -- the first long request without context comes later
    have hany' : (ds ++ (es ++ p :: ps)).any (·.isLongPrefill decodeThreshold) = true := by
      rwa [not_eq_false] at hany
    have hidx := findIdx_lt_length.2 (any_eq_true.1 hany')
    have hfound := findIdx_getElem (w := hidx)
    generalize (ds ++ (es ++ p :: ps)).findIdx (·.isLongPrefill decodeThreshold) = f
      at hprefill hidx hfound
    simp only at hprefill
    have hmem : (ds ++ (es ++ p :: ps))[f] ∈ ds ++ es ++ [p] := by
      have heq : ds ++ (es ++ p :: ps) = (ds ++ es ++ [p]) ++ ps := by simp
      have hat : ((ds ++ es ++ [p]) ++ ps)[f]? = (ds ++ es ++ [p])[f]? :=
        getElem?_append_left (by simp only [length_append, length_singleton]; omega)
      rw [← heq, getElem?_eq_getElem hidx] at hat
      exact mem_of_getElem? hat.symm
    rcases mem_append.1 hmem with hmem | hmem
    · rw [h.isLongPrefill_eq_false _ hmem] at hfound
      cases hfound
    · rw [mem_singleton.1 hmem] at hfound
      have hlong : p.isLong decodeThreshold = true := (and_eq_true_iff.1 hfound).2
      exact not_lt.2 hshort (of_decide_eq_true hlong)

end

/-- The splitters agree with the reordering if and only if the first request without context in the
reordered batch is long, or there is no such request. -/
theorem split_agrees_iff (decodeThreshold : ℕ) (batch : List ScheduledReq) :
    SplitAgrees decodeThreshold (reorderBatch decodeThreshold batch).1 ↔
      ∀ r ∈ firstPrefill decodeThreshold batch, decodeThreshold < r.numScheduledTokens := by
  obtain ⟨ds, es, ps, hgrouped, heq, hhead⟩ := reorderBatch_grouped decodeThreshold batch
  rw [heq, ← hhead]
  constructor
  · intro h r hr
    cases ps with
    | nil => cases hr
    | cons p ps =>
      obtain rfl : p = r := Option.some.inj hr
      by_contra hshort
      exact hgrouped.not_consistent (not_lt.1 hshort) h.extends'
  · intro hfirst
    have hconsistent := hgrouped.consistent
    have hdecodes : ConsistentDecodes decodeThreshold (ds ++ (es ++ ps))
        ⟨ds.length, es.length + ps.length, (ds.map (·.numScheduledTokens)).sum,
          ((es ++ ps).map (·.numScheduledTokens)).sum⟩ := by
      refine ⟨hconsistent.decodes, ?_, hconsistent.decodeTokens, ?_⟩
      · simp
      · simp
    have hsplit := hgrouped.splitDecodesAndPrefills_eq hfirst
    refine ⟨?_, ⟨_, hsplit, hdecodes⟩, hdecodes.not_readsState hsplit⟩
    rw [hgrouped.splitDecodesPrefillsAndExtends_eq hfirst]
    exact hconsistent

/-- A prompt of one token is counted as a decode, and run from the state that is stored for it. -/
theorem one_token_prompt_decodes : ¬ SplitAgrees 1 (reorderBatch 1 [⟨0, 1, 0⟩]).1 ∧
    ∃ md, computeCommonMetadata (metadataOf (reorderBatch 1 [⟨0, 1, 0⟩]).1) 1 = .ok md ∧
      md.ReadsState 0 := by
  refine ⟨fun h => ?_, _, rfl, inl one_pos⟩
  obtain ⟨s, hs, hdecodes⟩ := h.decodes
  have hs' : splitDecodesAndPrefills (metadataOf (reorderBatch 1 [⟨0, 1, 0⟩]).1) 1 false =
      .ok ⟨1, 0, 1, 0⟩ := rfl
  obtain rfl := Except.ok.inj (hs'.symm.trans hs)
  exact ((hdecodes.decodes 0 ⟨0, 1, 0⟩ rfl).1 one_pos).2 rfl

end LoptVllm.Attention
