import LoptVllm.StructuredOutput.Filling
import LoptVllm.StructuredOutput.Worker

/-!
# The rows in the order of the batch
-/

namespace LoptVllm.StructuredOutput

open List

variable {ρ σ Mask Row : Type} [DecidableEq ρ] {A : Automaton σ ℤ Mask} {full : Mask}
  {spec : OrderedDict ρ (List ℤ)} {requests : OrderedDict ρ (Request σ)}

theorem numRows_append (ids ids' : List ρ) :
    numRows spec (ids ++ ids') = numRows spec ids + numRows spec ids' := by
  simp [numRows]

variable (spec) in
/-- Where the rows of a request start in the batch. -/
theorem batchRounds_lookup (structIds : List ρ) (reqIds : List ρ) : ∀ b : BatchIndices ρ,
    reqIds.Nodup →
    (∀ id ∉ reqIds, (reqIds.foldl (batchRound spec structIds) b).structOutReqBatchIndices.lookup id =
      b.structOutReqBatchIndices.lookup id) ∧
    ∀ pre id post, reqIds = pre ++ id :: post → id ∈ structIds →
      (reqIds.foldl (batchRound spec structIds) b).structOutReqBatchIndices.lookup id =
        some (b.batchIndex + b.cumulativeOffset + numRows spec pre) := by
  induction reqIds with
  | nil => exact fun b _ => ⟨fun _ _ => rfl, fun pre id post h => by simp at h⟩
  | cons x reqIds ih =>
    intro b hnodup
    obtain ⟨hx, hnodup⟩ := nodup_cons.1 hnodup
    obtain ⟨hothers, hlookup⟩ := ih (batchRound spec structIds b x) hnodup
    have hround : ∀ id, (batchRound spec structIds b x).structOutReqBatchIndices.lookup id =
        if id = x ∧ x ∈ structIds then some (b.batchIndex + b.cumulativeOffset)
        else b.structOutReqBatchIndices.lookup id := fun id => by
      unfold batchRound
      by_cases hmem : x ∈ structIds
      · rw [if_pos hmem, OrderedDict.lookup_setItem]
        simp [hmem]
      · simp [hmem]
    refine ⟨fun id hid => ?_, fun pre id post heq hid => ?_⟩
    · rw [mem_cons, not_or] at hid
      rw [foldl_cons, hothers id hid.2, hround, if_neg fun h => hid.1 h.1]
    · rw [foldl_cons]
      cases pre with
      | nil =>
        obtain ⟨rfl, rfl⟩ := cons.inj heq
        rw [hothers x hx, hround, if_pos ⟨rfl, hid⟩]
        rfl
      | cons y pre =>
        obtain ⟨rfl, rfl⟩ := cons.inj heq
        rw [hlookup pre id post rfl hid, numRows_cons]
        congr 1
        show b.batchIndex + 1 + (b.cumulativeOffset + (draftsOf spec x).length) + _ = _
        omega

/-- The rows of one request are copied. -/
theorem copyMasks_eq (logitIdx : ℕ) {grammarBitmask rows : List Mask} {s : Sorting Mask}
    (hrows : ∀ j < rows.length, grammarBitmask[s.cumulativeIndex + j]? = rows[j]?)
    (hlen : logitIdx + rows.length ≤ s.sortedBitmask.length) (k : ℕ) (hk : k ≤ rows.length) :
    (range k).foldlM (copyMask grammarBitmask logitIdx) s = .ok { s with
      sortedBitmask := overwrite s.sortedBitmask logitIdx (rows.take k)
      outIndices := s.outIndices ++ (range k).map (logitIdx + ·) } := by
  induction k with
  | zero => simp [overwrite, pure, Except.pure]
  | succ k ih =>
    have hget : rows[k]? = some rows[k] := getElem?_eq_getElem hk
    rw [range_succ, foldlM_append, ih (by omega)]
    simp only [ok_bind, foldlM_cons]
    unfold copyMask
    simp only [hrows k hk, length_overwrite,
      if_pos (show logitIdx + k < s.sortedBitmask.length by omega)]
    rw [take_add_one, hget, overwrite_append, length_take, min_eq_left (by omega)]
    simp [overwrite, pure, Except.pure]

/-! ### The bitmask of the worker -/

/-- The rows of a request in the batch, when some requests have been copied. -/
def block (A : Automaton σ ℤ Mask) (full : Mask) (spec : OrderedDict ρ (List ℤ))
    (requests : OrderedDict ρ (Request σ)) (copied : List ρ) (id : ρ) : List Mask :=
  if id ∈ copied then rowsOf A full spec requests id
  else .replicate ((draftsOf spec id).length + 1) full

@[simp] theorem length_block (copied : List ρ) (id : ρ) :
    (block A full spec requests copied id).length = (draftsOf spec id).length + 1 := by
  unfold block
  split_ifs <;> simp

variable (A full spec requests) in
theorem length_blocks (copied ids : List ρ) :
    (ids.flatMap (block A full spec requests copied)).length = numRows spec ids := by
  simp [numRows]

/-- The bitmask of the worker, when some requests have been copied. -/
structure Sorted (A : Automaton σ ℤ Mask) (full : Mask) (spec : OrderedDict ρ (List ℤ))
    (requests : OrderedDict ρ (Request σ)) (reqIds copied : List ρ) (s : Sorting Mask) : Prop where
  sortedBitmask : s.sortedBitmask = reqIds.flatMap (block A full spec requests copied)
  lt_length : ∀ i ∈ s.outIndices, i < s.sortedBitmask.length
  full : ∀ i ∉ s.outIndices, ∀ mask, s.sortedBitmask[i]? = some mask → mask = full
  cumulativeIndex : s.cumulativeIndex = numRows spec copied

theorem block_of_ne {copied : List ρ} {id id' : ρ} (h : id' ≠ id) :
    block A full spec requests (copied ++ [id]) id' = block A full spec requests copied id' := by
  unfold block
  simp [h]

/-- The next request is copied, if it is in the batch. -/
theorem Sorted.sortRequest {reqIds copied : List ρ} {s : Sorting Mask} {indices : OrderedDict ρ ℕ}
    (hs : Sorted A full spec requests reqIds copied s) (id : ρ) (ids : List ρ)
    (hreqIds : reqIds.Nodup) (hnot : id ∉ reqIds → indices.lookup id = none)
    (hindex : ∀ pre post, reqIds = pre ++ id :: post → indices.lookup id = some (numRows spec pre)) :
    ∃ s', StructuredOutput.sortRequest spec indices
        ((copied ++ id :: ids).flatMap (rowsOf A full spec requests)) s id = .ok s' ∧
      Sorted A full spec requests reqIds (copied ++ [id]) s' := by
  unfold StructuredOutput.sortRequest
  have hcount : numRows spec copied + (1 + numSpecTokens spec id) = numRows spec (copied ++ [id]) := by
    rw [numRows_append]
    show _ + (1 + (draftsOf spec id).length) = _ + ((draftsOf spec id).length + 1 + 0)
    omega
  by_cases hmem : id ∈ reqIds
  -- the rows of the request go between those before and behind it
  · obtain ⟨pre, post, rfl⟩ := append_of_mem hmem
    have hpre : ∀ a ∈ pre, a ≠ id := fun a ha heq => by
      have := (nodup_append.1 hreqIds).2.2 a ha id (.head _)
      exact this heq
    have hpost : ∀ a ∈ post, a ≠ id := fun a ha heq =>
      (nodup_cons.1 (nodup_append.1 hreqIds).2.1).1 (heq ▸ ha)
    have hlen : (rowsOf A full spec requests id).length = 1 + numSpecTokens spec id := by
      rw [length_rowsOf, add_comm]
      rfl
    have hbefore : ((copied.flatMap (rowsOf A full spec requests)).length) = s.cumulativeIndex := by
      rw [hs.cumulativeIndex]
      simp [numRows]
    have hrows : ∀ j < (rowsOf A full spec requests id).length,
        ((copied ++ id :: ids).flatMap (rowsOf A full spec requests))[s.cumulativeIndex + j]? =
          (rowsOf A full spec requests id)[j]? := fun j hj => by
      rw [flatMap_append, flatMap_cons, ← hbefore,
        getElem?_append_right (by omega), Nat.add_sub_cancel_left, getElem?_append_left hj]
    have htotal : s.sortedBitmask.length = numRows spec pre +
        ((rowsOf A full spec requests id).length + numRows spec post) := by
      rw [hs.sortedBitmask, length_blocks, numRows_append, numRows_cons, length_rowsOf]
    have hcopy := copyMasks_eq (numRows spec pre) hrows (by omega) (1 + numSpecTokens spec id)
      (le_of_eq hlen.symm)
    have hblocks : overwrite s.sortedBitmask (numRows spec pre) (rowsOf A full spec requests id) =
        (pre ++ id :: post).flatMap (block A full spec requests (copied ++ [id])) := by
      have hself : block A full spec requests (copied ++ [id]) id = rowsOf A full spec requests id :=
        if_pos (by simp)
      rw [hs.sortedBitmask, flatMap_append, flatMap_cons,
        ← length_blocks A full spec requests copied,
        overwrite_block _ _ _ _ (by simp), flatMap_append, flatMap_cons, hself,
        flatMap_congr fun a ha => block_of_ne (hpre a ha),
        flatMap_congr fun a ha => block_of_ne (hpost a ha)]
    rw [take_of_length_le (le_of_eq hlen)] at hcopy
    simp only [hindex pre post, hcopy, bind]
    refine ⟨_, rfl, hblocks, fun i hi => ?_, fun i hi mask hmask => ?_, ?_⟩
    · dsimp only at hi ⊢
      rw [length_overwrite]
      rcases mem_append.1 hi with hi | hi
      · exact hs.lt_length i hi
      · obtain ⟨j, hj, rfl⟩ := mem_map.1 hi
        rw [mem_range] at hj
        omega
    · dsimp only at hi hmask
      rw [mem_append, not_or] at hi
      refine hs.full i hi.1 mask ?_
      rw [← hmask, getElem?_overwrite]
      by_contra hin
      exact hi.2 (mem_map.2 ⟨i - numRows spec pre, mem_range.2 (by omega), by omega⟩)
    · show s.cumulativeIndex + _ = _
      rw [hs.cumulativeIndex, hcount]
  · rw [hnot hmem]
    refine ⟨_, rfl, ?_, hs.lt_length, hs.full, ?_⟩
    · refine hs.sortedBitmask.trans (flatMap_congr fun a ha => (block_of_ne fun heq => ?_).symm)
      exact hmem (heq ▸ ha)
    · show s.cumulativeIndex + _ = _
      rw [hs.cumulativeIndex, hcount]

theorem sortRequests_eq {reqIds : List ρ} {indices : OrderedDict ρ ℕ} (hreqIds : reqIds.Nodup)
    (hnot : ∀ id ∉ reqIds, indices.lookup id = none) (ids : List ρ) :
    ∀ (copied : List ρ) (s : Sorting Mask), Sorted A full spec requests reqIds copied s →
    (∀ pre id post, reqIds = pre ++ id :: post → id ∈ copied ++ ids →
      indices.lookup id = some (numRows spec pre)) → ∃ s', ids.foldlM (sortRequest spec indices
        ((copied ++ ids).flatMap (rowsOf A full spec requests))) s = .ok s' ∧
      Sorted A full spec requests reqIds (copied ++ ids) s' := by
  induction ids with
  | nil => exact fun copied s hs _ => ⟨s, rfl, (append_nil copied).symm ▸ hs⟩
  | cons id ids ih =>
    intro copied s hs hindex
    obtain ⟨s₁, hs₁, hsorted⟩ := hs.sortRequest id ids hreqIds (hnot id)
      fun pre post heq => hindex pre id post heq (by simp)
    rw [append_cons] at hindex
    obtain ⟨s', hs', hsorted'⟩ := ih (copied ++ [id]) s₁ hsorted hindex
    rw [append_cons]
    refine ⟨s', ?_, hsorted'⟩
    rw [append_cons] at hs₁
    rw [foldlM_cons, hs₁]
    exact hs'

variable {applyTokenBitmaskInplace : List Row → List Mask → Option (List ℕ) → List Row}

variable {applyMask : Mask → Row → Row}

theorem AppliesBitmask.getElem?_of_full
    (hkernel : AppliesBitmask full applyMask applyTokenBitmaskInplace) {bitmask : List Mask}
    {logits : List Row} (hlength : bitmask.length = logits.length) {i : ℕ}
    (h : ∀ mask, bitmask[i]? = some mask → mask = full) :
    (zipWith applyMask bitmask logits)[i]? = logits[i]? := by
  rw [getElem?_zipWith]
  cases hmask : bitmask[i]? with
  | none =>
    rw [List.getElem?_eq_none_iff] at hmask
    rw [getElem?_eq_none (hlength ▸ hmask)]
  | some mask =>
    rw [h mask hmask]
    cases logits[i]? with
    | none => rfl
    | some row => exact congrArg some (hkernel.fullMask row)

/-- **Each row of the logits gets its own mask**: those of the structured requests, and one that allows
all for the others. -/
theorem applyGrammarBitmask_eq (hkernel : AppliesBitmask full applyMask applyTokenBitmaskInplace)
    {output : SchedulerOutput ρ}
    (ids : List ρ) {reqIds : List ρ} (hreqIds : reqIds.Nodup) {logits : List Row}
    (hlogits : logits.length = numRows output.scheduledSpecDecodeTokens reqIds) :
    applyGrammarBitmask full applyTokenBitmaskInplace output
      ⟨ids, some (ids.flatMap (rowsOf A full output.scheduledSpecDecodeTokens requests))⟩ reqIds logits =
        .ok (zipWith applyMask
          (reqIds.flatMap (block A full output.scheduledSpecDecodeTokens requests ids)) logits) := by
  unfold applyGrammarBitmask
  obtain ⟨hothers, hlookup⟩ := batchRounds_lookup output.scheduledSpecDecodeTokens ids
    reqIds ⟨∅, 0, 0⟩ hreqIds
  have hstart : Sorted A full output.scheduledSpecDecodeTokens requests reqIds []
      ⟨.replicate logits.length full, [], 0⟩ := by
    refine ⟨?_, nofun, fun i _ mask hmask => ?_, rfl⟩
    · refine (eq_replicate_iff.2 ⟨(length_blocks _ _ _ _ [] reqIds).trans hlogits.symm,
        fun x hx => ?_⟩).symm
      obtain ⟨id, -, hid⟩ := mem_flatMap.1 hx
      exact eq_of_mem_replicate hid
    · exact eq_of_mem_replicate (mem_of_getElem? hmask)
  obtain ⟨s, hs, hsorted⟩ := sortRequests_eq hreqIds hothers ids [] _ hstart
    fun pre id post heq hid => (hlookup pre id post heq hid).trans (by simp)
  rw [nil_append] at hs hsorted
  simp only [hs, bind]
  have hlength : s.sortedBitmask.length = logits.length := by
    rw [hsorted.sortedBitmask, length_blocks, hlogits]
  rw [← hsorted.sortedBitmask]
  refine congrArg Except.ok ?_
  split_ifs
  · exact hkernel.allRows _ _ hlength
  · refine ext_getElem? fun i => ?_
    rw [hkernel.someRows _ _ _ hlength fun i hi => hlength ▸ hsorted.lt_length i hi]
    split_ifs with hi
    · rfl
    · exact (hkernel.getElem?_of_full hlength (hsorted.full i hi)).symm

end LoptVllm.StructuredOutput
