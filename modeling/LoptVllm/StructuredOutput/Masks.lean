import LoptVllm.StructuredOutput.Sorting

/-!
# The masks reach the right logits
-/

namespace LoptVllm.StructuredOutput

open List OrderedDict AList Nat StructuredOutputManager

variable {ρ σ Mask Row : Type} [DecidableEq ρ] {A : Automaton σ ℤ Mask} {full : Mask}
  {m : StructuredOutputManager Mask} {requests : OrderedDict ρ (Request σ)}

/-- The tensor, if it has been allocated, has a row for each draft of each sequence and one more. -/
def TensorOk (m : StructuredOutputManager Mask) : Prop := match m.grammarBitmask with
  | none => m.hasBackend = true
  | some bitmask => bitmask.length = m.maxNumSeqs * (1 + m.numSpeculativeTokens.getD 0)

variable {spec : OrderedDict ρ (List ℤ)}

theorem numRows_le {n : ℕ} (ids : List ρ)
    (h : ∀ id ∈ ids, (draftsOf spec id).length ≤ n) : numRows spec ids ≤ ids.length * (1 + n) := by
  induction ids with
  | nil => exact zero_le _
  | cons id ids ih =>
    have hid := h id (.head _)
    have hrest := ih fun a ha => h a (.tail _ ha)
    rw [numRows_cons, length_cons, succ_mul]
    omega

variable (full) in
/-- Whichever way they are filled, the rows are those of the requests, and the grammars are as they
were. -/
theorem grammarBitmaskOf_eq (hm : TensorOk m) (order : FillOrder σ) {ids : List ρ} (hne : ids ≠ [])
    (hnodup : ids.Nodup) (hseqs : ids.length ≤ m.maxNumSeqs)
    (hspec : ∀ id ∈ ids, (draftsOf spec id).length ≤ m.numSpeculativeTokens.getD 0)
    (hfill : AllFillable A m spec requests ids) : ∃ m' requests',
      m.grammarBitmaskOf A full order requests ids spec =
        .ok (some (ids.flatMap (rowsOf A full spec requests)), m', requests') ∧
      TensorOk m' ∧ Refilled requests requests' ids := by
  obtain ⟨bitmask, halloc, hlength⟩ : ∃ bitmask, m.allocate full (m.numSpeculativeTokens.getD 0) =
      .ok bitmask ∧ bitmask.length = m.maxNumSeqs * (1 + m.numSpeculativeTokens.getD 0) := by
    unfold TensorOk at hm
    unfold allocate
    cases hb : m.grammarBitmask with
    | none =>
      rw [hb] at hm
      exact ⟨_, if_pos hm, length_replicate⟩
    | some bitmask =>
      rw [hb] at hm
      exact ⟨bitmask, rfl, hm⟩
  -- there is a row for each request and each of its draft tokens
  have hroom : numRows spec ids ≤ bitmask.length := by
    rw [hlength]
    exact le_trans (numRows_le ids hspec) (mul_le_mul_right _ hseqs)
  have htake : (overwrite bitmask 0 (ids.flatMap (rowsOf A full spec requests))).take
      (numRows spec ids) = ids.flatMap (rowsOf A full spec requests) := by
    have hrows : (ids.flatMap (rowsOf A full spec requests)).length = numRows spec ids := by
      simp [numRows]
    rw [← hrows]
    exact take_overwrite (hrows ▸ hroom)
  have hok : ∀ bitmask' : List Mask, bitmask'.length = bitmask.length →
      TensorOk { m with grammarBitmask := some bitmask' } := fun bitmask' h => h.trans hlength
  unfold grammarBitmaskOf
  rw [if_neg hne]
  simp only [halloc, bind, Except.bind]
  split_ifs with hpool
  · have hdrafts : ∀ id ∈ ids, draftsOf spec id = [] := fun id hid =>
      length_eq_zero_iff.1 (le_zero.1 (hpool.2 ▸ hspec id hid))
    have hcount : numRows spec ids = ids.length := by
      unfold numRows
      rw [map_congr_left fun id hid => by rw [hdrafts id hid]]
      simp
    obtain ⟨requests', hfilled, hrefilled⟩ := fillParallel_eq full order ids
      ⟨bitmask, 0, requests⟩ (by omega) hnodup hfill hdrafts (by dsimp only; omega)
    rw [hfilled]
    dsimp only
    rw [zero_add, ← hcount, htake]
    exact ⟨_, requests', rfl, hok _ (length_overwrite _ _ _), hrefilled⟩
  · obtain ⟨requests', hfilled, hrefilled⟩ := fillSerial_eq full ids
      ⟨bitmask, 0, requests⟩ hnodup hfill (by dsimp only; omega)
    rw [hfilled]
    dsimp only
    rw [zero_add, htake]
    exact ⟨_, requests', rfl, hok _ (length_overwrite _ _ _), hrefilled⟩

/-! ### A step -/

/-- What a step of the scheduler is given: not more requests and drafts than the configuration says,
structured requests that can be filled, and grammars that have accepted the output tokens. -/
structure StepOk (A : Automaton σ ℤ Mask) (m : StructuredOutputManager Mask)
    (requests : OrderedDict ρ (Request σ)) (output : SchedulerOutput ρ) (start : ρ → σ)
    (outputTokenIds : ρ → List ℤ) : Prop where
  maxNumSeqs : (structuredOutputRequestIds requests output).length ≤ m.maxNumSeqs
  numSpeculativeTokens : ∀ id ∈ structuredOutputRequestIds requests output,
    (draftsOf output.scheduledSpecDecodeTokens id).length ≤ m.numSpeculativeTokens.getD 0
  fillable : AllFillable A m output.scheduledSpecDecodeTokens requests
    (structuredOutputRequestIds requests output)
  accepted : ∀ id grammar, grammarOf requests id = some grammar →
    A.run (start id) (outputTokenIds id) = some grammar.state

/-- What the worker is given: scheduled requests in any order, as many drafts for each of them as the
scheduler has, and a row of logits for each draft and one more. -/
structure BatchOk (output workerOutput : SchedulerOutput ρ) (reqIds : List ρ) (logits : List Row) :
    Prop where
  nodup : reqIds.Nodup
  scheduled : ∀ id ∈ reqIds, id ∈ output.numScheduledTokens
  numSpecTokens : ∀ id, numSpecTokens workerOutput.scheduledSpecDecodeTokens id =
    numSpecTokens output.scheduledSpecDecodeTokens id
  logits : logits.length = numRows output.scheduledSpecDecodeTokens reqIds

/-- The mask that the automaton allows after the output tokens that were accepted and some drafts. -/
def allowedMask (A : Automaton σ ℤ Mask) (full : Mask) (start : σ)
    (outputTokenIds drafts : List ℤ) : Mask :=
  match A.run start outputTokenIds with
  | none => full
  | some s => rowMask A full s drafts

variable {output workerOutput : SchedulerOutput ρ} {start : ρ → σ} {outputTokenIds : ρ → List ℤ}

theorem nodup_structuredOutputRequestIds : (structuredOutputRequestIds requests output).Nodup := by
  refine List.Nodup.filter _ ?_
  unfold items
  rw [map_reverse, nodup_reverse, map_map]
  exact output.numScheduledTokens.nodupKeys

variable (requests) in
theorem mem_structuredOutputRequestIds {id : ρ} (h : id ∈ output.numScheduledTokens) :
    id ∈ structuredOutputRequestIds requests output ↔ (grammarOf requests id).isSome = true := by
  unfold structuredOutputRequestIds grammarOf
  obtain ⟨n, hn⟩ := Option.isSome_iff_exists.1 (lookup_isSome.2 h)
  have hmem : id ∈ output.numScheduledTokens.items.map Prod.fst :=
    mem_map.2 ⟨(id, n), mem_items.2 hn, rfl⟩
  rw [mem_filter, and_iff_right hmem]
  cases requests.lookup id with
  | none => simp
  | some r => cases hr : r.structuredOutputRequest <;> simp [Request.useStructuredOutput, Request.grammar]

/-- What the scheduler sends to the worker. -/
def grammarOutputOf (A : Automaton σ ℤ Mask) (full : Mask) (requests : OrderedDict ρ (Request σ))
    (output : SchedulerOutput ρ) : Option (GrammarOutput ρ Mask) :=
  let ids := structuredOutputRequestIds requests output
  if ids = [] then none
  else some ⟨ids, some (ids.flatMap (rowsOf A full output.scheduledSpecDecodeTokens requests))⟩

variable (full) in
theorem getGrammarBitmask_eq (hm : TensorOk m) (order : FillOrder σ)
    (hstep : StepOk A m requests output start outputTokenIds) : ∃ m' requests',
      getGrammarBitmask A full m order requests output =
        .ok (grammarOutputOf A full requests output, m', requests') ∧
      TensorOk m' ∧ ∀ id, grammarOf requests' id = grammarOf requests id := by
  unfold getGrammarBitmask grammarOutputOf
  dsimp only
  split_ifs with hnil
  · exact ⟨m, requests, rfl, hm, fun _ => rfl⟩
  · obtain ⟨m', requests', heq, hm', hrefilled⟩ := grammarBitmaskOf_eq full hm order hnil
      nodup_structuredOutputRequestIds hstep.maxNumSeqs hstep.numSpeculativeTokens hstep.fillable
    rw [heq]
    exact ⟨m', requests', rfl, hm', hrefilled.grammars⟩

/-- The worker needs only the number of drafts. -/
theorem applyGrammarBitmask_congr
    {applyTokenBitmaskInplace : List Row → List Mask → Option (List ℕ) → List Row}
    (h : ∀ id, numSpecTokens workerOutput.scheduledSpecDecodeTokens id =
      numSpecTokens output.scheduledSpecDecodeTokens id) :
    applyGrammarBitmask full applyTokenBitmaskInplace workerOutput =
      applyGrammarBitmask full applyTokenBitmaskInplace output := by
  have hround : batchRound workerOutput.scheduledSpecDecodeTokens =
      batchRound output.scheduledSpecDecodeTokens := by
    funext ids b id
    unfold batchRound
    rw [h]
  have hsort : ∀ (indices : OrderedDict ρ ℕ) (bitmask : List Mask),
      sortRequest workerOutput.scheduledSpecDecodeTokens indices bitmask =
        sortRequest output.scheduledSpecDecodeTokens indices bitmask := by
    intro indices bitmask
    funext s id
    unfold sortRequest
    rw [h]
  unfold applyGrammarBitmask
  simp [hround, hsort]

theorem getElem?_flatMap_block {ids pre post : List ρ} {id : ρ} {j : ℕ}
    (hj : j ≤ (draftsOf spec id).length) :
    ((pre ++ id :: post).flatMap (block A full spec requests ids))[numRows spec pre + j]? =
      (block A full spec requests ids id)[j]? := by
  rw [flatMap_append, flatMap_cons, ← length_blocks A full spec requests ids,
    getElem?_append_right (by omega), Nat.add_sub_cancel_left,
    getElem?_append_left (by rw [length_block]; omega)]

/-- The rows of a request: what the automaton allows, or everything. -/
theorem getElem?_block (hstep : StepOk A m requests output start outputTokenIds) {id : ρ}
    {j : ℕ} (hj : j ≤ (draftsOf output.scheduledSpecDecodeTokens id).length) :
    (block A full output.scheduledSpecDecodeTokens requests
      (structuredOutputRequestIds requests output) id)[j]? =
      some (if id ∈ structuredOutputRequestIds requests output then
        allowedMask A full (start id) (outputTokenIds id)
          ((draftsOf output.scheduledSpecDecodeTokens id).take j) else full) := by
  unfold block
  split_ifs with hid
  · obtain ⟨request, hlookup, hfillable⟩ := hstep.fillable id hid
    obtain ⟨grammar, hgrammar, -⟩ := hfillable.grammar
    have hgrammarOf : grammarOf requests id = some grammar := by
      unfold grammarOf
      rw [hlookup, Option.bind_some, hgrammar]
    unfold rowsOf allowedMask requestRows
    rw [hgrammarOf, hstep.accepted id grammar hgrammarOf]
    simp [getElem?_range (lt_succ_of_le hj)]
  · simp [lt_succ_of_le hj]

/-- **The masks reach the right logits**: the bitmask is made without an error and leaves the grammars
as they were, whichever way the rows are filled, and the worker puts on each row of a structured
request the mask that its automaton allows after the drafts before that row, and nothing on the other
rows. -/
theorem masks_reach_logits (hm : TensorOk m) (order : FillOrder σ)
    (hstep : StepOk A m requests output start outputTokenIds) {applyMask : Mask → Row → Row}
    {applyTokenBitmaskInplace : List Row → List Mask → Option (List ℕ) → List Row}
    (hkernel : AppliesBitmask full applyMask applyTokenBitmaskInplace) {reqIds : List ρ}
    {logits : List Row} (hbatch : BatchOk output workerOutput reqIds logits) :
    ∃ grammarOutput, (∃ m' requests', getGrammarBitmask A full m order requests output =
          .ok (grammarOutput, m', requests') ∧ TensorOk m' ∧
        ∀ id, grammarOf requests' id = grammarOf requests id) ∧
      (∀ threshold order', ∃ m' requests',
        getGrammarBitmask A full { m with fillBitmaskParallelThreshold := threshold } order' requests
          output = .ok (grammarOutput, m', requests')) ∧
      ∃ logits', applyGrammarOutput full applyTokenBitmaskInplace workerOutput grammarOutput reqIds
          logits = .ok logits' ∧ logits'.length = logits.length ∧
        ∀ pre id post, reqIds = pre ++ id :: post →
          ∀ j ≤ (draftsOf output.scheduledSpecDecodeTokens id).length,
            logits'[numRows output.scheduledSpecDecodeTokens pre + j]? =
              logits[numRows output.scheduledSpecDecodeTokens pre + j]?.map (applyMask
                (if (grammarOf requests id).isSome = true then
                  allowedMask A full (start id) (outputTokenIds id)
                    ((draftsOf output.scheduledSpecDecodeTokens id).take j)
                else full)) := by
  refine ⟨grammarOutputOf A full requests output, getGrammarBitmask_eq full hm order hstep,
    fun threshold order' => ?_, ?_⟩
  · have hstep' : StepOk A { m with fillBitmaskParallelThreshold := threshold } requests output start
        outputTokenIds := ⟨hstep.maxNumSeqs, hstep.numSpeculativeTokens, fun id hid => by
      obtain ⟨request, hlookup, hshould, hgrammar⟩ := hstep.fillable id hid
      exact ⟨request, hlookup, hshould, hgrammar⟩, hstep.accepted⟩
    obtain ⟨m', requests', heq, -⟩ := getGrammarBitmask_eq full
      (m := { m with fillBitmaskParallelThreshold := threshold }) hm order' hstep'
    exact ⟨m', requests', heq⟩
  -- the worker applies the sorted masks to its rows
  · have happly : applyGrammarOutput full applyTokenBitmaskInplace workerOutput
        (grammarOutputOf A full requests output) reqIds logits = .ok (zipWith applyMask
          (reqIds.flatMap (block A full output.scheduledSpecDecodeTokens requests
            (structuredOutputRequestIds requests output))) logits) := by
      unfold grammarOutputOf
      dsimp only
      split_ifs with hnil
      · refine congrArg Except.ok (ext_getElem? fun i => ?_)
        rw [hnil]
        refine (hkernel.getElem?_of_full ((length_blocks _ _ _ _ _ _).trans hbatch.logits.symm)
          fun mask hmask => ?_).symm
        obtain ⟨id, -, hid⟩ := mem_flatMap.1 (mem_of_getElem? hmask)
        exact eq_of_mem_replicate hid
      · unfold applyGrammarOutput
        rw [applyGrammarBitmask_congr hbatch.numSpecTokens]
        exact applyGrammarBitmask_eq hkernel _ hbatch.nodup hbatch.logits
    refine ⟨_, happly, ?_, fun pre id post heq j hj => ?_⟩
    · rw [length_zipWith, length_blocks, hbatch.logits, min_self]
    · have hid := mem_structuredOutputRequestIds requests (hbatch.scheduled id (heq ▸ by simp))
      rw [getElem?_zipWith, heq, getElem?_flatMap_block hj, getElem?_block hstep hj]
      simp only [hid]
      cases logits[numRows output.scheduledSpecDecodeTokens pre + j]? <;> rfl

/-! ### Two requests -/

/-- The kernel, as it is documented. -/
def maskLogits (full : Mask) (applyMask : Mask → Row → Row) (logits : List Row) (bitmask : List Mask) :
    Option (List ℕ) → List Row
  | none => zipWith applyMask bitmask logits
  | some indices => logits.mapIdx fun i row =>
    if i ∈ indices then applyMask (bitmask.getD i full) row else row

theorem maskLogits_applies {applyMask : Mask → Row → Row} (h : ∀ row, applyMask full row = row) :
    AppliesBitmask full applyMask (maskLogits full applyMask) := by
  refine ⟨h, fun _ _ _ => rfl, fun logits bitmask indices hlength _ i => ?_⟩
  unfold maskLogits
  rw [getElem?_mapIdx, getElem?_zipWith, getD_eq_getElem?_getD]
  cases hrow : logits[i]? with
  | none => split_ifs <;> cases bitmask[i]? <;> rfl
  | some row =>
    split_ifs <;> simp [*]

/-- An automaton that allows the tokens 0 and 1, one after the other. -/
def countAutomaton : Automaton ℕ ℤ (Option ℤ) where
  accept s t := if t = s then some (s + 1) else none
  isTerminated s := decide (2 ≤ s)
  mask s := some s

/-- Only one token may be left. -/
def onlyToken : Option ℤ → List ℤ → List ℤ
  | none, row => row
  | some t, row => row.filter (· = t)

/-- The request 0 is structured and has a draft and padding; the request 1 is not. -/
def twoRequests : OrderedDict ℕ (Request ℕ) :=
  (insert 1 ⟨[], none⟩ ∅).insert 0 ⟨[], some ⟨⟨0, []⟩, none⟩⟩

/-- Both are scheduled. -/
def twoScheduled : SchedulerOutput ℕ where
  numScheduledTokens := (insert 0 3 ∅).insert 1 1
  scheduledSpecDecodeTokens := insert 0 [0, -1] ∅

/-- The batch has the other order: the row after the draft allows the token 1. -/
theorem masks_reach_logits_two : ∃ grammarOutput logits',
    (∃ m' requests', getGrammarBitmask countAutomaton none
      ⟨true, none, false, 2, some 2, 128, none⟩ ⟨fun l => l, fun l => .refl l⟩ twoRequests
      twoScheduled = .ok (grammarOutput, m', requests')) ∧
    applyGrammarOutput none (maskLogits none onlyToken) twoScheduled grammarOutput [1, 0]
      (.replicate 4 [0, 1, 2]) = .ok logits' ∧ logits'[2]? = some [1] := by
  have hm : TensorOk (⟨true, none, false, 2, some 2, 128, none⟩ :
    StructuredOutputManager (Option ℤ)) := rfl
  have hstep : StepOk countAutomaton ⟨true, none, false, 2, some 2, 128, none⟩ twoRequests
      twoScheduled (fun _ => 0) (fun _ => []) := by
    refine ⟨by decide, by decide, fun id hid => ?_, fun id grammar hgrammar => ?_⟩
    · obtain rfl : id = 0 := mem_singleton.1 hid
      exact ⟨_, rfl, ⟨_, rfl⟩, _, rfl, [0], 1, rfl, by decide, rfl⟩
    · unfold grammarOf twoRequests at hgrammar
      by_cases h₀ : id = 0
      · subst h₀
        cases hgrammar
        rfl
      · rw [lookup_insert_ne h₀] at hgrammar
        by_cases h₁ : id = 1
        · rw [h₁, lookup_insert] at hgrammar
          cases hgrammar
        · rw [lookup_insert_ne h₁] at hgrammar
          cases hgrammar
  have hkernel : AppliesBitmask none onlyToken (maskLogits none onlyToken) :=
    maskLogits_applies fun _ => rfl
  have hbatch : BatchOk twoScheduled twoScheduled [1, 0] (List.replicate 4 [(0 : ℤ), 1, 2]) :=
    ⟨by decide, by decide, fun _ => rfl, rfl⟩
  obtain ⟨grammarOutput, ⟨m', requests', hget, -⟩, -, logits', happly, -, hrow⟩ :=
    masks_reach_logits hm ⟨fun l => l, fun l => .refl l⟩ hstep hkernel hbatch
  exact ⟨grammarOutput, logits', ⟨m', requests', hget⟩, happly,
    (hrow [1] 0 [] rfl 1 (by decide)).trans (by decide)⟩

end LoptVllm.StructuredOutput
