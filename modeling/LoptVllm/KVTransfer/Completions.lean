import LoptVllm.KVTransfer.Workers
import Mathlib.Algebra.Order.BigOperators.Group.Finset
import Mathlib.Algebra.Order.Group.Int

/-!
# Every finished transfer is handed on once
-/

namespace LoptVllm.KVTransfer

open List Function OrderedDict Nat KVOutputAggregator ParallelConfig

variable {ι S E : Type*} [DecidableEq ι]

/-! ### Counting reports -/

/-- The requests that some of the `n` workers have reported, `k` of them, and others have not. -/
def Counts (n : ℕ) (d : OrderedDict ι ℤ) (k : ι → ℕ) : Prop :=
  ∀ id, d.lookup id = if 0 < k id ∧ k id < n then some ((n : ℤ) - k id) else none

theorem mem_setAdd {s : List ι} {a b : ι} : b ∈ setAdd s a ↔ b ∈ s ∨ b = a := by
  unfold setAdd
  split_ifs with h
  · exact ⟨.inl, fun hb => hb.elim id fun hb => hb ▸ h⟩
  · simp

variable {d : OrderedDict ι ℤ}

/-- A report is counted; the last one finishes the request. -/
theorem Counts.countReport {n : ℕ} {k : ι → ℕ} (h : Counts n d k) {a : ι} (ha : k a < n)
    (fin : List ι) : Counts n (countReport n (d, fin) a).1 (update k a (k a + 1)) ∧
      ∀ id, id ∈ (KVTransfer.countReport n (d, fin) a).2 ↔ id ∈ fin ∨ id = a ∧ k a + 1 = n := by
  have hremaining : (d.lookup a).getD (n : ℤ) = (n : ℤ) - k a := by
    rw [h]
    split_ifs with hk
    · rfl
    · rw [Option.getD_none]
      omega
  unfold KVTransfer.countReport
  dsimp only
  by_cases hlast : k a + 1 = n
  · rw [if_pos (by omega)]
    refine ⟨fun id => ?_, fun id => ?_⟩
    · rw [lookup_erase']
      by_cases hid : id = a
      · rw [if_pos hid, hid, update_self, if_neg (by omega)]
      · rw [if_neg hid, update_of_ne hid, h]
    · rw [mem_setAdd, and_iff_left hlast]
  · rw [if_neg (by omega)]
    refine ⟨fun id => ?_, fun id => ?_⟩
    · rw [lookup_setItem]
      by_cases hid : id = a
      · rw [if_pos hid, hid, update_self, if_pos (by omega)]
        exact congrArg some (by omega)
      · rw [if_neg hid, update_of_ne hid, h]
    · simp [hlast]

theorem Counts.foldl {n : ℕ} {k : ι → ℕ} (h : Counts n d k) {L : List ι}
    (hle : ∀ id, k id + L.count id ≤ n) (fin : List ι) :
    Counts n (L.foldl (KVTransfer.countReport n) (d, fin)).1 (fun id => k id + L.count id) ∧
      ∀ id, id ∈ (L.foldl (KVTransfer.countReport n) (d, fin)).2 ↔
        id ∈ fin ∨ id ∈ L ∧ k id + L.count id = n := by
  induction L generalizing d k fin with
  | nil => exact ⟨h, fun id => by simp⟩
  | cons a L ih =>
    have hka : k a < n := by
      have := hle a
      rw [count_cons_self] at this
      omega
    obtain ⟨hcounts, hfin⟩ := h.countReport hka fin
    have hstep : ∀ id, update k a (k a + 1) id + L.count id = k id + (a :: L).count id :=
      fun id => by
        by_cases hid : id = a
        · subst hid
          rw [update_self, count_cons_self]
          omega
        · rw [update_of_ne hid, count_cons_of_ne (Ne.symm hid)]
    obtain ⟨hcounts', hfin'⟩ := ih hcounts (fun id => by rw [hstep]; exact hle id)
      (KVTransfer.countReport n (d, fin) a).2
    rw [foldl_cons]
    refine ⟨?_, fun id => ?_⟩
    · rw [funext hstep] at hcounts'
      exact hcounts'
    · have := hle id
      rw [hfin', hfin, hstep]
      by_cases hid : id = a
      · subst hid
        rw [count_cons_self] at this ⊢
        by_cases hL : id ∈ L
        · have := count_pos_iff.2 hL
          simp only [hL, mem_cons, true_or]
          constructor
          · rintro ((h | h) | h)
            · exact .inl h
            · omega
            · exact .inr h
          · exact fun h => h.elim (fun h => .inl (.inl h)) .inr
        · have := count_eq_zero.2 hL
          simp [hL, false_and, or_false, mem_cons, this]
      · simp [hid]

/-! ### The outputs of all workers -/

variable (r : ConnectorReport ι S E)

/-- The requests a worker reports in one direction. -/
def sendingOf : List ι := r.finishedSending.getD []

def recvingOf : List ι := r.finishedRecving.getD []

/-- A worker's output has its report; one that is empty may be left out. -/
def Carries (output : Option (ModelRunnerOutput ι S E)) (r : ConnectorReport ι S E) : Prop :=
  ∃ m, output = some m ∧ (m.kvConnectorOutput = some r.output ∨
    m.kvConnectorOutput = none ∧ r.output.isEmpty = true)

omit [DecidableEq ι] in
theorem carries_passThrough (r : ConnectorReport ι S E) : Carries (some (passThrough r.output)) r := by
  refine ⟨_, rfl, ?_⟩
  unfold passThrough
  split_ifs with h
  · exact .inr ⟨rfl, h⟩
  · exact .inl rfl

omit [DecidableEq ι] in
theorem nil_of_isEmpty {r : ConnectorReport ι S E} (h : r.output.isEmpty = true) :
    sendingOf r = [] ∧ recvingOf r = [] ∧ r.blockIdsWithLoadErrors = [] := by
  unfold KVConnectorOutput.isEmpty falsy at h
  simp only [Bool.and_eq_true, List.isEmpty_iff] at h
  exact ⟨h.1.1.1.1, h.1.1.1.2, h.2⟩

/-- The accumulated values are those of the reports so far. -/
structure Gathered (aggregator : KVOutputAggregator ι) (reports : List (ConnectorReport ι S E))
    (acc : Accumulated ι S E) : Prop where
  expected : acc.aggregator.expectedFinishedCount = aggregator.expectedFinishedCount
  sending : (acc.aggregator.sendRemainingCount, acc.finishedSending) =
    (reports.flatMap sendingOf).foldl (countReport aggregator.expectedFinishedCount)
      (aggregator.sendRemainingCount, [])
  recving : (acc.aggregator.recvRemainingCount, acc.finishedRecving) =
    (reports.flatMap recvingOf).foldl (countReport aggregator.expectedFinishedCount)
      (aggregator.recvRemainingCount, [])
  invalid : ∀ b, b ∈ acc.invalidBlockIds ↔ ∃ r ∈ reports, b ∈ r.blockIdsWithLoadErrors

variable {telemetry : Telemetry S E} {aggregator : KVOutputAggregator ι}
  {reports : List (ConnectorReport ι S E)} {acc : Accumulated ι S E}

theorem Gathered.add (h : Gathered aggregator reports acc) (r : ConnectorReport ι S E) :
    Gathered aggregator (reports ++ [r]) (acc.add telemetry r.output) := by
  have hexpected : (if 0 < r.output.expectedFinishedCount ∧
      r.output.expectedFinishedCount ≠ acc.aggregator.expectedFinishedCount
      then r.output.expectedFinishedCount else acc.aggregator.expectedFinishedCount) =
      aggregator.expectedFinishedCount := by
    exact h.expected
  unfold Accumulated.add
  rw [hexpected]
  refine ⟨rfl, ?_, ?_, fun b => ?_⟩
  · rw [flatMap_append, foldl_append, ← h.sending, flatMap_singleton]
    rfl
  · rw [flatMap_append, foldl_append, ← h.recving, flatMap_singleton]
    rfl
  · rw [mem_union_iff, h.invalid]
    simp [ConnectorReport.output]

theorem Gathered.addOutput (h : Gathered aggregator reports acc)
    {output : Option (ModelRunnerOutput ι S E)} {r : ConnectorReport ι S E}
    (hr : Carries output r) :
    ∃ acc', acc.addOutput telemetry output = .ok acc' ∧ Gathered aggregator (reports ++ [r]) acc' := by
  obtain ⟨m, rfl, hkv | ⟨hkv, hempty⟩⟩ := hr
  · exact ⟨acc.add telemetry r.output, by simp only [Accumulated.addOutput, hkv], h.add r⟩
  · obtain ⟨hsending, hrecving, hinvalid⟩ := nil_of_isEmpty hempty
    refine ⟨acc, by simp only [Accumulated.addOutput, hkv], h.expected, ?_, ?_, fun b => ?_⟩
    · rw [h.sending, flatMap_append, flatMap_singleton, hsending, append_nil]
    · rw [h.recving, flatMap_append, flatMap_singleton, hrecving, append_nil]
    · rw [h.invalid]
      simp [hinvalid]

variable {outputs : List (Option (ModelRunnerOutput ι S E))}

theorem Gathered.foldlM (hcarries : outputs.Forall₂ Carries reports) :
    ∀ {done : List (ConnectorReport ι S E)} {acc : Accumulated ι S E}, Gathered aggregator done acc →
      ∃ acc', outputs.foldlM (Accumulated.addOutput telemetry) acc = .ok acc' ∧
        Gathered aggregator (done ++ reports) acc' := by
  induction hcarries with
  | nil => exact fun {_} {acc} h => ⟨acc, rfl, by simpa using h⟩
  | @cons output r outputs reports hr _ ih =>
    intro done acc h
    obtain ⟨acc₁, hacc₁, h₁⟩ := @Gathered.addOutput ι S E _ telemetry _ _ _ h _ _ hr
    obtain ⟨acc', hacc', h'⟩ := ih h₁
    refine ⟨acc', ?_, by simpa using h'⟩
    rw [foldlM_cons, hacc₁]
    exact hacc'

omit [DecidableEq ι] in
theorem orNone_getD (s : List ι) : (orNone s).getD [] = s := by
  cases s <;> rfl

/-- The aggregated output, when all outputs have the reports. -/
theorem aggregate_spec (hcarries : outputs.Forall₂ Carries reports) {outputRank : ℕ}
    (hrank : outputRank < outputs.length) :
    ∃ kv aggregator', aggregator.aggregate telemetry outputs outputRank =
        .ok (some ⟨some kv⟩, aggregator') ∧
      aggregator'.expectedFinishedCount = aggregator.expectedFinishedCount ∧
      (aggregator'.sendRemainingCount, kv.finishedSending.getD []) =
        (reports.flatMap sendingOf).foldl (countReport aggregator.expectedFinishedCount)
          (aggregator.sendRemainingCount, []) ∧
      (aggregator'.recvRemainingCount, kv.finishedRecving.getD []) =
        (reports.flatMap recvingOf).foldl (countReport aggregator.expectedFinishedCount)
          (aggregator.recvRemainingCount, []) ∧
      ∀ b, b ∈ kv.invalidBlockIds ↔ ∃ r ∈ reports, b ∈ r.blockIdsWithLoadErrors := by
  have hnew : Gathered aggregator ([] : List (ConnectorReport ι S E))
      ⟨aggregator, [], [], none, none, []⟩ := ⟨rfl, rfl, rfl, by simp⟩
  obtain ⟨acc, hacc, hgathered⟩ := @Gathered.foldlM ι S E _ telemetry _ _ _ hcarries _ _ hnew
  obtain ⟨m, hm⟩ : ∃ m, outputs[outputRank]? = some (some m) := by
    obtain ⟨hlen, hget⟩ := forall₂_iff_get.1 hcarries
    obtain ⟨m, hm, -⟩ := hget outputRank hrank (hlen ▸ hrank)
    exact ⟨m, by rw [getElem?_eq_getElem hrank]; exact congrArg some hm⟩
  refine ⟨{
    finishedSending := orNone acc.finishedSending
    finishedRecving := orNone acc.finishedRecving
    kvConnectorStats := acc.aggregatedKvConnectorStats
    kvCacheEvents := acc.combinedKvCacheEvents
    invalidBlockIds := acc.invalidBlockIds
    expectedFinishedCount := acc.aggregator.expectedFinishedCount }, acc.aggregator, ?_,
    hgathered.expected, ?_, ?_, hgathered.invalid⟩
  · rw [aggregate, hm]
    simp only [hacc]
    rfl
  · exact (congrArg _ (orNone_getD _)).trans hgathered.sending
  · exact (congrArg _ (orNone_getD _)).trans hgathered.recving

/-! ### One step -/

/-- A step of a pooling model that schedules tokens has one pipeline stage. -/
def Handled (cfg : ParallelConfig) (input : StepInput ι S E) : Prop :=
  cfg.isPoolingModel = true → 0 < input.totalNumScheduledTokens → cfg.pipelineParallelSize = 1

/-- Between the steps no worker has anything left to sample or parked. -/
def AtRest (cfg : ParallelConfig) (e : Engine ι S E) : Prop :=
  e.workers = replicate cfg.worldSize .new

section Ranks

variable (cfg : ParallelConfig)

theorem stageSize_pos : 0 < cfg.stageSize :=
  Nat.mul_pos cfg.tensorParallelSize_pos cfg.prefillContextParallelSize_pos

theorem worldSize_eq : cfg.worldSize = (cfg.pipelineParallelSize - 1) * cfg.stageSize + cfg.stageSize := by
  have := cfg.pipelineParallelSize_pos
  rw [worldSize, ← succ_mul, succ_eq_add_one, Nat.sub_add_cancel this]

theorem outputRank_eq : cfg.outputRank = (cfg.pipelineParallelSize - 1) * cfg.stageSize := by
  rw [outputRank, worldSize_eq, stageSize, Nat.add_sub_cancel]

theorem outputRank_lt : cfg.outputRank < cfg.worldSize := by
  have := stageSize_pos cfg
  rw [outputRank_eq, worldSize_eq]
  omega

variable {cfg} in
theorem isLastRank_of_one (h : cfg.pipelineParallelSize = 1) {rank : ℕ} (hr : rank < cfg.worldSize) :
    cfg.isLastRank rank = true := by
  rw [worldSize, h, one_mul] at hr
  rw [isLastRank, h, div_eq_of_lt hr]
  exact decide_eq_true rfl

end Ranks

/-- The reports of a step, by rank. -/
def reportsOf (cfg : ParallelConfig) (input : StepInput ι S E) : List (ConnectorReport ι S E) :=
  (range cfg.worldSize).map input.report

theorem zipIdx_replicate {α : Type*} (n : ℕ) (a : α) :
    (replicate n a).zipIdx = (range n).map fun i => (a, i) :=
  ext_getElem (by simp) fun i _ _ => by simp

variable {cfg : ParallelConfig} {e : Engine ι S E} {input : StepInput ι S E}

theorem executeModel_eq (he : AtRest cfg e)
    {g : ℕ → Option (ModelRunnerOutput ι S E) × Worker ι S E}
    (hg : ∀ rank < cfg.worldSize, Worker.new.executeModel cfg rank input.totalNumScheduledTokens
      (input.report rank) = .ok (g rank)) : e.executeModel telemetry cfg input =
      e.rpc telemetry cfg ((range cfg.worldSize).map g) := by
  have hmap : (e.workers.zipIdx.mapM fun p =>
      p.1.executeModel cfg p.2 input.totalNumScheduledTokens (input.report p.2)) =
      .ok ((range cfg.worldSize).map g) := by
    rw [he, zipIdx_replicate, mapM_eq_ok, forall₂_map_left_iff, forall₂_map_right_iff, forall₂_same]
    exact fun rank hrank => hg rank (mem_range.1 hrank)
  rw [Engine.executeModel, hmap]
  rfl

/-- A call in which every worker replies with its report and is left at rest. -/
theorem rpc_eq {g : ℕ → Option (ModelRunnerOutput ι S E)} {m : ModelRunnerOutput ι S E}
    {aggregator' : KVOutputAggregator ι}
    (hagg : e.aggregator.aggregate telemetry ((range cfg.worldSize).map g) cfg.outputRank =
      .ok (some m, aggregator')) :
    e.rpc telemetry cfg ((range cfg.worldSize).map fun rank => (g rank, .new)) =
      .ok (some m, ⟨replicate cfg.worldSize .new, aggregator'⟩) := by
  have hfst : ((range cfg.worldSize).map fun rank => (g rank, (.new : Worker ι S E))).map
      Prod.fst = (range cfg.worldSize).map g := by
    rw [map_map]
    rfl
  have hsnd : ((range cfg.worldSize).map fun rank => (g rank, (.new : Worker ι S E))).map
      Prod.snd = replicate cfg.worldSize .new := by
    exact ext_getElem (by simp) fun i _ _ => by simp
  rw [Engine.rpc, hfst, hsnd, hagg]
  rfl

omit [DecidableEq ι] in
@[simp] theorem new_executeModelState : (Worker.new : Worker ι S E).executeModelState = false := rfl

section Step

variable (he : AtRest cfg e) {g : ℕ → Option (ModelRunnerOutput ι S E)}
  {m : ModelRunnerOutput ι S E} {aggregator' : KVOutputAggregator ι}
  (hagg : e.aggregator.aggregate telemetry ((range cfg.worldSize).map g) cfg.outputRank =
    .ok (some m, aggregator'))
include he hagg

theorem step_of_executeModel
    (hnoSample : cfg.isPoolingModel = true ∨ input.totalNumScheduledTokens = 0)
    (hg : ∀ rank < cfg.worldSize, Worker.new.executeModel cfg rank input.totalNumScheduledTokens
      (input.report rank) = .ok (g rank, .new)) :
    e.step telemetry cfg input = .ok (some m, ⟨replicate cfg.worldSize .new, aggregator'⟩) := by
  rw [Engine.step, executeModel_eq he hg, rpc_eq hagg]
  unfold Engine.finish
  split_ifs <;> rfl

/-- The reports are parked, and come with `sample_tokens`. -/
theorem step_of_sampleTokens (hgeneration : cfg.isPoolingModel = false)
    (htokens : input.totalNumScheduledTokens ≠ 0) {w : ℕ → Worker ι S E}
    (hparked : ∀ rank < cfg.worldSize, Worker.new.executeModel cfg rank
      input.totalNumScheduledTokens (input.report rank) = .ok (none, w rank))
    (hg : ∀ rank, (w rank).sampleTokens = (g rank, .new)) :
    e.step telemetry cfg input = .ok (some m, ⟨replicate cfg.worldSize .new, aggregator'⟩) := by
  -- the output rank gives nothing yet, so the aggregator is left alone
  have hnone : e.aggregator.aggregate telemetry
      (((range cfg.worldSize).map fun rank =>
        ((none : Option (ModelRunnerOutput ι S E)), w rank)).map Prod.fst) cfg.outputRank =
      .ok (none, e.aggregator) := by
    rw [aggregate, map_map, getElem?_map, getElem?_range (outputRank_lt cfg)]
    rfl
  have hexecute : e.executeModel telemetry cfg input =
      .ok (none, ⟨(range cfg.worldSize).map w, e.aggregator⟩) := by
    rw [executeModel_eq he hparked, Engine.rpc, hnone, map_map]
    rfl
  have hsample : Engine.sampleTokens telemetry cfg
      ⟨(range cfg.worldSize).map w, e.aggregator⟩ =
      .ok (some m, ⟨replicate cfg.worldSize .new, aggregator'⟩) := by
    have hsampled : ((range cfg.worldSize).map w).map Worker.sampleTokens =
        (range cfg.worldSize).map fun rank => (g rank, .new) := by
      rw [map_map]
      exact map_congr_left fun rank _ => hg rank
    rw [Engine.sampleTokens, hsampled]
    exact @rpc_eq ι S E _ telemetry cfg ⟨_, e.aggregator⟩ g m aggregator' hagg
  have hsamples : ¬(cfg.isPoolingModel = true ∨ input.totalNumScheduledTokens = 0) := by
    simp [hgeneration, htokens]
  rw [Engine.step, hexecute]
  show Engine.finish telemetry cfg input (none, _) = _
  unfold Engine.finish
  rw [if_neg hsamples, hsample]
  split_ifs <;> rfl

end Step

/-- In a step the aggregator gets the reports of all workers once, and its output goes to the
scheduler. -/
theorem step_spec (he : AtRest cfg e) (hinput : Handled cfg input) :
    ∃ g : ℕ → Option (ModelRunnerOutput ι S E),
      (∀ rank < cfg.worldSize, Carries (g rank) (input.report rank)) ∧
      ∀ m aggregator', e.aggregator.aggregate telemetry ((range cfg.worldSize).map g)
          cfg.outputRank = .ok (some m, aggregator') → e.step telemetry cfg input =
          .ok (some m, ⟨replicate cfg.worldSize .new, aggregator'⟩) := by
  by_cases htokens : input.totalNumScheduledTokens = 0
  · refine ⟨fun rank => some (passThrough (input.report rank).output),
      fun rank _ => carries_passThrough _, fun m aggregator' hagg =>
        step_of_executeModel he hagg (.inr htokens) (fun rank _ => ?_)⟩
    rw [Worker.executeModel, new_executeModelState, if_neg Bool.false_ne_true, if_pos htokens]
  · cases hpooling : cfg.isPoolingModel with
    | true =>
      have hone := hinput hpooling (pos_of_ne_zero htokens)
      refine ⟨fun rank => some ⟨some (input.report rank).output⟩, fun rank _ => ⟨_, rfl, .inl rfl⟩,
        fun m aggregator' hagg =>
          step_of_executeModel he hagg (.inl hpooling) (fun rank hrank => ?_)⟩
      rw [Worker.executeModel, new_executeModelState, if_neg Bool.false_ne_true, if_neg htokens,
        isLastRank_of_one hone hrank, if_neg (by decide), if_pos hpooling]
    | false =>
      let w : ℕ → Worker ι S E := fun rank =>
        ⟨cfg.isLastRank rank, some (input.report rank).output⟩
      have hparked : ∀ rank < cfg.worldSize, Worker.new.executeModel cfg rank
          input.totalNumScheduledTokens (input.report rank) = .ok (none, w rank) := fun rank _ => by
        rw [Worker.executeModel, new_executeModelState, if_neg Bool.false_ne_true, if_neg htokens,
          hpooling]
        simp only [w]
        cases cfg.isLastRank rank <;> rfl
      refine ⟨fun rank => (w rank).sampleTokens.1, fun rank _ => ?_, fun m aggregator' hagg =>
        step_of_sampleTokens he hagg hpooling htokens hparked (fun rank => ?_)⟩
      · simp only [w]
        cases cfg.isLastRank rank with
        | true => exact ⟨_, rfl, .inl rfl⟩
        | false => exact carries_passThrough _
      · simp only [w]
        cases cfg.isLastRank rank <;> rfl

/-! ### Whole runs -/

section Reports

variable (cfg) (sel : ConnectorReport ι S E → List ι) (inputs : List (StepInput ι S E))

/-- The reports of all workers in a direction. -/
def reported : List ι := inputs.flatMap fun input => (reportsOf cfg input).flatMap sel

/-- The reports of one worker. -/
def reportedBy (w : ℕ) : List ι := inputs.flatMap fun input => sel (input.report w)

/-- A worker reports a request at most once. -/
def ReportsOnce : Prop := ∀ w < cfg.worldSize, ∀ id, (reportedBy sel inputs w).count id ≤ 1

variable {cfg sel inputs}

/-- The reports can be counted by worker. -/
theorem count_reported (id : ι) : (reported cfg sel inputs).count id =
    ∑ w ∈ Finset.range cfg.worldSize, (reportedBy sel inputs w).count id := by
  induction inputs with
  | nil => simp [reported, reportedBy]
  | cons input inputs ih =>
    have hstep : ((reportsOf cfg input).flatMap sel).count id =
        ∑ w ∈ Finset.range cfg.worldSize, (sel (input.report w)).count id := by
      rw [reportsOf, flatMap_map, count_flatMap]
      rfl
    rw [reported, flatMap_cons, count_append, hstep, ← reported, ih, ← Finset.sum_add_distrib]
    refine Finset.sum_congr rfl fun w _ => ?_
    rw [reportedBy, reportedBy, flatMap_cons, count_append]

theorem ReportsOnce.count_le (h : ReportsOnce cfg sel inputs) (id : ι) :
    (reported cfg sel inputs).count id ≤ cfg.worldSize := by
  rw [count_reported]
  calc ∑ w ∈ Finset.range cfg.worldSize, (reportedBy sel inputs w).count id
      ≤ ∑ _w ∈ Finset.range cfg.worldSize, 1 :=
        Finset.sum_le_sum fun w hw => h w (Finset.mem_range.1 hw) id
    _ = cfg.worldSize := by simp

/-- As many reports as workers: every worker has reported the request. -/
theorem ReportsOnce.count_eq_iff (h : ReportsOnce cfg sel inputs) (id : ι) :
    (reported cfg sel inputs).count id = cfg.worldSize ↔
      ∀ w < cfg.worldSize, id ∈ reportedBy sel inputs w := by
  have hones : ∑ _w ∈ Finset.range cfg.worldSize, 1 = cfg.worldSize := by simp
  have hiff := Finset.sum_eq_sum_iff_of_le fun w hw => h w (Finset.mem_range.1 hw) id
  rw [hones] at hiff
  rw [count_reported, hiff]
  constructor
  · intro heq w hw
    exact count_pos_iff.1 (by rw [heq w (Finset.mem_range.2 hw)]; exact one_pos)
  · intro hmem w hw
    have hle := h w (Finset.mem_range.1 hw) id
    have hpos := count_pos_iff.2 (hmem w (Finset.mem_range.1 hw))
    omega

omit [DecidableEq ι] in
theorem reportedBy_append (inputs' : List (StepInput ι S E)) (w : ℕ) :
    reportedBy sel (inputs ++ inputs') w = reportedBy sel inputs w ++ reportedBy sel inputs' w :=
  flatMap_append

theorem ReportsOnce.append_left {inputs' : List (StepInput ι S E)}
    (h : ReportsOnce cfg sel (inputs ++ inputs')) : ReportsOnce cfg sel inputs := by
  intro w hw id
  have := h w hw id
  rw [reportedBy_append, count_append] at this
  omega

end Reports

/-- The requests of a step that all workers have reported by then, one of them in the step. -/
def LastReported (cfg : ParallelConfig) (sel : ConnectorReport ι S E → List ι)
    (history : List (StepInput ι S E)) (input : StepInput ι S E) (id : ι) : Prop :=
  (∃ w < cfg.worldSize, id ∈ sel (input.report w)) ∧
    ∀ w < cfg.worldSize, id ∈ reportedBy sel history w

variable {sel : ConnectorReport ι S E → List ι} {done : List (StepInput ι S E)}

/-- One direction of a step. -/
theorem Counts.step (hcounts : Counts cfg.worldSize d fun id => (reported cfg sel done).count id)
    (honce : ReportsOnce cfg sel (done ++ [input])) {d' : OrderedDict ι ℤ} {fin : List ι}
    (hfold : (d', fin) =
      ((reportsOf cfg input).flatMap sel).foldl (KVTransfer.countReport cfg.worldSize) (d, [])) :
    (Counts cfg.worldSize d' fun id => (reported cfg sel (done ++ [input])).count id) ∧
      ∀ id, id ∈ fin ↔ LastReported cfg sel (done ++ [input]) input id := by
  have hsum : ∀ id, (reported cfg sel done).count id +
      ((reportsOf cfg input).flatMap sel).count id =
        (reported cfg sel (done ++ [input])).count id := fun id => by
    rw [reported, reported, flatMap_append, count_append, flatMap_singleton]
  obtain ⟨hcounts', hfin⟩ := hcounts.foldl (fun id => by rw [hsum]; exact honce.count_le id) []
  rw [← hfold] at hcounts' hfin
  refine ⟨?_, fun id => ?_⟩
  · rw [funext hsum] at hcounts'
    exact hcounts'
  · have hmem : id ∈ (reportsOf cfg input).flatMap sel ↔
        ∃ w < cfg.worldSize, id ∈ sel (input.report w) := by
      simp [reportsOf]
    rw [hfin, hsum, honce.count_eq_iff, hmem]
    simp [not_mem_nil, false_or, LastReported]

/-- The report that the scheduler gets with the output of a step. -/
def Delivered (outputs : List (Option (ModelRunnerOutput ι S E))) (t : ℕ)
    (kv : KVConnectorOutput ι S E) : Prop :=
  outputs[t]? = some (some ⟨some kv⟩)

/-- What is in it, after the steps before. -/
structure Completes (cfg : ParallelConfig) (history : List (StepInput ι S E))
    (input : StepInput ι S E) (kv : KVConnectorOutput ι S E) : Prop where
  sending : ∀ id, id ∈ kv.finishedSending.getD [] ↔ LastReported cfg sendingOf history input id
  recving : ∀ id, id ∈ kv.finishedRecving.getD [] ↔ LastReported cfg recvingOf history input id
  invalid : ∀ b, b ∈ kv.invalidBlockIds ↔
    ∃ w < cfg.worldSize, b ∈ (input.report w).blockIdsWithLoadErrors

/-- The engine after the steps so far. -/
structure Engine.Counted (cfg : ParallelConfig) (done : List (StepInput ι S E)) (e : Engine ι S E) :
    Prop where
  atRest : AtRest cfg e
  expected : e.aggregator.expectedFinishedCount = cfg.worldSize
  sending : Counts cfg.worldSize e.aggregator.sendRemainingCount fun id =>
    (reported cfg sendingOf done).count id
  recving : Counts cfg.worldSize e.aggregator.recvRemainingCount fun id =>
    (reported cfg recvingOf done).count id

theorem counted_new : (Engine.new cfg : Engine ι S E).Counted cfg [] :=
  ⟨rfl, rfl, fun id => by simp [reported, Engine.new, new],
    fun id => by simp [reported, Engine.new, new]⟩

theorem Engine.Counted.step (h : e.Counted cfg done)
    (hinput : Handled cfg input) (hsend : ReportsOnce cfg sendingOf (done ++ [input]))
    (hrecv : ReportsOnce cfg recvingOf (done ++ [input])) :
    ∃ kv e', e.step telemetry cfg input = .ok (some ⟨some kv⟩, e') ∧
      e'.Counted cfg (done ++ [input]) ∧ Completes cfg (done ++ [input]) input kv := by
  obtain ⟨g, hcarries, hstep⟩ := @step_spec ι S E _ telemetry cfg e input h.atRest hinput
  have hforall : ((range cfg.worldSize).map g).Forall₂ Carries (reportsOf cfg input) := by
    rw [reportsOf, forall₂_map_left_iff, forall₂_map_right_iff, forall₂_same]
    exact fun rank hrank => hcarries rank (mem_range.1 hrank)
  have hlen : cfg.outputRank < ((range cfg.worldSize).map g).length := by
    rw [length_map, length_range]
    exact outputRank_lt cfg
  obtain ⟨kv, aggregator', hagg, hexpected, hsending, hrecving, hinvalid⟩ :=
    @aggregate_spec ι S E _ telemetry e.aggregator _ _ hforall _ hlen
  rw [h.expected] at hexpected hsending hrecving
  obtain ⟨hcountSend, hfinSend⟩ := h.sending.step hsend hsending
  obtain ⟨hcountRecv, hfinRecv⟩ := h.recving.step hrecv hrecving
  refine ⟨kv, _, hstep _ _ hagg, ⟨rfl, hexpected, hcountSend, hcountRecv⟩, hfinSend, hfinRecv,
    fun b => ?_⟩
  rw [hinvalid]
  simp [reportsOf]

variable {inputs : List (StepInput ι S E)}

/-- The steps that follow `done`. -/
theorem Engine.Counted.run:
    ∀ {done : List (StepInput ι S E)} {e : Engine ι S E}, e.Counted cfg done →
      (∀ input ∈ inputs, Handled cfg input) → ReportsOnce cfg sendingOf (done ++ inputs) →
      ReportsOnce cfg recvingOf (done ++ inputs) →
      ∃ outputs e', e.run telemetry cfg inputs = .ok (outputs, e') ∧
        outputs.length = inputs.length ∧
        ∀ t input, inputs[t]? = some input → ∃ kv, Delivered outputs t kv ∧
          Completes cfg (done ++ inputs.take (t + 1)) input kv := by
  induction inputs with
  | nil => exact fun {_} {e} _ _ _ _ => ⟨[], e, rfl, rfl, by simp⟩
  | cons input inputs ih =>
    intro done e h hinputs hsend hrecv
    rw [append_cons] at hsend hrecv
    obtain ⟨kv, e₁, hstep, h₁, hcompletes⟩ := @Engine.Counted.step ι S E _ telemetry cfg e input
      done h (hinputs _ (.head _)) hsend.append_left hrecv.append_left
    obtain ⟨outputs, e', hrun, hlen, hall⟩ :=
      ih h₁ (fun i hi => hinputs i (.tail _ hi)) hsend hrecv
    refine ⟨some ⟨some kv⟩ :: outputs, e', ?_, by simp [hlen], ?_⟩
    · rw [Engine.run, hstep]
      show Except.bind (Engine.run telemetry cfg e₁ inputs) _ = _
      rw [hrun]
      rfl
    · intro t input' ht
      cases t with
      | zero =>
        obtain rfl : input = input' := by simpa using ht
        exact ⟨kv, rfl, hcompletes⟩
      | succ t =>
        obtain ⟨kv', hkv', hcompletes'⟩ := hall t input' (by simpa using ht)
        refine ⟨kv', by simpa [Delivered] using hkv', ?_⟩
        rw [take_succ_cons, append_cons]
        exact hcompletes'

omit [DecidableEq ι] in
/-- The steps up to one of them. -/
theorem reportedBy_take_succ {t : ℕ} (ht : inputs[t]? = some input) (w : ℕ) :
    reportedBy sel (inputs.take (t + 1)) w =
      reportedBy sel (inputs.take t) w ++ sel (input.report w) := by
  rw [take_add_one, ht, Option.toList_some, reportedBy_append]
  exact congrArg _ (flatMap_singleton _ _)

variable {id : ι}

/-- When all workers have reported a request, no later step completes it. -/
theorem ReportsOnce.not_lastReported (honce : ReportsOnce cfg sel inputs) {t : ℕ}
    (hall : ∀ w < cfg.worldSize, id ∈ reportedBy sel (inputs.take t) w)
    (ht : inputs[t]? = some input) : ¬LastReported cfg sel (inputs.take (t + 1)) input id := by
  rintro ⟨⟨w, hw, hid⟩, -⟩
  have hle : (reportedBy sel (inputs.take (t + 1)) w).count id ≤ 1 := by
    rw [← take_append_drop (t + 1) inputs] at honce
    exact honce.append_left w hw id
  rw [reportedBy_take_succ ht, count_append] at hle
  have hearlier := count_pos_iff.2 (hall w hw)
  have hnow := count_pos_iff.2 hid
  omega

omit [DecidableEq ι] in
theorem reportedBy_take_mono {s t : ℕ} (hst : s ≤ t) {w : ℕ}
    (h : id ∈ reportedBy sel (inputs.take s) w) : id ∈ reportedBy sel (inputs.take t) w := by
  have hsub : inputs.take s ⊆ inputs.take t := (take_sublist_take_left hst).subset
  obtain ⟨input, hinput, hid⟩ := mem_flatMap.1 h
  exact mem_flatMap.2 ⟨input, hsub hinput, hid⟩

/-- A request that all workers report has one step that completes it. -/
theorem existsUnique_lastReported (honce : ReportsOnce cfg sel inputs)
    (hall : ∀ w < cfg.worldSize, id ∈ reportedBy sel inputs w) :
    ∃! t, ∃ input, inputs[t]? = some input ∧
      LastReported cfg sel (inputs.take (t + 1)) input id := by
  have hends : ∃ t, ∀ w < cfg.worldSize, id ∈ reportedBy sel (inputs.take t) w :=
    ⟨inputs.length, by rwa [take_length]⟩
  -- the first moment at which all workers have reported it
  have hfirst := Nat.find_spec hends
  have hleast := fun t => @Nat.find_min' _ _ hends t
  generalize Nat.find hends = first at hfirst hleast
  obtain _ | t := first
  · have := hfirst _ (outputRank_lt cfg)
    simp [reportedBy] at this
  obtain ⟨w, hw, hnot⟩ : ∃ w < cfg.worldSize, id ∉ reportedBy sel (inputs.take t) w := by
    by_contra hnone
    push Not at hnone
    exact absurd (hleast t hnone) (by omega)
  have hlt : t < inputs.length := by
    by_contra hge
    refine hnot ?_
    have hw' := hfirst w hw
    rwa [take_of_length_le (by omega)] at hw' ⊢
  have ht : inputs[t]? = some inputs[t] := getElem?_eq_getElem hlt
  refine ⟨t, ⟨_, ht, ⟨w, hw, ?_⟩, hfirst⟩, fun t' ht' => ?_⟩
  · have hw' := hfirst w hw
    rw [reportedBy_take_succ ht, mem_append] at hw'
    exact hw'.resolve_left hnot
  · obtain ⟨input', hinput', hlast⟩ := ht'
    have hge := hleast _ hlast.2
    by_contra hne
    refine honce.not_lastReported (fun w hw => ?_) hinput' hlast
    exact reportedBy_take_mono (by omega) (hfirst w hw)

/-- The step of a run that hands a request on. -/
theorem existsUnique_completes (hlen : outputs.length = inputs.length)
    {finished : KVConnectorOutput ι S E → List ι}
    (hall : ∀ t input, inputs[t]? = some input → ∃ kv, Delivered outputs t kv ∧
      ∀ id, id ∈ finished kv ↔ LastReported cfg sel (inputs.take (t + 1)) input id)
    (honce : ReportsOnce cfg sel inputs) (hid : ∀ w < cfg.worldSize, id ∈ reportedBy sel inputs w) :
    ∃! t, ∃ kv, Delivered outputs t kv ∧ id ∈ finished kv := by
  refine (existsUnique_congr fun t => ?_).2 (existsUnique_lastReported honce hid)
  constructor
  · rintro ⟨kv, hkv, hmem⟩
    have hlt : t < inputs.length := hlen ▸ (List.getElem?_eq_some_iff.1 hkv).1
    have ht : inputs[t]? = some inputs[t] := getElem?_eq_getElem hlt
    obtain ⟨kv', hkv', hiff⟩ := hall t _ ht
    obtain rfl : kv = kv' := by
      rw [Delivered] at hkv hkv'
      simpa [hkv] using hkv'
    exact ⟨_, ht, (hiff id).1 hmem⟩
  · rintro ⟨input, hinput, hlast⟩
    obtain ⟨kv, hkv, hiff⟩ := hall t input hinput
    exact ⟨kv, hkv, (hiff id).2 hlast⟩

/-- No step of a run fails, and each gives the scheduler the requests whose last worker reports them
in it, and the blocks that some worker failed to load: a request is handed on once. -/
theorem completions_once (telemetry : Telemetry S E) (cfg : ParallelConfig)
    (inputs : List (StepInput ι S E)) (hinputs : ∀ input ∈ inputs, Handled cfg input)
    (hsend : ReportsOnce cfg sendingOf inputs) (hrecv : ReportsOnce cfg recvingOf inputs) :
    ∃ outputs e, (Engine.new cfg).run telemetry cfg inputs = .ok (outputs, e) ∧
      outputs.length = inputs.length ∧
      (∀ t input, inputs[t]? = some input → ∃ kv, Delivered outputs t kv ∧
        Completes cfg (inputs.take (t + 1)) input kv) ∧
      (∀ id, (∀ w < cfg.worldSize, id ∈ reportedBy sendingOf inputs w) → ∃! t, ∃ kv,
        Delivered outputs t kv ∧ id ∈ kv.finishedSending.getD []) ∧
      ∀ id, (∀ w < cfg.worldSize, id ∈ reportedBy recvingOf inputs w) → ∃! t, ∃ kv,
        Delivered outputs t kv ∧ id ∈ kv.finishedRecving.getD [] := by
  obtain ⟨outputs, e, hrun, hlen, hall⟩ :=
    @Engine.Counted.run ι S E _ telemetry cfg inputs _ _ counted_new hinputs hsend hrecv
  refine ⟨outputs, e, hrun, hlen, hall, fun id hid => ?_, fun id hid => ?_⟩
  · refine existsUnique_completes hlen (fun t input ht => ?_) hsend hid
    obtain ⟨kv, hkv, hcompletes⟩ := hall t input ht
    exact ⟨kv, hkv, hcompletes.sending⟩
  · refine existsUnique_completes hlen (fun t input ht => ?_) hrecv hid
    obtain ⟨kv, hkv, hcompletes⟩ := hall t input ht
    exact ⟨kv, hkv, hcompletes.recving⟩

/-! ### Two pipeline stages -/

def unitTelemetry : Telemetry Unit Unit := ⟨fun _ _ => (), fun _ _ => ()⟩

/-- Two workers, one for each stage. -/
def twoStages (isPoolingModel : Bool) : ParallelConfig where
  tensorParallelSize := 1
  prefillContextParallelSize := 1
  pipelineParallelSize := 2
  isPoolingModel := isPoolingModel
  batchQueue := true
  tensorParallelSize_pos := one_pos
  prefillContextParallelSize_pos := one_pos
  pipelineParallelSize_pos := Nat.two_pos

/-- One of the workers has sent the blocks of the request `7`. -/
def sentBy (rank totalNumScheduledTokens : ℕ) : StepInput ℕ Unit Unit :=
  ⟨totalNumScheduledTokens, fun r => ⟨if r = rank then some [7] else none, none, [], none, none⟩⟩

/-- The second worker reports the request in a step without tokens. -/
theorem completions_once_twoStages : ∃ outputs e,
    (Engine.new (twoStages false)).run unitTelemetry (twoStages false)
      [sentBy 0 5, sentBy 1 0] = .ok (outputs, e) ∧
    ∃! t, ∃ kv, Delivered outputs t kv ∧ 7 ∈ kv.finishedSending.getD [] := by
  have hsend : ∀ w < (twoStages false).worldSize,
      (reportedBy sendingOf [sentBy 0 5, sentBy 1 0] w).Nodup := by decide
  have hrecv : ∀ w < (twoStages false).worldSize,
      (reportedBy recvingOf [sentBy 0 5, sentBy 1 0] w).Nodup := by decide
  obtain ⟨outputs, e, hrun, -, -, hunique, -⟩ := completions_once unitTelemetry
    (twoStages false) [sentBy 0 5, sentBy 1 0] (fun _ _ h => absurd h (by decide))
    (fun w hw _ => nodup_iff_count_le_one.1 (hsend w hw) _)
    (fun w hw _ => nodup_iff_count_le_one.1 (hrecv w hw) _)
  exact ⟨outputs, e, hrun, hunique 7 (by decide)⟩

/-- A pooling model: the first stage gives nothing and the last one its output, and the assertion
in `aggregate` fails. -/
theorem twoStages_pooling_assertion :
    (∀ w < (twoStages true).worldSize, (reportedBy sendingOf [sentBy 0 5] w).Nodup ∧
      (reportedBy recvingOf [sentBy 0 5] w).Nodup) ∧
    (Engine.new (twoStages true)).run unitTelemetry (twoStages true)
      [sentBy 0 5] = .error (.assertionError "") :=
  ⟨by decide, rfl⟩

end LoptVllm.KVTransfer
