import LoptVllm.BatchQueue.Step

/-!
# The order of the batches

A batch goes from the worker into the queue and from the front of the queue to `update_from_output`,
so that the outputs are processed in the order in which the batches were scheduled, each once. This
holds in every run.
-/

namespace LoptVllm.BatchQueue

open Sched AList List Scheduler Nat EngineConfig

variable {K : Type}

/-! ### `schedule` -/

section Schedule

variable {cfg : SchedulerConfig} {env : ScheduleEnv}

theorem foldl_addPlaceholders_fst (out : SchedulerOutput) (ids : List ℕ) :
    ∀ x : Scheduler K × Bool × Bool, (ids.foldl (addPlaceholders cfg out) x).1 =
      ids.foldl (Scheduler.addPlaceholders cfg out) x.1 := by
  induction ids with
  | nil => exact fun _ => rfl
  | cons id ids ih => exact fun x => ih _

/-- The flag about tokens in flight looks at the requests as they were before the loop. -/
theorem foldl_addPlaceholders_pending (out : SchedulerOutput) (ids : List ℕ) (hids : ids.Nodup) :
    ∀ x : Scheduler K × Bool × Bool, (ids.foldl (addPlaceholders cfg out) x).2.2 = true ↔
      x.2.2 = true ∨ ∃ id ∈ ids, (x.1.heap id).useStructuredOutput = true ∧
        0 < (x.1.heap id).numOutputPlaceholders := by
  induction ids with
  | nil => exact fun x => ⟨.inl, fun h => h.resolve_right fun ⟨_, hid, _⟩ => not_mem_nil hid⟩
  | cons id ids ih =>
    intro x
    obtain ⟨hid, hids⟩ := nodup_cons.1 hids
    have hheap : ∀ i ∈ ids, (addPlaceholders cfg out x id).1.heap i = x.1.heap i := fun i hi =>
      modify_heap_of_ne _ _ (ne_of_mem_of_not_mem hi hid)
    have hflag : (addPlaceholders cfg out x id).2.2 = true ↔ x.2.2 = true ∨
        (x.1.heap id).useStructuredOutput = true ∧ 0 < (x.1.heap id).numOutputPlaceholders := by
      unfold addPlaceholders
      simp [Bool.or_eq_true, Bool.and_eq_true, decide_eq_true_eq]
    have hrest : (∃ i ∈ ids, ((addPlaceholders cfg out x id).1.heap i).useStructuredOutput = true ∧
        0 < ((addPlaceholders cfg out x id).1.heap i).numOutputPlaceholders) ↔
        ∃ i ∈ ids, (x.1.heap i).useStructuredOutput = true ∧
          0 < (x.1.heap i).numOutputPlaceholders :=
      exists_congr fun i => and_congr_right fun hi => by rw [hheap i hi]
    rw [foldl_cons, ih hids, hflag, hrest, exists_mem_cons_iff, or_assoc]

variable [KVCacheManagerOps K] {out : BatchOutput}

/-- `schedule` with the flags is `schedule`. -/
theorem scheduleBatch_eq {s s' : Scheduler K} (h : scheduleBatch cfg env s = .ok (out, s')) :
    s.schedule cfg env = .ok (out.toSchedulerOutput, s') := by
  obtain ⟨st, hloops, h⟩ := bind_ok.1 h
  obtain ⟨⟨out', s₁⟩, hout, h⟩ := bind_ok.1 h
  obtain ⟨s₂, hadvance, h⟩ := bind_ok.1 h
  refine bind_ok.2 ⟨st, hloops, bind_ok.2 ⟨_, hout, ?_⟩⟩
  refine bind_ok.2 ⟨s', ?_, ?_⟩
  · refine bind_ok.2 ⟨s₂, hadvance, ?_⟩
    dsimp only at h ⊢
    split_ifs at h ⊢
    · cases h
      rw [← foldl_addPlaceholders_fst out' out'.scheduled (_, false, false)]
      rfl
    · cases h
      rfl
  · dsimp only at h
    split_ifs at h <;> cases h <;> rfl

/-- The flag says that a token of a scheduled structured-output request is in flight, by its
placeholders. -/
theorem pending_iff {s s' : Scheduler K} (hq : s.Queued)
    (h : scheduleBatch cfg env s = .ok (out, s')) :
    out.pendingStructuredOutputTokens = true ↔ cfg.isAsync = true ∧
      ∃ id ∈ out.numScheduledTokens, (s.heap id).useStructuredOutput = true ∧
        0 < (s.heap id).numOutputPlaceholders := by
  obtain ⟨st, hloops, h⟩ := bind_ok.1 h
  obtain ⟨⟨out', s₁⟩, hout, h⟩ := bind_ok.1 h
  obtain ⟨s₂, hadvance, h⟩ := bind_ok.1 h
  obtain ⟨st₁, hmoves, rfl, -⟩ := Step.scheduleLoops_moves hq.running_nodup hloops
  obtain ⟨-, rfl⟩ := Step.makeOutput_eq hout
  obtain ⟨-, m, rfl⟩ := foldlM_advance_eq _ hadvance
  -- the loops, and the advance after them, keep the placeholders
  have hkeep : ∀ id, (st₁.request id).useStructuredOutput = (s.heap id).useStructuredOutput ∧
      (st₁.request id).numOutputPlaceholders = (s.heap id).numOutputPlaceholders := by
    intro id
    obtain ⟨hreq, -, hplaceholders, -⟩ := (hmoves.treated hq id).frame
    exact ⟨by rw [hreq], hplaceholders⟩
  split_ifs at h with hasync
  · cases h
    rw [foldl_addPlaceholders_pending out' out'.scheduled
      (nodup_reverse.2 out'.numScheduledTokens.keys_nodup)]
    have hmem : ∀ id, id ∈ out'.scheduled ↔ id ∈ out'.numScheduledTokens := fun id => by
      unfold SchedulerOutput.scheduled
      rw [mem_reverse]
      exact mem_keys.symm
    rw [or_iff_right Bool.false_ne_true, and_iff_right hasync]
    refine exists_congr fun id => and_congr (hmem id) ?_
    obtain ⟨hstruct, hplaceholders⟩ := hkeep id
    rw [← hstruct, ← hplaceholders]
    rfl
  · cases h
    exact iff_of_false Bool.false_ne_true fun hc => hasync hc.1

end Schedule

/-! ### Draft tokens -/

/-- The output of a batch has got other draft tokens, as many as it had before. -/
structure FillsDrafts (out out' : SchedulerOutput) : Prop where
  eq : out' = { out with scheduledSpecDecodeTokens := out'.scheduledSpecDecodeTokens }
  numDraftTokens : ∀ id, out'.numDraftTokens id = out.numDraftTokens id

theorem FillsDrafts.refl (out : SchedulerOutput) : FillsDrafts out out := ⟨rfl, fun _ => rfl⟩

theorem FillsDrafts.trans {out out' out'' : SchedulerOutput} (h : FillsDrafts out out')
    (h' : FillsDrafts out' out'') : FillsDrafts out out'' := by
  refine ⟨?_, fun id => (h'.numDraftTokens id).trans (h.numDraftTokens id)⟩
  rw [h'.eq, h.eq]

theorem FillsDrafts.numScheduledTokens {out out' : SchedulerOutput} (h : FillsDrafts out out') :
    out'.numScheduledTokens = out.numScheduledTokens := by
  rw [h.eq]

variable (numAccepted : ℕ → List ℤ → ℕ)

theorem updateDraftInOutput_fills (s : Scheduler K)
    (out : BatchOutput) (draft : ℕ × List ℤ) : FillsDrafts out.toSchedulerOutput
      (updateDraftInOutput numAccepted s out draft).toSchedulerOutput := by
  unfold updateDraftInOutput
  split
  · exact .refl _
  · split_ifs
    · exact .refl _
    · split
      · exact .refl _
      · rename_i placeholder placeholders hspec
        refine ⟨rfl, fun id => ?_⟩
        unfold SchedulerOutput.numDraftTokens
        by_cases he : id = draft.1
        · rw [he, lookup_insert, Option.getD_some, hspec, length_append, length_replicate]
          have hle := length_take_le (placeholder :: placeholders).length draft.2
          have hle' := length_take_le' (numAccepted draft.1
            (draft.2.take (placeholder :: placeholders).length))
            (draft.2.take (placeholder :: placeholders).length)
          omega
        · rw [lookup_insert_ne he]

theorem updateDraftTokenIdsInOutput_fills (s : Scheduler K)
    (draftTokenIds : List (ℕ × List ℤ)) : ∀ out : BatchOutput, FillsDrafts out.toSchedulerOutput
      (updateDraftTokenIdsInOutput numAccepted s draftTokenIds out).toSchedulerOutput := by
  induction draftTokenIds with
  | nil => exact fun out => .refl _
  | cons draft drafts ih =>
    exact fun out => (updateDraftInOutput_fills numAccepted s out draft).trans (ih _)

/-! ### The parts of a step -/

variable (c : EngineConfig)

/-- A token is sampled for the requests of a batch. -/
def EngineConfig.samples (out : SchedulerOutput) : Bool :=
  !c.isPoolingModel && (!c.isEcProducer && decide (0 < out.totalNumScheduledTokens))

theorem EngineConfig.samples_of_isEcProducer (h : c.isEcProducer = true)
    (out : SchedulerOutput) : c.samples out = false := by
  unfold samples
  rw [h, Bool.not_true, Bool.false_and, Bool.and_false]

/-- The future with the output of the `n`-th batch. -/
def EngineConfig.futureOf (n : ℕ) (out : SchedulerOutput) : ModelFuture :=
  if c.samples out then .sampleTokens n else .executeModel n

namespace EngineCore

variable {c : EngineConfig} {w : Worker c}

/-- What is done with a batch that the worker executes. -/
inductive Submits (c : EngineConfig) (e : EngineCore K) (batch : ExecutedBatch) :
    EngineCore K → Option ExecutedBatch → Prop
  | executed (hs : c.samples batch.schedulerOutput.toSchedulerOutput = false) :
      Submits c e batch (e.append batch batch.execFuture) none
  | sampled (hs : c.samples batch.schedulerOutput.toSchedulerOutput = true)
      (hp : batch.schedulerOutput.pendingStructuredOutputTokens = false) :
      Submits c e batch
        ((e.getGrammarBitmask batch.schedulerOutput).append batch e.sampleTokens) none
  | deferred (hs : c.samples batch.schedulerOutput.toSchedulerOutput = true)
      (hp : batch.schedulerOutput.pendingStructuredOutputTokens = true) :
      Submits c e batch e (some batch)

theorem submitBatch_spec (e : EngineCore K) (batch : ExecutedBatch) :
    Submits c e batch (e.submitBatch c batch).1 (e.submitBatch c batch).2.2 := by
  have hsamples : c.samples batch.schedulerOutput.toSchedulerOutput = (!c.isPoolingModel &&
      (!c.isEcProducer && decide (0 < batch.schedulerOutput.totalNumScheduledTokens))) := rfl
  unfold submitBatch
  dsimp only
  split_ifs with hc hp
  · refine .executed ?_
    rw [hsamples, ← Bool.not_eq_true', Bool.not_and, Bool.not_not]
    exact hc
  · refine .sampled ?_ (by simpa using hp)
    rw [hsamples, ← Bool.not_eq_false', Bool.not_and, Bool.not_not]
    exact eq_false_of_ne_true hc
  · refine .deferred ?_ (by simpa using hp)
    rw [hsamples, ← Bool.not_eq_false', Bool.not_and, Bool.not_not]
    exact eq_false_of_ne_true hc

variable [KVCacheManagerOps K] {e e' : EngineCore K} {env : StepEnv} {batch : ExecutedBatch}

theorem executeBatch_eq
    (h : e.executeBatch c env = .ok (e', batch)) : ∃ out s,
      scheduleBatch c.cfg env.schedule e.scheduler = .ok (out, s) ∧
      batch = ⟨out, .executeModel e.executed.length, ⟨out.toSchedulerOutput, s.heap, ∅⟩⟩ ∧
      e' = { e with
        scheduler := s
        executed := e.executed ++ [batch.inFlight] } := by
  obtain ⟨⟨out, s⟩, hs, h⟩ := bind_ok.1 h
  cases h
  exact ⟨out, s, schedulerCall_eq_ok.1 hs, rfl, rfl⟩

variable {outputs : List EngineCoreOutput}

theorem processOldest_eq
    (h : e.processOldest w env = .ok (e', outputs)) : ∃ batch batchQueue modelOutput s s',
      e.batchQueue = batch :: batchQueue ∧
      w.result batch.future batch.inFlight = some modelOutput ∧
      processAbortsQueue c env e.scheduler = .ok s ∧
      s.updateFromOutput c.cfg env.requestFinished batch.schedulerOutput.toSchedulerOutput
        modelOutput = .ok (s', outputs) ∧
      e' = { e with
        scheduler := s'
        batchQueue := batchQueue
        updates := e.updates ++ [⟨batch, modelOutput⟩] } := by
  unfold processOldest at h
  split at h
  · cases h
  · rename_i batch batchQueue hq
    split at h
    · cases h
    · rename_i modelOutput hw
      obtain ⟨s, hs, h⟩ := bind_ok.1 h
      obtain ⟨⟨s', outputs'⟩, hs', h⟩ := bind_ok.1 h
      cases h
      exact ⟨batch, batchQueue, modelOutput, s, s', hq, hw, schedulerCall_eq_ok.1 hs,
        schedulerCall_eq_ok.1 hs', rfl⟩

omit [KVCacheManagerOps K] in
theorem sampleDeferred_eq
    (h : e.sampleDeferred c env (some batch) = .ok e') : ∃ out,
      FillsDrafts batch.schedulerOutput.toSchedulerOutput out.toSchedulerOutput ∧
      e' = (e.getGrammarBitmask out).append { batch with schedulerOutput := out }
        e.sampleTokens := by
  obtain ⟨out, hout, h⟩ := bind_ok.1 h
  cases h
  refine ⟨out, ?_, rfl⟩
  unfold takeDrafts at hout
  split at hout
  · cases hout
    exact .refl _
  · split at hout
    · cases hout
    · cases hout
      exact updateDraftTokenIdsInOutput_fills _ _ _ _

/-- How a step goes. -/
inductive StepsTo (c : EngineConfig) (w : Worker c) (env : StepEnv) (e : EngineCore K) :
    EngineCore K → Prop
  | idle : StepsTo c w env e e
  | filled {e₁ e₂ : EngineCore K} {batch : ExecutedBatch}
      (hlen : e.batchQueue.length < c.batchQueueSize) (hreq : hasRequests e.scheduler = true)
      (hexec : e.executeBatch c env = .ok (e₁, batch)) (hsub : Submits c e₁ batch e₂ none)
      (hroom : e₂.batchQueue.length < c.batchQueueSize) : StepsTo c w env e e₂
  | processed {e₁ e₂ e₃ e₄ : EngineCore K} {batch : ExecutedBatch} {deferred : Option ExecutedBatch}
      {outputs : List EngineCoreOutput} (hlen : e.batchQueue.length < c.batchQueueSize)
      (hreq : hasRequests e.scheduler = true)
      (hexec : e.executeBatch c env = .ok (e₁, batch)) (hsub : Submits c e₁ batch e₂ deferred)
      (hold : e₂.processOldest w env = .ok (e₃, outputs))
      (hdeferred : e₃.sampleDeferred c env deferred = .ok e₄) : StepsTo c w env e e₄
  | drained {e₁ : EngineCore K} {outputs : List EngineCoreOutput}
      (hold : e.processOldest w env = .ok (e₁, outputs)) : StepsTo c w env e e₁

theorem stepWithBatchQueue_spec {outputs : Option (List EngineCoreOutput)} {modelExecuted : Bool}
    (h : e.stepWithBatchQueue c w env = .ok (e', outputs, modelExecuted)) :
    StepsTo c w env e e' := by
  unfold stepWithBatchQueue at h
  split at h
  · cases h
  · rename_i hlen
    have hlen := not_le.1 hlen
    split at h
    · rename_i hreq
      obtain ⟨⟨e₁, batch⟩, hexec, h⟩ := bind_ok.1 h
      have hsub := submitBatch_spec (c := c) e₁ batch
      dsimp only at h
      split at h
      · rename_i hc
        cases h
        obtain ⟨hnone, -, hroom, -⟩ := hc
        rw [Option.isNone_iff_eq_none.1 hnone] at hsub
        exact .filled hlen hreq hexec hsub hroom
      · obtain ⟨⟨e₃, outputs'⟩, hold, h⟩ := bind_ok.1 h
        obtain ⟨e₄, hdeferred, h⟩ := bind_ok.1 h
        cases h
        exact .processed hlen hreq hexec hsub hold hdeferred
    · split at h
      · cases h
        exact .idle
      · obtain ⟨⟨e₁, outputs'⟩, hold, h⟩ := bind_ok.1 h
        cases h
        exact .drained hold

omit [KVCacheManagerOps K] in
/-- Draft tokens are only taken by the base scheduler. -/
theorem postStep_eq (e : EngineCore K) (env : StepEnv) (modelExecuted : Bool) :
    e.postStep c env modelExecuted = e ∨ c.cfg.isAsync = false ∧ ∃ validateTokens drafts,
      e.postStep c env modelExecuted = { e with
        scheduler := e.scheduler.updateDraftTokenIds validateTokens drafts } := by
  unfold postStep
  split
  · rename_i hc
    rw [Bool.and_eq_true, Bool.and_eq_true] at hc
    split
    · exact .inl rfl
    · exact .inr ⟨by simpa using hc.1.1, _, _, rfl⟩
  · exact .inl rfl

theorem processEngineStep_eq (h : e.processEngineStep c w env = .ok e') :
    ∃ e₁, StepsTo c w env e e₁ ∧ (e' = e₁ ∨ c.cfg.isAsync = false ∧ ∃ validateTokens drafts,
      e' = { e₁ with scheduler := e₁.scheduler.updateDraftTokenIds validateTokens drafts }) := by
  obtain ⟨⟨e₁, outputs, modelExecuted⟩, hstep, h⟩ := bind_ok.1 h
  cases h
  exact ⟨e₁, stepWithBatchQueue_spec hstep, postStep_eq e₁ env modelExecuted⟩

variable {P : EngineCore K → Call → Prop}

/-- What holds between the calls of a run, if the parts of a step keep it: `I₁` after a batch has
been submitted, and `I₂` after the oldest batch has been processed, with the deferred batch. -/
theorem Run.invariant (I : EngineCore K → Prop)
    (I₁ I₂ : EngineCore K → Option ExecutedBatch → Prop) (h : Run c w P e)
    (hnew : ∀ kv encoder heap, I (EngineCore.new kv encoder heap))
    (hadd : ∀ {e id request}, I e → id ∉ e.added → I { e with
      scheduler := e.scheduler.addRequest id request
      added := insert id e.added }) (habort : ∀ {e requestFinished requestIds s}, I e →
      e.scheduler.finishRequests c.cfg requestFinished requestIds .finishedAborted = .ok s →
      I { e with scheduler := s })
    (hsubmit : ∀ {e env e₁ batch e₂ deferred}, I e → P e (.processEngineStep env) →
      e.batchQueue.length < c.batchQueueSize → hasRequests e.scheduler = true →
      e.executeBatch c env = .ok (e₁, batch) → Submits c e₁ batch e₂ deferred → I₁ e₂ deferred)
    (hfilled : ∀ {e}, I₁ e none → e.batchQueue.length < c.batchQueueSize → I e)
    (hold : ∀ {e env e' deferred outputs}, I₁ e deferred →
      e.processOldest w env = .ok (e', outputs) → I₂ e' deferred)
    (hsample : ∀ {e env e' deferred}, I₂ e deferred →
      e.sampleDeferred c env deferred = .ok e' → I e')
    (hdrained : ∀ {e env e' outputs}, I e → e.processOldest w env = .ok (e', outputs) → I e')
    (hpost : ∀ {e validateTokens drafts}, I e → c.cfg.isAsync = false → I { e with
      scheduler := e.scheduler.updateDraftTokenIds validateTokens drafts }) : I e := by
  induction h with
  | new kv encoder heap => exact hnew kv encoder heap
  | @step e e' call _ hcall hP hs ih =>
    cases call with
    | addRequest id request =>
      cases hs
      exact hadd ih hcall
    | abortRequests requestFinished requestIds =>
      obtain ⟨s, hfinish, hs⟩ := bind_ok.1 hs
      cases hs
      exact habort ih (schedulerCall_eq_ok.1 hfinish)
    | processEngineStep env =>
      obtain ⟨e₁, hto, hpost'⟩ := processEngineStep_eq hs
      have hI : I e₁ := by
        cases hto with
        | idle => exact ih
        | filled hlen hreq hexec hsub hroom =>
          exact hfilled (hsubmit ih hP hlen hreq hexec hsub) hroom
        | processed hlen hreq hexec hsub hold' hdeferred =>
          exact hsample (hold (hsubmit ih hP hlen hreq hexec hsub) hold') hdeferred
        | drained hold' => exact hdrained ih hold'
      obtain rfl | ⟨hbase, validateTokens, drafts, rfl⟩ := hpost'
      · exact hI
      · exact hpost hI hbase

/-! ### The order -/

omit [KVCacheManagerOps K] in
/-- The batches that have been in the queue, in the order in which they were put into it. -/
def batches (e : EngineCore K) : List QueuedBatch :=
  (e.updates.map fun u => u.toQueuedBatch) ++ e.batchQueue

/-- The worker has executed the batches that have been in the queue, in this order, and the deferred
batch. Each has the future with its own output, and its own scheduler output; the outputs that were
processed are the results of the futures. -/
structure InOrder (w : Worker c) (e : EngineCore K) (deferred : Option ExecutedBatch) : Prop where
  executed : e.executed =
    (e.batches.map fun b => b.inFlight) ++ deferred.toList.map fun b => b.inFlight
  futures : ∀ i b, e.batches[i]? = some b → b.future = c.futureOf i b.inFlight.out
  own : ∀ b ∈ e.batches, FillsDrafts b.inFlight.out b.schedulerOutput.toSchedulerOutput
  results : ∀ u ∈ e.updates, w.result u.future u.inFlight = some u.modelOutput
  deferred : ∀ b ∈ deferred, b.schedulerOutput.toSchedulerOutput = b.inFlight.out

namespace InOrder

variable {e e' : EngineCore K} {batch : ExecutedBatch}

section

omit [KVCacheManagerOps K]

theorem length_executed (h : e.InOrder w none) : e.executed.length = e.batches.length := by
  rw [h.executed, Option.toList_none, map_nil, append_nil, length_map]

theorem length_executed_of_deferred (h : e.InOrder w (some batch)) :
    e.executed.length - 1 = e.batches.length := by
  rw [h.executed, Option.toList_some, length_append, length_map]
  exact Nat.add_sub_cancel _ 1

/-- The deferred batch is put into the queue. -/
theorem append (h : e.InOrder w (some batch))
    (hout : FillsDrafts batch.schedulerOutput.toSchedulerOutput out.toSchedulerOutput)
    {future : ModelFuture} (hfuture : future = c.futureOf e.batches.length batch.inFlight.out) :
    (e.append { batch with schedulerOutput := out } future).InOrder w none := by
  have hbatches : (e.append { batch with schedulerOutput := out } future).batches =
      e.batches ++ [⟨{ batch with schedulerOutput := out }, future⟩] :=
    (append_assoc _ _ _).symm
  refine ⟨?_, fun i b hb => ?_, fun b hb => ?_, h.results, fun _ hb => (by cases hb)⟩
  · rw [hbatches, map_append, Option.toList_none, map_nil, append_nil]
    exact h.executed
  · rw [hbatches] at hb
    rcases lt_trichotomy i e.batches.length with hi | hi | hi
    · rw [getElem?_append_left hi] at hb
      exact h.futures i b hb
    · rw [hi, getElem?_concat_length] at hb
      cases hb
      rw [hi]
      exact hfuture
    · rw [getElem?_eq_none (by rw [length_append]; exact hi)] at hb
      cases hb
  · rw [hbatches] at hb
    rcases mem_append.1 hb with hb | hb
    · exact h.own b hb
    · rw [mem_singleton.1 hb, ← h.deferred batch rfl]
      exact hout

end

variable {env : StepEnv}

theorem executeBatch (h : e.InOrder w none) (hexec : e.executeBatch c env = .ok (e', batch)) :
    e'.InOrder w (some batch) ∧ batch.execFuture = .executeModel e'.batches.length ∧
      e'.sampleTokens = .sampleTokens e'.batches.length := by
  obtain ⟨out, s, -, rfl, rfl⟩ := executeBatch_eq hexec
  have horder : InOrder w { e with
      scheduler := s
      executed := e.executed ++ [⟨out.toSchedulerOutput, s.heap, ∅⟩] }
      (some ⟨out, .executeModel e.executed.length, ⟨out.toSchedulerOutput, s.heap, ∅⟩⟩) := by
    refine ⟨?_, h.futures, h.own, h.results, fun b hb => ?_⟩
    · have hexecuted := h.executed
      rw [Option.toList_none, map_nil, append_nil] at hexecuted
      exact congrArg (· ++ [_]) hexecuted
    · cases hb
      rfl
  refine ⟨horder, congrArg _ h.length_executed, congrArg _ horder.length_executed_of_deferred⟩

variable {deferred : Option ExecutedBatch}

theorem submits (h : e.InOrder w none) {e'' : EngineCore K}
    (hexec : e.executeBatch c env = .ok (e', batch))
    (hsub : Submits c e' batch e'' deferred) : e''.InOrder w deferred ∧
      ∀ b ∈ deferred, c.samples b.inFlight.out = true := by
  obtain ⟨horder, hexecFuture, hsample⟩ := h.executeBatch hexec
  have hout := horder.deferred batch rfl
  cases hsub with
  | executed hs =>
    refine ⟨horder.append (.refl _) ?_, fun _ hb => (by cases hb)⟩
    rw [futureOf, ← hout, hs, hexecFuture]
    rfl
  | sampled hs =>
    have hmask : (e'.getGrammarBitmask batch.schedulerOutput).InOrder w (some batch) :=
      ⟨horder.executed, horder.futures, horder.own, horder.results, horder.deferred⟩
    refine ⟨hmask.append (.refl _) ?_, fun _ hb => (by cases hb)⟩
    rw [futureOf, ← hout, hs, hsample]
    rfl
  | deferred hs =>
    refine ⟨horder, fun b hb => ?_⟩
    cases hb
    rw [← hout]
    exact hs

theorem processOldest (h : e.InOrder w deferred)
    (hold : e.processOldest w env = .ok (e', outputs)) : e'.InOrder w deferred := by
  obtain ⟨b, batchQueue, modelOutput, s, s', hq, hresult, -, -, rfl⟩ := processOldest_eq hold
  have hbatches : EngineCore.batches { e with
      scheduler := s'
      batchQueue := batchQueue
      updates := e.updates ++ [⟨b, modelOutput⟩] } = e.batches := by
    unfold EngineCore.batches
    rw [hq, map_append, append_assoc]
    rfl
  refine ⟨?_, ?_, ?_, fun u hu => ?_, h.deferred⟩
  · rw [hbatches]
    exact h.executed
  · rw [hbatches]
    exact h.futures
  · rw [hbatches]
    exact h.own
  · rcases mem_append.1 hu with hu | hu
    · exact h.results u hu
    · rw [mem_singleton.1 hu]
      exact hresult

omit [KVCacheManagerOps K] in
theorem sampleDeferred (h : e.InOrder w deferred)
    (hs : ∀ b ∈ deferred, c.samples b.inFlight.out = true)
    (hsample : e.sampleDeferred c env deferred = .ok e') : e'.InOrder w none := by
  cases deferred with
  | none =>
    cases hsample
    exact h
  | some batch =>
    obtain ⟨out, hout, rfl⟩ := sampleDeferred_eq hsample
    have hmask : (e.getGrammarBitmask out).InOrder w (some batch) :=
      ⟨h.executed, h.futures, h.own, h.results, h.deferred⟩
    refine hmask.append hout ?_
    rw [futureOf, hs batch rfl]
    exact congrArg _ h.length_executed_of_deferred

end InOrder

/-- The batches are in order, the deferred batch waits for its tokens, and together with the queue
there are at most `n` batches. -/
structure Sequenced (w : Worker c) (n : ℕ) (e : EngineCore K) (deferred : Option ExecutedBatch) :
    Prop where
  inOrder : e.InOrder w deferred
  samples : ∀ b ∈ deferred, c.samples b.inFlight.out = true
  length_le : e.batchQueue.length + deferred.toList.length ≤ n

namespace Sequenced

variable {n : ℕ} {e e' : EngineCore K} {deferred : Option ExecutedBatch}

omit [KVCacheManagerOps K] in
/-- A change of the scheduler, or of the requests that have been added. -/
theorem congr (h : e.Sequenced w n deferred) (s : Scheduler K) (added : Finset ℕ) :
    EngineCore.Sequenced w n { e with
      scheduler := s
      added := added } deferred :=
  ⟨⟨h.inOrder.executed, h.inOrder.futures, h.inOrder.own, h.inOrder.results, h.inOrder.deferred⟩,
    h.samples, h.length_le⟩

variable {env : StepEnv}

theorem submits (h : e.Sequenced w n none) {e₁ : EngineCore K}
    (hexec : e.executeBatch c env = .ok (e₁, batch))
    (hsub : Submits c e₁ batch e' deferred) : e'.Sequenced w (n + 1) deferred := by
  obtain ⟨horder, hsamples⟩ := h.inOrder.submits hexec hsub
  refine ⟨horder, hsamples, ?_⟩
  have hlen : e.batchQueue.length ≤ n := h.length_le
  obtain ⟨out, s, -, rfl, rfl⟩ := executeBatch_eq hexec
  cases hsub with
  | executed | sampled =>
    show (e.batchQueue ++ [_]).length + 0 ≤ _
    rw [length_append]
    exact Nat.add_le_add_right hlen 1
  | deferred => exact Nat.add_le_add_right hlen 1

theorem processOldest (h : e.Sequenced w (n + 1) deferred)
    (hold : e.processOldest w env = .ok (e', outputs)) : e'.Sequenced w n deferred := by
  refine ⟨h.inOrder.processOldest hold, h.samples, ?_⟩
  have hlen := h.length_le
  obtain ⟨b, batchQueue, modelOutput, s, s', hq, -, -, -, rfl⟩ := processOldest_eq hold
  rw [hq, length_cons] at hlen
  dsimp only
  omega

omit [KVCacheManagerOps K] in
theorem sampleDeferred (h : e.Sequenced w n deferred)
    (hsample : e.sampleDeferred c env deferred = .ok e') : e'.Sequenced w n none := by
  refine ⟨h.inOrder.sampleDeferred h.samples hsample, fun _ hb => (by cases hb), ?_⟩
  have hlen := h.length_le
  cases deferred with
  | none =>
    cases hsample
    exact hlen
  | some batch =>
    obtain ⟨out, -, rfl⟩ := sampleDeferred_eq hsample
    show (e.batchQueue ++ [_]).length + 0 ≤ _
    rw [length_append]
    exact hlen

omit [KVCacheManagerOps K] in
theorem mono (h : e.Sequenced w n none) {m : ℕ} (hle : e.batchQueue.length ≤ m) :
    e.Sequenced w m none := ⟨h.inOrder, h.samples, hle⟩

end Sequenced

/-- In every run, the batches are processed in the order in which they were scheduled, and the queue
has room for another one. -/
theorem Run.inOrder (h : Run c w P e) : e.Sequenced w (c.batchQueueSize - 1) none := by
  refine Run.invariant (fun e => e.Sequenced w (c.batchQueueSize - 1) none)
    (fun e deferred => e.Sequenced w (c.batchQueueSize - 1 + 1) deferred)
    (fun e deferred => e.Sequenced w (c.batchQueueSize - 1) deferred) h ?_ ?_ ?_ ?_ ?_ ?_ ?_ ?_ ?_
  · intro kv encoder heap
    exact ⟨⟨rfl, fun i b hb => (by cases hb), nofun,
      nofun, fun b hb => (by cases hb)⟩,
      fun b hb => (by cases hb), zero_le _⟩
  · exact fun h _ => h.congr _ _
  · exact fun h _ => h.congr _ _
  · exact fun h _ _ _ hexec hsub => h.submits hexec hsub
  · exact fun h hroom => h.mono (by omega)
  · exact fun h hold => h.processOldest hold
  · exact fun h hsample => h.sampleDeferred hsample
  · intro e env e' outputs h hold
    exact (h.mono (h.length_le.trans (le_succ _))).processOldest hold
  · exact fun h _ => h.congr _ _

end EngineCore

end LoptVllm.BatchQueue
