import LoptVllm.BatchQueue.Masks

/-!
# The batches of a run
-/

namespace LoptVllm.BatchQueue

open List Option

open Sched

variable {K : Type} [KVCacheManagerOps K] {c : EngineConfig} {w : Worker c}

namespace EngineCore

/-! ### The invariant -/

/-- The batches are in order and their bitmasks fresh; only `AsyncScheduler` defers a batch. -/
structure Masked (w : Worker c) (n : ℕ) (e : EngineCore K) (deferred : Option ExecutedBatch) :
    Prop where
  sequenced : e.Sequenced w n deferred
  tracks : e.Tracks c deferred
  fresh : ∀ m ∈ e.bitmasks, m.Fresh
  isAsync : ∀ b ∈ deferred, c.cfg.isAsync = true

namespace Masked

variable {n : ℕ} {e e' e'' : EngineCore K} {env : StepEnv} {deferred : Option ExecutedBatch}

theorem submits (h : e.Masked w n none) (hlen : e.batchQueue.length < c.batchQueueSize)
    (hs : e.Settled c (.processEngineStep env)) {batch : ExecutedBatch}
    (hexec : e.executeBatch c env = .ok (e', batch)) (hsub : Submits c e' batch e'' deferred) :
    e''.Masked w (n + 1) deferred := by
  have hsequenced := h.sequenced.submits hexec hsub
  have htracks := h.tracks.executeBatch hlen hs hexec
  obtain ⟨hasync, hfresh⟩ := h.tracks.pending hlen hs hexec
  have hbitmasks : e'.bitmasks = e.bitmasks := by
    obtain ⟨out, s, -, -, rfl⟩ := executeBatch_eq hexec
    rfl
  cases hsub with
  | executed =>
    refine ⟨hsequenced, htracks.append _ _, fun m hm => ?_, fun _ hb => (by cases hb)⟩
    exact h.fresh m (hbitmasks ▸ hm)
  | sampled _ hflag =>
    have hmask : (e'.getGrammarBitmask batch.schedulerOutput).Tracks c (some batch) := htracks
    refine ⟨hsequenced, hmask.append _ _, fun m hm => ?_, fun _ hb => (by cases hb)⟩
    rcases mem_append.1 hm with hm | hm
    · exact h.fresh m (hbitmasks ▸ hm)
    · rw [mem_singleton.1 hm]
      exact hfresh hflag
  | deferred _ hflag =>
    refine ⟨hsequenced, htracks, fun m hm => ?_, fun _ _ => (hasync hflag).1⟩
    exact h.fresh m (hbitmasks ▸ hm)

theorem processOldest (h : e.Masked w (n + 1) deferred) (hmodel : c.isEcProducer = false)
    (hloads : w.LoadsAll) {outputs : List EngineCoreOutput}
    (hold : e.processOldest w env = .ok (e', outputs)) : e'.Masked w n deferred := by
  refine ⟨h.sequenced.processOldest hold,
    h.tracks.processOldest hmodel hloads h.sequenced.inOrder hold, fun m hm => ?_, h.isAsync⟩
  obtain ⟨b, batchQueue, modelOutput, s, s', -, -, -, -, rfl⟩ := processOldest_eq hold
  exact h.fresh m hm

/-- When the deferred batch is sampled, the queue is empty: there were at most two batches. -/
theorem sampleDeferred (h : e.Masked w (c.batchQueueSize - 1) deferred)
    (hsample : e.sampleDeferred c env deferred = .ok e') :
    e'.Masked w (c.batchQueueSize - 1) none := by
  have hsequenced := h.sequenced.sampleDeferred hsample
  cases deferred with
  | none =>
    cases hsample
    exact h
  | some batch =>
    obtain ⟨out, -, rfl⟩ := sampleDeferred_eq hsample
    have hempty : e.batchQueue = [] := by
      have hlen : e.batchQueue.length + 1 ≤ c.batchQueueSize - 1 := h.sequenced.length_le
      rw [c.size_of_async (h.isAsync batch rfl)] at hlen
      exact eq_nil_of_length_eq_zero (by omega)
    have hmask : (e.getGrammarBitmask out).Tracks c (some batch) := h.tracks
    refine ⟨hsequenced, hmask.append _ _, fun m hm => ?_, fun _ hb => (by cases hb)⟩
    rcases mem_append.1 hm with hm | hm
    · exact h.fresh m hm
    · rw [mem_singleton.1 hm, hempty]
      exact nofun

theorem mono (h : e.Masked w n none) {m : ℕ} (hle : e.batchQueue.length ≤ m) :
    e.Masked w m none := ⟨h.sequenced.mono hle, h.tracks, h.fresh, h.isAsync⟩

end Masked

variable {e : EngineCore K}

/-- The bitmasks of a run whose steps are settled. -/
theorem Run.masked (hmodel : c.isEcProducer = false) (hloads : w.LoadsAll)
    (h : Run c w (fun e call => e.Settled c call) e) : e.Masked w (c.batchQueueSize - 1) none := by
  refine Run.invariant (fun e => e.Masked w (c.batchQueueSize - 1) none)
    (fun e deferred => e.Masked w (c.batchQueueSize - 1 + 1) deferred)
    (fun e deferred => e.Masked w (c.batchQueueSize - 1) deferred) h ?_ ?_ ?_ ?_ ?_ ?_ ?_ ?_ ?_
  · intro kv encoder heap
    exact ⟨(Run.new (P := fun _ _ => True) kv encoder heap).inOrder,
      ⟨_, .new kv encoder heap, rfl, rfl, rfl⟩, nofun,
      fun _ hb => (by cases hb)⟩
  · intro e id request hI hid
    refine ⟨hI.sequenced.congr _ _, ?_, hI.fresh, hI.isAsync⟩
    refine hI.tracks.call (.addRequest id request) _ _ fun E hsched hadded => ⟨?_, trivial, ?_⟩
    · rw [← hadded] at hid
      exact hid
    · rw [← hsched, ← hadded]
      rfl
  · intro e requestFinished requestIds s hI hfinish
    exact ⟨hI.sequenced.congr _ _, hI.tracks.finishRequests hfinish, hI.fresh, hI.isAsync⟩
  · exact fun hI hs hlen _ hexec hsub => hI.submits hlen hs hexec hsub
  · exact fun hI hroom => hI.mono (by omega)
  · exact fun hI hold => hI.processOldest hmodel hloads hold
  · exact fun hI hsample => hI.sampleDeferred hsample
  · intro e env e' outputs hI hold
    exact (hI.mono (hI.sequenced.length_le.trans (Nat.le_succ _))).processOldest hmodel hloads hold
  · intro e validateTokens drafts hI hbase
    refine ⟨hI.sequenced.congr _ _, ?_, hI.fresh, hI.isAsync⟩
    refine hI.tracks.call (.updateDraftTokenIds validateTokens drafts) _ _ fun E hsched hadded =>
      ⟨trivial, hbase, ?_⟩
    rw [← hsched, ← hadded]
    rfl

theorem Run.no_bitmasks {P : EngineCore K → Call → Prop} (hmodel : c.isEcProducer = true)
    (h : Run c w P e) : e.bitmasks = [] := by
  refine Run.invariant (fun e => e.bitmasks = [])
    (fun e deferred => e.bitmasks = [] ∧ deferred = none)
    (fun e deferred => e.bitmasks = [] ∧ deferred = none) h (fun _ _ _ => rfl) (fun hI _ => hI)
    (fun hI _ => hI) ?_ (fun hI _ => hI.1) ?_ ?_ ?_ (fun hI _ => hI)
  · intro e env e₁ batch e₂ deferred hI _ _ _ hexec hsub
    obtain ⟨out, s, -, rfl, rfl⟩ := executeBatch_eq hexec
    cases hsub with
    | executed => exact ⟨hI, rfl⟩
    | sampled hs | deferred hs =>
      rw [c.samples_of_isEcProducer hmodel] at hs
      cases hs
  · intro e env e' deferred outputs hI hold
    obtain ⟨b, batchQueue, modelOutput, s, s', -, -, -, -, rfl⟩ := processOldest_eq hold
    exact hI
  · rintro e env e' deferred ⟨hI, rfl⟩ hsample
    cases hsample
    exact hI
  · intro e env e' outputs hI hold
    obtain ⟨b, batchQueue, modelOutput, s, s', -, -, -, -, rfl⟩ := processOldest_eq hold
    exact hI

/-! ### A deferred batch finds another one in the queue -/

omit [KVCacheManagerOps K] in
theorem bind_eq_emptyQueue {α β : Type} {x : Except EngineError α}
    {f : α → Except EngineError β} : x >>= f = .error .emptyQueue ↔
      x = .error .emptyQueue ∨ ∃ a, x = .ok a ∧ f a = .error .emptyQueue := by
  cases x with
  | error err =>
    refine ⟨fun h => .inl ?_, fun h => ?_⟩
    · cases h
      rfl
    · obtain h | ⟨a, ha, -⟩ := h
      · cases h
        rfl
      · cases ha
  | ok a =>
    refine ⟨fun h => .inr ⟨a, rfl, h⟩, fun h => ?_⟩
    obtain h | ⟨_, ha, h⟩ := h
    · cases h
    · cases ha
      exact h

omit [KVCacheManagerOps K] in
theorem schedulerCall_ne_emptyQueue {α : Type} (x : Except SchedulerError α) :
    schedulerCall x ≠ .error .emptyQueue := by
  intro h
  cases x <;> cases h

variable {env : StepEnv}

theorem processOldest_emptyQueue
    (h : e.processOldest w env = .error .emptyQueue) : e.batchQueue = [] := by
  unfold processOldest at h
  split at h
  · assumption
  · split at h
    · cases h
    · rcases bind_eq_emptyQueue.1 h with h | ⟨s, -, h⟩
      · exact absurd h (schedulerCall_ne_emptyQueue _)
      · rcases bind_eq_emptyQueue.1 h with h | ⟨_, -, h⟩
        · exact absurd h (schedulerCall_ne_emptyQueue _)
        · cases h

omit [KVCacheManagerOps K] in
theorem sampleDeferred_ne_emptyQueue (e : EngineCore K) (env : StepEnv)
    (deferred : Option ExecutedBatch) : e.sampleDeferred c env deferred ≠ .error .emptyQueue := by
  intro h
  cases deferred with
  | none => cases h
  | some batch =>
    rcases bind_eq_emptyQueue.1 h with h | ⟨out, -, h⟩
    · unfold takeDrafts at h
      split at h
      · cases h
      · split at h <;> cases h
    · cases h

omit [KVCacheManagerOps K] in
theorem Submits.deferred_of_empty {e' : EngineCore K} {batch : ExecutedBatch}
    {deferred : Option ExecutedBatch} (h : Submits c e batch e' deferred)
    (hempty : e'.batchQueue = []) :
    e' = e ∧ c.samples batch.schedulerOutput.toSchedulerOutput = true ∧
      batch.schedulerOutput.pendingStructuredOutputTokens = true := by
  cases h with
  | executed | sampled => exact absurd hempty (append_ne_nil_of_right_ne_nil _ (by simp))
  | deferred hs hp => exact ⟨rfl, hs, hp⟩

/-- The queue is only empty when the engine waits for a batch if a batch has been deferred. -/
theorem stepWithBatchQueue_emptyQueue
    (h : e.stepWithBatchQueue c w env = .error .emptyQueue) : ∃ e₁ batch,
      e.batchQueue.length < c.batchQueueSize ∧ e.executeBatch c env = .ok (e₁, batch) ∧
      e₁.batchQueue = [] ∧ c.samples batch.schedulerOutput.toSchedulerOutput = true ∧
      batch.schedulerOutput.pendingStructuredOutputTokens = true := by
  unfold stepWithBatchQueue at h
  split at h
  · cases h
  · rename_i hlen
    split at h
    · rcases bind_eq_emptyQueue.1 h with h | ⟨⟨e₁, batch⟩, hexec, h⟩
      · rcases bind_eq_emptyQueue.1 h with h | ⟨_, -, h⟩
        · exact absurd h (schedulerCall_ne_emptyQueue _)
        · cases h
      · have hsub := submitBatch_spec (c := c) e₁ batch
        dsimp only at h
        generalize e₁.submitBatch c batch = x at h hsub
        obtain ⟨e₂, executed, deferred⟩ := x
        split at h
        · cases h
        · rcases bind_eq_emptyQueue.1 h with h | ⟨_, -, h⟩
          · have hempty := processOldest_emptyQueue h
            obtain ⟨rfl, hs, hp⟩ := hsub.deferred_of_empty hempty
            exact ⟨e₂, batch, not_le.1 hlen, hexec, hempty, hs, hp⟩
          · rcases bind_eq_emptyQueue.1 h with h | ⟨_, -, h⟩
            · exact absurd h (sampleDeferred_ne_emptyQueue _ _ _)
            · cases h
    · split at h
      · cases h
      · rename_i hne
        rcases bind_eq_emptyQueue.1 h with h | ⟨_, -, h⟩
        · exact absurd (List.isEmpty_iff.2 (processOldest_emptyQueue h)) hne
        · cases h

theorem processEngineStep_ne_emptyQueue (ht : c.isEcProducer = false → e.Tracks c none)
    (hs : e.Settled c (.processEngineStep env)) :
    e.processEngineStep c w env ≠ .error .emptyQueue := by
  intro h
  rcases bind_eq_emptyQueue.1 h with h | ⟨_, -, h⟩
  · obtain ⟨e₁, batch, hlen, hexec, hempty, hsamples, hp⟩ := stepWithBatchQueue_emptyQueue h
    cases hmodel : c.isEcProducer with
    | false =>
      obtain ⟨-, hne⟩ := ((ht hmodel).pending hlen hs hexec).1 hp
      obtain ⟨out, s, -, -, rfl⟩ := executeBatch_eq hexec
      exact hne hempty
    | true =>
      rw [c.samples_of_isEcProducer hmodel] at hsamples
      cases hsamples
  · cases h

end EngineCore

/-! ### A worker -/

/-- A token for each request that the step samples for. -/
def generateToken (token : ℕ) (x : InFlight) : ModelRunnerOutput where
  reqIdToIndex := ⟨x.out.numScheduledTokens.keys.map fun id =>
      ⟨id, x.out.numScheduledTokens.keys.idxOf id⟩, by
    rw [List.NodupKeys, List.keys, List.map_map]
    exact (List.map_id _).symm ▸ x.out.numScheduledTokens.keys_nodup⟩
  sampledTokenIds := x.out.numScheduledTokens.keys.map fun id =>
    if x.Samples id then [token] else []
  poolerOutput := []
  promptLogprobs := ∅
  kvConnectorOutput := none

theorem get_generateToken {token : ℕ} {x : InFlight} {id : ℕ}
    (hid : id ∈ x.out.numScheduledTokens) : (generateToken token x).get id =
      .ok (if x.Samples id then [token] else [], false) := by
  have hkey : id ∈ x.out.numScheduledTokens.keys := AList.mem_keys.1 hid
  have hindex : (generateToken token x).reqIdToIndex.lookup id =
      some (x.out.numScheduledTokens.keys.idxOf id) :=
    mem_dlookup (generateToken token x).reqIdToIndex.nodupKeys (mem_map_of_mem hkey)
  have hne : (generateToken token x).sampledTokenIds.isEmpty = false :=
    isEmpty_eq_false_iff.2 (ne_nil_of_mem (mem_map_of_mem hkey))
  have htoken : (generateToken token x).sampledTokenIds[
      x.out.numScheduledTokens.keys.idxOf id]? = some (if x.Samples id then [token] else []) := by
    show (List.map _ _)[_]? = _
    rw [getElem?_map, getElem?_idxOf hkey]
    rfl
  unfold ModelRunnerOutput.get indexOrDefault
  rw [hindex, hne]
  dsimp only [getItem, ok_bind]
  rw [if_neg Bool.false_ne_true, htoken]
  rfl

theorem workerGenerates_generateToken (token : ℕ) (x : InFlight) :
    WorkerGenerates x (generateToken token x) := by
  intro id hid
  unfold ModelRunnerOutput.numSampled
  rw [get_generateToken (AList.mem_keys.2 hid)]
  split_ifs <;> simp

/-- A worker whose executions all succeed. -/
def generateWorker (c : EngineConfig) (token : ℕ) : Worker c where
  result _ x := some (generateToken token x)
  generates h _ := some.inj h ▸ workerGenerates_generateToken token _

theorem generateWorker_loadsAll (c : EngineConfig) (token : ℕ) :
    (generateWorker c token).LoadsAll := by
  intro future x modelOutput h
  rw [← some.inj h]
  exact fun _ hkv => absurd hkv (not_mem_none _)

/-! ### The batches -/

/-- A step during which no output comes back and nothing is aborted. -/
def busyEnv : StepEnv where
  schedule := smallEnv
  done := false
  abortsQueue := []
  requestFinished _ := (false, false)
  draftTokenIds := none
  numAccepted _ _ := 0

/-- A queue of two batches, with `AsyncScheduler`. -/
def asyncEngineConfig : EngineConfig where
  cfg := { smallConfig with isAsync := true }
  batchQueueSize := 2
  isEcProducer := false
  isPoolingModel := false
  useSpecDecode := false
  one_lt_size := by decide
  size_of_async := fun _ => rfl

/-- A queue of three batches, with the base scheduler, which runs two requests at a time and gives
each of them at most five tokens. -/
def baseEngineConfig : EngineConfig where
  cfg := { smallConfig with
    maxNumRunningReqs := 2
    longPrefillTokenThreshold := 5 }
  batchQueueSize := 3
  isEcProducer := false
  isPoolingModel := false
  useSpecDecode := false
  one_lt_size := by decide
  size_of_async := by decide

/-- A request with a grammar. -/
def structuredRequest : EngineCoreRequest := { smallRequest with
  params := .sampling ⟨0, 4, true, [], true, none⟩ }

/-- A request whose prompt needs three steps and all blocks. -/
def longRequest : EngineCoreRequest := { smallRequest with
  promptTokenIds := some [1, 2, 3, 4, 5, 6, 7, 8, 9, 10, 11, 12] }

namespace EngineCore

/-- In every run, each batch is processed once, with its own output and in the order in which the
batches were scheduled. If all steps of the run are settled, then no bitmask is computed while a
token that it depends on is in flight, and no batch is deferred while the queue is empty. -/
theorem batches_in_order (hloads : w.LoadsAll) {e : EngineCore K}
    (h : Run c w (fun e call => e.Settled c call) e) :
    e.InOrder w none ∧ e.batchQueue.length < c.batchQueueSize ∧ (∀ m ∈ e.bitmasks, m.Fresh) ∧
      ∀ env, e.Settled c (.processEngineStep env) →
        e.processEngineStep c w env ≠ .error .emptyQueue := by
  have hsequenced := h.inOrder
  have hlen : e.batchQueue.length ≤ c.batchQueueSize - 1 := hsequenced.length_le
  have hsize := c.one_lt_size
  refine ⟨hsequenced.inOrder, by omega, fun m hm => ?_, fun env hs => ?_⟩
  · cases hmodel : c.isEcProducer with
    | false => exact (h.masked hmodel hloads).fresh m hm
    | true =>
      rw [h.no_bitmasks hmodel] at hm
      cases hm
  · exact processEngineStep_ne_emptyQueue (fun hmodel => (h.masked hmodel hloads).tracks) hs

/-- A structured-output request is scheduled three times; the second and the third batch wait for
the token of the one before. -/
theorem batches_in_order_async : ∃ e : EngineCore (HashedKVCacheManager smallHasher),
    e.bitmasks.length = 3 ∧ e.updates.length = 2 ∧
      e.InOrder (generateWorker asyncEngineConfig 7) none ∧ ∀ m ∈ e.bitmasks, m.Fresh := by
  obtain ⟨e, he, hobs⟩ := exists_ok_of_map (c := (3, 2))
    (f := fun e : EngineCore (HashedKVCacheManager smallHasher) =>
      (e.bitmasks.length, e.updates.length))
    (show (runCalls asyncEngineConfig (generateWorker asyncEngineConfig 7)
      (fun e call => e.Settled asyncEngineConfig call)
      [.addRequest 0 structuredRequest, .processEngineStep busyEnv, .processEngineStep busyEnv,
        .processEngineStep busyEnv]
      (.new smallKVCacheManager ⟨false, 0, 0, ∅, ∅, []⟩
        fun _ => .fromEngineCoreRequest smallRequest)).toOption.map _ = _ by decide +kernel)
  obtain ⟨hbitmasks, hupdates⟩ := Prod.mk.inj hobs
  obtain ⟨horder, -, hfresh, -⟩ := batches_in_order (generateWorker_loadsAll asyncEngineConfig 7)
    ((Run.new _ _ _).runCalls he)
  exact ⟨e, hbitmasks, hupdates, horder, hfresh⟩

/-- A structured-output request is preempted while a batch in the queue samples for it, and resumed
in the next step: the bitmask of the new batch is computed before this token has come back. -/
theorem bitmask_of_preempted : ∃ e : EngineCore (HashedKVCacheManager smallHasher),
    Run baseEngineConfig (generateWorker baseEngineConfig 7) (fun _ _ => True) e ∧
      ∃ m ∈ e.bitmasks, ¬ m.Fresh := by
  obtain ⟨e, he, hobs⟩ := exists_ok_of_map (c := false)
    (f := fun e : EngineCore (HashedKVCacheManager smallHasher) =>
      decide (∀ m ∈ e.bitmasks, m.Fresh))
    (show (runCalls baseEngineConfig (generateWorker baseEngineConfig 7) (fun _ _ => True)
      [.addRequest 0 longRequest, .addRequest 1 structuredRequest, .processEngineStep busyEnv,
        .processEngineStep busyEnv, .abortRequests (fun _ => (false, false)) [0],
        .processEngineStep busyEnv]
      (.new smallKVCacheManager ⟨false, 0, 0, ∅, ∅, []⟩
        fun _ => .fromEngineCoreRequest smallRequest)).toOption.map _ = _ by decide +kernel)
  refine ⟨e, (Run.new _ _ _).runCalls he, ?_⟩
  have hnot := of_decide_eq_false hobs
  push Not at hnot
  exact hnot

end EngineCore

end LoptVllm.BatchQueue
