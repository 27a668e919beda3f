import LoptVllm.Sched.Moves
import LoptVllm.Sched.Update

/-!
# Runs of the scheduler

The engine makes the calls of the scheduler one after another. A call that raises an exception
stops the engine, so a run consists of calls that return.
-/

namespace LoptVllm.Sched

open List Function Prod

open KVCacheManagerOps

/-- A call of the scheduler, with the answers that it gets from outside. -/
inductive SchedulerCall
  | addRequest (id : ℕ) (request : EngineCoreRequest)
  | schedule (env : ScheduleEnv)
  | updateFromOutput (requestFinished : RequestFinished) (out : SchedulerOutput)
      (result : ModelRunnerOutput)
  | finishRequests (requestFinished : RequestFinished) (requestIds : List ℕ)
      (finishedStatus : RequestStatus)
  | updateDraftTokenIds (validateTokens : ℕ → List ℤ → List ℤ) (draftTokenIds : List (ℕ × List ℤ))
  | resetPrefixCache (resetRunningRequests resetConnector connectorReset : Bool)

variable {K : Type} [KVCacheManagerOps K]

namespace Scheduler

variable (cfg : SchedulerConfig)

/-- The state after a call. -/
def step (s : Scheduler K) : SchedulerCall → Except SchedulerError (Scheduler K)
  | .addRequest id request => .ok (s.addRequest id request)
  | .schedule env => (s.schedule cfg env).map snd
  | .updateFromOutput requestFinished out result =>
    (s.updateFromOutput cfg requestFinished out result).map fst
  | .finishRequests requestFinished requestIds finishedStatus =>
    s.finishRequests cfg requestFinished requestIds finishedStatus
  | .updateDraftTokenIds validateTokens draftTokenIds =>
    .ok (s.updateDraftTokenIds validateTokens draftTokenIds)
  | .resetPrefixCache resetRunningRequests resetConnector connectorReset =>
    (s.resetPrefixCache resetRunningRequests resetConnector connectorReset).map snd

/-- A scheduler without requests. -/
def new (kv : K) (encoder : EncoderCacheManager) (heap : ℕ → Request) : Scheduler K :=
  ⟨kv, encoder, heap, ∅, [], [], ∅, ∅, ∅, ∅, []⟩

/-- The callers do not add a request under an id that is in use. -/
def Admissible (s : Scheduler K) : SchedulerCall → Prop
  | .addRequest id _ => id ∉ s.ids
  | _ => True

/-- The ids that a call adds. -/
def added : SchedulerCall → Finset ℕ
  | .addRequest id _ => {id}
  | _ => ∅

/-- The states that the scheduler can reach, with the ids of the requests added on the way. -/
inductive Reachable : Finset ℕ → Scheduler K → Prop
  | new (kv : K) (encoder : EncoderCacheManager) (heap : ℕ → Request) :
      Reachable ∅ (new kv encoder heap)
  | step {ids : Finset ℕ} {s s' : Scheduler K} {call : SchedulerCall} (hs : Reachable ids s)
      (hcall : s.Admissible call) (h : s.step cfg call = .ok s') :
      Reachable (ids ∪ added call) s'

/-! ### What the parts of the calls change -/

omit [KVCacheManagerOps K] in
@[simp] theorem modify_heap_self (s : Scheduler K) (id : ℕ) (f : Request → Request) :
    (s.modify id f).heap id = f (s.heap id) := update_self _ _ _

variable {id : ℕ}

omit [KVCacheManagerOps K] in
theorem modify_heap_of_ne (s : Scheduler K) {id' : ℕ} (f : Request → Request) (h : id' ≠ id) :
    (s.modify id f).heap id' = s.heap id' := update_of_ne h _ _

omit [KVCacheManagerOps K] in
@[simp] theorem modify_modify (s : Scheduler K) (id : ℕ) (f g : Request → Request) :
    (s.modify id f).modify id g = s.modify id fun r => g (f r) := by
  unfold modify
  dsimp only
  rw [update_self, update_idem]

variable {cfg} {requestFinished : RequestFinished} {s s' : Scheduler K}

omit [KVCacheManagerOps K] in
theorem advance_eq {n : ℤ} (h : s.advance cfg id n = .ok s') :
    id ∈ s.ids ∧ ∃ m, s' = { s.modify id (fun r => r.advance n) with encoderCacheManager := m } := by
  unfold advance at h
  split at h
  · cases h
  · rename_i hid
    cases h
    refine ⟨not_not.1 hid, ?_⟩
    split_ifs
    · exact ⟨_, rfl⟩
    · exact ⟨_, rfl⟩

/-- The tokens by which a request advances. -/
def advancedBy (entries : List (Σ _ : ℕ, ℤ)) (id : ℕ) : ℤ :=
  ((entries.filter fun entry => entry.1 = id).map Sigma.snd).sum

theorem advancedBy_cons_self (id : ℕ) (n : ℤ) (entries : List (Σ _ : ℕ, ℤ)) :
    advancedBy (⟨id, n⟩ :: entries) id = n + advancedBy entries id := by
  simp [advancedBy]

theorem advancedBy_cons_of_ne {id' : ℕ} (n : ℤ) (entries : List (Σ _ : ℕ, ℤ)) (h : id' ≠ id) :
    advancedBy (⟨id, n⟩ :: entries) id' = advancedBy entries id' := by
  simp [advancedBy, h.symm]

variable {entries : List (Σ _ : ℕ, ℤ)}

theorem advancedBy_of_notMem (h : id ∉ entries.keys) : advancedBy entries id = 0 := by
  have : entries.filter (fun entry => entry.1 = id) = [] := by
    rw [filter_eq_nil_iff]
    intro entry hentry he
    exact h (of_decide_eq_true he ▸ mem_keys_of_mem hentry)
  rw [advancedBy, this]
  rfl

omit [KVCacheManagerOps K] in
theorem foldlM_advance_eq (entries : List (Σ _ : ℕ, ℤ)) : ∀ {s s' : Scheduler K},
    entries.foldlM (fun s entry => s.advance cfg entry.1 entry.2) s = .ok s' →
    (∀ entry ∈ entries, entry.1 ∈ s.ids) ∧ ∃ m, s' = { s with
      heap := fun id => (s.heap id).advance (advancedBy entries id)
      encoderCacheManager := m } := by
  induction entries with
  | nil =>
    intro s s' h
    cases h
    refine ⟨nofun, s.encoderCacheManager, ?_⟩
    have hheap : (fun id => (s.heap id).advance (advancedBy [] id)) = s.heap := by
      funext id
      exact Request.advance_zero _
    rw [hheap]
  | cons entry entries ih =>
    intro s s' h
    obtain ⟨id, n⟩ := entry
    obtain ⟨s₁, h₁, h⟩ := bind_ok.1 h
    obtain ⟨hid, m₁, rfl⟩ := advance_eq h₁
    obtain ⟨hids, m, rfl⟩ := ih h
    refine ⟨forall_mem_cons.2 ⟨hid, hids⟩, m, ?_⟩
    have hheap : (fun id' => ((s.modify id fun r => r.advance n).heap id').advance
        (advancedBy entries id')) =
        fun id' => (s.heap id').advance (advancedBy (⟨id, n⟩ :: entries) id') := by
      funext id'
      by_cases he : id' = id
      · rw [he, modify_heap_self, Request.advance_advance, advancedBy_cons_self]
      · rw [modify_heap_of_ne _ _ he, advancedBy_cons_of_ne n entries he]
    rw [← hheap]
    rfl

omit [KVCacheManagerOps K] in
theorem foldl_addPlaceholders (out : SchedulerOutput) (ids : List ℕ) (hids : ids.Nodup) :
    ∀ s : Scheduler K, ids.foldl (addPlaceholders cfg out) s = { s with
      heap := fun id => if id ∈ ids then
        (s.heap id).addPlaceholders cfg.numSpecTokens (out.numDraftTokens id) else s.heap id } := by
  induction ids with
  | nil =>
    intro s
    rfl
  | cons a ids ih =>
    intro s
    obtain ⟨ha, hids⟩ := nodup_cons.1 hids
    rw [foldl_cons, ih hids]
    have hheap : (fun id => if id ∈ ids then
          ((addPlaceholders cfg out s a).heap id).addPlaceholders cfg.numSpecTokens
            (out.numDraftTokens id)
        else (addPlaceholders cfg out s a).heap id) =
        fun id => if id ∈ a :: ids then
          (s.heap id).addPlaceholders cfg.numSpecTokens (out.numDraftTokens id)
        else s.heap id := by
      funext id
      unfold addPlaceholders
      by_cases he : id = a
      · rw [he, if_neg ha, if_pos mem_cons_self, modify_heap_self]
      · simp [modify_heap_of_ne _ _ he, mem_cons, he, false_or]
    show ({ s with heap := _ } : Scheduler K) = { s with heap := _ }
    rw [← hheap]

/-- A scheduled request after the call of `schedule`. -/
def afterSchedule (cfg : SchedulerConfig) (numDraft : ℕ) (n : ℤ) (r : Request) : Request :=
  if cfg.isAsync then (r.advance n).addPlaceholders cfg.numSpecTokens numDraft else r.advance n

/-- The heap after the call of `schedule`: the scheduled requests have advanced. -/
def heapAfter (cfg : SchedulerConfig) (out : SchedulerOutput) (heap : ℕ → Request) (id : ℕ) :
    Request :=
  match out.numScheduledTokens.lookup id with
  | some n => afterSchedule cfg (out.numDraftTokens id) n (heap id)
  | none => heap id

theorem advancedBy_lookup (h : entries.NodupKeys) {n : ℤ}
    (hn : entries.dlookup id = some n) : advancedBy entries id = n := by
  induction entries with
  | nil => cases hn
  | cons entry entries ih =>
    obtain ⟨a, m⟩ := entry
    obtain ⟨ha, h⟩ := nodupKeys_cons.1 h
    by_cases he : id = a
    · subst he
      rw [dlookup_cons_eq] at hn
      cases hn
      rw [advancedBy_cons_self, advancedBy_of_notMem ha, add_zero]
    · rw [dlookup_cons_ne _ _ he] at hn
      rw [advancedBy_cons_of_ne _ _ he]
      exact ih h hn

theorem advancedBy_reverse (tokens : AList fun _ : ℕ => ℤ) (id : ℕ) :
    advancedBy tokens.entries.reverse id = (tokens.lookup id).getD 0 := by
  have hnodup : tokens.entries.reverse.NodupKeys :=
    (perm_nodupKeys (reverse_perm _)).2 tokens.nodupKeys
  cases hl : tokens.lookup id with
  | some n =>
    refine advancedBy_lookup hnodup ?_
    rw [perm_dlookup id hnodup (reverse_perm _)]
    exact hl
  | none =>
    refine advancedBy_of_notMem fun hmem => ?_
    rw [List.keys, map_reverse, mem_reverse] at hmem
    exact AList.lookup_eq_none.1 hl hmem

variable {out : SchedulerOutput}

omit [KVCacheManagerOps K] in
theorem updateAfterSchedule_eq (h : updateAfterSchedule cfg out s = .ok s') :
    (∀ id ∈ out.numScheduledTokens, id ∈ s.ids) ∧ ∃ m, s' = { s with
      heap := heapAfter cfg out s.heap
      encoderCacheManager := m
      finishedReqIds := ∅ } := by
  obtain ⟨s₁, h₁, h⟩ := bind_ok.1 h
  obtain ⟨hids, m, rfl⟩ := foldlM_advance_eq _ h₁
  refine ⟨fun id hid => ?_, m, ?_⟩
  · obtain ⟨n, hn⟩ := mem_keys.1 (AList.mem_keys.1 hid)
    exact hids ⟨id, n⟩ (mem_reverse.2 hn)
  have hadv := advancedBy_reverse out.numScheduledTokens
  have hmem : ∀ id, id ∈ out.scheduled ↔ (out.numScheduledTokens.lookup id).isSome = true := by
    intro id
    unfold SchedulerOutput.scheduled
    rw [mem_reverse, AList.lookup_isSome]
    exact AList.mem_keys.symm
  have hheap : heapAfter cfg out s.heap = fun id =>
      if cfg.isAsync = true ∧ id ∈ out.scheduled then
        ((s.heap id).advance
          (advancedBy out.numScheduledTokens.entries.reverse id)).addPlaceholders
            cfg.numSpecTokens (out.numDraftTokens id)
      else (s.heap id).advance (advancedBy out.numScheduledTokens.entries.reverse id) := by
    funext id
    unfold heapAfter afterSchedule
    simp only [hadv, hmem]
    cases out.numScheduledTokens.lookup id with
    | none => simp
    | some n => simp
  rw [hheap]
  split_ifs at h with hasync
  · cases h
    rw [foldl_addPlaceholders out out.scheduled (nodup_reverse.2 out.numScheduledTokens.keys_nodup)]
    simp [hasync, true_and]
  · cases h
    have hasync : (cfg.isAsync = true) = False := eq_false hasync
    simp [hasync, false_and]

/-- The connector delays the freeing of the blocks of a request. -/
def delays (cfg : SchedulerConfig) (requestFinished : RequestFinished) (id : ℕ) : Bool :=
  cfg.hasConnector && (requestFinished id).1

/-- What `_free_request` does about a request. -/
def freeLog (cfg : SchedulerConfig) (requestFinished : RequestFinished) (id : ℕ) :
    List SchedulerAction :=
  (if cfg.hasConnector then [.connectorFinished id] else []) ++ [.finishedReqId id] ++
    (if delays cfg requestFinished id then [] else [.freeBlocks id])

/-- The connector is told about the request; only the KV cache manager and the log change. -/
theorem connectorFinished_eq {delay : Bool}
    (h : s.connectorFinished cfg requestFinished id = .ok (delay, s')) :
    delay = delays cfg requestFinished id ∧ ∃ kv, s' = { s with
      kvCacheManager := kv
      log := s.log ++ if cfg.hasConnector then [.connectorFinished id] else [] } := by
  unfold connectorFinished at h
  split at h
  · rename_i hc
    have hc : cfg.hasConnector = false := by simpa using hc
    cases h
    refine ⟨by rw [delays, hc]; rfl, s.kvCacheManager, ?_⟩
    rw [hc, if_neg (by decide), append_nil]
  · rename_i hc
    have hc : cfg.hasConnector = true := by simpa using hc
    obtain ⟨kv, -, h⟩ := bind_ok.1 h
    obtain ⟨_, -, h⟩ := bind_ok.1 h
    cases h
    refine ⟨by rw [delays, hc]; rfl, kv, ?_⟩
    rw [if_pos hc]

theorem freeBlocks_eq (h : s.freeBlocks id = .ok s') :
    (s.heap id).isFinished = true ∧ id ∈ s.ids ∧ ∃ kv, s' = { s with
      kvCacheManager := kv
      ids := s.ids.erase id
      log := s.log ++ [.freeBlocks id] } := by
  obtain ⟨_, hfin, h⟩ := bind_ok.1 h
  obtain ⟨kv, -, h⟩ := bind_ok.1 h
  split at h
  · cases h
  · cases h
    exact ⟨check_eq_ok.1 hfin, not_not.1 ‹_›, kv, rfl⟩

theorem freeRequest_eq (h : s.freeRequest cfg requestFinished id = .ok s') :
    (s.heap id).isFinished = true ∧ (delays cfg requestFinished id = false → id ∈ s.ids) ∧
      ∃ kv, s' = { s with
        kvCacheManager := kv
        encoderCacheManager := s.encoderCacheManager.free id (s.heap id)
        finishedReqIds := insert id s.finishedReqIds
        log := s.log ++ freeLog cfg requestFinished id
        ids := if delays cfg requestFinished id then s.ids else s.ids.erase id } := by
  obtain ⟨_, hfin, h⟩ := bind_ok.1 h
  obtain ⟨⟨delay, s₁⟩, hconn, hr⟩ := bind_ok.1 h
  obtain ⟨hdelay, kv, rfl⟩ := connectorFinished_eq hconn
  unfold freeLog
  rw [← hdelay]
  dsimp only at hr
  split at hr
  · rename_i hd
    cases hr
    refine ⟨check_eq_ok.1 hfin, fun hf => ?_, kv, ?_⟩
    · rw [hd] at hf
      cases hf
    · rw [if_pos hd, if_pos hd, append_nil, append_assoc]
  · rename_i hd
    obtain ⟨-, hid, kv', rfl⟩ := freeBlocks_eq hr
    refine ⟨check_eq_ok.1 hfin, fun _ => hid, kv', ?_⟩
    rw [if_neg hd, if_neg hd, append_assoc, append_assoc, append_assoc]

/-- Appending output tokens stops at the first token that ends the request. -/
theorem appendTokens_eq {maxModelLen : ℕ} (tokens : List ℕ) :
    ∀ {r r' : Request} {newTokenIds : List ℕ} {stopped : Bool},
      appendTokens maxModelLen r tokens = .ok (r', newTokenIds, stopped) →
      ∃ status stopReason, r' = { r with
          outputTokenIds := r.outputTokenIds ++ newTokenIds
          status := status
          stopReason := stopReason } ∧
        (stopped = false ∧ newTokenIds = tokens ∧ status = r.status ∨
          stopped = true ∧ newTokenIds <+: tokens ∧ newTokenIds ≠ [] ∧
            status.isFinished = true) := by
  induction tokens with
  | nil =>
    intro r r' newTokenIds stopped h
    cases h
    refine ⟨r.status, r.stopReason, ?_, .inl ⟨rfl, rfl, rfl⟩⟩
    rw [append_nil]
  | cons token tokens ih =>
    intro r r' newTokenIds stopped h
    obtain ⟨⟨r₁, stopped₁⟩, hcheck, hr⟩ := bind_ok.1 h
    dsimp only at hr
    obtain ⟨rfl, rfl⟩ | ⟨rfl, status, stopReason, hfin, rfl⟩ := checkStop_eq hcheck
    · rw [if_neg (by decide)] at hr
      obtain ⟨⟨r₂, newTokenIds₂, stopped₂⟩, hr₂, hr⟩ := bind_ok.1 hr
      cases hr
      obtain ⟨status, stopReason, rfl, hcase⟩ := ih hr₂
      refine ⟨status, stopReason, ?_, ?_⟩
      · unfold Request.appendOutputTokenIds
        rw [append_assoc]
        rfl
      · obtain ⟨rfl, rfl, rfl⟩ | ⟨rfl, hpre, hne, hfin⟩ := hcase
        · exact .inl ⟨rfl, rfl, rfl⟩
        · exact .inr ⟨rfl, cons_prefix_cons.2 ⟨rfl, hpre⟩, cons_ne_nil _ _, hfin⟩
    · rw [if_pos rfl] at hr
      cases hr
      exact ⟨status, stopReason, rfl, .inr ⟨rfl, cons_prefix_cons.2 ⟨rfl, nil_prefix⟩,
        cons_ne_nil _ _, hfin⟩⟩

/-- The request and the tokens of `_update_request_with_output`. -/
inductive UpdatesWithOutput (cfg : SchedulerConfig) (r : Request) (tokens : List ℕ) :
    Request → List ℕ → Bool → Prop
  | discard (hasync : cfg.isAsync = true) (hflag : r.discardLatestAsyncTokens = true) :
      UpdatesWithOutput cfg r tokens { r with discardLatestAsyncTokens := false } [] false
  | base {r' : Request} {newTokenIds : List ℕ} {stopped : Bool} (hasync : cfg.isAsync = false)
      (h : appendTokens cfg.maxModelLen r tokens = .ok (r', newTokenIds, stopped)) :
      UpdatesWithOutput cfg r tokens r' newTokenIds stopped
  | async {r' : Request} {newTokenIds : List ℕ} {stopped : Bool} (hasync : cfg.isAsync = true)
      (hflag : r.discardLatestAsyncTokens = false)
      (h : appendTokens cfg.maxModelLen r tokens = .ok (r', newTokenIds, stopped))
      (hpos : 0 ≤ r'.numOutputPlaceholders - newTokenIds.length) :
      UpdatesWithOutput cfg r tokens
        { r' with numOutputPlaceholders := r'.numOutputPlaceholders - newTokenIds.length }
        newTokenIds stopped

variable {newTokenIds : List ℕ} {stopped : Bool}

theorem updateRequestWithOutput_eq {tokens : List ℕ}
    (h : s.updateRequestWithOutput cfg id tokens = .ok (s', newTokenIds, stopped)) :
    ∃ kv r', UpdatesWithOutput cfg (s.heap id) tokens r' newTokenIds stopped ∧
      s' = { s.modify id (fun _ => r') with kvCacheManager := kv } := by
  unfold updateRequestWithOutput at h
  dsimp only at h
  split at h
  · rename_i hc
    cases h
    rw [Bool.and_eq_true] at hc
    exact ⟨s.kvCacheManager, _, .discard hc.1 hc.2, rfl⟩
  · rename_i hc
    obtain ⟨⟨r', new, stop⟩, happ, hr⟩ := bind_ok.1 h
    have happ : appendTokens cfg.maxModelLen (s.heap id) tokens = .ok (r', new, stop) := by
      revert happ
      cases appendTokens cfg.maxModelLen (s.heap id) tokens with
      | error e => intro happ; cases happ
      | ok x => intro happ; cases happ; rfl
    split at hr
    · rename_i hasync
      cases hr
      exact ⟨s.kvCacheManager, r', .base (by simpa using hasync) happ, rfl⟩
    · rename_i hasync
      obtain ⟨_, hpos, hr⟩ := bind_ok.1 hr
      obtain ⟨kv, -, hr⟩ := bind_ok.1 hr
      cases hr
      have hasync : cfg.isAsync = true := by simpa using hasync
      rw [hasync, Bool.true_and] at hc
      exact ⟨kv, _, .async hasync (eq_false_of_ne_true hc) happ (check_eq_ok.1 hpos), rfl⟩

/-- A request whose output is processed gets new tokens, or a pooling request ends. -/
inductive AppliesOutput (cfg : SchedulerConfig) (r : Request) (generated : List ℕ)
    (pooled : Bool) : Request → List ℕ → Bool → Prop
  | tokens {r' : Request} {newTokenIds : List ℕ} {stopped : Bool} (hne : generated ≠ [])
      (h : UpdatesWithOutput cfg r generated r' newTokenIds stopped) :
      AppliesOutput cfg r generated pooled r' newTokenIds stopped
  | pooled (hempty : generated = []) (hpooling : r.isPooling = true) (hpooled : pooled = true) :
      AppliesOutput cfg r generated pooled { r with status := .finishedStopped } [] true
  | nothing (hempty : generated = []) (h : ¬ (r.isPooling = true ∧ pooled = true)) :
      AppliesOutput cfg r generated pooled r [] false

variable {generated : List ℕ}

theorem applyOutput_eq {pooled : Bool}
    (h : s.applyOutput cfg id generated pooled = .ok (s', newTokenIds, stopped)) :
    ∃ kv r', AppliesOutput cfg (s.heap id) generated pooled r' newTokenIds stopped ∧
      s' = { s.modify id (fun _ => r') with kvCacheManager := kv } := by
  unfold applyOutput at h
  split at h
  · rename_i hne
    obtain ⟨kv, r', hupd, rfl⟩ := updateRequestWithOutput_eq h
    exact ⟨kv, r', .tokens hne hupd, rfl⟩
  · rename_i hne
    split at h
    · rename_i hp
      rw [Bool.and_eq_true] at hp
      cases h
      exact ⟨s.kvCacheManager, _, .pooled (not_not.1 hne) hp.1 hp.2, rfl⟩
    · rename_i hp
      rw [Bool.and_eq_true] at hp
      cases h
      refine ⟨s.kvCacheManager, s.heap id, .nothing (not_not.1 hne) hp, ?_⟩
      unfold modify
      rw [update_eq_self]

/-- The status changes exactly if the request stops, and the request stays what it is. -/
theorem AppliesOutput.status {r r' : Request} {pooled : Bool}
    (h : AppliesOutput cfg r generated pooled r' newTokenIds stopped) :
    r'.toEngineCoreRequest = r.toEngineCoreRequest ∧
      (stopped = false ∧ r'.status = r.status ∨ stopped = true ∧ r'.isFinished = true) := by
  cases h with
  | tokens _ h =>
    cases h with
    | discard => exact ⟨rfl, .inl ⟨rfl, rfl⟩⟩
    | base _ h | async _ _ h =>
      obtain ⟨status, stopReason, rfl, hcase⟩ := appendTokens_eq _ h
      obtain ⟨rfl, -, rfl⟩ | ⟨rfl, -, -, hfin⟩ := hcase
      · exact ⟨rfl, .inl ⟨rfl, rfl⟩⟩
      · exact ⟨rfl, .inr ⟨rfl, hfin⟩⟩
  | pooled => exact ⟨rfl, .inr ⟨rfl, rfl⟩⟩
  | nothing => exact ⟨rfl, .inl ⟨rfl, rfl⟩⟩

theorem freeIfStopped_eq (h : s.freeIfStopped cfg requestFinished id stopped = .ok s') :
    ∃ kv encoder, s' = { s with
      kvCacheManager := kv
      encoderCacheManager := encoder
      finishedReqIds := if stopped then insert id s.finishedReqIds else s.finishedReqIds
      log := s.log ++ if stopped then freeLog cfg requestFinished id else []
      ids := if stopped && !delays cfg requestFinished id then s.ids.erase id else s.ids } := by
  cases stopped with
  | false =>
    cases h
    refine ⟨s.kvCacheManager, s.encoderCacheManager, ?_⟩
    simp
  | true =>
    obtain ⟨-, -, kv, rfl⟩ := freeRequest_eq h
    refine ⟨kv, s.encoderCacheManager.free id (s.heap id), ?_⟩
    cases delays cfg requestFinished id <;> rfl

/-- The output of one request is applied to it, it is freed if it stops, and the client gets an
output if there is something to tell. -/
structure UpdatesRequest (cfg : SchedulerConfig) (requestFinished : RequestFinished)
    (out : SchedulerOutput) (result : ModelRunnerOutput) (u : Update K) (id : ℕ) (r' : Request)
    (newTokenIds : List ℕ) (stopped : Bool) (u' : Update K) : Prop where
  applies : ∃ generated pooled, result.get id = .ok (generated, pooled) ∧
    AppliesOutput cfg (adjustRejected (out.numDraftTokens id) generated (u.sched.heap id))
      generated pooled r' newTokenIds stopped ∧
    u'.outputs = if newTokenIds ≠ [] ∨ pooled = true ∨
          (stopped && cfg.hasConnector && (requestFinished id).2) = true then
        u.outputs ++ [u'.sched.makeEngineCoreOutput id newTokenIds] else u.outputs
  sched : ∃ kv encoder, u'.sched = { u.sched with
    kvCacheManager := kv
    encoderCacheManager := encoder
    heap := update u.sched.heap id r'
    finishedReqIds := if stopped then insert id u.sched.finishedReqIds else u.sched.finishedReqIds
    log := u.sched.log ++ if stopped then freeLog cfg requestFinished id else []
    ids := if stopped && !delays cfg requestFinished id then u.sched.ids.erase id else u.sched.ids }
  stoppedRunningReqs : u'.stoppedRunningReqs =
    if stopped = true ∧ (u.sched.heap id).status = .running then
      u.stoppedRunningReqs ++ [id] else u.stoppedRunningReqs
  stoppedPreemptedReqs : u'.stoppedPreemptedReqs =
    if stopped = true ∧ (u.sched.heap id).status ≠ .running then
      u.stoppedPreemptedReqs ++ [id] else u.stoppedPreemptedReqs
  status : r'.toEngineCoreRequest = (u.sched.heap id).toEngineCoreRequest ∧
    (stopped = false ∧ r'.status = (u.sched.heap id).status ∨ stopped = true ∧ r'.isFinished = true)

theorem adjustRejected_status (numDraft : ℕ) (generated : List ℕ) (r : Request) :
    (adjustRejected numDraft generated r).toEngineCoreRequest = r.toEngineCoreRequest ∧
      (adjustRejected numDraft generated r).status = r.status := by
  unfold adjustRejected
  split_ifs <;> exact ⟨rfl, rfl⟩

variable {result : ModelRunnerOutput}

theorem updateRequest_eq {u u' : Update K}
    (h : updateRequest cfg requestFinished out result u id = .ok u') : ∃ r' newTokenIds stopped,
      UpdatesRequest cfg requestFinished out result u id r' newTokenIds stopped u' := by
  obtain ⟨⟨generated, pooled⟩, hget, h₁⟩ := bind_ok.1 h
  obtain ⟨⟨s₁, newTokenIds, stopped⟩, happly, h₂⟩ := bind_ok.1 h₁
  obtain ⟨s₂, hfree, hr⟩ := bind_ok.1 h₂
  obtain ⟨kv, r', happlies, rfl⟩ := applyOutput_eq happly
  rw [modify_heap_self] at happlies
  rw [modify_modify] at hfree
  obtain ⟨hreq, hstatus⟩ := adjustRejected_status (out.numDraftTokens id) generated
    (u.sched.heap id)
  obtain ⟨hreq', hstatus'⟩ := happlies.status
  rw [hstatus] at hstatus'
  obtain ⟨kv', encoder, hs₂⟩ := freeIfStopped_eq hfree
  dsimp only at hr
  rw [modify_heap_self, hstatus] at hr
  refine ⟨r', newTokenIds, stopped, ?_⟩
  split at hr
  · rename_i hout
    cases hr
    exact ⟨⟨generated, pooled, hget, happlies, (if_pos hout).symm⟩, ⟨kv', encoder, hs₂⟩, rfl, rfl,
      hreq'.trans hreq, hstatus'⟩
  · rename_i hout
    obtain ⟨_, -, hr⟩ := bind_ok.1 hr
    cases hr
    exact ⟨⟨generated, pooled, hget, happlies, (if_neg hout).symm⟩, ⟨kv', encoder, hs₂⟩, rfl, rfl,
      hreq'.trans hreq, hstatus'⟩

/-- A request that was skipped is unchanged. -/
theorem updateBody_eq {failed : List ℕ} {u u' : Update K}
    {entry : Σ _ : ℕ, ℤ} (h : updateBody cfg requestFinished out result failed u entry = .ok u') :
    0 < entry.2 ∧ (((entry.1 ∈ failed ∨ entry.1 ∉ u.sched.ids) ∧ u' = u) ∨
      entry.1 ∉ failed ∧ entry.1 ∈ u.sched.ids ∧ ∃ r' newTokenIds stopped,
        UpdatesRequest cfg requestFinished out result u entry.1 r' newTokenIds stopped u') := by
  obtain ⟨_, hpos, h⟩ := bind_ok.1 h
  refine ⟨check_eq_ok.1 hpos, ?_⟩
  split at h
  · cases h
    exact .inl ⟨‹_›, rfl⟩
  · rename_i hc
    obtain ⟨hfailed, hid⟩ := not_or.1 hc
    exact .inr ⟨hfailed, not_not.1 hid, updateRequest_eq h⟩

end Scheduler

end LoptVllm.Sched
