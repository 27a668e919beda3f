import LoptVllm.Sched.Run

/-!
# What the calls of the scheduler do

Each call is described by the state that it leaves behind, in terms of the state before it.
-/

namespace LoptVllm.Sched

open List Function

open KVCacheManagerOps

variable {K : Type} [KVCacheManagerOps K] {cfg : SchedulerConfig}

/-! ### `schedule` -/

/-- The output that is made of the local variables of `schedule`. -/
structure Step.OutputOf (cfg : SchedulerConfig) (st : Step K) (out : SchedulerOutput) : Prop where
  numScheduledTokens : out.numScheduledTokens = st.numScheduledTokens
  scheduledSpecDecodeTokens : out.scheduledSpecDecodeTokens = st.scheduledSpecDecodeTokens
  scheduledEncoderInputs : out.scheduledEncoderInputs = st.scheduledEncoderInputs
  preemptedReqIds : out.preemptedReqIds = st.preemptedReqs.toFinset
  finishedReqIds : out.finishedReqIds = st.sched.finishedReqIds
  freeEncoderMmHashes : out.freeEncoderMmHashes = st.sched.encoderCacheManager.getFreedMmHashes.1
  scheduledNewReqs : st.scheduledNewReqs.mapM st.makeNewRequest = .ok out.scheduledNewReqs
  scheduledCachedReqs : st.makeCachedRequestData cfg = .ok out.scheduledCachedReqs

omit [KVCacheManagerOps K] in
theorem Step.makeOutput_eq {st : Step K} {out : SchedulerOutput} {s : Scheduler K}
    (h : st.makeOutput cfg = .ok (out, s)) :
    st.OutputOf cfg out ∧ s = { st.sched with
      encoderCacheManager := st.sched.encoderCacheManager.getFreedMmHashes.2
      prevStepScheduledReqIds := st.numScheduledTokens.keys.toFinset } := by
  obtain ⟨newReqs, hnew, h⟩ := bind_ok.1 h
  obtain ⟨cached, hcached, h⟩ := bind_ok.1 h
  cases h
  exact ⟨⟨rfl, rfl, rfl, rfl, rfl, rfl, hnew, hcached⟩, rfl⟩

namespace Scheduler

/-- The loops of `schedule` end in `st`, and then the requests that it has scheduled advance. -/
structure Schedules (cfg : SchedulerConfig) (env : ScheduleEnv) (s : Scheduler K) (st : Step K)
    (out : SchedulerOutput) (s' : Scheduler K) : Prop where
  moves : Step.Moves cfg env (Step.start cfg s) st
  constraints : st.putBack.checkConstraints cfg = .ok ()
  output : st.putBack.OutputOf cfg out
  ids : ∀ id ∈ st.numScheduledTokens, id ∈ st.sched.ids
  state : ∃ encoder, s' = { st.putBack.sched with
    heap := heapAfter cfg out st.sched.heap
    encoderCacheManager := encoder
    finishedReqIds := ∅
    prevStepScheduledReqIds := st.numScheduledTokens.keys.toFinset }

variable {s s' : Scheduler K} {out : SchedulerOutput}

theorem schedule_eq {env : ScheduleEnv} (hs : s.running.Nodup)
    (h : s.schedule cfg env = .ok (out, s')) : ∃ st, Schedules cfg env s st out s' := by
  obtain ⟨st, hloops, h⟩ := bind_ok.1 h
  obtain ⟨⟨out', s₁⟩, hout, h⟩ := bind_ok.1 h
  obtain ⟨s₂, hafter, h⟩ := bind_ok.1 h
  cases h
  obtain ⟨st₁, hmoves, rfl, hcheck⟩ := Step.scheduleLoops_moves hs hloops
  obtain ⟨houtput, rfl⟩ := Step.makeOutput_eq hout
  obtain ⟨hids, m, rfl⟩ := updateAfterSchedule_eq hafter
  rw [houtput.numScheduledTokens] at hids
  exact ⟨st₁, hmoves, hcheck, houtput, hids, m, rfl⟩

/-! ### The end of requests -/

omit [KVCacheManagerOps K] in
theorem removeAll_eq {l items : List ℕ} (hl : l.Nodup) :
    removeAll l items = l.filter fun item => item ∉ items := by
  unfold removeAll
  split
  · simp
  · rename_i a
    rw [hl.erase_eq_filter]
    refine filter_congr fun item _ => ?_
    rw [decide_eq_decide.2 (not_congr mem_singleton), decide_not]
    rfl
  · rfl

variable {requestFinished : RequestFinished} {status : RequestStatus}

/-- The requests of the list end, one after another. -/
theorem foldlM_freeRequest_eq (l : List ℕ) (hl : l.Nodup) : ∀ {s s' : Scheduler K},
    l.foldlM (fun s id => (s.setStatus id status).freeRequest cfg requestFinished id) s = .ok s' →
    ∃ kv encoder, s' = { s with
      kvCacheManager := kv
      encoderCacheManager := encoder
      heap := fun id => if id ∈ l then { s.heap id with status := status } else s.heap id
      ids := s.ids.filter fun id => id ∈ l → delays cfg requestFinished id = true
      finishedReqIds := s.finishedReqIds ∪ l.toFinset
      log := s.log ++ l.flatMap (freeLog cfg requestFinished) } := by
  induction l with
  | nil =>
    intro s s' h
    cases h
    refine ⟨s.kvCacheManager, s.encoderCacheManager, ?_⟩
    simp
  | cons a l ih =>
    intro s s' h
    obtain ⟨ha, hl⟩ := nodup_cons.1 hl
    obtain ⟨s₁, h₁, h⟩ := bind_ok.1 h
    obtain ⟨-, -, kv, rfl⟩ := freeRequest_eq h₁
    obtain ⟨kv', encoder, rfl⟩ := ih hl h
    refine ⟨kv', encoder, ?_⟩
    have hheap : (fun id => if id ∈ l then { (s.setStatus a status).heap id with status := status }
        else (s.setStatus a status).heap id) =
        fun id => if id ∈ a :: l then { s.heap id with status := status } else s.heap id := by
      funext id
      by_cases he : id = a
      · rw [he, if_neg ha, if_pos mem_cons_self]
        exact modify_heap_self _ _ _
      · have hid : (s.setStatus a status).heap id = s.heap id := modify_heap_of_ne _ _ he
        simp [hid, mem_cons, he, false_or]
    have hids : Finset.filter (fun id => id ∈ l → delays cfg requestFinished id = true)
        (if delays cfg requestFinished a then s.ids else s.ids.erase a) =
        s.ids.filter fun id => id ∈ a :: l → delays cfg requestFinished id = true := by
      ext id
      by_cases he : id = a
      · subst he
        cases hd : delays cfg requestFinished id <;> simp [hd]
      · split_ifs <;> simp [he]
    have hfin : insert a s.finishedReqIds ∪ l.toFinset = s.finishedReqIds ∪ (a :: l).toFinset := by
      rw [toFinset_cons, Finset.insert_union, Finset.union_insert]
    have hlog : s.log ++ freeLog cfg requestFinished a ++ l.flatMap (freeLog cfg requestFinished) =
        s.log ++ (a :: l).flatMap (freeLog cfg requestFinished) := by
      rw [flatMap_cons, append_assoc]
    rw [← hheap, ← hids, ← hfin, ← hlog]
    rfl

omit [KVCacheManagerOps K] in
theorem nodup_validRequests (s : Scheduler K) (requestIds : List ℕ) :
    (s.validRequests requestIds).Nodup := (nodup_dedup _).filter _

variable {requestIds : List ℕ}

/-- The requests that `finish_requests` finds get the status, leave the queues and are freed. -/
theorem finishRequests_eq (hs : s.running.Nodup)
    (h : s.finishRequests cfg requestFinished requestIds status = .ok s') :
    status.isFinished = true ∧ ∃ kv encoder, s' = { s with
      kvCacheManager := kv
      encoderCacheManager := encoder
      heap := fun id => if id ∈ s.validRequests requestIds then { s.heap id with status := status }
        else s.heap id
      ids := s.ids.filter fun id =>
        id ∈ s.validRequests requestIds → delays cfg requestFinished id = true
      running := s.running.filter fun id =>
        ¬ (id ∈ s.validRequests requestIds ∧ (s.heap id).status = .running)
      waiting := s.waiting.filter fun id =>
        ¬ (id ∈ s.validRequests requestIds ∧ (s.heap id).status ≠ .running)
      finishedReqIds := s.finishedReqIds ∪ (s.validRequests requestIds).toFinset
      log := s.log ++ (s.validRequests requestIds).flatMap (freeLog cfg requestFinished) } := by
  obtain ⟨_, hstatus, h⟩ := bind_ok.1 h
  obtain ⟨kv, encoder, rfl⟩ := foldlM_freeRequest_eq _ (nodup_validRequests s requestIds) h
  refine ⟨check_eq_ok.1 hstatus, kv, encoder, ?_⟩
  have hrun : removeAll s.running ((s.validRequests requestIds).filter fun id =>
      (s.heap id).status = .running) = s.running.filter fun id =>
        ¬ (id ∈ s.validRequests requestIds ∧ (s.heap id).status = .running) := by
    rw [removeAll_eq hs]
    refine filter_congr fun id _ => decide_eq_decide.2 (not_congr ?_)
    rw [mem_filter, decide_eq_true_iff]
  have hwait : (s.waiting.filter fun id => id ∉ (s.validRequests requestIds).filter fun id =>
      (s.heap id).status ≠ .running) = s.waiting.filter fun id =>
        ¬ (id ∈ s.validRequests requestIds ∧ (s.heap id).status ≠ .running) := by
    refine filter_congr fun id _ => decide_eq_decide.2 (not_congr ?_)
    rw [mem_filter, decide_eq_true_iff]
  rw [← hrun, ← hwait]

/-! ### What a KV connector reports -/

omit [KVCacheManagerOps K] in
theorem map_modify (g : ℕ → Request → Request) (s : Scheduler K) {a : ℕ} {f : Request → Request}
    (hf : ∀ r, g a (f r) = g a r) :
    (fun id => g id ((s.modify a f).heap id)) = fun id => g id (s.heap id) := by
  funext id
  by_cases he : id = a
  · rw [he, modify_heap_self, hf]
  · rw [modify_heap_of_ne _ _ he]

variable {invalidBlockIds : List ℕ}

/-- The computed tokens of some requests are lowered; nothing else is changed. -/
theorem updateRequestsWithInvalidBlocks_eq (requests : List ℕ) :
    ∀ {marked affected evict : List ℕ} {s s' : Scheduler K},
      updateRequestsWithInvalidBlocks cfg invalidBlockIds requests marked s =
        .ok (affected, evict, s') →
      affected ⊆ requests ∧ ∃ n : ℕ → ℤ,
        s' = { s with heap := fun id => { s.heap id with numComputedTokens := n id } } ∧
        ∀ id ∉ requests, n id = (s.heap id).numComputedTokens := by
  induction requests with
  | nil =>
    intro marked affected evict s s' h
    cases h
    exact ⟨List.Subset.refl _, fun id => (s.heap id).numComputedTokens, rfl, fun _ _ => rfl⟩
  | cons a requests ih =>
    intro marked affected evict s s' h
    obtain ⟨blockIds, -, h⟩ := bind_ok.1 h
    obtain ⟨⟨affected', evict', s₁⟩, hrec, hr⟩ := bind_ok.1 h
    obtain ⟨hsub, n, rfl, hn⟩ := ih hrec
    cases hr
    refine ⟨?_, n, ?_, ?_⟩
    · split_ifs
      · exact cons_subset_cons _ hsub
      · exact subset_cons_of_subset _ hsub
    · exact congrArg (fun heap => ({ s with heap := heap } : Scheduler K))
        (map_modify (fun id r => { r with numComputedTokens := n id }) s fun _ => rfl)
    · intro id hid
      rw [mem_cons, not_or] at hid
      rw [hn id hid.2, modify_heap_of_ne _ _ hid.1]

omit [KVCacheManagerOps K] in
theorem iterRequests_perm (s : Scheduler K) (queue : List ℕ) :
    (s.iterRequests cfg queue).Perm queue := by
  unfold iterRequests
  split
  · exact List.Perm.refl _
  · exact perm_insertionSort _ _

variable {failed : List ℕ}

/-- Failed loads lower the computed tokens of requests in the queues. -/
def LowersComputed (s s' : Scheduler K) (failed : List ℕ) : Prop :=
  (∀ id ∈ failed, id ∈ s.running ∨ id ∈ s.waiting) ∧ ∃ (n : ℕ → ℤ) (kv : K) (recving : Finset ℕ),
    s' = { s with
      kvCacheManager := kv
      heap := fun id => { s.heap id with numComputedTokens := n id }
      failedRecvingKvReqIds := recving } ∧
    ∀ id, id ∉ s.running → id ∉ s.waiting → n id = (s.heap id).numComputedTokens

theorem handleInvalidBlocks_eq (h : s.handleInvalidBlocks cfg invalidBlockIds = .ok (failed, s')) :
    LowersComputed s s' failed := by
  obtain ⟨⟨asyncFailed, evict₁, s₁⟩, h₁, hr⟩ := bind_ok.1 h
  obtain ⟨hasync, n₁, rfl, hn₁⟩ := updateRequestsWithInvalidBlocks_eq _ h₁
  obtain ⟨⟨syncFailed, evict, s₂⟩, h₂, hr⟩ := bind_ok.1 hr
  obtain ⟨hsync, n₂, rfl, hn₂⟩ := updateRequestsWithInvalidBlocks_eq _ h₂
  have hwaiting : ∀ id ∈ asyncFailed, id ∈ s.waiting := fun id hid =>
    (iterRequests_perm s s.waiting).subset (mem_of_mem_filter (hasync hid))
  have hn : ∀ id, id ∉ s.running → id ∉ s.waiting → n₂ id = (s.heap id).numComputedTokens := by
    intro id hrun hwait
    rw [hn₂ id hrun]
    exact hn₁ id fun hmem =>
      hwait ((iterRequests_perm s s.waiting).subset (mem_of_mem_filter hmem))
  dsimp only at hr
  split at hr
  · cases hr
    exact ⟨fun id hid => .inl (hsync hid), n₂, s.kvCacheManager, _, rfl, hn⟩
  · obtain ⟨kv, -, hr⟩ := bind_ok.1 hr
    cases hr
    refine ⟨fun id hid => ?_, n₂, kv, _, rfl, hn⟩
    exact (mem_union_iff.1 hid).elim (fun h => .inr (hwaiting id h)) fun h => .inl (hsync h)

variable {result : ModelRunnerOutput}

theorem failedLoads_eq (h : s.failedLoads cfg result = .ok (failed, s')) :
    LowersComputed s s' failed := by
  have hnone : ∀ id ∈ ([] : List ℕ), id ∈ s.running ∨ id ∈ s.waiting :=
    nofun
  unfold failedLoads at h
  split at h
  · cases h
    exact ⟨hnone, _, _, _, rfl, fun _ _ _ => rfl⟩
  · split at h
    · cases h
      exact ⟨hnone, _, _, _, rfl, fun _ _ _ => rfl⟩
    · exact handleInvalidBlocks_eq h

/-- The requests whose blocks have been sent leave `self.requests`. -/
theorem foldlM_finishSending_eq (sending : List ℕ) : ∀ {s s' : Scheduler K},
    sending.foldlM finishSending s = .ok s' →
    sending.Nodup ∧ (∀ id ∈ sending, id ∈ s.ids ∧ (s.heap id).isFinished = true) ∧
      ∃ kv, s' = { s with
        kvCacheManager := kv
        ids := s.ids \ sending.toFinset
        log := s.log ++ sending.map .freeBlocks } := by
  induction sending with
  | nil =>
    intro s s' h
    cases h
    refine ⟨nodup_nil, nofun, s.kvCacheManager, ?_⟩
    simp
  | cons a sending ih =>
    intro s s' h
    obtain ⟨s₁, h₁, h⟩ := bind_ok.1 h
    obtain ⟨_, -, h₁⟩ := bind_ok.1 h₁
    obtain ⟨hfin, ha, kv, rfl⟩ := freeBlocks_eq h₁
    obtain ⟨hnodup, hall, kv', rfl⟩ := ih h
    refine ⟨nodup_cons.2 ⟨fun hmem => ?_, hnodup⟩, ?_, kv', ?_⟩
    · exact Finset.notMem_erase a s.ids (hall a hmem).1
    · refine forall_mem_cons.2 ⟨⟨ha, hfin⟩, fun id hid => ?_⟩
      exact ⟨Finset.mem_of_mem_erase (hall id hid).1, (hall id hid).2⟩
    · have hids : s.ids.erase a \ sending.toFinset = s.ids \ (a :: sending).toFinset := by
        ext id
        simp only [Finset.mem_sdiff, Finset.mem_erase, mem_toFinset, mem_cons]
        tauto
      have hlog : s.log ++ [.freeBlocks a] ++ sending.map .freeBlocks =
          s.log ++ (a :: sending).map .freeBlocks := by
        rw [map_cons, append_assoc]
        rfl
      rw [← hids, ← hlog]

theorem updateFromKvXferFinished_eq {kvOutput : Option KVConnectorOutput}
    (h : s.updateFromKvXferFinished kvOutput = .ok s') :
    ∃ (sending : List ℕ) (kv : K) (recving : Finset ℕ),
      sending.Nodup ∧ (∀ id ∈ sending, id ∈ s.ids ∧ (s.heap id).isFinished = true) ∧
      s' = { s with
        kvCacheManager := kv
        ids := s.ids \ sending.toFinset
        finishedRecvingKvReqIds := recving
        log := s.log ++ sending.map .freeBlocks } := by
  unfold updateFromKvXferFinished at h
  split at h
  · cases h
    refine ⟨[], s.kvCacheManager, s.finishedRecvingKvReqIds, nodup_nil,
      nofun, ?_⟩
    simp
  · obtain ⟨hnodup, hall, kv, rfl⟩ := foldlM_finishSending_eq _ h
    exact ⟨_, kv, _, hnodup, hall, rfl⟩

variable {outputs : List EngineCoreOutput}

/-- The requests whose loads failed end, or nothing happens. -/
theorem failRequests_eq (h : failRequests cfg requestFinished failed s = .ok (s', outputs)) :
    s' = s ∧ outputs = [] ∨ (∀ id ∈ failed, id ∈ s.ids) ∧
      s.finishRequests cfg requestFinished failed .finishedError = .ok s' ∧
      outputs = failed.map fun id => s'.makeEngineCoreOutput id [] := by
  unfold failRequests at h
  split at h
  · cases h
    exact .inl ⟨rfl, rfl⟩
  · obtain ⟨found, hfound, h⟩ := bind_ok.1 h
    obtain ⟨s₁, h₁, h⟩ := bind_ok.1 h
    cases h
    refine .inr ⟨fun id hid => ?_, h₁, rfl⟩
    obtain ⟨r, hr⟩ := exists_ok_of_mapM hfound hid
    by_contra hnot
    rw [getItem_eq_ok, get?, if_neg hnot] at hr
    cases hr

/-! ### `update_from_output` -/

/-- The actions for one request. -/
def logOf (log : List SchedulerAction) (id : ℕ) : List SchedulerAction :=
  log.filter fun action => action.requestId = id

theorem logOf_append (log log' : List SchedulerAction) (id : ℕ) :
    logOf (log ++ log') id = logOf log id ++ logOf log' id := filter_append _ _

variable {id : ℕ}

theorem requestId_of_mem_freeLog {action : SchedulerAction}
    (h : action ∈ freeLog cfg requestFinished id) : action.requestId = id := by
  rcases mem_append.1 h with h | h
  · rcases mem_append.1 h with h | h
    · split_ifs at h
      · rw [mem_singleton.1 h]
        rfl
      · cases h
    · rw [mem_singleton.1 h]
      rfl
  · split_ifs at h
    · cases h
    · rw [mem_singleton.1 h]
      rfl

theorem logOf_freeLog_self (requestFinished : RequestFinished) (id : ℕ) :
    logOf (freeLog cfg requestFinished id) id = freeLog cfg requestFinished id :=
  filter_eq_self.2 fun _ h => decide_eq_true (requestId_of_mem_freeLog h)

theorem logOf_freeLog_of_ne (requestFinished : RequestFinished) {id' : ℕ} (h : id' ≠ id) :
    logOf (freeLog cfg requestFinished id) id' = [] :=
  filter_eq_nil_iff.2 fun _ hmem he =>
    h ((of_decide_eq_true he).symm.trans (requestId_of_mem_freeLog hmem))

/-- What the loop of `update_from_output` does with one request. -/
inductive Processed (cfg : SchedulerConfig) (requestFinished : RequestFinished)
    (out : SchedulerOutput) (result : ModelRunnerOutput) (keys failed : List ℕ) (id : ℕ)
    (s s' : Scheduler K) : Prop
  | skipped (hskip : id ∉ keys ∨ id ∈ failed ∨ id ∉ s.ids) (hheap : s'.heap id = s.heap id)
      (hids : id ∈ s'.ids ↔ id ∈ s.ids) (hfinished : id ∈ s'.finishedReqIds ↔ id ∈ s.finishedReqIds)
      (hlog : logOf s'.log id = logOf s.log id)
  | updated {generated newTokenIds : List ℕ} {pooled stopped : Bool} (hkey : id ∈ keys)
      (hfailed : id ∉ failed) (hid : id ∈ s.ids) (hget : result.get id = .ok (generated, pooled))
      (happlies : AppliesOutput cfg (adjustRejected (out.numDraftTokens id) generated (s.heap id))
        generated pooled (s'.heap id) newTokenIds stopped)
      (hids : id ∈ s'.ids ↔ (stopped = true → delays cfg requestFinished id = true))
      (hfinished : id ∈ s'.finishedReqIds ↔ id ∈ s.finishedReqIds ∨ stopped = true)
      (hlog : logOf s'.log id =
        logOf s.log id ++ if stopped then freeLog cfg requestFinished id else [])

theorem foldlM_updateBody_eq (entries : List (Σ _ : ℕ, ℤ)) :
    ∀ {u u' : Update K}, entries.NodupKeys →
      entries.foldlM (updateBody cfg requestFinished out result failed) u = .ok u' →
      (∀ entry ∈ entries, 0 < entry.2) ∧
      ∀ id, Processed cfg requestFinished out result entries.keys failed id u.sched u'.sched := by
  induction entries with
  | nil =>
    intro u u' _ h
    cases h
    exact ⟨nofun, fun id => .skipped (.inl not_mem_nil) rfl .rfl .rfl rfl⟩
  | cons entry entries ih =>
    intro u u' hnodup h
    obtain ⟨hentry, hnodup⟩ := nodupKeys_cons.1 hnodup
    obtain ⟨u₁, h₁, h₂⟩ := bind_ok.1 h
    obtain ⟨hpos, hall⟩ := ih hnodup h₂
    obtain ⟨hpos₁, hbody⟩ := updateBody_eq h₁
    refine ⟨forall_mem_cons.2 ⟨hpos₁, hpos⟩, fun id => ?_⟩
    -- another request is what the later entries make of it
    have hother : ∀ {s₁ : Scheduler K}, s₁ = u₁.sched → id ≠ entry.1 →
        s₁.heap id = u.sched.heap id → (id ∈ s₁.ids ↔ id ∈ u.sched.ids) →
        (id ∈ s₁.finishedReqIds ↔ id ∈ u.sched.finishedReqIds) →
        logOf s₁.log id = logOf u.sched.log id →
        Processed cfg requestFinished out result (entry :: entries).keys failed id u.sched
          u'.sched := by
      rintro s₁ rfl hne hheap hids hfinished hlog
      cases hall id with
      | skipped hskip hheap' hids' hfinished' hlog' =>
        refine .skipped ?_ (hheap'.trans hheap) (hids'.trans hids) (hfinished'.trans hfinished)
          (hlog'.trans hlog)
        rw [keys_cons, mem_cons, ← hids]
        tauto
      | updated hkey hfailed hid hget happlies hids' hfinished' hlog' =>
        rw [hheap] at happlies
        rw [hlog] at hlog'
        rw [hfinished] at hfinished'
        exact .updated (.tail _ hkey) hfailed (hids.1 hid) hget happlies hids'
          hfinished' hlog'
    obtain ⟨hskip, rfl⟩ | ⟨hfailed, hid, r', newTokenIds, stopped, hupd⟩ := hbody
    · by_cases he : id = entry.1
      · cases hall id with
        | skipped _ hheap hids hfinished hlog =>
          refine .skipped (.inr ?_) hheap hids hfinished hlog
          rw [he]
          exact hskip
        | updated hkey => exact absurd (he ▸ hkey) hentry
      · exact hother rfl he rfl .rfl .rfl rfl
    · obtain ⟨kv, encoder, hsched⟩ := hupd.sched
      by_cases he : id = entry.1
      · cases hall id with
        | updated hkey => exact absurd (he ▸ hkey) hentry
        | skipped _ hheap hids hfinished hlog =>
          subst he
          obtain ⟨generated, pooled, hget, happlies, -⟩ := hupd.applies
          have hr : r' = u'.sched.heap entry.1 := by
            rw [hheap, hsched]
            exact (update_self entry.1 r' u.sched.heap).symm
          rw [hr] at happlies
          refine .updated (.head _) hfailed hid hget happlies ?_ ?_ ?_
          · rw [hids, hsched]
            cases stopped <;> cases hd : delays cfg requestFinished entry.1 <;> simp [hid]
          · rw [hfinished, hsched]
            cases stopped <;> simp
          · rw [hlog, hsched, logOf_append]
            cases stopped
            · rfl
            · rw [if_pos rfl, logOf_freeLog_self]
      · refine hother rfl he ?_ ?_ ?_ ?_
        · rw [hsched]
          exact update_of_ne he _ _
        · rw [hsched]
          dsimp only
          split_ifs
          · rw [Finset.mem_erase, and_iff_right he]
          · exact .rfl
        · rw [hsched]
          dsimp only
          split_ifs
          · rw [Finset.mem_insert, or_iff_right he]
          · exact .rfl
        · rw [hsched, logOf_append]
          cases stopped
          · exact append_nil _
          · rw [if_pos rfl, logOf_freeLog_of_ne _ he, append_nil]

/-- The scheduled requests, in the order in which `update_from_output` visits them. -/
def visited (out : SchedulerOutput) : List ℕ := out.numScheduledTokens.entries.reverse.keys

omit [KVCacheManagerOps K] in
theorem mem_visited : id ∈ visited out ↔ id ∈ out.numScheduledTokens := by
  unfold visited
  rw [List.keys, map_reverse, mem_reverse]
  exact AList.mem_keys.symm

/-- The parts of `update_from_output`. -/
structure UpdatesFromOutput (cfg : SchedulerConfig) (requestFinished : RequestFinished)
    (out : SchedulerOutput) (result : ModelRunnerOutput) (s : Scheduler K) (failed : List ℕ)
    (s₁ : Scheduler K) (u : Update K) (s₃ s' : Scheduler K) (outputs : List EngineCoreOutput) :
    Prop where
  loads : s.failedLoads cfg result = .ok (failed, s₁)
  loop : out.numScheduledTokens.entries.reverse.foldlM
    (updateBody cfg requestFinished out result failed) ⟨s₁, [], [], []⟩ = .ok u
  fails : ∃ outputs', failRequests cfg requestFinished failed (removeStopped u) =
    .ok (s₃, outputs') ∧ outputs = u.outputs ++ outputs'
  transfers : s₃.updateFromKvXferFinished result.kvConnectorOutput = .ok s'

theorem updateFromOutput_eq
    (h : s.updateFromOutput cfg requestFinished out result = .ok (s', outputs)) : ∃ failed s₁ u s₃,
      UpdatesFromOutput cfg requestFinished out result s failed s₁ u s₃ s' outputs := by
  obtain ⟨⟨failed, s₁⟩, h₁, h⟩ := bind_ok.1 h
  obtain ⟨u, h₂, h⟩ := bind_ok.1 h
  obtain ⟨⟨s₃, outputs'⟩, h₃, h⟩ := bind_ok.1 h
  obtain ⟨s₄, h₄, h⟩ := bind_ok.1 h
  cases h
  exact ⟨failed, s₁, u, s₃, h₁, h₂, ⟨outputs', h₃, rfl⟩, h₄⟩

variable {s₁ s₃ : Scheduler K}

theorem UpdatesFromOutput.processed {u : Update K}
    (h : UpdatesFromOutput cfg requestFinished out result s failed s₁ u s₃ s' outputs) (id : ℕ) :
    Processed cfg requestFinished out result (visited out) failed id s₁ u.sched :=
  (foldlM_updateBody_eq _ ((perm_nodupKeys (reverse_perm _)).2
    out.numScheduledTokens.nodupKeys) h.loop).2 id

theorem finishRequests_ids (h : s.finishRequests cfg requestFinished requestIds status = .ok s') :
    s'.ids ⊆ s.ids := by
  obtain ⟨_, -, h⟩ := bind_ok.1 h
  obtain ⟨kv, encoder, rfl⟩ := foldlM_freeRequest_eq _ (nodup_validRequests s requestIds) h
  exact Finset.filter_subset _ _

theorem UpdatesFromOutput.ids {u : Update K}
    (h : UpdatesFromOutput cfg requestFinished out result s failed s₁ u s₃ s' outputs) :
    s'.ids ⊆ s.ids := by
  obtain ⟨-, n, kv, recving, hs₁, -⟩ := failedLoads_eq h.loads
  have hu : u.sched.ids ⊆ s.ids := by
    intro id hid
    have hids : s₁.ids = s.ids := by rw [hs₁]
    rw [← hids]
    cases h.processed id with
    | skipped _ _ hids => exact hids.1 hid
    | updated _ _ hid => exact hid
  obtain ⟨outputs', hfails, -⟩ := h.fails
  have hs₃ : s₃.ids ⊆ s.ids := by
    obtain ⟨rfl, -⟩ | ⟨-, hfinish, -⟩ := failRequests_eq hfails
    · exact hu
    · exact (finishRequests_ids hfinish).trans hu
  obtain ⟨sending, kv', recving', -, -, rfl⟩ := updateFromKvXferFinished_eq h.transfers
  exact Finset.sdiff_subset.trans hs₃

/-- The worker reports no block whose load failed. -/
def NoInvalidBlocks (result : ModelRunnerOutput) : Prop :=
  ∀ kvOutput ∈ result.kvConnectorOutput, kvOutput.invalidBlockIds = []

instance (result : ModelRunnerOutput) : Decidable (NoInvalidBlocks result) :=
  inferInstanceAs (Decidable (∀ kvOutput ∈ result.kvConnectorOutput, _ = []))

/-- Without failed loads, `update_from_output` is its loop, and requests whose blocks have been sent
leave `self.requests`. -/
theorem updateFromOutput_processed (hno : NoInvalidBlocks result)
    (h : s.updateFromOutput cfg requestFinished out result = .ok (s', outputs)) :
    ∃ s₂ : Scheduler K, (∀ id, Processed cfg requestFinished out result (visited out) [] id s s₂) ∧
      s'.heap = s₂.heap ∧ s'.ids ⊆ s₂.ids := by
  obtain ⟨failed, s₁, u, s₃, hupd⟩ := updateFromOutput_eq h
  have hloads : failed = [] ∧ s₁ = s := by
    have hloads := hupd.loads
    unfold failedLoads at hloads
    split at hloads
    · cases hloads
      exact ⟨rfl, rfl⟩
    · rename_i kvOutput hkv
      rw [if_pos (hno kvOutput hkv)] at hloads
      cases hloads
      exact ⟨rfl, rfl⟩
  obtain ⟨rfl, rfl⟩ := hloads
  obtain ⟨outputs', hfails, -⟩ := hupd.fails
  have hs₃ : s₃ = removeStopped u := by
    cases hfails
    rfl
  obtain ⟨sending, kv, recving, -, -, rfl⟩ := updateFromKvXferFinished_eq hupd.transfers
  refine ⟨u.sched, hupd.processed, ?_, ?_⟩
  · rw [hs₃]
    rfl
  · rw [hs₃]
    exact Finset.sdiff_subset

/-! ### Reset -/

/-- A request that is preempted for a reset. -/
def forced (r : Request) : Request :=
  { r.preempt with numOutputPlaceholders := 0, discardLatestAsyncTokens := true }

theorem forcePreempt_eq (h : s.forcePreempt id = .ok s') :
    (s.heap id).status = .running ∧ ∃ kv encoder, s' = { s.modify id forced with
      kvCacheManager := kv
      encoderCacheManager := encoder
      running := s.running.dropLast
      waiting := id :: s.waiting } := by
  obtain ⟨s₁, h₁, h⟩ := bind_ok.1 h
  obtain ⟨hst, kv, -, rfl⟩ := Step.preemptRequest_eq h₁
  cases h
  refine ⟨hst, kv, s.encoderCacheManager.free id (s.heap id), ?_⟩
  unfold modify forced
  dsimp only
  rw [update_self, update_idem]

theorem foldlM_forcePreempt_eq (l : List ℕ) : ∀ {s s' : Scheduler K}, s.running.Nodup →
    s.running.reverse = l → l.foldlM forcePreempt s = .ok s' →
    (∀ id ∈ l, (s.heap id).status = .running) ∧ ∃ kv encoder, s' = { s with
      kvCacheManager := kv
      encoderCacheManager := encoder
      heap := fun id => if id ∈ l then forced (s.heap id) else s.heap id
      running := []
      waiting := l.reverse ++ s.waiting } := by
  induction l with
  | nil =>
    intro s s' _ hl h
    cases h
    obtain ⟨⟩ := s
    cases reverse_eq_nil_iff.1 hl
    simp
  | cons a l ih =>
    intro s s' hnodup hl h
    obtain ⟨s₁, h₁, h⟩ := bind_ok.1 h
    obtain ⟨hst, kv, encoder, rfl⟩ := forcePreempt_eq h₁
    have hrun : s.running = l.reverse ++ [a] := by
      rw [← reverse_reverse s.running, hl, reverse_cons]
    have hdrop : s.running.dropLast = l.reverse := by rw [hrun, dropLast_concat]
    have ha : a ∉ l := by
      rw [← nodup_reverse, hl] at hnodup
      exact (nodup_cons.1 hnodup).1
    obtain ⟨hall, kv', encoder', rfl⟩ := ih (hnodup.sublist (dropLast_sublist _))
      (by rw [hdrop, reverse_reverse]) h
    refine ⟨?_, kv', encoder', ?_⟩
    · refine forall_mem_cons.2 ⟨hst, fun id hid => ?_⟩
      have := hall id hid
      rwa [modify_heap_of_ne _ _ (ne_of_mem_of_not_mem hid ha)] at this
    · have hheap : (fun id => if id ∈ l then forced ((s.modify a forced).heap id)
          else (s.modify a forced).heap id) =
          fun id => if id ∈ a :: l then forced (s.heap id) else s.heap id := by
        funext id
        by_cases he : id = a
        · rw [he, if_neg ha, if_pos mem_cons_self, modify_heap_self]
        · simp [modify_heap_of_ne _ _ he, mem_cons, he, false_or]
      rw [← hheap, reverse_cons, append_assoc]
      rfl

/-- Every running request is preempted, if this is asked for. -/
theorem resetPrefixCache_eq {resetRunningRequests resetConnector connectorReset success : Bool}
    (hs : s.running.Nodup)
    (h : s.resetPrefixCache resetRunningRequests resetConnector connectorReset =
      .ok (success, s')) :
    (resetRunningRequests = false ∧ ∃ kv, s' = { s with kvCacheManager := kv }) ∨
      (resetRunningRequests = true ∧ (∀ id ∈ s.running, (s.heap id).status = .running) ∧
        ∃ kv encoder, s' = { s with
          kvCacheManager := kv
          encoderCacheManager := encoder
          heap := fun id => if id ∈ s.running then forced (s.heap id) else s.heap id
          running := []
          waiting := s.running ++ s.waiting
          prevStepScheduledReqIds := ∅ }) := by
  obtain ⟨s₁, h₁, h⟩ := bind_ok.1 h
  have hs' : s' = { s₁ with
      kvCacheManager := (KVCacheManagerOps.resetPrefixCache s₁.kvCacheManager).1 } := by
    dsimp only at h
    split at h
    · cases h
    · cases h
      rfl
  cases resetRunningRequests with
  | false =>
    cases h₁
    exact .inl ⟨rfl, _, hs'⟩
  | true =>
    obtain ⟨s₂, h₂, h₁⟩ := bind_ok.1 h₁
    cases h₁
    obtain ⟨hall, kv, encoder, rfl⟩ := foldlM_forcePreempt_eq _ hs rfl h₂
    refine .inr ⟨rfl, fun id hid => hall id (mem_reverse.2 hid),
      (KVCacheManagerOps.resetPrefixCache kv).1, encoder, ?_⟩
    rw [hs']
    simp [mem_reverse, reverse_reverse]

/-! ### Draft tokens -/

omit [KVCacheManagerOps K] in
/-- Only the draft tokens of unfinished requests are changed. -/
theorem updateDraftTokenIds_eq (validateTokens : ℕ → List ℤ → List ℤ)
    (draftTokenIds : List (ℕ × List ℤ)) (s : Scheduler K) :
    ∃ spec : ℕ → List ℤ, s.updateDraftTokenIds validateTokens draftTokenIds =
        { s with heap := fun id => { s.heap id with specTokenIds := spec id } } ∧
      ∀ id, (id ∉ s.ids ∨ (s.heap id).isFinished = true) → spec id = (s.heap id).specTokenIds := by
  induction draftTokenIds generalizing s with
  | nil => exact ⟨fun id => (s.heap id).specTokenIds, rfl, fun _ _ => rfl⟩
  | cons draft drafts ih =>
    unfold updateDraftTokenIds at ih ⊢
    rw [foldl_cons]
    by_cases hid : draft.1 ∈ s.ids
    · have hget : s.get? draft.1 = some (s.heap draft.1) := if_pos hid
      rw [hget]
      dsimp only
      split
      · exact ih s
      · rename_i hfin
        obtain ⟨spec, heq, hspec⟩ := ih (s.modify draft.1 fun r =>
          { r with specTokenIds := validateTokens draft.1 draft.2 })
        refine ⟨spec, ?_, fun id hc => ?_⟩
        · rw [heq]
          exact congrArg (fun heap => ({ s with heap := heap } : Scheduler K))
            (map_modify (fun id r => { r with specTokenIds := spec id }) s fun _ => rfl)
        · have hne : id ≠ draft.1 := by
            rintro rfl
            exact hc.elim (fun h => h hid) hfin
          have := hspec id
          rw [modify_heap_of_ne _ _ hne] at this
          exact this hc
    · have hget : s.get? draft.1 = none := if_neg hid
      rw [hget]
      exact ih s

end Scheduler

end LoptVllm.Sched
