import LoptVllm.Sched.Calls
import LoptVllm.Sched.Managed

/-!
# Every unfinished request is in one queue

In every reachable state each unfinished request of `self.requests` is in exactly one of the two
queues, once, and it is in `self.running` exactly if its status is `RUNNING`. A finished request is
in no queue, and a request leaves `self.requests` only after it has finished.
-/

namespace LoptVllm.Sched

open List Function AList Or Request

open KVCacheManagerOps

/-- A request with this status waits. -/
def RequestStatus.Waits (status : RequestStatus) : Prop :=
  status ≠ .running ∧ status.isFinished = false

theorem waits_waiting : RequestStatus.Waits .waiting := ⟨by decide, rfl⟩

theorem waits_waitingForRemoteKvs : RequestStatus.Waits .waitingForRemoteKvs := ⟨by decide, rfl⟩

theorem waits_preempted : RequestStatus.Waits .preempted := ⟨by decide, rfl⟩

/-- The unfinished requests are in the queues, each once and in the queue of its status. -/
structure Queued (heap : ℕ → Request) (ids : Finset ℕ) (waiting running : List ℕ) : Prop where
  nodup : (running ++ waiting).Nodup
  isRunning : ∀ id ∈ running, id ∈ ids ∧ (heap id).status = .running
  waits : ∀ id ∈ waiting, id ∈ ids ∧ (heap id).status.Waits
  complete : ∀ id ∈ ids, (heap id).isFinished = true ∨ id ∈ running ∨ id ∈ waiting

namespace Queued

variable {heap heap' : ℕ → Request} {ids : Finset ℕ} {waiting waiting' running running' : List ℕ}
  {id : ℕ} {r : Request}

section

variable (h : Queued heap ids waiting running)

include h

theorem perm (hw : waiting'.Perm waiting)
    (hr : running'.Perm running) : Queued heap ids waiting' running' where
  nodup := (hr.append hw).nodup_iff.2 h.nodup
  isRunning id hid := h.isRunning id (hr.subset hid)
  waits id hid := h.waits id (hw.subset hid)
  complete id hid := (h.complete id hid).imp_right
    (imp (fun hmem => hr.symm.subset hmem) fun hmem => hw.symm.subset hmem)

theorem congr
    (hs : ∀ id, (heap' id).status = (heap id).status) : Queued heap' ids waiting running where
  nodup := h.nodup
  isRunning id hid := by rw [hs]; exact h.isRunning id hid
  waits id hid := by rw [hs]; exact h.waits id hid
  complete id hid := by
    unfold isFinished
    rw [hs]
    exact h.complete id hid

/-- A request changes, and stands in the queue of its new status. -/
theorem update (hnodup : (running' ++ waiting').Nodup)
    (hothers : ∀ i ≠ id, (i ∈ running' ↔ i ∈ running) ∧ (i ∈ waiting' ↔ i ∈ waiting)) (hid : id ∈ ids)
    (hr : id ∈ running' ∧ r.status = .running ∨ id ∈ waiting' ∧ r.status.Waits) :
    Queued (Function.update heap id r) ids waiting' running' := by
  have hdisj := (nodup_append'.1 hnodup).2.2
  refine ⟨hnodup, fun i hi => ?_, fun i hi => ?_, fun i hi => ?_⟩ <;> by_cases he : i = id
  · subst he
    rw [update_self]
    exact ⟨hid, (hr.resolve_right fun hw => hdisj hi hw.1).2⟩
  · rw [update_of_ne he]
    exact h.isRunning i ((hothers i he).1.1 hi)
  · subst he
    rw [update_self]
    exact ⟨hid, (hr.resolve_left fun hr => hdisj hr.1 hi).2⟩
  · rw [update_of_ne he]
    exact h.waits i ((hothers i he).2.1 hi)
  · exact .inr (he ▸ hr.imp And.left And.left)
  · rw [update_of_ne he]
    exact (h.complete i hi).imp_right (imp (hothers i he).1.2 (hothers i he).2.2)

end

theorem toWaiting (h : Queued heap ids waiting (id :: running)) (hr : r.status.Waits) :
    Queued (Function.update heap id r) ids (id :: waiting) running :=
  h.update (nodup_middle.2 h.nodup) (fun i hi => by simp [hi])
    (h.isRunning id (.head _)).1 (.inr ⟨.head _, hr⟩)

theorem toRunning (h : Queued heap ids (id :: waiting) running) (hr : r.status = .running) :
    Queued (Function.update heap id r) ids waiting (id :: running) :=
  h.update (nodup_middle.1 h.nodup) (fun i hi => by simp [hi])
    (h.waits id (.head _)).1 (.inl ⟨.head _, hr⟩)

section

variable (h : Queued heap ids waiting running)

include h

theorem stillWaiting (hid : id ∈ waiting)
    (hr : r.status.Waits) : Queued (Function.update heap id r) ids waiting running :=
  h.update h.nodup (fun _ _ => ⟨.rfl, .rfl⟩) (h.waits id hid).1 (.inr ⟨hid, hr⟩)

/-- A request that has ended, or that is not there any more, is in no queue. -/
theorem notMem (hid : id ∉ ids ∨ (heap id).isFinished = true) : id ∉ running ∧ id ∉ waiting := by
  refine ⟨fun hmem => ?_, fun hmem => ?_⟩
  · obtain ⟨hids, hst⟩ := h.isRunning id hmem
    rcases hid with hid | hfin
    · exact hid hids
    · unfold isFinished at hfin
      rw [hst] at hfin
      cases hfin
  · obtain ⟨hids, hst⟩ := h.waits id hmem
    rcases hid with hid | hfin
    · exact hid hids
    · exact absurd hfin (by rw [isFinished, hst.2]; decide)

/-- Some requests end and leave their queue, and ended requests leave `self.requests`. -/
theorem finish {ids' : Finset ℕ} {ended : List ℕ}
    (hs : ∀ id ∉ ended, (heap' id).status = (heap id).status)
    (hfin : ∀ id ∈ ended, (heap' id).isFinished = true) (hsub : ids' ⊆ ids)
    (hlost : ∀ id ∈ ids, id ∉ ids' → (heap' id).isFinished = true) : Queued heap' ids'
      (waiting.filter fun id => ¬ (id ∈ ended ∧ (heap id).status ≠ .running))
      (running.filter fun id => ¬ (id ∈ ended ∧ (heap id).status = .running)) := by
  have hmem : ∀ id ∈ ids, id ∉ ended → (heap id).isFinished = false →
      id ∈ ids' ∧ (heap' id).status = (heap id).status := by
    intro id hid hne hnot
    refine ⟨?_, hs id hne⟩
    by_contra hid'
    have := hlost id hid hid'
    rw [isFinished, hs id hne] at this
    exact absurd (this.symm.trans hnot) (by decide)
  refine ⟨?_, ?_, ?_, ?_⟩
  · exact h.nodup.sublist ((filter_sublist).append filter_sublist)
  · intro id hid
    obtain ⟨hid, hc⟩ := mem_filter.1 hid
    obtain ⟨hids, hst⟩ := h.isRunning id hid
    have hne : id ∉ ended := fun he => of_decide_eq_true hc ⟨he, hst⟩
    obtain ⟨hids', hst'⟩ := hmem id hids hne (by rw [isFinished, hst]; rfl)
    exact ⟨hids', hst'.trans hst⟩
  · intro id hid
    obtain ⟨hid, hc⟩ := mem_filter.1 hid
    obtain ⟨hids, hst⟩ := h.waits id hid
    have hne : id ∉ ended := fun he => of_decide_eq_true hc ⟨he, hst.1⟩
    obtain ⟨hids', hst'⟩ := hmem id hids hne hst.2
    exact ⟨hids', by rw [hst']; exact hst⟩
  · intro id hid
    by_cases he : id ∈ ended
    · exact .inl (hfin id he)
    · rw [isFinished, hs id he]
      refine (h.complete id (hsub hid)).imp_right (imp ?_ ?_)
      · exact fun hmem => mem_filter.2 ⟨hmem, decide_eq_true fun hc => he hc.1⟩
      · exact fun hmem => mem_filter.2 ⟨hmem, decide_eq_true fun hc => he hc.1⟩

end

end Queued

namespace Step

variable {K : Type} [KVCacheManagerOps K] {cfg : SchedulerConfig} {env : ScheduleEnv}

/-- The requests that wait during `schedule`. -/
def allWaiting (st : Step K) : List ℕ := st.skippedWaitingRequests.reverse ++ st.sched.waiting

/-- The invariant during `schedule`. -/
def Queued (st : Step K) : Prop :=
  Sched.Queued st.sched.heap st.sched.ids st.allWaiting st.sched.running

variable {st : Step K} {id : ℕ}

section

omit [KVCacheManagerOps K]

section

variable (hid : id ∈ st.sched.waiting)
include hid

theorem skipRequest_perm : (st.skipRequest id).allWaiting.Perm st.allWaiting := by
  unfold allWaiting skipRequest
  rw [reverse_cons, append_assoc]
  exact (perm_cons_erase hid).symm.append_left _

theorem erase_perm : (id :: (st.skippedWaitingRequests.reverse ++ st.sched.waiting.erase id)).Perm
      st.allWaiting :=
  perm_middle.symm.trans ((perm_cons_erase hid).symm.append_left _)

theorem mem_allWaiting : id ∈ st.allWaiting := mem_append_right _ hid

end

end

variable {st' : Step K}

/-- A move keeps every unfinished request in one queue. -/
theorem Move.queued (h : Move cfg env st st') (hq : st.Queued) : st'.Queued := by
  cases h with
  | tryEncoder hid h =>
    obtain ⟨m, rfl⟩ := tryEncoder_eq cfg env h
    exact hq
  | allocateFails hid h =>
    obtain ⟨kv, -, rfl⟩ := allocateRunning_eq h
    exact hq
  | @preempt _ victim _ _ hv h hkey =>
    have hpre := preempt_spec hv h
    obtain ⟨kv, running, -, hperm, hsched⟩ := hpre.sched
    -- the victim goes from `running` to `waiting`
    have hw := (hq.perm (List.Perm.refl _) hperm.symm).toWaiting
      (r := (st.sched.heap victim).preempt) waits_preempted
    unfold Step.Queued allWaiting
    rw [hpre.skipped, hsched]
    exact hw.perm perm_middle (List.Perm.refl _)
  | run hid hnew hkey hmax hn halloc h =>
    obtain ⟨kv, -, rfl⟩ := allocateRunning_eq halloc
    obtain ⟨m, inputs, budget, rfl⟩ := scheduleRunning_eq h
    refine hq.congr fun i => ?_
    show (Function.update st.sched.heap _ _ i).status = _
    rw [update_apply]
    split_ifs with hi
    · rw [hi]
    · rfl
  | recordLoras h =>
    obtain ⟨loras, rfl⟩ := recordLoras_eq h
    exact hq
  | @readyRemoteKv s id hid hst h =>
    obtain ⟨kv, n, recving, failed, heq⟩ := readyRemoteKv_eq h (st.readyStatus id)
    rw [heq]
    have hwaits : (st.readyStatus id).Waits := by
      unfold readyStatus
      split_ifs
      · exact waits_preempted
      · exact waits_waiting
    exact hq.stillWaiting (mem_allWaiting hid) hwaits
  | @readyFsm id hid hst =>
    exact hq.stillWaiting (mem_allWaiting hid) waits_waiting
  | skip hid => exact hq.perm (skipRequest_perm hid) (List.Perm.refl _)
  | allocateWaitingFails hid h =>
    obtain ⟨kv, args, -, -, -, -, -, -, rfl⟩ := allocateWaiting_eq h
    exact hq
  | @waitForRemoteKvs _ id _ _ hid hcomputed hasync halloc =>
    obtain ⟨kv, args, -, -, -, -, -, -, rfl⟩ := allocateWaiting_eq halloc
    have := hq.stillWaiting (mem_allWaiting hid)
      (r := { st.request id with status := .waitingForRemoteKvs }) waits_waitingForRemoteKvs
    exact this.perm (skipRequest_perm hid) (List.Perm.refl _)
  | @admitted _ _ id computed _ _ hid hpre hcap hlora hcomputed hpos hbudget hn halloc h =>
    obtain ⟨kv, args, -, -, -, -, -, -, rfl⟩ := allocateWaiting_eq halloc
    obtain ⟨m, inputs, budget, loras, newReqs, resumedReqs, -, rfl⟩ := admitRequest_eq h
    have := (hq.perm (erase_perm hid) (List.Perm.refl _)).toRunning (r := { st.request id with
        status := .running
        numComputedTokens := computed.numComputedTokens
        numCachedTokens := if (st.request id).numCachedTokens < 0 then computed.numComputedTokens
          else (st.request id).numCachedTokens }) rfl
    exact this.perm (List.Perm.refl _) (perm_append_singleton _ _)

/-- The moves of `schedule` keep every unfinished request in one queue, and do not touch the requests
that have ended. -/
theorem Moves.queued (h : Moves cfg env st st') (hq : st.Queued) :
    st'.Queued ∧ st'.sched.ids = st.sched.ids ∧ st'.sched.log = st.sched.log ∧
      st'.sched.finishedReqIds = st.sched.finishedReqIds ∧
      st'.sched.prevStepScheduledReqIds = st.sched.prevStepScheduledReqIds ∧
      ∀ id, (id ∉ st.sched.ids ∨ (st.sched.heap id).isFinished = true) →
        st'.sched.heap id = st.sched.heap id := by
  induction h with
  | refl => exact ⟨hq, rfl, rfl, rfl, rfl, fun _ _ => rfl⟩
  | tail _ hmove ih =>
    obtain ⟨hq₁, hids₁, hlog₁, hfin₁, hprev₁, hheap₁⟩ := ih
    obtain ⟨hids, hlog, hfin, hprev, hheap⟩ := hmove.frame
    refine ⟨hmove.queued hq₁, hids.trans hids₁, hlog.trans hlog₁, hfin.trans hfin₁,
      hprev.trans hprev₁, fun id hid => ?_⟩
    have hnot := Sched.Queued.notMem hq₁ (by rw [hids₁, hheap₁ id hid]; exact hid)
    rw [hheap id hnot.1 fun hmem => hnot.2 (mem_allWaiting hmem), hheap₁ id hid]

theorem Move.scheduled_running (h : Move cfg env st st')
    (hs : ∀ id ∈ st.numScheduledTokens, id ∈ st.sched.running) :
    ∀ id ∈ st'.numScheduledTokens, id ∈ st'.sched.running := by
  cases h with
  | tryEncoder hid h =>
    obtain ⟨m, rfl⟩ := tryEncoder_eq cfg env h
    exact hs
  | allocateFails hid h =>
    obtain ⟨kv, -, rfl⟩ := allocateRunning_eq h
    exact hs
  | preempt hv h hkey =>
    have hpre := preempt_spec hv h
    obtain ⟨kv, running, -, hperm, hsched⟩ := hpre.sched
    intro id hid
    have hne : id ≠ _ := ne_of_mem_of_not_mem hid hkey
    rw [← lookup_isSome, hpre.numScheduled id hne, lookup_isSome] at hid
    rw [hsched]
    exact (mem_cons.1 (hperm.subset (hs id hid))).resolve_left hne
  | run hid hnew hkey hmax hn halloc h =>
    obtain ⟨kv, -, rfl⟩ := allocateRunning_eq halloc
    obtain ⟨m, inputs, budget, rfl⟩ := scheduleRunning_eq h
    intro i hi
    rcases (mem_insert _).1 hi with rfl | hi
    · exact hid
    · exact hs i hi
  | recordLoras h =>
    obtain ⟨loras, rfl⟩ := recordLoras_eq h
    exact hs
  | readyRemoteKv hid hst h =>
    obtain ⟨kv, n, recving, failed, heq⟩ := readyRemoteKv_eq h (st.readyStatus _)
    rw [heq]
    exact hs
  | readyFsm | skip => exact hs
  | allocateWaitingFails hid h | waitForRemoteKvs hid _ _ h =>
    obtain ⟨kv, args, -, -, -, -, -, -, rfl⟩ := allocateWaiting_eq h
    exact hs
  | admitted hid hpre hcap hlora hcomputed hpos hbudget hn halloc h =>
    obtain ⟨kv, args, -, -, -, -, -, -, rfl⟩ := allocateWaiting_eq halloc
    obtain ⟨m, inputs, budget, loras, newReqs, resumedReqs, -, rfl⟩ := admitRequest_eq h
    intro i hi
    rcases (mem_insert _).1 hi with rfl | hi
    · exact mem_append_right _ (mem_singleton_self _)
    · exact mem_append_left _ (hs i hi)

omit [KVCacheManagerOps K] in
theorem notMem_scheduled (hq : st.Queued) (hs : ∀ id ∈ st.numScheduledTokens, id ∈ st.sched.running)
    (hid : id ∈ st.sched.waiting) : id ∉ st.numScheduledTokens := fun hmem =>
  (nodup_append'.1 hq.nodup).2.2 (hs id hmem) (mem_allWaiting hid)

/-- A property of one request that every move keeps, as long as the invariant holds and what is
scheduled is running, holds at the end of the moves. -/
theorem Moves.induct {P : Step K → Prop} (h : Moves cfg env st st') (hq : st.Queued)
    (hs : ∀ id ∈ st.numScheduledTokens, id ∈ st.sched.running)
    (hstep : ∀ {st₁ st₂ : Step K}, Move cfg env st₁ st₂ → st₁.Queued → st₁.sched.ids = st.sched.ids →
      (∀ id ∈ st₁.numScheduledTokens, id ∈ st₁.sched.running) → P st₁ → P st₂) (hP : P st) :
    P st' ∧ ∀ id ∈ st'.numScheduledTokens, id ∈ st'.sched.running := by
  induction h with
  | refl => exact ⟨hP, hs⟩
  | tail hmoves hmove ih =>
    obtain ⟨hq₁, hids, -⟩ := Moves.queued hmoves hq
    exact ⟨hstep hmove hq₁ hids ih.2 ih.1, hmove.scheduled_running ih.2⟩

end Step

section Calls

variable {K : Type} [KVCacheManagerOps K] {cfg : SchedulerConfig}

namespace Scheduler

/-- The invariant of the scheduler. -/
def Queued (s : Scheduler K) : Prop := Sched.Queued s.heap s.ids s.waiting s.running

/-- The request has been added and is not lost: it is in `self.requests`, or it has ended. -/
def Kept (s : Scheduler K) (id : ℕ) : Prop := id ∈ s.ids ∨ (s.heap id).isFinished = true

variable {s : Scheduler K}

omit [KVCacheManagerOps K] in
theorem Queued.running_nodup (h : s.Queued) : s.running.Nodup := (nodup_append'.1 h.nodup).1

variable {out : SchedulerOutput}

omit [KVCacheManagerOps K] in
theorem heapAfter_status {heap : ℕ → Request} (id : ℕ) :
    (heapAfter cfg out heap id).status = (heap id).status := by
  unfold heapAfter afterSchedule Request.addPlaceholders
  split
  · split_ifs <;> rfl
  · rfl

variable {s' : Scheduler K}

/-- `schedule` keeps `self.requests`, and does not touch requests that are not there or have
ended. -/
theorem Schedules.frame {env : ScheduleEnv} {st : Step K} (hq : s.Queued)
    (h : Schedules cfg env s st out s') :
    s'.ids = s.ids ∧ s'.log = s.log ∧ ∀ id, (id ∉ s.ids ∨ (s.heap id).isFinished = true) →
        id ∉ out.numScheduledTokens ∧ s'.heap id = s.heap id := by
  obtain ⟨hq', hids, hlog, -, -, hheap⟩ := h.moves.queued hq
  obtain ⟨-, hrun⟩ := h.moves.induct hq
    (fun _ hid => absurd hid (notMem_empty _)) (fun _ _ _ _ _ => trivial) trivial
  have hkeys : out.numScheduledTokens = st.numScheduledTokens := h.output.numScheduledTokens
  obtain ⟨encoder, rfl⟩ := h.state
  refine ⟨hids, hlog, fun id hid => ?_⟩
  have hnot : id ∉ out.numScheduledTokens := by
    intro hmem
    rw [hkeys] at hmem
    refine (Sched.Queued.notMem hq' ?_).1 (hrun id hmem)
    rw [hids, hheap id hid]
    exact hid
  refine ⟨hnot, ?_⟩
  show heapAfter cfg out st.sched.heap id = _
  unfold heapAfter
  rw [lookup_eq_none.2 hnot]
  exact hheap id hid

theorem queued_schedule {env : ScheduleEnv} (hq : s.Queued)
    (h : s.schedule cfg env = .ok (out, s')) : s'.Queued ∧ ∀ id, s.Kept id → s'.Kept id := by
  obtain ⟨st, hs⟩ := schedule_eq hq.running_nodup h
  obtain ⟨hids, -, hheap⟩ := hs.frame hq
  obtain ⟨hq', -⟩ := hs.moves.queued hq
  obtain ⟨encoder, rfl⟩ := hs.state
  refine ⟨Sched.Queued.congr hq' heapAfter_status, fun id hkept => ?_⟩
  by_cases hid : id ∈ s.ids
  · exact .inl (hids ▸ hid)
  · refine .inr ?_
    rw [(hheap id (.inl hid)).2]
    exact hkept.resolve_left hid

variable {requestFinished : RequestFinished}

theorem queued_finishRequests {requestIds : List ℕ} {status : RequestStatus} (hq : s.Queued)
    (h : s.finishRequests cfg requestFinished requestIds status = .ok s') :
    s'.Queued ∧ ∀ id, s.Kept id → s'.Kept id := by
  obtain ⟨hstatus, kv, encoder, rfl⟩ := finishRequests_eq hq.running_nodup h
  refine ⟨?_, ?_⟩
  · have hkeep : ∀ id, id ∉ s.validRequests requestIds →
        (if id ∈ s.validRequests requestIds then { s.heap id with status := status }
          else s.heap id).status = (s.heap id).status :=
      fun id hid => congrArg Request.status (if_neg hid)
    refine Sched.Queued.finish hq hkeep ?_ ?_ ?_
    · intro id hid
      dsimp only
      rw [if_pos hid]
      exact hstatus
    · exact Finset.filter_subset _ _
    · intro id hid hnot
      rw [Finset.mem_filter, not_and, Classical.not_imp] at hnot
      dsimp only
      rw [if_pos (hnot hid).1]
      exact hstatus
  · intro id hkept
    by_cases hid : id ∈ s.validRequests requestIds
    · refine .inr ?_
      dsimp only
      rw [if_pos hid]
      exact hstatus
    · unfold Kept
      dsimp only
      rw [if_neg hid, Finset.mem_filter]
      exact hkept.imp_left fun h => ⟨h, fun hc => absurd hc hid⟩

omit [KVCacheManagerOps K] in
theorem queued_addRequest {id : ℕ} {request : EngineCoreRequest} (hq : s.Queued)
    (hid : id ∉ s.ids) : (s.addRequest id request).Queued ∧
      ∀ i, s.Kept i ∨ i = id → (s.addRequest id request).Kept i := by
  obtain ⟨hrun, hwait⟩ := Sched.Queued.notMem hq (.inl hid)
  have hheap : ∀ i, i ≠ id → (s.addRequest id request).heap i = s.heap i := fun i hi =>
    update_of_ne hi _ _
  have hself : (s.addRequest id request).heap id = fromEngineCoreRequest request :=
    update_self _ _ _
  refine ⟨⟨?_, ?_, ?_, ?_⟩, ?_⟩
  · show (s.running ++ (s.waiting ++ [id])).Nodup
    rw [← append_assoc]
    refine nodup_append'.2 ⟨hq.nodup, nodup_singleton _, ?_⟩
    refine disjoint_singleton.2 fun hmem => ?_
    exact (mem_append.1 hmem).elim hrun hwait
  · intro i hi
    rw [hheap i (ne_of_mem_of_not_mem hi hrun)]
    exact ⟨Finset.mem_insert_of_mem (hq.isRunning i hi).1, (hq.isRunning i hi).2⟩
  · intro i hi
    rcases mem_append.1 hi with hi | hi
    · rw [hheap i (ne_of_mem_of_not_mem hi hwait)]
      exact ⟨Finset.mem_insert_of_mem (hq.waits i hi).1, (hq.waits i hi).2⟩
    · rw [mem_singleton.1 hi, hself]
      refine ⟨Finset.mem_insert_self _ _, ?_⟩
      unfold fromEngineCoreRequest
      split_ifs
      · exact ⟨nofun, rfl⟩
      · exact waits_waiting
  · intro i hi
    by_cases he : i = id
    · rw [he]
      exact .inr (.inr (mem_append_right _ (mem_singleton_self id)))
    · rw [hheap i he]
      refine (hq.complete i ((Finset.mem_insert.1 hi).resolve_left he)).imp_right
        (imp_right fun hmem => ?_)
      exact mem_append_left _ hmem
  · intro i hi
    by_cases he : i = id
    · rw [he]
      exact .inl (Finset.mem_insert_self _ _)
    · refine (hi.resolve_right he).imp (fun h => Finset.mem_insert_of_mem h) fun h => ?_
      rwa [hheap i he]

omit [KVCacheManagerOps K] in
/-- A change of the requests that keeps what they are in, and their status. -/
theorem queued_congr (hq : s.Queued) (hids : s'.ids = s.ids) (hw : s'.waiting = s.waiting)
    (hr : s'.running = s.running) (hs : ∀ id, (s'.heap id).status = (s.heap id).status) :
    s'.Queued ∧ ∀ id, s.Kept id → s'.Kept id := by
  refine ⟨?_, fun id hkept => ?_⟩
  · unfold Queued
    rw [hids, hw, hr]
    exact Sched.Queued.congr hq hs
  · unfold Kept isFinished
    rw [hids, hs]
    exact hkept

theorem queued_resetPrefixCache {resetRunningRequests resetConnector connectorReset success : Bool}
    (hq : s.Queued) (h : s.resetPrefixCache resetRunningRequests resetConnector connectorReset =
      .ok (success, s')) : s'.Queued ∧ ∀ id, s.Kept id → s'.Kept id := by
  obtain ⟨-, kv, rfl⟩ | ⟨-, -, kv, encoder, rfl⟩ := resetPrefixCache_eq hq.running_nodup h
  · exact queued_congr hq rfl rfl rfl fun _ => rfl
  · refine ⟨⟨?_, ?_, ?_, ?_⟩, fun id hkept => ?_⟩
    · exact hq.nodup
    · exact nofun
    · intro id hid
      dsimp only at hid ⊢
      by_cases hrun : id ∈ s.running
      · rw [if_pos hrun]
        exact ⟨(hq.isRunning id hrun).1, waits_preempted⟩
      · rw [if_neg hrun]
        exact hq.waits id ((mem_append.1 hid).resolve_left hrun)
    · intro id hid
      dsimp only at hid ⊢
      by_cases hrun : id ∈ s.running
      · exact .inr (.inr (mem_append_left _ hrun))
      · rw [if_neg hrun]
        refine (hq.complete id hid).imp_right (imp (fun h => absurd h hrun) fun hmem => ?_)
        exact mem_append_right _ hmem
    · by_cases hid : id ∈ s.ids
      · exact .inl hid
      · refine .inr ?_
        dsimp only
        rw [if_neg fun hrun => hid (hq.isRunning id hrun).1]
        exact hkept.resolve_left hid

/-! ### `update_from_output` -/

/-- The invariant during `update_from_output`: the requests that stopped are still in a queue. -/
def Updating (u : Update K) : Prop := Sched.Queued u.sched.heap u.sched.ids
    (u.sched.waiting.filter fun id => id ∉ u.stoppedPreemptedReqs)
    (u.sched.running.filter fun id => id ∉ u.stoppedRunningReqs)

theorem filter_notMem_append (l stopped : List ℕ) (id : ℕ) (p : ℕ → Prop) [DecidablePred p]
    {q : Prop} [Decidable q] (hq : q ↔ p id) :
    (l.filter fun i => i ∉ if q then stopped ++ [id] else stopped) =
      (l.filter fun i => i ∉ stopped).filter fun i => ¬ (i ∈ [id] ∧ p i) := by
  rw [filter_filter]
  refine filter_congr fun i _ => ?_
  by_cases he : i = id
  · subst he
    by_cases h : q
    · simp [h, hq.1]
    · have hp : ¬ p i := fun hp => h (hq.2 hp)
      simp [h, hp]
  · split_ifs <;> simp [he]

variable {result : ModelRunnerOutput}

omit [KVCacheManagerOps K] in
theorem updating_updatesRequest {u u' : Update K} {id : ℕ} {r' : Request} {newTokenIds : List ℕ}
    {stopped : Bool} (hq : Updating u)
    (h : UpdatesRequest cfg requestFinished out result u id r' newTokenIds stopped u') :
    Updating u' ∧ ∀ i, u.sched.Kept i → u'.sched.Kept i := by
  obtain ⟨kv, encoder, hsched⟩ := h.sched
  have hw : u'.sched.waiting = u.sched.waiting := by rw [hsched]
  have hr : u'.sched.running = u.sched.running := by rw [hsched]
  have hheap : u'.sched.heap = Function.update u.sched.heap id r' := by rw [hsched]
  unfold Updating
  rw [h.stoppedRunningReqs, h.stoppedPreemptedReqs, hw, hr]
  obtain ⟨rfl, hst⟩ | ⟨rfl, hfin⟩ := h.status.2
  · -- the request goes on, with the same status
    have hstatus : ∀ i, (u'.sched.heap i).status = (u.sched.heap i).status := by
      intro i
      rw [hheap, update_apply]
      split_ifs with he
      · rw [he, hst]
      · rfl
    have hids : u'.sched.ids = u.sched.ids := by
      rw [hsched]
      rfl
    rw [if_neg (fun h => by cases h.1), if_neg (fun h => by cases h.1), hids]
    refine ⟨Sched.Queued.congr hq hstatus, fun i hkept => ?_⟩
    unfold Kept isFinished
    rw [hstatus, hids]
    exact hkept
  · -- the request has stopped, and leaves its queue
    have hids : u'.sched.ids ⊆ u.sched.ids ∧ ∀ i ∈ u.sched.ids, i ∉ u'.sched.ids → i = id := by
      rw [hsched]
      dsimp only
      split_ifs
      · refine ⟨Finset.erase_subset _ _, fun i hi hni => ?_⟩
        by_contra he
        exact hni (Finset.mem_erase.2 ⟨he, hi⟩)
      · exact ⟨Finset.Subset.refl _, fun i hi hni => absurd hi hni⟩
    have hne : ∀ i, i ≠ id → u'.sched.heap i = u.sched.heap i := by
      intro i hi
      rw [hheap, update_of_ne hi]
    have hself : (u'.sched.heap id).isFinished = true := by
      rw [hheap, update_self]
      exact hfin
    refine ⟨?_, fun i hkept => ?_⟩
    · rw [filter_notMem_append _ _ id (fun i => (u.sched.heap i).status = .running)
          (and_iff_right rfl),
        filter_notMem_append _ _ id (fun i => (u.sched.heap i).status ≠ .running)
          (and_iff_right rfl)]
      refine Sched.Queued.finish hq ?_ ?_ hids.1 ?_
      · intro i hi
        rw [hne i (ne_of_not_mem_cons hi)]
      · intro i hi
        rw [mem_singleton.1 hi]
        exact hself
      · intro i hi hni
        rw [hids.2 i hi hni]
        exact hself
    · by_cases he : i = id
      · rw [he]
        exact .inr hself
      · unfold Kept
        rw [hne i he]
        refine hkept.imp_left fun hi => ?_
        by_contra hni
        exact he (hids.2 i hi hni)

theorem updating_foldlM {failed : List ℕ} {entries : List (Σ _ : ℕ, ℤ)} {u u' : Update K}
    (hq : Updating u)
    (h : entries.foldlM (updateBody cfg requestFinished out result failed) u = .ok u') :
    Updating u' ∧ u'.sched.running = u.sched.running ∧ ∀ i, u.sched.Kept i → u'.sched.Kept i := by
  refine foldlM_induction (P := fun u' : Update K => Updating u' ∧
    u'.sched.running = u.sched.running ∧ ∀ i, u.sched.Kept i → u'.sched.Kept i) ?_
    ⟨hq, rfl, fun _ hkept => hkept⟩ h
  intro u₁ entry _ u₂ ⟨hq₁, hrun₁, hkept₁⟩ h₂
  obtain ⟨-, ⟨-, rfl⟩ | ⟨-, -, r', newTokenIds, stopped, hupd⟩⟩ := updateBody_eq h₂
  · exact ⟨hq₁, hrun₁, hkept₁⟩
  · obtain ⟨hq₂, hkept₂⟩ := updating_updatesRequest hq₁ hupd
    obtain ⟨kv, encoder, hsched⟩ := hupd.sched
    refine ⟨hq₂, ?_, fun i hi => hkept₂ i (hkept₁ i hi)⟩
    rw [hsched]
    exact hrun₁

omit [KVCacheManagerOps K] in
/-- The end of the loop: the stopped requests leave the queues. -/
theorem queued_removeStopped {u : Update K} (hr : u.sched.running.Nodup) (hq : Updating u) :
    (removeStopped u).Queued := by
  unfold Queued removeStopped
  rw [removeAll_eq hr]
  exact hq

theorem queued_updateFromKvXferFinished {kvOutput : Option KVConnectorOutput} (hq : s.Queued)
    (h : s.updateFromKvXferFinished kvOutput = .ok s') :
    s'.Queued ∧ ∀ id, s.Kept id → s'.Kept id := by
  obtain ⟨sending, kv, recving, -, hsending, rfl⟩ := updateFromKvXferFinished_eq h
  refine ⟨?_, fun id hkept => ?_⟩
  · have hkeep : ∀ id, id ∉ ([] : List ℕ) → (s.heap id).status = (s.heap id).status :=
      fun _ _ => rfl
    have hsub : s.ids \ sending.toFinset ⊆ s.ids := Finset.sdiff_subset
    have := Sched.Queued.finish hq hkeep nofun hsub ?_
    · simpa [Queued] using this
    · intro id hid hnot
      by_contra hfin
      refine hnot (Finset.mem_sdiff.2 ⟨hid, fun hmem => hfin ?_⟩)
      exact (hsending id (mem_toFinset.1 hmem)).2
  · by_cases hid : id ∈ sending
    · exact .inr (hsending id hid).2
    · refine hkept.imp_left fun h => Finset.mem_sdiff.2 ⟨h, fun hmem => ?_⟩
      exact hid (mem_toFinset.1 hmem)

omit [KVCacheManagerOps K] in
theorem updating_start (hq : s.Queued) : Updating ⟨s, [], [], []⟩ := by
  unfold Updating
  simp only [not_mem_nil, not_false_eq_true, decide_true, filter_true]
  exact hq

theorem queued_updateFromOutput {outputs : List EngineCoreOutput} (hq : s.Queued)
    (h : s.updateFromOutput cfg requestFinished out result = .ok (s', outputs)) :
    s'.Queued ∧ ∀ id, s.Kept id → s'.Kept id := by
  obtain ⟨failed, s₁, u, s₃, h₁, h₂, ⟨outputs', h₃, -⟩, h₄⟩ := updateFromOutput_eq h
  obtain ⟨-, n, kv, recving, rfl, -⟩ := failedLoads_eq h₁
  let s₁ : Scheduler K := { s with
    kvCacheManager := kv
    heap := fun id => { s.heap id with numComputedTokens := n id }
    failedRecvingKvReqIds := recving }
  have hids : s₁.ids = s.ids := rfl
  obtain ⟨hq₁, hkept₁⟩ := queued_congr hq hids rfl rfl fun _ => rfl
  obtain ⟨hq₂, hrun, hkept₂⟩ := updating_foldlM (updating_start hq₁) h₂
  have hq₂ := queued_removeStopped (by rw [hrun]; exact hq.running_nodup) hq₂
  have hq₃ : s₃.Queued ∧ ∀ id, (removeStopped u).Kept id → s₃.Kept id := by
    obtain ⟨rfl, -⟩ | ⟨-, hfinish, -⟩ := failRequests_eq h₃
    · exact ⟨hq₂, fun _ hid => hid⟩
    · exact queued_finishRequests hq₂ hfinish
  obtain ⟨hq₄, hkept₄⟩ := queued_updateFromKvXferFinished hq₃.1 h₄
  exact ⟨hq₄, fun id hid => hkept₄ id (hq₃.2 id (hkept₂ id (hkept₁ id hid)))⟩

/-! ### Runs -/

theorem queued_step {call : SchedulerCall} (hq : s.Queued) (hcall : s.Admissible call)
    (h : s.step cfg call = .ok s') :
    s'.Queued ∧ ∀ id, s.Kept id ∨ id ∈ added call → s'.Kept id := by
  have hold : ∀ {s s' : Scheduler K}, s'.Queued ∧ (∀ id, s.Kept id → s'.Kept id) →
      s'.Queued ∧ ∀ id, s.Kept id ∨ id ∈ (∅ : Finset ℕ) → s'.Kept id :=
    fun h => ⟨h.1, fun id hid => h.2 id (hid.resolve_right (Finset.notMem_empty id))⟩
  cases call with
  | addRequest id request =>
    cases h
    obtain ⟨hq', hkept⟩ : (s.addRequest id request).Queued ∧ _ := queued_addRequest hq hcall
    exact ⟨hq', fun i hi => hkept i (hi.imp_right Finset.mem_singleton.1)⟩
  | schedule env =>
    obtain ⟨⟨out, s₁⟩, h₁, rfl⟩ := map_eq_ok.1 h
    exact hold (queued_schedule hq h₁)
  | updateFromOutput requestFinished out result =>
    obtain ⟨⟨s₁, outputs⟩, h₁, rfl⟩ := map_eq_ok.1 h
    exact hold (queued_updateFromOutput hq h₁)
  | finishRequests requestFinished requestIds finishedStatus =>
    exact hold (queued_finishRequests hq h)
  | updateDraftTokenIds validateTokens draftTokenIds =>
    cases h
    obtain ⟨spec, heq, -⟩ := updateDraftTokenIds_eq validateTokens draftTokenIds s
    rw [heq]
    exact hold (queued_congr hq rfl rfl rfl fun _ => rfl)
  | resetPrefixCache resetRunningRequests resetConnector connectorReset =>
    obtain ⟨⟨success, s₁⟩, h₁, rfl⟩ := map_eq_ok.1 h
    exact hold (queued_resetPrefixCache hq h₁)

theorem Reachable.queued {ids : Finset ℕ} (h : Reachable cfg ids s) :
    s.Queued ∧ ∀ id ∈ ids, s.Kept id := by
  induction h with
  | new kv encoder heap =>
    refine ⟨⟨nodup_nil, ?_, ?_, ?_⟩, fun _ hid => absurd hid (Finset.notMem_empty _)⟩
    · exact nofun
    · exact nofun
    · exact fun _ hid => absurd hid (Finset.notMem_empty _)
  | step _ hcall h ih =>
    obtain ⟨hq, hkept⟩ := queued_step ih.1 hcall h
    exact ⟨hq, fun id hid => hkept id ((Finset.mem_union.1 hid).imp_left (ih.2 id))⟩

/-- Every unfinished request is in one queue, once, and in `self.running` exactly if it runs; the
requests that were added are still there or have ended. -/
structure Partitioned (s : Scheduler K) (added : Finset ℕ) : Prop where
  once : ∀ id ∈ s.ids, (s.heap id).isFinished = false → s.running.count id + s.waiting.count id = 1
  running_iff : ∀ id ∈ s.ids, (s.heap id).isFinished = false →
    (id ∈ s.running ↔ (s.heap id).status = .running)
  finished : ∀ id, (s.heap id).isFinished = true → id ∉ s.running ∧ id ∉ s.waiting
  known : ∀ id, id ∈ s.running ∨ id ∈ s.waiting → id ∈ s.ids
  kept : ∀ id ∈ added, id ∈ s.ids ∨ (s.heap id).isFinished = true

/-- **In every reachable state every unfinished request is in exactly one queue**, and in
`self.running` exactly if its status is `RUNNING`; no finished request is in a queue, and no request
is lost. -/
theorem reachable_partition {ids : Finset ℕ} {s : Scheduler K} (h : Reachable cfg ids s) :
    s.Partitioned ids := by
  obtain ⟨hq, hkept⟩ := h.queued
  refine ⟨fun id hid hnot => ?_, fun id hid hnot => ⟨fun hrun => ?_, fun hst => ?_⟩,
    fun id hfin => hq.notMem (.inr hfin), fun id hid => ?_, hkept⟩
  · rw [← count_append]
    refine count_eq_one_of_mem hq.nodup (mem_append.2 ?_)
    exact (hq.complete id hid).resolve_left fun hfin => by rw [hfin] at hnot; cases hnot
  · exact (hq.isRunning id hrun).2
  · have hqueue := (hq.complete id hid).resolve_left fun hfin => by
      rw [hfin] at hnot
      cases hnot
    exact hqueue.resolve_right fun hwait => (hq.waits id hwait).2.1 hst
  · exact hid.elim (fun h => (hq.isRunning id h).1) fun h => (hq.waits id h).1

/-- A scheduler with two requests. -/
def twoRequests : Scheduler (HashedKVCacheManager smallHasher) :=
  ((new smallKVCacheManager ⟨false, 0, 0, ∅, ∅, []⟩ fun _ =>
    .fromEngineCoreRequest smallRequest).addRequest 0 smallRequest).addRequest 1 smallRequest

theorem reachable_twoRequests : Reachable smallConfig {0, 1} twoRequests := by
  refine ((Reachable.new _ _ _).step (show Admissible _ (.addRequest 0 smallRequest) from
    Finset.notMem_empty 0) rfl).step (show Admissible _ (.addRequest 1 smallRequest) from ?_) rfl
  show 1 ∉ _
  decide

/-- Two requests are added, and the first is scheduled. -/
theorem reachable_partition_small : ∃ s : Scheduler (HashedKVCacheManager smallHasher),
      s.running = [0] ∧ s.waiting = [1] ∧ s.Partitioned {0, 1} := by
  obtain ⟨s, hs, hqueues⟩ := exists_ok_of_map (c := ([0], [1]))
    (f := fun s : Scheduler (HashedKVCacheManager smallHasher) => (s.running, s.waiting))
    (show (twoRequests.step smallConfig (.schedule smallEnv)).toOption.map _ = _ by decide)
  obtain ⟨hrun, hwait⟩ := Prod.mk.inj hqueues
  exact ⟨s, hrun, hwait, reachable_partition
    (reachable_twoRequests.step (show twoRequests.Admissible (.schedule smallEnv) from trivial) hs)⟩

end Scheduler

end Calls

end LoptVllm.Sched
