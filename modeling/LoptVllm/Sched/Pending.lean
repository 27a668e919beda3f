import LoptVllm.Sched.Drafts

/-!
# Requests with a token in flight

A step in flight that samples for a request has a token of it that the scheduler does not know yet.
The base scheduler does not wait for it: it just finds nothing to compute for such a request, as
long as the request keeps running and has no draft tokens.
-/

namespace LoptVllm.Sched

open List Option Function AList Scheduler

variable {K : Type} [KVCacheManagerOps K] {cfg : SchedulerConfig} {env : ScheduleEnv}

/-- The worker samples for each range that reaches the end of the tokens of the request, at most one
token more than there are draft tokens, and for no other one. -/
def WorkerGenerates (x : InFlight) (result : ModelRunnerOutput) : Prop :=
  ∀ id ∈ x.out.numScheduledTokens.keys, if x.Samples id then
      1 ≤ result.numSampled id ∧ result.numSampled id ≤ 1 + x.out.numDraftTokens id
    else result.numSampled id = 0

/-- A structured-output request is not a pooling request. -/
theorem EngineCoreRequest.isPooling_of_structured {r : EngineCoreRequest}
    (h : r.useStructuredOutput = true) : r.isPooling = false := by
  unfold useStructuredOutput at h
  unfold isPooling
  split at h
  · rfl
  · cases h

/-! ### The output of a step -/

namespace Scheduler

theorem adjustRejected_eq (numDraft : ℕ) (generated : List ℕ) (r : Request) :
    adjustRejected numDraft generated r = { r with
      numComputedTokens := if numDraft ≠ 0 ∧ 0 < r.numComputedTokens then
        r.numComputedTokens - (numDraft - (generated.length - 1)) else r.numComputedTokens
      numOutputPlaceholders := if numDraft ≠ 0 ∧ 0 < r.numOutputPlaceholders then
        r.numOutputPlaceholders - (numDraft - (generated.length - 1))
        else r.numOutputPlaceholders } := by
  unfold adjustRejected
  by_cases h : numDraft = 0
  · rw [if_pos h, if_neg fun hc => hc.1 h, if_neg fun hc => hc.1 h]
  · rw [if_neg h]
    simp [ne_eq, h, not_false_eq_true, true_and]

theorem AppliesOutput.continues {r r' : Request} {generated newTokenIds : List ℕ} {pooled : Bool}
    (h : AppliesOutput cfg r generated pooled r' newTokenIds false)
    (hdiscard : cfg.isAsync = true → r.discardLatestAsyncTokens = false) :
    ∃ stopReason, r' = { r with
      outputTokenIds := r.outputTokenIds ++ generated
      stopReason := stopReason
      numOutputPlaceholders := if cfg.isAsync then r.numOutputPlaceholders - generated.length
        else r.numOutputPlaceholders } := by
  cases h with
  | tokens hne h =>
    cases h with
    | discard hasync hflag =>
      rw [hdiscard hasync] at hflag
      cases hflag
    | base hasync h =>
      obtain ⟨status, stopReason, rfl, hcase⟩ := appendTokens_eq _ h
      obtain ⟨-, rfl, rfl⟩ | ⟨hstopped, -⟩ := hcase
      · exact ⟨stopReason, by rw [hasync]; rfl⟩
      · cases hstopped
    | async hasync _ h =>
      obtain ⟨status, stopReason, rfl, hcase⟩ := appendTokens_eq _ h
      obtain ⟨-, rfl, rfl⟩ | ⟨hstopped, -⟩ := hcase
      · exact ⟨stopReason, by rw [hasync]; rfl⟩
      · cases hstopped
  | nothing hempty =>
    refine ⟨r.stopReason, ?_⟩
    rw [hempty, append_nil, length_nil, Int.natCast_zero, sub_zero, ite_self]

end Scheduler

variable {x : InFlight} {result : ModelRunnerOutput}

/-- What the output of a step is for a request that it is about. -/
theorem WorkerGenerates.length {id : ℕ}
    {generated : List ℕ} {pooled : Bool} (h : WorkerGenerates x result)
    (hid : id ∈ x.out.numScheduledTokens) (hget : result.get id = .ok (generated, pooled)) :
    (x.Samples id → 1 ≤ generated.length ∧ generated.length ≤ 1 + x.out.numDraftTokens id) ∧
      (¬ x.Samples id → generated = []) := by
  have hnum := h id (mem_keys.1 hid)
  unfold ModelRunnerOutput.numSampled at hnum
  rw [hget] at hnum
  refine ⟨fun hsamp => ?_, fun hsamp => ?_⟩
  · rw [if_pos hsamp] at hnum
    exact hnum
  · rw [if_neg hsamp] at hnum
    exact eq_nil_of_length_eq_zero hnum

/-! ### Invariants of single requests -/

omit [KVCacheManagerOps K] in
/-- The requests in `self.waiting` are those of `self.requests` whose status says so. -/
theorem Scheduler.Queued.mem_waiting_iff {s : Scheduler K} (hq : s.Queued) {id : ℕ} :
    id ∈ s.waiting ↔ id ∈ s.ids ∧ (s.heap id).status.Waits := by
  refine ⟨fun hid => hq.waits id hid, fun ⟨hid, hne, hfin⟩ => ?_⟩
  rcases hq.complete id hid with h | h | h
  · exact absurd (h.symm.trans hfin) (by decide)
  · exact absurd (hq.isRunning id h).2 hne
  · exact h

namespace Engine

/-- `I` holds of every unfinished structured-output request and the steps in flight. -/
def Each (I : List InFlight → ℕ → Request → Prop) (e : Engine K) : Prop :=
  ∀ id ∈ e.sched.ids, (e.sched.heap id).useStructuredOutput = true →
    (e.sched.heap id).isFinished = false → I e.inFlight id (e.sched.heap id)

variable {call : EngineCall}

/-- A call keeps what holds of every unfinished structured-output request, if `add_request`
establishes it, and `schedule`, the output of a step and draft tokens keep it. -/
theorem Steps.each {I : List InFlight → ℕ → Request → Prop} {e e' : Engine K}
    (h : Steps cfg e call e') (hcall : e.Admissible call) (hq : e.sched.Queued) (ha : e.AllAdded)
    (hreset : ∀ a b c, call ≠ .resetPrefixCache a b c)
    (hno : ∀ {requestFinished result}, call = .updateFromOutput requestFinished result →
      NoInvalidBlocks result)
    (hadd : ∀ {id request}, (∀ x ∈ e.inFlight, id ∉ x.out.numScheduledTokens) →
      I e.inFlight id (.fromEngineCoreRequest request))
    (hschedule : ∀ {env out s st}, call = .schedule env →
      Schedules cfg env e.sched st out s → ∀ id ∈ e.sched.ids,
        (e.sched.heap id).useStructuredOutput = true → (e.sched.heap id).isFinished = false →
        I e.inFlight id (e.sched.heap id) → I (e.inFlight ++ [⟨out, s.heap, ∅⟩]) id (s.heap id))
    (hskip : ∀ {x inFlight id r}, id ∉ x.out.numScheduledTokens → I (x :: inFlight) id r →
      I inFlight id r)
    (hprocess : ∀ {requestFinished result x inFlight id r r' generated newTokenIds pooled},
      call = .updateFromOutput requestFinished result → e.inFlight = x :: inFlight →
      r.useStructuredOutput = true → id ∈ x.out.numScheduledTokens →
      result.get id = .ok (generated, pooled) →
      AppliesOutput cfg (adjustRejected (x.out.numDraftTokens id) generated r)
        generated pooled r' newTokenIds false →
      I (x :: inFlight) id r → I inFlight id r')
    (hdraft : ∀ {validateTokens draftTokenIds inFlight id r spec},
      call = .updateDraftTokenIds validateTokens draftTokenIds → I inFlight id r →
      I inFlight id { r with specTokenIds := spec })
    (hI : e.Each I) : e'.Each I := by
  cases h with
  | @addRequest a request =>
    intro id hid hstruct hfin
    by_cases he : id = a
    -- the new request
    · subst he
      have hheap : (e.sched.addRequest id request).heap id = .fromEngineCoreRequest request :=
        update_self _ _ _
      rw [hheap]
      exact hadd fun x hx hmem => hcall (ha.scheduled x hx id hmem)
    · have hheap : (e.sched.addRequest a request).heap id = e.sched.heap id := update_of_ne he _ _
      rw [hheap] at hstruct hfin ⊢
      exact hI id ((Finset.mem_insert.1 hid).resolve_left he) hstruct hfin
  | @schedule env out s h =>
    intro id hid hstruct hfin
    obtain ⟨st, hs⟩ := schedule_eq hq.running_nodup h
    obtain ⟨hids, -, hframe⟩ := hs.frame hq
    have hid : id ∈ e.sched.ids := hids ▸ hid
    have hstruct₀ : (e.sched.heap id).useStructuredOutput = true := by
      rw [← hs.toEngineCoreRequest hq]
      exact hstruct
    have hfin₀ : (e.sched.heap id).isFinished = false := by
      by_contra hnot
      rw [(hframe id (.inr (eq_true_of_ne_false hnot))).2] at hfin
      exact hnot hfin
    exact hschedule rfl hs id hid hstruct₀ hfin₀ (hI id hid hstruct₀ hfin₀)
  | @updateFromOutput x inFlight requestFinished result s outputs hx h =>
    intro id hid hstruct hfin
    obtain ⟨s₂, hprocessed, hheap, hids⟩ := updateFromOutput_processed (hno rfl) h
    have hid := hids hid
    rw [hheap] at hstruct hfin ⊢
    -- what the output of the step does to this request
    cases hprocessed id with
    | skipped hskipped hheap' hids' =>
      rw [hheap'] at hstruct hfin ⊢
      have hI := hI id (hids'.1 hid) hstruct hfin
      rw [hx] at hI
      refine hskip (fun hmem => ?_) hI
      rcases hskipped with hnot | hnot | hnot
      · exact hnot (mem_visited.2 hmem)
      · exact not_mem_nil hnot
      · exact hnot (hids'.1 hid)
    | @updated generated newTokenIds pooled stopped hkey _ hid₀ hget happlies =>
      obtain ⟨hreq, hstatus⟩ := happlies.status
      obtain ⟨hreq₀, hstatus₀⟩ :=
        adjustRejected_status (x.out.numDraftTokens id) generated (e.sched.heap id)
      rw [hreq₀] at hreq
      rw [hstatus₀] at hstatus
      rcases hstatus with ⟨rfl, hstatus⟩ | ⟨-, hfin'⟩
      · rw [hreq] at hstruct
        rw [Request.isFinished, hstatus] at hfin
        have hI := hI id hid₀ hstruct hfin
        rw [hx] at hI
        exact hprocess rfl hx hstruct (mem_visited.1 hkey) hget happlies hI
      · exact absurd (hfin'.symm.trans hfin) (by decide)
  | @finishRequests requestFinished requestIds finishedStatus _ h =>
    obtain ⟨hfinished, kv, encoder, rfl⟩ := finishRequests_eq hq.running_nodup h
    intro id hid hstruct hfin
    dsimp only at hstruct hfin ⊢
    split_ifs at hstruct hfin ⊢ with hvalid
    · exact absurd (hfinished.symm.trans hfin) (by decide)
    · exact hI id (Finset.mem_of_mem_filter id hid) hstruct hfin
  | @updateDraftTokenIds validateTokens draftTokenIds =>
    obtain ⟨spec, heq, -⟩ := updateDraftTokenIds_eq validateTokens draftTokenIds e.sched
    intro id hid hstruct hfin
    rw [heq] at hid hstruct hfin ⊢
    exact hdraft rfl (hI id hid hstruct hfin)
  | resetPrefixCache => exact absurd rfl (hreset _ _ _)

end Engine

/-! ### The base scheduler -/

namespace Step

variable {r : Request}

/-- A running request is not scheduled beyond the last position of the model but one. -/
theorem RunningTokens.window {n : ℤ} (h : RunningTokens cfg r n) :
    r.numComputedTokens + n + 1 ≤ cfg.maxModelLen := by
  obtain ⟨hn, budget, -, hlow⟩ := h
  unfold Lowered runningNewTokens at hlow
  dsimp only at hlow
  omega

/-- A running request with tokens that have not been computed is scheduled for a part of them. -/
theorem RunningTokens.pos {n : ℤ} (h : RunningTokens cfg r n)
    (hwindow : r.numComputedTokens + 1 ≤ cfg.maxModelLen)
    (hlt : r.numComputedTokens < r.numTokensWithSpec + r.numOutputPlaceholders) : 0 < n := by
  obtain ⟨hn, budget, hbudget, hlow⟩ := h
  have hcap : 0 < cfg.capPrefill
      (r.numTokensWithSpec + r.numOutputPlaceholders - r.numComputedTokens) :=
    cfg.capPrefill_pos (by omega)
  unfold Lowered runningNewTokens at hlow
  dsimp only at hlow
  omega

/-- There is nothing to schedule for a running request whose tokens have all been computed. -/
theorem RunningTokens.lt {n : ℤ} (h : RunningTokens cfg r n)
    (hwindow : r.numComputedTokens + 1 ≤ cfg.maxModelLen) :
    r.numComputedTokens ≠ r.numTokensWithSpec + r.numOutputPlaceholders := by
  obtain ⟨hn, budget, hbudget, hlow⟩ := h
  intro he
  have hcap : cfg.capPrefill 0 = 0 := by
    unfold SchedulerConfig.capPrefill
    split_ifs with hc
    · omega
    · rfl
  unfold Lowered runningNewTokens at hlow
  dsimp only at hlow
  rw [← he, sub_self, hcap] at hlow
  omega

end Step

/-- The invariant of a request under the base scheduler: no step is scheduled for it while a token
of it is in flight, and its computed tokens are those of the step in flight. -/
structure Caught (cfg : SchedulerConfig) (inFlight : List InFlight) (id : ℕ) (r : Request) :
    Prop where
  placeholders : r.numOutputPlaceholders = 0
  drafts : ∀ x ∈ inFlight, id ∈ x.out.numScheduledTokens → ¬ x.Samples id →
    x.out.numDraftTokens id = 0
  once : inFlight.Pairwise fun x y => x.Samples id → id ∉ y.out.numScheduledTokens
  window : r.status = .running → r.numComputedTokens + 1 ≤ cfg.maxModelLen
  running : r.status = .running → ∀ x ∈ inFlight, x.Samples id →
    r.numComputedTokens = r.numTokens + x.out.numDraftTokens id

/-- What `schedule` relies on, for a structured-output request: if it waits, then it has room for
another token and none of its tokens is in flight; if one is in flight, then it has no draft
tokens. -/
structure Settled (cfg : SchedulerConfig) (inFlight : List InFlight) (id : ℕ) (r : Request) :
    Prop where
  room : r.status.Waits → r.numTokens < cfg.maxModelLen
  none_pending : r.status.Waits → ∀ x ∈ inFlight, ¬ x.Samples id
  noDrafts : cfg.isAsync = false → ∀ x ∈ inFlight, x.Samples id →
    r.specTokenIds = [] ∧ x.out.numDraftTokens id = 0

namespace Scheduler

variable {s s' : Scheduler K} {st : Step K} {out : SchedulerOutput} {inFlight : List InFlight}
  {id : ℕ}

section

variable (h : Schedules cfg env s st out s') (hq : s.Queued) (hbase : cfg.isAsync = false)

include h hq hbase

/-- A request with a token in flight is not scheduled. -/
theorem Schedules.notMem_of_pending (hs : Settled cfg inFlight id (s.heap id))
    (hc : Caught cfg inFlight id (s.heap id)) (hx : x ∈ inFlight)
    (hsamp : x.Samples id) : out.numScheduledTokens.lookup id = none := by
  obtain ⟨r, htreated, -⟩ := h.treated hq id
  cases htreated with
  | kept _ htokens | waits _ _ _ htokens | preempted _ _ _ htokens => exact htokens
  | ran hrunning hn =>
    obtain ⟨hspec, hnum⟩ := hs.noDrafts hbase x hx hsamp
    have hcomputed := hc.running hrunning x hx hsamp
    refine absurd ?_ (hn.lt (hc.window hrunning))
    rw [Request.numTokensWithSpec, hspec, hc.placeholders, hcomputed, hnum, length_nil]
    rfl
  | admitted hwaits => exact absurd hsamp (hs.none_pending hwaits x hx)

/-- `schedule` keeps the invariant of a request. -/
theorem Schedules.caught (hstruct : (s.heap id).useStructuredOutput = true)
    (hs : Settled cfg inFlight id (s.heap id)) (hc : Caught cfg inFlight id (s.heap id)) :
    Caught cfg (inFlight ++ [⟨out, s'.heap, ∅⟩]) id (s'.heap id) := by
  obtain ⟨r, htreated, hheap⟩ := h.treated hq id
  obtain ⟨hreq, houtputs, hplaceholders, -⟩ := htreated.frame
  rw [hc.placeholders] at hplaceholders
  -- only a scheduled request is in the new step
  cases hl : out.numScheduledTokens.lookup id with
  | none =>
    have hnot : id ∉ out.numScheduledTokens := lookup_eq_none.1 hl
    have hold : ∀ y ∈ inFlight ++ [(⟨out, s'.heap, ∅⟩ : InFlight)],
        id ∈ y.out.numScheduledTokens → y ∈ inFlight := by
      intro y hy hid
      rcases mem_append.1 hy with hy | hy
      · exact hy
      · rw [mem_singleton.1 hy] at hid
        exact absurd hid hnot
    rw [hl] at hheap htreated
    rw [hheap]
    refine ⟨hplaceholders, fun y hy hid => hc.drafts y (hold y hy hid) hid, ?_, fun hrunning => ?_,
      fun hrunning y hy hsamp => ?_⟩
    · refine pairwise_append.2 ⟨hc.once, pairwise_singleton _ _, fun x _ y hy _ => ?_⟩
      rw [mem_singleton.1 hy]
      exact hnot
    · have hr := htreated.kept_of_running hrunning
      rw [hr] at hrunning ⊢
      exact hc.window hrunning
    · have hr := htreated.kept_of_running hrunning
      rw [hr] at hrunning ⊢
      exact hc.running hrunning y (hold y hy hsamp.1) hsamp
  | some n =>
    have hmem : id ∈ out.numScheduledTokens := lookup_isSome.1 (isSome_iff_exists.2 ⟨n, hl⟩)
    have hnone : ∀ x ∈ inFlight, ¬ x.Samples id := fun x hx hsamp => by
      have := h.notMem_of_pending hq hbase hs hc hx hsamp
      rw [hl] at this
      cases this
    rw [hl] at hheap htreated
    unfold afterSchedule at hheap
    rw [hbase] at hheap
    have hheap : s'.heap id = r.advance n := hheap
    have hcovers : Covers (out.numDraftTokens id) (s'.heap id).numComputedTokens
        (s'.heap id).numTokens := by
      rw [hheap]
      exact htreated.covers hc.placeholders
    have hwindow : (s'.heap id).numComputedTokens + 1 ≤ cfg.maxModelLen := by
      rw [hheap]
      cases htreated with
      | kept _ htokens | waits _ _ _ htokens | preempted _ _ _ htokens => cases htokens
      | ran _ hn hr htokens =>
        cases htokens
        rw [hr]
        exact hn.window
      | admitted hwaits _ hle hr htokens =>
        cases htokens
        have hroom := hs.room hwaits
        rw [hr]
        unfold Request.advance
        dsimp only
        omega
    have hpooling : (s'.heap id).isPooling = false := by
      rw [hheap]
      show r.toEngineCoreRequest.isPooling = false
      rw [hreq]
      exact EngineCoreRequest.isPooling_of_structured hstruct
    have hsamples : InFlight.Samples ⟨out, s'.heap, ∅⟩ id ↔
        ((s'.heap id).numTokens : ℤ) ≤ (s'.heap id).numComputedTokens :=
      ⟨fun hsamp => hsamp.2.2, fun hle => ⟨hmem, hpooling, hle⟩⟩
    refine ⟨?_, fun y hy hid hnot => ?_, ?_, fun _ => hwindow, fun _ y hy hsamp => ?_⟩
    · rw [hheap]
      exact hplaceholders
    · rcases mem_append.1 hy with hy | hy
      · exact hc.drafts y hy hid hnot
      · rw [mem_singleton.1 hy, hsamples] at hnot
        rw [mem_singleton.1 hy]
        unfold Covers at hcovers
        dsimp only
        omega
    · exact pairwise_append.2 ⟨hc.once, pairwise_singleton _ _,
        fun x hx y _ hsamp => absurd hsamp (hnone x hx)⟩
    · rcases mem_append.1 hy with hy | hy
      · exact absurd hsamp (hnone y hy)
      · rw [mem_singleton.1 hy, hsamples] at hsamp
        rw [mem_singleton.1 hy]
        unfold Covers at hcovers
        dsimp only
        omega

end

end Scheduler

/-- The output of a step keeps the invariant of a request that does not stop. -/
theorem Caught.processed {inFlight : List InFlight} {id : ℕ} {r r' : Request}
    {generated newTokenIds : List ℕ} {pooled : Bool}
    (hc : Caught cfg (x :: inFlight) id r) (hbase : cfg.isAsync = false)
    (hid : id ∈ x.out.numScheduledTokens) (hw : WorkerGenerates x result)
    (hget : result.get id = .ok (generated, pooled)) (h : AppliesOutput cfg
      (adjustRejected (x.out.numDraftTokens id) generated r) generated pooled r'
      newTokenIds false) : Caught cfg inFlight id r' := by
  obtain ⟨hsampled, hnone⟩ := hw.length hid hget
  obtain ⟨hfirst, honce⟩ := pairwise_cons.1 hc.once
  obtain ⟨stopReason, rfl⟩ := h.continues fun hasync => by
    rw [hbase] at hasync
    cases hasync
  have hdrafts : ∀ y ∈ inFlight, id ∈ y.out.numScheduledTokens → ¬ y.Samples id →
      y.out.numDraftTokens id = 0 := fun y hy => hc.drafts y (.tail _ hy)
  rw [hbase]
  by_cases hsamp : x.Samples id
  · have hlen := (hsampled hsamp).2
    refine ⟨?_, hdrafts, honce, fun hrunning => ?_, fun _ y hy hsamp' => ?_⟩
    · have hplaceholders := hc.placeholders
      show (adjustRejected _ _ r).numOutputPlaceholders = 0
      rw [adjustRejected_eq]
      split_ifs <;> omega
    · have hwindow := hc.window ((adjustRejected_status _ _ r).2.symm.trans hrunning)
      rw [adjustRejected_eq]
      dsimp only
      split_ifs <;> omega
    · exact absurd hsamp'.1 (hfirst y hy hsamp)
  · rw [hnone hsamp, hc.drafts x mem_cons_self hid hsamp]
    unfold adjustRejected
    rw [if_pos rfl, append_nil]
    exact ⟨hc.placeholders, hdrafts, honce, hc.window, fun hrunning y hy =>
      hc.running hrunning y (.tail _ hy)⟩

namespace Engine

/-- The requests of the last step in flight have not been preempted since. -/
def LastRuns (inFlight : List InFlight) (id : ℕ) (r : Request) : Prop :=
  ∀ x ∈ inFlight.getLast?, id ∈ x.out.numScheduledTokens → ¬ r.status.Waits

theorem Steps.lastRuns {e e' : Engine K} (h : Steps cfg e call e')
    (hcall : e.Admissible call) (hq : e.sched.Queued) (ha : e.AllAdded)
    (hreset : ∀ a b c, call ≠ .resetPrefixCache a b c)
    (hno : ∀ {requestFinished result}, call = .updateFromOutput requestFinished result →
      NoInvalidBlocks result) (hl : e.Each LastRuns) : e'.Each LastRuns := by
  have htail : ∀ {x inFlight id r}, LastRuns (x :: inFlight) id r → LastRuns inFlight id r := by
    intro x inFlight id r hl y hy
    refine hl y ?_
    cases inFlight with
    | nil => cases hy
    | cons z inFlight =>
      exact hy
  refine h.each hcall hq ha hreset hno ?_ ?_ ?_ ?_ ?_ hl
  · exact fun hnot x hx hid => absurd hid (hnot x (mem_of_getLast? hx))
  · rintro env out s st rfl hs id - - - - x hx hid
    rw [getLast?_concat] at hx
    cases hx
    obtain ⟨n, hn⟩ := isSome_iff_exists.1 (lookup_isSome.2 hid)
    obtain ⟨r, htreated, hheap⟩ := hs.treated hq id
    have hstatus : (s.heap id).status = r.status := by
      rw [hheap]
      rw [hn]
      unfold afterSchedule Request.addPlaceholders
      dsimp only
      split_ifs <;> rfl
    rw [hn] at htreated
    rw [hstatus]
    cases htreated with
    | kept _ htokens | waits _ _ _ htokens | preempted _ _ _ htokens => cases htokens
    | ran hrunning _ hr =>
      rw [hr]
      exact fun hwaits => hwaits.1 hrunning
    | admitted _ _ _ hr =>
      rw [hr]
      exact fun hwaits => hwaits.1 rfl
  · exact fun _ hl => htail hl
  · rintro requestFinished result x inFlight id r r' generated newTokenIds pooled rfl - - - -
      happlies hl y hy hid
    have hstatus : r'.status = r.status := by
      obtain ⟨-, ⟨-, hstatus⟩ | ⟨hstopped, -⟩⟩ := happlies.status
      · rw [hstatus]
        exact (adjustRejected_status _ _ _).2
      · cases hstopped
    rw [hstatus]
    exact htail hl y hy hid
  · exact fun _ hl => hl

/-- When `schedule` is called, every structured-output request is settled; the worker generates
tokens as it is told, and reports no failed loads. -/
def CallsSettled (cfg : SchedulerConfig) (e : Engine K) : EngineCall → Prop
  | .schedule _ => e.Each (Settled cfg)
  | .updateFromOutput _ result =>
    (∀ x ∈ e.inFlight.head?, WorkerGenerates x result) ∧ NoInvalidBlocks result
  | .updateDraftTokenIds _ _ => cfg.isAsync = false
  | .resetPrefixCache _ _ _ => False
  | .addRequest _ _ | .finishRequests _ _ _ => True

theorem Steps.caught {e e' : Engine K} (h : Steps cfg e call e')
    (hbase : cfg.isAsync = false) (hcall : e.Admissible call) (hq : e.sched.Queued)
    (ha : e.AllAdded) (hP : e.CallsSettled cfg call) (hc : e.Each (Caught cfg)) :
    e'.Each (Caught cfg) := by
  refine h.each hcall hq ha ?_ ?_ ?_ ?_ ?_ ?_ ?_ hc
  · rintro a b c rfl
    exact hP
  · rintro requestFinished result rfl
    exact hP.2
  · intro id request hnot
    have hsamp : ∀ x ∈ e.inFlight, ¬ x.Samples id := fun x hx hsamp => hnot x hx hsamp.1
    exact ⟨rfl, fun x hx hid => absurd hid (hnot x hx),
      pairwise_of_forall_mem_list fun x hx _ _ hs => absurd hs (hsamp x hx),
      fun hst => by unfold Request.fromEngineCoreRequest at hst; split_ifs at hst,
      fun _ x hx hs => absurd hs (hsamp x hx)⟩
  · rintro env out s st rfl hs id hid hstruct hfin hc
    exact hs.caught hq hbase hstruct (hP id hid hstruct hfin) hc
  · intro x inFlight id r _ hc
    exact ⟨hc.placeholders, fun y hy => hc.drafts y (.tail _ hy),
      (pairwise_cons.1 hc.once).2, hc.window,
      fun hrunning y hy => hc.running hrunning y (.tail _ hy)⟩
  · rintro requestFinished result x inFlight id r r' generated newTokenIds pooled rfl hx - hid hget
      happlies hc
    exact hc.processed hbase hid (hP.1 x (by rw [hx]; rfl)) hget happlies
  · intro _ _ inFlight id r spec _ hc
    exact ⟨hc.placeholders, hc.drafts, hc.once, hc.window, hc.running⟩

end Engine

end LoptVllm.Sched
