import LoptVllm.Sched.Pipeline
import LoptVllm.Sched.Treated

/-!
# Where output tokens come from

With several steps in flight, the scheduler without speculative decoding schedules a request up to
the end of its tokens at most once before the token that this step samples comes back, provided that
no request is taken from `self.waiting` while a step that samples for it is in flight: a request that
is preempted and scheduled again samples the same position twice.
-/

namespace LoptVllm.Sched

open List Function Request Scheduler

variable {K : Type} [KVCacheManagerOps K] {cfg : SchedulerConfig} {env : ScheduleEnv}

/-! ### A call of `schedule` -/

namespace Step

/-- A running request is scheduled up to the end of its tokens at most; if it has been scheduled up
to there, then it may only go back to the last position of the model. -/
theorem RunningTokens.spec {r : Request} {n : ℤ} (h : RunningTokens cfg r n)
    (hspec : r.specTokenIds = []) (hplaceholders : r.numOutputPlaceholders = 0)
    (hle : r.numComputedTokens ≤ r.numTokens) : r.numComputedTokens + n ≤ r.numTokens ∧
      (min (r.numTokens : ℤ) (cfg.maxModelLen - 1) ≤ r.numComputedTokens →
        min (r.numTokens : ℤ) (cfg.maxModelLen - 1) ≤ r.numComputedTokens + n ∧
        r.numComputedTokens + n < r.numTokens) := by
  obtain ⟨hn, budget, hbudget, hlow⟩ := h
  have hcap := cfg.capPrefill_le (r.numTokens - r.numComputedTokens)
  have hcap' : 0 < (r.numTokens : ℤ) - r.numComputedTokens →
      0 < cfg.capPrefill (r.numTokens - r.numComputedTokens) := cfg.capPrefill_pos
  have hcap₀ : cfg.capPrefill 0 = 0 := by
    unfold SchedulerConfig.capPrefill
    split_ifs with hc
    · omega
    · rfl
  unfold Lowered runningNewTokens at hlow
  rw [numTokensWithSpec, hspec, hplaceholders, length_nil, add_zero, add_zero] at hlow
  dsimp only at hlow
  by_cases hc : r.numComputedTokens = r.numTokens
  · rw [hc, sub_self, hcap₀] at hlow
    omega
  · omega

/-- A request is unchanged as far as its tokens go, and what it is scheduled for does not go beyond
them. `sampling` says that a step in flight samples for it. -/
theorem Treated.tracked {preempting : Prop} (sampling : Prop) {r₀ r : Request} {tokens : Option ℤ}
    {drafts : Option (List ℤ)} (h : Treated cfg preempting r₀ r tokens drafts)
    (hspec : r₀.specTokenIds = []) (hplaceholders : r₀.numOutputPlaceholders = 0)
    (hrunning : r₀.status = .running → r₀.numComputedTokens ≤ r₀.numTokens ∧ (sampling →
      min (r₀.numTokens : ℤ) (cfg.maxModelLen - 1) ≤ r₀.numComputedTokens))
    (hwaits : r₀.status.Waits → ¬ sampling) : r.specTokenIds = [] ∧ drafts = none ∧
      (tokens = none → r.status = .running → r.numComputedTokens ≤ r.numTokens ∧ (sampling →
        min (r.numTokens : ℤ) (cfg.maxModelLen - 1) ≤ r.numComputedTokens)) ∧
      ∀ n, tokens = some n → r.numComputedTokens + n ≤ r.numTokens ∧ (sampling →
        min (r.numTokens : ℤ) (cfg.maxModelLen - 1) ≤ r.numComputedTokens + n ∧
          r.numComputedTokens + n < r.numTokens) := by
  cases h with
  | kept hr htokens hdrafts =>
    subst hr htokens
    exact ⟨hspec, hdrafts, fun _ => hrunning, nofun⟩
  | waits _ hstatus hr htokens hdrafts =>
    subst hr htokens
    exact ⟨hspec, hdrafts, fun _ hst => absurd hst hstatus, nofun⟩
  | preempted _ hstatus hr htokens hdrafts =>
    subst hr htokens
    exact ⟨rfl, hdrafts, fun _ hst => absurd hst hstatus, nofun⟩
  | ran hrun hn hr htokens hdrafts =>
    obtain ⟨hle, hsampling⟩ := hrunning hrun
    obtain ⟨hle', hsampling'⟩ := hn.spec hspec hplaceholders hle
    subst hr htokens
    refine ⟨rfl, ?_, nofun, fun n hsome => ?_⟩
    · rw [hdrafts, draftsOf, if_neg fun h => h.1 hspec]
    · cases hsome
      exact ⟨hle', fun hs => hsampling' (hsampling hs)⟩
  | admitted hw _ hle hr htokens hdrafts =>
    subst hr htokens
    refine ⟨hspec, hdrafts, nofun, fun n hsome => ?_⟩
    cases hsome
    -- no step in flight samples for a request that waits
    exact ⟨hle, fun hs => absurd hs (hwaits hw)⟩

end Step

/-! ### Requests and the steps in flight -/

/-- The invariant of a request: at most one step in flight samples for it, and this step was
scheduled up to the end of its tokens. -/
structure Traced (cfg : SchedulerConfig) (inFlight : List InFlight) (r : Request) (id : ℕ) :
    Prop where
  spec : r.specTokenIds = []
  placeholders : r.numOutputPlaceholders = 0
  computed_le : r.status = .running → r.numComputedTokens ≤ r.numTokens
  current : ∀ x ∈ inFlight, x.Samples id → x.origin id = ⟨r.numTokens, r.allTokenIds⟩
  once : inFlight.Pairwise fun x y => ¬ (x.Samples id ∧ y.Samples id)
  running : r.status = .running → ∀ x ∈ inFlight, x.Samples id →
    min (r.numTokens : ℤ) (cfg.maxModelLen - 1) ≤ r.numComputedTokens

variable {r r' : Request}

section

variable (hbase : r'.toEngineCoreRequest = r.toEngineCoreRequest)
  (houtputs : r'.outputTokenIds = r.outputTokenIds)

include hbase houtputs

theorem allTokenIds_congr : r'.allTokenIds = r.allTokenIds := by
  unfold allTokenIds
  rw [hbase, houtputs]

theorem numTokens_congr : r'.numTokens = r.numTokens := by
  unfold numTokens
  rw [allTokenIds_congr hbase houtputs]

end

variable {inFlight : List InFlight} {id : ℕ}

/-- A change that keeps the tokens of a request; it stops running, or it keeps its place. -/
theorem Traced.congr (h : Traced cfg inFlight r id)
    (hbase : r'.toEngineCoreRequest = r.toEngineCoreRequest)
    (houtputs : r'.outputTokenIds = r.outputTokenIds) (hspec : r'.specTokenIds = [])
    (hplaceholders : r'.numOutputPlaceholders = 0) (hrun : r'.status = .running →
      r.status = .running ∧ r'.numComputedTokens = r.numComputedTokens) :
    Traced cfg inFlight r' id := by
  have htokens := allTokenIds_congr hbase houtputs
  have hnum := numTokens_congr hbase houtputs
  refine ⟨hspec, hplaceholders, fun hst => ?_, fun x hx hsamp => ?_, h.once, fun hst x hx hsamp => ?_⟩
  · rw [(hrun hst).2, hnum]
    exact h.computed_le (hrun hst).1
  · rw [hnum, htokens]
    exact h.current x hx hsamp
  · rw [(hrun hst).2, hnum]
    exact h.running (hrun hst).1 x hx hsamp

theorem Traced.tail {x : InFlight}
    (h : Traced cfg (x :: inFlight) r id) : Traced cfg inFlight r id :=
  ⟨h.spec, h.placeholders, h.computed_le, fun y hy => h.current y (.tail _ hy),
    (pairwise_cons.1 h.once).2, fun hst y hy => h.running hst y (.tail _ hy)⟩

theorem Traced.markReset (h : Traced cfg inFlight r id) (ids : Finset ℕ) :
    Traced cfg (inFlight.map fun x => x.markReset ids) r id := by
  refine ⟨h.spec, h.placeholders, h.computed_le, ?_, ?_, ?_⟩
  · intro x hx hsamp
    obtain ⟨x₀, hx₀, rfl⟩ := mem_map.1 hx
    exact h.current x₀ hx₀ hsamp
  · exact pairwise_map.2 h.once
  · intro hst x hx hsamp
    obtain ⟨x₀, hx₀, rfl⟩ := mem_map.1 hx
    exact h.running hst x₀ hx₀ hsamp

namespace Scheduler

/-- A request after `schedule`, if no step in flight samples for it while it waits. -/
theorem Schedules.traced {s s' : Scheduler K} {st : Step K} {out : SchedulerOutput}
    {inFlight : List InFlight} {id : ℕ} (h : Schedules cfg env s st out s')
    (hbase : cfg.isAsync = false) (hq : s.Queued) (hid : id ∈ s.ids)
    (ht : Traced cfg inFlight (s.heap id) id)
    (hwait : id ∈ s.waiting → ∀ x ∈ inFlight, ¬ x.Samples id) :
    Traced cfg (inFlight ++ [⟨out, s'.heap, ∅⟩]) (s'.heap id) id ∧ out.numDraftTokens id = 0 ∧
      (s'.heap id).toEngineCoreRequest = (s.heap id).toEngineCoreRequest ∧
      (s'.heap id).outputTokenIds = (s.heap id).outputTokenIds := by
  have htreated := h.moves.treated hq id
  obtain ⟨hrequest, houtputs, hplaceholders, -⟩ := htreated.frame
  rw [ht.placeholders] at hplaceholders
  have hwaiting : (s.heap id).status.Waits → id ∈ s.waiting := fun hw => by
    rcases hq.complete id hid with hfin | hrun | hmem
    · exact absurd hfin (by simp [isFinished, hw.2])
    · rw [(hq.isRunning id hrun).2] at hw
      exact absurd rfl hw.1
    · exact hmem
  obtain ⟨hspec, hnoDrafts, hrunning, hscheduled⟩ :=
    htreated.tracked (∃ x ∈ inFlight, x.Samples id) ht.spec ht.placeholders
      (fun hst => ⟨ht.computed_le hst, fun h => h.elim fun x hx => ht.running hst x hx.1 hx.2⟩)
      (fun hw h => h.elim fun x hx => hwait (hwaiting hw) x hx.1 hx.2)
  obtain ⟨encoder, hs'⟩ := h.state
  have hlookup : out.numScheduledTokens = st.numScheduledTokens := h.output.numScheduledTokens
  have hdrafts : out.numDraftTokens id = 0 := by
    unfold SchedulerOutput.numDraftTokens
    rw [show out.scheduledSpecDecodeTokens = st.scheduledSpecDecodeTokens from
      h.output.scheduledSpecDecodeTokens, hnoDrafts]
    rfl
  have hold : ∀ x ∈ inFlight, x.Samples id → x.origin id =
      ⟨(st.request id).numTokens, (st.request id).allTokenIds⟩ := by
    intro x hx hsamp
    rw [numTokens_congr hrequest houtputs, allTokenIds_congr hrequest houtputs]
    exact ht.current x hx hsamp
  -- only a scheduled request is in the new step
  cases hl : st.numScheduledTokens.lookup id with
  | none =>
    have hheap : s'.heap id = st.request id := by
      rw [hs']
      show heapAfter cfg out st.sched.heap id = _
      unfold heapAfter
      rw [hlookup, hl]
      rfl
    have hnew : ¬ InFlight.Samples ⟨out, s'.heap, ∅⟩ id := by
      rintro ⟨hmem, -⟩
      rw [hlookup] at hmem
      exact AList.lookup_eq_none.1 hl hmem
    have hmem : ∀ x ∈ inFlight ++ [⟨out, s'.heap, ∅⟩], x.Samples id → x ∈ inFlight := by
      intro x hx hsamp
      rcases mem_append.1 hx with hx | hx
      · exact hx
      · rw [mem_singleton.1 hx] at hsamp
        exact absurd hsamp hnew
    rw [hheap]
    refine ⟨⟨hspec, hplaceholders, ?_, ?_, ?_, ?_⟩, hdrafts, hrequest, houtputs⟩
    · exact fun hst => (hrunning hl hst).1
    · exact fun x hx hsamp => hold x (hmem x hx hsamp) hsamp
    · refine pairwise_append.2 ⟨ht.once, pairwise_singleton _ _, fun x _ y hy hsamp => ?_⟩
      rw [mem_singleton.1 hy] at hsamp
      exact hnew hsamp.2
    · exact fun hst x hx hsamp => (hrunning hl hst).2 ⟨x, hmem x hx hsamp, hsamp⟩
  | some n =>
    obtain ⟨hle, hsampling⟩ := hscheduled n hl
    have hheap : s'.heap id = (st.request id).advance n := by
      rw [hs']
      show heapAfter cfg out st.sched.heap id = _
      unfold heapAfter afterSchedule
      rw [hlookup, hl, hbase]
      rfl
    rw [hheap]
    refine ⟨⟨hspec, hplaceholders, fun _ => hle, ?_, ?_, ?_⟩, hdrafts, hrequest, houtputs⟩
    · intro x hx hsamp
      rcases mem_append.1 hx with hx | hx
      · exact hold x hx hsamp
      · rw [mem_singleton.1 hx] at hsamp ⊢
        obtain ⟨-, -, hreach⟩ := hsamp
        unfold InFlight.origin
        dsimp only at hreach ⊢
        rw [hheap] at hreach ⊢
        have : (st.request id).numComputedTokens + n = (st.request id).numTokens :=
          le_antisymm hle hreach
        exact congrArg (Origin.mk · _) this
    · refine pairwise_append.2 ⟨ht.once, pairwise_singleton _ _, fun x hx y hy hsamp => ?_⟩
      rw [mem_singleton.1 hy] at hsamp
      obtain ⟨hx', -, -, hreach⟩ := hsamp
      dsimp only at hreach
      rw [hheap] at hreach
      exact absurd (hsampling ⟨x, hx, hx'⟩).2 (not_lt.2 hreach)
    · intro _ x hx hsamp
      rcases mem_append.1 hx with hx | hx
      · exact (hsampling ⟨x, hx, hsamp⟩).1
      · rw [mem_singleton.1 hx] at hsamp
        obtain ⟨-, -, hreach⟩ := hsamp
        dsimp only at hreach
        rw [hheap] at hreach
        exact (min_le_left _ _).trans hreach

end Scheduler

/-- The worker samples one token for each range that reaches the end of the tokens of the request,
and none for the others; no load of KV blocks fails. -/
def WorkerSamples (x : InFlight) (result : ModelRunnerOutput) : Prop :=
  (∀ id ∈ x.out.numScheduledTokens.keys,
    result.numSampled id = if x.Samples id then 1 else 0) ∧ NoInvalidBlocks result

instance (x : InFlight) (result : ModelRunnerOutput) : Decidable (WorkerSamples x result) :=
  inferInstanceAs (Decidable (_ ∧ _))

omit [KVCacheManagerOps K] in
/-- The tokens that the output of a step appends to a request: one, or none. -/
theorem Traced.processed {requestFinished : RequestFinished} {result : ModelRunnerOutput}
    {x : InFlight} {s s₂ : Scheduler K} (hbase : cfg.isAsync = false)
    (hdrafts : id ∈ x.out.numScheduledTokens → x.out.numDraftTokens id = 0)
    (hw : WorkerSamples x result) (ht : Traced cfg (x :: inFlight) (s.heap id) id)
    (h : Processed cfg requestFinished x.out result (visited x.out) [] id s s₂) :
    Traced cfg inFlight (s₂.heap id) id ∧
      (s₂.heap id).toEngineCoreRequest = (s.heap id).toEngineCoreRequest ∧
      ((s₂.heap id).outputTokenIds = (s.heap id).outputTokenIds ∨ x.Samples id ∧ ∃ token,
          (s₂.heap id).outputTokenIds = (s.heap id).outputTokenIds ++ [token]) := by
  cases h with
  | skipped _ hheap =>
    rw [hheap]
    exact ⟨ht.tail, rfl, .inl rfl⟩
  | @updated generated newTokenIds pooled stopped hkey _ hid hget happlies =>
    have hlen := hw.1 id (AList.mem_keys.1 (mem_visited.1 hkey))
    unfold ModelRunnerOutput.numSampled at hlen
    rw [hget] at hlen
    -- without drafts no token is rejected
    have hadjust : adjustRejected (x.out.numDraftTokens id) generated (s.heap id) = s.heap id := by
      unfold adjustRejected
      rw [if_pos (hdrafts (mem_visited.1 hkey))]
    rw [hadjust] at happlies
    generalize s₂.heap id = r' at happlies ⊢
    cases happlies with
    | tokens hne h =>
      have hsamp : x.Samples id := by
        by_contra hnot
        rw [if_neg hnot] at hlen
        exact hne (eq_nil_of_length_eq_zero hlen)
      cases h with
      | discard hasync | async hasync =>
        rw [hbase] at hasync
        cases hasync
      | base _ h =>
        rw [if_pos hsamp] at hlen
        obtain ⟨status, stopReason, rfl, hcase⟩ := appendTokens_eq _ h
        obtain ⟨token, rfl⟩ := length_eq_one_iff.1 hlen
        have hnew : newTokenIds = [token] ∧
            (status = .running → (s.heap id).status = .running) := by
          rcases hcase with ⟨-, rfl, rfl⟩ | ⟨-, hpre, hnil, hfin⟩
          · exact ⟨rfl, fun h => h⟩
          · refine ⟨?_, ?_⟩
            · obtain ⟨a, l, rfl⟩ := exists_cons_of_ne_nil hnil
              obtain ⟨rfl, hl⟩ := cons_prefix_cons.1 hpre
              rw [prefix_nil.1 hl]
            · rintro rfl
              cases hfin
        obtain ⟨rfl, hrun⟩ := hnew
        refine ⟨⟨ht.spec, ht.placeholders, fun hst => ?_, fun y hy hsamp' => ?_,
          (pairwise_cons.1 ht.once).2, fun _ y hy hsamp' => ?_⟩, rfl, .inr ⟨hsamp, token, rfl⟩⟩
        · have hnum : ∀ r : Request, (r.appendOutputTokenIds token).numTokens = r.numTokens + 1 :=
            fun r => by
              rw [numTokens_eq, numTokens_eq]
              exact congrArg _ length_append
          have hle : (s.heap id).numComputedTokens ≤ (s.heap id).numTokens :=
            ht.computed_le (hrun hst)
          show (s.heap id).numComputedTokens ≤ ((s.heap id).appendOutputTokenIds token).numTokens
          rw [hnum]
          omega
        · exact absurd ⟨hsamp, hsamp'⟩ ((pairwise_cons.1 ht.once).1 y hy)
        · exact absurd ⟨hsamp, hsamp'⟩ ((pairwise_cons.1 ht.once).1 y hy)
    | pooled =>
      exact ⟨ht.tail.congr rfl rfl ht.spec ht.placeholders (fun hst => by cases hst), rfl, .inl rfl⟩
    | nothing => exact ⟨ht.tail, rfl, .inl rfl⟩

/-! ### Origins -/

/-- The n-th output token was sampled by a step whose range ended right before its position, and
which knew exactly the tokens before it. -/
def Request.origins (r : Request) : List Origin := (List.range r.numOutputTokens).map fun i =>
    ⟨(r.numPromptTokens + i : ℕ), r.allTokenIds.take (r.numPromptTokens + i)⟩

theorem origins_congr (hbase : r'.toEngineCoreRequest = r.toEngineCoreRequest)
    (houtputs : r'.outputTokenIds = r.outputTokenIds) : r'.origins = r.origins := by
  unfold origins numOutputTokens allTokenIds
  rw [hbase, houtputs]

theorem numOutputTokens_append {token : ℕ}
    (h : r'.outputTokenIds = r.outputTokenIds ++ [token]) :
    r'.numOutputTokens = r.numOutputTokens + 1 := (congrArg List.length h).trans length_append

theorem origins_append {token : ℕ} (hbase : r'.toEngineCoreRequest = r.toEngineCoreRequest)
    (houtputs : r'.outputTokenIds = r.outputTokenIds ++ [token]) :
    r'.origins = r.origins ++ [⟨r.numTokens, r.allTokenIds⟩] := by
  have hnum := numOutputTokens_append houtputs
  have htokens : r'.allTokenIds = r.allTokenIds ++ [token] := by
    unfold allTokenIds
    rw [hbase, houtputs, append_assoc]
  have hlen : r.allTokenIds.length = r.numPromptTokens + r.numOutputTokens := r.numTokens_eq
  unfold origins
  rw [hnum, range_succ, map_append, hbase, htokens]
  refine congrArg₂ (· ++ ·) ?_ ?_
  · refine map_congr_left fun i hi => ?_
    have hi := mem_range.1 hi
    rw [take_append_of_le_length (by omega)]
  · rw [map_cons, map_nil, ← hlen, take_left]
    rfl

namespace Engine

/-- The runs that the property is about: no draft tokens, and a worker that samples as it is told. -/
def Pipelined (e : Engine K) : EngineCall → Prop
  | .updateFromOutput _ result => ∀ x ∈ e.inFlight.head?, WorkerSamples x result
  | .updateDraftTokenIds _ _ => False
  | _ => True

instance (e : Engine K) (call : EngineCall) : Decidable (e.Pipelined call) := match call with
  | .updateFromOutput _ _ => inferInstanceAs (Decidable (∀ x ∈ e.inFlight.head?, _))
  | .updateDraftTokenIds _ _ => inferInstanceAs (Decidable False)
  | .addRequest _ _ | .schedule _ | .finishRequests _ _ _ | .resetPrefixCache _ _ _ =>
    inferInstanceAs (Decidable True)

/-- No step in flight samples for a waiting request when `schedule` is called. -/
def NoneSampling (e : Engine K) : EngineCall → Prop
  | .schedule _ => ∀ id ∈ e.sched.waiting, ∀ x ∈ e.inFlight, ¬ x.Samples id
  | _ => True

instance (e : Engine K) (call : EngineCall) : Decidable (e.NoneSampling call) := match call with
  | .schedule _ =>
    inferInstanceAs (Decidable (∀ id ∈ e.sched.waiting, ∀ x ∈ e.inFlight, ¬ x.Samples id))
  | .addRequest _ _ | .updateFromOutput _ _ | .finishRequests _ _ _ | .updateDraftTokenIds _ _
  | .resetPrefixCache _ _ _ => inferInstanceAs (Decidable True)

/-- The invariant of the engine. -/
structure Provenance (cfg : SchedulerConfig) (e : Engine K) : Prop where
  traced : ∀ id ∈ e.sched.ids, Traced cfg e.inFlight (e.sched.heap id) id
  noDrafts : ∀ x ∈ e.inFlight, ∀ id ∈ x.out.numScheduledTokens, x.out.numDraftTokens id = 0
  appended : ∀ id ∈ e.added, e.appended id = (e.sched.heap id).origins
  fresh : ∀ id ∉ e.added, e.appended id = []

section

variable {x : InFlight} {s s' : Scheduler K} {appended : ℕ → List Origin} {id : ℕ}

omit [KVCacheManagerOps K]

theorem appendOrigins_of_eq (h : s'.heap id = s.heap id) :
    appendOrigins x s s' appended id = appended id := by
  rw [appendOrigins, h, Nat.sub_self, replicate_zero, append_nil]

/-- A token that is appended has the origin of the step. -/
theorem appendOrigins_eq (ht : Traced cfg (x :: inFlight) (s.heap id) id)
    (happended : appended id = (s.heap id).origins)
    (hbase : (s'.heap id).toEngineCoreRequest = (s.heap id).toEngineCoreRequest)
    (houtputs : (s'.heap id).outputTokenIds = (s.heap id).outputTokenIds ∨ x.Samples id ∧ ∃ token,
      (s'.heap id).outputTokenIds = (s.heap id).outputTokenIds ++ [token]) :
    appendOrigins x s s' appended id = (s'.heap id).origins := by
  unfold appendOrigins
  rw [happended]
  rcases houtputs with houtputs | ⟨hsamp, token, houtputs⟩
  · have hnum : (s'.heap id).numOutputTokens = (s.heap id).numOutputTokens :=
      congrArg List.length houtputs
    rw [hnum, Nat.sub_self, replicate_zero, append_nil]
    exact (origins_congr hbase houtputs).symm
  · rw [numOutputTokens_append houtputs, Nat.add_sub_cancel_left, replicate_one, origins_append hbase houtputs,
      ht.current x (.head _) hsamp]

theorem Provenance.addRequest {e : Engine K} (hp : e.Provenance cfg) (ha : e.AllAdded)
    {request : EngineCoreRequest} (hid : id ∉ e.added) : Provenance cfg
      { e with sched := e.sched.addRequest id request, added := insert id e.added } := by
  have hheap : ∀ i, i ≠ id → (e.sched.addRequest id request).heap i = e.sched.heap i := fun i hi =>
    update_of_ne hi _ _
  have hself : (e.sched.addRequest id request).heap id = fromEngineCoreRequest request :=
    update_self _ _ _
  have hnot : ∀ x ∈ e.inFlight, ¬ x.Samples id := fun x hx hsamp =>
    hid (ha.scheduled x hx id hsamp.1)
  refine ⟨fun i hi => ?_, hp.noDrafts, fun i hi => ?_, fun i hi => ?_⟩
  · by_cases he : i = id
    · subst he
      rw [hself]
      refine ⟨rfl, rfl, fun _ => Int.natCast_nonneg _, fun x hx hsamp => ?_, ?_,
        fun _ x hx hsamp => ?_⟩
      · exact absurd hsamp (hnot x hx)
      · exact pairwise_of_forall_mem_list fun x hx _ _ hsamp => hnot x hx hsamp.1
      · exact absurd hsamp (hnot x hx)
    · show Traced cfg e.inFlight ((e.sched.addRequest id request).heap i) i
      rw [hheap i he]
      exact hp.traced i ((Finset.mem_insert.1 hi).resolve_left he)
  · show e.appended i = ((e.sched.addRequest id request).heap i).origins
    by_cases he : i = id
    · subst he
      rw [hself]
      exact hp.fresh i hid
    · rw [hheap i he]
      exact hp.appended i ((Finset.mem_insert.1 hi).resolve_left he)
  · exact hp.fresh i fun hmem => hi (Finset.mem_insert_of_mem hmem)

end

theorem Steps.provenance {e e' : Engine K} {call : EngineCall} (hbase : cfg.isAsync = false)
    (hq : e.sched.Queued) (ha : e.AllAdded) (hp : e.Provenance cfg) (hcall : e.Admissible call)
    (hpipe : e.Pipelined call) (hnone : e.NoneSampling call) (h : Steps cfg e call e') :
    e'.Provenance cfg := by
  cases h with
  | addRequest => exact hp.addRequest ha hcall
  | @schedule env out s h =>
    obtain ⟨st, hs⟩ := schedule_eq hq.running_nodup h
    obtain ⟨hids, -, hframe⟩ := hs.frame hq
    have htraced : ∀ id ∈ e.sched.ids, _ := fun id hid =>
      hs.traced hbase hq hid (hp.traced id hid) (hnone id)
    refine ⟨fun id hid => (htraced id (hids ▸ hid)).1, fun x hx id hid => ?_, fun id hid => ?_,
      hp.fresh⟩
    · rcases mem_append.1 hx with hx | hx
      · exact hp.noDrafts x hx id hid
      · rw [mem_singleton.1 hx] at hid ⊢
        refine (htraced id ?_).2.1
        by_contra hnot
        exact (hframe id (.inl hnot)).1 hid
    · show e.appended id = (s.heap id).origins
      rw [hp.appended id hid]
      by_cases hmem : id ∈ e.sched.ids
      · obtain ⟨-, -, hbase', houtputs⟩ := htraced id hmem
        exact (origins_congr hbase' houtputs).symm
      · rw [(hframe id (.inl hmem)).2]
  | @updateFromOutput x inFlight requestFinished result s outputs hx h =>
    have hw : WorkerSamples x result := hpipe x (by rw [hx]; rfl)
    have hmem : x ∈ e.inFlight := by rw [hx]; exact mem_cons_self
    obtain ⟨s₂, hprocessed, hheap, hids⟩ := updateFromOutput_processed hw.2 h
    have htraced : ∀ id ∈ e.sched.ids, _ := fun id hid =>
      Traced.processed hbase (hp.noDrafts x hmem id) hw (hx ▸ hp.traced id hid) (hprocessed id)
    -- the step is not about requests that are not there
    have hframe : ∀ id ∉ e.sched.ids, s.heap id = e.sched.heap id ∧ id ∉ s.ids := by
      intro id hid
      rw [hheap]
      cases hprocessed id with
      | skipped _ hheap' hids' => exact ⟨hheap', fun h => hid (hids'.1 (hids h))⟩
      | updated _ _ hid' => exact absurd hid' hid
    refine ⟨fun id hid => ?_, fun y hy => hp.noDrafts y (hx ▸ .tail _ hy),
      fun id hid => ?_, fun id hid => ?_⟩
    · have hid' : id ∈ e.sched.ids := by
        by_contra hnot
        exact (hframe id hnot).2 hid
      rw [hheap]
      exact (htraced id hid').1
    · show appendOrigins x e.sched s e.appended id = (s.heap id).origins
      by_cases hid' : id ∈ e.sched.ids
      · obtain ⟨-, hbase', houtputs⟩ := htraced id hid'
        rw [← hheap] at hbase' houtputs
        exact appendOrigins_eq (hx ▸ hp.traced id hid') (hp.appended id hid) hbase' houtputs
      · have hsame := (hframe id hid').1
        rw [appendOrigins_of_eq hsame, hsame, hp.appended id hid]
    · show appendOrigins x e.sched s e.appended id = []
      rw [appendOrigins_of_eq (hframe id fun h => hid (ha.ids h)).1, hp.fresh id hid]
  | @finishRequests requestFinished requestIds finishedStatus _ h =>
    obtain ⟨hfin, kv, encoder, rfl⟩ := finishRequests_eq hq.running_nodup h
    refine ⟨fun id hid => ?_, hp.noDrafts, fun id hid => ?_, hp.fresh⟩
    · have ht := hp.traced id (Finset.mem_of_mem_filter id hid)
      dsimp only
      split_ifs
      · refine ht.congr rfl rfl ht.spec ht.placeholders fun hst => ?_
        have hst : finishedStatus = .running := hst
        rw [hst] at hfin
        cases hfin
      · exact ht
    · rw [hp.appended id hid]
      dsimp only
      split_ifs <;> rfl
  | updateDraftTokenIds => exact hpipe.elim
  | @resetPrefixCache resetRunning _ _ _ _ h =>
    obtain ⟨-, kv, rfl⟩ | ⟨-, -, kv, encoder, rfl⟩ := resetPrefixCache_eq hq.running_nodup h
    · refine ⟨fun id hid => (hp.traced id hid).markReset _, fun x hx => ?_, hp.appended, hp.fresh⟩
      obtain ⟨x₀, hx₀, rfl⟩ := mem_map.1 hx
      exact hp.noDrafts x₀ hx₀
    · refine ⟨fun id hid => ?_, fun x hx => ?_, fun id hid => ?_, hp.fresh⟩
      · have ht := (hp.traced id hid).markReset
          (if resetRunning then e.sched.running.toFinset else ∅)
        show Traced cfg _
          (if id ∈ e.sched.running then forced (e.sched.heap id) else e.sched.heap id) id
        by_cases hrun : id ∈ e.sched.running
        · rw [if_pos hrun]
          exact ht.congr rfl rfl rfl rfl fun hst => by cases hst
        · rw [if_neg hrun]
          exact ht
      · obtain ⟨x₀, hx₀, rfl⟩ := mem_map.1 hx
        exact hp.noDrafts x₀ hx₀
      · rw [hp.appended id hid]
        dsimp only
        split_ifs <;> rfl

/-- **Every output token was sampled by a step that was scheduled up to the position before it**, in
every run in which no request waits while a step in flight samples for it when `schedule` is
called. -/
theorem appended_eq (hbase : cfg.isAsync = false) {e : Engine K}
    (h : Run cfg (fun e call => e.Pipelined call ∧ e.NoneSampling call) e) {id : ℕ}
    (hid : id ∈ e.added) : e.appended id = (e.sched.heap id).origins := by
  have hp : e.Provenance cfg := by
    refine h.invariant ?_ ?_
    · intro kv encoder heap
      exact ⟨fun _ hid => absurd hid (Finset.notMem_empty _),
        nofun, fun _ hid => absurd hid (Finset.notMem_empty _),
        fun _ _ => rfl⟩
    · intro e e' call hq ha hp hcall hP hs
      exact hs.provenance hbase hq ha hp hcall hP.1 hP.2
  exact hp.appended id hid

/-- One token for a request, and none for others. -/
def smallResult (id token : ℕ) : ModelRunnerOutput where
  reqIdToIndex := AList.singleton id 0
  sampledTokenIds := [[token]]
  poolerOutput := []
  promptLogprobs := ∅
  kvConnectorOutput := none

/-- No token. -/
def noResult : ModelRunnerOutput := { smallResult 0 0 with sampledTokenIds := [[]] }

/-- A request is preempted while a part of its prompt is computed, is resumed before the output of this
step is there, and generates two tokens. -/
theorem appended_eq_small : ∃ e : Engine (HashedKVCacheManager smallHasher),
    (e.sched.heap 0).outputTokenIds = [7, 8] ∧ e.appended 0 = (e.sched.heap 0).origins := by
  obtain ⟨e, he, hobs⟩ := exists_ok_of_map (c := ([7, 8], true))
    (f := fun e : Engine (HashedKVCacheManager smallHasher) =>
      ((e.sched.heap 0).outputTokenIds, decide (0 ∈ e.added)))
    (show (runCalls smallConfig (fun e call => e.Pipelined call ∧ e.NoneSampling call)
      [.addRequest 0 { smallRequest with promptTokenIds := some [1, 2, 3, 4, 5, 6, 7, 8, 9, 10] },
        .schedule smallEnv,
        .resetPrefixCache true false false, .schedule smallEnv, .schedule smallEnv,
        .updateFromOutput (fun _ => (false, false)) noResult,
        .updateFromOutput (fun _ => (false, false)) noResult,
        .updateFromOutput (fun _ => (false, false)) (smallResult 0 7), .schedule smallEnv,
        .updateFromOutput (fun _ => (false, false)) (smallResult 0 8)]
      smallEngine).toOption.map _ = _ by decide +kernel)
  obtain ⟨houtputs, hadded⟩ := Prod.mk.inj hobs
  exact ⟨e, houtputs, appended_eq rfl ((Run.new _ _ _).runCalls he) (of_decide_eq_true hadded)⟩

/-- A request is preempted by a reset while a step in flight samples for it, and is scheduled again
before this token comes back: the same position is sampled twice. -/
theorem appended_twice : ∃ e : Engine (HashedKVCacheManager smallHasher),
    Run smallConfig Pipelined e ∧ 0 ∈ e.added ∧ e.appended 0 = [⟨3, [1, 2, 3]⟩, ⟨3, [1, 2, 3]⟩] ∧
      (e.sched.heap 0).origins = [⟨3, [1, 2, 3]⟩, ⟨4, [1, 2, 3, 7]⟩] := by
  obtain ⟨e, he, hobs⟩ := exists_ok_of_map
    (c := (true, ([⟨3, [1, 2, 3]⟩, ⟨3, [1, 2, 3]⟩] : List Origin),
      ([⟨3, [1, 2, 3]⟩, ⟨4, [1, 2, 3, 7]⟩] : List Origin)))
    (f := fun e : Engine (HashedKVCacheManager smallHasher) =>
      (decide (0 ∈ e.added), e.appended 0, (e.sched.heap 0).origins))
    (show (runCalls smallConfig Pipelined
      [.addRequest 0 smallRequest, .schedule smallEnv, .resetPrefixCache true false false,
        .schedule smallEnv,
        .updateFromOutput (fun _ => (false, false)) (smallResult 0 7),
        .updateFromOutput (fun _ => (false, false)) (smallResult 0 8)]
      smallEngine).toOption.map _ = _ by decide)
  obtain ⟨hadded, hobs⟩ := Prod.mk.inj hobs
  obtain ⟨happended, horigins⟩ := Prod.mk.inj hobs
  exact ⟨e, (Run.new _ _ _).runCalls he, of_decide_eq_true hadded, happended, horigins⟩

end Engine

end LoptVllm.Sched
