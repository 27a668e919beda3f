import LoptVllm.Sched.Partition

/-!
# What `schedule` does with one request

The moves of `schedule` treat a request in one of five ways: they leave it alone, change it while it
waits, preempt it, schedule it as a running request, or admit it.
-/

namespace LoptVllm.Sched

open List Function AList

variable {K : Type} [KVCacheManagerOps K] {cfg : SchedulerConfig} {env : ScheduleEnv}

namespace Step

/-- The draft tokens that are recorded for a running request with `n` new tokens. -/
def draftsOf (r : Request) (n : ℤ) : Option (List ℤ) :=
  let numScheduledSpecTokens := n + r.numComputedTokens - r.numTokens - r.numOutputPlaceholders
  if r.specTokenIds ≠ [] ∧ 0 < numScheduledSpecTokens then
    some (r.specTokenIds.take numScheduledSpecTokens.toNat)
  else none

/-- How a request that was `r₀` is treated: it is `r` now, with the number of its scheduled tokens
and its scheduled draft tokens, if there are any. `preempting` says that some request has been
preempted. -/
inductive Treated (cfg : SchedulerConfig) (preempting : Prop) (r₀ r : Request) (tokens : Option ℤ)
    (drafts : Option (List ℤ)) : Prop
  | kept (hr : r = r₀) (htokens : tokens = none) (hdrafts : drafts = none)
  | waits {status : RequestStatus} {n : ℤ} (hwaits : r₀.status.Waits) (hstatus : status ≠ .running)
      (hr : r = { r₀ with
        status := status
        numComputedTokens := n })
      (htokens : tokens = none) (hdrafts : drafts = none)
  | preempted {status : RequestStatus} {n numCached : ℤ} {numPreemptions : ℕ}
      (hpreempting : preempting) (hstatus : status ≠ .running)
      (hr : r = { r₀ with
        status := status
        numComputedTokens := n
        specTokenIds := []
        numCachedTokens := numCached
        numPreemptions := numPreemptions })
      (htokens : tokens = none) (hdrafts : drafts = none)
  | ran {n : ℤ} (hrunning : r₀.status = .running) (hn : RunningTokens cfg r₀ n)
      (hr : r = { r₀ with specTokenIds := [] })
      (htokens : tokens = some n) (hdrafts : drafts = draftsOf r₀ n)
  | admitted {n computed numCached : ℤ} (hwaits : r₀.status.Waits) (hpos : 0 < n)
      (hle : computed + n ≤ r₀.numTokens)
      (hr : r = { r₀ with
        status := .running
        numComputedTokens := computed
        numCachedTokens := numCached })
      (htokens : tokens = some n) (hdrafts : drafts = none)

variable {preempting : Prop} {r₀ r : Request} {tokens : Option ℤ} {drafts : Option (List ℤ)}

theorem Treated.mono {preempting' : Prop} (h : Treated cfg preempting r₀ r tokens drafts)
    (himp : preempting → preempting') : Treated cfg preempting' r₀ r tokens drafts := by
  cases h with
  | kept hr htokens hdrafts => exact .kept hr htokens hdrafts
  | waits hwaits hstatus hr htokens hdrafts => exact .waits hwaits hstatus hr htokens hdrafts
  | preempted hp hstatus hr htokens hdrafts =>
    exact .preempted (himp hp) hstatus hr htokens hdrafts
  | ran hrunning hn hr htokens hdrafts => exact .ran hrunning hn hr htokens hdrafts
  | admitted hwaits hpos hle hr htokens hdrafts =>
    exact .admitted hwaits hpos hle hr htokens hdrafts

variable {status : RequestStatus}

/-- A request that has not been scheduled changes its status and its computed tokens. -/
theorem Treated.change (h : Treated cfg preempting r₀ r none drafts) (hwaits : r.status.Waits)
    (hstatus : status ≠ .running) (n : ℤ) :
    Treated cfg preempting r₀ { r with
      status := status
      numComputedTokens := n } none drafts := by
  cases h with
  | kept hr _ hdrafts =>
    subst hr
    exact .waits hwaits hstatus rfl rfl hdrafts
  | waits hwaits₀ _ hr _ hdrafts =>
    subst hr
    exact .waits hwaits₀ hstatus rfl rfl hdrafts
  | preempted hp _ hr _ hdrafts =>
    subst hr
    exact .preempted hp hstatus rfl rfl hdrafts
  | ran _ _ _ htokens | admitted _ _ _ _ htokens => cases htokens

theorem Treated.noDrafts (h : Treated cfg preempting r₀ r tokens drafts)
    (hnone : tokens = none) : drafts = none := by
  cases h with
  | kept _ _ hdrafts | waits _ _ _ _ hdrafts | preempted _ _ _ _ hdrafts => exact hdrafts
  | ran _ _ _ htokens | admitted _ _ _ _ htokens =>
    rw [hnone] at htokens
    cases htokens

/-- A request that runs without being scheduled is as it was. -/
theorem Treated.kept_of_running (h : Treated cfg preempting r₀ r none drafts)
    (hrunning : r.status = .running) : r = r₀ := by
  cases h with
  | kept hr => exact hr
  | waits _ hstatus hr | preempted _ hstatus hr =>
    rw [hr] at hrunning
    exact absurd hrunning hstatus
  | ran _ _ _ htokens | admitted _ _ _ _ htokens => cases htokens

section

variable (h : Treated cfg preempting r₀ r tokens drafts)
include h

theorem Treated.preempt {preempting' : Prop}
    (hp : preempting') : Treated cfg preempting' r₀ r.preempt none none := by
  have hne : RequestStatus.preempted ≠ .running := by decide
  cases h with
  | kept hr | waits _ _ hr | preempted _ _ hr | ran _ _ hr | admitted _ _ _ hr =>
    rw [hr]
    exact .preempted hp hne rfl rfl rfl

/-- The request stays what it is, with its output tokens and its placeholders. -/
theorem Treated.frame :
    r.toEngineCoreRequest = r₀.toEngineCoreRequest ∧ r.outputTokenIds = r₀.outputTokenIds ∧
      r.numOutputPlaceholders = r₀.numOutputPlaceholders ∧
      r.discardLatestAsyncTokens = r₀.discardLatestAsyncTokens := by
  cases h with
  | kept hr | waits _ _ hr | preempted _ _ hr | ran _ _ hr | admitted _ _ _ hr =>
    rw [hr]
    exact ⟨rfl, rfl, rfl, rfl⟩

end

/-- The treatment of the request so far. -/
abbrev TreatedSoFar (cfg : SchedulerConfig) (r₀ : Request) (st : Step K) (id : ℕ) : Prop :=
  Treated cfg (st.preemptedReqs ≠ []) r₀ (st.request id) (st.numScheduledTokens.lookup id)
    (st.scheduledSpecDecodeTokens.lookup id)

variable {st st' : Step K} {id : ℕ}

section

omit [KVCacheManagerOps K]

/-- A change that does not touch the request. -/
theorem TreatedSoFar.congr (h : TreatedSoFar cfg r₀ st id)
    (hheap : st'.sched.heap id = st.sched.heap id)
    (hlookup : st'.numScheduledTokens.lookup id = st.numScheduledTokens.lookup id)
    (hdrafts : st'.scheduledSpecDecodeTokens.lookup id = st.scheduledSpecDecodeTokens.lookup id)
    (hpre : st.preemptedReqs ≠ [] → st'.preemptedReqs ≠ []) : TreatedSoFar cfg r₀ st' id := by
  have hr : st'.request id = st.request id := hheap
  unfold TreatedSoFar
  rw [hr, hlookup, hdrafts]
  exact h.mono hpre

/-- A waiting request, which may be this one, changes its status and its computed tokens. -/
theorem TreatedSoFar.change {n : ℤ} {i : ℕ}
    (h : TreatedSoFar cfg r₀ st id)
    (hkey : i ∉ st.numScheduledTokens) (hwaits : (st.request i).status.Waits)
    (hstatus : status ≠ .running) (hheap : st'.sched.heap = update st.sched.heap i
      { st.sched.heap i with
        status := status
        numComputedTokens := n }) (hlookup : st'.numScheduledTokens = st.numScheduledTokens)
    (hdrafts : st'.scheduledSpecDecodeTokens = st.scheduledSpecDecodeTokens)
    (hpre : st'.preemptedReqs = st.preemptedReqs) : TreatedSoFar cfg r₀ st' id := by
  by_cases he : id = i
  case neg =>
    exact h.congr (by rw [hheap, update_of_ne he]) (by rw [hlookup]) (by rw [hdrafts])
      fun hne => hpre ▸ hne
  subst he
  have hr : st'.request id = { st.request id with
    status := status
    numComputedTokens := n } := by rw [request, hheap, update_self, request]
  unfold TreatedSoFar at h ⊢
  rw [hr, hlookup, hdrafts, hpre]
  rw [lookup_eq_none.2 hkey] at h ⊢
  exact h.change hwaits hstatus n

theorem lookup_recordSpecTokens {n : ℤ} (hnone : st.scheduledSpecDecodeTokens.lookup id = none) :
    (st.recordSpecTokens id n).lookup id = draftsOf (st.request id) n := by
  unfold recordSpecTokens draftsOf
  dsimp only
  split_ifs
  · exact lookup_insert _
  · exact hnone

theorem lookup_recordSpecTokens_ne {i : ℕ} {n : ℤ} (hne : id ≠ i) :
    (st.recordSpecTokens i n).lookup id = st.scheduledSpecDecodeTokens.lookup id := by
  unfold recordSpecTokens
  dsimp only
  split_ifs
  · exact lookup_insert_ne hne
  · rfl

end

/-- The drafts of a victim that was scheduled are dropped with it. -/
theorem preempt_drafts {victim idx idx' : ℕ} (h : st.preempt cfg victim idx = .ok (idx', st')) :
    (st'.numScheduledTokens = st.numScheduledTokens ∧
        st'.scheduledSpecDecodeTokens = st.scheduledSpecDecodeTokens) ∨
      st'.scheduledSpecDecodeTokens = st.scheduledSpecDecodeTokens.erase victim := by
  obtain ⟨st₁, s, ht, hs, rfl⟩ := preempt_eq h
  cases ht with
  | last | notScheduled => exact .inl ⟨rfl, rfl⟩
  | scheduled _ _ hu =>
    obtain ⟨n, blocks, budget, -, -, rfl⟩ := unschedule_eq hu
    exact .inr rfl

section

variable (ht : TreatedSoFar cfg r₀ st id)
include ht

theorem TreatedSoFar.victim {victim idx idx' : ℕ} (hv : st.sched.preemptionVictim cfg = some victim)
    (h : st.preempt cfg victim idx = .ok (idx', st')) (hkey : victim ∉ st'.numScheduledTokens) :
    TreatedSoFar cfg r₀ st' id := by
  have hpre := preempt_spec hv h
  obtain ⟨kv, running, -, -, hsched⟩ := hpre.sched
  have hne : st'.preemptedReqs ≠ [] := by
    rw [hpre.preempted]
    exact append_ne_nil_of_right_ne_nil _ (cons_ne_nil _ _)
  by_cases he : id = victim
  · subst he
    have hr : st'.request id = (st.request id).preempt := by
      unfold request
      rw [hsched]
      exact update_self _ _ _
    have hdrafts : st'.scheduledSpecDecodeTokens.lookup id = none := by
      rcases preempt_drafts h with ⟨hscheduled, heq⟩ | heq
      · rw [heq]
        exact ht.noDrafts (lookup_eq_none.2 (hscheduled ▸ hkey))
      · rw [heq]
        exact lookup_erase _ _
    unfold TreatedSoFar
    rw [hr, hdrafts, lookup_eq_none.2 hkey]
    exact ht.preempt hne
  · refine ht.congr ?_ (hpre.numScheduled id he) (hpre.specTokens id he) fun _ => hne
    rw [hsched]
    exact update_of_ne he _ _

variable {st₁ : Step K} {i : ℕ} {plan : EncoderSchedule} {blocks : List (List ℕ)}

theorem TreatedSoFar.run (hrunning : (st.request i).status = .running)
    (hkey : i ∉ st.numScheduledTokens) (hn : RunningTokens cfg (st.request i) plan.numNewTokens)
    (halloc : st.allocateRunning cfg i plan.numNewTokens = .ok (some blocks, st₁))
    (h : st₁.scheduleRunning i blocks plan = .ok st') : TreatedSoFar cfg r₀ st' id := by
  obtain ⟨kv, -, rfl⟩ := allocateRunning_eq halloc
  obtain ⟨m, inputs, budget, hst'⟩ := scheduleRunning_eq h
  by_cases he : id = i
  · subst he
    have hr : st'.request id = { st.request id with specTokenIds := [] } := by
      rw [hst']
      exact update_self _ _ _
    have hl : st'.numScheduledTokens.lookup id = some plan.numNewTokens := by
      rw [hst']
      exact lookup_insert _
    unfold TreatedSoFar at ht ⊢
    rw [lookup_eq_none.2 hkey] at ht
    have hd : st'.scheduledSpecDecodeTokens.lookup id =
        draftsOf (st.request id) plan.numNewTokens := by
      rw [hst']
      exact lookup_recordSpecTokens (ht.noDrafts rfl)
    rw [hr, hl, hd, ← ht.kept_of_running hrunning]
    exact .ran hrunning hn rfl rfl rfl
  · rw [hst']
    exact ht.congr (update_of_ne he _ _) (lookup_insert_ne he) (lookup_recordSpecTokens_ne he)
      fun h => h

theorem TreatedSoFar.admit {computed : ComputedTokens} (hwaits : (st.request i).status.Waits)
    (hkey : i ∉ st.numScheduledTokens) (hpre : st.preemptedReqs = []) (hpos : 0 < plan.numNewTokens)
    (hn : plan.numNewTokens ≤ (st.request i).numTokens - computed.numComputedTokens)
    (halloc : st.allocateWaiting cfg i computed plan.numNewTokens = .ok (some blocks, st₁))
    (h : st₁.admitRequest cfg i computed plan = .ok st') : TreatedSoFar cfg r₀ st' id := by
  obtain ⟨kv, args, -, -, -, -, -, -, rfl⟩ := allocateWaiting_eq halloc
  obtain ⟨m, inputs, budget, loras, newReqs, resumedReqs, -, hst'⟩ := admitRequest_eq h
  by_cases he : id = i
  · subst he
    have hr : st'.request id = { st.request id with
        status := .running
        numComputedTokens := computed.numComputedTokens
        numCachedTokens := if (st.request id).numCachedTokens < 0 then computed.numComputedTokens
          else (st.request id).numCachedTokens } := by
      rw [hst']
      exact update_self _ _ _
    have hl : st'.numScheduledTokens.lookup id = some plan.numNewTokens := by
      rw [hst']
      exact lookup_insert _
    have hd : st'.scheduledSpecDecodeTokens = st.scheduledSpecDecodeTokens := by rw [hst']
    have hle : computed.numComputedTokens + plan.numNewTokens ≤ (st.request id).numTokens := by
      omega
    unfold TreatedSoFar at ht ⊢
    rw [lookup_eq_none.2 hkey] at ht
    rw [hl, hd]
    cases ht with
    | kept hr₀ _ hdrafts =>
      rw [hr₀] at hr hle hwaits
      exact .admitted hwaits hpos hle hr rfl hdrafts
    | waits hw₀ _ hr₀ _ hdrafts =>
      rw [hr₀] at hr hle
      exact .admitted hw₀ hpos hle hr rfl hdrafts
    | preempted hp => exact absurd hpre hp
    | ran _ _ _ htokens | admitted _ _ _ _ htokens => cases htokens
  · rw [hst']
    exact ht.congr (update_of_ne he _ _) (lookup_insert_ne he) rfl fun h => h

end

theorem Move.treated (h : Move cfg env st st') (hq : st.Queued)
    (hs : ∀ id ∈ st.numScheduledTokens, id ∈ st.sched.running)
    (ht : TreatedSoFar cfg r₀ st id) : TreatedSoFar cfg r₀ st' id := by
  have hwaits : ∀ {i}, i ∈ st.sched.waiting → (st.request i).status.Waits := fun hi =>
    (hq.waits _ (mem_allWaiting hi)).2
  cases h with
  | tryEncoder hid h =>
    obtain ⟨m, rfl⟩ := tryEncoder_eq cfg env h
    exact ht.congr rfl rfl rfl fun h => h
  | allocateFails hid h =>
    obtain ⟨kv, -, rfl⟩ := allocateRunning_eq h
    exact ht.congr rfl rfl rfl fun h => h
  | preempt hv h hkey => exact ht.victim hv h hkey
  | run hid hnew hkey hmax hn halloc h =>
    exact ht.run (hq.isRunning _ hid).2 hkey hn halloc h
  | recordLoras h =>
    obtain ⟨loras, rfl⟩ := recordLoras_eq h
    exact ht.congr rfl rfl rfl fun h => h
  | @readyRemoteKv s i hid hst h =>
    have hkey := notMem_scheduled hq hs hid
    obtain ⟨kv, n, recving, failed, heq⟩ := readyRemoteKv_eq h (st.readyStatus i)
    rw [heq]
    refine ht.change hkey (hwaits hid) ?_ rfl rfl rfl rfl
    unfold readyStatus
    split_ifs <;> decide
  | readyFsm hid hst =>
    exact ht.change (notMem_scheduled hq hs hid) (hwaits hid) (by decide) rfl rfl rfl rfl
  | skip hid => exact ht.congr rfl rfl rfl fun h => h
  | allocateWaitingFails hid h =>
    obtain ⟨kv, args, -, -, -, -, -, -, rfl⟩ := allocateWaiting_eq h
    exact ht.congr rfl rfl rfl fun h => h
  | waitForRemoteKvs hid _ _ halloc =>
    have hkey := notMem_scheduled hq hs hid
    obtain ⟨kv, args, -, -, -, -, -, -, rfl⟩ := allocateWaiting_eq halloc
    exact ht.change hkey (hwaits hid) (by decide) rfl rfl rfl rfl
  | admitted hid hpre hcap hlora hcomputed hpos hbudget hn halloc h =>
    exact ht.admit (hwaits hid) (notMem_scheduled hq hs hid) hpre hpos hn halloc h

theorem Moves.treated {s : Scheduler K} (h : Moves cfg env (start cfg s) st) (hq : s.Queued)
    (id : ℕ) : TreatedSoFar cfg (s.heap id) st id := by
  have hstart : TreatedSoFar cfg (s.heap id) (start cfg s) id := .kept rfl rfl rfl
  exact (h.induct hq
    (fun _ hid => absurd hid (notMem_empty _))
    (fun hmove hq _ hs ht => hmove.treated hq hs ht) hstart).1

end Step

namespace Scheduler

variable {out : SchedulerOutput}

/-- A request after `schedule`: it has been treated in one of the five ways, and has advanced if it
was scheduled. -/
theorem Schedules.treated {s s' : Scheduler K} {st : Step K}
    (h : Schedules cfg env s st out s') (hq : s.Queued) (id : ℕ) :
    ∃ r, Step.Treated cfg (st.preemptedReqs ≠ []) (s.heap id) r (out.numScheduledTokens.lookup id)
        (out.scheduledSpecDecodeTokens.lookup id) ∧
      s'.heap id = match out.numScheduledTokens.lookup id with
        | some n => afterSchedule cfg (out.numDraftTokens id) n r
        | none => r := by
  have htreated := h.moves.treated hq id
  obtain ⟨encoder, hs'⟩ := h.state
  have hlookup : out.numScheduledTokens = st.numScheduledTokens := h.output.numScheduledTokens
  have hspec : out.scheduledSpecDecodeTokens = st.scheduledSpecDecodeTokens :=
    h.output.scheduledSpecDecodeTokens
  refine ⟨st.request id, ?_, ?_⟩
  · rw [hlookup, hspec]
    exact htreated
  · rw [hs']
    rfl

/-- `schedule` does not change what the request was added with. -/
theorem Schedules.toEngineCoreRequest {s s' : Scheduler K} {st : Step K}
    (h : Schedules cfg env s st out s') (hq : s.Queued) (id : ℕ) :
    (s'.heap id).toEngineCoreRequest = (s.heap id).toEngineCoreRequest := by
  obtain ⟨r, htreated, hheap⟩ := h.treated hq id
  have hr : r.toEngineCoreRequest = (s.heap id).toEngineCoreRequest := by
    cases htreated with
    | kept hr | waits _ _ hr | preempted _ _ hr | ran _ _ hr | admitted _ _ _ hr => rw [hr]
  rw [hheap, ← hr]
  unfold afterSchedule Request.addPlaceholders
  split
  · split_ifs <;> rfl
  · rfl

end Scheduler

end LoptVllm.Sched
