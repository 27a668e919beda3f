import LoptVllm.Sched.Partition

/-!
# The order of the queues

Under the FCFS policy `schedule` reverses parts of the queues several times: the preempted requests
are taken from the tail and put in front of the waiting ones one by one, and the skipped ones are put
in front of another queue, which is then put back element by element. The reversals cancel.
-/

namespace LoptVllm.Sched

open List

namespace Step

open KVCacheManagerOps

variable {K : Type} [KVCacheManagerOps K] {cfg : SchedulerConfig} {env : ScheduleEnv}
  {st st₁ st₂ st' : Step K} {id idx : ℕ}

/-! ### Preemption -/

/-- Requests have been taken from the tail of `self.running` and put, in the same order, in front of
`self.waiting`. -/
def FromTail (st st' : Step K) : Prop :=
  ∃ victims, st.sched.running = st'.sched.running ++ victims.reverse ∧
    st'.sched.waiting = victims.reverse ++ st.sched.waiting ∧
    st'.preemptedReqs = st.preemptedReqs ++ victims ∧
    st'.skippedWaitingRequests = st.skippedWaitingRequests

omit [KVCacheManagerOps K] in
theorem FromTail.of_eq (hrun : st'.sched.running = st.sched.running)
    (hwait : st'.sched.waiting = st.sched.waiting) (hpre : st'.preemptedReqs = st.preemptedReqs)
    (hskip : st'.skippedWaitingRequests = st.skippedWaitingRequests) : FromTail st st' :=
  ⟨[], by simp [hrun], by simp [hwait], by simp [hpre], hskip⟩

omit [KVCacheManagerOps K] in
theorem FromTail.trans (h₁ : FromTail st st₁) (h₂ : FromTail st₁ st₂) : FromTail st st₂ := by
  obtain ⟨l₁, hrun₁, hwait₁, hpre₁, hskip₁⟩ := h₁
  obtain ⟨l₂, hrun₂, hwait₂, hpre₂, hskip₂⟩ := h₂
  refine ⟨l₁ ++ l₂, ?_, ?_, ?_, hskip₂.trans hskip₁⟩
  · simp [hrun₁, hrun₂]
  · simp [hwait₁, hwait₂]
  · simp [hpre₁, hpre₂]

variable {n : ℤ}

omit [KVCacheManagerOps K] in
theorem tryEncoder_fromTail {c : ℤ} {plan : EncoderSchedule}
    (h : st.tryEncoder cfg env id c n = .ok (plan, st')) : FromTail st st' := by
  obtain ⟨m, rfl⟩ := tryEncoder_eq cfg env h
  exact .of_eq rfl rfl rfl rfl

theorem allocateRunning_fromTail {blocks : Option (List (List ℕ))}
    (h : st.allocateRunning cfg id n = .ok (blocks, st')) : FromTail st st' := by
  obtain ⟨kv, -, rfl⟩ := allocateRunning_eq h
  exact .of_eq rfl rfl rfl rfl

section

variable (hp : cfg.policy = .fcfs)

include hp

/-- The victim is the last running request. -/
theorem preempt_fromTail {victim idx' : ℕ} (hv : st.sched.preemptionVictim cfg = some victim)
    (h : st.preempt cfg victim idx = .ok (idx', st')) : FromTail st st' := by
  obtain ⟨st₁, s, ht, hs, rfl⟩ := preempt_eq h
  obtain ⟨-, kv, -, rfl⟩ := preemptRequest_eq hs
  cases ht with
  | last =>
    refine ⟨[victim], ?_, rfl, rfl, rfl⟩
    simp only [Scheduler.preemptionVictim, hp] at hv
    exact (dropLast_append_getLast? _ hv).symm
  | notScheduled hp' | scheduled hp' =>
    rw [hp] at hp'
    cases hp'

theorem Preempts.fromTail {x y : ℕ × Step K} (h : Preempts cfg id n x y) : FromTail x.2 y.2 := by
  induction h with
  | refl => exact .of_eq rfl rfl rfl rfl
  | round halloc hv hpre _ _ ih =>
    exact (allocateRunning_fromTail halloc).trans ((preempt_fromTail hp hv hpre).trans ih)

theorem PreemptLoop.fromTail {x : ℕ × Step K}
    {r : Option (List (List ℕ)) × ℕ × Step K} (h : PreemptLoop cfg id n x r) :
    FromTail x.2 r.2.2 := by
  cases h with
  | scheduled hps halloc => exact (hps.fromTail hp).trans (allocateRunning_fromTail halloc)
  | preempted hps halloc hv hpre =>
    exact ((hps.fromTail hp).trans (allocateRunning_fromTail halloc)).trans
      (preempt_fromTail hp hv hpre)

theorem RunningRound.fromTail {r : Flow (ℕ × Step K)}
    (h : RunningRound cfg env idx st r) : FromTail st r.state.2 := by
  cases h with
  | out | reachesMaxTokens => exact .of_eq rfl rfl rfl rfl
  | noTokens _ htry => exact tryEncoder_fromTail htry
  | preempted _ htry _ hloop => exact (tryEncoder_fromTail htry).trans (hloop.fromTail hp)
  | scheduled _ _ htry _ hloop h =>
    have hbefore := (tryEncoder_fromTail htry).trans (hloop.fromTail hp)
    obtain ⟨m, inputs, budget, rfl⟩ := scheduleRunning_eq h
    exact hbefore.trans (.of_eq rfl rfl rfl rfl)

theorem runningLoop_fromTail {fuel : ℕ} : ∀ {idx : ℕ} {st st' : Step K},
    runningLoop cfg env fuel idx st = .ok st' → FromTail st st' := by
  induction fuel with
  | zero =>
    intro idx st st' h
    cases h
  | succ fuel ih =>
    intro idx st st' h
    simp only [runningLoop] at h
    split_ifs at h with hc
    · obtain ⟨r, hr, h⟩ := bind_ok.1 h
      have hround := (runningBody_round hr).fromTail hp
      cases r with
      | next x => exact hround.trans (ih h)
      | done x =>
        cases h
        exact hround
    · cases h
      exact .of_eq rfl rfl rfl rfl

end

/-! ### A round of the second loop -/

/-- What a round of the loop over the waiting requests does to the queues, and to what is
scheduled. -/
inductive WaitingRound (id : ℕ) (st : Step K) : Flow (Step K) → Prop
  /-- The request is put aside, also if it waits for remote KVs from now on. -/
  | skipped {st' : Step K} (hrun : st'.sched.running = st.sched.running)
      (hwait : st'.sched.waiting = st.sched.waiting.erase id)
      (hskip : st'.skippedWaitingRequests = id :: st.skippedWaitingRequests)
      (hpre : st'.preemptedReqs = st.preemptedReqs)
      (hnum : st'.numScheduledTokens = st.numScheduledTokens) : WaitingRound id st (.next st')
  | admitted {st' : Step K} {n : ℤ} (hrun : st'.sched.running = st.sched.running ++ [id])
      (hwait : st'.sched.waiting = st.sched.waiting.erase id)
      (hskip : st'.skippedWaitingRequests = st.skippedWaitingRequests)
      (hpre : st'.preemptedReqs = st.preemptedReqs)
      (hnum : st'.numScheduledTokens = st.numScheduledTokens.insert id n) :
      WaitingRound id st (.next st')
  | stopped {st' : Step K} (hrun : st'.sched.running = st.sched.running)
      (hwait : st'.sched.waiting = st.sched.waiting)
      (hskip : st'.skippedWaitingRequests = st.skippedWaitingRequests)
      (hpre : st'.preemptedReqs = st.preemptedReqs)
      (hnum : st'.numScheduledTokens = st.numScheduledTokens) : WaitingRound id st (.done st')

/-- Two states with the same queues, of which the same is scheduled. -/
structure SameQueues (st st' : Step K) : Prop where
  running : st'.sched.running = st.sched.running
  waiting : st'.sched.waiting = st.sched.waiting
  skipped : st'.skippedWaitingRequests = st.skippedWaitingRequests
  preempted : st'.preemptedReqs = st.preemptedReqs
  numScheduled : st'.numScheduledTokens = st.numScheduledTokens

variable {r : Flow (Step K)}

omit [KVCacheManagerOps K] in
theorem SameQueues.round (h : SameQueues st st₁) (hr : WaitingRound id st₁ r) :
    WaitingRound id st r := by
  cases hr with
  | skipped hrun hwait hskip hpre hnum =>
    exact .skipped (hrun.trans h.running) (by rw [hwait, h.waiting]) (by rw [hskip, h.skipped])
      (hpre.trans h.preempted) (hnum.trans h.numScheduled)
  | admitted hrun hwait hskip hpre hnum =>
    exact .admitted (by rw [hrun, h.running]) (by rw [hwait, h.waiting]) (hskip.trans h.skipped)
      (hpre.trans h.preempted) (by rw [hnum, h.numScheduled])
  | stopped hrun hwait hskip hpre hnum =>
    exact .stopped (hrun.trans h.running) (hwait.trans h.waiting) (hskip.trans h.skipped)
      (hpre.trans h.preempted) (hnum.trans h.numScheduled)

theorem readyRemoteKv_sameQueues {isReady : Bool}
    (h : st.readyRemoteKv cfg id = .ok (isReady, st')) : SameQueues st st' := by
  simp only [readyRemoteKv] at h
  split at h
  · obtain ⟨⟨b, s⟩, hs, h⟩ := bind_ok.1 h
    obtain ⟨rfl, rfl⟩ | ⟨rfl, kv, n, recving, failed, rfl⟩ := updateWaitingForRemoteKv_eq hs
    · cases h
      exact ⟨rfl, rfl, rfl, rfl, rfl⟩
    · cases h
      exact ⟨rfl, rfl, rfl, rfl, rfl⟩
  · cases h
    exact ⟨rfl, rfl, rfl, rfl, rfl⟩

omit [KVCacheManagerOps K] in
theorem readyFsm_sameQueues {isReady : Bool} (h : st.readyFsm env id = (isReady, st')) :
    SameQueues st st' := by
  obtain rfl | ⟨-, rfl⟩ := readyFsm_eq h <;> exact ⟨rfl, rfl, rfl, rfl, rfl⟩

theorem waitingNewTokens_sameQueues {computed : ComputedTokens} {plan : Option EncoderSchedule}
    (h : st.waitingNewTokens cfg env id computed = .ok (plan, st')) : SameQueues st st' := by
  obtain ⟨-, m, rfl⟩ := Step.waitingNewTokens_eq h
  exact ⟨rfl, rfl, rfl, rfl, rfl⟩

omit [KVCacheManagerOps K] in
theorem skipRequest_round : WaitingRound id st (.next (st.skipRequest id)) :=
  .skipped rfl rfl rfl rfl rfl

theorem scheduleWaiting_round (h : st.scheduleWaiting cfg env id = .ok r) :
    WaitingRound id st r := by
  obtain ⟨computed?, -, h⟩ := bind_ok.1 h
  cases computed? with
  | none =>
    cases h
    exact skipRequest_round
  | some computed =>
    obtain ⟨⟨plan?, st₁⟩, hplan, h⟩ := bind_ok.1 h
    refine (waitingNewTokens_sameQueues hplan).round ?_
    cases plan? with
    | none =>
      cases h
      exact .stopped rfl rfl rfl rfl rfl
    | some plan =>
      obtain ⟨⟨blocks?, st₂⟩, halloc, h⟩ := bind_ok.1 h
      obtain ⟨kv, args, -, -, -, -, -, -, rfl⟩ := allocateWaiting_eq halloc
      cases blocks? with
      | none =>
        cases h
        exact .stopped rfl rfl rfl rfl rfl
      | some blocks =>
        dsimp only at h
        split at h
        · cases h
          exact .skipped rfl rfl rfl rfl rfl
        · obtain ⟨st₃, hadmit, h⟩ := bind_ok.1 h
          cases h
          obtain ⟨m, inputs, budget, loras, newReqs, resumedReqs, -, rfl⟩ := admitRequest_eq hadmit
          exact .admitted rfl rfl rfl rfl rfl

/-- A round takes the request at the front out of `self.waiting`, or ends the loop. -/
theorem waitingBody_round (h : st.waitingBody cfg env id = .ok r) : WaitingRound id st r := by
  obtain ⟨⟨isReady, st₁⟩, hready, h⟩ := bind_ok.1 h
  refine (readyRemoteKv_sameQueues hready).round ?_
  dsimp only at h
  split at h
  · cases h
    exact skipRequest_round
  · cases hfsm : st₁.readyFsm env id with
    | mk isReady' st₂ =>
      rw [hfsm] at h
      refine (readyFsm_sameQueues hfsm).round ?_
      split at h
      · cases h
        exact skipRequest_round
      · split at h
        · cases h
          exact skipRequest_round
        · exact scheduleWaiting_round h

/-! ### The second loop -/

/-- The requests `passed` have been taken from the front of `self.waiting`: some have been put aside
and the others have been appended to `self.running`, both in their order. -/
def FromHead (st st' : Step K) : Prop :=
  ∃ passed admitted skipped, st.sched.waiting = passed ++ st'.sched.waiting ∧
    st'.sched.running = st.sched.running ++ admitted ∧
    st'.skippedWaitingRequests = skipped.reverse ++ st.skippedWaitingRequests ∧
    passed.Perm (admitted ++ skipped) ∧ skipped.Sublist passed ∧
    (skipped = [] → passed = admitted) ∧ st'.preemptedReqs = st.preemptedReqs

section

omit [KVCacheManagerOps K]

theorem FromHead.of_eq (hrun : st'.sched.running = st.sched.running)
    (hwait : st'.sched.waiting = st.sched.waiting) (hpre : st'.preemptedReqs = st.preemptedReqs)
    (hskip : st'.skippedWaitingRequests = st.skippedWaitingRequests) : FromHead st st' :=
  ⟨[], [], [], by simp [hwait], by simp [hrun], by simp [hskip], .refl _, .refl _, fun _ => rfl,
    hpre⟩

theorem FromHead.trans (h₁ : FromHead st st₁) (h₂ : FromHead st₁ st₂) : FromHead st st₂ := by
  obtain ⟨p₁, a₁, s₁, hwait₁, hrun₁, hskip₁, hperm₁, hsub₁, hnil₁, hpre₁⟩ := h₁
  obtain ⟨p₂, a₂, s₂, hwait₂, hrun₂, hskip₂, hperm₂, hsub₂, hnil₂, hpre₂⟩ := h₂
  refine ⟨p₁ ++ p₂, a₁ ++ a₂, s₁ ++ s₂, by simp [hwait₁, hwait₂], by simp [hrun₁, hrun₂],
    by simp [hskip₁, hskip₂], ?_, hsub₁.append hsub₂, ?_, hpre₂.trans hpre₁⟩
  · calc
      (p₁ ++ p₂).Perm ((a₁ ++ s₁) ++ (a₂ ++ s₂)) := hperm₁.append hperm₂
      List.Perm _ (a₁ ++ a₂ ++ (s₁ ++ s₂)) := by
        simp only [append_assoc]
        exact (perm_append_comm_assoc s₁ a₂ s₂).append_left a₁
  · intro hnil
    obtain ⟨hs₁, hs₂⟩ := append_eq_nil_iff.1 hnil
    rw [hnil₁ hs₁, hnil₂ hs₂]

/-- With the FCFS policy the request that is looked at is the first one. -/
theorem peekRequest_fcfs (hp : cfg.policy = .fcfs) {s : Scheduler K} {queue : List ℕ}
    (h : s.peekRequest cfg queue = some id) : ∃ rest, queue = id :: rest := by
  cases queue with
  | nil => cases h
  | cons a rest =>
    simp only [Scheduler.peekRequest, hp, Option.some.injEq] at h
    exact ⟨rest, by rw [h]⟩

theorem WaitingRound.fromHead {rest : List ℕ} (hw : st.sched.waiting = id :: rest)
    (h : WaitingRound id st r) : FromHead st r.state := by
  cases h with
  | skipped hrun hwait hskip hpre =>
    refine ⟨[id], [], [id], ?_, by simp [Flow.state, hrun], by simp [Flow.state, hskip], .refl _,
      .refl _, fun h => absurd h (cons_ne_nil _ _), hpre⟩
    simp [Flow.state, hwait, hw]
  | admitted hrun hwait hskip hpre =>
    refine ⟨[id], [id], [], ?_, hrun, by simp [Flow.state, hskip], .refl _, nil_sublist _,
      fun _ => rfl, hpre⟩
    simp [Flow.state, hwait, hw]
  | stopped hrun hwait hskip hpre => exact .of_eq hrun hwait hpre hskip

end

theorem waitingLoop_fromHead (hp : cfg.policy = .fcfs) {fuel : ℕ} : ∀ {st st' : Step K},
    waitingLoop cfg env fuel st = .ok st' → FromHead st st' := by
  induction fuel with
  | zero =>
    intro st st' h
    cases h
  | succ fuel ih =>
    intro st st' h
    simp only [waitingLoop] at h
    split at h
    · cases h
      exact .of_eq rfl rfl rfl rfl
    · rename_i id hpeek
      split at h
      · obtain ⟨r, hr, h⟩ := bind_ok.1 h
        obtain ⟨rest, hw⟩ := peekRequest_fcfs hp hpeek
        have hround := (waitingBody_round hr).fromHead hw
        cases r with
        | next st₁ => exact hround.trans (ih h)
        | done st₁ =>
          cases h
          exact hround
      · cases h
        exact .of_eq rfl rfl rfl rfl

/-! ### The call -/

omit [KVCacheManagerOps K] in
theorem recordLoras_fromTail (h : st.recordLoras cfg = .ok st') : FromTail st st' := by
  obtain ⟨loras, rfl⟩ := recordLoras_eq h
  exact .of_eq rfl rfl rfl rfl

/-- The two ways that a call changes the queues: it preempts the tail of `self.running`, or it takes
requests from the front of `self.waiting` and puts back those that are skipped. -/
inductive Reordered (s : Scheduler K) (st : Step K) : Prop
  | preempted (hrun : s.running = st.sched.running ++ st.preemptedReqs.reverse)
      (hwait : st.sched.waiting = st.preemptedReqs.reverse ++ s.waiting)
  | passed (passed admitted rest : List ℕ) (hpre : st.preemptedReqs = [])
      (hrun : st.sched.running = s.running ++ admitted)
      (hwait : s.waiting = passed ++ rest)
      (hwait' : st.sched.waiting = st.skippedWaitingRequests.reverse ++ rest)
      (hperm : passed.Perm (admitted ++ st.skippedWaitingRequests.reverse))
      (hsub : st.skippedWaitingRequests.reverse.Sublist passed)
      (hnil : st.skippedWaitingRequests = [] → passed = admitted)

theorem scheduleLoops_reordered (hp : cfg.policy = .fcfs) {s : Scheduler K}
    (h : s.scheduleLoops cfg env = .ok st) : Reordered s st := by
  obtain ⟨st₁, h₁, h⟩ := bind_ok.1 h
  obtain ⟨st₂, h₂, h⟩ := bind_ok.1 h
  obtain ⟨st₃, h₃, h⟩ := bind_ok.1 h
  obtain ⟨_, -, h⟩ := bind_ok.1 h
  cases h
  obtain ⟨victims, hrun, hwait, hpre, hskip⟩ :=
    (runningLoop_fromTail hp h₁).trans (recordLoras_fromTail h₂)
  simp only [start, nil_append] at hrun hwait hpre hskip
  simp only [scheduleWaitingReqs] at h₃
  split_ifs at h₃ with hnone
  · -- nothing is preempted, so the second loop runs
    obtain rfl : victims = [] := hpre ▸ hnone
    obtain ⟨passed, admitted, skipped, hwait₃, hrun₃, hskip₃, hperm, hsub, hnil, hpre₃⟩ :=
      waitingLoop_fromHead hp h₃
    rw [hskip, append_nil] at hskip₃
    have hback : st₃.skippedWaitingRequests.reverse = skipped := by rw [hskip₃, reverse_reverse]
    simp only [reverse_nil, append_nil, nil_append] at hrun hwait
    refine .passed passed admitted st₃.sched.waiting (hpre₃.trans hpre) ?_ ?_ rfl ?_ ?_ ?_
    · rw [putBack, hrun, hrun₃]
    · rw [← hwait, hwait₃]
    · rwa [putBack, hback]
    · rwa [putBack, hback]
    · intro hempty
      refine hnil ?_
      rw [← hback, show st₃.skippedWaitingRequests = [] from hempty, reverse_nil]
  · cases h₃
    refine .preempted ?_ ?_
    · rw [putBack, hpre, hrun]
    · simp [putBack, hpre, hskip, hwait]

end Step

namespace Scheduler

variable {K : Type} [KVCacheManagerOps K] {cfg : SchedulerConfig} {env : ScheduleEnv}
  {s s' : Scheduler K} {st : Step K} {out : SchedulerOutput}

/-- After its loops `schedule` does not touch the queues. -/
theorem schedule_queues (hs : s.schedule cfg env = .ok (out, s')) :
    ∃ st, s.scheduleLoops cfg env = .ok st ∧ s'.running = st.sched.running ∧
      s'.waiting = st.sched.waiting ∧ out.preemptedReqIds = st.preemptedReqs.toFinset ∧
      out.numScheduledTokens = st.numScheduledTokens := by
  obtain ⟨st, hloops, hs⟩ := bind_ok.1 hs
  obtain ⟨⟨out', s₁⟩, hout, hs⟩ := bind_ok.1 hs
  obtain ⟨s₂, hafter, hs⟩ := bind_ok.1 hs
  cases hs
  obtain ⟨houtput, rfl⟩ := Step.makeOutput_eq hout
  obtain ⟨-, m, rfl⟩ := updateAfterSchedule_eq hafter
  exact ⟨st, hloops, rfl, rfl, houtput.preemptedReqIds, houtput.numScheduledTokens⟩

/-- `schedule` keeps the order of the requests: both queues together have the same requests, those
that stay in `self.waiting` and those that are preempted keep their relative order, and if no request
is put aside the queues one after the other are unchanged. -/
structure KeepsOrder (s s' : Scheduler K) (out : SchedulerOutput) (putAside : List ℕ) : Prop where
  perm : (s'.running ++ s'.waiting).Perm (s.running ++ s.waiting)
  stillWaiting : (s'.waiting.filter (· ∈ s.waiting)).Sublist s.waiting
  preempted : (s'.waiting.filter (· ∈ out.preemptedReqIds)).Sublist s.running
  unchanged : putAside = [] → s'.running ++ s'.waiting = s.running ++ s.waiting

omit [KVCacheManagerOps K] in
theorem keepsOrder_of_reordered (hd : s.running.Disjoint s.waiting) (h : Step.Reordered s st)
    (hrun' : s'.running = st.sched.running) (hwait' : s'.waiting = st.sched.waiting)
    (hpre' : out.preemptedReqIds = st.preemptedReqs.toFinset) :
    KeepsOrder s s' out st.skippedWaitingRequests := by
  cases h with
  | preempted hrun hwait =>
    have hsame : s'.running ++ s'.waiting = s.running ++ s.waiting := by
      rw [hrun', hwait', hwait, hrun, append_assoc]
    have hvictim : ∀ id ∈ st.preemptedReqs.reverse, id ∈ s.running := fun id hid => by
      rw [hrun]
      exact mem_append_right _ hid
    refine ⟨by rw [hsame], ?_, ?_, fun _ => hsame⟩
    · have hnone : st.preemptedReqs.reverse.filter (· ∈ s.waiting) = [] :=
        filter_eq_nil_iff.2 fun id hid hmem => hd (hvictim id hid) (of_decide_eq_true hmem)
      rw [hwait', hwait, filter_append, hnone]
      exact filter_sublist
    · have hnone : s.waiting.filter (· ∈ out.preemptedReqIds) = [] := by
        refine filter_eq_nil_iff.2 fun id hid hmem => hd (hvictim id ?_) hid
        simpa [hpre'] using hmem
      rw [hwait', hwait, filter_append, hnone, append_nil, hrun]
      exact filter_sublist.trans (sublist_append_right _ _)
  | passed passed admitted rest hpre hrun hwait hwaits hperm hsub hnil =>
    refine ⟨?_, ?_, ?_, fun hempty => ?_⟩
    · rw [hrun', hwait', hrun, hwaits, hwait, append_assoc, ← append_assoc admitted]
      exact (hperm.symm.append_right rest).append_left s.running
    · rw [hwait', hwaits, hwait]
      exact filter_sublist.trans (hsub.append_right rest)
    · simp [hpre', hpre]
    · rw [hrun', hwait', hrun, hwaits, hwait, hempty, hnil hempty]
      simp

/-- **`schedule` is first-come-first-served.**  In every reachable state, a call under the FCFS policy
keeps the order of the requests. -/
theorem schedule_order {ids : Finset ℕ} (h : Reachable cfg ids s) (hp : cfg.policy = .fcfs)
    (hs : s.schedule cfg env = .ok (out, s')) :
    ∃ st, s.scheduleLoops cfg env = .ok st ∧ KeepsOrder s s' out st.skippedWaitingRequests := by
  obtain ⟨st, hloops, hrun, hwait, hpre, -⟩ := schedule_queues hs
  have hd : s.running.Disjoint s.waiting := (nodup_append'.1 h.queued.1.nodup).2.2
  exact ⟨st, hloops,
    keepsOrder_of_reordered hd (Step.scheduleLoops_reordered hp hloops) hrun hwait hpre⟩

/-- A request is scheduled, and another one waits. -/
theorem schedule_order_small :
    ∃ (s s' : Scheduler (HashedKVCacheManager smallHasher)) (out : SchedulerOutput)
      (st : Step (HashedKVCacheManager smallHasher)),
      Reachable smallConfig {0, 1} s ∧ s.schedule smallConfig smallEnv = .ok (out, s') ∧
        s.scheduleLoops smallConfig smallEnv = .ok st ∧
        KeepsOrder s s' out st.skippedWaitingRequests := by
  obtain ⟨⟨out, s'⟩, hs, -⟩ := exists_ok_of_map (c := ([0], [1]))
    (f := fun r : SchedulerOutput × Scheduler (HashedKVCacheManager smallHasher) =>
      (r.2.running, r.2.waiting))
    (show (twoRequests.schedule smallConfig smallEnv).toOption.map _ = _ by decide)
  obtain ⟨st, hloops, horder⟩ := schedule_order reachable_twoRequests rfl hs
  exact ⟨_, s', out, st, reachable_twoRequests, hs, hloops, horder⟩

end Scheduler

end LoptVllm.Sched
