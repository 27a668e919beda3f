import LoptVllm.Sched.Pipeline
import LoptVllm.Sched.Rounds

/-!
# The running requests that `schedule` looks at

The loop over the running requests goes through a list by index, and preemption takes requests out
of the list. If the request that is taken out stands before the index, the index is moved back for
one that was scheduled in the call, but not for one that had nothing to schedule. After such a
preemption the loop goes on one request too far.
-/

namespace LoptVllm.Sched

open List AList Step

namespace Step

open KVCacheManagerOps

variable {K : Type} [KVCacheManagerOps K]

section Rounds

variable (cfg : SchedulerConfig) (env : ScheduleEnv)

/-- The rounds of the loop over the running requests: the index and the state at the beginning of
each. -/
def runningRounds : ℕ → ℕ → Step K → List (ℕ × Step K)
  | 0, _, _ => []
  | fuel + 1, idx, st =>
    if idx < st.sched.running.length ∧ 0 < st.tokenBudget then
      (idx, st) :: match st.runningBody cfg env idx with
        | .ok (.next (idx', st')) => runningRounds fuel idx' st'
        | _ => []
    else []

/-- The request that a round looks at. -/
def lookedAt (x : ℕ × Step K) : Option ℕ := x.2.sched.running[x.1]?

/-- A round finds that the request has no tokens to schedule. -/
def NoTokens (x : ℕ × Step K) (id : ℕ) : Prop := reachesMaxTokens (x.2.request id) = true ∨
    ∃ plan st₁, x.2.tryEncoder cfg env id (x.2.request id).numComputedTokens
      (runningNewTokens cfg (x.2.request id) x.2.tokenBudget) = .ok (plan, st₁) ∧
      plan.numNewTokens = 0

/-- What may become of a request that was running, in a loop with the given rounds that ends in
`st`. -/
inductive Accounted (rounds : List (ℕ × Step K)) (st : Step K) (id : ℕ) : Prop
  | scheduled (h : id ∈ st.numScheduledTokens)
  | preempted (h : id ∈ st.preemptedReqs)
  | noTokens (x : ℕ × Step K) (hx : x ∈ rounds) (hid : lookedAt x = some id)
      (h : NoTokens cfg env x id)
  /-- The request was not looked at, because the token budget was exhausted. -/
  | budget (hno : ∀ x ∈ rounds, lookedAt x ≠ some id) (h : st.tokenBudget ≤ 0)
  /-- The request was not looked at, because the loop stopped at a request that preempted itself. -/
  | stopped (hno : ∀ x ∈ rounds, lookedAt x ≠ some id) (x : ℕ × Step K) (hx : x ∈ rounds)
      (id' : ℕ) (r : ℕ × Step K) (hid : lookedAt x = some id')
      (hr : x.2.runningBody cfg env x.1 = .ok (.done r)) (hpre : id' ∈ r.2.preemptedReqs)

/-- The next victim of a request is not one that was looked at in the call and is not scheduled. -/
def VictimFits (id : ℕ) (n : ℤ) (x : ℕ × Step K) : Prop :=
  ∀ st₁ victim, x.2.allocateRunning cfg id n = .ok (none, st₁) →
    st₁.sched.preemptionVictim cfg = some victim → victim ∈ st₁.sched.running.take x.1 →
      victim ∈ st₁.scheduledRunningReqs

/-- No victim of the round is a request that was looked at in the call and is not scheduled. -/
def KeepsIndex (x : ℕ × Step K) : Prop := ∀ id plan st₁, lookedAt x = some id →
    x.2.tryEncoder cfg env id (x.2.request id).numComputedTokens
      (runningNewTokens cfg (x.2.request id) x.2.tokenBudget) = .ok (plan, st₁) →
    ∀ y, Preempts cfg id plan.numNewTokens (x.1, st₁) y → VictimFits cfg id plan.numNewTokens y

end Rounds

variable {cfg : SchedulerConfig} {env : ScheduleEnv} {st st₁ st₂ st' : Step K} {id i idx idx' : ℕ}

/-! ### Requests behind the index -/

section

omit [KVCacheManagerOps K]

theorem split_at_index {l : List ℕ} (h : l[idx]? = some id) :
    ∃ front rest, l = front ++ id :: rest ∧ front.length = idx := by
  obtain ⟨hlt, hget⟩ := List.getElem?_eq_some_iff.1 h
  refine ⟨l.take idx, l.drop (idx + 1), ?_, length_take_of_le hlt.le⟩
  rw [← hget, ← drop_eq_getElem_cons, take_append_drop]

variable {front rest : List ℕ}

theorem drop_behind (h : front.length = idx) : (front ++ id :: rest).drop (idx + 1) = rest := by
  rw [← h, drop_append]
  simp

theorem at_index (h : front.length = idx) : (front ++ id :: rest)[idx]? = some id := by
  rw [← h]
  simp

end

variable {victim : ℕ}

omit [KVCacheManagerOps K] in
/-- A victim that fits leaves the request that is looked at at its index, and those behind it
behind it. -/
theorem TakesVictim.keeps (hl : Looking cfg id idx st)
    (hv : st.sched.preemptionVictim cfg = some victim) (hne : victim ≠ id)
    (hfits : cfg.policy = .priority → victim ∈ st.sched.running.take idx →
      victim ∈ st.scheduledRunningReqs) (ht : TakesVictim cfg victim idx st idx' st')
    (hat : st.sched.running[idx]? = some id) : st'.sched.running[idx']? = some id ∧
      ∀ i ∈ st.sched.running.drop (idx + 1), i ≠ victim → i ∈ st'.sched.running.drop (idx' + 1) := by
  obtain ⟨front, rest, hrun, hlen⟩ := split_at_index hat
  have htake : st.sched.running.take idx = front := by rw [hrun, ← hlen, take_left']; rfl
  rw [hrun, drop_behind hlen]
  cases ht with
  | last hp =>
    simp only [Scheduler.preemptionVictim, hp] at hv
    have hrest : rest ≠ [] := by
      rintro rfl
      rw [hrun, getLast?_concat] at hv
      exact hne (Option.some.inj hv).symm
    have hlast : rest.getLast? = some victim := by
      rwa [hrun, getLast?_append_of_ne_nil _ (cons_ne_nil _ _), getLast?_cons_of_ne_nil hrest] at hv
    have hdrop : (front ++ id :: rest).dropLast = front ++ id :: rest.dropLast := by
      rw [dropLast_append_of_ne_nil (cons_ne_nil _ _), dropLast_cons_of_ne_nil hrest]
    simp only [hrun, hdrop]
    refine ⟨at_index hlen, fun i hi hiv => ?_⟩
    rw [drop_behind hlen]
    rw [← dropLast_append_getLast? _ hlast] at hi
    exact (mem_append.1 hi).resolve_right fun h => hiv (mem_singleton.1 h)
  | notScheduled hp hs =>
    have hfront : victim ∉ front := fun hmem => hs (hfits hp (htake ▸ hmem))
    have herase : (front ++ id :: rest).erase victim = front ++ id :: rest.erase victim := by
      rw [erase_append_right _ hfront, erase_cons_tail (by simpa using hne.symm)]
    simp only [hrun, herase]
    refine ⟨at_index hlen, fun i hi hiv => ?_⟩
    rw [drop_behind hlen]
    exact (mem_erase_of_ne hiv).2 hi
  | scheduled hp hs hu =>
    obtain ⟨n, blocks, budget, -, -, rfl⟩ := unschedule_eq hu
    have hfront : victim ∈ front := htake ▸ hl.scheduled victim hs
    have hlen' : (front.erase victim).length = idx - 1 := by
      rw [length_erase_of_mem hfront, hlen]
    simp only [hrun, erase_append_left _ hfront]
    refine ⟨at_index hlen', fun i hi _ => ?_⟩
    rwa [drop_behind hlen']

/-- A request has been scheduled or preempted in the call. -/
def Decided (st : Step K) (i : ℕ) : Prop := i ∈ st.numScheduledTokens ∨ i ∈ st.preemptedReqs

section

variable (h : st.preempt cfg victim idx = .ok (idx', st'))
include h

theorem preempt_decided (hi : st.Decided i) : st'.Decided i := by
  obtain ⟨st₁, s, ht, -, rfl⟩ := preempt_eq h
  cases ht with
  | last | notScheduled => exact hi.imp_right (mem_append_left _)
  | scheduled _ _ hu =>
    obtain ⟨n, blocks, budget, -, -, rfl⟩ := unschedule_eq hu
    rcases hi with hi | hi
    · by_cases hiv : i = victim
      · exact .inr (mem_append_right _ (mem_singleton.2 hiv))
      · exact .inl (mem_erase.2 ⟨hiv, hi⟩)
    · exact .inr (mem_append_left _ hi)

theorem mem_preemptedReqs : victim ∈ st'.preemptedReqs := by
  obtain ⟨st₁, s, -, -, rfl⟩ := preempt_eq h
  exact mem_append_right _ (mem_singleton_self _)

end

variable {x : ℕ × Step K}

theorem Preempts.decided {n : ℤ} {y : ℕ × Step K} (h : Preempts cfg id n x y)
    (hi : x.2.Decided i) : y.2.Decided i := by
  induction h with
  | refl => exact hi
  | round halloc _ hp _ _ ih =>
    obtain ⟨kv, -, rfl⟩ := allocateRunning_eq halloc
    exact ih (preempt_decided hp hi)

theorem Preempts.idx_le {n : ℤ} {y : ℕ × Step K} (h : Preempts cfg id n x y) : y.1 ≤ x.1 := by
  induction h with
  | refl => exact le_rfl
  | round _ _ hp _ _ ih =>
    obtain ⟨st₁, s, ht, -, rfl⟩ := preempt_eq hp
    cases ht with
    | last | notScheduled => exact ih
    | scheduled => exact ih.trans (Nat.sub_le _ _)

/-- No request is before the first index. -/
theorem KeepsIndex.of_zero (hx : x.1 = 0) : KeepsIndex cfg env x := by
  intro id plan st₁ _ _ y hy st₂ victim _ _ hmem
  have hzero : y.1 = 0 := Nat.le_zero.1 (hx ▸ hy.idx_le)
  rw [hzero] at hmem
  cases hmem

/-- The request that is looked at stays at the index, and those behind it stay behind it or are
preempted. -/
theorem Preempts.keeps {n : ℤ} {y : ℕ × Step K} (h : Preempts cfg id n x y)
    (hl : Looking cfg id x.1 x.2) (hat : lookedAt x = some id)
    (hfits : cfg.policy = .priority → ∀ y, Preempts cfg id n x y → VictimFits cfg id n y)
    (hi : i ∈ x.2.sched.running.drop (x.1 + 1)) :
    y.2.Decided i ∨ i ∈ y.2.sched.running.drop (y.1 + 1) := by
  induction h with
  | refl => exact .inr hi
  | @round idx idx' victim st st₁ st₂ y halloc hv hp hne hrest ih =>
    have hl₁ := hl.allocateRunning halloc
    have hrun := allocateRunning_running halloc
    have hfits₁ : cfg.policy = .priority → victim ∈ st₁.sched.running.take idx →
        victim ∈ st₁.scheduledRunningReqs := fun hpol =>
      hfits hpol _ (.refl _) st₁ victim halloc hv
    by_cases hiv : i = victim
    · rw [hiv]
      exact .inl (hrest.decided (.inr (mem_preemptedReqs hp)))
    · obtain ⟨st₃, s, ht, hs, hst₂⟩ := preempt_eq hp
      obtain ⟨-, kv, -, rfl⟩ := preemptRequest_eq hs
      obtain ⟨hat₂, hbehind⟩ := ht.keeps hl₁ hv hne hfits₁ (by rw [hrun]; exact hat)
      have hi₂ := hbehind i (by rw [hrun]; exact hi) hiv
      subst hst₂
      exact ih (hl₁.preempt hv hne hp) hat₂
        (fun hpol y hy => hfits hpol y (.round halloc hv hp hne hy)) hi₂

/-! ### A round -/

variable {r : Flow (ℕ × Step K)}

theorem RunningRound.decided (h : RunningRound cfg env idx st r)
    (hi : st.Decided i) : r.state.2.Decided i := by
  cases h with
  | out | reachesMaxTokens => exact hi
  | noTokens _ htry =>
    obtain ⟨m, rfl⟩ := tryEncoder_eq cfg env htry
    exact hi
  | preempted _ htry _ hloop =>
    obtain ⟨m, rfl⟩ := tryEncoder_eq cfg env htry
    cases hloop with
    | preempted hps halloc hv hpre =>
      have := hps.decided hi
      obtain ⟨kv, -, rfl⟩ := allocateRunning_eq halloc
      exact preempt_decided hpre this
  | scheduled _ _ htry _ hloop h =>
    obtain ⟨m, rfl⟩ := tryEncoder_eq cfg env htry
    cases hloop with
    | scheduled hps halloc =>
      have := hps.decided hi
      obtain ⟨kv, -, rfl⟩ := allocateRunning_eq halloc
      obtain ⟨m', inputs, budget, rfl⟩ := scheduleRunning_eq h
      exact this.imp_left fun hmem => (mem_insert _).2 (.inr hmem)

/-- The request that a round looks at has no tokens to schedule or is scheduled, or it preempts
itself and the loop stops. -/
theorem RunningRound.lookedAt (h : RunningRound cfg env idx st r)
    (hid : Step.lookedAt (idx, st) = some id) :
    match r with
    | .next x => NoTokens cfg env (idx, st) id ∨ id ∈ x.2.numScheduledTokens
    | .done x => id ∈ x.2.preemptedReqs := by
  cases h with
  | out hnone =>
    rw [Step.lookedAt, hnone] at hid
    cases hid
  | reachesMaxTokens hid' hmax =>
    obtain rfl := Option.some.inj (hid.symm.trans hid')
    exact .inl (.inl hmax)
  | noTokens hid' htry hn =>
    obtain rfl := Option.some.inj (hid.symm.trans hid')
    exact .inl (.inr ⟨_, _, htry, hn⟩)
  | preempted hid' htry hn hloop =>
    obtain rfl := Option.some.inj (hid.symm.trans hid')
    cases hloop with
    | preempted hps halloc hv hpre => exact mem_preemptedReqs hpre
  | scheduled hid' hmax htry hn hloop h =>
    obtain rfl := Option.some.inj (hid.symm.trans hid')
    obtain ⟨m, inputs, budget, rfl⟩ := scheduleRunning_eq h
    exact .inr ((mem_insert _).2 (.inl rfl))

/-- The requests behind the index are the next ones to be looked at, unless they are preempted. -/
theorem RunningRound.behind (hf : Front idx st) (hround : RunningRound cfg env idx st (.next (idx', st')))
    (hkeep : cfg.policy = .priority → KeepsIndex cfg env (idx, st))
    (hi : i ∈ st.sched.running.drop (idx + 1)) :
    st'.Decided i ∨ i ∈ st'.sched.running.drop idx' := by
  cases hround with
  | reachesMaxTokens => exact .inr hi
  | noTokens _ htry =>
    obtain ⟨m, rfl⟩ := tryEncoder_eq cfg env htry
    exact .inr hi
  | scheduled hid hmax htry hn hloop h =>
    have hl := looking_of_front cfg hf hid
    have hfits := fun hpol => hkeep hpol _ _ _ hid htry
    obtain ⟨m, rfl⟩ := tryEncoder_eq cfg env htry
    cases hloop with
    | scheduled hps halloc =>
      have hkeeps := hps.keeps ⟨⟨hl.nodup, hl.scheduled_nodup, hl.scheduled, hl.keys⟩, hl.mem,
        hl.at_index, hl.not_scheduled⟩ hid hfits hi
      obtain ⟨kv, -, rfl⟩ := allocateRunning_eq halloc
      obtain ⟨m', inputs, budget, rfl⟩ := scheduleRunning_eq h
      exact hkeeps.imp_left (Or.imp_left fun hmem => (mem_insert _).2 (.inr hmem))

/-! ### The loop -/

variable {fuel : ℕ}

theorem runningLoop_decided: ∀ {idx : ℕ} {st st' : Step K},
    runningLoop cfg env fuel idx st = .ok st' → st.Decided i → st'.Decided i := by
  induction fuel with
  | zero =>
    intro idx st st' h
    cases h
  | succ fuel ih =>
    intro idx st st' h hi
    simp only [runningLoop] at h
    split_ifs at h with hc
    · obtain ⟨r, hr, h⟩ := bind_ok.1 h
      have hi' := (runningBody_round hr).decided hi
      cases r with
      | next x => exact ih h hi'
      | done x =>
        cases h
        exact hi'
    · cases h
      exact hi

variable {rounds : List (ℕ × Step K)}

theorem Decided.accounted (h : st.Decided i) :
    Accounted cfg env rounds st i := h.elim .scheduled .preempted

/-- A round that looks at another request does not count. -/
theorem Accounted.cons (h : Accounted cfg env rounds st i)
    (hx : lookedAt x ≠ some i) : Accounted cfg env (x :: rounds) st i := by
  have hno : (∀ y ∈ rounds, lookedAt y ≠ some i) → ∀ y ∈ x :: rounds, lookedAt y ≠ some i :=
    fun hno y hy => (mem_cons.1 hy).elim (fun h => h ▸ hx) (hno y)
  cases h with
  | scheduled h => exact .scheduled h
  | preempted h => exact .preempted h
  | noTokens y hy hid h => exact .noTokens y (.tail _ hy) hid h
  | budget hnone h => exact .budget (hno hnone) h
  | stopped hnone y hy id' r hid hr hpre =>
    exact .stopped (hno hnone) y (.tail _ hy) id' r hid hr hpre

omit [KVCacheManagerOps K] in
/-- The request at the index does not stand behind it. -/
theorem ne_of_behind (hf : Front idx st) (hi : i ∈ st.sched.running.drop (idx + 1)) :
    lookedAt (idx, st) ≠ some i := by
  intro hat
  obtain ⟨front, rest, hrun, hlen⟩ := split_at_index hat
  rw [hrun, drop_behind hlen] at hi
  have hnodup := hf.nodup
  rw [hrun] at hnodup
  exact (nodup_cons.1 (nodup_append'.1 hnodup).2.1).1 hi

/-- **The loop accounts for every request from the index on.** -/
theorem runningLoop_accounted: ∀ {idx : ℕ} {st st' : Step K}, Front idx st →
    (cfg.policy = .priority → ∀ x ∈ runningRounds cfg env fuel idx st, KeepsIndex cfg env x) →
    runningLoop cfg env fuel idx st = .ok st' → ∀ i ∈ st.sched.running.drop idx,
      Accounted cfg env (runningRounds cfg env fuel idx st) st' i := by
  induction fuel with
  | zero =>
    intro idx st st' _ _ h
    cases h
  | succ fuel ih =>
    intro idx st st' hf hkeep h i hi
    simp only [runningLoop] at h
    simp only [runningRounds] at hkeep ⊢
    split_ifs at h with hc
    · obtain ⟨r, hr, h⟩ := bind_ok.1 h
      rw [if_pos hc] at hkeep ⊢
      rw [hr] at hkeep ⊢
      have hround := runningBody_round hr
      have hat : lookedAt (idx, st) = some st.sched.running[idx] := getElem?_eq_getElem hc.1
      rw [drop_eq_getElem_cons hc.1] at hi
      cases r with
      | next x =>
        have hf₁ := (hround.spec hf hc.2).2
        rcases mem_cons.1 hi with rfl | hbehind
        · rcases hround.lookedAt hat with hnone | hs
          · exact .noTokens _ (.head _) hat hnone
          · exact (runningLoop_decided h (.inl hs)).accounted
        · rcases hround.behind hf (fun hpol => hkeep hpol _ (.head _)) hbehind with hs | hi'
          · exact (runningLoop_decided h hs).accounted
          · refine Accounted.cons ?_ (ne_of_behind hf hbehind)
            exact ih hf₁ (fun hpol x hx => hkeep hpol x (.tail _ hx)) h i hi'
      | done x =>
        cases h
        have hself := hround.lookedAt hat
        rcases mem_cons.1 hi with rfl | hbehind
        · exact .preempted hself
        · refine .stopped (fun y hy => ?_) _ (.head _) _ x hat hr hself
          rw [mem_singleton.1 hy]
          exact ne_of_behind hf hbehind
    · cases h
      rw [if_neg hc]
      have hlt : idx < st.sched.running.length := by
        by_contra hge
        rw [drop_eq_nil_of_le (by omega)] at hi
        cases hi
      exact .budget (fun _ hy => absurd hy not_mem_nil) (not_lt.1 fun hb => hc ⟨hlt, hb⟩)

/-! ### The call -/

theorem waitingLoop_kept: ∀ {st st' : Step K}, waitingLoop cfg env fuel st = .ok st' →
      (∀ id ∈ st.numScheduledTokens, id ∈ st'.numScheduledTokens) ∧
        st'.preemptedReqs = st.preemptedReqs := by
  induction fuel with
  | zero =>
    intro st st' h
    cases h
  | succ fuel ih =>
    intro st st' h
    simp only [waitingLoop] at h
    split at h
    · cases h
      exact ⟨fun _ hid => hid, rfl⟩
    · split at h
      · obtain ⟨r, hr, h⟩ := bind_ok.1 h
        cases waitingBody_round hr with
        | skipped hrun hwait hskip hpre hnum =>
          obtain ⟨hkept, hpre'⟩ := ih h
          exact ⟨fun id hid => hkept id (hnum ▸ hid), hpre'.trans hpre⟩
        | admitted hrun hwait hskip hpre hnum =>
          obtain ⟨hkept, hpre'⟩ := ih h
          refine ⟨fun id hid => hkept id ?_, hpre'.trans hpre⟩
          rw [hnum]
          exact (mem_insert _).2 (.inr hid)
        | stopped hrun hwait hskip hpre hnum =>
          cases h
          exact ⟨fun id hid => hnum ▸ hid, hpre⟩
      · cases h
        exact ⟨fun _ hid => hid, rfl⟩

end Step

namespace Scheduler

variable {K : Type} [KVCacheManagerOps K]

section Call

variable (cfg : SchedulerConfig) (env : ScheduleEnv) (s : Scheduler K)

/-- The first loop of `schedule`. -/
def firstLoop : Except SchedulerError (Step K) :=
  Step.runningLoop cfg env (2 * s.running.length + 1) 0 (Step.start cfg s)

/-- The rounds of the first loop. -/
def firstRounds : List (ℕ × Step K) :=
  Step.runningRounds cfg env (2 * s.running.length + 1) 0 (Step.start cfg s)

/-- No running request is passed over in a call: what the first loop schedules or preempts is
scheduled or preempted in the output, and the loop accounts for every request. -/
def NonePassedOver (out : SchedulerOutput) : Prop := ∃ st, s.firstLoop cfg env = .ok st ∧
    (∀ id ∈ st.numScheduledTokens, id ∈ out.numScheduledTokens) ∧
    (∀ id, id ∈ out.preemptedReqIds ↔ id ∈ st.preemptedReqs) ∧
    ∀ id ∈ s.running, Step.Accounted cfg env (s.firstRounds cfg env) st id

/-- Under the priority policy, no request is preempted in the call that was looked at in it and was
not scheduled. -/
def VictimsFit : Prop :=
  cfg.policy = .priority → ∀ x ∈ s.firstRounds cfg env, KeepsIndex cfg env x

end Call

variable {cfg : SchedulerConfig} {env : ScheduleEnv} {s s' : Scheduler K} {out : SchedulerOutput}

/-- **No running request is passed over**, in a call from a reachable state in which the index is
always moved back when it has to be. -/
theorem schedule_accounted {ids : Finset ℕ} (h : Reachable cfg ids s)
    (hs : s.schedule cfg env = .ok (out, s')) (hfit : VictimsFit cfg env s) :
    NonePassedOver cfg env s out := by
  obtain ⟨st, hloops, -, -, hpre, hnum⟩ := schedule_queues hs
  obtain ⟨st₁, h₁, hloops⟩ := bind_ok.1 hloops
  obtain ⟨st₂, h₂, hloops⟩ := bind_ok.1 hloops
  obtain ⟨st₃, h₃, hloops⟩ := bind_ok.1 hloops
  obtain ⟨_, -, hloops⟩ := bind_ok.1 hloops
  cases hloops
  obtain ⟨loras, rfl⟩ := recordLoras_eq h₂
  obtain ⟨hkept, hpre₃⟩ : (∀ id ∈ st₁.numScheduledTokens, id ∈ st₃.numScheduledTokens) ∧
      st₃.preemptedReqs = st₁.preemptedReqs := by
    simp only [scheduleWaitingReqs] at h₃
    split_ifs at h₃ with hnone
    · obtain ⟨hkept, hpre⟩ := waitingLoop_kept h₃
      exact ⟨hkept, hpre⟩
    · cases h₃
      exact ⟨fun _ hid => hid, rfl⟩
  refine ⟨st₁, h₁, fun id hid => hnum ▸ hkept id hid, fun id => ?_, fun id hid => ?_⟩
  · rw [hpre, mem_toFinset]
    exact Iff.of_eq (congrArg _ hpre₃)
  · exact runningLoop_accounted (start_front h.queued.1.running_nodup) hfit h₁ id hid

/-- Three requests run at a time, with the priority policy and four tokens of each in a step. -/
def priorityConfig : SchedulerConfig := { smallConfig with
  policy := .priority
  maxNumRunningReqs := 3
  maxNumScheduledTokens := 100
  longPrefillTokenThreshold := 4
  usePp := true }

/-- A request preempts one of lower priority that is not looked at yet. -/
theorem schedule_accounted_small :
    ∃ (ids : Finset ℕ) (s s' : Scheduler (HashedKVCacheManager smallHasher)) (out : SchedulerOutput),
      Reachable priorityConfig ids s ∧ s.running = [0, 1] ∧
        s.schedule priorityConfig smallEnv = .ok (out, s') ∧ 1 ∈ out.preemptedReqIds ∧
        NonePassedOver priorityConfig smallEnv s out := by
  obtain ⟨e, he, hobs⟩ := exists_ok_of_map (c := ([0, 1], [0], some true))
    (f := fun e : Engine (HashedKVCacheManager smallHasher) =>
      (e.sched.running, (e.sched.firstRounds priorityConfig smallEnv).map Prod.fst,
        (e.sched.schedule priorityConfig smallEnv).toOption.map
          fun r : SchedulerOutput × _ => decide (1 ∈ r.1.preemptedReqIds)))
    (show (Engine.runCalls priorityConfig (fun _ _ => True)
      [.addRequest 0 { smallRequest with promptTokenIds := some [1, 2, 3, 4, 5, 6, 7, 8, 9] },
        .addRequest 1 { smallRequest with priority := 5 }, .schedule smallEnv, .schedule smallEnv]
      Engine.smallEngine).toOption.map _ = _ by decide +kernel)
  simp only [Prod.mk.injEq] at hobs
  obtain ⟨hrun, hrounds, hpre⟩ := hobs
  have hreach := ((Engine.Run.new _ _ _).runCalls he).reachable.1
  have hfirst : ∀ x ∈ e.sched.firstRounds priorityConfig smallEnv, x.1 = 0 := fun x hx =>
    mem_singleton.1 (hrounds ▸ mem_map_of_mem hx)
  cases hs : e.sched.schedule priorityConfig smallEnv with
  | error err =>
    rw [hs] at hpre
    cases hpre
  | ok r =>
    rw [hs] at hpre
    exact ⟨_, e.sched, r.2, r.1, hreach, hrun, hs, of_decide_eq_true (Option.some.inj hpre),
      schedule_accounted hreach hs fun _ x hx => Step.KeepsIndex.of_zero (hfirst x hx)⟩

/-- The calls after which three requests run and the first one has nothing to schedule until the
output of its step is there. -/
def idleCalls : List EngineCall :=
  [.addRequest 0 { smallRequest with priority := 5, promptTokenIds := some [1, 2, 3, 4] },
    .schedule smallEnv,
    .addRequest 1 { smallRequest with promptTokenIds := some (range 8) },
    .addRequest 2 { smallRequest with promptTokenIds := some (range 8) },
    .schedule smallEnv]

/-- The request 1 preempts the request 0, the request 2 moves to the index of the request 1, and the
loop goes on behind it although not all of the token budget is used. -/
theorem not_nonePassedOver :
    ∃ (ids : Finset ℕ) (s s' : Scheduler (HashedKVCacheManager smallHasher)) (out : SchedulerOutput),
      Reachable priorityConfig ids s ∧ s.schedule priorityConfig smallEnv = .ok (out, s') ∧
        ¬ NonePassedOver priorityConfig smallEnv s out := by
  obtain ⟨e, he, hobs⟩ := exists_ok_of_map (c := (true, some true, true, true))
    (f := fun e : Engine (HashedKVCacheManager smallHasher) =>
      (decide (2 ∈ e.sched.running),
        (e.sched.firstLoop priorityConfig smallEnv).toOption.map fun st =>
          decide (2 ∉ st.numScheduledTokens ∧ 2 ∉ st.preemptedReqs ∧ 0 < st.tokenBudget),
        (e.sched.firstRounds priorityConfig smallEnv).all fun x =>
          decide (Step.lookedAt x ≠ some 2) &&
            match x.2.runningBody priorityConfig smallEnv x.1 with
            | .ok (.done _) => false
            | _ => true,
        (e.sched.schedule priorityConfig smallEnv).toOption.isSome))
    (show (Engine.runCalls priorityConfig (fun _ _ => True) idleCalls
      Engine.smallEngine).toOption.map _ = _ by decide +kernel)
  simp only [Prod.mk.injEq, decide_eq_true_eq, all_eq_true, Bool.and_eq_true] at hobs
  obtain ⟨hrun, hloop, hrounds, hsome⟩ := hobs
  have hreach := ((Engine.Run.new _ _ _).runCalls he).reachable.1
  cases hs : e.sched.schedule priorityConfig smallEnv with
  | error err =>
    rw [hs] at hsome
    cases hsome
  | ok r =>
    refine ⟨_, e.sched, r.2, r.1, hreach, hs, ?_⟩
    rintro ⟨st, hst, -, -, hall⟩
    simp only [hst, Except.toOption, Option.map_some, Option.some.injEq, decide_eq_true_eq] at hloop
    cases hall 2 hrun with
    | scheduled h => exact hloop.1 h
    | preempted h => exact hloop.2.1 h
    | noTokens x hx hid h => exact (hrounds x hx).1 hid
    | budget hno h => exact absurd hloop.2.2 (not_lt.2 h)
    | stopped hno x hx id' r hid hr hpre =>
      have hnot := (hrounds x hx).2
      rw [hr] at hnot
      cases hnot

end Scheduler

end LoptVllm.Sched
