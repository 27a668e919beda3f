import LoptVllm.Sched.Scheduler

/-!
# What `schedule` does, one move at a time

The two loops of `schedule` change the scheduler and their local variables by a few kinds of moves.
An invariant is proved for one move of each kind, and holds after the loops.
-/

namespace LoptVllm.Sched

open List Function AList Nat Scheduler

open KVCacheManagerOps

variable {K : Type}

namespace Step

variable (cfg : SchedulerConfig) (env : ScheduleEnv)

/-! ### Encoder inputs -/

/-- `_try_schedule_encoder_inputs` leaves the number of tokens as it is, or lowers it to a number
that is not negative. -/
def Lowered (n n' : ℤ) : Prop := n' = n ∨ 0 ≤ n' ∧ n' ≤ n ∨ n' = 0

theorem Lowered.trans {a b c : ℤ} (h₁ : Lowered a b) (h₂ : Lowered b c) : Lowered a c := by
  unfold Lowered at *
  omega

theorem scheduleItem_numNewTokens (args : EncoderArgs) (feature : MultiModalFeatureSpec) (i : ℕ)
    (plan : EncoderSchedule) :
    (scheduleItem cfg args feature i plan).numNewTokens = plan.numNewTokens := by
  unfold scheduleItem
  dsimp only
  split_ifs <;> rfl

variable {plan : EncoderSchedule}

theorem encoderStep_lowered {args : EncoderArgs}
    (hshift : 0 ≤ args.shiftComputedTokens ∧ args.shiftComputedTokens ≤ 1)
    {feature : MultiModalFeatureSpec} {i : ℕ} {plan' : EncoderSchedule} {m m' : EncoderCacheManager}
    {stop : Bool} (h : encoderStep cfg args feature i plan m = .ok (stop, plan', m')) :
    Lowered plan.numNewTokens plan'.numNewTokens := by
  unfold encoderStep at h
  dsimp only at h
  split at h
  · cases h
    exact .inl rfl
  · rename_i hbreak
    split at h
    · obtain ⟨-, -, h⟩ := bind_ok.1 h
      cases h
      exact .inl rfl
    · split at h
      · cases h
        exact .inl rfl
      · obtain ⟨⟨cached, m₁⟩, -, h⟩ := bind_ok.1 h
        split at h
        · cases h
          exact .inl rfl
        · split at h
          · cases h
            -- the item starts inside the range, after its first token
            exact .inr (.inl ⟨by dsimp only; omega, by dsimp only; omega⟩)
          · obtain ⟨⟨fits, m₂⟩, -, h⟩ := bind_ok.1 h
            split at h
            · cases h
              exact .inl (scheduleItem_numNewTokens cfg args feature i plan)
            · cases h
              dsimp only
              split_ifs
              · exact .inr (.inl ⟨by omega, by omega⟩)
              · exact .inr (.inr rfl)

theorem encoderLoop_lowered {args : EncoderArgs}
    (hshift : 0 ≤ args.shiftComputedTokens ∧ args.shiftComputedTokens ≤ 1)
    (features : List (MultiModalFeatureSpec × ℕ)) :
    ∀ {plan plan' : EncoderSchedule} {m m' : EncoderCacheManager},
      encoderLoop cfg args features plan m = .ok (plan', m') →
      Lowered plan.numNewTokens plan'.numNewTokens := by
  induction features with
  | nil =>
    intro plan plan' m m' h
    cases h
    exact .inl rfl
  | cons entry features ih =>
    intro plan plan' m m' h
    obtain ⟨⟨stop, plan₁, m₁⟩, hstep, h⟩ := bind_ok.1 h
    have h₁ := encoderStep_lowered cfg hshift hstep
    dsimp only at h
    split_ifs at h
    · cases h
      exact h₁
    · exact h₁.trans (ih h)

variable {st st' : Step K} {id : ℕ} {n : ℤ}

/-- Only the encoder cache manager is changed by `_try_schedule_encoder_inputs`. -/
theorem tryEncoder_eq {c : ℤ} (h : st.tryEncoder cfg env id c n = .ok (plan, st')) :
    ∃ m, st' = { st with sched := { st.sched with encoderCacheManager := m } } := by
  obtain ⟨⟨plan', m⟩, -, h⟩ := bind_ok.1 h
  cases h
  exact ⟨m, rfl⟩

theorem tryEncoder_lowered {c : ℤ}
    (h : st.tryEncoder cfg env id c n = .ok (plan, st')) : Lowered n plan.numNewTokens := by
  obtain ⟨⟨plan', m⟩, htry, h⟩ := bind_ok.1 h
  cases h
  unfold tryScheduleEncoderInputs at htry
  split_ifs at htry
  · cases htry
    exact .inl rfl
  · exact encoderLoop_lowered cfg cfg.shift_range _ htry

variable [KVCacheManagerOps K]

/-! ### Moves -/

/-- What is known about the number of tokens that a running request is scheduled for. -/
def RunningTokens (r : Request) (n : ℤ) : Prop :=
  n ≠ 0 ∧ ∃ budget : ℤ, 0 < budget ∧ Lowered (runningNewTokens cfg r budget) n

/-- The moves of `schedule`. -/
inductive Move : Step K → Step K → Prop
  | tryEncoder {st st' : Step K} {id : ℕ} {c n : ℤ} {plan : EncoderSchedule}
      (hid : id ∈ st.sched.running ∨ id ∈ st.sched.waiting)
      (h : st.tryEncoder cfg env id c n = .ok (plan, st')) : Move st st'
  | allocateFails {st st' : Step K} {id : ℕ} {n : ℤ} (hid : id ∈ st.sched.running)
      (h : st.allocateRunning cfg id n = .ok (none, st')) : Move st st'
  | preempt {st st' : Step K} {victim idx idx' : ℕ}
      (hv : st.sched.preemptionVictim cfg = some victim)
      (h : st.preempt cfg victim idx = .ok (idx', st'))
      (hkey : victim ∉ st'.numScheduledTokens) : Move st st'
  | run {st st₁ st' : Step K} {id : ℕ} {plan : EncoderSchedule} {blocks : List (List ℕ)}
      (hid : id ∈ st.sched.running) (hnew : id ∉ st.scheduledRunningReqs)
      (hkey : id ∉ st.numScheduledTokens)
      (hmax : reachesMaxTokens (st.request id) = false)
      (hn : RunningTokens cfg (st.request id) plan.numNewTokens)
      (halloc : st.allocateRunning cfg id plan.numNewTokens = .ok (some blocks, st₁))
      (h : st₁.scheduleRunning id blocks plan = .ok st') : Move st st'
  | recordLoras {st st' : Step K} (h : st.recordLoras cfg = .ok st') : Move st st'
  | readyRemoteKv {st : Step K} {s : Scheduler K} {id : ℕ} (hid : id ∈ st.sched.waiting)
      (hst : (st.request id).status = .waitingForRemoteKvs)
      (h : updateWaitingForRemoteKv cfg id st.sched = .ok (true, s)) :
      Move st { st with sched := s.setStatus id (st.readyStatus id) }
  | readyFsm {st : Step K} {id : ℕ} (hid : id ∈ st.sched.waiting)
      (hst : (st.request id).status = .waitingForFsm) :
      Move st { st with sched := st.sched.setStatus id .waiting }
  | skip {st : Step K} {id : ℕ} (hid : id ∈ st.sched.waiting) : Move st (st.skipRequest id)
  | allocateWaitingFails {st st₁ : Step K} {id : ℕ} {computed : ComputedTokens} {n : ℤ}
      (hid : id ∈ st.sched.waiting)
      (h : st.allocateWaiting cfg id computed n = .ok (none, st₁)) :
      Move st (st₁.freeEncoder id)
  | waitForRemoteKvs {st st₁ : Step K} {id : ℕ} {computed : ComputedTokens}
      {blocks : List (List ℕ)} (hid : id ∈ st.sched.waiting)
      (hcomputed : st.getComputedTokens cfg env id = .ok (some computed))
      (hasync : computed.loadKvAsync = true)
      (halloc : st.allocateWaiting cfg id computed 0 = .ok (some blocks, st₁)) :
      Move st (st₁.waitForRemoteKvs id)
  | admitted {st st₁ st' : Step K} {id : ℕ} {computed : ComputedTokens} {plan : EncoderSchedule}
      {blocks : List (List ℕ)} (hid : id ∈ st.sched.waiting) (hpre : st.preemptedReqs = [])
      (hcap : st.sched.running.length ≠ cfg.maxNumRunningReqs)
      (hlora : st.exceedsLoras cfg id = false)
      (hcomputed : st.getComputedTokens cfg env id = .ok (some computed))
      (hpos : 0 < plan.numNewTokens) (hbudget : plan.numNewTokens ≤ st.tokenBudget)
      (hn : plan.numNewTokens ≤ (st.request id).numTokens - computed.numComputedTokens)
      (halloc : st.allocateWaiting cfg id computed plan.numNewTokens = .ok (some blocks, st₁))
      (h : st₁.admitRequest cfg id computed plan = .ok st') : Move st st'

/-- Any number of moves. -/
abbrev Moves : Step K → Step K → Prop := Relation.ReflTransGen (Move cfg env)

/-! ### Running requests -/

variable {cfg env}

omit [KVCacheManagerOps K] in
/-- `_try_schedule_encoder_inputs` is followed by the allocation of the encoder cache. -/
theorem scheduleEncoder_eq (h : st.scheduleEncoder id plan = .ok st') :
    ∃ m inputs budget, st' = { st with
      sched := { st.sched with encoderCacheManager := m }
      scheduledEncoderInputs := inputs
      encoderComputeBudget := budget } := by
  obtain ⟨m₁, -, h⟩ := bind_ok.1 h
  obtain ⟨m₂, -, h⟩ := bind_ok.1 h
  cases h
  split_ifs
  · exact ⟨m₂, _, _, rfl⟩
  · exact ⟨m₂, _, _, rfl⟩

variable {blocks : Option (List (List ℕ))}

theorem allocateRunning_eq (h : st.allocateRunning cfg id n = .ok (blocks, st')) :
    ∃ kv, allocateSlots st.sched.kvCacheManager id (st.request id)
        ⟨n, 0, none, cfg.numLookaheadTokens, 0, false, 0⟩ = .ok (kv, blocks) ∧
      st' = { st with sched := { st.sched with kvCacheManager := kv } } := by
  obtain ⟨⟨kv, blocks'⟩, halloc, h⟩ := bind_ok.1 h
  cases h
  exact ⟨kv, kvCall_eq_ok.1 halloc, rfl⟩

variable {victim : ℕ}

omit [KVCacheManagerOps K] in
theorem unschedule_eq (h : st.unschedule victim = .ok st') :
    ∃ n blocks budget, st.numScheduledTokens.lookup victim = some n ∧
      st.reqToNewBlocks.lookup victim = some blocks ∧ st' = { st with
        scheduledRunningReqs := st.scheduledRunningReqs.erase victim
        tokenBudget := st.tokenBudget + n
        reqToNewBlocks := st.reqToNewBlocks.erase victim
        numScheduledTokens := st.numScheduledTokens.erase victim
        scheduledSpecDecodeTokens := st.scheduledSpecDecodeTokens.erase victim
        scheduledEncoderInputs := st.scheduledEncoderInputs.erase victim
        encoderComputeBudget := budget } := by
  obtain ⟨n, hn, h⟩ := bind_ok.1 h
  obtain ⟨b, hb, h⟩ := bind_ok.1 h
  cases h
  exact ⟨n, b, _, getItem_eq_ok.1 hn, getItem_eq_ok.1 hb, rfl⟩

/-- How a victim is taken out of `self.running`. -/
inductive TakesVictim (cfg : SchedulerConfig) (victim idx : ℕ) (st : Step K) : ℕ → Step K → Prop
  | last (hp : cfg.policy = .fcfs) : TakesVictim cfg victim idx st idx
      { st with sched := { st.sched with running := st.sched.running.dropLast } }
  | notScheduled (hp : cfg.policy = .priority) (hs : victim ∉ st.scheduledRunningReqs) :
      TakesVictim cfg victim idx st idx
        { st with sched := { st.sched with running := st.sched.running.erase victim } }
  | scheduled {st' : Step K} (hp : cfg.policy = .priority)
      (hs : victim ∈ st.scheduledRunningReqs) (h : st.unschedule victim = .ok st') :
      TakesVictim cfg victim idx st (idx - 1)
        { st' with sched := { st'.sched with running := st'.sched.running.erase victim } }

variable {idx idx' : ℕ}

omit [KVCacheManagerOps K] in
theorem takeVictim_spec (h : st.takeVictim cfg victim idx = .ok (idx', st')) :
    TakesVictim cfg victim idx st idx' st' := by
  unfold takeVictim at h
  cases hp : cfg.policy with
  | fcfs =>
    rw [hp] at h
    cases h
    exact .last hp
  | priority =>
    rw [hp] at h
    dsimp only at h
    split_ifs at h with hs
    · obtain ⟨st₁, h₁, h⟩ := bind_ok.1 h
      cases h
      obtain ⟨n, hn, h₁⟩ := bind_ok.1 h₁
      obtain ⟨b, hb, h₁⟩ := bind_ok.1 h₁
      cases h₁
      exact .scheduled hp hs
        (bind_ok.2 ⟨n, hn, bind_ok.2 ⟨b, hb, rfl⟩⟩ : st.unschedule victim = .ok _)
    · cases h
      exact .notScheduled hp hs

variable {s s' : Scheduler K}

theorem preemptRequest_eq (h : s.preemptRequest id = .ok s') :
    (s.heap id).status = .running ∧ ∃ kv, free s.kvCacheManager id = .ok kv ∧
      s' = { s.modify id Request.preempt with
        kvCacheManager := kv
        encoderCacheManager := s.encoderCacheManager.free id (s.heap id)
        waiting := id :: s.waiting } := by
  obtain ⟨_, hst, h⟩ := bind_ok.1 h
  obtain ⟨kv, hkv, h⟩ := bind_ok.1 h
  cases h
  exact ⟨check_eq_ok.1 hst, kv, kvCall_eq_ok.1 hkv, rfl⟩

theorem preempt_eq (h : st.preempt cfg victim idx = .ok (idx', st')) :
    ∃ st₁ s, TakesVictim cfg victim idx st idx' st₁ ∧ st₁.sched.preemptRequest victim = .ok s ∧
      st' = { st₁ with sched := s, preemptedReqs := st₁.preemptedReqs ++ [victim] } := by
  obtain ⟨⟨idx₁, st₁⟩, h₁, h⟩ := bind_ok.1 h
  obtain ⟨s, hs, h⟩ := bind_ok.1 h
  cases h
  exact ⟨st₁, s, takeVictim_spec h₁, hs, rfl⟩

/-- The rounds of the loop around `allocate_slots` that preempt another request than `id`. -/
inductive Preempts (cfg : SchedulerConfig) (id : ℕ) (n : ℤ) : ℕ × Step K → ℕ × Step K → Prop
  | refl (x : ℕ × Step K) : Preempts cfg id n x x
  | round {idx idx' victim : ℕ} {st st₁ st₂ : Step K} {x : ℕ × Step K}
      (halloc : st.allocateRunning cfg id n = .ok (none, st₁))
      (hv : st₁.sched.preemptionVictim cfg = some victim)
      (hp : st₁.preempt cfg victim idx = .ok (idx', st₂)) (hne : victim ≠ id)
      (h : Preempts cfg id n (idx', st₂) x) : Preempts cfg id n (idx, st) x

/-- The loop around `allocate_slots` ends when the slots have been allocated, or when the request
itself has been preempted. -/
inductive PreemptLoop (cfg : SchedulerConfig) (id : ℕ) (n : ℤ) :
    ℕ × Step K → Option (List (List ℕ)) × ℕ × Step K → Prop
  | scheduled {x : ℕ × Step K} {idx : ℕ} {st st' : Step K} {blocks : List (List ℕ)}
      (hp : Preempts cfg id n x (idx, st))
      (halloc : st.allocateRunning cfg id n = .ok (some blocks, st')) :
      PreemptLoop cfg id n x (some blocks, idx, st')
  | preempted {x : ℕ × Step K} {idx idx' : ℕ} {st st₁ st' : Step K}
      (hp : Preempts cfg id n x (idx, st))
      (halloc : st.allocateRunning cfg id n = .ok (none, st₁))
      (hv : st₁.sched.preemptionVictim cfg = some id)
      (hpre : st₁.preempt cfg id idx = .ok (idx', st')) :
      PreemptLoop cfg id n x (none, idx', st')

variable {fuel : ℕ}

theorem preemptLoop_spec : ∀ {idx : ℕ} {st : Step K} {r : Option (List (List ℕ)) × ℕ × Step K},
      preemptLoop cfg id n fuel idx st = .ok r → PreemptLoop cfg id n (idx, st) r := by
  induction fuel with
  | zero =>
    intro idx st r h
    cases h
  | succ fuel ih =>
    intro idx st r h
    obtain ⟨⟨newBlocks, st₁⟩, halloc, h⟩ := bind_ok.1 h
    dsimp only at h
    cases newBlocks with
    | some blocks =>
      cases h
      exact .scheduled (.refl _) halloc
    | none =>
      cases hv : st₁.sched.preemptionVictim cfg with
      | none =>
        rw [hv] at h
        cases h
      | some victim =>
        rw [hv] at h
        obtain ⟨⟨idx', st₂⟩, hp, hr⟩ := bind_ok.1 h
        split_ifs at hr with hid
        · cases hr
          exact .preempted (.refl _) halloc (hid ▸ hv) (hid ▸ hp)
        · cases ih hr with
          | scheduled hps halloc' => exact .scheduled (.round halloc hv hp hid hps) halloc'
          | preempted hps halloc' hv' hpre =>
            exact .preempted (.round halloc hv hp hid hps) halloc' hv' hpre

/-- A round of the loop over the running requests. -/
inductive RunningRound (cfg : SchedulerConfig) (env : ScheduleEnv) (idx : ℕ) (st : Step K) :
    Flow (ℕ × Step K) → Prop
  | out (hid : st.sched.running[idx]? = none) : RunningRound cfg env idx st (.done (idx, st))
  | reachesMaxTokens {id : ℕ} (hid : st.sched.running[idx]? = some id)
      (hmax : reachesMaxTokens (st.request id) = true) :
      RunningRound cfg env idx st (.next (idx + 1, st))
  | noTokens {id : ℕ} {plan : EncoderSchedule} {st₁ : Step K}
      (hid : st.sched.running[idx]? = some id)
      (htry : st.tryEncoder cfg env id (st.request id).numComputedTokens
        (runningNewTokens cfg (st.request id) st.tokenBudget) = .ok (plan, st₁))
      (hn : plan.numNewTokens = 0) : RunningRound cfg env idx st (.next (idx + 1, st₁))
  | preempted {id idx' : ℕ} {plan : EncoderSchedule} {st₁ st' : Step K}
      (hid : st.sched.running[idx]? = some id)
      (htry : st.tryEncoder cfg env id (st.request id).numComputedTokens
        (runningNewTokens cfg (st.request id) st.tokenBudget) = .ok (plan, st₁))
      (hn : plan.numNewTokens ≠ 0)
      (hloop : PreemptLoop cfg id plan.numNewTokens (idx, st₁) (none, idx', st')) :
      RunningRound cfg env idx st (.done (idx', st'))
  | scheduled {id idx' : ℕ} {plan : EncoderSchedule} {st₁ st₂ st' : Step K}
      {blocks : List (List ℕ)} (hid : st.sched.running[idx]? = some id)
      (hmax : Step.reachesMaxTokens (st.request id) = false)
      (htry : st.tryEncoder cfg env id (st.request id).numComputedTokens
        (runningNewTokens cfg (st.request id) st.tokenBudget) = .ok (plan, st₁))
      (hn : plan.numNewTokens ≠ 0)
      (hloop : PreemptLoop cfg id plan.numNewTokens (idx, st₁) (some blocks, idx', st₂))
      (h : st₂.scheduleRunning id blocks plan = .ok st') :
      RunningRound cfg env idx st (.next (idx' + 1, st'))

variable {r : Flow (ℕ × Step K)}

theorem runningBody_round (h : st.runningBody cfg env idx = .ok r) : RunningRound cfg env idx st r := by
  unfold runningBody at h
  split at h
  · cases h
    exact .out ‹_›
  · rename_i id hid
    dsimp only at h
    split at h
    · cases h
      exact .reachesMaxTokens hid ‹_›
    · rename_i hmax
      obtain ⟨⟨plan, st₁⟩, htry, h⟩ := bind_ok.1 h
      split at h
      · cases h
        exact .noTokens hid htry ‹_›
      · rename_i hn
        obtain ⟨⟨newBlocks, idx', st₂⟩, hloop, h⟩ := bind_ok.1 h
        have hloop := preemptLoop_spec hloop
        cases newBlocks with
        | none =>
          cases h
          exact .preempted hid htry hn hloop
        | some blocks =>
          obtain ⟨st', h', h⟩ := bind_ok.1 h
          cases h
          exact .scheduled hid (eq_false_of_ne_true hmax) htry hn hloop h'

/-! ### The requests that are scheduled stand before the index -/

variable {α : Type*} {l : List α}

theorem mem_take_append {x : α} {l' : List α} {n : ℕ} (h : x ∈ l)
    (hn : l.length ≤ n) : x ∈ (l ++ l').take n := by
  rw [take_append]
  exact mem_append_left _ (by rwa [take_of_length_le hn])

theorem mem_take_erase [DecidableEq α] {x a : α} {n : ℕ} (h : x ∈ l.take n)
    (hne : x ≠ a) : x ∈ (l.erase a).take n := by
  rw [← take_append_drop n l]
  by_cases ha : a ∈ l.take n
  · rw [erase_append_left _ ha]
    refine mem_take_append ((mem_erase_of_ne hne).2 h) ?_
    exact (List.length_erase_le).trans (length_take_le _ _)
  · rw [erase_append_right _ ha]
    exact mem_take_append h (length_take_le _ _)

theorem mem_take_erase_of_mem [DecidableEq α] {x a : α} {n : ℕ} (h : x ∈ l.take n) (hne : x ≠ a)
    (ha : a ∈ l.take n) : x ∈ (l.erase a).take (n - 1) := by
  rw [← take_append_drop n l, erase_append_left _ ha]
  refine mem_take_append ((mem_erase_of_ne hne).2 h) ?_
  rw [length_erase_of_mem ha]
  exact Nat.sub_le_sub_right (length_take_le _ _) 1

/-- The scheduled requests stand before the index `idx` of the list of running requests. -/
structure Front (idx : ℕ) (st : Step K) : Prop where
  nodup : st.sched.running.Nodup
  scheduled_nodup : st.scheduledRunningReqs.Nodup
  scheduled : ∀ x ∈ st.scheduledRunningReqs, x ∈ st.sched.running.take idx
  keys : ∀ x, x ∈ st.numScheduledTokens ↔ x ∈ st.scheduledRunningReqs

/-- The request `id` is looked at, and is not scheduled yet. -/
structure Looking (cfg : SchedulerConfig) (id idx : ℕ) (st : Step K) : Prop
    extends Front idx st where
  mem : id ∈ st.sched.running.take (idx + 1)
  at_index : cfg.policy = .fcfs → st.sched.running[idx]? = some id
  not_scheduled : id ∉ st.scheduledRunningReqs

theorem take_dropLast {n : ℕ} (h : n ≤ l.length - 1) : l.dropLast.take n = l.take n := by
  rw [dropLast_eq_take, take_take, min_eq_left h]

section

variable (h : Looking cfg id idx st)

include h

section

variable (hv : st.sched.preemptionVictim cfg = some victim)

include hv

omit [KVCacheManagerOps K] in
/-- Taking another request out keeps the scheduled requests before the index. -/
theorem Looking.takesVictim (hne : victim ≠ id) (ht : TakesVictim cfg victim idx st idx' st') :
    Looking cfg id idx' st' := by
  cases ht with
  | last hp =>
    -- under FCFS the victim is the last request
    have hat := h.at_index hp
    have hlast : st.sched.running.getLast? = some victim := by
      unfold preemptionVictim at hv
      rwa [hp] at hv
    have hlt : idx < st.sched.running.length := (List.getElem?_eq_some_iff.1 hat).1
    have hlt' : idx < st.sched.running.length - 1 := by
      by_contra hge
      have hidx : idx = st.sched.running.length - 1 := by omega
      rw [getLast?_eq_getElem?, ← hidx, hat] at hlast
      exact hne (Option.some.inj hlast).symm
    refine ⟨⟨h.nodup.sublist (dropLast_sublist _), h.scheduled_nodup, ?_, h.keys⟩, ?_, ?_,
      h.not_scheduled⟩
    · intro x hx
      rw [take_dropLast hlt'.le]
      exact h.scheduled x hx
    · show id ∈ st.sched.running.dropLast.take (idx + 1)
      rw [take_dropLast hlt']
      exact h.mem
    · intro _
      rw [getElem?_dropLast, if_pos hlt']
      exact hat
  | notScheduled hp hs =>
    refine ⟨⟨h.nodup.sublist erase_sublist, h.scheduled_nodup, ?_, h.keys⟩, ?_, ?_, h.not_scheduled⟩
    · intro x hx
      refine mem_take_erase (h.scheduled x hx) ?_
      rintro rfl
      exact hs hx
    · exact mem_take_erase h.mem hne.symm
    · intro hf
      rw [hp] at hf
      cases hf
  | scheduled hp hs hu =>
    obtain ⟨n, blocks, budget, -, -, rfl⟩ := unschedule_eq hu
    have hvt := h.scheduled victim hs
    -- the victim was scheduled, so it stands before the index
    have hidx : 0 < idx := by
      by_contra h0
      rw [Nat.eq_zero_of_not_pos h0] at hvt
      cases hvt
    refine ⟨⟨h.nodup.sublist erase_sublist, h.scheduled_nodup.sublist erase_sublist, ?_,
      ?_⟩, ?_, ?_, fun hmem => h.not_scheduled (mem_of_mem_erase hmem)⟩
    · intro x hx
      obtain ⟨hxne, hx⟩ := h.scheduled_nodup.mem_erase_iff.1 hx
      exact mem_take_erase_of_mem (h.scheduled x hx) hxne hvt
    · intro x
      rw [mem_erase, h.keys, h.scheduled_nodup.mem_erase_iff]
    · have hvt' : victim ∈ st.sched.running.take (idx + 1) :=
        (take_sublist_take_left (le_succ idx)).subset hvt
      have := mem_take_erase_of_mem h.mem hne.symm hvt'
      rwa [Nat.sub_add_cancel hidx]
    · intro hf
      rw [hp] at hf
      cases hf

theorem Looking.preempt (hne : victim ≠ id) (hp : st.preempt cfg victim idx = .ok (idx', st')) :
    Looking cfg id idx' st' := by
  obtain ⟨st₁, s, ht, hs, rfl⟩ := preempt_eq hp
  obtain ⟨-, kv, -, rfl⟩ := preemptRequest_eq hs
  have := h.takesVictim hv hne ht
  exact ⟨⟨this.nodup, this.scheduled_nodup, this.scheduled, this.keys⟩, this.mem, this.at_index,
    this.not_scheduled⟩

theorem Looking.victim_notMem
    (hpre : st.preempt cfg victim idx = .ok (idx', st')) : victim ∉ st'.numScheduledTokens := by
  obtain ⟨st₁, s, ht, -, rfl⟩ := preempt_eq hpre
  cases ht with
  | last hp =>
    -- the last request is the one that is looked at, or stands behind it
    intro hmem
    have hat := h.at_index hp
    have hlast : st.sched.running.getLast? = some victim := by
      unfold preemptionVictim at hv
      rwa [hp] at hv
    obtain ⟨j, hj, hjx⟩ := mem_take_iff_getElem.1 (h.scheduled victim ((h.keys victim).1 hmem))
    have hlt : idx < st.sched.running.length := (List.getElem?_eq_some_iff.1 hat).1
    rw [getLast?_eq_getElem?, List.getElem?_eq_some_iff] at hlast
    obtain ⟨hk, hlast⟩ := hlast
    have : j = st.sched.running.length - 1 := (h.nodup.getElem_inj_iff).1 (hjx.trans hlast.symm)
    omega
  | notScheduled hp hs =>
    exact fun hmem => hs ((h.keys victim).1 hmem)
  | scheduled hp hs hu =>
    obtain ⟨n, blocks, budget, -, -, rfl⟩ := unschedule_eq hu
    exact fun hmem => (mem_erase.1 hmem).1 rfl

end

theorem Looking.allocateRunning {id' : ℕ}
    (ha : st.allocateRunning cfg id' n = .ok (blocks, st')) : Looking cfg id idx st' := by
  obtain ⟨kv, -, rfl⟩ := allocateRunning_eq ha
  exact ⟨⟨h.nodup, h.scheduled_nodup, h.scheduled, h.keys⟩, h.mem, h.at_index, h.not_scheduled⟩

end

/-- A preempted request is another one, so the request that is looked at is unchanged. -/
theorem preempt_request (hne : victim ≠ id)
    (hp : st.preempt cfg victim idx = .ok (idx', st')) : st'.request id = st.request id := by
  obtain ⟨st₁, s, ht, hs, rfl⟩ := preempt_eq hp
  obtain ⟨-, kv, -, rfl⟩ := preemptRequest_eq hs
  have hheap : st₁.sched.heap = st.sched.heap := by
    cases ht with
    | last | notScheduled => rfl
    | scheduled _ _ hu =>
      obtain ⟨n, blocks, budget, -, -, rfl⟩ := unschedule_eq hu
      rfl
  show update st₁.sched.heap victim _ id = st.sched.heap id
  rw [update_of_ne hne.symm, hheap]

theorem Preempts.spec (env : ScheduleEnv) {x y : ℕ × Step K} (h : Preempts cfg id n x y)
    (hl : Looking cfg id x.1 x.2) :
    Moves cfg env x.2 y.2 ∧ Looking cfg id y.1 y.2 ∧ y.2.request id = x.2.request id := by
  induction h with
  | refl x => exact ⟨.refl, hl, rfl⟩
  | round halloc hv hp hne _ ih =>
    have h₁ := hl.allocateRunning halloc
    obtain ⟨hmoves, hl', hreq⟩ := ih (h₁.preempt hv hne hp)
    refine ⟨.head (.allocateFails (mem_of_mem_take hl.mem) halloc)
      (.head (.preempt hv hp (h₁.victim_notMem hv hp)) hmoves), hl', ?_⟩
    rw [hreq, preempt_request hne hp]
    obtain ⟨kv, -, rfl⟩ := allocateRunning_eq halloc
    rfl

omit [KVCacheManagerOps K] in
theorem scheduleRunning_eq {blocks : List (List ℕ)}
    (h : st.scheduleRunning id blocks plan = .ok st') :
    ∃ m inputs budget, st' = { st with
      sched := { st.sched.modify id (fun r => { r with specTokenIds := [] }) with
        encoderCacheManager := m }
      scheduledRunningReqs := st.scheduledRunningReqs ++ [id]
      reqToNewBlocks := st.reqToNewBlocks.insert id blocks
      numScheduledTokens := st.numScheduledTokens.insert id plan.numNewTokens
      tokenBudget := st.tokenBudget - plan.numNewTokens
      scheduledSpecDecodeTokens := st.recordSpecTokens id plan.numNewTokens
      scheduledEncoderInputs := inputs
      encoderComputeBudget := budget } := by
  obtain ⟨m, inputs, budget, rfl⟩ := scheduleEncoder_eq h
  exact ⟨m, inputs, budget, rfl⟩

omit [KVCacheManagerOps K] in
theorem looking_of_front (cfg : SchedulerConfig) (h : Front idx st)
    (hid : st.sched.running[idx]? = some id) : Looking cfg id idx st := by
  obtain ⟨hlt, hget⟩ := List.getElem?_eq_some_iff.1 hid
  have hmem : id ∈ st.sched.running.take (idx + 1) := by
    rw [take_add_one, hid]
    exact mem_append_right _ (.head _)
  refine ⟨h, hmem, fun _ => hid, fun hs => ?_⟩
  -- the request at the index does not stand before it
  obtain ⟨j, hj, hjx⟩ := mem_take_iff_getElem.1 (h.scheduled id hs)
  have : j = idx := (h.nodup.getElem_inj_iff).1 (hjx.trans hget.symm)
  omega

theorem PreemptLoop.spec {x : ℕ × Step K} {r : Option (List (List ℕ)) × ℕ × Step K}
    (h : PreemptLoop cfg id n x r)
    (hl : Looking cfg id x.1 x.2) : r.1 = none → Moves cfg env x.2 r.2.2 := by
  cases h with
  | scheduled => intro h; cases h
  | preempted hp halloc hv hpre =>
    intro _
    obtain ⟨hmoves, hl', -⟩ := hp.spec env hl
    exact (hmoves.tail (.allocateFails (mem_of_mem_take hl'.mem) halloc)).tail
      (.preempt hv hpre ((hl'.allocateRunning halloc).victim_notMem hv hpre))

/-- A round of the loop is a sequence of moves, and the scheduled requests still stand before the
index if the loop goes on. -/
theorem RunningRound.spec (hf : Front idx st) (hpos : 0 < st.tokenBudget)
    (h : RunningRound cfg env idx st r) :
    match r with
    | .next (idx', st') => Moves cfg env st st' ∧ Front idx' st'
    | .done (_, st') => Moves cfg env st st' := by
  cases h with
  | out => exact .refl
  | reachesMaxTokens => exact ⟨.refl, hf.nodup, hf.scheduled_nodup, fun x hx =>
      (take_sublist_take_left (le_succ idx)).subset (hf.scheduled x hx), hf.keys⟩
  | noTokens hid htry =>
    refine ⟨.single (.tryEncoder (.inl (mem_of_getElem? hid)) htry), ?_⟩
    obtain ⟨m, rfl⟩ := tryEncoder_eq cfg env htry
    exact ⟨hf.nodup, hf.scheduled_nodup, fun x hx =>
      (take_sublist_take_left (le_succ idx)).subset (hf.scheduled x hx), hf.keys⟩
  | preempted hid htry _ hloop =>
    have hmove := Move.tryEncoder (.inl (mem_of_getElem? hid)) htry
    have hl := looking_of_front cfg hf hid
    obtain ⟨m, rfl⟩ := tryEncoder_eq cfg env htry
    exact .head hmove (hloop.spec
      ⟨⟨hl.nodup, hl.scheduled_nodup, hl.scheduled, hl.keys⟩, hl.mem, hl.at_index,
        hl.not_scheduled⟩ rfl)
  | @scheduled id _ plan _ _ _ _ hid hmax htry hn hloop hrun =>
    have hmove := Move.tryEncoder (.inl (mem_of_getElem? hid)) htry
    have hlow := tryEncoder_lowered cfg env htry
    have hl := looking_of_front cfg hf hid
    obtain ⟨m, rfl⟩ := tryEncoder_eq cfg env htry
    cases hloop with
    | scheduled hp halloc =>
      obtain ⟨hmoves, hl', hreq⟩ := hp.spec env
        ⟨⟨hl.nodup, hl.scheduled_nodup, hl.scheduled, hl.keys⟩, hl.mem, hl.at_index,
        hl.not_scheduled⟩
      have htokens : RunningTokens cfg (st.request id) plan.numNewTokens :=
        ⟨hn, st.tokenBudget, hpos, hlow⟩
      have hkey := fun hmem => hl'.not_scheduled ((hl'.keys id).1 hmem)
      refine ⟨.head hmove (hmoves.tail (.run (mem_of_mem_take hl'.mem) hl'.not_scheduled hkey
        (by rw [hreq]; exact hmax) (by rw [hreq]; exact htokens) halloc hrun)), ?_⟩
      have hl₂ := hl'.allocateRunning halloc
      obtain ⟨m', inputs, budget, rfl⟩ := scheduleRunning_eq hrun
      refine ⟨hl₂.nodup, ?_, ?_, ?_⟩
      · refine nodup_append'.2 ⟨hl₂.scheduled_nodup, nodup_singleton _, ?_⟩
        exact disjoint_singleton.2 hl₂.not_scheduled
      · intro x hx
        rcases mem_append.1 hx with hx | hx
        · exact (take_sublist_take_left (le_succ _)).subset (hl₂.scheduled x hx)
        · rw [mem_singleton.1 hx]
          exact hl₂.mem
      · intro x
        rw [mem_insert, hl₂.keys, mem_append, mem_singleton, or_comm]

theorem runningLoop_moves: ∀ {idx : ℕ} {st st' : Step K}, Front idx st →
    runningLoop cfg env fuel idx st = .ok st' → Moves cfg env st st' := by
  induction fuel with
  | zero =>
    intro idx st st' _ h
    cases h
  | succ fuel ih =>
    intro idx st st' hf h
    unfold runningLoop at h
    split_ifs at h with hc
    · obtain ⟨r, hr, h⟩ := bind_ok.1 h
      have hround := (runningBody_round hr).spec hf hc.2
      cases r with
      | next x =>
        exact hround.1.trans (ih hround.2 h)
      | done x =>
        cases h
        exact hround
    · cases h
      exact .refl

/-! ### Waiting requests -/

variable {isReady : Bool}

/-- What `_update_waiting_for_remote_kv` does once the KVs have arrived: it sets the number of
computed tokens, and changes the KV cache manager and the two sets of requests. -/
theorem updateWaitingForRemoteKv_eq (h : updateWaitingForRemoteKv cfg id s = .ok (isReady, s')) :
    (isReady = false ∧ s' = s) ∨ (isReady = true ∧ ∃ kv n recving failed,
      s' = { s.modify id (fun r => { r with numComputedTokens := n }) with
        kvCacheManager := kv
        finishedRecvingKvReqIds := recving
        failedRecvingKvReqIds := failed }) := by
  obtain ⟨_, -, h⟩ := bind_ok.1 h
  split at h
  · cases h
    exact .inl ⟨rfl, rfl⟩
  · dsimp only at h
    split at h
    · obtain ⟨kv, -, h⟩ := bind_ok.1 h
      cases h
      refine .inr ⟨rfl, kv, (s.heap id).numComputedTokens, s.finishedRecvingKvReqIds.erase id,
        s.failedRecvingKvReqIds.erase id, ?_⟩
      unfold Scheduler.modify
      rw [update_eq_self]
    · obtain ⟨blockIds, -, h⟩ := bind_ok.1 h
      obtain ⟨kv, -, h⟩ := bind_ok.1 h
      cases h
      exact .inr ⟨rfl, kv, _, _, _, rfl⟩

/-- A request whose remote KVs have arrived gets its new status with its computed tokens. -/
theorem readyRemoteKv_eq (h : updateWaitingForRemoteKv cfg id s = .ok (true, s'))
    (status : RequestStatus) :
    ∃ kv n recving failed, s'.setStatus id status =
      { s.modify id (fun r => { r with status := status, numComputedTokens := n }) with
        kvCacheManager := kv
        finishedRecvingKvReqIds := recving
        failedRecvingKvReqIds := failed } := by
  obtain ⟨h, -⟩ | ⟨-, kv, n, recving, failed, rfl⟩ := updateWaitingForRemoteKv_eq h
  · cases h
  · refine ⟨kv, n, recving, failed, ?_⟩
    unfold setStatus Scheduler.modify
    dsimp only
    rw [update_self, update_idem]

/-- What a round of the loop over the waiting requests needs of the state. -/
structure CanAdmit (cfg : SchedulerConfig) (id : ℕ) (st : Step K) : Prop where
  mem : id ∈ st.sched.waiting
  preempted : st.preemptedReqs = []
  capacity : st.sched.running.length ≠ cfg.maxNumRunningReqs

theorem readyRemoteKv_moves (env : ScheduleEnv) (hc : CanAdmit cfg id st)
    (h : st.readyRemoteKv cfg id = .ok (isReady, st')) :
    Moves cfg env st st' ∧ CanAdmit cfg id st' ∧ st'.tokenBudget = st.tokenBudget := by
  unfold readyRemoteKv at h
  split at h
  · rename_i hst
    obtain ⟨⟨b, s⟩, hs, h⟩ := bind_ok.1 h
    obtain ⟨rfl, rfl⟩ | ⟨rfl, kv, n, recving, failed, rfl⟩ := updateWaitingForRemoteKv_eq hs
    · cases h
      exact ⟨.refl, hc, rfl⟩
    · cases h
      exact ⟨.single (.readyRemoteKv hc.mem hst hs), ⟨hc.mem, hc.preempted, hc.capacity⟩, rfl⟩
  · cases h
    exact ⟨.refl, hc, rfl⟩

omit [KVCacheManagerOps K] in
theorem readyFsm_eq (h : st.readyFsm env id = (isReady, st')) :
    st' = st ∨ ((st.request id).status = .waitingForFsm ∧
      st' = { st with sched := st.sched.setStatus id .waiting }) := by
  unfold readyFsm at h
  split_ifs at h with hst
  · cases h
    exact .inr ⟨hst, rfl⟩
  · cases h
    exact .inl rfl
  · cases h
    exact .inl rfl

theorem readyFsm_moves (hc : CanAdmit cfg id st) (h : st.readyFsm env id = (isReady, st')) :
    Moves cfg env st st' ∧ CanAdmit cfg id st' ∧ st'.tokenBudget = st.tokenBudget := by
  obtain rfl | ⟨hst, rfl⟩ := readyFsm_eq h
  · exact ⟨.refl, hc, rfl⟩
  · exact ⟨.single (.readyFsm hc.mem hst), ⟨hc.mem, hc.preempted, hc.capacity⟩, rfl⟩

variable {computed : ComputedTokens}

omit [KVCacheManagerOps K] in
/-- The tokens of a waiting request are those that are not computed, up to the limits. -/
theorem waitingNewTokens_spec (h : st.waitingNewTokens cfg env id computed = .ok (some plan, st')) :
    (computed.loadKvAsync = true ∧ plan.numNewTokens = 0 ∧ st' = st) ∨
      (computed.loadKvAsync = false ∧ 0 < plan.numNewTokens ∧ plan.numNewTokens ≤ st.tokenBudget ∧
        plan.numNewTokens ≤ (st.request id).numTokens - computed.numComputedTokens ∧
        ∃ n, st.tryEncoder cfg env id computed.numComputedTokens n = .ok (plan, st')) := by
  unfold waitingNewTokens at h
  split at h
  · rename_i hasync
    obtain ⟨_, -, h⟩ := bind_ok.1 h
    cases h
    exact .inl ⟨hasync, rfl, rfl⟩
  · rename_i hasync
    dsimp only at h
    split at h
    · cases h
    · obtain ⟨_, hpos, h⟩ := bind_ok.1 h
      have hpos := check_eq_ok.1 hpos
      obtain ⟨⟨plan', st₁⟩, htry, h⟩ := bind_ok.1 h
      have hlow := tryEncoder_lowered cfg env htry
      dsimp only at h
      cases hn : decide (plan'.numNewTokens = 0) with
      | true =>
        rw [if_pos (of_decide_eq_true hn)] at h
        cases h
      | false =>
        have hn := of_decide_eq_false hn
        rw [if_neg hn] at h
        cases h
        unfold Lowered at hlow
        have hcap := cfg.capPrefill_le ((st.request id).numTokens - computed.numComputedTokens)
        exact .inr ⟨eq_false_of_ne_true hasync, by omega, by omega, by omega, _, htry⟩

theorem waitingNewTokens_eq {plan : Option EncoderSchedule}
    (h : st.waitingNewTokens cfg env id computed = .ok (plan, st')) :
    (id ∈ st.sched.waiting → Moves cfg env st st') ∧
      ∃ m, st' = { st with sched := { st.sched with encoderCacheManager := m } } := by
  unfold waitingNewTokens at h
  split at h
  · obtain ⟨_, -, h⟩ := bind_ok.1 h
    cases h
    exact ⟨fun _ => .refl, _, rfl⟩
  · dsimp only at h
    split at h
    · cases h
      exact ⟨fun _ => .refl, _, rfl⟩
    · obtain ⟨_, -, h⟩ := bind_ok.1 h
      obtain ⟨⟨plan', st₁⟩, htry, h⟩ := bind_ok.1 h
      cases h
      exact ⟨fun hmem => .single (.tryEncoder (.inr hmem) htry), tryEncoder_eq cfg env htry⟩

theorem allocateWaiting_eq (h : st.allocateWaiting cfg id computed n = .ok (blocks, st')) :
    ∃ kv args, allocateSlots st.sched.kvCacheManager id (st.request id) args = .ok (kv, blocks) ∧
      args.numNewTokens = n ∧ args.numNewComputedTokens = computed.numNewLocalComputedTokens ∧
      args.newComputedBlocks = some computed.newComputedBlocks ∧
      args.numExternalComputedTokens = computed.numExternalComputedTokens ∧
      args.delayCacheBlocks = computed.loadKvAsync ∧
      st' = { st with sched := { st.sched with kvCacheManager := kv } } := by
  obtain ⟨⟨kv, blocks'⟩, halloc, h⟩ := bind_ok.1 h
  cases h
  exact ⟨kv, _, kvCall_eq_ok.1 halloc, rfl, rfl, rfl, rfl, rfl, rfl⟩

theorem admitRequest_eq (h : st.admitRequest cfg id computed plan = .ok st') :
    ∃ m inputs budget loras newReqs resumedReqs,
      ((st.request id).status = .waiting ∧ newReqs = st.scheduledNewReqs ++ [id] ∧
          resumedReqs = st.scheduledResumedReqs ∨
        (st.request id).status = .preempted ∧ newReqs = st.scheduledNewReqs ∧
          resumedReqs = st.scheduledResumedReqs ++ [id]) ∧
      st' = { st with
        sched := { st.sched.modify id (fun r => { r with
            status := .running
            numComputedTokens := computed.numComputedTokens
            numCachedTokens :=
              if r.numCachedTokens < 0 then computed.numComputedTokens else r.numCachedTokens }) with
          encoderCacheManager := m
          waiting := st.sched.waiting.erase id
          running := st.sched.running ++ [id] }
        scheduledNewReqs := newReqs
        scheduledResumedReqs := resumedReqs
        scheduledLoras := loras
        reqToNewBlocks := st.reqToNewBlocks.insert id (getBlocks st.sched.kvCacheManager id)
        numScheduledTokens := st.numScheduledTokens.insert id plan.numNewTokens
        tokenBudget := st.tokenBudget - plan.numNewTokens
        scheduledEncoderInputs := inputs
        encoderComputeBudget := budget } := by
  obtain ⟨st₁, hst, h⟩ := bind_ok.1 h
  obtain ⟨m, inputs, budget, rfl⟩ := scheduleEncoder_eq h
  unfold recordAdmitted at hst
  split at hst
  · cases hst
    exact ⟨m, inputs, budget, _, _, _, .inl ⟨‹_›, rfl, rfl⟩, rfl⟩
  · cases hst
    exact ⟨m, inputs, budget, _, _, _, .inr ⟨‹_›, rfl, rfl⟩, rfl⟩
  · cases hst

/-- A request is scheduled, or not, by a sequence of moves that does not preempt. -/
theorem scheduleWaiting_moves {r : Flow (Step K)} (hc : CanAdmit cfg id st)
    (hlora : st.exceedsLoras cfg id = false) (h : st.scheduleWaiting cfg env id = .ok r) :
    Moves cfg env st r.state ∧ r.state.preemptedReqs = [] := by
  obtain ⟨computed?, hcomputed, h⟩ := bind_ok.1 h
  cases computed? with
  | none =>
    cases h
    exact ⟨.single (.skip hc.mem), hc.preempted⟩
  | some computed =>
    obtain ⟨⟨plan?, st₁⟩, hplan, h⟩ := bind_ok.1 h
    obtain ⟨hmoves, m, rfl⟩ := (waitingNewTokens_eq hplan).imp_left (· hc.mem)
    cases plan? with
    | none =>
      cases h
      exact ⟨hmoves, hc.preempted⟩
    | some plan =>
      obtain ⟨⟨blocks?, st₂⟩, halloc, h⟩ := bind_ok.1 h
      have halloc_eq := allocateWaiting_eq halloc
      obtain ⟨kv, args, -, -, -, -, -, -, hst₂⟩ := halloc_eq
      dsimp only at h
      cases blocks? with
      | none =>
        cases h
        refine ⟨hmoves.tail (.allocateWaitingFails hc.mem halloc), ?_⟩
        rw [hst₂]
        exact hc.preempted
      | some blocks =>
        obtain ⟨hasync, hn, -⟩ | ⟨hasync, hpos, hbudget, hn, -⟩ := waitingNewTokens_spec hplan
        · rw [if_pos hasync] at h
          rw [hn] at halloc
          cases h
          refine ⟨hmoves.tail (.waitForRemoteKvs hc.mem hcomputed hasync halloc), ?_⟩
          rw [hst₂]
          exact hc.preempted
        · rw [if_neg (by rw [hasync]; decide)] at h
          obtain ⟨st₃, hadmit, h⟩ := bind_ok.1 h
          cases h
          refine ⟨hmoves.tail (.admitted hc.mem hc.preempted hc.capacity hlora hcomputed hpos hbudget
            hn halloc hadmit), ?_⟩
          obtain ⟨m, inputs, budget, loras, newReqs, resumedReqs, -, rfl⟩ := admitRequest_eq hadmit
          rw [hst₂]
          exact hc.preempted

theorem waitingBody_moves {r : Flow (Step K)} (hc : CanAdmit cfg id st)
    (h : st.waitingBody cfg env id = .ok r) :
    Moves cfg env st r.state ∧ r.state.preemptedReqs = [] := by
  obtain ⟨⟨isReady, st₁⟩, hready, h⟩ := bind_ok.1 h
  obtain ⟨hmoves, hc₁, -⟩ := readyRemoteKv_moves env hc hready
  dsimp only at h
  split at h
  · cases h
    exact ⟨hmoves.tail (.skip hc₁.mem), hc₁.preempted⟩
  · cases hfsm : st₁.readyFsm env id with
    | mk isReady' st₂ =>
      rw [hfsm] at h
      obtain ⟨hmoves', hc₂, -⟩ := readyFsm_moves hc₁ hfsm
      have hmoves := hmoves.trans hmoves'
      split at h
      · cases h
        exact ⟨hmoves.tail (.skip hc₂.mem), hc₂.preempted⟩
      · split at h
        · cases h
          exact ⟨hmoves.tail (.skip hc₂.mem), hc₂.preempted⟩
        · obtain ⟨hmoves'', hpre⟩ := scheduleWaiting_moves hc₂ (eq_false_of_ne_true ‹_›) h
          exact ⟨hmoves.trans hmoves'', hpre⟩

/-- A request picked out of a non-empty list by comparing one after another. -/
theorem foldl_pick_mem (better : ℕ → ℕ → Bool) (l : List ℕ) :
    ∀ a, l.foldl (fun best b => if better best b then b else best) a ∈ a :: l := by
  induction l with
  | nil => intro a; exact .head _
  | cons b l ih =>
    intro a
    rw [foldl_cons]
    split_ifs
    · exact .tail _ (ih b)
    · rcases mem_cons.1 (ih a) with hmem | hmem
      · rw [hmem]
        exact .head _
      · exact .tail _ (.tail _ hmem)

section

omit [KVCacheManagerOps K]

theorem peekRequest_mem {queue : List ℕ} (h : s.peekRequest cfg queue = some id) : id ∈ queue := by
  unfold peekRequest at h
  split at h
  · cases h
  · split at h
    · cases h
      exact .head _
    · cases h
      exact foldl_pick_mem (fun least b => s.lt b least) _ _

theorem preemptionVictim_mem (h : s.preemptionVictim cfg = some victim) : victim ∈ s.running := by
  unfold preemptionVictim at h
  split at h
  · exact mem_of_getLast? h
  · split at h
    · cases h
    · rename_i hrun
      cases h
      rw [hrun]
      exact foldl_pick_mem (fun greatest b => s.keyLt greatest b) _ _

/-- The victim is taken out of the list of running requests, and nothing else of the scheduler is
changed. -/
theorem TakesVictim.spec (hv : st.sched.preemptionVictim cfg = some victim)
    (h : TakesVictim cfg victim idx st idx' st') :
    ∃ running, st'.sched = { st.sched with running := running } ∧
      st.sched.running.Perm (victim :: running) ∧
      st'.skippedWaitingRequests = st.skippedWaitingRequests := by
  cases h with
  | last hp =>
    refine ⟨_, rfl, ?_, rfl⟩
    unfold preemptionVictim at hv
    rw [hp] at hv
    have happ : st.sched.running.dropLast ++ [victim] = st.sched.running :=
      dropLast_append_getLast? _ hv
    have hperm := perm_append_singleton victim st.sched.running.dropLast
    rwa [happ] at hperm
  | notScheduled hp hs =>
    exact ⟨_, rfl, perm_cons_erase (preemptionVictim_mem hv), rfl⟩
  | scheduled hp hs hu =>
    obtain ⟨n, blocks, budget, -, -, rfl⟩ := unschedule_eq hu
    exact ⟨_, rfl, perm_cons_erase (preemptionVictim_mem hv), rfl⟩

end

/-- What the preemption of a running request does. -/
structure PreemptsVictim (victim : ℕ) (st st' : Step K) : Prop where
  status : (st.sched.heap victim).status = .running
  sched : ∃ kv running, free st.sched.kvCacheManager victim = .ok kv ∧
    st.sched.running.Perm (victim :: running) ∧ st'.sched = { st.sched with
      kvCacheManager := kv
      encoderCacheManager := st.sched.encoderCacheManager.free victim (st.sched.heap victim)
      heap := update st.sched.heap victim (st.sched.heap victim).preempt
      waiting := victim :: st.sched.waiting
      running := running }
  skipped : st'.skippedWaitingRequests = st.skippedWaitingRequests
  preempted : st'.preemptedReqs = st.preemptedReqs ++ [victim]
  admitted : st'.scheduledNewReqs = st.scheduledNewReqs ∧
    st'.scheduledResumedReqs = st.scheduledResumedReqs
  numScheduled : ∀ id ≠ victim, st'.numScheduledTokens.lookup id = st.numScheduledTokens.lookup id
  specTokens : ∀ id ≠ victim,
    st'.scheduledSpecDecodeTokens.lookup id = st.scheduledSpecDecodeTokens.lookup id
  newBlocks : ∀ id ≠ victim, st'.reqToNewBlocks.lookup id = st.reqToNewBlocks.lookup id
  encoderInputs : ∀ id ≠ victim,
    st'.scheduledEncoderInputs.lookup id = st.scheduledEncoderInputs.lookup id
  victim : (st'.scheduledSpecDecodeTokens = st.scheduledSpecDecodeTokens ∧
      st'.scheduledEncoderInputs = st.scheduledEncoderInputs) ∨
    (st'.scheduledSpecDecodeTokens = st.scheduledSpecDecodeTokens.erase victim ∧
      st'.scheduledEncoderInputs = st.scheduledEncoderInputs.erase victim)

theorem preempt_spec (hv : st.sched.preemptionVictim cfg = some victim)
    (h : st.preempt cfg victim idx = .ok (idx', st')) : PreemptsVictim victim st st' := by
  obtain ⟨st₁, s, ht, hs, rfl⟩ := preempt_eq h
  obtain ⟨running, hsched, hperm, hskip⟩ := ht.spec hv
  obtain ⟨hst, kv, hfree, rfl⟩ := preemptRequest_eq hs
  have hs' : { st₁.sched.modify victim Request.preempt with
      kvCacheManager := kv
      encoderCacheManager := st₁.sched.encoderCacheManager.free victim (st₁.sched.heap victim)
      waiting := victim :: st₁.sched.waiting } = { st.sched with
      kvCacheManager := kv
      encoderCacheManager := st.sched.encoderCacheManager.free victim (st.sched.heap victim)
      heap := update st.sched.heap victim (st.sched.heap victim).preempt
      waiting := victim :: st.sched.waiting
      running := running } := by
    rw [hsched]
    rfl
  cases ht with
  | last | notScheduled =>
    exact ⟨hst, ⟨kv, running, hfree, hperm, hs'⟩, hskip, rfl, ⟨rfl, rfl⟩, fun _ _ => rfl,
      fun _ _ => rfl, fun _ _ => rfl, fun _ _ => rfl, .inl ⟨rfl, rfl⟩⟩
  | scheduled _ _ hu =>
    obtain ⟨n, blocks, budget, -, -, rfl⟩ := unschedule_eq hu
    exact ⟨hst, ⟨kv, running, hfree, hperm, hs'⟩, hskip, rfl, ⟨rfl, rfl⟩,
      fun _ hne => lookup_erase_ne hne, fun _ hne => lookup_erase_ne hne,
      fun _ hne => lookup_erase_ne hne, fun _ hne => lookup_erase_ne hne,
      .inr ⟨rfl, rfl⟩⟩

theorem waitingLoop_moves: ∀ {st st' : Step K}, st.preemptedReqs = [] →
    waitingLoop cfg env fuel st = .ok st' → Moves cfg env st st' := by
  induction fuel with
  | zero =>
    intro st st' _ h
    cases h
  | succ fuel ih =>
    intro st st' hpre h
    unfold waitingLoop at h
    split at h
    · cases h
      exact .refl
    · rename_i id hpeek
      split at h
      · rename_i hc
        obtain ⟨r, hr, h⟩ := bind_ok.1 h
        obtain ⟨hmoves, hpre'⟩ := waitingBody_moves ⟨peekRequest_mem hpeek, hpre, hc.2⟩ hr
        cases r with
        | next st₁ => exact hmoves.trans (ih hpre' h)
        | done st₁ =>
          cases h
          exact hmoves
      · cases h
        exact .refl

omit [KVCacheManagerOps K] in
theorem recordLoras_eq (h : st.recordLoras cfg = .ok st') :
    ∃ loras, st' = { st with scheduledLoras := loras } := by
  unfold recordLoras at h
  split at h
  · cases h
    exact ⟨_, rfl⟩
  · obtain ⟨_, -, h⟩ := bind_ok.1 h
    cases h
    exact ⟨_, rfl⟩

/-- A move only touches requests in the queues, and nothing that belongs to finished ones. -/
theorem Move.frame (h : Move cfg env st st') :
    st'.sched.ids = st.sched.ids ∧ st'.sched.log = st.sched.log ∧
      st'.sched.finishedReqIds = st.sched.finishedReqIds ∧
      st'.sched.prevStepScheduledReqIds = st.sched.prevStepScheduledReqIds ∧
      ∀ id, id ∉ st.sched.running → id ∉ st.sched.waiting →
        st'.sched.heap id = st.sched.heap id := by
  cases h with
  | tryEncoder hid h =>
    obtain ⟨m, rfl⟩ := tryEncoder_eq cfg env h
    exact ⟨rfl, rfl, rfl, rfl, fun _ _ _ => rfl⟩
  | allocateFails hid h =>
    obtain ⟨kv, -, rfl⟩ := allocateRunning_eq h
    exact ⟨rfl, rfl, rfl, rfl, fun _ _ _ => rfl⟩
  | preempt hv h hkey =>
    obtain ⟨kv, running, -, -, hsched⟩ := (preempt_spec hv h).sched
    rw [hsched]
    refine ⟨rfl, rfl, rfl, rfl, fun id hid _ => ?_⟩
    exact update_of_ne (ne_of_mem_of_not_mem (preemptionVictim_mem hv) hid).symm _ _
  | run hid hnew hkey hmax hn halloc h =>
    obtain ⟨kv, -, rfl⟩ := allocateRunning_eq halloc
    obtain ⟨m, inputs, budget, rfl⟩ := scheduleRunning_eq h
    exact ⟨rfl, rfl, rfl, rfl, fun i hi _ =>
      update_of_ne (ne_of_mem_of_not_mem hid hi).symm _ _⟩
  | recordLoras h =>
    obtain ⟨loras, rfl⟩ := recordLoras_eq h
    exact ⟨rfl, rfl, rfl, rfl, fun _ _ _ => rfl⟩
  | readyRemoteKv hid hst h =>
    obtain ⟨kv, n, recving, failed, heq⟩ := readyRemoteKv_eq h (st.readyStatus _)
    rw [heq]
    exact ⟨rfl, rfl, rfl, rfl, fun i _ hi =>
      update_of_ne (ne_of_mem_of_not_mem hid hi).symm _ _⟩
  | readyFsm hid hst =>
    exact ⟨rfl, rfl, rfl, rfl, fun i _ hi =>
      update_of_ne (ne_of_mem_of_not_mem hid hi).symm _ _⟩
  | skip hid => exact ⟨rfl, rfl, rfl, rfl, fun _ _ _ => rfl⟩
  | allocateWaitingFails hid h =>
    obtain ⟨kv, args, -, -, -, -, -, -, rfl⟩ := allocateWaiting_eq h
    exact ⟨rfl, rfl, rfl, rfl, fun _ _ _ => rfl⟩
  | waitForRemoteKvs hid hcomputed hasync halloc =>
    obtain ⟨kv, args, -, -, -, -, -, -, rfl⟩ := allocateWaiting_eq halloc
    exact ⟨rfl, rfl, rfl, rfl, fun i _ hi =>
      update_of_ne (ne_of_mem_of_not_mem hid hi).symm _ _⟩
  | admitted hid hpre hcap hlora hcomputed hpos hbudget hn halloc h =>
    obtain ⟨kv, args, -, -, -, -, -, -, rfl⟩ := allocateWaiting_eq halloc
    obtain ⟨m, inputs, budget, loras, newReqs, resumedReqs, -, rfl⟩ := admitRequest_eq h
    exact ⟨rfl, rfl, rfl, rfl, fun i _ hi =>
      update_of_ne (ne_of_mem_of_not_mem hid hi).symm _ _⟩

omit [KVCacheManagerOps K] in
theorem start_front (h : s.running.Nodup) : Front 0 (start cfg s) :=
  ⟨h, nodup_nil, nofun,
    fun x => iff_of_false (notMem_empty x) not_mem_nil⟩

/-- **The loops of `schedule` are a sequence of moves.**  After it the skipped requests are put
back, and the assertions hold. -/
theorem scheduleLoops_moves (hs : s.running.Nodup) (h : s.scheduleLoops cfg env = .ok st) :
    ∃ st₁, Moves cfg env (start cfg s) st₁ ∧ st = st₁.putBack ∧
      st.checkConstraints cfg = .ok () := by
  obtain ⟨st₁, h₁, h⟩ := bind_ok.1 h
  obtain ⟨st₂, h₂, h⟩ := bind_ok.1 h
  obtain ⟨st₃, h₃, h⟩ := bind_ok.1 h
  obtain ⟨_, hcheck, h⟩ := bind_ok.1 h
  cases h
  refine ⟨st₃, ?_, rfl, hcheck⟩
  have hmoves := (runningLoop_moves (start_front hs) h₁).tail (.recordLoras h₂)
  unfold scheduleWaitingReqs at h₃
  split_ifs at h₃ with hpre
  · exact hmoves.trans (waitingLoop_moves hpre h₃)
  · cases h₃
    exact hmoves

end Step

end LoptVllm.Sched
