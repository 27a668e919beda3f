import LoptVllm.Sched.Managed
import LoptVllm.Sched.Order

/-!
# The loops of `schedule` end by themselves

Each loop of the model is given a number of rounds, and it is an error of its own when they do not
suffice. No call meets this error, so the loops end because of their conditions, as those of the
source do.
-/

namespace LoptVllm.Sched

namespace Step

open KVCacheManagerOps List

variable {K : Type} [KVCacheManagerOps K] {cfg : SchedulerConfig} {env : ScheduleEnv}

/-! ### The bodies of the loops -/

section

variable {α β : Type}

/-- The call has had enough rounds, whether it raises an exception of the source or returns. -/
structure Ends (x : Except SchedulerError α) : Prop where
  ne : x ≠ .error .outOfRounds

theorem Ends.ok (a : α) : Ends (.ok a) := ⟨nofun⟩

theorem Ends.raised (e : PyErr) : Ends (.error (.raised e) : Except SchedulerError α) := ⟨nofun⟩

theorem Ends.bind {x : Except SchedulerError α} {f : α → Except SchedulerError β} (hx : Ends x)
    (hf : ∀ a, x = .ok a → Ends (f a)) : Ends (x >>= f) := by
  cases x with
  | error e => exact ⟨fun h => hx.ne (congrArg Except.error (Except.error.inj h))⟩
  | ok a => exact hf a rfl

theorem Ends.ite {p : Prop} [Decidable p] {x y : Except SchedulerError α} (hx : Ends x) (hy : Ends y) :
    Ends (if p then x else y) := by
  split_ifs
  · exact hx
  · exact hy

theorem Ends.of_bind {x : Except SchedulerError α} {f : α → Except SchedulerError β} {a : α}
    (h : Ends (x >>= f)) (hx : x = .ok a) : Ends (f a) := by
  subst hx
  exact h

theorem ends_check (p : Prop) [Decidable p] (condition : String) : Ends (check p condition) := by
  unfold check
  split_ifs <;> exact ⟨nofun⟩

theorem ends_getItem (value : Option α) (key : ℕ) : Ends (getItem value key) := by
  cases value <;> exact ⟨nofun⟩

theorem ends_kvCall (x : Except PyErr α) : Ends (kvCall x) := by
  cases x <;> exact ⟨nofun⟩

theorem ends_encoderCall (x : Except PyErr α) : Ends (encoderCall x) := by
  cases x <;> exact ⟨nofun⟩

end

section

variable (cfg : SchedulerConfig) (env : ScheduleEnv) (st : Step K) (id : ℕ)

omit [KVCacheManagerOps K] in
theorem ends_tryEncoder (m n : ℤ) : Ends (st.tryEncoder cfg env id m n) := by
  have hstep : ∀ args feature i plan m, Ends (encoderStep cfg args feature i plan m) := by
    intro args feature i plan m
    refine .ite (.ok _) (.ite (.bind (ends_check ..) fun _ _ => .ok _) (.ite (.ok _) ?_))
    refine .bind (ends_encoderCall _) fun _ _ => .ite (.ok _) (.ite (.ok _) ?_)
    exact .bind (ends_encoderCall _) fun _ _ => .ite (.ok _) (.ok _)
  have hloop : ∀ args features plan m, Ends (encoderLoop cfg args features plan m) := by
    intro args features
    induction features with
    | nil => exact fun _ _ => .ok _
    | cons f features ih =>
      intro plan m
      refine .bind (hstep ..) fun r _ => ?_
      obtain ⟨stop, plan, m⟩ := r
      exact .ite (.ok _) (ih plan m)
  exact .bind (.ite (.ok _) (hloop ..)) fun _ _ => .ok _

omit [KVCacheManagerOps K] in
theorem ends_scheduleEncoder (plan : EncoderSchedule) : Ends (st.scheduleEncoder id plan) := by
  have hallocate : ∀ request inputs m, Ends (allocateEncoder id request inputs m) := by
    intro request inputs
    induction inputs with
    | nil => exact fun _ => .ok _
    | cons i inputs ih =>
      intro m
      unfold allocateEncoder
      split
      · exact .raised _
      · exact .bind (ends_encoderCall _) fun _ _ => ih _
  exact .bind (hallocate ..) fun _ _ => .bind (hallocate ..) fun _ _ => .ok _

theorem ends_allocateRunning (n : ℤ) : Ends (st.allocateRunning cfg id n) :=
  .bind (ends_kvCall _) fun _ _ => .ok _

theorem ends_preempt (victim idx : ℕ) : Ends (st.preempt cfg victim idx) := by
  refine .bind ?_ fun _ _ => .bind ?_ fun _ _ => .ok _
  · unfold takeVictim
    split
    · exact .ok _
    · refine .ite (.bind ?_ fun _ _ => .ok _) (.ok _)
      exact .bind (ends_getItem ..) fun _ _ => .bind (ends_getItem ..) fun _ _ => .ok _
  · exact .bind (ends_check ..) fun _ _ => .bind (ends_kvCall _) fun _ _ => .ok _

theorem ends_readyRemoteKv : Ends (st.readyRemoteKv cfg id) := by
  refine .ite (.bind (.bind (ends_check ..) fun _ _ => ?_) fun _ _ => .ite (.ok _) (.ok _)) (.ok _)
  refine .ite (.ok _) (.ite (.bind (ends_kvCall _) fun _ _ => .ok _) ?_)
  refine .bind ?_ fun _ _ => .bind (ends_kvCall _) fun _ _ => .ok _
  unfold singleGroup
  split <;> exact ⟨nofun⟩

theorem ends_scheduleWaiting : Ends (st.scheduleWaiting cfg env id) := by
  refine .bind ?_ fun computed _ => ?_
  · refine .ite (.bind (ends_kvCall _) fun _ _ => .ite ?_ (.ok _)) (.ok _)
    split <;> exact .ok _
  cases computed with
  | none => exact .ok _
  | some computed =>
    refine .bind ?_ fun plan _ => ?_
    · refine .ite (.bind (ends_check ..) fun _ _ => .ok _) (.ite (.ok _) ?_)
      exact .bind (ends_check ..) fun _ _ => .bind (ends_tryEncoder ..) fun _ _ => .ok _
    obtain ⟨plan, st⟩ := plan
    cases plan with
    | none => exact .ok _
    | some plan =>
      refine .bind (.bind (ends_kvCall _) fun _ _ => .ok _) fun blocks _ => ?_
      obtain ⟨blocks, st⟩ := blocks
      cases blocks with
      | none => exact .ok _
      | some blocks =>
        refine .ite (.ok _) (.bind (.bind ?_ fun _ _ => ends_scheduleEncoder ..) fun _ _ => .ok _)
        unfold recordAdmitted
        split <;> exact ⟨nofun⟩

theorem ends_waitingBody : Ends (st.waitingBody cfg env id) := by
  refine .bind (ends_readyRemoteKv ..) fun r _ => ?_
  exact .ite (.ok _) (.ite (.ok _) (.ite (.ok _) (ends_scheduleWaiting ..)))

end

/-! ### Running requests -/

variable {st st' : Step K}

/-- A preemption takes one request out of `self.running`, and moves the index back by one at
most. -/
theorem preempt_running {victim idx idx' : ℕ} (hv : st.sched.preemptionVictim cfg = some victim)
    (h : st.preempt cfg victim idx = .ok (idx', st')) :
    st.sched.running.Perm (victim :: st'.sched.running) ∧ idx ≤ idx' + 1 := by
  obtain ⟨st₁, s, ht, hs, rfl⟩ := preempt_eq h
  obtain ⟨running, hsched, hperm, -⟩ := ht.spec hv
  obtain ⟨-, kv, -, rfl⟩ := preemptRequest_eq hs
  refine ⟨?_, ?_⟩
  · show st.sched.running.Perm (victim :: st₁.sched.running)
    rw [hsched]
    exact hperm
  · cases ht with
    | last | notScheduled => omega
    | scheduled => omega

theorem allocateRunning_running {id : ℕ} {n : ℤ}
    {blocks : Option (List (List ℕ))} (h : st.allocateRunning cfg id n = .ok (blocks, st')) :
    st'.sched.running = st.sched.running := by
  obtain ⟨kv, -, rfl⟩ := allocateRunning_eq h
  rfl

variable {fuel : ℕ}

/-- A running request takes itself out of the list at the latest when it is the last one in it. -/
theorem preemptLoop_ends {id : ℕ} {n : ℤ} : ∀ {idx : ℕ} {st : Step K}, id ∈ st.sched.running →
    st.sched.running.length ≤ fuel → Ends (preemptLoop cfg id n fuel idx st) := by
  induction fuel with
  | zero =>
    intro idx st hid hlen
    exact absurd (length_pos_of_mem hid) (by omega)
  | succ fuel ih =>
    intro idx st hid hlen
    refine .bind (ends_allocateRunning ..) fun ⟨newBlocks, st₁⟩ halloc => ?_
    have hrun := allocateRunning_running halloc
    cases newBlocks with
    | some blocks => exact .ok _
    | none =>
      dsimp only
      cases hv : st₁.sched.preemptionVictim cfg with
      | none => exact .raised _
      | some victim =>
        refine .bind (ends_preempt ..) fun ⟨idx', st₂⟩ hp => ?_
        obtain ⟨hperm, -⟩ := preempt_running hv hp
        rw [hrun] at hperm
        dsimp only
        split_ifs with hvid
        · exact .ok _
        · refine ih ((mem_cons.1 (hperm.subset hid)).resolve_left fun he => hvid he.symm) ?_
          have := hperm.length_eq
          rw [length_cons] at this
          omega

/-- A loop that ends does so with one more round. -/
theorem preemptLoop_succ {id : ℕ} {n : ℤ} : ∀ {idx : ℕ} {st : Step K},
    Ends (preemptLoop cfg id n fuel idx st) →
      preemptLoop cfg id n (fuel + 1) idx st = preemptLoop cfg id n fuel idx st := by
  induction fuel with
  | zero => exact fun h => absurd rfl h.ne
  | succ fuel ih =>
    intro idx st h
    refine bind_congr_ok fun ⟨newBlocks, st₁⟩ halloc => ?_
    replace h := h.of_bind halloc
    cases newBlocks with
    | some blocks => rfl
    | none =>
      dsimp only at h ⊢
      cases hv : st₁.sched.preemptionVictim cfg with
      | none => rfl
      | some victim =>
        rw [hv] at h
        refine bind_congr_ok fun ⟨idx', st₂⟩ hp => ?_
        replace h := h.of_bind hp
        dsimp only at h ⊢
        split_ifs at h ⊢
        · rfl
        · exact ih h

theorem runningBody_ends (idx : ℕ) (st : Step K) : Ends (st.runningBody cfg env idx) := by
  unfold runningBody
  split
  · exact .ok _
  · rename_i id hid
    refine .ite (.ok _) (.bind (ends_tryEncoder ..) fun ⟨plan, st₁⟩ htry => .ite (.ok _) ?_)
    obtain ⟨m, rfl⟩ := tryEncoder_eq cfg env htry
    refine .bind (preemptLoop_ends (mem_of_getElem? hid) le_rfl) fun ⟨newBlocks, idx', st₂⟩ _ => ?_
    cases newBlocks with
    | none => exact .ok _
    | some newBlocks => exact .bind (ends_scheduleEncoder ..) fun _ _ => .ok _

theorem Preempts.rounds {id : ℕ} {n : ℤ} {x y : ℕ × Step K} (h : Preempts cfg id n x y) :
    2 * y.2.sched.running.length + x.1 ≤ 2 * x.2.sched.running.length + y.1 := by
  induction h with
  | refl => exact le_rfl
  | round halloc hv hp _ _ ih =>
    obtain ⟨hperm, hidx⟩ := preempt_running hv hp
    have hlen := hperm.length_eq
    rw [allocateRunning_running halloc, length_cons] at hlen
    dsimp only at ih ⊢
    omega

/-- A round goes on to the next request, or takes requests out of the list. -/
theorem RunningRound.rounds {idx idx' : ℕ} (h : RunningRound cfg env idx st (.next (idx', st'))) :
    2 * st'.sched.running.length + idx + 1 ≤ 2 * st.sched.running.length + idx' := by
  cases h with
  | reachesMaxTokens => omega
  | noTokens _ htry =>
    obtain ⟨m, rfl⟩ := tryEncoder_eq cfg env htry
    exact le_rfl
  | @scheduled id idx' plan st₁ st₂ _ blocks _ _ htry _ hloop h =>
    obtain ⟨m, rfl⟩ := tryEncoder_eq cfg env htry
    have hrun' : st'.sched.running = st₂.sched.running := by
      obtain ⟨m', inputs, budget, rfl⟩ := scheduleRunning_eq h
      rfl
    cases hloop with
    | scheduled hp halloc =>
      have := hp.rounds
      rw [hrun', allocateRunning_running halloc]
      dsimp only at this
      omega

theorem runningLoop_ends : ∀ {idx : ℕ} {st : Step K}, 0 < fuel →
    2 * st.sched.running.length < fuel + idx → Ends (runningLoop cfg env fuel idx st) := by
  induction fuel with
  | zero => exact fun hpos => absurd hpos (lt_irrefl 0)
  | succ fuel ih =>
    intro idx st _ hlen
    unfold runningLoop
    split_ifs with hc
    · refine .bind (runningBody_ends idx st) fun r hr => ?_
      cases r with
      | done x => exact .ok _
      | next x =>
        have := (runningBody_round hr).rounds
        exact ih (by omega) (by omega)
    · exact .ok _

theorem runningLoop_succ : ∀ {idx : ℕ} {st : Step K}, Ends (runningLoop cfg env fuel idx st) →
      runningLoop cfg env (fuel + 1) idx st = runningLoop cfg env fuel idx st := by
  induction fuel with
  | zero => exact fun h => absurd rfl h.ne
  | succ fuel ih =>
    intro idx st h
    rw [runningLoop] at h ⊢
    rw [runningLoop]
    split_ifs at h ⊢
    · refine bind_congr_ok fun r hr => ?_
      replace h := h.of_bind hr
      cases r with
      | done x => rfl
      | next x => exact ih h
    · rfl

/-! ### Waiting requests -/

theorem waitingLoop_ends : ∀ {st : Step K}, st.sched.waiting.length < fuel →
    Ends (waitingLoop cfg env fuel st) := by
  induction fuel with
  | zero => exact fun h => absurd h (Nat.not_lt_zero _)
  | succ fuel ih =>
    intro st hlen
    unfold waitingLoop
    cases hpeek : st.sched.peekRequest cfg st.sched.waiting with
    | none => exact .ok _
    | some id =>
      refine .ite (.bind (ends_waitingBody ..) fun r hr => ?_) (.ok _)
      cases r with
      | done st' => exact .ok _
      | next st' =>
        -- a round takes the request out of `self.waiting`
        have hid := peekRequest_mem hpeek
        have hwait : st'.sched.waiting = st.sched.waiting.erase id := by
          cases waitingBody_round hr with
          | skipped _ hwait | admitted _ hwait => exact hwait
        have hpos := length_pos_of_mem hid
        refine ih ?_
        rw [hwait, length_erase_of_mem hid]
        omega

theorem waitingLoop_succ : ∀ {st : Step K}, Ends (waitingLoop cfg env fuel st) →
    waitingLoop cfg env (fuel + 1) st = waitingLoop cfg env fuel st := by
  induction fuel with
  | zero => exact fun h => absurd rfl h.ne
  | succ fuel ih =>
    intro st h
    rw [waitingLoop] at h ⊢
    rw [waitingLoop]
    cases hpeek : st.sched.peekRequest cfg st.sched.waiting with
    | none => rfl
    | some id =>
      rw [hpeek] at h
      dsimp only at h ⊢
      split_ifs at h ⊢
      · refine bind_congr_ok fun r hr => ?_
        replace h := h.of_bind hr
        cases r with
        | done st' => rfl
        | next st' => exact ih h
      · rfl

/-! ### The call -/

/-- More rounds change nothing. -/
theorem eq_of_ends {α : Type} (loop : ℕ → Except SchedulerError α) {n : ℕ}
    (hsucc : ∀ fuel, Ends (loop fuel) → loop (fuel + 1) = loop fuel) (h : Ends (loop n)) (k : ℕ) :
    loop (n + k) = loop n := by
  induction k with
  | zero => rfl
  | succ k ih => exact (hsucc (n + k) (ih ▸ h)).trans ih

/-- **The loops of `schedule` end by themselves**: in no call a loop runs out of rounds, and from every
state each loop ends and computes the same with any larger number of rounds. -/
theorem loops_end (cfg : SchedulerConfig) (env : ScheduleEnv) (s : Scheduler K) (st : Step K) (k : ℕ) :
    s.scheduleLoops cfg env ≠ .error .outOfRounds ∧
      (runningLoop cfg env (2 * st.sched.running.length + 1) 0 st ≠ .error .outOfRounds ∧
        runningLoop cfg env (2 * st.sched.running.length + 1 + k) 0 st =
          runningLoop cfg env (2 * st.sched.running.length + 1) 0 st) ∧
      (waitingLoop cfg env (st.sched.waiting.length + 1) st ≠ .error .outOfRounds ∧
        waitingLoop cfg env (st.sched.waiting.length + 1 + k) st =
          waitingLoop cfg env (st.sched.waiting.length + 1) st) ∧
      ∀ id ∈ st.sched.running, ∀ n idx,
        preemptLoop cfg id n st.sched.running.length idx st ≠ .error .outOfRounds ∧
          preemptLoop cfg id n (st.sched.running.length + k) idx st =
            preemptLoop cfg id n st.sched.running.length idx st := by
  have hrunning := fun st : Step K => @runningLoop_ends K _ cfg env
    (2 * st.sched.running.length + 1) 0 st (Nat.succ_pos _) (Nat.lt_succ_self _)
  have hwaiting := fun st : Step K => @waitingLoop_ends K _ cfg env _ st (Nat.lt_succ_self _)
  refine ⟨Ends.ne ?_, ⟨(hrunning st).ne, ?_⟩, ⟨(hwaiting st).ne, ?_⟩, fun id hid n idx => ?_⟩
  · refine .bind (hrunning _) fun _ _ => .bind ?_ fun _ _ => .bind (.ite (hwaiting _) (.ok _))
      fun _ _ => .bind ?_ fun _ _ => .ok _
    · unfold recordLoras
      split
      · exact .ok _
      · exact .bind (ends_check ..) fun _ _ => .ok _
    · exact .bind (ends_check ..) fun _ _ => .bind (ends_check ..) fun _ _ =>
        .bind (ends_check ..) fun _ _ => ends_check ..
  · exact eq_of_ends (runningLoop cfg env · 0 st) (fun _ => runningLoop_succ) (hrunning st) k
  · exact eq_of_ends (waitingLoop cfg env · st) (fun _ => waitingLoop_succ) (hwaiting st) k
  · have hends := @preemptLoop_ends K _ cfg st.sched.running.length id n idx st hid le_rfl
    exact ⟨hends.ne, eq_of_ends (preemptLoop cfg id n · idx st) (fun _ => preemptLoop_succ) hends k⟩

/-- Two running requests, at the beginning of a call. -/
def twoRunning : Step (HashedKVCacheManager smallHasher) := start smallConfig
  { Scheduler.new smallKVCacheManager ⟨false, 0, 0, ∅, ∅, []⟩
      (fun _ => .fromEngineCoreRequest smallRequest) with running := [0, 1] }

/-- The first of them may have to preempt the other one and itself. -/
theorem loops_end_two : preemptLoop smallConfig 0 4 2 0 twoRunning ≠ .error .outOfRounds ∧
    preemptLoop smallConfig 0 4 5 0 twoRunning = preemptLoop smallConfig 0 4 2 0 twoRunning :=
  (loops_end smallConfig smallEnv twoRunning.sched twoRunning 3).2.2.2 0 (.head _) 4 0

end Step

end LoptVllm.Sched
