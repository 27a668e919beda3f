import LoptVllm.Sched.Partition

/-!
# Steps in flight

The engine schedules a step before the outputs of earlier steps have come back. The outputs come
back in the order in which the steps were scheduled.
-/

namespace LoptVllm.Sched

open Finset List Scheduler

variable {K : Type} [KVCacheManagerOps K] (cfg : SchedulerConfig)

/-- A step in flight: what was scheduled, the requests as they were then, and those that a reset has
preempted since. -/
structure InFlight where
  out : SchedulerOutput
  heap : ℕ → Request
  reset : Finset ℕ

/-- Where an output token comes from: the end of the range of the step that sampled it, and the
tokens of the request when the step was scheduled. -/
structure Origin where
  rangeEnd : ℤ
  known : List ℕ
  deriving DecidableEq

namespace InFlight

variable (x : InFlight) (id : ℕ)

/-- The origin of the tokens that the step samples for a request. -/
def origin : Origin := ⟨(x.heap id).numComputedTokens, (x.heap id).allTokenIds⟩

/-- The range of a request reaches the end of its tokens, and a token is sampled for it. -/
def Samples : Prop := id ∈ x.out.numScheduledTokens ∧ (x.heap id).isPooling = false ∧
    ((x.heap id).numTokens : ℤ) ≤ (x.heap id).numComputedTokens

instance : Decidable (x.Samples id) := inferInstanceAs (Decidable (_ ∧ _))

/-- The step, after a reset has preempted some requests. -/
def markReset (ids : Finset ℕ) : InFlight := { x with reset := x.reset ∪ ids }

end InFlight

/-- The scheduler, the steps in flight in the order in which they were scheduled, the ids of the
requests added so far, and the origins of their output tokens. -/
structure Engine (K : Type) where
  sched : Scheduler K
  inFlight : List InFlight
  added : Finset ℕ
  appended : ℕ → List Origin

/-- The number of tokens that the worker has sampled for a request. -/
def ModelRunnerOutput.numSampled (result : ModelRunnerOutput) (id : ℕ) : ℕ :=
  match result.get id with
  | .ok (generated, _) => generated.length
  | .error _ => 0

/-- A call of the engine. `update_from_output` gets the first step in flight. -/
inductive EngineCall
  | addRequest (id : ℕ) (request : EngineCoreRequest)
  | schedule (env : ScheduleEnv)
  | updateFromOutput (requestFinished : RequestFinished) (result : ModelRunnerOutput)
  | finishRequests (requestFinished : RequestFinished) (requestIds : List ℕ)
      (finishedStatus : RequestStatus)
  | updateDraftTokenIds (validateTokens : ℕ → List ℤ → List ℤ) (draftTokenIds : List (ℕ × List ℤ))
  | resetPrefixCache (resetRunningRequests resetConnector connectorReset : Bool)

namespace Engine

/-- The origins of the output tokens, after the output of the step `x` was processed. -/
def appendOrigins (x : InFlight) (s s' : Scheduler K) (appended : ℕ → List Origin) (id : ℕ) :
    List Origin :=
  appended id ++ List.replicate ((s'.heap id).numOutputTokens - (s.heap id).numOutputTokens)
    (x.origin id)

/-- The engine after a call. -/
def step (e : Engine K) : EngineCall → Except SchedulerError (Engine K)
  | .addRequest id request =>
    .ok { e with sched := e.sched.addRequest id request, added := insert id e.added }
  | .schedule env => do
    let (out, s) ← e.sched.schedule cfg env
    return { e with sched := s, inFlight := e.inFlight ++ [⟨out, s.heap, ∅⟩] }
  | .updateFromOutput requestFinished result =>
    match e.inFlight with
    | [] => .error (.raised (.indexError "pop from an empty deque"))
    | x :: inFlight => do
      let (s, _) ← e.sched.updateFromOutput cfg requestFinished x.out result
      return { e with
        sched := s
        inFlight := inFlight
        appended := appendOrigins x e.sched s e.appended }
  | .finishRequests requestFinished requestIds finishedStatus => do
    let s ← e.sched.finishRequests cfg requestFinished requestIds finishedStatus
    return { e with sched := s }
  | .updateDraftTokenIds validateTokens draftTokenIds =>
    .ok { e with sched := e.sched.updateDraftTokenIds validateTokens draftTokenIds }
  | .resetPrefixCache resetRunningRequests resetConnector connectorReset => do
    let (_, s) ← e.sched.resetPrefixCache resetRunningRequests resetConnector connectorReset
    return { e with
      sched := s
      inFlight := e.inFlight.map fun x =>
        x.markReset (if resetRunningRequests then e.sched.running.toFinset else ∅) }

/-- Ids are not used a second time. -/
def Admissible (e : Engine K) : EngineCall → Prop
  | .addRequest id _ => id ∉ e.added
  | _ => True

instance (e : Engine K) (call : EngineCall) : Decidable (e.Admissible call) := match call with
  | .addRequest id _ => inferInstanceAs (Decidable (id ∉ e.added))
  | .schedule _ | .updateFromOutput _ _ | .finishRequests _ _ _ | .updateDraftTokenIds _ _
  | .resetPrefixCache _ _ _ => inferInstanceAs (Decidable True)

/-- An engine without requests. -/
def new (kv : K) (encoder : EncoderCacheManager) (heap : ℕ → Request) : Engine K :=
  ⟨.new kv encoder heap, [], ∅, fun _ => []⟩

/-- The engine with three blocks. -/
def smallEngine : Engine (HashedKVCacheManager smallHasher) :=
  new smallKVCacheManager ⟨false, 0, 0, ∅, ∅, []⟩ fun _ => .fromEngineCoreRequest smallRequest

/-- The engine at the end of a run whose calls all meet the condition `P`. -/
inductive Run (P : Engine K → EngineCall → Prop) : Engine K → Prop
  | new (kv : K) (encoder : EncoderCacheManager) (heap : ℕ → Request) : Run P (new kv encoder heap)
  | step {e e' : Engine K} {call : EngineCall} (h : Run P e) (hcall : e.Admissible call)
      (hP : P e call) (hs : e.step cfg call = .ok e') : Run P e'

/-- A sequence of calls that are all admissible and meet the condition. -/
def runCalls (P : Engine K → EngineCall → Prop) [∀ e call, Decidable (P e call)] :
    List EngineCall → Engine K → Except SchedulerError (Engine K)
  | [], e => .ok e
  | call :: calls, e =>
    if e.Admissible call ∧ P e call then do
      let e ← e.step cfg call
      runCalls P calls e
    else .error (.assertion "the call is admissible and meets the condition")

variable {cfg} {P : Engine K → EngineCall → Prop}

theorem Run.runCalls [∀ e call, Decidable (P e call)] {calls : List EngineCall} :
    ∀ {e e' : Engine K}, Run cfg P e → runCalls cfg P calls e = .ok e' → Run cfg P e' := by
  induction calls with
  | nil =>
    intro e e' h hrun
    cases hrun
    exact h
  | cons call calls ih =>
    intro e e' h hrun
    unfold Engine.runCalls at hrun
    split_ifs at hrun with hc
    obtain ⟨e₁, hs, hrun⟩ := bind_ok.1 hrun
    exact ih (h.step hc.1 hc.2 hs) hrun

/-- What a call does. -/
inductive Steps (cfg : SchedulerConfig) (e : Engine K) : EngineCall → Engine K → Prop
  | addRequest {id : ℕ} {request : EngineCoreRequest} : Steps cfg e (.addRequest id request)
      { e with sched := e.sched.addRequest id request, added := insert id e.added }
  | schedule {env : ScheduleEnv} {out : SchedulerOutput} {s : Scheduler K}
      (h : e.sched.schedule cfg env = .ok (out, s)) : Steps cfg e (.schedule env)
      { e with sched := s, inFlight := e.inFlight ++ [⟨out, s.heap, ∅⟩] }
  | updateFromOutput {x : InFlight} {inFlight : List InFlight} {requestFinished : RequestFinished}
      {result : ModelRunnerOutput} {s : Scheduler K} {outputs : List EngineCoreOutput}
      (hx : e.inFlight = x :: inFlight)
      (h : e.sched.updateFromOutput cfg requestFinished x.out result = .ok (s, outputs)) :
      Steps cfg e (.updateFromOutput requestFinished result) { e with
        sched := s
        inFlight := inFlight
        appended := appendOrigins x e.sched s e.appended }
  | finishRequests {requestFinished : RequestFinished} {requestIds : List ℕ}
      {finishedStatus : RequestStatus} {s : Scheduler K}
      (h : e.sched.finishRequests cfg requestFinished requestIds finishedStatus = .ok s) :
      Steps cfg e (.finishRequests requestFinished requestIds finishedStatus) { e with sched := s }
  | updateDraftTokenIds {validateTokens : ℕ → List ℤ → List ℤ}
      {draftTokenIds : List (ℕ × List ℤ)} :
      Steps cfg e (.updateDraftTokenIds validateTokens draftTokenIds)
        { e with sched := e.sched.updateDraftTokenIds validateTokens draftTokenIds }
  | resetPrefixCache {resetRunning resetConnector connectorReset success : Bool}
      {s : Scheduler K}
      (h : e.sched.resetPrefixCache resetRunning resetConnector connectorReset = .ok (success, s)) :
      Steps cfg e (.resetPrefixCache resetRunning resetConnector connectorReset) { e with
        sched := s
        inFlight := e.inFlight.map fun x =>
          x.markReset (if resetRunning then e.sched.running.toFinset else ∅) }

variable {e e' : Engine K} {call : EngineCall}

theorem step_spec (h : e.step cfg call = .ok e') : Steps cfg e call e' := by
  cases call with
  | addRequest id request =>
    cases h
    exact .addRequest
  | schedule env =>
    obtain ⟨⟨out, s⟩, hs, h⟩ := bind_ok.1 h
    cases h
    exact .schedule hs
  | updateFromOutput requestFinished result =>
    unfold step at h
    cases hx : e.inFlight with
    | nil =>
      rw [hx] at h
      cases h
    | cons x inFlight =>
      rw [hx] at h
      obtain ⟨⟨s, outputs⟩, hs, h⟩ := bind_ok.1 h
      cases h
      exact .updateFromOutput hx hs
  | finishRequests requestFinished requestIds finishedStatus =>
    obtain ⟨s, hs, h⟩ := bind_ok.1 h
    cases h
    exact .finishRequests hs
  | updateDraftTokenIds validateTokens draftTokenIds =>
    cases h
    exact .updateDraftTokenIds
  | resetPrefixCache resetRunning resetConnector connectorReset =>
    obtain ⟨⟨success, s⟩, hs, h⟩ := bind_ok.1 h
    cases h
    exact .resetPrefixCache hs

/-- A call of the engine is a call of the scheduler. -/
theorem Steps.scheduler (h : Steps cfg e call e') (hcall : e.Admissible call)
    (hids : e.sched.ids ⊆ e.added) : ∃ c, e.sched.Admissible c ∧ e.sched.step cfg c = .ok e'.sched ∧
      e'.added = e.added ∪ Scheduler.added c := by
  cases h with
  | @addRequest id request =>
    refine ⟨.addRequest id request, fun hmem => hcall (hids hmem), rfl, ?_⟩
    rw [union_comm]
    rfl
  | @schedule env _ _ h =>
    exact ⟨.schedule env, trivial, map_eq_ok.2 ⟨_, h, rfl⟩, (union_empty _).symm⟩
  | @updateFromOutput x _ requestFinished result _ _ hx h =>
    exact ⟨.updateFromOutput requestFinished x.out result, trivial, map_eq_ok.2 ⟨_, h, rfl⟩,
      (union_empty _).symm⟩
  | @finishRequests requestFinished requestIds finishedStatus _ h =>
    exact ⟨.finishRequests requestFinished requestIds finishedStatus, trivial, h,
      (union_empty _).symm⟩
  | @updateDraftTokenIds validateTokens draftTokenIds =>
    exact ⟨.updateDraftTokenIds validateTokens draftTokenIds, trivial, rfl, (union_empty _).symm⟩
  | @resetPrefixCache resetRunning resetConnector connectorReset _ _ h =>
    exact ⟨.resetPrefixCache resetRunning resetConnector connectorReset, trivial,
      map_eq_ok.2 ⟨_, h, rfl⟩, (union_empty _).symm⟩

/-- The requests of `self.requests`, and those of the steps in flight, have been added. -/
structure AllAdded (e : Engine K) : Prop where
  ids : e.sched.ids ⊆ e.added
  scheduled : ∀ x ∈ e.inFlight, ∀ id ∈ x.out.numScheduledTokens, id ∈ e.added

theorem Steps.allAdded (h : Steps cfg e call e') (hq : e.sched.Queued)
    (ha : e.AllAdded) : e'.AllAdded := by
  cases h with
  | addRequest =>
    exact ⟨insert_subset_insert _ ha.ids,
      fun x hx id hid => mem_insert_of_mem (ha.scheduled x hx id hid)⟩
  | @schedule env out s h =>
    obtain ⟨st, hs⟩ := Scheduler.schedule_eq hq.running_nodup h
    obtain ⟨-, hids, -⟩ := hs.moves.queued hq
    have hids : s.ids = e.sched.ids := by
      obtain ⟨encoder, rfl⟩ := hs.state
      exact hids
    refine ⟨hids ▸ ha.ids, fun x hx id hid => ?_⟩
    rcases mem_append.1 hx with hx | hx
    · exact ha.scheduled x hx id hid
    · rw [List.mem_singleton.1 hx] at hid
      refine ha.ids (hids ▸ ?_)
      obtain ⟨encoder, rfl⟩ := hs.state
      refine hs.ids id ?_
      rw [← show out.numScheduledTokens = st.numScheduledTokens from hs.output.numScheduledTokens]
      exact hid
  | updateFromOutput hx h =>
    obtain ⟨failed, s₁, u, s₃, hupd⟩ := Scheduler.updateFromOutput_eq h
    refine ⟨hupd.ids.trans ha.ids, fun x hmem => ha.scheduled x ?_⟩
    rw [hx]
    exact .tail _ hmem
  | finishRequests h => exact ⟨(finishRequests_ids h).trans ha.ids, ha.scheduled⟩
  | @updateDraftTokenIds validateTokens draftTokenIds =>
    obtain ⟨spec, heq, -⟩ := updateDraftTokenIds_eq validateTokens draftTokenIds e.sched
    rw [heq]
    exact ⟨ha.ids, ha.scheduled⟩
  | resetPrefixCache h =>
    refine ⟨?_, fun x hx => ?_⟩
    · obtain ⟨-, kv, rfl⟩ | ⟨-, -, kv, encoder, rfl⟩ := resetPrefixCache_eq hq.running_nodup h
      · exact ha.ids
      · exact ha.ids
    · obtain ⟨x₀, hx₀, rfl⟩ := mem_map.1 hx
      exact ha.scheduled x₀ hx₀

/-- A run of the engine is a run of the scheduler. -/
theorem Run.reachable (h : Run cfg P e) : Reachable cfg e.added e.sched ∧ e.AllAdded := by
  induction h with
  | new kv encoder heap =>
    exact ⟨.new kv encoder heap, empty_subset _, nofun⟩
  | step _ hcall _ hs ih =>
    obtain ⟨hr, ha⟩ := ih
    have hs := step_spec hs
    obtain ⟨c, hc, hstep, hadded⟩ := hs.scheduler hcall ha.ids
    rw [hadded]
    exact ⟨hr.step hc hstep, hs.allAdded hr.queued.1 ha⟩

/-- What every call of a run preserves holds at the end of the run. -/
theorem Run.invariant {I : Engine K → Prop} (h : Run cfg P e)
    (hnew : ∀ kv encoder heap, I (Engine.new kv encoder heap))
    (hstep : ∀ {e e' : Engine K} {call : EngineCall}, e.sched.Queued → e.AllAdded → I e →
      e.Admissible call → P e call → Steps cfg e call e' → I e') : I e := by
  induction h with
  | new kv encoder heap => exact hnew kv encoder heap
  | step h hcall hP hs ih =>
    obtain ⟨hr, ha⟩ := h.reachable
    exact hstep hr.queued.1 ha ih hcall hP (step_spec hs)

end Engine

end LoptVllm.Sched
