import LoptVllm.BatchQueue.Order
import LoptVllm.Sched.Placeholders

/-!
# The bitmasks of the batches

The bitmask of a batch depends on the tokens of its structured-output requests. `AsyncScheduler`
knows when some of them are in flight, and the engine then defers the sampling of the batch. The
base scheduler never says so: it relies on not scheduling a request with a token in flight, which it
does after such a request was preempted, or got draft tokens.
-/

namespace LoptVllm

open List Option

namespace Sched

variable {K : Type} [KVCacheManagerOps K] {cfg : SchedulerConfig}

/-- `update_from_output` does not look at the draft tokens, only at their number. -/
theorem Scheduler.updateFromOutput_congr {requestFinished : RequestFinished} (s : Scheduler K)
    {out out' : SchedulerOutput} {result : ModelRunnerOutput}
    (hkeys : out'.numScheduledTokens = out.numScheduledTokens)
    (hdrafts : ∀ id, out'.numDraftTokens id = out.numDraftTokens id) :
    s.updateFromOutput cfg requestFinished out' result =
      s.updateFromOutput cfg requestFinished out result := by
  have hbody : ∀ failed, updateBody (K := K) cfg requestFinished out' result failed =
      updateBody cfg requestFinished out result failed := by
    intro failed
    unfold updateBody updateRequest
    simp [hdrafts]
  unfold updateFromOutput
  simp [hkeys, hbody]

namespace Engine

/-- What holds of every unfinished structured-output request in a run whose calls are settled. -/
structure Invariant (cfg : SchedulerConfig) (e : Engine K) : Prop where
  lastRuns : e.Each LastRuns
  caught : cfg.isAsync = false → e.Each (Caught cfg)
  placed : cfg.isAsync = true → e.Each (Placed cfg)

theorem Run.settled {e : Engine K} (h : Run cfg (fun e call => e.CallsSettled cfg call) e) :
    e.Invariant cfg := by
  refine h.invariant ?_ ?_
  · intro kv encoder heap
    have hnone : ∀ I : List InFlight → ℕ → Request → Prop, (Engine.new kv encoder heap).Each I :=
      fun I id hid => absurd hid (Finset.notMem_empty id)
    exact ⟨hnone _, fun _ => hnone _, fun _ => hnone _⟩
  · intro e e' call hq ha hI hcall hP hs
    refine ⟨hs.lastRuns hcall hq ha ?_ ?_ hI.lastRuns,
      fun hbase => hs.caught hbase hcall hq ha hP (hI.caught hbase),
      fun hasync => hs.placed hasync hcall hq ha hP (hI.placed hasync)⟩
    · rintro a b c rfl
      exact hP
    · rintro requestFinished result rfl
      exact hP.2

end Engine

end Sched

namespace BatchQueue

open Sched

variable {K : Type} [KVCacheManagerOps K] {c : EngineConfig} {w : Worker c}

/-- No token of a structured-output request of the batch is in flight when the bitmask is computed:
none is sampled by a batch whose output has not been processed. -/
def BitmaskCall.Fresh (m : BitmaskCall) : Prop :=
  ∀ x ∈ m.unprocessed, ∀ id ∈ m.schedulerOutput.numScheduledTokens,
    (m.heap id).useStructuredOutput = true → ¬ x.Samples id

instance (m : BitmaskCall) : Decidable m.Fresh :=
  decidable_of_iff (∀ x ∈ m.unprocessed, ∀ id ∈ m.schedulerOutput.numScheduledTokens.keys,
    (m.heap id).useStructuredOutput = true → ¬ x.Samples id) Iff.rfl

/-- No output of the worker reports blocks whose load failed. -/
def Worker.LoadsAll (w : Worker c) : Prop :=
  ∀ {future x modelOutput}, w.result future x = some modelOutput →
    Scheduler.NoInvalidBlocks modelOutput

namespace EngineCore

/-- Every structured-output request is ready for a step. While it waits, it has room for another
token, and no batch in the queue samples for it; this needs no condition if the queue is of length
two. With the base scheduler, a request for which a batch in the queue samples has no draft tokens,
neither its own nor in that batch. -/
def Settled (c : EngineConfig) (e : EngineCore K) : Call → Prop
  | .processEngineStep _ => ∀ id ∈ e.scheduler.ids,
    (e.scheduler.heap id).useStructuredOutput = true → (e.scheduler.heap id).isFinished = false →
      (id ∈ e.scheduler.waiting → (e.scheduler.heap id).numTokens < c.cfg.maxModelLen ∧
        (2 < c.batchQueueSize → ∀ b ∈ e.batchQueue, ¬ b.inFlight.Samples id)) ∧
      (c.cfg.isAsync = false → ∀ b ∈ e.batchQueue, b.inFlight.Samples id →
        (e.scheduler.heap id).specTokenIds = [] ∧ b.inFlight.out.numDraftTokens id = 0)
  | .addRequest _ _ | .abortRequests _ _ => True

instance (c : EngineConfig) (e : EngineCore K) (call : Call) : Decidable (e.Settled c call) :=
  match call with
  | .processEngineStep _ => inferInstanceAs (Decidable (∀ id ∈ e.scheduler.ids, _ = _ → _ = _ →
      (_ → _ ∧ (_ → ∀ b ∈ e.batchQueue, _)) ∧ (_ → ∀ b ∈ e.batchQueue, _ → _)))
  | .addRequest _ _ | .abortRequests _ _ => inferInstanceAs (Decidable True)

/-- The engine with its deferred batch is in the state of a scheduler with steps in flight. -/
def Tracks (c : EngineConfig) (e : EngineCore K) (deferred : Option ExecutedBatch) : Prop :=
  ∃ E : Engine K, Engine.Run c.cfg (fun e call => e.CallsSettled c.cfg call) E ∧
    E.sched = e.scheduler ∧ E.added = e.added ∧
    E.inFlight = (e.batchQueue.map fun b => b.inFlight) ++ deferred.toList.map fun b => b.inFlight

variable {e : EngineCore K} {env : StepEnv}

omit [KVCacheManagerOps K] in
/-- With a queue of length two, a waiting request has no token in flight. -/
theorem settled_each {E : Engine K} (hq : E.sched.Queued) (hlast : E.Each Engine.LastRuns)
    (hsched : E.sched = e.scheduler) (hinFlight : E.inFlight = e.batchQueue.map fun b => b.inFlight)
    (hlen : e.batchQueue.length < c.batchQueueSize)
    (hs : e.Settled c (.processEngineStep env)) : E.Each (Sched.Settled c.cfg) := by
  intro id hid hstruct hfin
  have hpending := hlast id hid hstruct hfin
  rw [hsched] at hq hid hstruct hfin hpending ⊢
  rw [hinFlight] at hpending ⊢
  obtain ⟨hwaiting, hdrafts⟩ := hs id hid hstruct hfin
  refine ⟨fun hwaits => (hwaiting (hq.mem_waiting_iff.2 ⟨hid, hwaits⟩)).1,
    fun hwaits x hx hsamp => ?_, fun hbase x hx hsamp => ?_⟩
  · obtain ⟨b, hb, rfl⟩ := mem_map.1 hx
    by_cases hsize : 2 < c.batchQueueSize
    · exact (hwaiting (hq.mem_waiting_iff.2 ⟨hid, hwaits⟩)).2 hsize b hb hsamp
    · obtain ⟨b', hqueue⟩ := length_eq_one_iff.1 (le_antisymm (by omega) (length_pos_of_mem hb))
      rw [hqueue] at hb hpending
      rw [mem_singleton.1 hb] at hsamp
      exact hpending _ rfl hsamp.1 hwaits
  · obtain ⟨b, hb, rfl⟩ := mem_map.1 hx
    exact hdrafts hbase b hb hsamp

/-! ### The parts of a step -/

variable {deferred : Option ExecutedBatch}

/-- A call of the scheduler that leaves the steps in flight as they are. -/
theorem Tracks.call (ht : e.Tracks c deferred) (call : EngineCall) (s : Scheduler K)
    (added : Finset ℕ) (hcall : ∀ E : Engine K, E.sched = e.scheduler → E.added = e.added →
      E.Admissible call ∧ E.CallsSettled c.cfg call ∧ E.step c.cfg call = .ok { E with
        sched := s
        added := added }) : EngineCore.Tracks c { e with
      scheduler := s
      added := added } deferred := by
  obtain ⟨E, hrun, hsched, hadded, hinFlight⟩ := ht
  obtain ⟨hadm, hsettled, hstep⟩ := hcall E hsched hadded
  exact ⟨_, hrun.step hadm hsettled hstep, rfl, rfl, hinFlight⟩

theorem Tracks.finishRequests (ht : e.Tracks c deferred) {requestFinished : RequestFinished}
    {requestIds : List ℕ} {finishedStatus : RequestStatus} {s : Scheduler K}
    (h : e.scheduler.finishRequests c.cfg requestFinished requestIds finishedStatus = .ok s) :
    EngineCore.Tracks c { e with scheduler := s } deferred := by
  refine ht.call (.finishRequests requestFinished requestIds finishedStatus) s e.added ?_
  intro E hsched hadded
  refine ⟨trivial, trivial, ?_⟩
  rw [← hadded]
  exact bind_ok.2 ⟨s, hsched ▸ h, rfl⟩

variable {e' : EngineCore K} {batch : ExecutedBatch}

section

variable (ht : e.Tracks c none) (hlen : e.batchQueue.length < c.batchQueueSize)
  (hs : e.Settled c (.processEngineStep env)) (hexec : e.executeBatch c env = .ok (e', batch))

include ht hlen hs hexec

theorem Tracks.executeBatch : e'.Tracks c (some batch) := by
  obtain ⟨E, hrun, hsched, hadded, hinFlight⟩ := ht
  rw [toList_none, map_nil, append_nil] at hinFlight
  obtain ⟨out, s, hschedule, rfl, rfl⟩ := executeBatch_eq hexec
  have hadm : E.Admissible (.schedule env.schedule) := trivial
  have hsettled : E.CallsSettled c.cfg (.schedule env.schedule) :=
    settled_each hrun.reachable.1.queued.1 hrun.settled.lastRuns hsched hinFlight hlen hs
  have hstep : E.step c.cfg (.schedule env.schedule) = .ok { E with
      sched := s
      inFlight := E.inFlight ++ [⟨out.toSchedulerOutput, s.heap, ∅⟩] } :=
    bind_ok.2 ⟨_, hsched ▸ scheduleBatch_eq hschedule, rfl⟩
  refine ⟨_, hrun.step hadm hsettled hstep, rfl, hadded, ?_⟩
  rw [hinFlight]
  rfl

/-- The flag of the batch that is scheduled next tells whether a token of one of its
structured-output requests is in flight: it does if it is set, and none is if it is not set. -/
theorem Tracks.pending : (batch.schedulerOutput.pendingStructuredOutputTokens = true →
        c.cfg.isAsync = true ∧ e.batchQueue ≠ []) ∧
      (batch.schedulerOutput.pendingStructuredOutputTokens = false →
        BitmaskCall.Fresh ⟨batch.schedulerOutput, e'.scheduler.heap,
          e'.batchQueue.map fun b => b.inFlight⟩) := by
  obtain ⟨E, hrun, hsched, hadded, hinFlight⟩ := ht
  rw [toList_none, map_nil, append_nil] at hinFlight
  obtain ⟨out, s, hschedule, rfl, rfl⟩ := executeBatch_eq hexec
  have hI := hrun.settled
  have hq : E.sched.Queued := hrun.reachable.1.queued.1
  have hsettled : E.Each (Sched.Settled c.cfg) :=
    settled_each hq hI.lastRuns hsched hinFlight hlen hs
  rw [← hsched] at hschedule
  obtain ⟨st, hschedules⟩ := Scheduler.schedule_eq hq.running_nodup (scheduleBatch_eq hschedule)
  obtain ⟨hids, -, hframe⟩ := hschedules.frame hq
  -- the scheduled requests are in the scheduler, and have not finished
  have hmem : ∀ id ∈ out.numScheduledTokens,
      id ∈ E.sched.ids ∧ (E.sched.heap id).isFinished = false := by
    refine fun id hid => ⟨?_, ?_⟩
    · by_contra hnot
      exact (hframe id (.inl hnot)).1 hid
    · by_contra hnot
      exact (hframe id (.inr (eq_true_of_ne_false hnot))).1 hid
  refine ⟨fun hflag => ?_, fun hflag x hx id hid hstruct hsamp => ?_⟩
  · obtain ⟨hasync, id, hid, hstruct, hpos⟩ := (pending_iff hq hschedule).1 hflag
    obtain ⟨hid', hfin⟩ := hmem id hid
    have hplaced := hI.placed hasync id hid' hstruct hfin
    obtain ⟨x, hx, -⟩ := hplaced.placeholders_pos_iff.1 hpos
    rw [hinFlight] at hx
    obtain ⟨b, hb, -⟩ := mem_map.1 hx
    exact ⟨hasync, ne_nil_of_mem hb⟩
  · dsimp only at hx hid hstruct hflag
    rw [← hinFlight] at hx
    obtain ⟨hid', hfin⟩ := hmem id hid
    have hstruct : (E.sched.heap id).useStructuredOutput = true := by
      rw [← hschedules.toEngineCoreRequest hq]
      exact hstruct
    cases hasync : c.cfg.isAsync with
    | false =>
      have hnone := hschedules.notMem_of_pending hq hasync (hsettled id hid' hstruct hfin)
        (hI.caught hasync id hid' hstruct hfin) hx hsamp
      exact AList.lookup_eq_none.1 hnone hid
    | true =>
      have hpos := (hI.placed hasync id hid' hstruct hfin).placeholders_pos_iff.2 ⟨x, hx, hsamp⟩
      rw [(pending_iff hq hschedule).2 ⟨hasync, id, hid, hstruct, hpos⟩] at hflag
      cases hflag

end

theorem Tracks.append (ht : e.Tracks c (some batch)) (out : BatchOutput) (future : ModelFuture) :
    (e.append { batch with schedulerOutput := out } future).Tracks c none := by
  obtain ⟨E, hrun, hsched, hadded, hinFlight⟩ := ht
  refine ⟨E, hrun, hsched, hadded, ?_⟩
  rw [hinFlight]
  unfold EngineCore.append
  rw [map_append, toList_none, map_nil, append_nil]
  rfl

/-- The output of the oldest batch is processed, after the requests that have been aborted in the
meantime. -/
theorem Tracks.processOldest {outputs : List EngineCoreOutput} (ht : e.Tracks c deferred)
    (hmodel : c.isEcProducer = false) (hloads : w.LoadsAll) (horder : e.InOrder w deferred)
    (hold : e.processOldest w env = .ok (e', outputs)) : e'.Tracks c deferred := by
  obtain ⟨b, batchQueue, modelOutput, s, s', hq, hresult, haborts, hupdate, rfl⟩ :=
    processOldest_eq hold
  have haborted : EngineCore.Tracks c { e with scheduler := s } deferred := by
    unfold processAbortsQueue at haborts
    split_ifs at haborts with hempty
    · cases haborts
      exact ht
    · exact ht.finishRequests haborts
  obtain ⟨E, hrun, hsched, hadded, hinFlight⟩ := haborted
  rw [hq, map_cons, cons_append] at hinFlight
  have hmem : b ∈ e.batches := mem_append_right _ (hq ▸ mem_cons_self)
  have hfills := horder.own b hmem
  have hsettled : E.CallsSettled c.cfg (.updateFromOutput env.requestFinished modelOutput) := by
    refine ⟨fun x hx => ?_, hloads hresult⟩
    rw [hinFlight] at hx
    cases hx
    exact w.generates hresult hmodel
  have hupdate' : E.sched.updateFromOutput c.cfg env.requestFinished b.inFlight.out modelOutput =
      .ok (s', outputs) := by
    rw [hsched, ← Scheduler.updateFromOutput_congr s hfills.numScheduledTokens
      hfills.numDraftTokens]
    exact hupdate
  have hadm : E.Admissible (.updateFromOutput env.requestFinished modelOutput) := trivial
  have hstep : E.step c.cfg (.updateFromOutput env.requestFinished modelOutput) = .ok { E with
      sched := s'
      inFlight := (batchQueue.map fun b => b.inFlight) ++ deferred.toList.map fun b => b.inFlight
      appended := Engine.appendOrigins b.inFlight E.sched s' E.appended } := by
    unfold Engine.step
    rw [hinFlight]
    exact bind_ok.2 ⟨_, hupdate', rfl⟩
  exact ⟨_, hrun.step hadm hsettled hstep, rfl, hadded, rfl⟩

end EngineCore

end BatchQueue

end LoptVllm
