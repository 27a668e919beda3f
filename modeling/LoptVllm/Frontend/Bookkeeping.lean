import LoptVllm.Frontend.Made

/-!
# The bookkeeping of the output processor

Four paths of the code end a request: it finishes in the engine, it completes a stop string, or it is
aborted by its internal or by its external id.
-/

namespace LoptVllm.Frontend

open List Option Function OrderedDict OutputProcessor RequestState ParentRequest

variable {α L : Type}

/-- What waits in the collector of a request: an output with its own list, or the aggregator of its
parent. -/
def QueueOk (aggregated : Option RequestId) (logprobs : Bool) (out : Option (Output α L)) : Prop :=
  ∀ o, out = some (.completion o) → match aggregated with
    | none => ∃ cs : List (CompletionOutput α L), o.outputs = .own (cs.map some) ∧
        ∀ c ∈ cs, c.logprobs.isSome = logprobs
    | some P => o.outputs = .aggregator P

/-- The parent whose aggregator is put into the collector of a parallel sampling request. -/
def FanOut.aggregated (fo : FanOut α) (P : RequestId) : Option RequestId :=
  if fo.request.outputKind = .finalOnly then some P else none

/-- The parent of a parallel sampling request. -/
structure ParentOk (P : RequestId) (fo : FanOut α) (q : ParentRequest α L) : Prop where
  outputKind : q.outputKind = fo.request.outputKind
  length : fo.request.outputKind = .finalOnly → q.outputAggregator.length = fo.request.n
  filled : fo.request.outputKind = .finalOnly → ∀ i < fo.idx, .child i P ∉ q.childRequests →
    ∃ c, q.outputAggregator[i]? = some (some c)
  index : ∀ i (c : CompletionOutput α L), q.outputAggregator[i]? = some (some c) → c.index = i

/-- A parallel sampling request. -/
structure FanOutOk (p : OutputProcessor α L) (P : RequestId) (fo : FanOut α) : Prop where
  assigned : ∃ n, P = .assigned n
  notRunning : p.requestStates.lookup P = none
  detokenizer : fo.request.detokenizer.isSome
  idx_le : fo.idx ≤ fo.request.n
  queue : ∀ q ∈ fo.queue, q = P ∧ QueueOk (fo.aggregated P) fo.request.logprobs (p.queues P).output ∧
    (p.queues P).aggregate = decide (fo.request.outputKind = .delta)
  parent : ParentOk P fo (p.shared.parents P)

/-- A request that runs. -/
structure StateOk (fanOuts : RequestId → Option (FanOut α)) (p : OutputProcessor α L)
    (id : RequestId) (s : RequestState α) : Prop where
  requestId : s.requestId = id
  pooling : s.detokenizer = none →
    s.streamInterval ≤ 1 ∧ s.hasPromptTokenIds = true ∧ s.parentReq = none
  single : s.parentReq = none → fanOuts id = none ∧ (∃ n, id = .assigned n) ∧
    ∀ q ∈ s.queue, q = id ∧ QueueOk none s.logprobs (p.queues id).output
  child : ∀ P, s.parentReq = some P → ∃ fo, fanOuts P = some fo ∧ id = .child s.requestIndex P ∧
    s.requestIndex < fo.idx ∧ s.outputKind = fo.request.outputKind ∧
    s.logprobs = fo.request.logprobs ∧ s.queue = fo.queue ∧
    id ∈ (p.shared.parents P).childRequests

/-- A child that runs. -/
def OutputProcessor.Runs (p : OutputProcessor α L) (P id : RequestId) : Prop :=
  ∃ s, p.requestStates.lookup id = some s ∧ s.parentReq = some P

/-- The invariant. Without a queue, `abort_requests` leaves the children of a parent in its set. -/
structure Kept (fanOuts : RequestId → Option (FanOut α)) (U E : List RequestId)
    (p : OutputProcessor α L) : Prop where
  state : ∀ id s, p.requestStates.lookup id = some s → StateOk fanOuts p id s
  fanOut : ∀ P fo, fanOuts P = some fo → FanOutOk p P fo
  parentId : ∀ P, (p.shared.parents P).requestId = P
  nodupChildren : ∀ P, (p.shared.parents P).childRequests.Nodup
  childIds : ∀ P id, id ∈ (p.shared.parents P).childRequests →
    ∃ i fo, id = .child i P ∧ fanOuts P = some fo ∧ i < fo.idx
  children : ∀ P id, id ∈ (p.shared.parents P).childRequests → p.Runs P id ∨
    ∃ fo, fanOuts P = some fo ∧ fo.queue = none ∧
      (P ∈ E ∨ P ∉ p.parentRequests ∧ fo.idx = fo.request.n)
  listed : ∀ ext id, id ∈ p.internalIds ext ↔
    ∃ s, p.requestStates.lookup id = some s ∧ s.externalReqId = ext ∧ id ∉ U
  nodup : ∀ ext, (p.internalIds ext).Nodup
  notEmpty : ∀ ext, p.externalReqIds.lookup ext ≠ some []
  parents_of : ∀ P id, p.Runs P id → P ∈ p.parentRequests
  of_parents : ∀ P ∈ p.parentRequests, P ∉ E → ∃ id, p.Runs P id ∧ id ∉ U
  parentFanOut : ∀ P ∈ p.parentRequests, (fanOuts P).isSome
  drained : p.requestsDrained = true → p.requestStates.entries = []
  /-- The aggregator is not put on top of an output that waits while children are missing. -/
  whole : ∀ P ∈ E, ∀ fo, fanOuts P = some fo → fo.queue.isSome →
    fo.request.outputKind = .finalOnly → (p.queues P).output.isSome →
    (p.shared.parents P).childRequests ≠ [] → fo.idx = fo.request.n

variable {fanOuts : RequestId → Option (FanOut α)} {U E : List RequestId} {p p' : OutputProcessor α L}
  {id : RequestId} {s s' : RequestState α} {h h' : Shared α L}

theorem StateOk.same (h : StateOk fanOuts p id s) (hqueues : p'.queues = p.queues)
    (hshared : p'.shared = p.shared) : StateOk fanOuts p' id s := by
  obtain ⟨h₁, h₂, h₃, h₄⟩ := h
  exact ⟨h₁, h₂, hqueues ▸ h₃, hshared ▸ h₄⟩

theorem FanOutOk.same {P : RequestId} {fo : FanOut α} (h : FanOutOk p P fo)
    (hstates : p'.requestStates = p.requestStates) (hqueues : p'.queues = p.queues)
    (hshared : p'.shared = p.shared) : FanOutOk p' P fo := by
  obtain ⟨h₁, h₂, h₃, h₄, h₅, h₆⟩ := h
  exact ⟨h₁, hstates ▸ h₂, h₃, h₄, hqueues ▸ h₅, hshared ▸ h₆⟩

/-! ### The lists of the external ids -/

/-- The output processor with other lists of external ids. -/
abbrev OutputProcessor.withIds (p : OutputProcessor α L) (d : OrderedDict ℕ (List RequestId)) :
    OutputProcessor α L := { p with externalReqIds := d }

/-- An id is removed from the list of an external id. -/
structure RemovesId (ext : ℕ) (id : RequestId) (p : OutputProcessor α L)
    (d : OrderedDict ℕ (List RequestId)) : Prop where
  mem : ∀ ext' id', id' ∈ (p.withIds d).internalIds ext' ↔
    id' ∈ p.internalIds ext' ∧ ¬ (ext' = ext ∧ id' = id)
  nodup : ∀ ext', ((p.withIds d).internalIds ext').Nodup
  notEmpty : ∀ ext', d.lookup ext' ≠ some []

theorem removeInternalId_eq {ext : ℕ} (hid : id ∈ p.internalIds ext)
    (hnodup : ∀ ext, (p.internalIds ext).Nodup)
    (hne : ∀ ext, p.externalReqIds.lookup ext ≠ some []) :
    ∃ d, p.removeInternalId ext id = .ok (p.withIds d) ∧ RemovesId ext id p d := by
  unfold removeInternalId
  rw [if_pos hid]
  generalize hd : (if (p.internalIds ext).erase id = [] then p.externalReqIds.erase ext
    else p.externalReqIds.setItem ext ((p.internalIds ext).erase id)) = d
  refine ⟨d, rfl, ?_⟩
  have hlookup : ∀ ext', d.lookup ext' = if ext' = ext then
      (if (p.internalIds ext).erase id = [] then none else some ((p.internalIds ext).erase id))
      else p.externalReqIds.lookup ext' := by
    subst hd
    split_ifs <;> simp_all [lookup_erase', lookup_setItem]
  have hids : ∀ ext', (p.withIds d).internalIds ext' =
      if ext' = ext then (p.internalIds ext).erase id else p.internalIds ext' := by
    intro ext'
    unfold internalIds at hlookup ⊢
    rw [hlookup]
    split_ifs with hext hnil
    · exact hnil.symm
    · rfl
    · rfl
  refine ⟨fun ext' id' => ?_, fun ext' => ?_, fun ext' => ?_⟩
  · rw [hids]
    by_cases hext : ext' = ext
    · subst hext
      rw [if_pos rfl, (hnodup _).mem_erase_iff]
      simp [true_and, and_comm]
    · simp [hext]
  · rw [hids]
    split_ifs
    · exact (hnodup _).erase _
    · exact hnodup _
  · rw [hlookup]
    split_ifs with hext hnil
    · simp
    · simpa using hnil
    · exact hne ext'

/-- A request that runs is removed from the list of its external id. -/
theorem Kept.removeInternalId (hk : Kept fanOuts U E p) (hs : p.requestStates.lookup id = some s)
    (hU : id ∉ U) (hP : ∀ P, s.parentReq = some P → P ∈ E ∨ ∃ c, p.Runs P c ∧ c ≠ id ∧ c ∉ U) :
    ∃ d, p.removeInternalId s.externalReqId id = .ok (p.withIds d) ∧
      Kept fanOuts (id :: U) E (p.withIds d) := by
  have hmem : id ∈ p.internalIds s.externalReqId := (hk.listed _ _).2 ⟨s, hs, rfl, hU⟩
  obtain ⟨d, hd, hremoves⟩ := removeInternalId_eq hmem hk.nodup hk.notEmpty
  refine ⟨d, hd, {
    state := fun c t ht => (hk.state c t ht).same rfl rfl
    fanOut := fun P fo hfo => (hk.fanOut P fo hfo).same rfl rfl rfl
    parentId := hk.parentId
    nodupChildren := hk.nodupChildren
    childIds := hk.childIds
    children := hk.children
    listed := fun ext id' => ?_
    nodup := hremoves.nodup
    notEmpty := hremoves.notEmpty
    parents_of := hk.parents_of
    of_parents := fun P hPmem hPE => ?_
    parentFanOut := hk.parentFanOut
    drained := hk.drained
    whole := hk.whole }⟩
  · rw [hremoves.mem, hk.listed]
    constructor
    · rintro ⟨⟨s', hs', rfl, hU'⟩, hne⟩
      refine ⟨s', hs', rfl, fun hc => ?_⟩
      rcases mem_cons.1 hc with rfl | hc
      · cases hs.symm.trans hs'
        exact hne ⟨rfl, rfl⟩
      · exact hU' hc
    · rintro ⟨s', hs', rfl, hU'⟩
      exact ⟨⟨s', hs', rfl, fun hc => hU' (.tail _ hc)⟩,
        fun heq => hU' (heq.2 ▸ mem_cons_self)⟩
  · obtain ⟨c, hrun, hcU⟩ := hk.of_parents P hPmem hPE
    by_cases hc : c = id
    · subst hc
      obtain ⟨s', hs', hparent⟩ := hrun
      cases hs.symm.trans hs'
      rcases hP P hparent with h | ⟨c', hrun', hne, hcU'⟩
      · exact absurd h hPE
      · exact ⟨c', hrun', by simp [hne, hcU']⟩
    · exact ⟨c, hrun, by simp [hc, hcU]⟩

/-! ### What an output changes -/

/-- The aggregator after an output: the last output of a request is put into it. -/
def Fills (s : RequestState α) (finished : Bool) (ag ag' : List (Option (CompletionOutput α L))) :
    Prop :=
  if finished = true ∧ s.outputKind = .finalOnly then
    ∃ c, CompletionOf s true c ∧ ag' = ag.set s.requestIndex (some c)
  else ag' = ag

/-- What an output of a request changes of its parent. -/
structure ParentStep (s : RequestState α) (finished : Bool) (h h' : Shared α L) : Prop where
  others : ∀ P, s.parentReq ≠ some P → h'.parents P = h.parents P
  parent : ∀ P, s.parentReq = some P → ∃ ag, h'.parents P = { h.parents P with
      childRequests := (h.parents P).left s.requestId finished
      outputAggregator := ag } ∧ Fills s finished (h.parents P).outputAggregator ag

theorem Made.parentStep {finished : Bool} {out : Option (Output α L)}
    (hmade : Made s h finished out h') (hid : ∀ P, (h.parents P).requestId = P)
    (hpooling : s.detokenizer = none → s.parentReq = none) : ParentStep s finished h h' := by
  have hset : ∀ {P : RequestId} {q : ParentRequest α L}, q.requestId = P →
      (∀ P', P' ≠ P → (h.setParent q).parents P' = h.parents P') ∧ (h.setParent q).parents P = q :=
    fun hq => by
      subst hq
      exact ⟨fun P' hne => update_of_ne hne _ _, update_self _ _ _⟩
  have hnone : ∀ finished, s.parentReq = none → ParentStep s finished h h := fun finished hP =>
    ⟨fun _ _ => rfl, fun P h => by simp [hP] at h⟩
  cases hmade with
  | withheld => exact ⟨fun _ _ => rfl, fun P _ => ⟨_, rfl, by simp [Fills]⟩⟩
  | pooling _ o hs => exact hnone _ (hpooling hs)
  | single _ c hs hc => exact hnone _ hs
  | @streamed _ P c hs hkind hc =>
    obtain ⟨hothers, hself⟩ := hset (q := { h.parents P with
      childRequests := (h.parents P).left s.requestId finished }) (hid P)
    refine ⟨fun P' hne => hothers P' fun heq => hne (heq ▸ hs), fun P' hP' => ?_⟩
    cases hs.symm.trans hP'
    exact ⟨_, hself, by simp [Fills, hkind]⟩
  | @aggregated P c hs hkind hc =>
    obtain ⟨hothers, hself⟩ := hset (q := { h.parents P with
      childRequests := (h.parents P).left s.requestId true
      outputAggregator := (h.parents P).outputAggregator.set c.index (some c) }) (hid P)
    refine ⟨fun P' hne => hothers P' fun heq => hne (heq ▸ hs), fun P' hP' => ?_⟩
    cases hs.symm.trans hP'
    refine ⟨_, hself, ?_⟩
    unfold Fills
    rw [if_pos ⟨rfl, hkind⟩]
    exact ⟨c, hc, by rw [hc.index]⟩

/-- The parent whose aggregator a request puts into its queue. -/
def RequestState.aggregated (s : RequestState α) : Option RequestId :=
  if s.outputKind = .finalOnly then s.parentReq else none

variable {P : RequestId}

theorem RequestState.parentReq_of_aggregated (hP : s.aggregated = some P) :
    s.parentReq = some P := by
  unfold aggregated at hP
  split_ifs at hP
  exact hP

/-- What an output of a request changes of its queue. -/
structure QueueStep (s : RequestState α) (p p' : OutputProcessor α L) : Prop where
  others : ∀ q, s.queue ≠ some q → p'.queues q = p.queues q
  aggregate : ∀ q, (p'.queues q).aggregate = (p.queues q).aggregate
  queue : ∀ q, s.queue = some q → QueueOk s.aggregated s.logprobs (p'.queues q).output
  /-- Without children that are left nothing is put on top of an aggregator. -/
  waits : ∀ q P, s.queue = some q → s.aggregated = some P → (p.queues q).output = none →
    (p'.shared.parents P).childRequests ≠ [] → (p'.queues q).output = none

/-- What changes when an output of a request is delivered. -/
structure Delivered (s : RequestState α) (finished : Bool) (p p' : OutputProcessor α L) : Prop where
  parents : ParentStep s finished p.shared p'.shared
  queues : QueueStep s p p'
  parentRequests : p'.parentRequests = p.parentRequests
  externalReqIds : p'.externalReqIds = p.externalReqIds
  requestsDrained : p'.requestsDrained = p.requestsDrained

/-- What an output of a request changes. -/
structure Effect (id : RequestId) (s : RequestState α) (finished : Bool)
    (p p' : OutputProcessor α L) : Prop extends Delivered s finished p p' where
  states : ∀ id', id' ≠ id → p'.requestStates.lookup id' = p.requestStates.lookup id'
  self : if finished = true then p'.requestStates.lookup id = none
    else ∃ s', p'.requestStates.lookup id = some s' ∧ SameRequest s s'

variable {finished : Bool}

theorem ParentRequest.mem_left {q : ParentRequest α L} (hnodup : q.childRequests.Nodup)
    {c : RequestId} : c ∈ q.left id finished ↔ c ∈ q.childRequests ∧ ¬ (finished = true ∧ c = id) := by
  unfold left
  cases finished with
  | false => simp
  | true => simp [hnodup.mem_erase_iff, and_comm]

/-- The queue of a request is that of no other one. -/
theorem Kept.queue_ne (hk : Kept fanOuts U E p) (hs : p.requestStates.lookup id = some s)
    {q : RequestId} (hq : s.queue = some q) : (s.parentReq = none ∧ q = id ∧ fanOuts q = none) ∨
      ∃ fo, s.parentReq = some q ∧ fanOuts q = some fo := by
  have hstate := hk.state id s hs
  cases hP : s.parentReq with
  | none =>
    obtain ⟨hnone, -, hqueue⟩ := hstate.single hP
    obtain ⟨rfl, -⟩ := hqueue q hq
    exact .inl ⟨rfl, rfl, hnone⟩
  | some P =>
    obtain ⟨fo, hfo, -, -, -, -, hqueue, -⟩ := hstate.child P hP
    obtain ⟨rfl, -⟩ := (hk.fanOut P fo hfo).queue q (hqueue ▸ hq)
    exact .inr ⟨fo, rfl, hfo⟩

/-- A request that runs, of a parallel sampling request. -/
structure ChildOf (P : RequestId) (fo : FanOut α) (s : RequestState α) (q : ParentRequest α L) :
    Prop where
  parentReq : s.parentReq = some P
  requestId : s.requestId = .child s.requestIndex P
  requestIndex : s.requestIndex < fo.idx
  outputKind : s.outputKind = fo.request.outputKind
  mem : s.requestId ∈ q.childRequests

theorem ParentStep.parentOk {fo : FanOut α} (hstep : ParentStep s finished h h')
    (hq : ParentOk P fo (h.parents P)) (hnodup : (h.parents P).childRequests.Nodup)
    (hidx : fo.idx ≤ fo.request.n) (hs : ChildOf P fo s (h.parents P)) :
    ParentOk P fo (h'.parents P) := by
  obtain ⟨ag, hag, hfills⟩ := hstep.parent P hs.parentReq
  -- a completion that is put does not change the number of entries
  have hlen : ag.length = (h.parents P).outputAggregator.length := by
    unfold Fills at hfills
    split_ifs at hfills
    · obtain ⟨c, -, rfl⟩ := hfills
      exact length_set
    · rw [hfills]
  rw [hag]
  refine ⟨hq.outputKind, fun hfinal => hlen.trans (hq.length hfinal), fun hfinal i hi hnot => ?_,
    fun i c hc => ?_⟩
  · have hnot' : RequestId.child i P ∉ (h.parents P).left s.requestId finished := hnot
    rw [mem_left hnodup] at hnot'
    unfold Fills at hfills
    by_cases hi' : i = s.requestIndex
    · -- the request itself has finished
      subst hi'
      have hfin : finished = true := by
        by_contra hne
        exact hnot' ⟨hs.requestId ▸ hs.mem, fun h => hne h.1⟩
      rw [if_pos ⟨hfin, hs.outputKind.trans hfinal⟩] at hfills
      obtain ⟨c, -, rfl⟩ := hfills
      refine ⟨c, getElem?_set_self ?_⟩
      have := hq.length hfinal
      omega
    · obtain ⟨c, hc⟩ := hq.filled hfinal i hi fun hmem => hnot' ⟨hmem, fun h => hi' (by
        have heq := h.2
        rw [hs.requestId] at heq
        cases heq
        rfl)⟩
      refine ⟨c, ?_⟩
      split_ifs at hfills
      · obtain ⟨c', -, rfl⟩ := hfills
        rwa [getElem?_set_ne fun h => hi' h.symm]
      · rwa [hfills]
  · have hc' : ag[i]? = some (some c) := hc
    unfold Fills at hfills
    split_ifs at hfills
    · obtain ⟨c', hof, rfl⟩ := hfills
      by_cases hi' : s.requestIndex = i
      · subst hi'
        have hlt' := (List.getElem?_eq_some_iff.1 hc').1
        rw [getElem?_set_self (by rwa [length_set] at hlt')] at hc'
        cases hc'
        exact hof.index
      · rw [getElem?_set_ne hi'] at hc'
        exact hq.index i c hc'
    · rw [hfills] at hc'
      exact hq.index i c hc'

section

variable (hk : Kept fanOuts U E p) (hs : p.requestStates.lookup id = some s)
  (he : Effect id s finished p p')

include hk hs he

theorem Effect.fanOutOk {fo : FanOut α} (hfo : fanOuts P = some fo) : FanOutOk p' P fo := by
  have hf := hk.fanOut P fo hfo
  have hstate := hk.state id s hs
  have hPid : P ≠ id := fun heq => by
    subst heq
    cases hf.notRunning.symm.trans hs
  have hrunning : p'.requestStates.lookup P = none := (he.states P hPid).trans hf.notRunning
  by_cases hP : s.parentReq = some P
  · obtain ⟨fo', hfo', hid, hlt, hkind, hlog, hqueue, hmem⟩ := hstate.child P hP
    cases hfo.symm.trans hfo'
    refine ⟨hf.assigned, hrunning, hf.detokenizer, hf.idx_le, fun q hq => ?_,
      he.parents.parentOk hf.parent (hk.nodupChildren P) hf.idx_le
        ⟨hP, hstate.requestId.trans hid, hlt, hkind, hstate.requestId ▸ hmem⟩⟩
    obtain ⟨rfl, -, haggregate⟩ := hf.queue q hq
    refine ⟨rfl, ?_, (he.queues.aggregate q).trans haggregate⟩
    have hagg : s.aggregated = fo.aggregated q := by
      unfold aggregated FanOut.aggregated
      rw [hkind, hP]
    rw [← hagg, ← hlog]
    exact he.queues.queue q (hqueue.trans hq)
  · refine ⟨hf.assigned, hrunning, hf.detokenizer, hf.idx_le, fun q hq => ?_, ?_⟩
    · obtain ⟨rfl, hqok, haggregate⟩ := hf.queue q hq
      have hne : s.queue ≠ some q := fun heq => by
        rcases hk.queue_ne hs heq with ⟨-, -, hnone⟩ | ⟨-, hq', -⟩
        · cases hfo.symm.trans hnone
        · exact hP hq'
      rw [he.queues.others q hne]
      exact ⟨rfl, hqok, haggregate⟩
    · rw [he.parents.others P hP]
      exact hf.parent

theorem Effect.stateOk {id' : RequestId} {t : RequestState α}
    (ht : p'.requestStates.lookup id' = some t) : StateOk fanOuts p' id' t ∧
      ∃ t₀, p.requestStates.lookup id' = some t₀ ∧ SameRequest t₀ t ∧
        ¬ (finished = true ∧ id' = id) := by
  have hstate := hk.state id s hs
  by_cases hid : id' = id
  -- the request of the output
  · subst hid
    have hself := he.self
    split_ifs at hself with hfin
    · cases hself.symm.trans ht
    · obtain ⟨s', hs', hsame⟩ := hself
      cases ht.symm.trans hs'
      obtain ⟨d, o, rfl, hd⟩ := hsame
      have hleft : ∀ P, s.parentReq = some P → id' ∈ (p'.shared.parents P).childRequests := by
        intro P hP
        obtain ⟨ag, hag, -⟩ := he.parents.parent P hP
        obtain ⟨-, -, -, -, -, -, -, hmem⟩ := hstate.child P hP
        rw [hag]
        exact (mem_left (hk.nodupChildren P)).2 ⟨hmem, fun h => hfin h.1⟩
      refine ⟨⟨hstate.requestId, fun hnone => hstate.pooling ?_, fun hP => ?_, fun P hP => ?_⟩, s, hs,
        ⟨d, o, rfl, hd⟩, fun h => hfin h.1⟩
      · have hnone' : d = none := hnone
        rw [hnone'] at hd
        exact isNone_iff_eq_none.1 (by rw [← not_isSome, ← hd]; rfl)
      · obtain ⟨h₁, h₂, h₃⟩ := hstate.single hP
        have hagg : s.aggregated = none := by
          unfold aggregated
          rw [show s.parentReq = none from hP, ite_self]
        refine ⟨h₁, h₂, fun q hq => ?_⟩
        obtain ⟨rfl, -⟩ := h₃ q hq
        refine ⟨rfl, ?_⟩
        have hqueue := he.queues.queue q hq
        rwa [hagg] at hqueue
      · obtain ⟨fo, h₁, h₂, h₃, h₄, h₅, h₆, -⟩ := hstate.child P hP
        exact ⟨fo, h₁, h₂, h₃, h₄, h₅, h₆, hleft P hP⟩
  -- another request
  · have ht₀ := (he.states id' hid).symm.trans ht
    have hstate' := hk.state id' t ht₀
    refine ⟨⟨hstate'.requestId, hstate'.pooling, fun hP => ?_, fun P hP => ?_⟩, t, ht₀, .refl t,
      fun h => hid h.2⟩
    · obtain ⟨h₁, h₂, h₃⟩ := hstate'.single hP
      refine ⟨h₁, h₂, fun q hq => ?_⟩
      obtain ⟨rfl, hqok⟩ := h₃ q hq
      have hne : s.queue ≠ some q := fun heq => by
        rcases hk.queue_ne hs heq with ⟨-, hq', -⟩ | ⟨fo, -, hfo⟩
        · exact hid hq'
        · cases h₁.symm.trans hfo
      rw [he.queues.others q hne]
      exact ⟨rfl, hqok⟩
    · obtain ⟨fo, h₁, h₂, h₃, h₄, h₅, h₆, hmem⟩ := hstate'.child P hP
      refine ⟨fo, h₁, h₂, h₃, h₄, h₅, h₆, ?_⟩
      by_cases hP' : s.parentReq = some P
      · obtain ⟨ag, hag, -⟩ := he.parents.parent P hP'
        rw [hag]
        refine (mem_left (hk.nodupChildren P)).2 ⟨hmem, fun h => hid ?_⟩
        exact h.2.trans hstate.requestId
      · rw [he.parents.others P hP']
        exact hmem

theorem Effect.runs_iff {P c : RequestId} :
    p'.Runs P c ↔ p.Runs P c ∧ ¬ (finished = true ∧ c = id) := by
  constructor
  · rintro ⟨t, ht, hP⟩
    obtain ⟨-, t₀, ht₀, ⟨d, o, rfl, -⟩, hne⟩ := he.stateOk hk hs ht
    exact ⟨⟨t₀, ht₀, hP⟩, hne⟩
  · rintro ⟨⟨t, ht, hP⟩, hne⟩
    by_cases hc : c = id
    · subst hc
      cases hs.symm.trans ht
      have hself := he.self
      rw [if_neg fun h => hne ⟨h, rfl⟩] at hself
      obtain ⟨s', hs', d, o, rfl, -⟩ := hself
      exact ⟨_, hs', hP⟩
    · exact ⟨t, (he.states c hc).trans ht, hP⟩

/-- What an output of a request changes keeps the invariant; a request that finishes is not in the
lists of the external ids any more. -/
theorem Effect.kept {U' : List RequestId}
    (hU : ∀ c, c ∈ U ↔ c ∈ U' ∨ finished = true ∧ c = id) : Kept fanOuts U' E p' := by
  have hstate := hk.state id s hs
  have hruns := fun {P c : RequestId} => he.runs_iff (P := P) (c := c) hk hs
  have hids : ∀ ext, p'.internalIds ext = p.internalIds ext := fun ext => by
    unfold internalIds
    rw [he.externalReqIds]
  -- the set of a parent gets no child, and loses the request if it has finished
  have hmem : ∀ P c, c ∈ (p'.shared.parents P).childRequests →
      c ∈ (p.shared.parents P).childRequests ∧
        ¬ (s.parentReq = some P ∧ finished = true ∧ c = id) := by
    intro P c hc
    by_cases hP : s.parentReq = some P
    · obtain ⟨ag, hag, -⟩ := he.parents.parent P hP
      rw [hag] at hc
      obtain ⟨hc, hne⟩ := (mem_left (hk.nodupChildren P)).1 hc
      rw [hstate.requestId] at hne
      exact ⟨hc, fun h => hne h.2⟩
    · rw [he.parents.others P hP] at hc
      exact ⟨hc, fun h => hP h.1⟩
  exact {
    state := fun id' t ht => (he.stateOk hk hs ht).1
    fanOut := fun P fo hfo => he.fanOutOk hk hs hfo
    parentId := fun P => by
      by_cases hP : s.parentReq = some P
      · obtain ⟨ag, hag, -⟩ := he.parents.parent P hP
        rw [hag]
        exact hk.parentId P
      · rw [he.parents.others P hP]
        exact hk.parentId P
    nodupChildren := fun P => by
      by_cases hP : s.parentReq = some P
      · obtain ⟨ag, hag, -⟩ := he.parents.parent P hP
        rw [hag]
        unfold left
        split_ifs
        · exact (hk.nodupChildren P).erase _
        · exact hk.nodupChildren P
      · rw [he.parents.others P hP]
        exact hk.nodupChildren P
    childIds := fun P c hc => hk.childIds P c (hmem P c hc).1
    children := fun P c hc => by
      obtain ⟨hc, hne⟩ := hmem P c hc
      rw [he.parentRequests, hruns]
      refine (hk.children P c hc).imp_left fun hrun => ⟨hrun, fun h => hne ⟨?_, h⟩⟩
      obtain ⟨t, ht, hP⟩ := hrun
      rw [h.2] at ht
      cases hs.symm.trans ht
      exact hP
    listed := fun ext c => by
      rw [hids, hk.listed]
      constructor
      · rintro ⟨t, ht, rfl, hc⟩
        rw [hU, not_or] at hc
        by_cases hid : c = id
        · subst hid
          cases hs.symm.trans ht
          have hself := he.self
          rw [if_neg fun h => hc.2 ⟨h, rfl⟩] at hself
          obtain ⟨s', hs', d, o, rfl, -⟩ := hself
          exact ⟨_, hs', rfl, hc.1⟩
        · exact ⟨t, (he.states c hid).trans ht, rfl, hc.1⟩
      · rintro ⟨t, ht, rfl, hc⟩
        obtain ⟨-, t₀, ht₀, ⟨d, o, rfl, -⟩, hne⟩ := he.stateOk hk hs ht
        exact ⟨t₀, ht₀, rfl, fun h => ((hU c).1 h).elim hc hne⟩
    nodup := fun ext => by
      rw [hids]
      exact hk.nodup ext
    notEmpty := fun ext => by
      rw [he.externalReqIds]
      exact hk.notEmpty ext
    parents_of := fun P c hrun => by
      rw [he.parentRequests]
      exact hk.parents_of P c (hruns.1 hrun).1
    of_parents := fun P hP hPE => by
      rw [he.parentRequests] at hP
      obtain ⟨c, hrun, hc⟩ := hk.of_parents P hP hPE
      rw [hU, not_or] at hc
      exact ⟨c, hruns.2 ⟨hrun, hc.2⟩, hc.1⟩
    parentFanOut := fun P hP => hk.parentFanOut P (he.parentRequests ▸ hP)
    drained := fun hd => by
      rw [he.requestsDrained] at hd
      have hnil := hk.drained hd
      have hmem := mem_entries.2 hs
      rw [hnil] at hmem
      cases hmem
    whole := fun P hP fo hfo hqueue hfinal hsome hne => by
      by_cases hparent : s.parentReq = some P
      · obtain ⟨fo', hfo', -, -, hkind, -, hq, hmem'⟩ := hstate.child P hparent
        cases hfo.symm.trans hfo'
        have hagg : s.aggregated = some P := by
          unfold aggregated
          rw [if_pos (hkind.trans hfinal), hparent]
        obtain ⟨q, hq'⟩ := isSome_iff_exists.1 hqueue
        obtain ⟨rfl, -⟩ := (hk.fanOut P fo hfo).queue q hq'
        have hsome' : (p.queues q).output.isSome := by
          rw [isSome_iff_ne_none]
          intro hnone
          rw [he.queues.waits q q (hq.trans hq') hagg hnone hne] at hsome
          cases hsome
        exact hk.whole q hP fo hfo hqueue hfinal hsome' (ne_nil_of_mem hmem')
      · rw [he.parents.others P hparent] at hne
        have hq : s.queue ≠ some P := fun heq => by
          rcases hk.queue_ne hs heq with ⟨-, -, hnone⟩ | ⟨-, hq', -⟩
          · cases hfo.symm.trans hnone
          · exact hparent hq'
        rw [he.queues.others P hq] at hsome
        exact hk.whole P hP fo hfo hqueue hfinal hsome hne }

end

end LoptVllm.Frontend
