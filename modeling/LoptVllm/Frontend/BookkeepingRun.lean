import LoptVllm.Frontend.Aborting

/-!
# The bookkeeping in every run
-/

namespace LoptVllm.Frontend

open List Option Function OrderedDict Nat OutputProcessor RequestState RequestId Run

variable {α L : Type} {fanOuts : RequestId → Option (FanOut α)} {p p' : OutputProcessor α L}
  {id : RequestId} {s : RequestState α} {f : EngineFrontend α L}

/-! ### A request is added -/

/-- What `add_request` changes. -/
structure Added (s : RequestState α) (p p' : OutputProcessor α L) : Prop where
  lookup : ∀ c, p'.requestStates.lookup c =
    if c = s.requestId then some s else p.requestStates.lookup c
  internalIds : ∀ ext, p'.internalIds ext = if ext = s.externalReqId then
    p.internalIds ext ++ [s.requestId] else p.internalIds ext
  notEmpty : (∀ ext, p.externalReqIds.lookup ext ≠ some []) →
    ∀ ext, p'.externalReqIds.lookup ext ≠ some []
  parentRequests : ∀ P, P ∈ p'.parentRequests ↔ P ∈ p.parentRequests ∨ s.parentReq = some P
  parents : p'.shared.parents = p.shared.parents
  queues : p'.queues = p.queues
  requestsDrained : p'.requestsDrained = false

theorem addRequest_eq (request : EngineCoreRequest α) (parentReq : Option RequestId) (index : ℕ)
    (queue : Option RequestId) (hid : p.requestStates.lookup request.requestId = none) :
    ∃ p', p.addRequest request parentReq index queue = .ok p' ∧
      Added (.fromNewRequest request parentReq index queue p.streamInterval) p p' := by
  have hmem : request.requestId ∉ p.requestStates := fun h => by
    have := AList.lookup_isSome.2 h
    rw [hid] at this
    cases this
  unfold addRequest
  rw [if_neg hmem]
  refine ⟨_, rfl, ⟨fun c => ?_, fun ext => ?_, fun hne ext => ?_, fun P => ?_, rfl, rfl, rfl⟩⟩
  · exact lookup_setItem ..
  · show ((AList.lookup ext (setItem _ _ _)).getD []) = _
    rw [lookup_setItem]
    by_cases hext : ext = request.externalReqId
    · subst hext
      simp [fromNewRequest]
    · have hext' : ext ≠ (fromNewRequest request parentReq index queue
        p.streamInterval).externalReqId := hext
      rw [if_neg hext', if_neg hext']
      rfl
  · show AList.lookup ext (setItem _ _ _) ≠ _
    rw [lookup_setItem]
    split_ifs
    · simp
    · exact hne ext
  · cases parentReq with
    | none => simp [fromNewRequest]
    | some parent => simp [fromNewRequest, or_comm, eq_comm]

variable {fanOuts' : RequestId → Option (FanOut α)} {p₁ : OutputProcessor α L} {P : RequestId}

theorem Added.runs_iff (hadd : Added s p₁ p') (hstates : p₁.requestStates = p.requestStates)
    (hnew : p.requestStates.lookup s.requestId = none) {c : RequestId} :
    p'.Runs P c ↔ p.Runs P c ∨ c = s.requestId ∧ s.parentReq = some P := by
  unfold Runs
  rw [hadd.lookup, hstates]
  split_ifs with hc
  · subst hc
    simp [hnew]
  · simp [hc]

/-- The part of the invariant that is about one parent, between the calls. -/
structure Family (fanOuts : RequestId → Option (FanOut α)) (p : OutputProcessor α L) (P : RequestId) :
    Prop where
  fanOut : ∀ fo, fanOuts P = some fo → FanOutOk p P fo
  parentId : (p.shared.parents P).requestId = P
  nodup : (p.shared.parents P).childRequests.Nodup
  childIds : ∀ c ∈ (p.shared.parents P).childRequests,
    ∃ i fo, c = .child i P ∧ fanOuts P = some fo ∧ i < fo.idx
  children : ∀ c ∈ (p.shared.parents P).childRequests, p.Runs P c ∨
    ∃ fo, fanOuts P = some fo ∧ fo.queue = none ∧ P ∉ p.parentRequests ∧ fo.idx = fo.request.n
  known : P ∈ p.parentRequests → (fanOuts P).isSome

theorem Kept.family (hk : Kept fanOuts [] [] p) : Family fanOuts p P :=
  ⟨hk.fanOut P, hk.parentId P, hk.nodupChildren P, hk.childIds P, fun c hc =>
    (hk.children P c hc).imp_right fun ⟨fo, hfo, hq, h⟩ => ⟨fo, hfo, hq, h.resolve_left not_mem_nil⟩,
    hk.parentFanOut P⟩

/-- A parent that a call does not touch. -/
theorem Family.congr (h : Family fanOuts p P) (hfan : fanOuts' P = fanOuts P)
    (hparent : p'.shared.parents P = p.shared.parents P)
    (hqueue : ∀ fo, fanOuts P = some fo → p'.queues P = p.queues P ∧ p'.requestStates.lookup P = none)
    (hruns : ∀ c, p.Runs P c → p'.Runs P c) (hparents : P ∈ p'.parentRequests → P ∈ p.parentRequests) :
    Family fanOuts' p' P := by
  constructor
  · intro fo hfo
    rw [hfan] at hfo
    obtain ⟨h₁, -, h₃, h₄, h₅, h₆⟩ := h.fanOut fo hfo
    obtain ⟨hq, hnone⟩ := hqueue fo hfo
    refine ⟨h₁, hnone, h₃, h₄, ?_, ?_⟩
    · rwa [hq]
    · rwa [hparent]
  · rw [hparent]
    exact h.parentId
  · rw [hparent]
    exact h.nodup
  · rw [hparent, hfan]
    exact h.childIds
  · rw [hparent, hfan]
    exact fun c hc => (h.children c hc).imp (hruns c) fun ⟨fo, hfo, hq, hP, hidx⟩ =>
      ⟨fo, hfo, hq, fun h => hP (hparents h), hidx⟩
  · rw [hfan]
    exact fun hP => h.known (hparents hP)

/-- A request that a call does not touch. The parents that are known stay, with more children. -/
theorem StateOk.congr {c : RequestId} (h : StateOk fanOuts p c s)
    (hsingle : s.parentReq = none → fanOuts' c = fanOuts c ∧ p'.queues c = p.queues c)
    (hchild : ∀ P fo, fanOuts P = some fo → ∃ k, fo.idx ≤ k ∧ fanOuts' P = some { fo with idx := k } ∧
      (p.shared.parents P).childRequests ⊆ (p'.shared.parents P).childRequests) :
    StateOk fanOuts' p' c s := by
  obtain ⟨h₁, h₂, h₃, h₄⟩ := h
  refine ⟨h₁, h₂, fun hP => ?_, fun P hP => ?_⟩
  · rw [(hsingle hP).1, (hsingle hP).2]
    exact h₃ hP
  · obtain ⟨fo, hfo, hid, hlt, hkind, hlog, hqueue, hmem⟩ := h₄ P hP
    obtain ⟨k, hk, hfo', hsub⟩ := hchild P fo hfo
    exact ⟨_, hfo', hid, hlt.trans_le hk, hkind, hlog, hqueue, hsub hmem⟩

theorem Kept.add (hk : Kept fanOuts [] [] p) (p₁ : OutputProcessor α L)
    (hstates : p₁.requestStates = p.requestStates)
    (hids : p₁.externalReqIds = p.externalReqIds) (hparents : p₁.parentRequests = p.parentRequests)
    (hadd : Added s p₁ p') (hnew : p.requestStates.lookup s.requestId = none)
    (hstate : ∀ c t, p'.requestStates.lookup c = some t → StateOk fanOuts' p' c t)
    (hfamily : ∀ P, Family fanOuts' p' P) : Kept fanOuts' [] [] p' := by
  have hruns := fun {P c : RequestId} => hadd.runs_iff (P := P) (c := c) hstates hnew
  have hids' : ∀ ext, p₁.internalIds ext = p.internalIds ext := fun ext => by
    unfold internalIds
    rw [hids]
  exact {
    state := hstate
    fanOut := fun P => (hfamily P).fanOut
    parentId := fun P => (hfamily P).parentId
    nodupChildren := fun P => (hfamily P).nodup
    childIds := fun P => (hfamily P).childIds
    children := fun P c hc => ((hfamily P).children c hc).imp_right fun ⟨fo, hfo, hq, h⟩ =>
      ⟨fo, hfo, hq, .inr h⟩
    listed := fun ext c => by
      have hlisted := hk.listed ext c
      rw [hadd.internalIds, hadd.lookup, hids', hstates]
      by_cases hc : c = s.requestId
      · -- the id is new, so it is in no list yet
        subst hc
        have hnot : s.requestId ∉ p.internalIds ext := fun h => by
          obtain ⟨t, ht, -⟩ := hlisted.1 h
          cases hnew.symm.trans ht
        by_cases hext : ext = s.externalReqId
        · simp [hext]
        · simp [hext, hnot, Ne.symm]
      · rw [if_neg hc]
        split_ifs
        · simpa [hc] using hlisted
        · exact hlisted
    nodup := fun ext => by
      rw [hadd.internalIds, hids']
      split_ifs
      · refine nodup_append.2 ⟨hk.nodup ext, nodup_singleton _, fun c hc c' hc' heq => ?_⟩
        rw [mem_singleton] at hc'
        obtain ⟨t, ht, -⟩ := (hk.listed ext c).1 hc
        rw [heq, hc', hnew] at ht
        cases ht
      · exact hk.nodup ext
    notEmpty := hadd.notEmpty fun ext => by
      rw [hids]
      exact hk.notEmpty ext
    parents_of := fun P c hrun => by
      rw [hadd.parentRequests, hparents]
      exact (hruns.1 hrun).imp (hk.parents_of P c) fun h => h.2
    of_parents := fun P hP hPE => by
      rw [hadd.parentRequests, hparents] at hP
      rcases hP with hP | hP
      · obtain ⟨c, hrun, hc⟩ := hk.of_parents P hP hPE
        exact ⟨c, hruns.2 (.inl hrun), hc⟩
      · exact ⟨s.requestId, hruns.2 (.inr ⟨rfl, hP⟩), by simp⟩
    parentFanOut := fun P => (hfamily P).known
    drained := fun h => by
      rw [hadd.requestsDrained] at h
      cases h
    whole := nofun }

/-- Without another request the lists stay, and the parents may change. -/
theorem Kept.of_families (hk : Kept fanOuts [] [] p) (hstates : p'.requestStates = p.requestStates)
    (hids : p'.externalReqIds = p.externalReqIds) (hparents : p'.parentRequests = p.parentRequests)
    (hdrained : p'.requestsDrained = p.requestsDrained)
    (hstate : ∀ c t, p.requestStates.lookup c = some t → StateOk fanOuts' p' c t)
    (hfamily : ∀ P, Family fanOuts' p' P) : Kept fanOuts' [] [] p' := by
  have hruns : ∀ {P c}, p'.Runs P c ↔ p.Runs P c := by
    intro P c
    unfold Runs
    rw [hstates]
  have hinternal : ∀ ext, p'.internalIds ext = p.internalIds ext := fun ext => by
    unfold internalIds
    rw [hids]
  exact {
    state := hstates ▸ hstate
    fanOut := fun P => (hfamily P).fanOut
    parentId := fun P => (hfamily P).parentId
    nodupChildren := fun P => (hfamily P).nodup
    childIds := fun P => (hfamily P).childIds
    children := fun P c hc => ((hfamily P).children c hc).imp_right fun ⟨fo, hfo, hq, h⟩ =>
      ⟨fo, hfo, hq, .inr h⟩
    listed := fun ext c => by
      rw [hinternal, hstates]
      exact hk.listed ext c
    nodup := fun ext => by
      rw [hinternal]
      exact hk.nodup ext
    notEmpty := hids ▸ hk.notEmpty
    parents_of := fun P c hrun => by
      rw [hparents]
      exact hk.parents_of P c (hruns.1 hrun)
    of_parents := fun P hP hPE => by
      rw [hparents] at hP
      obtain ⟨c, hrun, hc⟩ := hk.of_parents P hP hPE
      exact ⟨c, hruns.2 hrun, hc⟩
    parentFanOut := fun P => (hfamily P).known
    drained := fun h => by
      rw [hstates]
      exact hk.drained (hdrained ▸ h)
    whole := nofun }

/-! ### The front-end -/

/-- The condition on a call: a pooling request has no stream interval and knows its prompt tokens, an
engine output is for its request, and the ids that are aborted do not part a child from its parent. -/
def Meets [DecidableEq α] (f : EngineFrontend α L) : FrontendCall α L → Prop
  | .addRequest request _ => request.detokenizer = none →
    f.outputProcessor.streamInterval ≤ 1 ∧ request.hasPromptTokenIds = true
  | .processOutput o => ∀ s, f.outputProcessor.requestStates.lookup o.requestId = some s →
    OutputMeets f.fanOuts f.outputProcessor o s
  | .abort ids => AbortMeets f.fanOuts f.outputProcessor ids
  | .fanOut _ _ | .addChild _ | .get _ => True

/-- The invariant of the front-end. -/
structure Tracked (f : EngineFrontend α L) : Prop where
  kept : Kept f.fanOuts [] [] f.outputProcessor
  drained : f.outputProcessor.requestsDrained = true ↔ f.outputProcessor.requestStates.entries = []
  running : ∀ n, (f.outputProcessor.requestStates.lookup (.assigned n)).isSome → n ∈ f.assigned
  fanOuts : ∀ n, (f.fanOuts (.assigned n)).isSome → n ∈ f.assigned

theorem tracked_new (streamInterval : ℕ) : Tracked (.new streamInterval : EngineFrontend α L) where
  kept := {
    state := nofun
    fanOut := nofun
    parentId := fun _ => rfl
    nodupChildren := fun _ => nodup_nil
    childIds := nofun
    children := nofun
    listed := fun _ _ => ⟨nofun, nofun⟩
    nodup := fun _ => nodup_nil
    notEmpty := nofun
    parents_of := nofun
    of_parents := nofun
    parentFanOut := nofun
    drained := fun _ => rfl
    whole := nofun }
  drained := ⟨fun _ => rfl, fun _ => rfl⟩
  running := nofun
  fanOuts := nofun

/-- A new id is not used. -/
theorem Tracked.fresh (hf : Tracked f) {n : ℕ} (hn : n ∉ f.assigned) :
    f.outputProcessor.requestStates.lookup (.assigned n) = none ∧ f.fanOuts (.assigned n) = none :=
  ⟨not_isSome_iff_eq_none.1 fun h => hn (hf.running n h),
    not_isSome_iff_eq_none.1 fun h => hn (hf.fanOuts n h)⟩

/-- A queue is made for a new request, or none. -/
structure QueueMade (request : EngineCoreRequest α) (queue : Bool) (p p₁ : OutputProcessor α L) :
    Prop where
  states : p₁.requestStates = p.requestStates
  ids : p₁.externalReqIds = p.externalReqIds
  parents : p₁.parentRequests = p.parentRequests
  drained : p₁.requestsDrained = p.requestsDrained
  shared : p₁.shared = p.shared
  interval : p₁.streamInterval = p.streamInterval
  others : ∀ c, c ≠ request.requestId → p₁.queues c = p.queues c
  queue : queue = true → p₁.queues request.requestId = .new request.outputKind

theorem queueMade (f : EngineFrontend α L) (request : EngineCoreRequest α) (queue : Bool) :
    QueueMade request queue f.outputProcessor
      (if queue then f.newQueue request else f.outputProcessor) := by
  cases queue with
  | false => exact ⟨rfl, rfl, rfl, rfl, rfl, rfl, fun _ _ => rfl, nofun⟩
  | true =>
    exact ⟨rfl, rfl, rfl, rfl, rfl, rfl, fun c hc => update_of_ne hc _ _,
      fun _ => update_self _ _ _⟩

theorem Tracked.addRequest [DecidableEq α] (hf : Tracked f) (order : SetOrder RequestId)
    {request : EngineCoreRequest α} {queue : Bool} {n : ℕ} (hn : n ∉ f.assigned)
    (hid : request.requestId = .assigned n) (hmeets : Meets f (.addRequest request queue)) :
    ∃ f', f.step order (.addRequest request queue) = .ok f' ∧ Tracked f' := by
  have hk := hf.kept
  obtain ⟨hnew, hfan⟩ := hf.fresh hn
  have hmade := queueMade f request queue
  generalize hp₁ : (if queue then f.newQueue request else f.outputProcessor) = p₁ at hmade
  obtain ⟨hstates, hids, hparents, -, hshared, hinterval, hqueues, hqueue⟩ := hmade
  rw [hid] at hqueues hqueue
  obtain ⟨p', hadd, hadded⟩ := addRequest_eq request none 0
    (if queue then some request.requestId else none) (by rw [hstates, hid]; exact hnew)
  generalize hs : (fromNewRequest request none 0
    (if queue then some request.requestId else none) p₁.streamInterval) = s at hadded
  have hsid : s.requestId = .assigned n := by
    subst hs
    exact hid
  have hsparent : s.parentReq = none := by
    subst hs
    rfl
  have hlookup : ∀ c, p'.requestStates.lookup c =
      if c = .assigned n then some s else f.outputProcessor.requestStates.lookup c := fun c => by
    rw [hadded.lookup, hstates, hsid]
  have hruns := fun {P c : RequestId} => hadded.runs_iff (P := P) (c := c) hstates (hsid ▸ hnew)
  -- only the new request is added
  have hk' : Kept f.fanOuts [] [] p' := by
    refine hk.add _ hstates hids hparents hadded (hsid ▸ hnew) (fun c t ht => ?_) fun P => ?_
    · rw [hlookup] at ht
      split_ifs at ht with hc
      · cases ht
        subst hs hc
        refine ⟨hid, fun hnone => ?_, fun _ => ⟨hfan, ⟨n, rfl⟩, fun q hq => ?_⟩, nofun⟩
        · obtain ⟨hle, hprompt⟩ := hmeets hnone
          exact ⟨hinterval.trans_le hle, hprompt, rfl⟩
        · cases queue with
          | false => cases hq
          | true =>
            cases hq
            refine ⟨hid, fun o ho => ?_⟩
            rw [hadded.queues, hqueue rfl] at ho
            cases ho
      · refine (hk.state c t ht).congr (fun _ => ⟨rfl, ?_⟩) fun P fo hfo => ⟨_, le_rfl, hfo, ?_⟩
        · rw [hadded.queues, hqueues c hc]
        · rw [hadded.parents, hshared]
          exact Subset.refl _
    · refine hk.family.congr rfl (by rw [hadded.parents, hshared]) (fun fo hfo => ?_)
        (fun c hrun => hruns.2 (.inl hrun)) fun hP => ?_
      · have hPn : P ≠ .assigned n := fun h => by
          rw [h, hfan] at hfo
          cases hfo
        rw [hadded.queues, hqueues P hPn, hlookup, if_neg hPn]
        exact ⟨rfl, (hk.fanOut P fo hfo).notRunning⟩
      · rw [hadded.parentRequests, hsparent, hparents] at hP
        exact hP.resolve_right nofun
  refine ⟨{ f with outputProcessor := p', assigned := f.take request.requestId }, ?_, hk', ?_, ?_, ?_⟩
  · simp only [EngineFrontend.step, hp₁, hadd, bind]
    rfl
  · have hmem := mem_entries.2 ((hlookup (.assigned n)).trans (if_pos rfl))
    exact ⟨fun h => hk'.drained h, fun h => absurd h (ne_nil_of_mem hmem)⟩
  · intro m hm
    rw [hid]
    by_cases hmn : m = n
    · exact hmn ▸ Finset.mem_insert_self _ _
    · have hm' : (p'.requestStates.lookup (.assigned m)).isSome := hm
      rw [hlookup, if_neg fun h => hmn (assigned.inj h)] at hm'
      exact Finset.mem_insert_of_mem (hf.running m hm')
  · intro m hm
    rw [hid]
    exact Finset.mem_insert_of_mem (hf.fanOuts m hm)

theorem parentOk_new (P : RequestId) (request : EngineCoreRequest α) (queue : Option RequestId) :
    ParentOk P ⟨request, queue, 0⟩ (.new P request.externalReqId request.n request.outputKind :
      ParentRequest α L) := by
  refine ⟨rfl, fun hfinal => ?_, fun _ i hi => absurd hi (not_lt_zero i), fun i c hc => ?_⟩
  · have hfinal' : request.outputKind = .finalOnly := hfinal
    simp [ParentRequest.new, hfinal']
  · unfold ParentRequest.new at hc
    split_ifs at hc
    · rw [getElem?_replicate] at hc
      split_ifs at hc
      cases hc
    · cases hc

theorem Tracked.fanOut [DecidableEq α] (hf : Tracked f) (order : SetOrder RequestId)
    {request : EngineCoreRequest α} (queue : Bool) {n : ℕ} (hn : n ∉ f.assigned)
    (hid : request.requestId = .assigned n) (hdetok : request.detokenizer.isSome) :
    ∃ f', f.step order (.fanOut request queue) = .ok f' ∧ Tracked f' := by
  refine ⟨_, rfl, ?_⟩
  have hk := hf.kept
  obtain ⟨hnew, hfan⟩ := hf.fresh hn
  have hmade := queueMade f request queue
  generalize (if queue then f.newQueue request else f.outputProcessor) = p₁ at hmade
  obtain ⟨hstates, hids, hparents, hdrained, hshared, -, hqueues, hqueue⟩ := hmade
  rw [hid] at hqueues hqueue
  generalize hparent : ParentRequest.new request.requestId request.externalReqId request.n
    request.outputKind = parent
  generalize hfanOuts : update f.fanOuts request.requestId
    (some ⟨request, if queue then some request.requestId else none, 0⟩) = fanOuts'
  have hself : fanOuts' (.assigned n) =
      some ⟨request, if queue then some request.requestId else none, 0⟩ := by
    rw [← hfanOuts, ← hid, update_self]
  have hothers : ∀ P, P ≠ .assigned n → fanOuts' P = f.fanOuts P := fun P hP => by
    rw [← hfanOuts, update_of_ne fun h => hP (h.trans hid)]
  have hpself : (p₁.shared.setParent parent).parents (.assigned n) = parent := by
    subst hparent
    show update p₁.shared.parents request.requestId _ (.assigned n) = _
    rw [hid, update_self]
  have hpothers : ∀ P, P ≠ .assigned n →
      (p₁.shared.setParent parent).parents P = f.outputProcessor.shared.parents P := fun P hP => by
    subst hparent
    rw [← hshared]
    exact update_of_ne (fun h => hP (h.trans hid)) _ _
  have hchildren : parent.childRequests = [] := by
    subst hparent
    rfl
  -- only the family of the new parent changes, and it has no child yet
  have hfamily : ∀ P, Family fanOuts' { p₁ with shared := p₁.shared.setParent parent } P := fun P => by
    by_cases hP : P = .assigned n
    · subst hP
      refine ⟨fun fo hfo => ?_, ?_, ?_, ?_, ?_, fun _ => by rw [hself]; rfl⟩
      · cases hself.symm.trans hfo
        refine ⟨⟨n, rfl⟩, by rw [hstates]; exact hnew, hdetok, zero_le _, fun q hq => ?_, ?_⟩
        · cases queue with
          | false => cases hq
          | true =>
            cases hq
            rw [hqueue rfl]
            exact ⟨hid, nofun, rfl⟩
        · rw [hpself, ← hparent, hid]
          exact parentOk_new ..
      · rw [hpself, ← hparent]
        exact hid
      · rw [hpself, hchildren]
        exact nodup_nil
      · rw [hpself, hchildren]
        exact nofun
      · rw [hpself, hchildren]
        exact nofun
    · refine hk.family.congr (hothers P hP) (hpothers P hP) (fun fo hfo => ⟨hqueues P hP, ?_⟩)
        (fun c hrun => ?_) fun hmem => ?_
      · rw [hstates]
        exact (hk.fanOut P fo hfo).notRunning
      · unfold Runs
        rwa [hstates]
      · rwa [hparents] at hmem
  have hk' : Kept fanOuts' [] [] { p₁ with shared := p₁.shared.setParent parent } := by
    refine hk.of_families hstates hids hparents hdrained (fun c t ht => ?_) hfamily
    have hc : c ≠ .assigned n := fun h => by
      rw [h, hnew] at ht
      cases ht
    refine (hk.state c t ht).congr (fun _ => ⟨hothers c hc, hqueues c hc⟩) fun P fo hfo => ?_
    have hP : P ≠ .assigned n := fun h => by
      rw [h, hfan] at hfo
      cases hfo
    refine ⟨_, le_rfl, (hothers P hP).trans hfo, ?_⟩
    rw [hpothers P hP]
    exact Subset.refl _
  refine ⟨hk', ?_, fun m hm => ?_, fun m hm => ?_⟩
  · rw [hstates, hdrained]
    exact hf.drained
  · rw [hstates] at hm
    rw [hid]
    exact Finset.mem_insert_of_mem (hf.running m hm)
  · show m ∈ f.take request.requestId
    rw [hid]
    by_cases hmn : m = n
    · exact hmn ▸ Finset.mem_insert_self _ _
    · have hm' : (fanOuts' (.assigned m)).isSome := hm
      rw [hothers _ fun h => hmn (assigned.inj h)] at hm'
      exact Finset.mem_insert_of_mem (hf.fanOuts m hm')

variable {fo : FanOut α}

theorem ParentOk.child {q : ParentRequest α L}
    (hq : ParentOk P fo q) : ParentOk P { fo with idx := fo.idx + 1 }
      { q with childRequests := q.childRequests.insert (.child fo.idx P) } := by
  refine ⟨hq.outputKind, hq.length, fun hfinal i hi hnot => ?_, hq.index⟩
  have hnot' : RequestId.child i P ∉ q.childRequests.insert (.child fo.idx P) := hnot
  rw [mem_insert_iff, not_or] at hnot'
  have hi' : i < fo.idx + 1 := hi
  have hne : i ≠ fo.idx := fun h => hnot'.1 (by rw [h])
  exact hq.filled hfinal i (by omega) hnot'.2

/-- The next child of a parent does not run yet. -/
theorem Kept.child_fresh {U E : List RequestId} (hk : Kept fanOuts U E p)
    (hfo : fanOuts P = some fo) : p.requestStates.lookup (.child fo.idx P) = none := by
  rw [eq_none_iff_forall_ne_some]
  intro t ht
  have hstate := hk.state _ t ht
  cases hP : t.parentReq with
  | none =>
    obtain ⟨-, ⟨n, hn⟩, -⟩ := hstate.single hP
    cases hn
  | some P' =>
    obtain ⟨fo', hfo', hid, hlt, -⟩ := hstate.child P' hP
    obtain ⟨hindex, rfl⟩ := RequestId.child.inj hid
    cases hfo.symm.trans hfo'
    exact hlt.ne hindex.symm

/-- A parent with its next child. -/
theorem Family.child (h : Family fanOuts p P) (hfo : fanOuts P = some fo)
    (hidx : fo.idx < fo.request.n) (hself : fanOuts' P = some { fo with idx := fo.idx + 1 })
    (hparent : p'.shared.parents P = { p.shared.parents P with
      childRequests := (p.shared.parents P).childRequests.insert (.child fo.idx P) })
    (hnone : p'.requestStates.lookup P = none) (hqueues : p'.queues = p.queues)
    (hnew : p'.Runs P (.child fo.idx P)) (hruns : ∀ c, p.Runs P c → p'.Runs P c) :
    Family fanOuts' p' P := by
  refine ⟨fun fo' hfo' => ?_, ?_, ?_, fun c hc => ?_, fun c hc => .inl ?_, fun _ => by rw [hself]; rfl⟩
  · cases hself.symm.trans hfo'
    obtain ⟨h₁, -, h₃, -, h₅, h₆⟩ := h.fanOut fo hfo
    refine ⟨h₁, hnone, h₃, hidx, ?_, ?_⟩
    · rwa [hqueues]
    · rw [hparent]
      exact h₆.child
  · rw [hparent]
    exact h.parentId
  · rw [hparent]
    exact h.nodup.insert
  · rw [hparent] at hc
    rcases mem_insert_iff.1 hc with rfl | hc
    · exact ⟨_, _, rfl, hself, lt_succ_self _⟩
    · obtain ⟨i, fo', hi, hfo', hlt⟩ := h.childIds c hc
      cases hfo.symm.trans hfo'
      exact ⟨i, _, hi, hself, lt_succ_of_lt hlt⟩
  · rw [hparent] at hc
    rcases mem_insert_iff.1 hc with rfl | hc
    · exact hnew
    · -- an aborted child would mean that the parent has had all its children
      refine hruns c ((h.children c hc).resolve_right ?_)
      rintro ⟨fo', hfo', -, -, hall⟩
      cases hfo.symm.trans hfo'
      exact hidx.ne hall

theorem Tracked.addChild (hf : Tracked f) (hfo : f.fanOuts P = some fo)
    (hidx : fo.idx < fo.request.n) : ∃ f', f.addChild P = .ok f' ∧ Tracked f' := by
  have hk := hf.kept
  have hfok := hk.fanOut P fo hfo
  have hnew := hk.child_fresh hfo
  generalize hparent : ({ f.outputProcessor.shared.parents P with
    childRequests := (f.outputProcessor.shared.parents P).childRequests.insert (.child fo.idx P) } :
    ParentRequest α L) = parent
  obtain ⟨p', hadd, hadded⟩ := addRequest_eq
    (p := { f.outputProcessor with shared := f.outputProcessor.shared.setParent parent })
    { fo.request with requestId := .child fo.idx P, n := 1 } (some P) fo.idx fo.queue hnew
  generalize hs : (fromNewRequest _ (some P) fo.idx fo.queue _) = s at hadded
  have hsid : s.requestId = .child fo.idx P := by
    subst hs
    rfl
  have hsparent : s.parentReq = some P := by
    subst hs
    rfl
  have hlookup : ∀ c, p'.requestStates.lookup c =
      if c = .child fo.idx P then some s else f.outputProcessor.requestStates.lookup c := fun c => by
    rw [hadded.lookup, hsid]
  have hruns := fun {P c : RequestId} =>
    hadded.runs_iff (P := P) (c := c) rfl (hsid ▸ hnew)
  generalize hfanOuts : update f.fanOuts P (some { fo with idx := fo.idx + 1 }) = fanOuts'
  have hself : fanOuts' P = some { fo with idx := fo.idx + 1 } := by
    rw [← hfanOuts, update_self]
  have hothers : ∀ P', P' ≠ P → fanOuts' P' = f.fanOuts P' := fun P' hP' => by
    rw [← hfanOuts, update_of_ne hP']
  have hpself : p'.shared.parents P = parent := by
    rw [hadded.parents]
    subst hparent
    show update _ (f.outputProcessor.shared.parents P).requestId _ P = _
    rw [hk.parentId, update_self]
  have hpothers : ∀ P', P' ≠ P → p'.shared.parents P' = f.outputProcessor.shared.parents P' := by
    intro P' hP'
    rw [hadded.parents]
    subst hparent
    show update _ (f.outputProcessor.shared.parents P).requestId _ P' = _
    rw [hk.parentId, update_of_ne hP']
  -- the child is put into the set of its parent, whose index moves on
  have hk' : Kept fanOuts' [] [] p' := by
    refine hk.add { f.outputProcessor with shared := f.outputProcessor.shared.setParent parent }
      rfl rfl rfl hadded (hsid ▸ hnew) (fun c t ht => ?_) fun P' => ?_
    · rw [hlookup] at ht
      split_ifs at ht with hc
      · cases ht
        subst hs hc
        refine ⟨rfl, fun hnone => ?_, nofun, fun P' hP' => ?_⟩
        · have hsome := hfok.detokenizer
          rw [show fo.request.detokenizer = none from hnone] at hsome
          cases hsome
        · cases hP'
          refine ⟨_, hself, rfl, lt_succ_self _, rfl, rfl, rfl, ?_⟩
          rw [hpself, ← hparent]
          exact mem_insert_self
      · refine (hk.state c t ht).congr (fun _ => ⟨hothers c fun h => ?_, ?_⟩) fun P' fo' hfo' => ?_
        · rw [h, hfok.notRunning] at ht
          cases ht
        · rw [hadded.queues]
        · by_cases hPP : P' = P
          · subst hPP
            cases hfo.symm.trans hfo'
            refine ⟨_, le_succ _, hself, fun c hc => ?_⟩
            rw [hpself, ← hparent]
            exact mem_insert_of_mem hc
          · refine ⟨_, le_rfl, (hothers P' hPP).trans hfo', ?_⟩
            rw [hpothers P' hPP]
            exact Subset.refl _
    · by_cases hPP : P' = P
      · subst hPP
        refine hk.family.child hfo hidx hself (by rw [hpself, ← hparent]) ?_
          hadded.queues (hruns.2 (.inr ⟨hsid.symm, hsparent⟩)) fun c hrun => hruns.2 (.inl hrun)
        obtain ⟨n, hn⟩ := hfok.assigned
        rw [hlookup, if_neg (by rw [hn]; simp)]
        exact hfok.notRunning
      · refine hk.family.congr (hothers P' hPP) (hpothers P' hPP) (fun fo' hfo' => ?_)
          (fun c hrun => hruns.2 (.inl hrun)) fun hmem' => ?_
        · obtain ⟨⟨n, hn⟩, hnone, -⟩ := hk.fanOut P' fo' hfo'
          rw [hadded.queues, hlookup, if_neg (by rw [hn]; simp)]
          exact ⟨rfl, hnone⟩
        · rw [hadded.parentRequests, hsparent] at hmem'
          exact hmem'.resolve_right fun heq => hPP (some.inj heq).symm
  refine ⟨{ f with outputProcessor := p', fanOuts := fanOuts' }, ?_, hk', ?_, fun m hm => ?_,
    fun m hm => ?_⟩
  · have hinfo : (f.outputProcessor.shared.parents P).getChildInfo fo.idx =
        (.child fo.idx P, parent) := by
      subst hparent
      simp [ParentRequest.getChildInfo, hk.parentId]
    unfold EngineFrontend.addChild
    simp only [hfo, hinfo, hadd, hfanOuts]
    rfl
  · have hmem' := mem_entries.2 ((hlookup (.child fo.idx P)).trans (if_pos rfl))
    exact ⟨fun h => hk'.drained h, fun h => absurd h (ne_nil_of_mem hmem')⟩
  · have hm' : (p'.requestStates.lookup (.assigned m)).isSome := hm
    rw [hlookup, if_neg (by simp)] at hm'
    exact hf.running m hm'
  · have hm' : (fanOuts' (.assigned m)).isSome := hm
    by_cases hPP : assigned m = P
    · exact hf.fanOuts m (by rw [hPP, hfo]; rfl)
    · rw [hothers _ hPP] at hm'
      exact hf.fanOuts m hm'

theorem Tracked.get (hf : Tracked f) (queue : RequestId) : Tracked (f.get queue) := by
  have hk := hf.kept
  have hothers : ∀ q, q ≠ queue →
      (f.get queue).outputProcessor.queues q = f.outputProcessor.queues q :=
    fun q hq => update_of_ne hq _ _
  have hself : (f.get queue).outputProcessor.queues queue =
      { f.outputProcessor.queues queue with output := none } := update_self _ _ _
  -- an empty queue is as it should be, whatever is aggregated
  have hqueueOk : ∀ {aggregated logprobs q}, QueueOk aggregated logprobs
      (f.outputProcessor.queues q).output → QueueOk aggregated logprobs
        ((f.get queue).outputProcessor.queues q).output := by
    intro aggregated logprobs q hq
    by_cases h : q = queue
    · rw [h, hself]
      exact nofun
    · rwa [hothers q h]
  have haggregate : ∀ q, ((f.get queue).outputProcessor.queues q).aggregate =
      (f.outputProcessor.queues q).aggregate := by
    intro q
    by_cases h : q = queue
    · rw [h, hself]
    · rw [hothers q h]
  refine ⟨{ hk with
    state := fun c t ht => ?_
    fanOut := fun P fo hfo => ?_
    whole := nofun }, hf.drained, hf.running, hf.fanOuts⟩
  · obtain ⟨h₁, h₂, h₃, h₄⟩ := hk.state c t ht
    refine ⟨h₁, h₂, fun hP => ?_, h₄⟩
    obtain ⟨h₅, h₆, h₇⟩ := h₃ hP
    exact ⟨h₅, h₆, fun q hq => ⟨(h₇ q hq).1, hqueueOk (h₇ q hq).2⟩⟩
  · obtain ⟨h₁, h₂, h₃, h₄, h₅, h₆⟩ := hk.fanOut P fo hfo
    refine ⟨h₁, h₂, h₃, h₄, fun q hq => ?_, h₆⟩
    obtain ⟨h₇, h₈, h₉⟩ := h₅ q hq
    exact ⟨h₇, hqueueOk h₈, (haggregate P).trans h₉⟩

/-! ### Every run -/

/-- The three maps and the event agree. -/
structure Bookkept (p : OutputProcessor α L) : Prop where
  listed : ∀ ext id, id ∈ p.internalIds ext ↔
    ∃ s, p.requestStates.lookup id = some s ∧ s.externalReqId = ext
  parents : ∀ P, P ∈ p.parentRequests ↔
    ∃ id s, p.requestStates.lookup id = some s ∧ s.parentReq = some P
  drained : p.requestsDrained = true ↔ p.requestStates.entries = []
  empty : p.requestStates.entries = [] → p.parentRequests = ∅ ∧ p.externalReqIds.entries = []

theorem Tracked.bookkept (hf : Tracked f) : Bookkept f.outputProcessor := by
  have hk := hf.kept
  have hparents : ∀ P, P ∈ f.outputProcessor.parentRequests ↔ ∃ id, f.outputProcessor.Runs P id :=
    fun P => ⟨fun hP => (hk.of_parents P hP (by simp)).imp fun _ h => h.1,
      fun ⟨id, hrun⟩ => hk.parents_of P id hrun⟩
  have hlisted : ∀ ext id, id ∈ f.outputProcessor.internalIds ext ↔
      ∃ s, f.outputProcessor.requestStates.lookup id = some s ∧ s.externalReqId = ext :=
    fun ext id => by simpa using hk.listed ext id
  refine ⟨hlisted, hparents, hf.drained, fun hnil => ?_⟩
  -- what is left in the other maps would belong to a request
  have hnone : ∀ id, f.outputProcessor.requestStates.lookup id = none := fun id => by
    rw [eq_none_iff_forall_ne_some]
    intro s hs
    have hmem := mem_entries.2 hs
    rw [hnil] at hmem
    cases hmem
  constructor
  · refine Finset.eq_empty_of_forall_notMem fun P hP => ?_
    obtain ⟨id, s, hs, -⟩ := (hparents P).1 hP
    cases (hnone id).symm.trans hs
  · refine eq_nil_iff_forall_not_mem.2 fun ⟨ext, ids⟩ hmem => ?_
    have hids := mem_entries.1 hmem
    cases ids with
    | nil => exact hk.notEmpty ext hids
    | cons id ids =>
      have hid : id ∈ f.outputProcessor.internalIds ext := by
        unfold internalIds
        rw [hids]
        exact .head _
      obtain ⟨s, hs, -⟩ := (hlisted ext id).1 hid
      cases (hnone id).symm.trans hs

/-- The requests that a call finishes or aborts have ended. -/
def Ends [DecidableEq α] (p p' : OutputProcessor α L) : FrontendCall α L → Prop
  | .processOutput o => ∀ s, p.requestStates.lookup o.requestId = some s → s.finishes o = true →
    p'.requestStates.lookup o.requestId = none
  | .abort (.internal ids) => ∀ id ∈ ids, p'.requestStates.lookup id = none ∧
    ∀ c s, p'.requestStates.lookup c = some s → s.parentReq ≠ some id
  | .abort (.external exts) => ∀ ext ∈ exts, ∀ id ∈ p.internalIds ext,
    p'.requestStates.lookup id = none
  | .addRequest _ _ | .fanOut _ _ | .addChild _ | .get _ => True

variable [DecidableEq α] {order : SetOrder RequestId}

variable (order) in
/-- A call that meets the condition does not raise, and keeps the invariant. -/
theorem Tracked.step (hf : Tracked f) (call : FrontendCall α L) (hcall : f.Admissible call)
    (hmeets : Meets f call) :
    ∃ f', f.step order call = .ok f' ∧ Tracked f' ∧ Ends f.outputProcessor f'.outputProcessor call := by
  cases call with
  | addRequest request queue =>
    obtain ⟨⟨n, hn, hid⟩, -⟩ := hcall
    obtain ⟨f', hstep, hf'⟩ := hf.addRequest order hn hid hmeets
    exact ⟨f', hstep, hf', trivial⟩
  | fanOut request queue =>
    obtain ⟨⟨n, hn, hid⟩, -, hdetok⟩ := hcall
    obtain ⟨f', hstep, hf'⟩ := hf.fanOut order queue hn hid hdetok
    exact ⟨f', hstep, hf', trivial⟩
  | addChild P =>
    obtain ⟨fo, hfo, hidx⟩ := hcall
    obtain ⟨f', hstep, hf'⟩ := hf.addChild hfo hidx
    exact ⟨f', hstep, hf', trivial⟩
  | processOutput o =>
    obtain ⟨r, p', hp', hk', hd', hsub, hends⟩ := processOutput_eq hf.kept hf.drained ⟨[], []⟩ o hmeets
    refine ⟨{ f with outputProcessor := p' }, ?_, ⟨hk', hd', fun n hn => hf.running n (hsub _ hn),
      hf.fanOuts⟩, hends⟩
    simp only [EngineFrontend.step, hp', bind]
    rfl
  | get queue => exact ⟨_, rfl, hf.get queue, trivial⟩
  | abort ids =>
    cases ids with
    | internal ids =>
      -- one more call is nested, for the children of a parent
      obtain ⟨r, p', hp', hk', hd', hended, hparents⟩ :=
        abortRequests_internal order 998 hf.kept hmeets
      refine ⟨{ f with outputProcessor := p' }, ?_, ⟨hk', hd', fun n hn =>
        hf.running n (hended.isSome hn), hf.fanOuts⟩, fun id hid => ⟨hended.ended id hid, ?_⟩⟩
      · simp only [EngineFrontend.step, hp', bind]
        rfl
      · exact fun c s hs hP => hparents id hid (hk'.parents_of id c ⟨s, hs, hP⟩)
    | external exts =>
      obtain ⟨r, p', hp', hk', hd', hshrinks, hended⟩ :=
        abortRequests_external order 999 hf.kept hmeets
      refine ⟨{ f with outputProcessor := p' }, ?_, ⟨hk', hd', fun n hn =>
        hf.running n (hshrinks.isSome hn), hf.fanOuts⟩, hended⟩
      simp only [EngineFrontend.step, hp', bind]
      rfl

theorem Run.tracked (h : Run order Meets f) : Tracked f := by
  induction h with
  | new streamInterval => exact tracked_new streamInterval
  | step call _ hcall hmeets hstep ih =>
    obtain ⟨f', hstep', hf', -⟩ := ih.step order call hcall hmeets
    cases hstep.symm.trans hstep'
    exact hf'

/-- The elements of a set in the order in which they were added. -/
def insertionOrder : SetOrder RequestId := ⟨fun l => l, fun l => .refl l⟩

/-- A request without a tokenizer. -/
def plainRequest (outputKind : RequestOutputKind) (n : ℕ) : EngineCoreRequest Char where
  requestId := .assigned 0
  externalReqId := 7
  outputKind := outputKind
  n := n
  logprobs := false
  hasPromptTokenIds := true
  detokenizer := some (.plain [])

/-- The last token of a request. -/
def lastToken (requestId : RequestId) : EngineCoreOutput Char Unit where
  requestId := requestId
  newTokenIds := [0]
  newLogprobs := none
  poolingOutput := none
  finishReason := some .length
  stopReason := none

end LoptVllm.Frontend
