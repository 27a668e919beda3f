import LoptVllm.Frontend.Bookkeeping

/-!
# The parts of a call keep the bookkeeping
-/

namespace LoptVllm.Frontend

open List Option Function OrderedDict OutputProcessor

variable {α L : Type} {fanOuts : RequestId → Option (FanOut α)} {U E : List RequestId}
  {p p' : OutputProcessor α L} {id : RequestId} {s t : RequestState α} {h h' : Shared α L}
  {finished : Bool} {out : Option (Output α L)}

/-! ### An output is delivered -/

/-- An output that a request puts into its collector. -/
def PutOk (aggregated : Option RequestId) (logprobs : Bool) (out : Output α L) : Prop :=
  ∀ o, out = .completion o → match aggregated with
    | none => ∃ c : CompletionOutput α L, o.outputs = .own [some c] ∧ c.logprobs.isSome = logprobs
    | some P => o.outputs = .aggregator P

variable {aggregated : Option RequestId}

theorem PutOk.queueOk {logprobs : Bool} {out : Output α L}
    (hout : PutOk aggregated logprobs out) : QueueOk aggregated logprobs (some out) := by
  rintro o ⟨⟩
  have ho := hout o rfl
  cases aggregated with
  | none =>
    obtain ⟨c, hc, hlog⟩ := ho
    exact ⟨[c], hc, by simpa using hlog⟩
  | some P => exact ho

/-- The aggregator of a parent has no entry that is `None`. -/
structure Full (q : ParentRequest α L) : Prop where
  entries : ∃ cs : List (CompletionOutput α L), q.outputAggregator = cs.map some ∧
    cs.Pairwise fun x y => x.index ≠ y.index

theorem put_eq {q : RequestOutputCollector α L} {logprobs : Bool}
    {out : Output α L} (hq : QueueOk aggregated logprobs q.output)
    (hout : PutOk aggregated logprobs out)
    (hfull : ∀ P, aggregated = some P → q.output.isSome → (h.parents P).requestId = P ∧
      q.aggregate = false ∧ Full (h.parents P)) :
    ∃ q' h', q.put h out = .ok (q', h') ∧ q'.aggregate = q.aggregate ∧
      QueueOk aggregated logprobs q'.output ∧ h'.parents = h.parents := by
  obtain ⟨aggregate, waiting⟩ := q
  unfold RequestOutputCollector.put
  cases waiting with
  | none => exact ⟨_, _, rfl, rfl, hout.queueOk, rfl⟩
  | some old =>
    -- only completions are merged, and a pooling output replaces only another
    cases old with
    | pooling o =>
      cases out with
      | completion next => exact ⟨_, _, rfl, rfl, hq, rfl⟩
      | pooling next => exact ⟨_, _, rfl, rfl, hout.queueOk, rfl⟩
    | completion old =>
      cases out with
      | pooling next => exact ⟨_, _, rfl, rfl, hq, rfl⟩
      | completion next =>
        have hold := hq old rfl
        have hnext := hout next rfl
        obtain ⟨oid, oouts, ofin⟩ := old
        obtain ⟨nid, nouts, nfin⟩ := next
        cases aggregated with
        | none =>
          obtain ⟨cs, rfl, hcs⟩ := hold
          obtain ⟨c, rfl, hc⟩ := hnext
          obtain ⟨cs', h', hadd, hto⟩ := add_own (h := h) aggregate oid nid
            ofin nfin fun x hx => (hcs x hx).trans hc.symm
          refine ⟨⟨aggregate, some (.completion ⟨oid, .own (cs'.map some), ofin || nfin⟩)⟩, h', ?_,
            rfl, ?_, ?_⟩
          · simp only [hadd, bind]
            rfl
          · rintro o ⟨⟩
            exact ⟨cs', rfl, hto.logprobs hcs hc⟩
          · exact hto.parents
        | some P =>
          obtain rfl : oouts = .aggregator P := hold
          obtain rfl : nouts = .aggregator P := hnext
          obtain ⟨hid, hagg, cs, hcs, hindex⟩ := hfull P rfl rfl
          obtain rfl : aggregate = false := hagg
          refine ⟨⟨false, some (.completion ⟨oid, .aggregator P, ofin || nfin⟩)⟩, h, ?_, rfl, ?_, rfl⟩
          · simp only [add_aggregator hid hcs hindex, bind]
            rfl
          · rintro o ⟨⟩
            rfl

/-- An output that is made can be put into the collector; the aggregator of a parent is put there when
no child is left. -/
theorem Made.putOk {out : Output α L} (hmade : Made s h finished (some out) h')
    (hpooling : s.detokenizer = none → s.parentReq = none) :
    PutOk s.aggregated s.logprobs out ∧ ∀ P, s.aggregated = some P → finished = true ∧
      (h.parents P).left s.requestId true = [] := by
  have hnone : s.parentReq = none → s.aggregated = none := fun hP => by
    unfold RequestState.aggregated
    rw [hP, ite_self]
  have hkind' : s.outputKind ≠ .finalOnly → s.aggregated = none := fun hkind => by
    unfold RequestState.aggregated
    rw [if_neg hkind]
  generalize hout : some out = out' at hmade
  cases hmade with
  | withheld => cases hout
  | pooling _ o hs =>
    cases hout
    rw [hnone (hpooling hs)]
    exact ⟨by rintro o ⟨⟩, fun P hP => by cases hP⟩
  | single _ c hs hc =>
    cases hout
    rw [hnone hs]
    refine ⟨?_, fun P hP => by cases hP⟩
    rintro o ⟨⟩
    exact ⟨c, rfl, hc.logprobs⟩
  | streamed _ c hs hkind hc =>
    cases hout
    rw [hkind' hkind]
    refine ⟨?_, fun P hP => by cases hP⟩
    rintro o ⟨⟩
    exact ⟨c, rfl, hc.logprobs⟩
  | @aggregated P c hs hkind hc =>
    have hagg : s.aggregated = some P := by
      unfold RequestState.aggregated
      rw [if_pos hkind, hs]
    split_ifs at hout with hleft
    cases hout
    rw [hagg]
    refine ⟨?_, fun P' hP' => ?_⟩
    · rintro o ⟨⟩
      rfl
    · cases hP'
      exact ⟨rfl, hleft⟩

variable {P : RequestId}

theorem ParentOk.full {fo : FanOut α} {q : ParentRequest α L}
    (hq : ParentOk P fo q) (hfinal : fo.request.outputKind = .finalOnly)
    (hidx : fo.idx = fo.request.n) (hnil : q.childRequests = []) : Full q := by
  have hlen := hq.length hfinal
  have hentry : ∀ i, (hi : i < q.outputAggregator.length) → ∃ c, q.outputAggregator[i] = some c ∧
      c.index = i := by
    intro i hi
    obtain ⟨c, hc⟩ := hq.filled hfinal i (by omega) (by simp [hnil])
    exact ⟨c, (List.getElem?_eq_some_iff.1 hc).2, hq.index i c hc⟩
  choose c hc hindex using hentry
  refine ⟨⟨List.ofFn fun i : Fin q.outputAggregator.length => c i i.2, ?_, ?_⟩⟩
  · refine ext_getElem (by simp) fun i hi _ => ?_
    simp [hc i]
  · refine pairwise_iff_getElem.2 fun i j hi hj hij heq => ?_
    simp only [List.getElem_ofFn, hindex] at heq
    omega

/-- An aggregator that waits in the queue of a request is not put there again before all children
are added. -/
def Whole (fanOuts : RequestId → Option (FanOut α)) (p : OutputProcessor α L) (id : RequestId)
    (s : RequestState α) (finished : Bool) : Prop :=
  ∀ P fo, s.queue = some P → s.aggregated = some P → fanOuts P = some fo → finished = true →
    (p.queues P).output.isSome → (p.shared.parents P).left id true = [] → fo.idx = fo.request.n

/-- An output of a request can be delivered. -/
theorem deliver_eq (hk : Kept fanOuts U E p) (hs : p.requestStates.lookup id = some s)
    (hparents : h.parents = p.shared.parents)
    (hmade : Made s h finished out h') (hwhole : Whole fanOuts p id s finished)
    (states : OrderedDict RequestId (RequestState α)) : ∃ outs p',
      deliver { p with requestStates := states, shared := h' } s.queue out =
        .ok (outs, p') ∧ p'.requestStates = states ∧ Delivered s finished p p' := by
  have hstate := hk.state id s hs
  have hstep : ParentStep s finished h h' :=
    hmade.parentStep (fun P => by rw [hparents]; exact hk.parentId P)
      fun hnone => (hstate.pooling hnone).2.2
  have hstep' : ParentStep s finished p.shared h' := by
    refine ⟨fun P hP => ?_, fun P hP => ?_⟩
    · rw [hstep.others P hP, hparents]
    · rw [← hparents]
      exact hstep.parent P hP
  -- the output may be put on top of what waits in the queue
  have hqueueOk : ∀ q, s.queue = some q → QueueOk s.aggregated s.logprobs (p.queues q).output ∧
      ∀ P, s.aggregated = some P → q = P ∧ (p.queues P).aggregate = false ∧
        ∃ fo, fanOuts P = some fo ∧ ParentOk P fo (h'.parents P) ∧
          fo.request.outputKind = .finalOnly := by
    intro q hq
    cases hP : s.parentReq with
    | none =>
      have hagg : s.aggregated = none := by
        unfold RequestState.aggregated
        rw [hP, ite_self]
      obtain ⟨-, -, hqueue⟩ := hstate.single hP
      obtain ⟨rfl, hqok⟩ := hqueue q hq
      rw [hagg]
      exact ⟨hqok, fun P h => by cases h⟩
    | some P =>
      obtain ⟨fo, hfo, hid, hlt, hkind, hlog, hq', hmem⟩ := hstate.child P hP
      have hf := hk.fanOut P fo hfo
      obtain ⟨rfl, hqok, haggregate⟩ := hf.queue q (hq' ▸ hq)
      have hagg : s.aggregated = fo.aggregated q := by
        unfold RequestState.aggregated FanOut.aggregated
        rw [hkind, hP]
      rw [hagg, hlog]
      refine ⟨hqok, fun P' hP' => ?_⟩
      unfold FanOut.aggregated at hP'
      split_ifs at hP' with hfinal
      cases hP'
      refine ⟨rfl, by simp [haggregate, hfinal], fo, hfo, ?_, hfinal⟩
      exact hstep'.parentOk hf.parent (hk.nodupChildren q) hf.idx_le
        ⟨hP, hstate.requestId.trans hid, hlt, hkind, hstate.requestId ▸ hmem⟩
  have hnothing : Delivered s finished p { p with requestStates := states, shared := h' } :=
    ⟨hstep', ⟨fun _ _ => rfl, fun _ => rfl, fun q hq => (hqueueOk q hq).1, fun _ _ _ _ hout _ => hout⟩,
      rfl, rfl, rfl⟩
  unfold deliver
  cases out with
  | none => exact ⟨_, _, rfl, rfl, hnothing⟩
  | some out =>
    cases hq : s.queue with
    | none => exact ⟨_, _, rfl, rfl, hnothing⟩
    | some q =>
      obtain ⟨hqok, hagg⟩ := hqueueOk q hq
      obtain ⟨hput, hlast⟩ := hmade.putOk fun hnone => (hstate.pooling hnone).2.2
      obtain ⟨q', h'', hput', haggregate, hqok', hparents'⟩ := put_eq hqok hput
        fun P hP hsome => by
          obtain ⟨rfl, haggregate, fo, hfo, hparent, hfinal⟩ := hagg P hP
          obtain ⟨rfl, hleft⟩ := hlast q hP
          have hleft' := hleft
          rw [hparents, hstate.requestId] at hleft'
          obtain ⟨ag, hag, -⟩ := hstep.parent q (s.parentReq_of_aggregated hP)
          have hnil : (h'.parents q).childRequests = [] := by
            rw [hag]
            exact hleft
          refine ⟨?_, haggregate, hparent.full hfinal (hwhole q fo hq hP hfo rfl hsome hleft') hnil⟩
          rw [hag, hparents]
          exact hk.parentId q
      refine ⟨[], { p with
        requestStates := states
        shared := h''
        queues := update p.queues q q' }, ?_, rfl, ?_, ?_, rfl, rfl, rfl⟩
      · simp only [putOutput, hput', bind]
        rfl
      · refine ⟨fun P hP => ?_, fun P hP => ?_⟩
        · rw [hparents']
          exact hstep'.others P hP
        · rw [hparents']
          exact hstep'.parent P hP
      · refine ⟨fun q₁ hne => ?_, fun q₁ => ?_, fun q₁ hq₁ => ?_, fun q₁ P hq₁ hP hnone hleft => ?_⟩
        · have hq₁ : q₁ ≠ q := fun heq => hne (hq.trans (congrArg some heq.symm))
          exact update_of_ne hq₁ _ _
        · show (update p.queues q q' q₁).aggregate = _
          by_cases heq : q₁ = q
          · rw [heq, update_self, haggregate]
          · rw [update_of_ne heq]
        · cases hq.symm.trans hq₁
          show QueueOk _ _ (update p.queues q q' q).output
          rw [update_self]
          exact hqok'
        · -- an aggregator is only put there when no child is left
          obtain ⟨rfl, hnil⟩ := hlast P hP
          obtain ⟨ag, hag, -⟩ := hstep.parent P (s.parentReq_of_aggregated hP)
          refine absurd ?_ hleft
          rw [hparents', hag]
          exact hnil

/-! ### The maps -/

theorem Kept.congrIds {U' : List RequestId} (hk : Kept fanOuts U E p)
    (hU : ∀ c, (p.requestStates.lookup c).isSome → (c ∈ U ↔ c ∈ U')) : Kept fanOuts U' E p := by
  refine { hk with listed := fun ext c => ?_, of_parents := fun P hP hPE => ?_ }
  · rw [hk.listed]
    refine exists_congr fun s => and_congr_right fun hs => and_congr_right fun _ => not_congr ?_
    exact hU c (by rw [hs]; rfl)
  · obtain ⟨c, hrun, hc⟩ := hk.of_parents P hP hPE
    obtain ⟨s, hs, hparent⟩ := hrun
    exact ⟨c, ⟨s, hs, hparent⟩, fun h => hc ((hU c (by rw [hs]; rfl)).2 h)⟩

/-- The children of a parent without a queue are not added after it is aborted. -/
def Settled (fanOuts : RequestId → Option (FanOut α)) (p : OutputProcessor α L) (P : RequestId) :
    Prop :=
  ∀ fo, fanOuts P = some fo → fo.queue = none → (p.shared.parents P).childRequests ≠ [] →
    fo.idx = fo.request.n

section

variable (hk : Kept fanOuts U E p)

include hk

/-- Other parents are to be removed. -/
theorem Kept.congrParents {E' : List RequestId}
    (hE : ∀ P ∈ E, P ∈ E' ∨ P ∉ p.parentRequests ∧ Settled fanOuts p P)
    (hwhole : ∀ P ∈ E', P ∉ E → ∀ fo, fanOuts P = some fo → fo.queue.isSome →
      fo.request.outputKind = .finalOnly → (p.queues P).output.isSome →
      (p.shared.parents P).childRequests ≠ [] → fo.idx = fo.request.n) : Kept fanOuts U E' p := by
  refine { hk with children := fun P c hc => ?_, of_parents := fun P hP hPE => ?_, whole := ?_ }
  · refine (hk.children P c hc).imp_right ?_
    rintro ⟨fo, hfo, hq, hPE | hP⟩
    · rcases hE P hPE with hPE' | ⟨hP, hsettled⟩
      · exact ⟨fo, hfo, hq, .inl hPE'⟩
      · exact ⟨fo, hfo, hq, .inr ⟨hP, hsettled fo hfo hq (ne_nil_of_mem hc)⟩⟩
    · exact ⟨fo, hfo, hq, .inr hP⟩
  · refine hk.of_parents P hP fun hPE' => ?_
    rcases hE P hPE' with h | h
    · exact hPE h
    · exact h.1 hP
  · intro P hP fo hfo hq hfinal hsome hne
    by_cases hPE : P ∈ E
    · exact hk.whole P hPE fo hfo hq hfinal hsome hne
    · exact hwhole P hP hPE fo hfo hq hfinal hsome hne

theorem Kept.drop {U' : List RequestId}
    (hs : p.requestStates.lookup id = some s) (hq : s.queue = none)
    (hP : ∀ P, s.parentReq = some P → P ∈ E) (hU : ∀ c, c ∈ U ↔ c ∈ U' ∨ c = id) :
    Kept fanOuts U' E { p with requestStates := p.requestStates.erase id } := by
  generalize hp' : ({ p with requestStates := p.requestStates.erase id } : OutputProcessor α L) = p'
  have hlookup : ∀ c t, p'.requestStates.lookup c = some t ↔
      p.requestStates.lookup c = some t ∧ c ≠ id := by
    intro c t
    subst hp'
    rw [lookup_erase']
    split_ifs with hc <;> simp [hc]
  have hruns : ∀ {P c}, p'.Runs P c ↔ p.Runs P c ∧ c ≠ id := by
    intro P c
    constructor
    · rintro ⟨t, ht, hparent⟩
      obtain ⟨ht, hne⟩ := (hlookup c t).1 ht
      exact ⟨⟨t, ht, hparent⟩, hne⟩
    · rintro ⟨⟨t, ht, hparent⟩, hne⟩
      exact ⟨t, (hlookup c t).2 ⟨ht, hne⟩, hparent⟩
  subst hp'
  exact {
    state := fun c t ht => by
      obtain ⟨h₁, h₂, h₃, h₄⟩ := hk.state c t ((hlookup c t).1 ht).1
      exact ⟨h₁, h₂, h₃, h₄⟩
    fanOut := fun P fo hfo => by
      obtain ⟨h₁, h₂, h₃, h₄, h₅, h₆⟩ := hk.fanOut P fo hfo
      refine ⟨h₁, ?_, h₃, h₄, h₅, h₆⟩
      rw [eq_none_iff_forall_ne_some]
      intro t ht
      cases h₂.symm.trans ((hlookup P t).1 ht).1
    parentId := hk.parentId
    nodupChildren := hk.nodupChildren
    childIds := hk.childIds
    children := fun P c hc => by
      rcases hk.children P c hc with hrun | h
      -- without a queue the child stays in the set of its parent
      · by_cases hcid : c = id
        · subst hcid
          obtain ⟨t, ht, hparent⟩ := hrun
          cases hs.symm.trans ht
          obtain ⟨fo, hfo, -, -, -, -, hqueue, -⟩ := (hk.state c s hs).child P hparent
          exact .inr ⟨fo, hfo, hqueue.symm.trans hq, .inl (hP P hparent)⟩
        · exact .inl (hruns.2 ⟨hrun, hcid⟩)
      · exact .inr h
    listed := fun ext c => by
      show c ∈ p.internalIds ext ↔ _
      rw [hk.listed]
      refine exists_congr fun t => ?_
      rw [hlookup, hU, not_or]
      tauto
    nodup := hk.nodup
    notEmpty := hk.notEmpty
    parents_of := fun P c hrun => hk.parents_of P c (hruns.1 hrun).1
    of_parents := fun P hP hPE => by
      obtain ⟨c, hrun, hc⟩ := hk.of_parents P hP hPE
      rw [hU, not_or] at hc
      exact ⟨c, hruns.2 ⟨hrun, hc.2⟩, hc.1⟩
    parentFanOut := hk.parentFanOut
    drained := fun hd => by
      have hmem := mem_entries.2 hs
      rw [hk.drained hd] at hmem
      cases hmem
    whole := hk.whole }

/-- A parent that has no child any more is removed. -/
theorem Kept.unparent (hP : ∀ c, ¬ p.Runs P c) :
    Kept fanOuts U E { p with parentRequests := p.parentRequests.erase P } := by
  refine { hk with
    state := fun c t ht => (hk.state c t ht).same rfl rfl
    fanOut := fun P fo hfo => (hk.fanOut P fo hfo).same rfl rfl rfl
    children := fun P' c hc => ?_
    parents_of := fun P' c hrun => ?_
    of_parents := fun P' hP' hPE => ?_
    parentFanOut := fun P' hP' => ?_ }
  · refine (hk.children P' c hc).imp_right ?_
    rintro ⟨fo, hfo, hq, hPE | ⟨hP', hidx⟩⟩
    · exact ⟨fo, hfo, hq, .inl hPE⟩
    · exact ⟨fo, hfo, hq, .inr ⟨fun h => hP' (Finset.mem_of_mem_erase h), hidx⟩⟩
  · refine Finset.mem_erase.2 ⟨fun heq => ?_, hk.parents_of P' c hrun⟩
    subst heq
    exact hP c hrun
  · exact hk.of_parents P' (Finset.mem_of_mem_erase hP') hPE
  · exact hk.parentFanOut P' (Finset.mem_of_mem_erase hP')

theorem Kept.setDrained : Kept fanOuts U E p.setDrained := by
  unfold OutputProcessor.setDrained
  split_ifs with hnil
  · exact { hk with
      state := fun c t ht => (hk.state c t ht).same rfl rfl
      fanOut := fun P fo hfo => (hk.fanOut P fo hfo).same rfl rfl rfl
      drained := fun _ => hnil }
  · exact hk

end

/-! ### `process_outputs` -/

theorem Kept.known (hk : Kept fanOuts U E p) (hs : p.requestStates.lookup id = some s)
    (hsame : SameRequest s t) (hparents : h.parents = p.shared.parents) : Known t h := by
  have hstate := hk.state id s hs
  have hnone := hsame.detokenizer_eq_none
  obtain ⟨d, o, rfl, -⟩ := hsame
  refine ⟨fun hd => hstate.pooling (hnone.1 hd), fun P _ => ?_, fun P hP => ?_, fun P hP => ?_,
    fun P hP hfinal => ?_⟩
  · rw [hparents]
    exact hk.parentId P
  all_goals
    obtain ⟨fo, hfo, hid, hlt, hkind, hlog, hqueue, hmem⟩ := hstate.child P hP
    have hf := hk.fanOut P fo hfo
    rw [hparents]
  · exact hf.parent.outputKind.trans hkind.symm
  · exact hstate.requestId.symm ▸ hmem
  · have := hf.parent.length (hkind.symm.trans hfinal)
    have := hf.idx_le
    show s.requestIndex < _
    omega

/-- The lists of external ids alone decide how an id is removed. -/
theorem removeInternalId_congr (p' : OutputProcessor α L) {ext : ℕ} {d : OrderedDict ℕ (List RequestId)}
    (hd : p.removeInternalId ext id = .ok (p.withIds d))
    (hids : p'.externalReqIds = p.externalReqIds) :
    p'.removeInternalId ext id = .ok (p'.withIds d) := by
  unfold removeInternalId internalIds at hd ⊢
  dsimp only at hd ⊢
  rw [hids]
  split_ifs at hd ⊢ with hmem hnil
  all_goals
    simp only [Except.ok.injEq, mk.injEq] at hd
    rw [hd.2.2.2.1]

/-- A child that finishes is the last one, or another child runs. -/
theorem Kept.left_eq_nil_or (hk : Kept fanOuts U [] p) (hrun : p.Runs P id)
    : (p.shared.parents P).left id true = [] ∨ ∃ c, p.Runs P c ∧ c ≠ id := by
  rcases eq_nil_or_concat ((p.shared.parents P).left id true) with hnil | ⟨l, c, hl⟩
  · exact .inl hnil
  · have hc : c ∈ (p.shared.parents P).left id true := by simp [hl]
    obtain ⟨hc, hne⟩ := (ParentRequest.mem_left (hk.nodupChildren P)).1 hc
    refine .inr ⟨c, ?_, fun heq => hne ⟨rfl, heq⟩⟩
    rcases hk.children P c hc with h | ⟨fo, -, -, h | h⟩
    · exact h
    · cases h
    · exact absurd (hk.parents_of P id hrun) h.1

/-- The event is set if no request is left. -/
theorem setDrained_iff (h : p.requestsDrained = true → p.requestStates.entries = []) :
    p.setDrained.requestsDrained = true ↔ p.setDrained.requestStates.entries = [] := by
  unfold OutputProcessor.setDrained
  split_ifs with hnil
  · simp [hnil]
  · exact ⟨fun hd => absurd (h hd) hnil, fun h => absurd h hnil⟩

@[simp] theorem setDrained_requestStates : p.setDrained.requestStates = p.requestStates := by
  unfold OutputProcessor.setDrained
  split_ifs <;> rfl

@[simp] theorem setDrained_parentRequests : p.setDrained.parentRequests = p.parentRequests := by
  unfold OutputProcessor.setDrained
  split_ifs <;> rfl

theorem freeCompleted_eq (hk : Kept fanOuts [] [] p) (hs : p.requestStates.lookup id = some s)
    (hsame : SameRequest s t) (hdel : Delivered s true p p')
    (hstates : p'.requestStates = p.requestStates.setItem id t)
    (hwhole : Whole fanOuts p id s true) : ∃ p'', p'.freeCompleted id t = .ok p'' ∧
      Kept fanOuts [] [] p'' ∧ (p''.requestsDrained = true ↔ p''.requestStates.entries = []) ∧
      ∀ c, p''.requestStates.lookup c = if c = id then none else p.requestStates.lookup c := by
  have hstate := hk.state id s hs
  -- the last child takes its parent along
  obtain ⟨E, hkE, hP, hE⟩ : ∃ E, Kept fanOuts [] E p ∧
      (∀ P, s.parentReq = some P → P ∈ E ∨ ∃ c, p.Runs P c ∧ c ≠ id ∧ c ∉ ([] : List RequestId)) ∧
      ∀ P ∈ E, s.parentReq = some P ∧ (p.shared.parents P).left id true = [] := by
    cases hparent : s.parentReq with
    | none => exact ⟨[], hk, nofun, nofun⟩
    | some P =>
      rcases hk.left_eq_nil_or ⟨s, hs, hparent⟩ with hnil | ⟨c, hrun, hne⟩
      · refine ⟨[P], hk.congrParents (fun _ h => by cases h) ?_, ?_, ?_⟩
        · intro P' hP' _ fo hfo hq hfinal hsome _
          obtain rfl := mem_singleton.1 hP'
          obtain ⟨fo', hfo', -, -, hkind, -, hqueue, -⟩ := hstate.child P' hparent
          cases hfo.symm.trans hfo'
          obtain ⟨q, hq⟩ := isSome_iff_exists.1 hq
          obtain ⟨rfl, -⟩ := (hk.fanOut P' fo hfo).queue q hq
          refine hwhole q fo (hqueue.trans hq) ?_ hfo rfl hsome hnil
          unfold RequestState.aggregated
          rw [if_pos (hkind.trans hfinal), hparent]
        · rintro P' ⟨⟩
          exact .inl (.head _)
        · intro P' hP'
          obtain rfl := mem_singleton.1 hP'
          exact ⟨rfl, hnil⟩
      · refine ⟨[], hk, fun P' hP' => ?_, nofun⟩
        cases hP'
        exact .inr ⟨c, hrun, hne, by simp⟩
  obtain ⟨d, hd, hkd⟩ := hkE.removeInternalId hs (by simp) hP
  generalize hq : ({ p' with
    requestStates := p'.requestStates.erase id, externalReqIds := d } : OutputProcessor α L) = q
  have heffect : Effect id s true (p.withIds d) q := by
    subst hq
    obtain ⟨hothers, haggregate, hqueue, hwaits⟩ := hdel.queues
    refine {
      parents := hdel.parents
      queues := ⟨hothers, haggregate, hqueue, hwaits⟩
      parentRequests := hdel.parentRequests
      externalReqIds := rfl
      requestsDrained := hdel.requestsDrained
      states := ?_
      self := ?_ }
    · intro id' hne
      rw [lookup_erase', if_neg hne, hstates, lookup_setItem, if_neg hne]
    · rw [if_pos rfl]
      rw [lookup_erase', if_pos rfl]
  have hkq : Kept fanOuts [] E q := heffect.kept hkd hs (by simp)
  have hlookup : ∀ c, q.requestStates.lookup c = if c = id then none else p.requestStates.lookup c := by
    intro c
    split_ifs with hc
    · have hself := heffect.self
      rwa [if_pos rfl, ← hc] at hself
    · exact heffect.states c hc
  have hchildren : ∀ P, s.parentReq = some P →
      (q.shared.parents P).childRequests = (p.shared.parents P).left id true := by
    intro P hP
    obtain ⟨ag, hag, -⟩ := heffect.parents.parent P hP
    rw [hag, hstate.requestId]
  have hremove : removeInternalId
      { p' with requestStates := p'.requestStates.erase id } s.externalReqId id = .ok q := by
    rw [removeInternalId_congr { p' with requestStates := p'.requestStates.erase id } hd
      hdel.externalReqIds, ← hq]
  obtain ⟨dt, o, rfl, -⟩ := hsame
  unfold freeCompleted
  simp only [hremove, ok_bind]
  cases hparent : s.parentReq with
  | none =>
    have hE' : E = [] := eq_nil_iff_forall_not_mem.2 fun P hP => by
      have := (hE P hP).1
      rw [hparent] at this
      cases this
    subst hE'
    refine ⟨_, rfl, hkq.setDrained, setDrained_iff hkq.drained, ?_⟩
    rw [setDrained_requestStates]
    exact hlookup
  | some P =>
    dsimp only
    rw [hchildren P hparent]
    by_cases hnil : (p.shared.parents P).left id true = []
    · rw [if_pos hnil]
      have hnone : ∀ c, ¬ q.Runs P c := by
        rintro c ⟨u, hu, hPu⟩
        obtain ⟨-, -, -, -, -, -, -, hmem⟩ := (hkq.state c u hu).child P hPu
        rw [hchildren P hparent, hnil] at hmem
        cases hmem
      have hku : Kept fanOuts _ [] _ :=
        (hkq.unparent hnone).congrParents (fun P' hP' => .inr ⟨?_, ?_⟩) fun _ h => by cases h
      · refine ⟨_, rfl, hku.setDrained, setDrained_iff hku.drained, ?_⟩
        rw [setDrained_requestStates]
        exact hlookup
      · obtain ⟨hP', -⟩ := hE P' hP'
        cases hparent.symm.trans hP'
        exact Finset.notMem_erase _ _
      · obtain ⟨hP', -⟩ := hE P' hP'
        cases hparent.symm.trans hP'
        intro fo _ _ hne
        exact absurd ((hchildren P hparent).trans hnil) hne
    · rw [if_neg hnil]
      have hE' : E = [] := eq_nil_iff_forall_not_mem.2 fun P' hP' => by
        obtain ⟨h, hnil'⟩ := hE P' hP'
        cases hparent.symm.trans h
        exact hnil hnil'
      subst hE'
      refine ⟨_, rfl, hkq.setDrained, setDrained_iff hkq.drained, ?_⟩
      rw [setDrained_requestStates]
      exact hlookup

variable [DecidableEq α]

/-- An engine output that is for the request: a pooling output for a pooling request, and logprobs if
they are requested. A parent whose output waits is not finished before all its children are added. -/
structure OutputMeets (fanOuts : RequestId → Option (FanOut α)) (p : OutputProcessor α L)
    (o : EngineCoreOutput α L) (s : RequestState α) : Prop where
  pooling : o.poolingOutput = none ↔ s.detokenizer ≠ none
  logprobs : o.poolingOutput = none → o.newLogprobs ≠ none → s.logprobs = true
  whole : Whole fanOuts p o.requestId s (s.finishes o)

theorem processOutput_eq (hk : Kept fanOuts [] [] p)
    (hd : p.requestsDrained = true ↔ p.requestStates.entries = []) (r : Returned α L)
    (o : EngineCoreOutput α L)
    (hmeets : ∀ s, p.requestStates.lookup o.requestId = some s → OutputMeets fanOuts p o s) :
    ∃ r' p', p.processOutput r o = .ok (r', p') ∧ Kept fanOuts [] [] p' ∧
      (p'.requestsDrained = true ↔ p'.requestStates.entries = []) ∧
      (∀ c, (p'.requestStates.lookup c).isSome → (p.requestStates.lookup c).isSome) ∧
      ∀ s, p.requestStates.lookup o.requestId = some s → s.finishes o = true →
        p'.requestStates.lookup o.requestId = none := by
  unfold processOutput
  cases hs : p.requestStates.lookup o.requestId with
  | none => exact ⟨r, p, rfl, hk, hd, fun _ h => h, nofun⟩
  | some s =>
    obtain ⟨hpooling, hlog, hwhole⟩ := hmeets s hs
    obtain ⟨finishReason, stopReason, t, h, hupdate, hsame, hparents, hfin⟩ :=
      updateFromOutput_eq p.shared hpooling hlog
    obtain ⟨out, t', h', hmake, hsame', hmade⟩ := makeRequestOutput_made (hk.known hs hsame hparents)
      o.newTokenIds o.poolingOutput
      (by rw [hpooling, ne_eq, ne_eq, hsame.detokenizer_eq_none]) finishReason stopReason
    rw [hfin] at hmade
    have hqueue : t'.queue = s.queue := by
      obtain ⟨d, o, rfl, -⟩ := hsame.trans hsame'
      rfl
    obtain ⟨outs, p', hdeliver, hstates, hdel⟩ := deliver_eq hk hs hparents (hmade.of_same hsame)
      hwhole (p.requestStates.setItem o.requestId t')
    simp only [hupdate, hmake, hqueue, hdeliver, ok_bind]
    cases finishReason with
    | none =>
      have hfin' : s.finishes o = false := hfin.symm
      rw [hfin'] at hdel
      have heffect : Effect o.requestId s false p p' := by
        refine { hdel with states := fun id' hne => ?_, self := ?_ }
        · rw [hstates, lookup_setItem, if_neg hne]
        · rw [if_neg (by simp)]
          exact ⟨t', by rw [hstates, lookup_setItem, if_pos rfl], hsame.trans hsame'⟩
      have hk' : Kept fanOuts [] [] p' := heffect.kept hk hs (by simp)
      refine ⟨_, p', rfl, hk', ?_, fun c hc => ?_, fun s' hs' hf => ?_⟩
      · have hself := heffect.self
        obtain ⟨s', hs', -⟩ := hself
        have hne : p'.requestStates.entries ≠ [] := ne_nil_of_mem (mem_entries.2 hs')
        exact ⟨fun h => hk'.drained h, fun h => absurd h hne⟩
      · by_cases hne : c = o.requestId
        · rw [hne, hs]
          rfl
        · rwa [← heffect.states c hne]
      · cases hs'
        rw [hfin'] at hf
        cases hf
    | some reason =>
      -- the request has finished, and is freed
      have hfin' : s.finishes o = true := hfin.symm
      rw [hfin'] at hdel hwhole
      obtain ⟨p'', hfree, hk'', hd'', hlookup⟩ :=
        freeCompleted_eq hk hs (hsame.trans hsame') hdel hstates hwhole
      have hsub : ∀ c, (p''.requestStates.lookup c).isSome → (p.requestStates.lookup c).isSome := by
        intro c hc
        rw [hlookup] at hc
        split_ifs at hc
        · cases hc
        · exact hc
      have hnone : p''.requestStates.lookup o.requestId = none := by rw [hlookup, if_pos rfl]
      simp only [hfree]
      split_ifs <;> exact ⟨_, p'', rfl, hk'', hd'', hsub, fun _ _ _ => hnone⟩

end LoptVllm.Frontend
