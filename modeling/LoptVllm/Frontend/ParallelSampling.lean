import LoptVllm.Frontend.BookkeepingRun
import LoptVllm.Frontend.MergedStream

/-!
# Parallel sampling
-/

namespace LoptVllm.Frontend

open ParentRequest OutputProcessor RequestId

open List Option Function Finset CompletionOutput Output EngineFrontend RequestOutputCollector

variable {α L : Type} {fanOuts : RequestId → Option (FanOut α)} {p p' : OutputProcessor α L}
  {id : RequestId} {s : RequestState α} {f f' : EngineFrontend α L}

/-! ### The stream -/

/-- The index of a completion, and whether it is the last one. -/
def CompletionOutput.mark (c : CompletionOutput α L) : ℕ × Bool := (c.index, c.finished)

/-- The view of an output. -/
def Output.view : Output α L → View
  | .completion o => ⟨match o.outputs with
    | .own l => l.map (Option.map mark)
    | .aggregator _ => [], o.finished⟩
  | .pooling o => ⟨[], o.finished⟩

variable (f)

/-- The outputs that the consumer of a queue has received, and the one that waits there. -/
def EngineFrontend.stream (queue : RequestId) : List (Output α L) :=
  f.received queue ++ ((f.outputProcessor.queues queue).output.map
    (Output.copy f.outputProcessor.shared)).toList

/-- The views of the outputs of a stream. -/
def EngineFrontend.views (queue : RequestId) : List View :=
  (f.stream queue).map view

variable {f}

theorem view_copy (h : Shared α L) (o : RequestOutput α L) : (Output.copy h (.completion o)).view =
      ⟨(o.outputs.entries h).map (Option.map mark), o.finished⟩ := by
  unfold Output.copy view
  simp only [List.map_map]
  congr 1
  refine map_congr_left fun c _ => ?_
  cases c <;> rfl

variable {h : Shared α L} {P : RequestId} {fo : FanOut α}

/-- The views of an output that waits in the queue of a parallel sampling request. -/
theorem view_copy_congr (h' : Shared α L) {o : Output α L}
    (hq : QueueOk (fo.aggregated P) fo.request.logprobs (some o))
    (hP : (h'.parents P).outputAggregator = (h.parents P).outputAggregator) :
    (Output.copy h' o).view = (Output.copy h o).view := by
  cases o with
  | pooling o => rfl
  | completion o =>
    rw [view_copy, view_copy]
    have ho := hq o rfl
    unfold FanOut.aggregated at ho
    split_ifs at ho
    · rw [show o.outputs = .aggregator P from ho]
      simp [Completions.entries, hP]
    · obtain ⟨cs, hcs, -⟩ := ho
      rw [hcs]
      rfl

theorem views_congr (hf : FanOutOk f.outputProcessor P fo) (hqueue : fo.queue.isSome)
    (hreceived : f'.received P = f.received P)
    (houtput : (f'.outputProcessor.queues P).output = (f.outputProcessor.queues P).output)
    (hP : (f'.outputProcessor.shared.parents P).outputAggregator =
      (f.outputProcessor.shared.parents P).outputAggregator) : f'.views P = f.views P := by
  obtain ⟨q, hq⟩ := isSome_iff_exists.1 hqueue
  obtain ⟨rfl, hqok, -⟩ := hf.queue q hq
  unfold views EngineFrontend.stream
  rw [hreceived, houtput]
  cases hout : (f.outputProcessor.queues q).output with
  | none => rfl
  | some o =>
    rw [hout] at hqok
    simp [view_copy_congr _ hqok hP]

/-! ### What an engine output changes of the stream -/

variable {h' : Shared α L} {ext : ℕ} {c : CompletionOutput α L}

theorem put_views {q q' : RequestOutputCollector α L} {fin : Bool} (R : List View)
    (hkind : fo.request.outputKind ≠ .finalOnly)
    (hq : QueueOk (fo.aggregated P) fo.request.logprobs q.output)
    (hcompletion : ∀ o, q.output = some o → ∃ o', o = .completion o')
    (hlog : c.logprobs.isSome = fo.request.logprobs)
    (hput : q.put h (.completion ⟨ext, .own [some c], fin⟩) = .ok (q', h')) :
    h'.parents = h.parents ∧ (∀ o, q'.output = some o → ∃ o', o = .completion o') ∧
      Puts c.index c.finished fin (R ++ (q.output.map fun o => (Output.copy h o).view).toList)
        (R ++ (q'.output.map fun o => (Output.copy h' o).view).toList) := by
  obtain ⟨aggregate, waiting⟩ := q
  unfold put at hput
  cases waiting with
  | none =>
    cases hput
    refine ⟨rfl, fun o ho => ⟨_, (some.inj ho).symm⟩, ?_⟩
    simp only [map_none, toList_none, append_nil, map_some]
    exact .append
  | some old =>
    obtain ⟨⟨oid, outs, ofin⟩, rfl⟩ := hcompletion old rfl
    have hold := hq ⟨oid, outs, ofin⟩ rfl
    unfold FanOut.aggregated at hold
    rw [if_neg hkind] at hold
    obtain ⟨cs, hcs, hlogs⟩ := hold
    obtain rfl : outs = .own (cs.map some) := hcs
    obtain ⟨cs', h'', hadd, hto⟩ := add_own (h := h) aggregate oid ext ofin fin
      fun x hx => (hlogs x hx).trans hlog.symm
    simp only [hadd, bind] at hput
    cases hput
    refine ⟨hto.parents, fun o ho => ⟨_, (some.inj ho).symm⟩, ?_⟩
    simp only [map_some, view_copy, Completions.entries, List.map_map]
    cases hto with
    | append hne =>
      rw [map_append]
      exact .merge R _ ofin rfl
    | @merge l r x x' _ _ hl hx hx' hindex hfinish =>
      have hmark : x'.mark = c.mark := by
        unfold mark finished
        rw [hindex, hfinish]
      simp only [map_append, List.map_cons, comp_apply, map_some, hmark]
      refine .replace R _ _ x.finished ofin ?_
      simp [mark, hx]

/-! ### The invariant -/

theorem views_eq (f : EngineFrontend α L) (q : RequestId) : f.views q =
    (f.received q).map view ++ ((f.outputProcessor.queues q).output.map fun o =>
      (Output.copy f.outputProcessor.shared o).view).toList := by
  unfold views EngineFrontend.stream
  rw [map_append]
  cases (f.outputProcessor.queues q).output <;> rfl

/-- The stream of a parallel sampling request. -/
structure StreamOk (f : EngineFrontend α L) (P : RequestId) (fo : FanOut α) : Prop where
  many : 1 < fo.request.n
  entries : ∀ c : CompletionOutput α L,
    some c ∈ (f.outputProcessor.shared.parents P).outputAggregator → c.finished = true
  completion : fo.queue.isSome → ∀ o, (f.outputProcessor.queues P).output = some o →
    ∃ o', o = .completion o'
  merged : fo.queue.isSome → Merged fo.request.n fo.idx fo.request.outputKind
    (fun i => .child i P ∈ (f.outputProcessor.shared.parents P).childRequests) (f.views P)

theorem StreamOk.congr (hS : StreamOk f P fo) (hf : FanOutOk f.outputProcessor P fo)
    (hreceived : f'.received P = f.received P)
    (houtput : (f'.outputProcessor.queues P).output = (f.outputProcessor.queues P).output)
    (hP : f'.outputProcessor.shared.parents P = f.outputProcessor.shared.parents P) :
    StreamOk f' P fo := by
  refine ⟨hS.many, ?_, ?_, fun hqueue => ?_⟩
  · rw [hP]
    exact hS.entries
  · rw [houtput]
    exact hS.completion
  · rw [hP, views_congr hf hqueue hreceived houtput (by rw [hP])]
    exact hS.merged hqueue

variable {finished : Bool}

/-- The children that a completion leaves. -/
theorem Kept.mem_left_child (hk : Kept fanOuts [] [] p) {k i : ℕ} :
    .child i P ∈ (p.shared.parents P).left (.child k P) finished ↔
      .child i P ∈ (p.shared.parents P).childRequests ∧ ¬ (finished = true ∧ i = k) := by
  rw [mem_left (hk.nodupChildren P)]
  simp

theorem left_eq_nil_iff (hk : Kept fanOuts [] [] p) : (p.shared.parents P).left id finished = [] ↔
      ∀ i, .child i P ∉ (p.shared.parents P).left id finished := by
  refine ⟨fun h i => by simp [h], fun h => eq_nil_iff_forall_not_mem.2 fun c hc => ?_⟩
  have hmem := ((mem_left (hk.nodupChildren P)).1 hc).1
  obtain ⟨i, -, rfl, -⟩ := hk.childIds P c hmem
  exact h i hc

variable {q : ParentRequest α L}

theorem ParentOk.marks (hq : ParentOk P fo q)
    (hfinal : fo.request.outputKind = .finalOnly) (hidx : fo.idx = fo.request.n)
    (hnil : q.childRequests = [])
    (hentries : ∀ c : CompletionOutput α L, some c ∈ q.outputAggregator → c.finished = true) :
    q.outputAggregator.map (Option.map mark) = (wholeView fo.request.n).completions := by
  have hlen := hq.length hfinal
  refine ext_getElem (by simp [wholeView, hlen]) fun i hi _ => ?_
  rw [length_map] at hi
  obtain ⟨c, hc⟩ := hq.filled hfinal i (by omega) (by simp [hnil])
  have hget := (List.getElem?_eq_some_iff.1 hc).2
  have hmem : some c ∈ q.outputAggregator := hget ▸ getElem_mem hi
  simp [wholeView, hget, mark, hq.index i c hc, hentries c hmem]

theorem putOutput_eq_ok {queue : RequestId} {out : Output α L} (h : p.putOutput queue out = .ok p') :
    ∃ q h', (p.queues queue).put p.shared out = .ok (q, h') ∧
      p' = { p with queues := update p.queues queue q, shared := h' } := by
  obtain ⟨v, hput, h⟩ := bind_ok.1 h
  cases h
  exact ⟨v.1, v.2, hput, rfl⟩

theorem views_eq_nil {q : RequestId} (h : f.views q = []) :
    f.received q = [] ∧ (f.outputProcessor.queues q).output = none := by
  rw [views_eq] at h
  obtain ⟨h₁, h₂⟩ := append_eq_nil_iff.1 h
  refine ⟨map_eq_nil_iff.1 h₁, ?_⟩
  cases hout : (f.outputProcessor.queues q).output with
  | none => rfl
  | some o => simp [hout] at h₂

theorem setParent_parents (hq : q.requestId = P) : (h.setParent q).parents P = q := by
  subst hq
  exact update_self _ _ _

section

variable (hS : StreamOk f P fo) (hk : Kept f.fanOuts [] [] f.outputProcessor)
  (hfo : f.fanOuts P = some fo) (hchild : ChildOf P fo s (f.outputProcessor.shared.parents P))

include hS hk hfo hchild

variable {states : OrderedDict RequestId (RequestState α)} {outs : List (Output α L)}

theorem StreamOk.streamed {p'' : OutputProcessor α L}
    (hlog : s.logprobs = fo.request.logprobs) (hkind : fo.request.outputKind ≠ .finalOnly)
    (hc : CompletionOf s finished c) (hidx : finished = true →
      (f.outputProcessor.shared.parents P).left s.requestId true = [] → fo.idx = fo.request.n)
    (hparents : h'.parents P = { f.outputProcessor.shared.parents P with
      childRequests := (f.outputProcessor.shared.parents P).left s.requestId finished })
    (hdeliver : deliver
      { f.outputProcessor with requestStates := states, shared := h' } fo.queue
      (some (.completion ⟨ext, .own [some c],
        (f.outputProcessor.shared.parents P).left s.requestId finished = []⟩)) = .ok (outs, p''))
    (hshared : p'.shared = p''.shared) (hqueues : p'.queues = p''.queues) :
    StreamOk { f with outputProcessor := p' } P fo := by
  have hfok := hk.fanOut P fo hfo
  cases hqueue : fo.queue with
  | none =>
    rw [hqueue] at hdeliver
    cases hdeliver
    refine ⟨hS.many, fun c hc => hS.entries c ?_, fun h => by simp [hqueue] at h,
      fun h => by simp [hqueue] at h⟩
    have hc' : some c ∈ (p'.shared.parents P).outputAggregator := hc
    rw [hshared, hparents] at hc'
    exact hc'
  | some q =>
    obtain ⟨rfl, hqok, -⟩ := hfok.queue q hqueue
    have hsome : fo.queue.isSome := by rw [hqueue]; rfl
    rw [hqueue] at hdeliver
    obtain ⟨q', h'', hput, rfl⟩ := putOutput_eq_ok (putOutput_of_deliver hdeliver)
    obtain ⟨hh, hcompletion, hputs⟩ := put_views ((f.received q).map view) hkind hqok
      (hS.completion hsome) (hc.logprobs.trans hlog) hput
    have hparents' : p'.shared.parents q = { f.outputProcessor.shared.parents q with
        childRequests := (f.outputProcessor.shared.parents q).left s.requestId finished } := by
      rw [hshared]
      exact (congrFun hh q).trans hparents
    have hq' : p'.queues q = q' := by
      rw [hqueues]
      exact update_self _ _ _
    have hviews : f.views q = (f.received q).map view ++
        ((f.outputProcessor.queues q).output.map fun o => (Output.copy h' o).view).toList := by
      rw [views_eq]
      cases hout : (f.outputProcessor.queues q).output with
      | none => rfl
      | some o =>
        rw [hout] at hqok
        rw [map_some, map_some,
          view_copy_congr (h := f.outputProcessor.shared) h' hqok (by rw [hparents])]
    have hviews' : views { f with outputProcessor := p' } q =
        (f.received q).map view ++ (q'.output.map fun o => (Output.copy h'' o).view).toList := by
      rw [views_eq]
      rw [hq', hshared]
    refine ⟨hS.many, fun c hc => hS.entries c ?_, fun _ => ?_, fun _ => ?_⟩
    · have hc' : some c ∈ (p'.shared.parents q).outputAggregator := hc
      rw [hparents'] at hc'
      exact hc'
    · show ∀ o, (p'.queues q).output = some o → _
      rw [hq']
      exact hcompletion
    · rw [hviews']
      rw [← hviews] at hputs
      have hrunning : ∀ i, child i q ∈ (p'.shared.parents q).childRequests ↔
          .child i q ∈ (f.outputProcessor.shared.parents q).childRequests ∧
            ¬ (c.finished = true ∧ i = c.index) := by
        intro i
        rw [hparents', hchild.requestId, hc.finished, hc.index]
        exact hk.mem_left_child
      refine (hS.merged hsome).emit hkind ?_ ?_ hrunning ?_ (fun hnil => ?_) hputs
      · rw [hc.index, ← hchild.requestId]
        exact hchild.mem
      · rw [hc.index]
        exact hchild.requestIndex
      · rw [decide_eq_true_iff, left_eq_nil_iff hk]
        rw [hparents']
      · rw [decide_eq_true_iff] at hnil
        cases finished with
        | true => exact hidx rfl hnil
        | false =>
          have hmem := hchild.mem
          rw [show (f.outputProcessor.shared.parents q).childRequests = [] from hnil] at hmem
          cases hmem

/-- A child puts its last completion into the aggregator, which is handed out by the last child. -/
theorem StreamOk.aggregated {p'' : OutputProcessor α L}
    (hkind : fo.request.outputKind = .finalOnly) (hc : CompletionOf s true c)
    (hidx : (f.outputProcessor.shared.parents P).left s.requestId true = [] →
      fo.idx = fo.request.n) (hparents : h'.parents P = { f.outputProcessor.shared.parents P with
      childRequests := (f.outputProcessor.shared.parents P).left s.requestId true
      outputAggregator := (f.outputProcessor.shared.parents P).outputAggregator.set c.index (some c) })
    (hok : ParentOk P fo (h'.parents P)) (hdeliver : deliver
      { f.outputProcessor with requestStates := states, shared := h' } fo.queue
      (if (f.outputProcessor.shared.parents P).left s.requestId true = [] then
        some (.completion ⟨ext, .aggregator P, true⟩) else none) = .ok (outs, p''))
    (hshared : p'.shared = p''.shared) (hqueues : p'.queues = p''.queues) :
    StreamOk { f with outputProcessor := p' } P fo := by
  have hfok := hk.fanOut P fo hfo
  have hentries : ∀ c : CompletionOutput α L, some c ∈ (h'.parents P).outputAggregator →
      c.finished = true := by
    intro x hx
    rw [hparents] at hx
    rcases mem_or_eq_of_mem_set hx with hx | hx
    · exact hS.entries x hx
    · cases hx
      exact hc.finished
  have hrunning : ∀ i, child i P ∈ (h'.parents P).childRequests ↔
      .child i P ∈ (f.outputProcessor.shared.parents P).left s.requestId true := fun i => by
    rw [hparents]
  have hk' : child s.requestIndex P ∈ (f.outputProcessor.shared.parents P).childRequests :=
    hchild.requestId ▸ hchild.mem
  by_cases hleft : (f.outputProcessor.shared.parents P).left s.requestId true = []
  -- the last child: the aggregator is handed out
  · rw [if_pos hleft] at hdeliver
    have hnil : (h'.parents P).childRequests = [] := by
      rw [hparents]
      exact hleft
    cases hqueue : fo.queue with
    | none =>
      rw [hqueue] at hdeliver
      cases hdeliver
      refine ⟨hS.many, ?_, fun h => by simp [hqueue] at h, fun h => by simp [hqueue] at h⟩
      rw [hshared]
      exact hentries
    | some q =>
      obtain ⟨rfl, -, -⟩ := hfok.queue q hqueue
      have hsome : fo.queue.isSome := by rw [hqueue]; rfl
      rw [hqueue] at hdeliver
      obtain ⟨q', h'', hput, rfl⟩ := putOutput_eq_ok (putOutput_of_deliver hdeliver)
      have hempty := (hS.merged hsome).eq_nil hkind (.inr ⟨_, hk'⟩)
      obtain ⟨hreceived, houtput⟩ := views_eq_nil hempty
      simp only [put, houtput] at hput
      cases hput
      have hparents' : p'.shared.parents q = h'.parents q := by rw [hshared]
      have hq' : (p'.queues q).output = some (.completion ⟨ext, .aggregator q, true⟩) := by
        rw [hqueues]
        show (update f.outputProcessor.queues q _ q).output = _
        rw [update_self]
      have hviews : views { f with outputProcessor := p' } q = [wholeView fo.request.n] := by
        rw [views_eq]
        rw [hq', hreceived]
        simp only [map_some, view_copy, Completions.entries]
        rw [hparents', hok.marks hkind (hidx hleft) hnil hentries]
        rfl
      refine ⟨hS.many, ?_, fun _ => ?_, fun _ => ?_⟩
      · show ∀ c : CompletionOutput α L, some c ∈ (p'.shared.parents q).outputAggregator → _
        rw [hparents']
        exact hentries
      · show ∀ o, (p'.queues q).output = some o → _
        rw [hq']
        exact fun o ho => ⟨_, (some.inj ho).symm⟩
      · rw [hviews]
        refine ((hS.merged hsome).whole hkind hk' (fun i hi => ?_) (hidx hleft)).2
        have hi' : child i q ∈ (p'.shared.parents q).childRequests := hi
        rw [hparents', hnil] at hi'
        cases hi'
  -- other children run on: nothing is handed out
  · rw [if_neg hleft] at hdeliver
    cases hdeliver
    have hparents' : p'.shared.parents P = h'.parents P := by rw [hshared]
    have hq' : p'.queues P = f.outputProcessor.queues P := by rw [hqueues]
    refine ⟨hS.many, ?_, fun hsome => ?_, fun hsome => ?_⟩
    · show ∀ c : CompletionOutput α L, some c ∈ (p'.shared.parents P).outputAggregator → _
      rw [hparents']
      exact hentries
    · show ∀ o, (p'.queues P).output = some o → _
      rw [hq']
      exact hS.completion hsome
    · have hnil := (hS.merged hsome).eq_nil hkind (.inr ⟨_, hk'⟩)
      obtain ⟨hreceived, houtput⟩ := views_eq_nil hnil
      have hnil' : views { f with outputProcessor := p' } P = [] := by
        rw [views_eq]
        rw [hq', hreceived, houtput]
        rfl
      rw [hnil', ← hnil]
      refine (hS.merged hsome).silent hkind hk' ?_
      rw [hparents']
      by_contra hnone
      refine hleft ((left_eq_nil_iff hk).2 fun i hi => hnone ⟨i, (hrunning i).2 hi⟩)

end

variable [DecidableEq α] {o : EngineCoreOutput α L} {r r' : Returned α L}

theorem processOutput_delivers (hk : Kept fanOuts [] [] p)
    (hs : p.requestStates.lookup o.requestId = some s) (hmeets : OutputMeets fanOuts p o s)
    (hok : p.processOutput r o = .ok (r', p')) :
    ∃ h out h' states outs p'', h.parents = p.shared.parents ∧ Made s h (s.finishes o) out h' ∧
      deliver { p with requestStates := states, shared := h' } s.queue out =
        .ok (outs, p'') ∧ p'.shared = p''.shared ∧ p'.queues = p''.queues := by
  obtain ⟨finishReason, stopReason, t, h, hupdate, hsame, hparents, hfin⟩ :=
    updateFromOutput_eq p.shared hmeets.pooling hmeets.logprobs
  obtain ⟨out, t', h', hmake, hsame', hmade⟩ := makeRequestOutput_made (hk.known hs hsame hparents)
    o.newTokenIds o.poolingOutput
    (by rw [hmeets.pooling, ne_eq, ne_eq, hsame.detokenizer_eq_none]) finishReason stopReason
  rw [hfin] at hmade
  have hqueue : t'.queue = s.queue := by
    obtain ⟨d, o, rfl, -⟩ := hsame.trans hsame'
    rfl
  unfold processOutput at hok
  rw [hs] at hok
  obtain ⟨r₁, hupdate', hok⟩ := bind_ok.1 hok
  cases hupdate.symm.trans hupdate'
  obtain ⟨r₂, hmake', hok⟩ := bind_ok.1 hok
  cases hmake.symm.trans hmake'
  obtain ⟨v, hdeliver, hok⟩ := bind_ok.1 hok
  rw [hqueue] at hdeliver
  refine ⟨h, out, h', _, v.1, v.2, hparents, hmade.of_same hsame, hdeliver, ?_⟩
  cases finishReason with
  | none =>
    cases hok
    exact ⟨rfl, rfl⟩
  | some reason =>
    obtain ⟨p'', hfree, hok⟩ := bind_ok.1 hok
    obtain ⟨h₁, h₂, -⟩ := freeCompleted_frame hfree
    split_ifs at hok
    all_goals
      cases hok
      exact ⟨h₁, h₂⟩

/-- A child finishes when all children are added, or another child runs. -/
def AddedFirst (f : EngineFrontend α L) (o : EngineCoreOutput α L) (s : RequestState α) : Prop :=
  ∀ P fo, s.parentReq = some P → f.fanOuts P = some fo → s.finishes o = true →
    fo.idx = fo.request.n ∨ ∃ c, f.outputProcessor.Runs P c ∧ c ≠ o.requestId

theorem AddedFirst.idx_eq (hf : Tracked f) (hadded : AddedFirst f o s) (hP : s.parentReq = some P)
    (hfo : f.fanOuts P = some fo) (hfin : s.finishes o = true)
    (hleft : (f.outputProcessor.shared.parents P).left o.requestId true = []) :
    fo.idx = fo.request.n := by
  refine (hadded P fo hP hfo hfin).resolve_right fun ⟨c, ⟨t, ht, hPt⟩, hne⟩ => ?_
  obtain ⟨-, -, -, -, -, -, -, hmem⟩ := (hf.kept.state c t ht).child P hPt
  have hc : c ∈ (f.outputProcessor.shared.parents P).left o.requestId true :=
    (mem_left (hf.kept.nodupChildren P)).2 ⟨hmem, fun h => hne h.2⟩
  rw [hleft] at hc
  cases hc

/-- The stream after an output of a child. -/
theorem StreamOk.processOutput (hS : StreamOk f P fo) (hf : Tracked f) (hfo : f.fanOuts P = some fo)
    (hs : f.outputProcessor.requestStates.lookup o.requestId = some s) (hP : s.parentReq = some P)
    (hmeets : OutputMeets f.fanOuts f.outputProcessor o s) (hadded : AddedFirst f o s)
    (hok : f.outputProcessor.processOutput r o = .ok (r', p')) :
    StreamOk { f with outputProcessor := p' } P fo := by
  have hk := hf.kept
  have hstate := hk.state _ s hs
  have hfok := hk.fanOut P fo hfo
  obtain ⟨fo', hfo', hid, hlt, hkind, hlog, hqueue, hmem⟩ := hstate.child P hP
  cases hfo.symm.trans hfo'
  obtain ⟨h, out, h', states, outs, p'', hparents, hmade, hdeliver, hshared, hqueues⟩ :=
    processOutput_delivers hk hs hmeets hok
  have hchild : ChildOf P fo s (f.outputProcessor.shared.parents P) :=
    ⟨hP, hstate.requestId.trans hid, hlt, hkind, hstate.requestId ▸ hmem⟩
  have hidx : s.finishes o = true →
      (f.outputProcessor.shared.parents P).left s.requestId true = [] → fo.idx = fo.request.n :=
    fun hfin hleft => hadded.idx_eq hf hP hfo hfin (hstate.requestId ▸ hleft)
  have hstep := hmade.parentStep (fun P => by rw [hparents]; exact hk.parentId P)
    fun hnone => (hstate.pooling hnone).2.2
  have hparent : ParentOk P fo (h'.parents P) := by
    refine hstep.parentOk ?_ ?_ hfok.idx_le ?_
    all_goals rw [hparents]
    · exact hfok.parent
    · exact hk.nodupChildren P
    · exact hchild
  generalize hfinished : s.finishes o = finished at *
  cases hmade with
  | withheld =>
    cases hdeliver
    refine hS.congr hfok rfl ?_ ?_
    · show (p'.queues P).output = _
      rw [hqueues]
    · show p'.shared.parents P = _
      rw [hshared]
      exact congrFun hparents P
  | pooling _ _ hnone => cases hP.symm.trans (hstate.pooling hnone).2.2
  | single _ _ hnone => cases hP.symm.trans hnone
  | @streamed _ P' c hP' hkind' hc =>
    cases hP.symm.trans hP'
    have hparents' : (h.setParent { h.parents P with
        childRequests := (h.parents P).left s.requestId finished }).parents P =
          { f.outputProcessor.shared.parents P with
            childRequests := (f.outputProcessor.shared.parents P).left s.requestId finished } := by
      rw [setParent_parents (by show (h.parents P).requestId = P; rw [hparents]; exact hk.parentId P),
        hparents]
    rw [hparents] at hdeliver
    exact hS.streamed hk hfo hchild hlog (fun h => hkind' (hkind.trans h)) hc hidx (hparents ▸ hparents')
      (hqueue ▸ hdeliver) hshared hqueues
  | @aggregated P' c hP' hkind' hc =>
    cases hP.symm.trans hP'
    rw [hparents] at hdeliver hparent
    exact hS.aggregated hk hfo hchild (hkind.symm.trans hkind') hc (hidx rfl)
      (setParent_parents (hk.parentId P)) hparent (hqueue ▸ hdeliver) hshared hqueues

/-! ### Every run -/

/-- The condition on a call: a child finishes when all children are added, or another child runs.
Nothing is aborted. -/
def AddsFirst (f : EngineFrontend α L) : FrontendCall α L → Prop
  | .addRequest request queue => Meets f (.addRequest request queue)
  | .processOutput o => ∀ s, f.outputProcessor.requestStates.lookup o.requestId = some s →
    (o.poolingOutput = none ↔ s.detokenizer ≠ none) ∧
      (o.poolingOutput = none → o.newLogprobs ≠ none → s.logprobs = true) ∧ AddedFirst f o s
  | .abort _ => False
  | .fanOut _ _ | .addChild _ | .get _ => True

theorem AddsFirst.outputMeets (hf : Tracked f) (h : AddsFirst f (.processOutput o))
    (hs : f.outputProcessor.requestStates.lookup o.requestId = some s) :
    OutputMeets f.fanOuts f.outputProcessor o s := by
  obtain ⟨h₁, h₂, hadded⟩ := h s hs
  refine ⟨h₁, h₂, fun P fo _ hagg hfo hfin _ hleft => ?_⟩
  exact hadded.idx_eq hf (s.parentReq_of_aggregated hagg) hfo hfin hleft

theorem AddsFirst.meets (hf : Tracked f) {call : FrontendCall α L} (h : AddsFirst f call) :
    Meets f call := by
  cases call with
  | addRequest request queue => exact h
  | processOutput o => exact fun s hs => h.outputMeets hf hs
  | abort ids => exact h.elim
  | fanOut request queue => trivial
  | addChild P => trivial
  | get queue => trivial

/-- The invariant of the streams. -/
structure Streams (f : EngineFrontend α L) : Prop where
  stream : ∀ P fo, f.fanOuts P = some fo → StreamOk f P fo
  fresh : ∀ n, n ∉ f.assigned → f.received (.assigned n) = [] ∧
    (f.outputProcessor.queues (.assigned n)).output = none

variable {order : SetOrder RequestId}

omit [DecidableEq α] in
theorem notMem_take {n m : ℕ} {id : RequestId} (hid : id = .assigned n) (hm : m ∉ f.take id) :
    .assigned m ≠ id ∧ m ∉ f.assigned := by
  subst hid
  refine ⟨fun h => ?_, fun h => hm (mem_insert_of_mem h)⟩
  obtain rfl := assigned.inj h
  exact hm (mem_insert_self _ _)

section

variable (hS : Streams f) (hf : Tracked f)

include hS hf

variable {request : EngineCoreRequest α}

theorem Streams.addRequest {queue : Bool} {n : ℕ} (hn : n ∉ f.assigned)
    (hid : request.requestId = .assigned n)
    (hstep : f.step order (.addRequest request queue) = .ok f') : Streams f' := by
  obtain ⟨hnew, hfan⟩ := hf.fresh hn
  have hmade := queueMade f request queue
  generalize hp₁ : (if queue then f.newQueue request else f.outputProcessor) = p₁ at hmade
  obtain ⟨hstates, -, -, -, hshared, -, hqueues, -⟩ := hmade
  obtain ⟨p', hadd, hadded⟩ := addRequest_eq request none 0
    (if queue then some request.requestId else none) (by rw [hstates, hid]; exact hnew)
  simp only [step, hp₁, hadd, pure] at hstep
  cases hstep
  refine ⟨fun P fo hfo => ?_, fun m hm => ?_⟩
  · have hPn : P ≠ request.requestId := fun h => by
      rw [h, hid, hfan] at hfo
      cases hfo
    refine (hS.stream P fo hfo).congr (hf.kept.fanOut P fo hfo) rfl ?_ ?_
    · show (p'.queues P).output = _
      rw [hadded.queues, hqueues P hPn]
    · show p'.shared.parents P = _
      rw [hadded.parents, hshared]
  · obtain ⟨hmn, hm'⟩ := notMem_take hid hm
    rw [hadded.queues, hqueues _ hmn]
    exact hS.fresh m hm'

theorem Streams.fanOut {queue : Bool} {n : ℕ} (hn : n ∉ f.assigned) (hid : request.requestId = .assigned n)
    (hmany : 1 < request.n)
    (hstep : f.step order (.fanOut request queue) = .ok f') : Streams f' := by
  cases hstep
  have hmade := queueMade f request queue
  generalize (if queue then f.newQueue request else f.outputProcessor) = p₁ at hmade
  obtain ⟨-, -, -, -, hshared, -, hqueues, hqueue⟩ := hmade
  generalize hparent : (ParentRequest.new request.requestId request.externalReqId request.n
    request.outputKind : ParentRequest α L) = parent
  have hparentId : parent.requestId = request.requestId := by
    rw [← hparent]
    rfl
  refine ⟨fun P fo hfo => ?_, fun m hm => ?_⟩
  -- only the new parent has another queue and another aggregator
  · by_cases hP : P = request.requestId
    · subst hP
      have hfo' : update f.fanOuts request.requestId
        (some ⟨request, if queue then some request.requestId else none, 0⟩) request.requestId =
          some fo := hfo
      rw [update_self] at hfo'
      cases hfo'
      have hself : (p₁.shared.setParent parent).parents request.requestId = parent :=
        setParent_parents hparentId
      have houtput : queue = true → (p₁.queues request.requestId).output = none := fun h => by
        rw [hqueue h]
        rfl
      refine ⟨hmany, fun c hc => ?_, fun h o ho => ?_, fun h => ?_⟩
      · have hc' : some c ∈ ((p₁.shared.setParent parent).parents request.requestId).outputAggregator :=
          hc
        rw [hself, ← hparent] at hc'
        unfold ParentRequest.new at hc'
        split_ifs at hc'
        · cases (mem_replicate.1 hc').2
        · cases hc'
      · cases queue with
        | false => cases h
        | true => cases (houtput rfl).symm.trans ho
      · cases queue with
        | false => cases h
        | true =>
          have hviews : views { f with
              outputProcessor := { p₁ with shared := p₁.shared.setParent parent }
              assigned := f.take request.requestId } request.requestId = [] := by
            rw [views_eq]
            rw [houtput rfl, hid, (hS.fresh n hn).1]
            rfl
          refine (Merged.congr (Merged.new (by omega : 0 < request.n)) fun i => ?_).of_eq hviews
          rw [hself, ← hparent]
          exact iff_of_false nofun id
    · have hfo' : update f.fanOuts request.requestId
        (some ⟨request, if queue then some request.requestId else none, 0⟩) P = some fo := hfo
      rw [update_of_ne hP] at hfo'
      refine (hS.stream P fo hfo').congr (hf.kept.fanOut P fo hfo') rfl ?_ ?_
      · show (p₁.queues P).output = _
        rw [hqueues P hP]
      · show (p₁.shared.setParent parent).parents P = _
        rw [← hshared]
        exact update_of_ne (fun h => hP (h.trans hparentId)) _ _
  · obtain ⟨hmn, hm'⟩ := notMem_take hid hm
    rw [hqueues _ hmn]
    exact hS.fresh m hm'

omit [DecidableEq α] in
theorem Streams.addChild (hfo : f.fanOuts P = some fo)
    (hidx : fo.idx < fo.request.n) (hstep : f.addChild P = .ok f') : Streams f' := by
  have hk := hf.kept
  have hnew := hk.child_fresh hfo
  have hinfo : (f.outputProcessor.shared.parents P).getChildInfo fo.idx =
      (.child fo.idx P, ((f.outputProcessor.shared.parents P).getChildInfo fo.idx).2) := by
    simp [getChildInfo, hk.parentId]
  generalize hparent : ((f.outputProcessor.shared.parents P).getChildInfo fo.idx).2 = parent at hinfo
  have hparentId : parent.requestId = P := by
    rw [← hparent]
    exact hk.parentId P
  obtain ⟨p', hadd, hadded⟩ := addRequest_eq
    (p := { f.outputProcessor with shared := f.outputProcessor.shared.setParent parent })
    { fo.request with requestId := .child fo.idx P, n := 1 } (some P) fo.idx fo.queue hnew
  unfold EngineFrontend.addChild at hstep
  simp only [hfo, hinfo, hadd, pure] at hstep
  cases hstep
  have hqueues : p'.queues = f.outputProcessor.queues := hadded.queues
  have hself : p'.shared.parents P = parent := by
    rw [hadded.parents]
    exact setParent_parents hparentId
  refine ⟨fun P' fo' hfo' => ?_, fun m hm => ?_⟩
  · by_cases hP : P' = P
    · subst hP
      have hfo'' : update f.fanOuts P' (some { fo with idx := fo.idx + 1 }) P' = some fo' := hfo'
      rw [update_self] at hfo''
      cases hfo''
      have hold := hS.stream P' fo hfo
      refine ⟨hold.many, fun c hc => hold.entries c ?_, fun hsome o ho => hold.completion hsome o ?_,
        fun hsome => ?_⟩
      · have hc' : some c ∈ (p'.shared.parents P').outputAggregator := hc
        rw [hself, ← hparent] at hc'
        exact hc'
      · have ho' : (p'.queues P').output = some o := ho
        rwa [hqueues] at ho'
      · refine (((hold.merged hsome).child hidx).congr fun i => ?_).of_eq ?_
        · show child i P' ∈ (p'.shared.parents P').childRequests ↔ _
          rw [hself, ← hparent]
          show _ ∈ List.insert _ _ ↔ _
          rw [mem_insert_iff, hk.parentId, or_comm]
          simp
        · refine views_congr (hk.fanOut P' fo hfo) hsome rfl ?_ ?_
          · show (p'.queues P').output = _
            rw [hqueues]
          · show (p'.shared.parents P').outputAggregator = _
            rw [hself, ← hparent]
            rfl
    · have hfo'' : update f.fanOuts P (some { fo with idx := fo.idx + 1 }) P' = some fo' := hfo'
      rw [update_of_ne hP] at hfo''
      refine (hS.stream P' fo' hfo'').congr (hk.fanOut P' fo' hfo'') rfl ?_ ?_
      · show (p'.queues P').output = _
        rw [hqueues]
      · show p'.shared.parents P' = _
        rw [hadded.parents]
        exact update_of_ne (fun h => hP (h.trans hparentId)) _ _
  · show f.received _ = [] ∧ (p'.queues _).output = none
    rw [hqueues]
    exact hS.fresh m hm

theorem Streams.processOutput (hmeets : AddsFirst f (.processOutput o))
    (hstep : f.step order (.processOutput o) = .ok f') : Streams f' := by
  have hk := hf.kept
  obtain ⟨⟨r', p'⟩, hok, hstep⟩ := bind_ok.1 hstep
  cases hstep
  cases hs : f.outputProcessor.requestStates.lookup o.requestId with
  | none =>
    unfold processOutput at hok
    simp only [hs] at hok
    cases hok
    exact hS
  | some s =>
    have hom := hmeets.outputMeets hf hs
    obtain ⟨h, out, h', states, outs, p'', hparents, hmade, hdeliver, hshared, hqueues⟩ :=
      processOutput_delivers hk hs hom hok
    obtain ⟨outs', p₂, hdeliver', -, hdel⟩ := deliver_eq hk hs hparents hmade hom.whole states
    cases hdeliver.symm.trans hdeliver'
    -- the queues of other requests are not touched
    have hothers : ∀ q, s.queue ≠ some q → p'.queues q = f.outputProcessor.queues q := fun q hq => by
      rw [hqueues]
      exact hdel.queues.others q hq
    refine ⟨fun P fo hfo => ?_, fun m hm => ?_⟩
    · by_cases hP : s.parentReq = some P
      · exact (hS.stream P fo hfo).processOutput hf hfo hs hP hom (hmeets s hs).2.2 hok
      · refine (hS.stream P fo hfo).congr (hk.fanOut P fo hfo) rfl ?_ ?_
        · show (p'.queues P).output = _
          rw [hothers P fun hq => ?_]
          rcases hk.queue_ne hs hq with ⟨-, -, hnone⟩ | ⟨fo', hP', -⟩
          · cases hfo.symm.trans hnone
          · exact hP hP'
        · show p'.shared.parents P = _
          rw [hshared]
          exact hdel.parents.others P hP
    · show f.received _ = [] ∧ (p'.queues _).output = none
      rw [hothers _ fun hq => ?_]
      · exact hS.fresh m hm
      · rcases hk.queue_ne hs hq with ⟨-, hid, -⟩ | ⟨fo', -, hfo'⟩
        · exact hm (hf.running m (by rw [hid, hs]; rfl))
        · exact hm (hf.fanOuts m (by rw [hfo']; rfl))

omit [DecidableEq α] in
theorem Streams.get (q : RequestId) : Streams (f.get q) := by
  have hothers : ∀ c, c ≠ q → (f.get q).received c = f.received c ∧
      (f.get q).outputProcessor.queues c = f.outputProcessor.queues c :=
    fun c hc => ⟨update_of_ne hc _ _, update_of_ne hc _ _⟩
  have hreceived : (f.get q).received q = f.stream q := update_self _ _ _
  have hself : (f.get q).outputProcessor.queues q =
      { f.outputProcessor.queues q with output := none } := update_self _ _ _
  have houtput : ((f.get q).outputProcessor.queues q).output = none := by rw [hself]
  refine ⟨fun P fo hfo => ?_, fun m hm => ?_⟩
  · have hold := hS.stream P fo hfo
    by_cases hP : P = q
    · subst hP
      have hviews : (f.get P).views P = f.views P := by
        rw [views_eq, hreceived, houtput]
        exact append_nil _
      refine ⟨hold.many, hold.entries, fun _ o ho => ?_,
        fun hsome => (hold.merged hsome).of_eq hviews⟩
      cases houtput.symm.trans ho
    · exact hold.congr (hf.kept.fanOut P fo hfo) (hothers P hP).1 (by rw [(hothers P hP).2]) rfl
  · obtain ⟨h₁, h₂⟩ := hS.fresh m hm
    by_cases hmq : assigned m = q
    · subst hmq
      rw [hreceived, houtput]
      unfold EngineFrontend.stream
      rw [h₁, h₂]
      exact ⟨rfl, rfl⟩
    · rw [(hothers _ hmq).1, (hothers _ hmq).2]
      exact ⟨h₁, h₂⟩

end

variable {order : SetOrder RequestId}

theorem Run.streams (h : Run order AddsFirst f) : Tracked f ∧ Streams f := by
  induction h with
  | new streamInterval => exact ⟨tracked_new streamInterval, nofun, fun _ _ => ⟨rfl, rfl⟩⟩
  | step call _ hcall hmeets hstep ih =>
    obtain ⟨hf, hS⟩ := ih
    obtain ⟨f', hstep', hf', -⟩ := hf.step order call hcall (hmeets.meets hf)
    cases hstep.symm.trans hstep'
    refine ⟨hf', ?_⟩
    cases call with
    | addRequest request queue =>
      obtain ⟨⟨n, hn, hid⟩, -⟩ := hcall
      exact hS.addRequest hf hn hid hstep
    | fanOut request queue =>
      obtain ⟨⟨n, hn, hid⟩, hmany, -⟩ := hcall
      exact hS.fanOut hf hn hid hmany hstep
    | addChild P =>
      obtain ⟨fo, hfo, hidx⟩ := hcall
      exact hS.addChild hf hfo hidx hstep
    | processOutput o => exact hS.processOutput hf hmeets hstep
    | abort ids => exact hmeets.elim
    | get queue =>
      cases hstep
      exact hS.get hf queue

/-- In every run in which a child finishes when all children are added, or another child runs, the
stream of a parallel sampling request ends when all children have finished. -/
theorem run_merged (h : Run order AddsFirst f) {P : RequestId} {fo : FanOut α}
    (hfo : f.fanOuts P = some fo) (hqueue : fo.queue.isSome) :
    Merged fo.request.n fo.idx fo.request.outputKind (fun i => f.outputProcessor.Runs P (.child i P))
      (f.views P) := by
  obtain ⟨hf, hS⟩ := h.streams
  have hk := hf.kept
  refine ((hS.stream P fo hfo).merged hqueue).congr fun i => ?_
  constructor
  · rintro ⟨s, hs, hP⟩
    obtain ⟨-, -, -, -, -, -, -, hmem⟩ := (hk.state _ s hs).child P hP
    exact hmem
  · intro hmem
    refine (hk.children P _ hmem).resolve_right ?_
    rintro ⟨fo', hfo', hnone, -⟩
    cases hfo.symm.trans hfo'
    rw [hnone] at hqueue
    cases hqueue

/-! ### Two children -/

/-- Both children are added, and the first one has finished. -/
theorem run_merged_two : ∃ f : EngineFrontend Char Unit, Run insertionOrder AddsFirst f ∧
    ∃ fo, f.fanOuts (.assigned 0) = some fo ∧ fo.queue.isSome ∧
      f.views (.assigned 0) = [⟨[some (0, true)], false⟩] ∧
      Merged fo.request.n fo.idx fo.request.outputKind
        (fun i => f.outputProcessor.Runs (.assigned 0) (.child i (.assigned 0)))
        (f.views (.assigned 0)) := by
  have h₀ : Run insertionOrder AddsFirst (.new 1 : EngineFrontend Char Unit) := .new 1
  have h₁ := Run.step (.fanOut (plainRequest .cumulative 2) true) h₀
    ⟨⟨0, Finset.notMem_empty 0, rfl⟩, by decide, rfl⟩ trivial rfl
  have h₂ := Run.step (.addChild (.assigned 0)) h₁ ⟨_, rfl, by decide⟩ trivial rfl
  have h₃ := Run.step (.addChild (.assigned 0)) h₂ ⟨_, rfl, by decide⟩ trivial rfl
  have h₄ := Run.step (.processOutput (lastToken (.child 0 (.assigned 0)))) h₃ trivial (by
    intro s hs
    cases hs
    refine ⟨⟨fun _ => nofun, fun _ => rfl⟩, fun _ h => absurd rfl h, fun P fo hP hfo _ => ?_⟩
    cases hP
    cases hfo
    exact .inl rfl) rfl
  refine ⟨_, h₄, _, rfl, rfl, rfl, ?_⟩
  exact run_merged h₄ rfl rfl

/-- The first child finishes before the second one is added: the only output, which is the last one,
has no completion of the second child. -/
theorem stream_ends_early : ∃ f : EngineFrontend Char Unit,
    Run insertionOrder (fun f call => Meets f call ∧ ∀ ids, call ≠ .abort ids) f ∧
      ∃ fo, f.fanOuts (.assigned 0) = some fo ∧ fo.queue.isSome ∧
        f.views (.assigned 0) = [⟨[some (0, true), none], true⟩] ∧
        ¬ Merged fo.request.n fo.idx fo.request.outputKind
          (fun i => f.outputProcessor.Runs (.assigned 0) (.child i (.assigned 0)))
          (f.views (.assigned 0)) := by
  have h₀ : Run insertionOrder (fun f call => Meets f call ∧ ∀ ids, call ≠ .abort ids)
    (.new 1 : EngineFrontend Char Unit) := .new 1
  have h₁ := Run.step (.fanOut (plainRequest .finalOnly 2) true) h₀
    ⟨⟨0, Finset.notMem_empty 0, rfl⟩, by decide, rfl⟩ ⟨trivial, nofun⟩ rfl
  have h₂ := Run.step (.addChild (.assigned 0)) h₁ ⟨_, rfl, by decide⟩ ⟨trivial, nofun⟩ rfl
  have h₃ := Run.step (.processOutput (lastToken (.child 0 (.assigned 0)))) h₂ trivial ⟨(by
    intro s hs
    cases hs
    refine ⟨⟨fun _ => nofun, fun _ => rfl⟩, fun _ h => absurd rfl h, fun P fo hP _ _ _ hwaits => ?_⟩
    cases hP
    cases hwaits), nofun⟩ rfl
  refine ⟨_, h₃, _, rfl, rfl, rfl, fun h => ?_⟩
  have hviews : [(⟨[some (0, true), none], true⟩ : View)] = [] ∨ _ = [wholeView 2] :=
    h.finalOnly rfl
  revert hviews
  decide

end LoptVllm.Frontend
