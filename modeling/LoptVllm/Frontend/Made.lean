import LoptVllm.Frontend.OutputProcessor

/-!
# What an output changes
-/

namespace LoptVllm.Frontend

open List Option ParentRequest RequestState Completions RequestOutput

variable {α L : Type}

/-- What the output processor does not change of the state of a request. -/
def SameRequest (s s' : RequestState α) : Prop :=
  ∃ d o, s' = { s with detokenizer := d, sentTokensOffset := o } ∧ d.isSome = s.detokenizer.isSome

theorem SameRequest.refl (s : RequestState α) : SameRequest s s := ⟨_, _, rfl, rfl⟩

theorem SameRequest.trans {s s' s'' : RequestState α} (h : SameRequest s s')
    (h' : SameRequest s' s'') : SameRequest s s'' := by
  obtain ⟨d, o, rfl, hd⟩ := h
  obtain ⟨d', o', rfl, hd'⟩ := h'
  exact ⟨d', o', rfl, hd'.trans hd⟩

/-- A request that is known to its parent; a pooling request has no stream interval. -/
structure Known (s : RequestState α) (h : Shared α L) : Prop where
  pooling : s.detokenizer = none →
    s.streamInterval ≤ 1 ∧ s.hasPromptTokenIds = true ∧ s.parentReq = none
  parentId : ∀ P ∈ s.parentReq, (h.parents P).requestId = P
  outputKind : ∀ P ∈ s.parentReq, (h.parents P).outputKind = s.outputKind
  mem : ∀ P ∈ s.parentReq, s.requestId ∈ (h.parents P).childRequests
  index : ∀ P ∈ s.parentReq, s.outputKind = .finalOnly →
    s.requestIndex < (h.parents P).outputAggregator.length

/-- The children that are left when a completion is handed out. -/
def ParentRequest.left (p : ParentRequest α L) (requestId : RequestId) (finished : Bool) :
    List RequestId :=
  if finished then p.childRequests.erase requestId else p.childRequests

/-- A completion of a request. -/
structure CompletionOf (s : RequestState α) (finished : Bool) (c : CompletionOutput α L) : Prop where
  index : c.index = s.requestIndex
  logprobs : c.logprobs.isSome = s.logprobs
  finished : c.finished = finished

/-- The outputs that are made, and the shared objects after it. -/
inductive Made (s : RequestState α) (h : Shared α L) :
    Bool → Option (Output α L) → Shared α L → Prop
  | withheld : Made s h false none h
  | pooling (finished : Bool) (o : PoolingRequestOutput) (hs : s.detokenizer = none) :
      Made s h finished (some (.pooling o)) h
  | single (finished : Bool) (c : CompletionOutput α L) (hs : s.parentReq = none)
      (hc : CompletionOf s finished c) :
      Made s h finished (some (.completion ⟨s.externalReqId, .own [some c], finished⟩)) h
  | streamed (finished : Bool) {P : RequestId} (c : CompletionOutput α L)
      (hs : s.parentReq = some P) (hkind : s.outputKind ≠ .finalOnly)
      (hc : CompletionOf s finished c) :
      Made s h finished (some (.completion
        ⟨(h.parents P).externalReqId, .own [some c], (h.parents P).left s.requestId finished = []⟩))
        (h.setParent { h.parents P with childRequests := (h.parents P).left s.requestId finished })
  | aggregated {P : RequestId} (c : CompletionOutput α L) (hs : s.parentReq = some P)
      (hkind : s.outputKind = .finalOnly) (hc : CompletionOf s true c) :
      Made s h true (if (h.parents P).left s.requestId true = [] then
        some (.completion ⟨(h.parents P).externalReqId, .aggregator P, true⟩) else none)
        (h.setParent { h.parents P with
          childRequests := (h.parents P).left s.requestId true
          outputAggregator := (h.parents P).outputAggregator.set c.index (some c) })

variable {s s' : RequestState α} {h h' : Shared α L}

theorem SameRequest.detokenizer_eq_none (hsame : SameRequest s s') :
    s'.detokenizer = none ↔ s.detokenizer = none := by
  obtain ⟨d, o, rfl, hd⟩ := hsame
  rw [← isNone_iff_eq_none, ← isNone_iff_eq_none, ← not_isSome, ← not_isSome, ← hd]

variable {finished : Bool} {c : CompletionOutput α L}

theorem CompletionOf.of_same (hsame : SameRequest s s')
    (hc : CompletionOf s' finished c) : CompletionOf s finished c := by
  obtain ⟨d, o, rfl, -⟩ := hsame
  exact ⟨hc.index, hc.logprobs, hc.finished⟩

/-- The tokens and the offset of a request are not part of what is made. -/
theorem Made.of_same {out : Option (Output α L)} (hsame : SameRequest s s')
    (hmade : Made s' h finished out h') : Made s h finished out h' := by
  have hnone := hsame.detokenizer_eq_none
  have hof : ∀ {finished : Bool} {c : CompletionOutput α L}, CompletionOf s' finished c →
      CompletionOf s finished c := CompletionOf.of_same hsame
  obtain ⟨d, o, rfl, -⟩ := hsame
  cases hmade with
  | withheld => exact .withheld
  | pooling _ o hs => exact .pooling _ o (hnone.1 hs)
  | single _ c hs hc => exact .single _ c hs (hof hc)
  | streamed _ c hs hkind hc => exact .streamed _ c hs hkind (hof hc)
  | aggregated c hs hkind hc => exact .aggregated c hs hkind (hof hc)

variable {id : RequestId}

theorem freeCompleted_frame {p p' : OutputProcessor α L} (hfree : p.freeCompleted id s = .ok p') :
    p'.shared = p.shared ∧ p'.queues = p.queues ∧ p'.requestStates = p.requestStates.erase id := by
  obtain ⟨q, hremove, hfree⟩ := bind_ok.1 hfree
  unfold OutputProcessor.removeInternalId at hremove
  dsimp only at hremove
  split at hremove
  · cases hremove
    cases hfree
    unfold OutputProcessor.setDrained
    cases s.parentReq with
    | none => split_ifs <;> exact ⟨rfl, rfl, rfl⟩
    | some parent =>
      dsimp only
      split_ifs <;> exact ⟨rfl, rfl, rfl⟩
  · cases hremove

/-- An engine output finishes a request: in the engine, or with a stop string. -/
def RequestState.finishes [DecidableEq α] (s : RequestState α) (o : EngineCoreOutput α L) : Bool :=
  o.finishReason.isSome || (o.poolingOutput.isNone && match s.detokenizer with
    | none => false
    | some d => ((d.update o.newTokenIds (o.finishReason = some .stop)).1.getD []) ≠ [])

theorem updateFromOutput_eq [DecidableEq α] (h : Shared α L) {o : EngineCoreOutput α L}
    (hpooling : o.poolingOutput = none ↔ s.detokenizer ≠ none)
    (hlog : o.poolingOutput = none → o.newLogprobs ≠ none → s.logprobs = true) :
    ∃ finishReason stopReason t h',
      s.updateFromOutput h o = .ok ((finishReason, stopReason), t, h') ∧ SameRequest s t ∧
        h'.parents = h.parents ∧ finishReason.isSome = s.finishes o := by
  unfold updateFromOutput finishes
  cases hpool : o.poolingOutput with
  | some data => exact ⟨_, _, _, _, rfl, .refl s, rfl, by simp⟩
  | none =>
    obtain ⟨d, hd⟩ := ne_none_iff_exists'.1 (hpooling.1 hpool)
    rw [hd]
    obtain ⟨h', hh', hparents⟩ : ∃ h', s.updateLogprobs h o.newLogprobs = .ok h' ∧
        h'.parents = h.parents := by
      cases hnew : o.newLogprobs with
      | none => exact ⟨h, rfl, rfl⟩
      | some l => exact ⟨_, if_pos (hlog hpool (by simp [hnew])), rfl⟩
    generalize hup : d.update o.newTokenIds (o.finishReason = some .stop) = up
    obtain ⟨stopString, d'⟩ := up
    refine ⟨_, _, _, h', by simp only [hup, hh', bind]; rfl, ?_, hparents, ?_⟩
    · exact ⟨some d', s.sentTokensOffset, rfl, by rw [hd]; rfl⟩
    · cases stopString with
      | none => simp [hup]
      | some stop => by_cases hstop : stop = [] <;> simp [hup, hstop]

theorem applyStreamInterval_eq (tokens : List ℕ) (finished : Bool)
    (hs : s.detokenizer = none → s.streamInterval ≤ 1) : ∃ out s',
      s.applyStreamInterval tokens finished = .ok (out, s') ∧ SameRequest s s' ∧
        (finished = true → out.isSome) := by
  unfold applyStreamInterval
  by_cases hle : s.streamInterval ≤ 1
  · rw [if_pos hle]
    exact ⟨_, _, rfl, .refl s, fun _ => rfl⟩
  · rw [if_neg hle]
    cases hd : s.detokenizer with
    | none => exact absurd (hs hd) hle
    | some d =>
      dsimp only
      by_cases hsend : finished = true ∨ s.sentTokensOffset = 0 ∨
          s.streamInterval ≤ d.outputTokenIds.length - s.sentTokensOffset
      · rw [if_neg (not_not.2 hsend)]
        split_ifs
        · refine ⟨_, _, rfl, ⟨s.detokenizer, d.outputTokenIds.length, ?_, rfl⟩, fun _ => rfl⟩
          rw [hd]
        · exact ⟨_, _, rfl, .refl s, fun _ => rfl⟩
      · rw [if_pos hsend]
        exact ⟨_, _, rfl, .refl s, fun hf => absurd (.inl hf) hsend⟩

theorem newCompletionOutput_eq (h : Shared α L) (tokens : List ℕ) (finishReason : Option FinishReason)
    (stopReason : Option (StopReason α)) (hs : s.detokenizer ≠ none) : ∃ c s',
      s.newCompletionOutput h tokens finishReason stopReason = .ok (c, s') ∧ SameRequest s s' ∧
        CompletionOf s finishReason.isSome c := by
  unfold newCompletionOutput
  obtain ⟨d, hd⟩ := ne_none_iff_exists'.1 hs
  rw [hd]
  refine ⟨_, _, rfl, ⟨_, s.sentTokensOffset, rfl, ?_⟩, rfl, ?_, rfl⟩
  · rw [hd]
    rfl
  · cases s.logprobs <;> rfl

variable {p : ParentRequest α L}

theorem getOutputs_streamed (hkind : p.outputKind ≠ .finalOnly) (hid : id ∈ p.childRequests) :
    p.getOutputs id c = .ok ((.own [some c], p.left id c.finished = []),
      { p with childRequests := p.left id c.finished }) := by
  unfold getOutputs left
  cases c.finished <;> simp [hkind, hid]

theorem getOutputs_aggregated (hkind : p.outputKind = .finalOnly) (hc : c.finished = true)
    (hindex : c.index < p.outputAggregator.length) :
    p.getOutputs id c = .ok ((if p.left id true = [] then .aggregator p.requestId else .own [],
      p.left id true = []), { p with
        childRequests := p.left id true
        outputAggregator := p.outputAggregator.set c.index (some c) }) := by
  unfold getOutputs left
  simp [hkind, hc, hindex]

theorem wrapCompletion_made (hs : Known s h) (hkind : finished = false → s.outputKind ≠ .finalOnly)
    (hc : CompletionOf s finished c) :
    ∃ out h', s.wrapCompletion h c = .ok (out, h') ∧ Made s h finished out h' := by
  unfold wrapCompletion
  cases hP : s.parentReq with
  | none =>
    refine ⟨_, _, rfl, ?_⟩
    rw [hc.finished]
    exact .single _ c hP hc
  | some P =>
    have hid := hs.parentId P hP
    have hmem := hs.mem P hP
    have hpk := hs.outputKind P hP
    dsimp only
    by_cases hfinal : s.outputKind = .finalOnly
    · obtain rfl : finished = true := by
        cases finished with
        | true => rfl
        | false => exact absurd hfinal (hkind rfl)
      have hlt : c.index < (h.parents P).outputAggregator.length := hc.index ▸ hs.index P hP hfinal
      rw [getOutputs_aggregated (hpk.trans hfinal) hc.finished hlt]
      refine ⟨_, _, ?_, .aggregated c hP hfinal hc⟩
      by_cases hleft : (h.parents P).left s.requestId true = []
      · have hne : (h.parents P).outputAggregator ≠ [] := ne_nil_of_length_pos (by omega)
        simp [entries, Shared.setParent, hid, hleft, hne]
        rfl
      · simp [hleft]
        rfl
    · rw [getOutputs_streamed (fun heq => hfinal (hpk.symm.trans heq)) hmem, hc.finished]
      exact ⟨_, _, rfl, .streamed _ c hP hfinal hc⟩

/-- An output is made, or withheld. -/
theorem makeRequestOutput_made (hs : Known s h) (tokens : List ℕ) (pooling : Option (List ℚ))
    (hpooling : pooling = none ↔ s.detokenizer ≠ none) (finishReason : Option FinishReason)
    (stopReason : Option (StopReason α)) : ∃ out s' h',
      s.makeRequestOutput h tokens pooling finishReason stopReason = .ok (out, s', h') ∧
        SameRequest s s' ∧ Made s h finishReason.isSome out h' := by
  unfold makeRequestOutput
  by_cases hwait : finishReason.isSome = false ∧ s.outputKind = .finalOnly
  · rw [if_pos hwait, hwait.1]
    exact ⟨_, _, _, rfl, .refl s, .withheld⟩
  · rw [if_neg hwait]
    obtain ⟨sent, s₁, hsent, hsame, hsome⟩ := applyStreamInterval_eq tokens finishReason.isSome
      fun hd => (hs.pooling hd).1
    rw [hsent]
    cases sent with
    | none =>
      have hfin : finishReason.isSome = false := by
        cases hf : finishReason.isSome with
        | false => rfl
        | true => cases hsome hf
      exact ⟨_, _, _, rfl, hsame, hfin ▸ .withheld⟩
    | some tokens =>
      obtain ⟨d, o, rfl, hd⟩ := hsame
      cases pooling with
      | some data =>
        have hnone : s.detokenizer = none := by
          by_contra hne
          cases hpooling.2 hne
        refine ⟨some (.pooling ⟨s.externalReqId, data, finishReason.isSome⟩), _, _, ?_,
          ⟨d, o, rfl, hd⟩, .pooling _ _ hnone⟩
        simp only [(hs.pooling hnone).2.1]
        rfl
      | none =>
        have hne : d ≠ none := by
          have hsome := isSome_iff_ne_none.2 (hpooling.1 rfl)
          exact isSome_iff_ne_none.1 (hd.trans hsome)
        obtain ⟨c, s₂, hc, ⟨d', o', rfl, hd'⟩, hcof⟩ := newCompletionOutput_eq
          (s := { s with detokenizer := d, sentTokensOffset := o }) h tokens finishReason stopReason hne
        obtain ⟨out, h', hout, hmade⟩ := wrapCompletion_made hs
          (fun hf heq => hwait ⟨hf, heq⟩) ⟨hcof.index, hcof.logprobs, hcof.finished⟩
        refine ⟨out, _, h', ?_, ⟨d', o', rfl, hd'.trans hd⟩, hmade⟩
        have hout' : wrapCompletion { s with detokenizer := d', sentTokensOffset := o' }
          h c = .ok (out, h') := hout
        simp only [ok_bind, hc, hout']
        rfl

/-! ### An output that is put into a collector -/

theorem findCompletion_own (c : CompletionOutput α L) (cs : List (CompletionOutput α L)) :
    (findCompletion (some c) (cs.map some) = .ok none ∧ ∀ x ∈ cs, x.index ≠ c.index) ∨
      ∃ l x r, cs = l ++ x :: r ∧ (∀ y ∈ l, y.index ≠ c.index) ∧ x.index = c.index ∧
        findCompletion (some c) (cs.map some) = .ok (some l.length) := by
  induction cs with
  | nil => exact .inl ⟨rfl, by simp⟩
  | cons x cs ih =>
    rw [map_cons]
    unfold findCompletion
    by_cases hx : x.index = c.index
    · exact .inr ⟨[], x, cs, rfl, by simp, hx, by simp [hx]⟩
    · simp only [if_neg hx]
      rcases ih with ⟨hnone, hne⟩ | ⟨l, y, r, rfl, hl, hy, hsome⟩
      · refine .inl ⟨by rw [hnone]; rfl, fun y hy => ?_⟩
        rcases mem_cons.1 hy with rfl | hy
        · exact hx
        · exact hne y hy
      · refine .inr ⟨x :: l, y, r, rfl, fun z hz => ?_, hy, by rw [hsome]; rfl⟩
        rcases mem_cons.1 hz with rfl | hz
        · exact hx
        · exact hl z hz

theorem merge_eq_ok (h : Shared α L) {x : CompletionOutput α L}
    (hlog : c.logprobs.isSome = x.logprobs.isSome) : ∃ x' h', x.merge h c = .ok (x', h') ∧
      x'.index = x.index ∧ x'.finishReason = c.finishReason ∧
      x'.logprobs.isSome = x.logprobs.isSome ∧ h'.parents = h.parents := by
  unfold CompletionOutput.merge mergeLogprobs
  cases hc : c.logprobs with
  | none => exact ⟨_, _, rfl, rfl, rfl, rfl, rfl⟩
  | some lc =>
    cases hx : x.logprobs with
    | none =>
      rw [hc, hx] at hlog
      cases hlog
    | some lx =>
      dsimp only
      split_ifs
      · exact ⟨_, _, rfl, rfl, rfl, rfl, rfl⟩
      · cases lx <;> exact ⟨_, _, rfl, rfl, rfl, rfl, rfl⟩

/-- A completion is added to those of an output that waits: it is the first one with its index, or it
is merged with another one, or replaces it. -/
inductive AddsTo (aggregate : Bool) (c : CompletionOutput α L) :
    List (CompletionOutput α L) → Shared α L → List (CompletionOutput α L) → Shared α L → Prop
  | append {cs : List (CompletionOutput α L)} {h : Shared α L} (hcs : ∀ x ∈ cs, x.index ≠ c.index) :
      AddsTo aggregate c cs h (cs ++ [c]) h
  | merge {l r : List (CompletionOutput α L)} {x x' : CompletionOutput α L} {h h' : Shared α L}
      (hl : ∀ y ∈ l, y.index ≠ c.index) (hx : x.index = c.index)
      (hx' : if aggregate then x.merge h c = .ok (x', h') else x' = c ∧ h' = h)
      (hindex : x'.index = c.index) (hfinish : x'.finishReason = c.finishReason)
      (hlog : x'.logprobs.isSome = x.logprobs.isSome) (hparents : h'.parents = h.parents) :
      AddsTo aggregate c (l ++ x :: r) h (l ++ x' :: r) h'

variable {cs : List (CompletionOutput α L)}

theorem AddsTo.parents {aggregate : Bool} {cs' : List (CompletionOutput α L)}
    (hto : AddsTo aggregate c cs h cs' h') : h'.parents = h.parents := by
  cases hto with
  | append hcs => rfl
  | merge hl hx hx' hindex hfinish hlog hparents => exact hparents

theorem AddsTo.logprobs {aggregate : Bool} {cs' : List (CompletionOutput α L)} {logprobs : Bool}
    (hto : AddsTo aggregate c cs h cs' h') (hcs : ∀ x ∈ cs, x.logprobs.isSome = logprobs)
    (hc : c.logprobs.isSome = logprobs) : ∀ x ∈ cs', x.logprobs.isSome = logprobs := by
  intro x hx
  cases hto with
  | append hne =>
    rcases mem_append.1 hx with hx | hx
    · exact hcs x hx
    · rw [mem_singleton.1 hx]
      exact hc
  | @merge l r y y' h h' hl hy hy' hindex hfinish hlog hparents =>
    rcases mem_append.1 hx with hx | hx
    · exact hcs x (mem_append_left _ hx)
    · rcases mem_cons.1 hx with rfl | hx
      · exact hlog.trans (hcs y (mem_append_right _ (.head _)))
      · exact hcs x (mem_append_right _ (.tail _ hx))

theorem add_own (aggregate : Bool) (id id' : ℕ) (finished finished' : Bool)
    (hlog : ∀ x ∈ cs, x.logprobs.isSome = c.logprobs.isSome) : ∃ cs' h',
      add ⟨id, .own (cs.map some), finished⟩ ⟨id', .own [some c], finished'⟩ aggregate h =
        .ok (⟨id, .own (cs'.map some), finished || finished'⟩, h') ∧ AddsTo aggregate c cs h cs' h' := by
  unfold add addCompletion
  simp only [entries, foldlM_cons, bind, Except.bind]
  rcases findCompletion_own c cs with ⟨hnone, hne⟩ | ⟨l, x, r, rfl, hl, hx, hsome⟩
  · rw [hnone]
    refine ⟨cs ++ [c], h, ?_, .append hne⟩
    simp [setEntries, pure, Except.pure]
  · rw [hsome]
    have hget : ((l ++ x :: r).map some)[l.length]? = some (some x) := by simp
    have hset : ∀ y : CompletionOutput α L, ((l ++ x :: r).map some).set l.length (some y) =
        (l ++ y :: r).map some := fun y => by simp
    have hlogx := hlog x (mem_append_right _ (.head _))
    cases aggregate with
    | false =>
      refine ⟨l ++ c :: r, h, ?_, .merge hl hx ⟨rfl, rfl⟩ rfl rfl hlogx.symm rfl⟩
      simp only [hset]
      rfl
    | true =>
      obtain ⟨x', h', hmerge, hindex, hfinish, hlog', hparents⟩ := merge_eq_ok h hlogx.symm
      refine ⟨l ++ x' :: r, h', ?_, .merge hl hx hmerge (hindex.trans hx) hfinish hlog' hparents⟩
      simp only [hget, hmerge, hset]
      rfl

theorem setParent_self {P : RequestId} (hP : (h.parents P).requestId = P) :
    h.setParent (h.parents P) = h := by
  unfold Shared.setParent
  rw [hP, Function.update_eq_self]

/-- An aggregator is merged with itself. -/
theorem add_aggregator {P : RequestId} {id id' : ℕ} {finished' : Bool}
    (hP : (h.parents P).requestId = P) (hcs : (h.parents P).outputAggregator = cs.map some)
    (hindex : cs.Pairwise fun x y => x.index ≠ y.index) :
    add ⟨id, .aggregator P, finished⟩ ⟨id', .aggregator P, finished'⟩ false h =
      .ok (⟨id, .aggregator P, finished || finished'⟩, h) := by
  have hround : ∀ c ∈ cs, addCompletion false (.aggregator P) h (some c) =
      .ok (.aggregator P, h) := by
    intro c hc
    unfold addCompletion
    simp only [entries, hcs, bind, Except.bind]
    rcases findCompletion_own c cs with ⟨-, hne⟩ | ⟨l, x, r, rfl, hl, hx, hsome⟩
    · exact absurd rfl (hne c hc)
    · -- the first completion with this index is the completion itself
      obtain rfl : x = c := by
        rcases mem_append.1 hc with hc | hc
        · exact absurd rfl (hl c hc)
        · rcases mem_cons.1 hc with rfl | hc
          · rfl
          · exact absurd hx ((pairwise_cons.1 (pairwise_append.1 hindex).2.1).1 c hc)
      rw [hsome]
      have hset : ((l ++ x :: r).map some).set l.length (some x) =
          (h.parents P).outputAggregator := by simp [hcs]
      simp only [hset, setEntries, setParent_self hP]
      rfl
  have hfold : ∀ cs' : List (CompletionOutput α L), (∀ c ∈ cs', c ∈ cs) → (cs'.map some).foldlM (fun s c =>
      addCompletion false s.1 s.2 c) ((.aggregator P, h) : Completions α L × Shared α L) =
        .ok (.aggregator P, h) := by
    intro cs'
    induction cs' with
    | nil => exact fun _ => rfl
    | cons c cs' ih =>
      intro hsub
      rw [map_cons, foldlM_cons, hround c (hsub c mem_cons_self)]
      exact ih fun c hc => hsub c (.tail _ hc)
  unfold add
  simp only [entries, hcs, hfold cs fun _ h => h, bind]
  rfl

end LoptVllm.Frontend
