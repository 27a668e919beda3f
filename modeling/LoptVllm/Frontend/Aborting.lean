import LoptVllm.Frontend.BookkeepingCalls

/-!
# Requests that are aborted

`abort_requests` removes the ids from the lists of their external ids in a first loop, and ends the
requests in a second one. A parent is aborted by a call for its children.
-/

namespace LoptVllm.Frontend

open List Option OrderedDict OutputProcessor

variable {α L : Type} {fanOuts : RequestId → Option (FanOut α)} {U E : List RequestId}
  {p p' : OutputProcessor α L} {id : RequestId} {s : RequestState α}

/-- The invariant between the rounds of `abort_requests`. -/
structure Aborts (fanOuts : RequestId → Option (FanOut α)) (U E : List RequestId)
    (p : OutputProcessor α L) : Prop extends Kept fanOuts U E p where
  queued : ∀ c ∈ U, ∀ P, p.Runs P c → P ∉ E → ∃ fo, fanOuts P = some fo ∧ fo.queue.isSome
  settled : ∀ P ∈ E, Settled fanOuts p P

variable {U' : List RequestId}

theorem Aborts.congrIds (ha : Aborts fanOuts U E p)
    (hU : ∀ c, (p.requestStates.lookup c).isSome → (c ∈ U ↔ c ∈ U')) : Aborts fanOuts U' E p := by
  refine ⟨ha.toKept.congrIds hU, fun c hc P hrun => ?_, ha.settled⟩
  obtain ⟨s, hs, hP⟩ := hrun
  exact ha.queued c ((hU c (by rw [hs]; rfl)).2 hc) P ⟨s, hs, hP⟩

/-- A call only takes from the maps. -/
structure Shrinks (p p' : OutputProcessor α L) : Prop where
  states : ∀ {c t}, p'.requestStates.lookup c = some t → p.requestStates.lookup c = some t
  parentRequests : p'.parentRequests ⊆ p.parentRequests

theorem Shrinks.refl (p : OutputProcessor α L) : Shrinks p p := ⟨fun h => h, fun _ h => h⟩

section

variable (h : Shrinks p p')
include h

theorem Shrinks.trans {p'' : OutputProcessor α L} (h' : Shrinks p' p'') : Shrinks p p'' :=
  ⟨fun ht => h.states (h'.states ht), fun _ hP => h.parentRequests (h'.parentRequests hP)⟩

theorem Shrinks.isSome (hid : (p'.requestStates.lookup id).isSome) :
    (p.requestStates.lookup id).isSome := by
  obtain ⟨t, ht⟩ := isSome_iff_exists.1 hid
  rw [h.states ht]
  rfl

theorem Shrinks.lookup_eq_none (hid : p.requestStates.lookup id = none) :
    p'.requestStates.lookup id = none := by
  rw [eq_none_iff_forall_ne_some]
  intro t ht
  cases hid.symm.trans (h.states ht)

theorem Shrinks.runs {P : RequestId} (hrun : p'.Runs P id) : p.Runs P id := by
  obtain ⟨t, ht, hP⟩ := hrun
  exact ⟨t, h.states ht, hP⟩

end

/-! ### The first loop -/

/-- A child whose parent is not aborted has a queue, and another child is left. -/
def LeavesSibling (fanOuts : RequestId → Option (FanOut α)) (E ids : List RequestId)
    (p : OutputProcessor α L) (id : RequestId) : Prop :=
  ∀ P, p.Runs P id → P ∈ E ∨ (∃ fo, fanOuts P = some fo ∧ fo.queue.isSome) ∧
    ∃ c, p.Runs P c ∧ c ∉ ids

/-- The ids of requests that run are listed once. -/
def Once (p : OutputProcessor α L) (ids : List RequestId) : Prop :=
  ids.Pairwise fun a b => (p.requestStates.lookup b).isSome → a ≠ b

variable {ids : List RequestId}

theorem Aborts.unlist (ha : Aborts fanOuts U E p) (hid : id ∈ ids)
    (hU : (p.requestStates.lookup id).isSome → id ∉ U) (hsub : ∀ c ∈ U, c ∈ ids)
    (hleaves : LeavesSibling fanOuts E ids p id) :
    ∃ d, p.unlist id = .ok (p.withIds d) ∧ Aborts fanOuts (id :: U) E (p.withIds d) := by
  unfold OutputProcessor.unlist
  cases hs : p.requestStates.lookup id with
  | none =>
    refine ⟨p.externalReqIds, rfl, ha.congrIds fun c hc => ?_⟩
    have hne : c ≠ id := fun heq => by
      rw [heq, hs] at hc
      cases hc
    simp [hne]
  | some s =>
    have hU' := hU (by rw [hs]; rfl)
    obtain ⟨d, hd, hk⟩ := ha.toKept.removeInternalId hs hU' fun P hP =>
      (hleaves P ⟨s, hs, hP⟩).imp_right fun ⟨_, c, hrun, hc⟩ =>
        ⟨c, hrun, fun heq => hc (heq ▸ hid), fun h => hc (hsub c h)⟩
    refine ⟨d, hd, hk, fun c hc P hrun hPE => ?_, ha.settled⟩
    rcases mem_cons.1 hc with rfl | hc
    · exact ((hleaves P hrun).resolve_left hPE).1
    · exact ha.queued c hc P hrun hPE

theorem unlist_foldlM (ids : List RequestId) (rest : List RequestId) :
    ∀ {U : List RequestId} {p : OutputProcessor α L}, Aborts fanOuts U E p →
      (∀ id ∈ rest, (p.requestStates.lookup id).isSome → id ∉ U) → Once p rest →
      (∀ c ∈ U ++ rest, c ∈ ids) → (∀ id ∈ rest, LeavesSibling fanOuts E ids p id) →
      ∃ d, rest.foldlM OutputProcessor.unlist p = .ok (p.withIds d) ∧
        Aborts fanOuts (rest ++ U) E (p.withIds d) := by
  induction rest with
  | nil => exact fun {U p} ha _ _ _ _ => ⟨p.externalReqIds, rfl, ha⟩
  | cons id rest ih =>
    intro U p ha hU honce hids hleaves
    obtain ⟨hone, honce'⟩ := pairwise_cons.1 honce
    obtain ⟨d, hd, ha'⟩ := ha.unlist (hids id (by simp)) (hU id mem_cons_self)
      (fun c hc => hids c (mem_append_left _ hc)) (hleaves id (.head _))
    obtain ⟨d', hd', ha''⟩ := ih ha'
      (fun c hc hrun h => by
        rcases mem_cons.1 h with rfl | h
        · exact hone c hc hrun rfl
        · exact hU c (.tail _ hc) hrun h)
      honce'
      (fun c hc => hids c (by
        simp only [mem_append, mem_cons] at hc ⊢
        tauto))
      fun c hc => hleaves c (.tail _ hc)
    refine ⟨d', ?_, ha''.congrIds fun c _ => ?_⟩
    · rw [foldlM_cons, hd]
      exact hd'
    · simp only [mem_append, mem_cons]
      tauto

/-! ### A round of the second loop -/

/-- The output of a request that is aborted is put into its queue. -/
theorem putOutput_of_deliver {queue : RequestId} {out : Option (Output α L)}
    {outs : List (Output α L)} (hout : p.deliver (some queue) out = .ok (outs, p')) :
    (match out with
      | none => return p
      | some output => p.putOutput queue output) = Except.ok p' := by
  unfold deliver at hout
  cases out with
  | none =>
    cases hout
    rfl
  | some output =>
    dsimp only at hout ⊢
    cases hput : p.putOutput queue output with
    | error e =>
      rw [hput] at hout
      cases hout
    | ok q =>
      rw [hput] at hout
      cases hout
      rfl

section

variable (ha : Aborts fanOuts U E p) (hs : p.requestStates.lookup id = some s) (hid : id ∈ U)

include ha hs hid

/-- While a request is aborted, its parent is aborted too, or another child is left. -/
theorem Aborts.whole' : Whole fanOuts p id s true := by
  intro P fo hq hagg hfo _ hsome hleft
  have hP := s.parentReq_of_aggregated hagg
  obtain ⟨fo', hfo', -, -, hkind, -, hqueue, hmem⟩ := (ha.state id s hs).child P hP
  cases hfo.symm.trans hfo'
  by_cases hPE : P ∈ E
  · have hfinal : s.outputKind = .finalOnly := by
      by_contra hne
      unfold RequestState.aggregated at hagg
      rw [if_neg hne] at hagg
      cases hagg
    exact ha.whole P hPE fo hfo (by rw [← hqueue, hq]; rfl) (hkind.symm.trans hfinal) hsome
      (ne_nil_of_mem hmem)
  · obtain ⟨c, ⟨t, ht, hPt⟩, hc⟩ := ha.of_parents P (ha.parents_of P id ⟨s, hs, hP⟩) hPE
    obtain ⟨-, -, -, -, -, -, -, hmem'⟩ := (ha.state c t ht).child P hPt
    have hleft' : c ∈ (p.shared.parents P).left id true :=
      (ParentRequest.mem_left (ha.nodupChildren P)).2 ⟨hmem', fun h => hc (h.2 ▸ hid)⟩
    rw [hleft] at hleft'
    cases hleft'

theorem abortState_eq (hU : ∀ c, c ∈ U ↔ c ∈ U' ∨ c = id) :
    ∃ p', abortState { p with requestStates := p.requestStates.erase id } s = .ok p' ∧
      Aborts fanOuts U' E p' ∧ p'.requestStates = p.requestStates.erase id ∧
      p'.parentRequests = p.parentRequests := by
  have hstate := ha.state id s hs
  unfold abortState
  cases hq : s.queue with
  | none =>
    have hP : ∀ P, s.parentReq = some P → P ∈ E := by
      intro P hP
      by_contra hPE
      obtain ⟨fo, hfo, hsome⟩ := ha.queued id hid P ⟨s, hs, hP⟩ hPE
      obtain ⟨fo', hfo', -, -, -, -, hqueue, -⟩ := hstate.child P hP
      cases hfo.symm.trans hfo'
      rw [← hqueue, hq] at hsome
      cases hsome
    refine ⟨_, rfl, ⟨ha.toKept.drop hs hq hP hU, fun c hc P hrun => ?_, ha.settled⟩, rfl, rfl⟩
    obtain ⟨t, ht, hPt⟩ := hrun
    rw [lookup_erase'] at ht
    split_ifs at ht
    exact ha.queued c ((hU c).2 (.inl hc)) P ⟨t, ht, hPt⟩
  | some queue =>
    obtain ⟨out, t, h, hmake, hsame, hmade⟩ := makeRequestOutput_made
      (ha.toKept.known hs (.refl s) rfl) []
      (if s.detokenizer.isNone then some [] else none)
      (by cases s.detokenizer <;> simp) (some .abort) none
    obtain ⟨outs, p', hdeliver, hstates, hdel⟩ := deliver_eq ha.toKept hs rfl hmade
      (ha.whole' hs hid) (p.requestStates.erase id)
    rw [hq] at hdeliver
    have heffect : Effect id s true p p' := by
      refine { hdel with states := fun c hne => ?_, self := ?_ }
      · rw [hstates, lookup_erase', if_neg hne]
      · rw [if_pos rfl, hstates, lookup_erase', if_pos rfl]
    refine ⟨p', ?_, ⟨heffect.kept ha.toKept hs (by simpa using hU), fun c hc P hrun => ?_,
      fun P hP fo hfo hnone hne => ha.settled P hP fo hfo hnone fun hnil => hne ?_⟩, hstates,
      hdel.parentRequests⟩
    · simp only [hmake, bind]
      exact putOutput_of_deliver hdeliver
    · exact ha.queued c ((hU c).2 (.inl hc)) P ((heffect.runs_iff ha.toKept hs).1 hrun).1
    · by_cases hparent : s.parentReq = some P
      · obtain ⟨ag, hag, -⟩ := heffect.parents.parent P hparent
        rw [hag]
        unfold ParentRequest.left
        rw [hnil]
        rfl
      · rw [heffect.parents.others P hparent]
        exact hnil

end

/-- A request that has been aborted, or had ended before. -/
structure Ended (ids : List RequestId) (p p' : OutputProcessor α L) : Prop extends Shrinks p p' where
  ended : ∀ id ∈ ids, p'.requestStates.lookup id = none

variable {order : SetOrder RequestId} {abortChildren : OutputProcessor α L → AbortIds →
  Except PyErr (List RequestId × OutputProcessor α L)}

theorem abortRound_running (r : List RequestId) (ha : Aborts fanOuts U E p)
    (hs : p.requestStates.lookup id = some s) (hid : id ∈ U) (hU : ∀ c, c ∈ U ↔ c ∈ U' ∨ c = id) :
    ∃ r' p', abortRound order abortChildren (r, p) id = .ok (r', p') ∧
      Aborts fanOuts U' E p' ∧ Ended [id] p p' ∧ p'.parentRequests = p.parentRequests := by
  obtain ⟨p', hp', ha', hstates, hparents⟩ := abortState_eq ha hs hid hU
  unfold abortRound
  simp only [hs, hp', bind]
  refine ⟨_, p', rfl, ha', ⟨⟨fun {c t} ht => ?_, fun P hP => hparents ▸ hP⟩, fun c hc => ?_⟩, hparents⟩
  · rw [hstates, lookup_erase'] at ht
    split_ifs at ht
    exact ht
  · rw [mem_singleton.1 hc, hstates, lookup_erase', if_pos rfl]

variable (order abortChildren) in
/-- A round for an id that is not a parent. -/
theorem abortRound_leaf (r : List RequestId) (ha : Aborts fanOuts (id :: U) E p)
    (hid : id ∉ p.parentRequests) :
    ∃ r' p', abortRound order abortChildren (r, p) id = .ok (r', p') ∧
      Aborts fanOuts U E p' ∧ Ended [id] p p' ∧ p'.parentRequests = p.parentRequests := by
  cases hs : p.requestStates.lookup id with
  | some s =>
    refine abortRound_running r ha hs (.head _) fun c => ?_
    rw [mem_cons, or_comm]
  | none =>
    refine ⟨r, p, ?_, ha.congrIds fun c hc => ?_, ⟨.refl p, fun c hc => ?_⟩, rfl⟩
    · unfold abortRound
      simp [hs, if_neg hid]
    · have hne : c ≠ id := fun heq => by
        rw [heq, hs] at hc
        cases hc
      simp [hne]
    · rw [mem_singleton.1 hc, hs]

variable (order abortChildren) in
theorem abortRound_leaves (rest : List RequestId) :
    ∀ {U : List RequestId} {p : OutputProcessor α L} (r : List RequestId),
      Aborts fanOuts (rest ++ U) E p → (∀ id ∈ rest, id ∉ p.parentRequests) →
      ∃ r' p', rest.foldlM (abortRound order abortChildren) (r, p) = .ok (r', p') ∧
        Aborts fanOuts U E p' ∧ Ended rest p p' ∧ p'.parentRequests = p.parentRequests := by
  induction rest with
  | nil => exact fun {U p} r ha _ => ⟨r, p, rfl, ha, ⟨.refl p, nofun⟩, rfl⟩
  | cons id rest ih =>
    intro U p r ha hparents
    obtain ⟨r₁, p₁, h₁, ha₁, hended, hp₁⟩ := abortRound_leaf order abortChildren
      r ha (hparents id (.head _))
    obtain ⟨r₂, p₂, h₂, ha₂, hended', hp₂⟩ := ih r₁ ha₁
      fun c hc => hp₁ ▸ hparents c (.tail _ hc)
    refine ⟨r₂, p₂, ?_, ha₂, ⟨hended.toShrinks.trans hended'.toShrinks, fun c hc => ?_⟩,
      hp₂.trans hp₁⟩
    · rw [foldlM_cons, h₁]
      exact h₂
    · rcases mem_cons.1 hc with rfl | hc
      · exact hended'.lookup_eq_none (hended.ended c (mem_singleton.2 rfl))
      · exact hended'.ended c hc

/-! ### The calls -/

theorem Aborts.setDrained (ha : Aborts fanOuts U E p) : Aborts fanOuts U E p.setDrained := by
  have hrun : ∀ {P c}, p.setDrained.Runs P c → p.Runs P c := fun {P c} ⟨s, hs, hP⟩ => by
    rw [setDrained_requestStates] at hs
    exact ⟨s, hs, hP⟩
  refine ⟨ha.toKept.setDrained, fun c hc P h => ha.queued c hc P (hrun h), fun P hP => ?_⟩
  have hsettled := ha.settled P hP
  unfold OutputProcessor.setDrained
  split_ifs
  · exact hsettled
  · exact hsettled

theorem Ended.setDrained (h : Ended ids p p') : Ended ids p p'.setDrained where
  states ht := by
    rw [setDrained_requestStates] at ht
    exact h.states ht
  parentRequests := by
    rw [setDrained_parentRequests]
    exact h.parentRequests
  ended id hid := by
    rw [setDrained_requestStates]
    exact h.ended id hid

variable (order) in
theorem abortChildren_eq (depth : ℕ) {cs : List RequestId} (ha : Aborts fanOuts U E p)
    (hnodup : cs.Nodup) (hU : ∀ c ∈ cs, (p.requestStates.lookup c).isSome → c ∉ U)
    (hparents : ∀ c ∈ cs, c ∉ p.parentRequests) (hE : ∀ c ∈ cs, ∀ P, p.Runs P c → P ∈ E) :
    ∃ r p', abortRequests order (depth + 1) p (.internal cs) = .ok (r, p') ∧
      Aborts fanOuts U E p' ∧ Ended cs p p' ∧ p'.parentRequests = p.parentRequests := by
  have honce : Once p cs := by
    refine hnodup.imp ?_
    exact fun hne _ => hne
  obtain ⟨d, hd, ha₁⟩ := unlist_foldlM (U ++ cs) cs ha hU honce (fun c hc => hc)
    fun c hc P hrun => .inl (hE c hc P hrun)
  obtain ⟨r, p₂, h₂, ha₂, hended, hp₂⟩ := abortRound_leaves order
    (abortRequests order depth) cs [] ha₁ hparents
  unfold abortRequests collectInternalIds
  simp only [hd, h₂, ok_bind, pure, Except.pure]
  have hended' := hended.setDrained
  refine ⟨r, p₂.setDrained, rfl, ha₂.setDrained,
    ⟨⟨hended'.states, hended'.parentRequests⟩, hended'.ended⟩, ?_⟩
  rw [setDrained_parentRequests]
  exact hp₂

theorem Kept.runs_of_mem (hk : Kept fanOuts U E p) {P : RequestId}
    (hmem : id ∈ (p.shared.parents P).childRequests) (hs : p.requestStates.lookup id = some s) :
    s.parentReq = some P := by
  obtain ⟨i, -, rfl, -⟩ := hk.childIds P id hmem
  cases hP : s.parentReq with
  | none =>
    obtain ⟨-, ⟨n, hn⟩, -⟩ := (hk.state _ s hs).single hP
    cases hn
  | some P' =>
    obtain ⟨-, -, hid, -⟩ := (hk.state _ s hs).child P' hP
    cases hid
    rfl

theorem Kept.notMem_parentRequests (hk : Kept fanOuts U E p)
    (hs : (p.requestStates.lookup id).isSome) : id ∉ p.parentRequests := by
  intro hP
  obtain ⟨fo, hfo⟩ := isSome_iff_exists.1 (hk.parentFanOut id hP)
  rw [(hk.fanOut id fo hfo).notRunning] at hs
  cases hs

theorem abortRound_parent (depth : ℕ) (r : List RequestId) (ha : Aborts fanOuts (id :: U) E p)
    (hs : p.requestStates.lookup id = none) (hid : id ∈ p.parentRequests) (hE : id ∈ E)
    (hU : ∀ c ∈ U, ¬ p.Runs id c) :
    ∃ r' p', abortRound order (abortRequests order (depth + 1)) (r, p)
        id = .ok (r', p') ∧ Aborts fanOuts U E p' ∧ Ended [id] p p' ∧ id ∉ p'.parentRequests := by
  have ha' : Aborts fanOuts U E p := ha.congrIds fun c hc => by
    have hne : c ≠ id := fun heq => by
      rw [heq, hs] at hc
      cases hc
    simp [hne]
  -- the children are aborted by the recursive call, if there are any
  obtain ⟨r₁, p₁, h₁, ha₁, hshrinks, hp₁, hnone⟩ : ∃ r₁ p₁,
      (if (p.shared.parents id).childRequests = [] then .ok ([], p)
        else abortRequests order (depth + 1) p
          (.internal (order.list (p.shared.parents id).childRequests))) = Except.ok (r₁, p₁) ∧
      Aborts fanOuts U E p₁ ∧ Shrinks p p₁ ∧ p₁.parentRequests = p.parentRequests ∧
      ∀ c ∈ (p.shared.parents id).childRequests, p₁.requestStates.lookup c = none := by
    by_cases hnil : (p.shared.parents id).childRequests = []
    · rw [if_pos hnil, hnil]
      exact ⟨_, _, rfl, ha', .refl p, rfl, nofun⟩
    · rw [if_neg hnil]
      have hperm := order.perm (p.shared.parents id).childRequests
      obtain ⟨r₁, p₁, h₁, ha₁, hended, hp₁⟩ := abortChildren_eq order depth ha'
        (hperm.nodup_iff.2 (ha.nodupChildren id))
        (fun c hc hrun hcU => by
          obtain ⟨s, hs⟩ := isSome_iff_exists.1 hrun
          exact hU c hcU ⟨s, hs, ha.toKept.runs_of_mem (hperm.mem_iff.1 hc) hs⟩)
        (fun c hc hP => by
          obtain ⟨i, -, rfl, -⟩ := ha.childIds id c (hperm.mem_iff.1 hc)
          obtain ⟨fo, hfo⟩ := isSome_iff_exists.1 (ha.parentFanOut _ hP)
          obtain ⟨n, hn⟩ := (ha.fanOut _ fo hfo).assigned
          cases hn)
        (fun c hc P ⟨s, hs, hP⟩ => by
          cases (ha.toKept.runs_of_mem (hperm.mem_iff.1 hc) hs).symm.trans hP
          exact hE)
      exact ⟨r₁, p₁, h₁, ha₁, hended.toShrinks, hp₁, fun c hc => hended.ended c (hperm.mem_iff.2 hc)⟩
  have hround : abortRound order (abortRequests order (depth + 1))
      (r, p) id = .ok (r ++ r₁, { p₁ with parentRequests := p₁.parentRequests.erase id }) := by
    unfold abortRound
    simp only [hs, ]
    split_ifs at h₁ ⊢
    · cases h₁
      rfl
    · rw [h₁]
      rfl
  have hrun : ∀ c, ¬ p₁.Runs id c := by
    rintro c ⟨s, hs, hP⟩
    obtain ⟨-, -, -, -, -, -, -, hmem⟩ := (ha.state c s (hshrinks.states hs)).child id hP
    cases (hnone c hmem).symm.trans hs
  refine ⟨_, _, hround, ⟨ha₁.toKept.unparent hrun, ha₁.queued, ha₁.settled⟩,
    ⟨⟨hshrinks.states, fun P hP => hshrinks.parentRequests (Finset.mem_of_mem_erase hP)⟩,
      fun c hc => ?_⟩, Finset.notMem_erase _ _⟩
  rw [mem_singleton.1 hc]
  exact hshrinks.lookup_eq_none hs

variable (order) in
theorem abortRound_foldlM (depth : ℕ) (rest : List RequestId) :
    ∀ {p : OutputProcessor α L} (r : List RequestId), Aborts fanOuts rest E p →
      (∀ id ∈ rest, id ∈ E) → rest.Pairwise (fun a b => ¬ p.Runs a b) → ∃ r' p', rest.foldlM
          (abortRound order (abortRequests order (depth + 1))) (r, p) =
            .ok (r', p') ∧ Aborts fanOuts [] E p' ∧ Ended rest p p' ∧
          ∀ P ∈ rest, P ∉ p'.parentRequests := by
  induction rest with
  | nil => exact fun {p} r ha _ _ => ⟨r, p, rfl, ha, ⟨.refl p, nofun⟩, nofun⟩
  | cons id rest ih =>
    intro p r ha hE hruns
    obtain ⟨hrun, hruns'⟩ := pairwise_cons.1 hruns
    obtain ⟨r₁, p₁, h₁, ha₁, hended, hid⟩ : ∃ r₁ p₁, abortRound order
        (abortRequests order (depth + 1)) (r, p) id = .ok (r₁, p₁) ∧
        Aborts fanOuts rest E p₁ ∧ Ended [id] p p₁ ∧ id ∉ p₁.parentRequests := by
      by_cases hid : id ∈ p.parentRequests
      · refine abortRound_parent depth r ha ?_ hid (hE id (.head _)) hrun
        obtain ⟨fo, hfo⟩ := isSome_iff_exists.1 (ha.parentFanOut id hid)
        exact (ha.fanOut id fo hfo).notRunning
      · obtain ⟨r₁, p₁, h₁, ha₁, hended, hp₁⟩ := abortRound_leaf order
          (abortRequests order (depth + 1)) r ha hid
        exact ⟨r₁, p₁, h₁, ha₁, hended, hp₁ ▸ hid⟩
    obtain ⟨r₂, p₂, h₂, ha₂, hended', hp₂⟩ := ih r₁ ha₁
      (fun c hc => hE c (.tail _ hc))
      (hruns'.imp fun h h' => h (hended.toShrinks.runs h'))
    refine ⟨r₂, p₂, ?_, ha₂, ⟨hended.toShrinks.trans hended'.toShrinks, fun c hc => ?_⟩,
      fun P hP => ?_⟩
    · rw [foldlM_cons, h₁]
      exact h₂
    · rcases mem_cons.1 hc with rfl | hc
      · exact hended'.lookup_eq_none (hended.ended c (mem_singleton.2 rfl))
      · exact hended'.ended c hc
    · rcases mem_cons.1 hP with rfl | hP
      · exact fun h => hid (hended'.parentRequests h)
      · exact hp₂ P hP

/-- The condition on internal ids. An id of a request that runs is listed once, and not after its
parent. A child is aborted alone if it has a queue and another child is left. A parent is aborted
between the additions of its children if it has a queue, and no aggregator waits there. -/
structure InternalMeets (fanOuts : RequestId → Option (FanOut α)) (p : OutputProcessor α L)
    (ids : List RequestId) : Prop where
  once : Once p ids
  childFirst : ids.Pairwise fun a b => ¬ p.Runs a b
  sibling : ∀ id ∈ ids, LeavesSibling fanOuts ids ids p id
  parents : ∀ P ∈ ids, ∀ fo, fanOuts P = some fo → (p.shared.parents P).childRequests ≠ [] →
    (fo.queue = none ∨ fo.request.outputKind = .finalOnly ∧ (p.queues P).output.isSome) →
      fo.idx = fo.request.n

/-- The condition on the ids that are passed to `abort_requests`: by its external id, only a request
without a parent is aborted. -/
def AbortMeets (fanOuts : RequestId → Option (FanOut α)) (p : OutputProcessor α L) : AbortIds → Prop
  | .internal ids => InternalMeets fanOuts p ids
  | .external exts => ∀ ext ∈ exts, ∀ id ∈ p.internalIds ext, ∀ P, ¬ p.Runs P id

variable (order) in
theorem abortRequests_internal (depth : ℕ) {ids : List RequestId} (hk : Kept fanOuts [] [] p)
    (hmeets : InternalMeets fanOuts p ids) : ∃ r p',
      abortRequests order (depth + 2) p (.internal ids) = .ok (r, p') ∧
        Kept fanOuts [] [] p' ∧ (p'.requestsDrained = true ↔ p'.requestStates.entries = []) ∧
        Ended ids p p' ∧ ∀ P ∈ ids, P ∉ p'.parentRequests := by
  have ha : Aborts fanOuts [] ids p := by
    refine ⟨hk.congrParents nofun fun P hP _ fo hfo hq hfinal hsome hne => ?_, nofun,
      fun P hP fo hfo hq hne => hmeets.parents P hP fo hfo hne (.inl hq)⟩
    exact hmeets.parents P hP fo hfo hne (.inr ⟨hfinal, hsome⟩)
  obtain ⟨d, hd, ha₁⟩ := unlist_foldlM ids ids ha (fun _ _ _ h => by cases h) hmeets.once
    (fun c hc => by simpa using hc) hmeets.sibling
  obtain ⟨r, p₂, h₂, ha₂, hended, hparents⟩ := abortRound_foldlM order depth ids []
    (ha₁.congrIds (by simp)) (fun _ h => h) hmeets.childFirst
  have hk₂ : Kept fanOuts [] [] p₂ :=
    ha₂.toKept.congrParents (fun P hP => .inr ⟨hparents P hP, ha₂.settled P hP⟩) nofun
  unfold abortRequests collectInternalIds
  simp only [hd, h₂, ok_bind, pure, Except.pure]
  have hended' := hended.setDrained
  refine ⟨r, p₂.setDrained, rfl, hk₂.setDrained, setDrained_iff hk₂.drained,
    ⟨⟨hended'.states, hended'.parentRequests⟩, hended'.ended⟩, fun P hP => ?_⟩
  rw [setDrained_parentRequests]
  exact hparents P hP

theorem internalIds_erase (p : OutputProcessor α L) (ext ext' : ℕ) :
    (p.withIds (p.externalReqIds.erase ext)).internalIds ext' =
      if ext' = ext then [] else p.internalIds ext' := by
  unfold internalIds
  rw [lookup_erase']
  split_ifs <;> rfl

/-- The requests of an external id are taken from the lists. -/
theorem Kept.eraseExternal {ext : ℕ} (hk : Kept fanOuts U [] p)
    (hext : ∀ id ∈ p.internalIds ext, ∀ P, ¬ p.Runs P id) :
    Kept fanOuts (U ++ p.internalIds ext) [] (p.withIds (p.externalReqIds.erase ext)) := by
  have hids := internalIds_erase p ext
  refine { hk with
    state := fun c t ht => (hk.state c t ht).same rfl rfl
    fanOut := fun P fo hfo => (hk.fanOut P fo hfo).same rfl rfl rfl
    listed := fun ext' c => ?_
    nodup := fun ext' => ?_
    notEmpty := fun ext' => ?_
    of_parents := fun P hP hPE => ?_ }
  · rw [hids]
    have hlisted := hk.listed ext' c
    have hlisted' := hk.listed ext c
    split_ifs with hext'
    · subst hext'
      refine ⟨nofun, ?_⟩
      rintro ⟨s, hs, rfl, hc⟩
      rw [mem_append, not_or] at hc
      exact absurd (hlisted.2 ⟨s, hs, rfl, hc.1⟩) hc.2
    · rw [hlisted]
      refine exists_congr fun s => and_congr_right fun hs => and_congr_right fun hse => ?_
      have hnot : c ∉ p.internalIds ext := fun h => by
        obtain ⟨s', hs', hse', -⟩ := hlisted'.1 h
        cases hs.symm.trans hs'
        exact hext' (hse.symm.trans hse')
      simp [hnot]
  · rw [hids]
    split_ifs
    · exact nodup_nil
    · exact hk.nodup ext'
  · show (p.externalReqIds.erase ext).lookup ext' ≠ _
    rw [lookup_erase']
    split_ifs
    · simp
    · exact hk.notEmpty ext'
  · obtain ⟨c, hrun, hc⟩ := hk.of_parents P hP hPE
    refine ⟨c, hrun, fun h => ?_⟩
    rcases mem_append.1 h with h | h
    · exact hc h
    · exact hext c h P hrun

theorem collectInternalIds_external (exts : List ℕ) :
    ∀ {U : List RequestId} {p : OutputProcessor α L}, Kept fanOuts U [] p →
      (∀ c ∈ U, ∀ P, ¬ p.Runs P c) →
      (∀ ext ∈ exts, ∀ id ∈ p.internalIds ext, ∀ P, ¬ p.Runs P id) →
      ∃ U' d, exts.foldl (fun (internalReqIds, p) requestId =>
          (internalReqIds ++ p.internalIds requestId,
            { p with externalReqIds := p.externalReqIds.erase requestId })) (U, p) =
              (U', p.withIds d) ∧ Kept fanOuts U' [] (p.withIds d) ∧
        (∀ c ∈ U', ∀ P, ¬ p.Runs P c) ∧
        ∀ c, c ∈ U' ↔ c ∈ U ∨ ∃ ext ∈ exts, c ∈ p.internalIds ext := by
  induction exts with
  | nil => exact fun {U p} hk hU _ => ⟨U, p.externalReqIds, rfl, hk, hU, by simp⟩
  | cons ext exts ih =>
    intro U p hk hU hexts
    have hids := internalIds_erase p ext
    have hext := hexts ext (.head _)
    obtain ⟨U', d, hfold, hk', hU', hmem⟩ := ih (hk.eraseExternal hext)
      (fun c hc P hrun => (mem_append.1 hc).elim (fun h => hU c h P hrun) fun h => hext c h P hrun)
      (fun ext' hext' c hc P hrun => by
        rw [hids] at hc
        split_ifs at hc
        · cases hc
        · exact hexts ext' (.tail _ hext') c hc P hrun)
    refine ⟨U', d, hfold, hk', hU', fun c => ?_⟩
    rw [hmem, mem_append]
    simp only [hids, mem_cons, exists_eq_or_imp]
    constructor
    · rintro ((h | h) | ⟨ext', h, hc⟩)
      · exact .inl h
      · exact .inr (.inl h)
      · split_ifs at hc
        · cases hc
        · exact .inr (.inr ⟨ext', h, hc⟩)
    · rintro (h | h | ⟨ext', h, hc⟩)
      · exact .inl (.inl h)
      · exact .inl (.inr h)
      · by_cases heq : ext' = ext
        · exact .inl (.inr (heq ▸ hc))
        · exact .inr ⟨ext', h, by rwa [if_neg heq]⟩

variable (order) in
theorem abortRequests_external (depth : ℕ) {exts : List ℕ} (hk : Kept fanOuts [] [] p)
    (hmeets : ∀ ext ∈ exts, ∀ id ∈ p.internalIds ext, ∀ P, ¬ p.Runs P id) : ∃ r p',
      abortRequests order (depth + 1) p (.external exts) = .ok (r, p') ∧
        Kept fanOuts [] [] p' ∧ (p'.requestsDrained = true ↔ p'.requestStates.entries = []) ∧
        Shrinks p p' ∧ ∀ ext ∈ exts, ∀ id ∈ p.internalIds ext, p'.requestStates.lookup id = none := by
  obtain ⟨U, d, hfold, hk₁, hU, hmem⟩ := collectInternalIds_external exts hk nofun hmeets
  have ha : Aborts fanOuts U [] (p.withIds d) := ⟨hk₁, fun c hc P hrun => absurd hrun (hU c hc P), nofun⟩
  have hparents : ∀ c ∈ U, c ∉ p.parentRequests := by
    intro c hc
    obtain ⟨ext, -, hid⟩ := ((hmem c).1 hc).resolve_left (by simp)
    obtain ⟨s, hs, -⟩ := (hk.listed ext c).1 hid
    exact hk.notMem_parentRequests (by rw [hs]; rfl)
  obtain ⟨r, p₂, h₂, ha₂, hended, -⟩ := abortRound_leaves order
    (abortRequests order depth) (U := []) U []
    (ha.congrIds (by simp)) hparents
  unfold abortRequests collectInternalIds
  simp only [hfold, h₂, ok_bind]
  have hended' := hended.setDrained
  refine ⟨r, p₂.setDrained, rfl, ha₂.toKept.setDrained, setDrained_iff ha₂.drained,
    ⟨hended'.states, hended'.parentRequests⟩, fun ext hext c hc => ?_⟩
  exact hended'.ended c ((hmem c).2 (.inr ⟨ext, hext, hc⟩))

end LoptVllm.Frontend
