import LoptVllm.Frontend.DeltaInvariant

/-!
# Runs of a request in DELTA mode
-/

namespace LoptVllm.Frontend

open OrderedDict List RequestState OutputProcessor DeltaRun

variable {α L : Type}

/-! ### The output processor -/

/-- A request and its collector, as they are in the output processor. -/
structure DeltaRequest.ViewOf (d : DeltaRequest α L) (p : OutputProcessor α L) (queue : RequestId) :
    Prop where
  queueKey : d.state.queue = some queue
  shared : d.shared = p.shared
  queue : d.queue = p.queues queue

section

variable {p p' : OutputProcessor α L} {d : DeltaRequest α L} {queue : RequestId}
  {s s' : RequestState α} {h h' : Shared α L} {new : List ℕ}

theorem queue_applyStreamInterval {finished : Bool} {out : Option (List ℕ)}
    (hr : s.applyStreamInterval new finished = .ok (out, s')) : s'.queue = s.queue := by
  unfold applyStreamInterval at hr
  split at hr
  · cases hr
    rfl
  · split at hr
    · cases hr
    · split_ifs at hr <;> (cases hr; rfl)

variable {stopReason : Option (StopReason α)} {finishReason : Option FinishReason}

theorem queue_newCompletionOutput {c : CompletionOutput α L}
    (hr : s.newCompletionOutput h new finishReason stopReason = .ok (c, s')) :
    s'.queue = s.queue := by
  unfold newCompletionOutput at hr
  split at hr
  · cases hr
  · cases hr
    rfl

variable {out : Option (Output α L)}

/-- An output goes to the queue of the request. -/
theorem queue_makeRequestOutput {pooling : Option (List ℚ)}
    (hr : s.makeRequestOutput h new pooling finishReason stopReason = .ok (out, s', h')) :
    s'.queue = s.queue := by
  unfold makeRequestOutput at hr
  dsimp only at hr
  split_ifs at hr
  · cases hr
    rfl
  · obtain ⟨⟨tokens, s₁⟩, hi, hr⟩ := bind_ok.1 hr
    have hq := queue_applyStreamInterval hi
    cases tokens with
    | none =>
      cases hr
      exact hq
    | some tokens =>
      cases pooling with
      | some data =>
        obtain ⟨o, -, hr⟩ := bind_ok.1 hr
        cases hr
        exact hq
      | none =>
        obtain ⟨⟨c, s₂⟩, hc, hr⟩ := bind_ok.1 hr
        obtain ⟨r, -, hr⟩ := bind_ok.1 hr
        cases hr
        exact (queue_newCompletionOutput hc).trans hq

variable {o : EngineCoreOutput α L}

theorem queue_updateFromOutput [DecidableEq α]
    {reasons : Option FinishReason × Option (StopReason α)}
    (hr : s.updateFromOutput h o = .ok (reasons, s', h')) : s'.queue = s.queue := by
  unfold updateFromOutput at hr
  split at hr
  · cases hr
    rfl
  · split at hr
    · cases hr
    · obtain ⟨h₁, -, hr⟩ := bind_ok.1 hr
      cases hr
      rfl

theorem deliver_view (hd : d.ViewOf p queue) {outs : List (Output α L)}
    (hs : s.queue = some queue) (states : OrderedDict RequestId (RequestState α))
    (hdeliver : { p with requestStates := states, shared := h }.deliver s.queue out =
      .ok (outs, p')) : ∃ d', d.putOutput s h out = .ok d' ∧ d'.ViewOf p' queue ∧ d'.state = s ∧
        p'.requestStates = states := by
  rw [hs] at hdeliver
  cases out with
  | none =>
    cases hdeliver
    exact ⟨_, rfl, ⟨hs, rfl, hd.queue⟩, rfl, rfl⟩
  | some out =>
    obtain ⟨p₁, hput, hdeliver⟩ := bind_ok.1 hdeliver
    obtain ⟨r, hqueue, hput⟩ := bind_ok.1 hput
    cases hput
    cases hdeliver
    rw [← hd.queue] at hqueue
    exact ⟨_, bind_ok.2 ⟨r, hqueue, rfl⟩, ⟨hs, rfl, by simp⟩, rfl, rfl⟩

/-- A round of `process_outputs` does to the request and to its queue what is done to a request in
DELTA mode; a request that has ended is forgotten. -/
theorem processOutput_view [DecidableEq α] {r r' : Returned α L} (hd : d.ViewOf p queue)
    (hs : p.requestStates.lookup o.requestId = some d.state)
    (hprocess : p.processOutput r o = .ok (r', p')) : ∃ d',
      d.processOutput o = .ok d' ∧ d'.ViewOf p' queue ∧
        p'.requestStates.lookup o.requestId = if d'.ended then none else some d'.state := by
  unfold processOutput at hprocess
  rw [hs, ← hd.shared] at hprocess
  obtain ⟨⟨⟨finishReason, stopReason⟩, s, h⟩, hupdate, hprocess⟩ := bind_ok.1 hprocess
  obtain ⟨⟨out, s', h'⟩, hmake, hprocess⟩ := bind_ok.1 hprocess
  obtain ⟨⟨outs, p₁⟩, hdeliver, hprocess⟩ := bind_ok.1 hprocess
  have hqueue : s'.queue = some queue :=
    ((queue_makeRequestOutput hmake).trans (queue_updateFromOutput hupdate)).trans hd.queueKey
  obtain ⟨d', hput, hview, rfl, hstates⟩ := deliver_view hd hqueue _ hdeliver
  refine ⟨_, bind_ok.2 ⟨_, hupdate, bind_ok.2 ⟨_, hmake, bind_ok.2 ⟨d', hput, rfl⟩⟩⟩, ?_⟩
  cases finishReason with
  | none =>
    cases hprocess
    refine ⟨⟨hview.queueKey, hview.shared, hview.queue⟩, ?_⟩
    rw [hstates, lookup_setItem, if_pos rfl]
    rfl
  | some reason =>
    obtain ⟨p₂, hfree, hprocess⟩ := bind_ok.1 hprocess
    obtain ⟨hshared, hqueues, herase⟩ := freeCompleted_frame hfree
    obtain rfl : p₂ = p' := by
      split_ifs at hprocess <;> (cases hprocess; rfl)
    refine ⟨⟨hview.queueKey, hview.shared.trans hshared.symm,
      hview.queue.trans (congrFun hqueues queue).symm⟩, ?_⟩
    rw [herase, lookup_erase', if_pos rfl]
    rfl

theorem abortState_view (hd : d.ViewOf p queue) (hdet : d.state.detokenizer.isSome)
    (habort : p.abortState d.state = .ok p') : ∃ d', d.abort = .ok d' ∧ d'.ViewOf p' queue ∧
      d'.ended = true ∧ p'.requestStates = p.requestStates := by
  unfold abortState at habort
  have hsome : d.state.detokenizer.isNone = false := by simp [← Option.not_isSome, hdet]
  rw [hd.queueKey, hsome, ← hd.shared] at habort
  obtain ⟨⟨out, s, h⟩, hmake, habort⟩ := bind_ok.1 habort
  have hqueue : s.queue = some queue := (queue_makeRequestOutput hmake).trans hd.queueKey
  have hdeliver : ({ p with requestStates := p.requestStates, shared := h } :
      OutputProcessor α L).deliver s.queue out = .ok ([], p') := by
    rw [hqueue]
    cases out with
    | none =>
      cases habort
      rfl
    | some output => exact bind_ok.2 ⟨p', habort, rfl⟩
  obtain ⟨d', hput, hview, -, hstates⟩ := deliver_view hd hqueue _ hdeliver
  exact ⟨_, bind_ok.2 ⟨_, hmake, bind_ok.2 ⟨d', hput, rfl⟩⟩,
    ⟨hview.queueKey, hview.shared, hview.queue⟩, rfl, hstates⟩

end

/-! ### The run -/

variable [DecidableEq α] {d : DeltaRequest α L}

namespace DeltaRequest

theorem Delivering.step (hd : d.Delivering) {event : DeltaEvent α L} (hevent : d.Admissible event) :
    ∃ d', d.step event = .ok d' ∧ d'.Delivering ∧
      (d.DeliveringLogprobs → d.Meets event → d'.DeliveringLogprobs) := by
  cases event with
  | output o => exact output_delivering hd hevent
  | abort => exact abort_delivering hd hevent
  | sibling h o =>
    obtain ⟨hsame, hknown, ho⟩ := hevent
    obtain ⟨d', hput, hd', hl'⟩ := sibling_delivering hd hsame hknown ho
    exact ⟨d', hput, hd', fun hl _ => hl' hl⟩
  | get =>
    obtain ⟨hd', hl'⟩ := get_delivering hd
    exact ⟨d.get, rfl, hd', fun hl _ => hl' hl⟩

omit [DecidableEq α] in
theorem text_prefix (hd : d.Delivering) : d.text <+: d.outputText ∧
    (d.ended = true → d.text = d.outputText) := by
  obtain ⟨det, hdet, -, htext⟩ := hd.detokenizer
  have houtput : d.outputText = det.text := by
    unfold outputText
    rw [hdet]
    cases det <;> rfl
  rw [houtput]
  cases hended : d.ended with
  | true =>
    rw [hended, if_pos rfl] at htext
    exact ⟨htext ▸ prefix_rfl, fun _ => htext⟩
  | false =>
    rw [hended] at htext
    refine ⟨?_, nofun⟩
    have hlast := TextHeld.last htext
    exact ⟨_, hlast⟩

end DeltaRequest

variable {meets : DeltaRequest α L → DeltaEvent α L → Prop}

theorem DeltaRun.delivering (h : DeltaRun meets d) : d.Delivering := by
  induction h with
  | start h => exact h.delivering.1
  | step event _ hevent _ hstep ih =>
    obtain ⟨d', hstep', hd', -⟩ := ih.step hevent
    cases hstep.symm.trans hstep'
    exact hd'

theorem DeltaRun.deliveringLogprobs (h : DeltaRun (fun d event => d.Meets event) d) :
    d.DeliveringLogprobs := by
  induction h with
  | start h => exact h.delivering.2
  | step event h hevent hmeets hstep ih =>
    obtain ⟨d', hstep', -, hl'⟩ := h.delivering.step hevent
    cases hstep.symm.trans hstep'
    exact hl' ih hmeets

/-- The tokens and the text are delivered once, whatever happens. -/
theorem DeltaRun.tokenIds_text (h : DeltaRun meets d) :
    (d.tokenIds <+: d.produced ∧ d.text <+: d.outputText) ∧
      (d.ended = true → d.tokenIds = d.produced ∧ d.text = d.outputText) := by
  have hd := h.delivering
  obtain ⟨htext, hall⟩ := DeltaRequest.text_prefix hd
  refine ⟨⟨?_, htext⟩, fun hended => ⟨?_, hall hended⟩⟩
  · rw [hd.tokenIds]
    exact take_prefix _ _
  · rw [hd.tokenIds, hd.sent_ended hended, take_length]

/-- A request that is aborted is delivered in full. -/
theorem DeltaRun.abortState {queue : RequestId} {p p' : OutputProcessor α L} (h : DeltaRun meets d)
    (hview : d.ViewOf p queue) (hended : d.ended = false) (hmeets : meets d .abort)
    (habort : p.abortState d.state = .ok p') : ∃ d', DeltaRun meets d' ∧ d'.ViewOf p' queue ∧
      d'.tokenIds = d'.produced ∧ d'.text = d'.outputText := by
  obtain ⟨det, hdet, -⟩ := h.delivering.detokenizer
  obtain ⟨d', hstep, hview', hended', -⟩ := abortState_view hview (by rw [hdet]; rfl) habort
  have h' := h.step .abort hended hmeets hstep
  exact ⟨d', h', hview', h'.tokenIds_text.2 hended'⟩

/-- **Delta streaming loses and repeats nothing**, where no output without a token is handed out once
the request has logprobs: what has been delivered is a prefix of the tokens, of the text and of the
logprobs of the request at any time, and all of them once it has ended. -/
theorem run_delivers (h : DeltaRun (fun d event => d.Meets event) d) :
    (d.tokenIds <+: d.produced ∧ d.text <+: d.outputText ∧ d.logprobs <+: d.producedLogprobs) ∧
    (d.ended = true → d.tokenIds = d.produced ∧ d.text = d.outputText ∧
      d.logprobs = d.producedLogprobs) ∧
    ∀ event, d.Admissible event → ∃ d', d.step event = .ok d' := by
  have hd := h.delivering
  have hl := h.deliveringLogprobs
  obtain ⟨⟨htokens, htext⟩, hall⟩ := h.tokenIds_text
  refine ⟨⟨htokens, htext, ?_⟩, fun hended => ⟨(hall hended).1, (hall hended).2, ?_⟩,
    fun event hevent => ?_⟩
  · rw [hl.logprobs]
    exact take_prefix _ _
  · rw [hl.logprobs, hd.sent_ended hended]
    have hlength := hl.length
    split_ifs at hlength
    · rw [← hlength, take_length]
    · rw [hlength, take_nil]
  · obtain ⟨d', hstep, -⟩ := hd.step hevent
    exact ⟨d', hstep⟩

/-! ### A request with logprobs -/

/-- A request in DELTA mode that asks for logprobs, with its collector. -/
def deltaRequest (streamInterval : ℕ) : DeltaRequest Char ℕ where
  state := .fromNewRequest ⟨.assigned 0, 7, .delta, 1, true, true, some (.plain [])⟩ none 0
    (some (.assigned 0)) streamInterval
  shared := ⟨fun id => .new id 0 1 .delta, fun _ => []⟩
  queue := .new .delta
  received := []
  produced := []
  producedLogprobs := []
  ended := false

theorem deltaRequest_started (streamInterval : ℕ) : (deltaRequest streamInterval).Started where
  request := ⟨_, _, _, _, _, rfl, rfl, .inl rfl⟩
  known := ⟨nofun, nofun, nofun, nofun, nofun⟩
  logprobs := rfl
  aggregate := rfl
  queue := nofun
  received := rfl
  produced := ⟨rfl, rfl⟩
  ended := rfl

/-- An engine output with a token and its logprob. -/
def tokenOutput (token logprob : ℕ) (finishReason : Option FinishReason) : EngineCoreOutput Char ℕ :=
  ⟨.assigned 0, [token], some [logprob], none, finishReason, none⟩

/-- Two tokens, of which the last one ends the request. -/
theorem run_delivers_two : ∃ d : DeltaRequest Char ℕ, d.ended = true ∧ d.produced = [3, 4] ∧
    (d.tokenIds = d.produced ∧ d.text = d.outputText ∧ d.logprobs = d.producedLogprobs) := by
  have h₀ : DeltaRun (fun d event => d.Meets event) (deltaRequest 1) := .start (deltaRequest_started 1)
  have h₁ := step (.output (tokenOutput 3 30 none)) h₀ ⟨rfl, rfl, rfl⟩
    (fun _ _ => ⟨(if_pos (le_refl 1)).mpr (cons_ne_nil _ _), fun _ => rfl⟩) rfl
  have h₂ := step (.output (tokenOutput 4 40 (some .length))) h₁ ⟨rfl, rfl, rfl⟩
    (fun _ _ => ⟨(if_pos (le_refl 1)).mpr (cons_ne_nil _ _), nofun⟩) rfl
  exact ⟨_, rfl, rfl, (run_delivers h₂).2.1 rfl⟩

/-- The final output of an abort has no token, and all the logprobs once more. -/
theorem logprobs_repeated_by_abort : ∃ d : DeltaRequest Char ℕ, DeltaRun (fun _ _ => True) d ∧
    d.ended = true ∧ d.producedLogprobs = [30] ∧ d.logprobs = [30, 30] := by
  have h₀ : DeltaRun (fun _ _ => True) (deltaRequest 1) := .start (deltaRequest_started 1)
  have h₁ := step (.output (tokenOutput 3 30 none)) h₀ ⟨rfl, rfl, rfl⟩ trivial rfl
  have h₂ := step .get h₁ trivial trivial rfl
  have h₃ := step .abort h₂ rfl trivial rfl
  exact ⟨_, h₃, rfl, rfl, rfl⟩

/-- The first token of the request. -/
theorem processOutput_view_first :
    let d := deltaRequest 1
    let p : OutputProcessor Char ℕ :=
      ⟨1, setItem ∅ (.assigned 0) d.state, ∅, ∅, true, d.shared, fun _ => d.queue⟩
    ∃ (d' : DeltaRequest Char ℕ) (p' : OutputProcessor Char ℕ) (r' : Returned Char ℕ),
      p.processOutput ⟨[], []⟩ (tokenOutput 3 30 none) = .ok (r', p') ∧
        d'.produced = [3] ∧ d'.ViewOf p' (.assigned 0) := by
  intro d p
  obtain ⟨d', hd, hview, -⟩ := @processOutput_view _ _ p _ d (.assigned 0) (tokenOutput 3 30 none) _
    ⟨[], []⟩ _ ⟨rfl, rfl, rfl⟩ rfl rfl
  cases hd
  exact ⟨_, _, _, rfl, rfl, hview⟩

end LoptVllm.Frontend
