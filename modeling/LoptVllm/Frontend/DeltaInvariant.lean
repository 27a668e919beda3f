import LoptVllm.Frontend.DeltaDelivery

/-!
# A request in DELTA mode delivers everything once
-/

namespace LoptVllm.Frontend

open List Bool RequestState DeltaRequest CompletionOutput

variable {α L : Type}

namespace DeltaRequest

/-! ### An output is made -/

variable {d d' : DeltaRequest α L} {s : RequestState α} {h : Shared α L}
  {det : IncrementalDetokenizer α} {finishReason : Option FinishReason}
  {stopReason : Option (StopReason α)} {new : List ℕ}

/-- The output of a request is made, and put into the collector. -/
def emit (d : DeltaRequest α L) (s : RequestState α) (h : Shared α L) (new : List ℕ)
    (finishReason : Option FinishReason) (stopReason : Option (StopReason α)) :
    Except PyErr (DeltaRequest α L) := do
  let (output, s, h) ← s.makeRequestOutput h new none finishReason stopReason
  d.putOutput s h output

/-- What is handed out. -/
structure Handed (d : DeltaRequest α L) (s : RequestState α) (h : Shared α L)
    (det : IncrementalDetokenizer α) (tokens : List ℕ) (finished : Bool)
    (c : CompletionOutput α L) (d' : DeltaRequest α L) : Prop where
  state : ∃ offset, d'.state = { s with
      detokenizer := some (det.getNextOutputText finished true).2
      sentTokensOffset := offset } ∧
    (1 < s.streamInterval → offset = det.outputTokenIds.length)
  produced : d'.produced = d.produced ∧ d'.producedLogprobs = d.producedLogprobs
  known : finished = false → Known s d'.shared
  tokenIds : c.tokenIds = tokens
  text : c.text = (det.getNextOutputText finished true).1
  logprobs : c.logprobs = if s.logprobs then some
    (if h.logprobs s.requestId ≠ [] then
      .own (lastLogprobs tokens.length (h.logprobs s.requestId))
      else .shared s.requestId) else none
  appends : Appends d h c d'

theorem Known.of_parents {h' : Shared α L} (hs : Known s h) (hparents : h'.parents = h.parents) :
    Known s h' := by
  obtain ⟨h₁, h₂, h₃, h₄, h₅⟩ := hs
  rw [← hparents] at h₂ h₃ h₄ h₅
  exact ⟨h₁, h₂, h₃, h₄, h₅⟩

/-- An output is withheld by the stream interval, or handed out. -/
inductive Emits (d : DeltaRequest α L) (s : RequestState α) (h : Shared α L)
    (det : IncrementalDetokenizer α) (new : List ℕ) (finished : Bool) : DeltaRequest α L → Prop
  | withheld (hw : s.Withholds det.outputTokenIds finished) :
    Emits d s h det new finished { d with state := s, shared := h }
  | handed (hw : ¬ s.Withholds det.outputTokenIds finished) (c : CompletionOutput α L)
      {d' : DeltaRequest α L}
      (hc : Handed d s h det (s.handedTokens det.outputTokenIds new) finished c d') :
    Emits d s h det new finished d'

theorem emit_emits (new : List ℕ) (finishReason : Option FinishReason)
    (stopReason : Option (StopReason α)) (hs : s = { d.state with detokenizer := some det })
    (hdelta : d.state.outputKind = .delta) (hknown : Known s h)
    (hq : Collects d.state.requestId d.state.requestIndex d.state.logprobs d.queue) : ∃ d',
      d.emit s h new finishReason stopReason = .ok d' ∧
        Emits d s h det new finishReason.isSome d' := by
  have hsdelta : s.outputKind = .delta := by rw [hs]; exact hdelta
  have hsdet : s.detokenizer = some det := by rw [hs]
  unfold emit
  rcases makeRequestOutput_delta hsdelta hsdet hknown new finishReason stopReason with
    ⟨hw, heq⟩ | ⟨hw, c, s', h', id, finished, heq, hout⟩
  · exact ⟨_, by rw [heq]; rfl, .withheld hw⟩
  · obtain ⟨offset, rfl, hoffset⟩ := hout.state
    have hlog : c.logprobs.isSome = d.state.logprobs := by
      rw [hout.logprobs, hs]
      cases d.state.logprobs <;> rfl
    obtain ⟨q, h'', hput, hparents, happends⟩ := putOutput_appends { s with
        detokenizer := some (det.getNextOutputText finishReason.isSome true).2
        sentTokensOffset := offset } h' id finished
      hq (by rw [hs]) (hout.index.trans (by rw [hs])) hlog
    refine ⟨_, Eq.trans (by simp only [heq, ok_bind]) hput, .handed hw c ⟨⟨offset, rfl, hoffset⟩,
      ⟨rfl, rfl⟩, ?_, hout.tokenIds, hout.text, hout.logprobs, happends.of_logprobs hq hout.shared⟩⟩
    exact fun hfin => Known.of_parents (hout.known hfin) hparents

variable {finished : Bool}

theorem Emits.produced (he : Emits d s h det new finished d') :
    d'.produced = d.produced ∧ d'.producedLogprobs = d.producedLogprobs := by
  cases he with
  | withheld hw => exact ⟨rfl, rfl⟩
  | handed hw c hc => exact hc.produced

/-! ### The tokens and the text -/

/-- What has been delivered are the tokens up to the offset, and the text that the detokenizer does
not hold back. -/
structure Delivering (d : DeltaRequest α L) : Prop where
  delta : d.state.outputKind = .delta
  known : d.ended = false → Known d.state d.shared
  collects : Collects d.state.requestId d.state.requestIndex d.state.logprobs d.queue
  detokenizer : ∃ det, d.state.detokenizer = some det ∧ det.outputTokenIds = d.produced ∧
    if d.ended then d.text = det.text else TextHeld d.produced d.text false det
  sent_le : d.state.sent d.produced ≤ d.produced.length
  sent_ended : d.ended = true → d.state.sent d.produced = d.produced.length
  tokenIds : d.tokenIds = d.produced.take (d.state.sent d.produced)

/-- What has been delivered does not depend on the objects that are shared, but for the logprobs. -/
theorem delivered_congr (hq : Collects d.state.requestId d.state.requestIndex d.state.logprobs d.queue)
    (hs : s.requestIndex = d.state.requestIndex) :
    tokenIds { d with state := s, shared := h } = d.tokenIds ∧
      text { d with state := s, shared := h } = d.text := by
  have hq' : Collects d.state.requestId s.requestIndex d.state.logprobs d.queue := hs ▸ hq
  rw [tokenIds_eq hq', tokenIds_eq hq, text_eq hq', text_eq hq]
  unfold waiting
  simp only [hs]
  exact ⟨trivial, trivial⟩

theorem queue_congr {q : RequestOutputCollector α L} (h : Shared α L)
    (hq : Collects d.state.requestId d.state.requestIndex d.state.logprobs d.queue)
    (hq' : Collects d.state.requestId d.state.requestIndex d.state.logprobs q)
    (hwait : q.waiting d.state.requestIndex = d.waiting) :
    tokenIds { d with shared := h, queue := q } = d.tokenIds ∧
      text { d with shared := h, queue := q } = d.text ∧
      logprobs { d with shared := h, queue := q } = logprobs { d with shared := h } := by
  have hwait' : waiting { d with shared := h, queue := q } = d.waiting := hwait
  rw [tokenIds_eq hq', tokenIds_eq hq, text_eq hq', text_eq hq, logprobs_eq hq',
    logprobs_eq (d := { d with shared := h }) hq, hwait']
  exact ⟨rfl, rfl, rfl⟩

/-- The tokens that are handed out are those that come after the offset. -/
theorem take_sent_append_handedTokens {produced : List ℕ} (s : RequestState α) (new : List ℕ)
    (hle : s.sent produced ≤ produced.length) :
    produced.take (s.sent produced) ++ s.handedTokens (produced ++ new) new = produced ++ new := by
  unfold sent handedTokens at *
  split_ifs with hk
  · rw [take_length]
  · rw [if_neg hk] at hle
    rw [drop_append_of_le_length hle, ← append_assoc, take_append_drop]

variable {c : CompletionOutput α L}

theorem Handed.sent_eq {tokens ids : List ℕ}
    (hc : Handed d s h det tokens finished c d') (hids : det.outputTokenIds = ids) :
    d'.state.sent ids = ids.length := by
  obtain ⟨offset, hstate, hoff⟩ := hc.state
  unfold sent
  rw [hstate]
  split_ifs with hle
  · rfl
  · rw [← hids]
    exact hoff (not_le.1 hle)

variable {l : List L}

theorem Emits.delivering {stopped : Bool} (he : Emits d s h det new finished d')
    (hd : d.Delivering) (hs : s = { d.state with detokenizer := some det }) (hknown : Known s h)
    (htext : TextHeld (d.produced ++ new) d.text stopped det)
    (hstopped : stopped = true → finished = true) :
    Delivering { d' with
      produced := d.produced ++ new
      producedLogprobs := l
      ended := finished } := by
  have hids := htext.outputTokenIds
  have hgoes : finished = false → stopped = false := fun hfin =>
    eq_false_iff.2 fun hstop => absurd (hstopped hstop) (by simp [hfin])
  have hk : s.streamInterval = d.state.streamInterval := by rw [hs]
  have hoffset : s.sentTokensOffset = d.state.sentTokensOffset := by rw [hs]
  have hsent : s.sent d.produced = d.state.sent d.produced := by
    unfold sent
    rw [hk, hoffset]
  cases he with
  | withheld hw =>
    -- nothing is delivered, and the offset stays
    obtain ⟨hlt, rfl, -, -⟩ := hw
    have hnk : ¬ s.streamInterval ≤ 1 := by omega
    have hsent' : s.sent (d.produced ++ new) = s.sent d.produced := by
      unfold sent
      rw [if_neg hnk, if_neg hnk]
    obtain ⟨htok, htxt⟩ := delivered_congr (s := s) hd.collects (by rw [hs])
    have hle := hd.sent_le
    refine ⟨by rw [hs]; exact hd.delta, fun _ => hknown, ?_, ⟨det, by rw [hs], hids, ?_⟩, ?_, nofun, ?_⟩
    · rw [hs]
      exact hd.collects
    · simp only [false_eq_true]
      rw [hgoes rfl] at htext
      exact htxt.symm ▸ htext
    · show s.sent (d.produced ++ new) ≤ _
      rw [hsent', hsent, length_append]
      omega
    · refine htok.trans ?_
      rw [hsent', hsent, take_append_of_le_length hle]
      exact hd.tokenIds
  | handed hw c hc =>
    obtain ⟨offset, hstate, hoff⟩ := hc.state
    generalize hdet' : (det.getNextOutputText finished true).2 = det' at hstate
    have hstate' : d'.state = { d.state with
        detokenizer := some det'
        sentTokensOffset := offset } := by
      rw [hstate, hs]
    have hsent' := hc.sent_eq hids
    have htokens : d'.tokenIds = d.produced ++ new := by
      rw [hc.appends.tokenIds, hc.tokenIds, hids, hd.tokenIds, ← hsent]
      exact take_sent_append_handedTokens s new (hsent ▸ hd.sent_le)
    refine ⟨hstate' ▸ hd.delta, fun hfin => ?_, hstate' ▸ hc.appends.collects,
      ⟨det', by rw [hstate'], ?_, ?_⟩,
      hsent'.le, fun _ => hsent', ?_⟩
    · have hknown' := hc.known hfin
      rw [hs] at hknown'
      obtain ⟨-, h₂, h₃, h₄, h₅⟩ := hknown'
      rw [hstate']
      exact ⟨nofun, h₂, h₃, h₄, h₅⟩
    · rw [← hdet', outputTokenIds_getNextOutputText, hids]
    · show if finished then d'.text = det'.text else TextHeld (d.produced ++ new) d'.text false det'
      rw [hc.appends.text, hc.text, ← hdet']
      cases finished with
      | true =>
        rw [if_pos rfl, text_getNextOutputText]
        exact htext.last
      | false =>
        rw [hgoes rfl] at htext
        exact htext.next
    · show d'.tokenIds = _
      rw [htokens]
      exact (take_of_length_le hsent'.ge).symm

/-! ### The logprobs -/

/-- What has been delivered are the logprobs up to the offset. A completion that waits has the list of
the request itself only if the request has no token. -/
structure DeliveringLogprobs (d : DeltaRequest α L) : Prop where
  own : d.shared.logprobs d.state.requestId = d.producedLogprobs
  length : if d.state.logprobs then d.producedLogprobs.length = d.produced.length
    else d.producedLogprobs = []
  logprobs : d.logprobs = d.producedLogprobs.take (d.state.sent d.produced)
  waiting : ∀ x ∈ d.waiting, x.logprobs = none ∨ x.Copied ∨
    x.logprobs = some (.shared d.state.requestId) ∧ d.produced = []

/-- The shared lists change, but not what the completions that wait have. -/
theorem logprobs_congr (hq : Collects d.state.requestId d.state.requestIndex d.state.logprobs d.queue)
    (hs : s.requestIndex = d.state.requestIndex)
    (hwait : ∀ x ∈ d.waiting, x.logprobs = none ∨ x.Copied ∨
      x.logprobs = some (.shared d.state.requestId) ∧
        h.logprobs d.state.requestId = d.shared.logprobs d.state.requestId) :
    logprobs { d with state := s, shared := h } = d.logprobs := by
  have hq' : Collects d.state.requestId s.requestIndex d.state.logprobs d.queue := hs ▸ hq
  rw [logprobs_eq hq', logprobs_eq hq]
  unfold waiting at *
  simp only [hs]
  congr 1
  refine flatMap_congr fun x hx => ?_
  unfold entries
  rcases hwait x hx with hnone | ⟨l, hl⟩ | ⟨hl, heq⟩
  · rw [hnone]
    rfl
  · rw [hl]
    rfl
  · rw [hl]
    exact heq

/-- The negative slice, where there is a token. -/
theorem lastLogprobs_eq {n o : ℕ} (hn : 0 < n) (ho : n + o = l.length) :
    lastLogprobs n l = l.drop o := by
  unfold lastLogprobs
  rw [if_neg (by omega), ← ho, Nat.add_sub_cancel_left]

/-- An output that is handed out has a token. -/
theorem SendsTokens.sent_lt (hnew : d.produced ++ new ≠ [])
    (hk : s.streamInterval = d.state.streamInterval)
    (hoffset : s.sentTokensOffset = d.state.sentTokensOffset) (hsends : d.SendsTokens new finished)
    (hw : ¬ s.Withholds (d.produced ++ new) finished) :
    s.sent d.produced < (d.produced ++ new).length := by
  have hpos := length_pos_iff.2 hnew
  unfold SendsTokens at hsends
  unfold sent
  split_ifs at hsends ⊢ with h₁ h₂ h₂
  · have hpos := length_pos_iff.2 hsends
    rw [length_append]
    omega
  · omega
  · omega
  · cases finished with
    | true => rw [hoffset]; exact hsends rfl
    | false =>
      by_contra hle
      exact hw ⟨by omega, rfl, by omega, by omega⟩

/-- What a completion has: the logprobs that come after the offset. -/
theorem Handed.entries_eq {tokens : List ℕ} {o : ℕ}
    (hc : Handed d s h det tokens finished c d') (hn : s.logprobs = true →
      h.logprobs s.requestId ≠ [] → 0 < tokens.length ∧ tokens.length + o = (h.logprobs s.requestId).length)
    (hnone : s.logprobs = false → h.logprobs s.requestId = []) :
    c.entries h = (h.logprobs s.requestId).drop o := by
  unfold entries
  rw [hc.logprobs]
  cases hlog : s.logprobs with
  | false =>
    rw [hnone hlog]
    simp
  | true =>
    by_cases hnil : h.logprobs s.requestId = []
    · simp [hnil, SampleLogprobs.entries]
    · obtain ⟨hpos, hlen⟩ := hn hlog hnil
      simp [hnil, SampleLogprobs.entries, lastLogprobs_eq hpos hlen]

theorem Delivering.requested (hd : d.Delivering) {x : CompletionOutput α L} (hx : x ∈ d.waiting)
    (hshared : x.logprobs = some (.shared d.state.requestId)) : d.state.logprobs = true := by
  rw [← hd.collects.logprobs_waiting hx, hshared]
  rfl

section

variable (hd : d.Delivering) (hl : d.DeliveringLogprobs)
  (hs : s = { d.state with detokenizer := some det })
  (hids : det.outputTokenIds = d.produced ++ new)
  (hown : h.logprobs d.state.requestId = d.producedLogprobs ++ l)
  (hlen : if d.state.logprobs then l.length = new.length else l = [])
  (hmeets : d.state.logprobs = true → d.produced ++ new ≠ [] →
    d.SendsTokens new finished ∧ (d.produced = [] → d.waiting = []))

include hl hlen in
theorem DeliveringLogprobs.length_produced : if d.state.logprobs then
    (d.producedLogprobs ++ l).length = (d.produced ++ new).length
    else d.producedLogprobs ++ l = [] := by
  have := hl.length
  split_ifs at * with hlog
  · rw [length_append, length_append, this, hlen]
  · rw [this, hlen, append_nil]

include hd hl hlen in
theorem DeliveringLogprobs.eq_take :
    d.logprobs = (d.producedLogprobs ++ l).take (d.state.sent d.produced) := by
  have := hl.length
  rw [hl.logprobs]
  split_ifs at this hlen with hlog
  · rw [take_append_of_le_length (this ▸ hd.sent_le)]
  · rw [hlen, append_nil]

include hd hl hmeets in
theorem DeliveringLogprobs.waits : ∀ x ∈ d.waiting, x.logprobs = none ∨ x.Copied ∨
    x.logprobs = some (.shared d.state.requestId) ∧ d.produced ++ new = [] := by
  intro x hx
  refine (hl.waiting x hx).imp_right (Or.imp_right fun ⟨hshared, hnil⟩ => ⟨hshared, ?_⟩)
  by_contra hne
  rw [(hmeets (hd.requested hx hshared) hne).2 hnil] at hx
  cases hx

include hd hl hs hown hlen hmeets in
/-- The logprobs that come do not change what has been delivered. -/
theorem Delivering.logprobs_same : logprobs { d with state := s, shared := h } = d.logprobs := by
  refine logprobs_congr hd.collects (by rw [hs]) fun x hx =>
    (hl.waits hd hmeets x hx).imp_right (Or.imp_right fun ⟨hshared, hnil⟩ => ⟨hshared, ?_⟩)
  rw [if_pos (hd.requested hx hshared)] at hlen
  rw [hown, hl.own, length_eq_zero_iff.1 (hlen.trans (by simp [(append_eq_nil_iff.1 hnil).2])),
    append_nil]

variable {c : CompletionOutput α L} (hw : ¬ s.Withholds det.outputTokenIds finished)
  (hc : Handed d s h det (s.handedTokens det.outputTokenIds new) finished c d')

include hd hl hs hids hown hlen hmeets hw hc

/-- A completion that is handed out has a token, so it has the logprobs that come after the offset. -/
theorem Handed.entries_produced :
    c.entries h = (d.producedLogprobs ++ l).drop (d.state.sent d.produced) := by
  have hlength := hl.length_produced hlen
  have hid : s.requestId = d.state.requestId := by rw [hs]
  have hslog : s.logprobs = d.state.logprobs := by rw [hs]
  have hk : s.streamInterval = d.state.streamInterval := by rw [hs]
  have hoffset : s.sentTokensOffset = d.state.sentTokensOffset := by rw [hs]
  have hsent : s.sent d.produced = d.state.sent d.produced := by
    unfold sent
    rw [hk, hoffset]
  rw [← hown, ← hid]
  refine hc.entries_eq (fun hlog hne => ?_) fun hlog => ?_
  · rw [hslog] at hlog
    rw [if_pos hlog] at hlength
    rw [hid, hown] at hne ⊢
    have hnew : d.produced ++ new ≠ [] := fun hnil => hne (length_eq_zero_iff.1 (by
      rw [hlength, hnil]
      rfl))
    have hlt := SendsTokens.sent_lt hnew hk hoffset (hmeets hlog hnew).1 (hids ▸ hw)
    have htokens := congrArg List.length
      (take_sent_append_handedTokens s new (hsent ▸ hd.sent_le))
    have hle := hd.sent_le
    rw [length_append, length_take, hsent] at htokens
    rw [hids, hlength]
    omega
  · rw [hid, hown]
    rw [if_neg (by rw [← hslog, hlog]; exact false_ne_true)] at hlength
    exact hlength

theorem Handed.nil_or_copied : c.entries h = [] ∨ ∀ x ∈ d.waiting, x.Copied := by
  have hlength := hl.length_produced hlen
  refine or_iff_not_imp_left.2 fun hne x hx => ?_
  have hPL : d.producedLogprobs ++ l ≠ [] := fun hnil => hne (by
    rw [hc.entries_produced hd hl hs hids hown hlen hmeets hw, hnil, drop_nil])
  have hlog : d.state.logprobs = true := by
    by_contra hlog
    rw [if_neg hlog] at hlength
    exact hPL hlength
  rw [if_pos hlog] at hlength
  rcases hl.waits hd hmeets x hx with hnone | hcopied | ⟨-, hnil⟩
  · have := hd.collects.logprobs_waiting hx
    rw [hnone, hlog] at this
    cases this
  · exact hcopied
  · rw [hnil] at hlength
    exact absurd (length_eq_zero_iff.1 hlength) hPL

omit hw hc in
theorem Emits.deliveringLogprobs (he : Emits d s h det new finished d') :
    DeliveringLogprobs { d' with
      produced := d.produced ++ new
      producedLogprobs := d.producedLogprobs ++ l
      ended := finished } := by
  have hlength := hl.length_produced hlen
  have hwait := hl.waits hd hmeets
  have hsame := hd.logprobs_same hl hs hown hlen hmeets
  have htake := hl.eq_take hd hlen
  have hid : s.requestId = d.state.requestId := by rw [hs]
  have hslog : s.logprobs = d.state.logprobs := by rw [hs]
  cases he with
  | withheld hw =>
    have hsent : s.sent (d.produced ++ new) = d.state.sent d.produced := by
      subst hs
      unfold sent
      rw [if_neg (not_le.2 hw.1), if_neg (not_le.2 hw.1)]
    refine ⟨hid ▸ hown, hslog ▸ hlength, ?_, ?_⟩
    · refine hsame.trans (htake.trans ?_)
      rw [← hsent]
    · show ∀ x ∈ d.queue.waiting s.requestIndex, _ ∨ _ ∨ x.logprobs = some (.shared s.requestId) ∧ _
      rw [hs]
      exact hwait
  | handed hw c hc =>
    obtain ⟨offset, hstate, hoff⟩ := hc.state
    have hid' : d'.state.requestId = d.state.requestId := by rw [hstate, hs]
    obtain ⟨hshared, hlogprobs, hwait'⟩ :=
      hc.appends.logprobs (hc.nil_or_copied hd hl hs hids hown hlen hmeets hw)
    have hsame' : logprobs { d with shared := h } = d.logprobs := by
      rw [← hsame, hs]
      rfl
    refine ⟨?_, ?_, ?_, ?_⟩
    · show d'.shared.logprobs d'.state.requestId = _
      rw [hshared, hid', hown]
    · show if d'.state.logprobs then _ else _
      rw [hstate]
      exact hslog ▸ hlength
    · show d'.logprobs = (d.producedLogprobs ++ l).take (d'.state.sent (d.produced ++ new))
      rw [hlogprobs, hsame', htake, hc.entries_produced hd hl hs hids hown hlen hmeets hw,
        take_append_drop, hc.sent_eq hids, take_of_length_le]
      split_ifs at hlength
      · exact hlength.le
      · simp [hlength]
    · show ∀ x ∈ d'.waiting, _ ∨ _ ∨ x.logprobs = some (.shared d'.state.requestId) ∧ _
      rw [hid']
      intro x hx
      rcases hwait' x hx with hxc | hcopied | ⟨y, hy, hxy⟩
      · -- the completion waits as it was handed out
        have hc' := hxc.trans hc.logprobs
        rw [hslog, hid, hown] at hc'
        split_ifs at hc' hlength with hlog hPL
        · exact .inr (.inl ⟨_, hc'⟩)
        · rw [not_not.1 hPL] at hlength
          exact .inr (.inr ⟨hc', length_eq_zero_iff.1 hlength.symm⟩)
        · exact .inl hc'
      · exact .inr (.inl hcopied)
      · unfold Copied at *
        rw [hxy]
        exact hwait y hy

end

/-! ### The steps -/

variable {o : EngineCoreOutput α L}

theorem updateFromOutput_delta [DecidableEq α] (hdet : s.detokenizer = some det)
    (hpool : o.poolingOutput = none)
    (hlog : o.newLogprobs ≠ none → s.logprobs = true) : ∃ finishReason stopReason h',
      s.updateFromOutput h o = .ok ((finishReason, stopReason), { s with
        detokenizer := some (det.update o.newTokenIds (o.finishReason = some .stop)).2 }, h') ∧
      h'.parents = h.parents ∧
      h'.logprobs s.requestId = h.logprobs s.requestId ++ o.newLogprobs.getD [] ∧
      finishReason.isSome = s.finishes o := by
  obtain ⟨h', hh', hparents, hown⟩ : ∃ h', s.updateLogprobs h o.newLogprobs = .ok h' ∧
      h'.parents = h.parents ∧
      h'.logprobs s.requestId = h.logprobs s.requestId ++ o.newLogprobs.getD [] := by
    cases hnew : o.newLogprobs with
    | none => exact ⟨h, rfl, rfl, (append_nil _).symm⟩
    | some l => exact ⟨_, if_pos (hlog (by simp [hnew])), rfl, Function.update_self _ _ _⟩
  obtain ⟨finishReason, stopReason, t, h'', heq, -, -, hfin⟩ := updateFromOutput_eq h
    ⟨fun _ => by simp [hdet], fun _ => hpool⟩ fun _ => hlog
  have heq' := heq
  unfold updateFromOutput at heq'
  simp only [hpool, hdet, hh', bind] at heq'
  cases heq'
  exact ⟨_, _, _, heq, hparents, hown, hfin⟩

theorem finishes_of_stop [DecidableEq α] (hdet : s.detokenizer = some det)
    (hpool : o.poolingOutput = none)
    (hne : (det.update o.newTokenIds (o.finishReason = some .stop)).1 ≠ some [])
    (hstop : (det.update o.newTokenIds (o.finishReason = some .stop)).1.isSome = true) :
    s.finishes o = true := by
  unfold finishes
  simp only [hdet, hpool]
  generalize (det.update o.newTokenIds (o.finishReason = some .stop)).1 = stop at hne hstop
  cases stop with
  | none => cases hstop
  | some t =>
    have ht : t ≠ [] := fun ht => hne (congrArg some ht)
    simp [ht]

theorem processOutput_eq [DecidableEq α] (hpool : o.poolingOutput = none) : d.processOutput o = do
      let ((finishReason, stopReason), s, h) ← d.state.updateFromOutput d.shared o
      let d' ← d.emit s h o.newTokenIds finishReason stopReason
      return { d' with
        produced := d'.produced ++ o.newTokenIds
        producedLogprobs := d'.producedLogprobs ++ o.newLogprobs.getD []
        ended := finishReason.isSome } := by
  unfold processOutput emit
  simp [hpool]

theorem output_delivering [DecidableEq α] (hd : d.Delivering)
    (hevent : d.Admissible (.output o)) : ∃ d', d.processOutput o = .ok d' ∧ d'.Delivering ∧
      (d.DeliveringLogprobs → d.Meets (.output o) → d'.DeliveringLogprobs) := by
  obtain ⟨hended, hpool, hlogs⟩ := hevent
  obtain ⟨det, hdet, hids, htext⟩ := hd.detokenizer
  rw [if_neg (by simp [hended])] at htext
  have hlog : o.newLogprobs ≠ none → d.state.logprobs = true := fun hne => by
    by_contra hlog
    rw [if_neg hlog] at hlogs
    exact hne hlogs
  obtain ⟨finishReason, stopReason, h', heq, hparents, hown, hfin⟩ :=
    updateFromOutput_delta hdet hpool hlog
  obtain ⟨htext', hne⟩ := htext.update o.newTokenIds (o.finishReason = some .stop)
  have hstopped := finishes_of_stop hdet hpool hne
  generalize det.update o.newTokenIds (o.finishReason = some .stop) = r at heq htext' hne hstopped
  obtain ⟨stop, det'⟩ := r
  have hknown : Known { d.state with detokenizer := some det' } h' := by
    obtain ⟨-, h₂, h₃, h₄, h₅⟩ := Known.of_parents (hd.known hended) hparents
    exact ⟨nofun, h₂, h₃, h₄, h₅⟩
  obtain ⟨d', hemit, he⟩ := emit_emits o.newTokenIds finishReason stopReason rfl hd.delta hknown hd.collects
  refine ⟨_, ?_, he.delivering (l := d.producedLogprobs ++ o.newLogprobs.getD []) hd rfl hknown htext'
    (hfin ▸ hstopped), fun hl hmeets => ?_⟩
  · rw [processOutput_eq hpool]
    simp only [heq, ok_bind, hemit, he.produced.1, he.produced.2]
    rfl
  · refine he.deliveringLogprobs hd hl rfl htext'.outputTokenIds (hl.own ▸ hown) ?_ ?_
    · split_ifs at hlogs ⊢
      · exact hlogs
      · rw [hlogs]
        rfl
    · rw [hfin]
      exact hmeets

theorem abort_eq (d : DeltaRequest α L) : d.abort = do
    let d' ← d.emit d.state d.shared [] (some .abort) none
    return { d' with ended := true } := by
  unfold abort emit
  simp

theorem abort_delivering (hd : d.Delivering) (hended : d.ended = false) : ∃ d', d.abort = .ok d' ∧
    d'.Delivering ∧ (d.DeliveringLogprobs → (d.state.logprobs = true → d.produced ≠ [] →
      d.SendsTokens [] true) → d'.DeliveringLogprobs) := by
  obtain ⟨det, hdet, hids, htext⟩ := hd.detokenizer
  rw [if_neg (by simp [hended])] at htext
  have hs : d.state = { d.state with detokenizer := some det } := by rw [← hdet]
  obtain ⟨d', hemit, he⟩ := emit_emits [] (some .abort) none hs hd.delta (hd.known hended) hd.collects
  have hrest : ({ d' with ended := true } : DeltaRequest α L) = { d' with
      produced := d.produced ++ []
      producedLogprobs := d.producedLogprobs ++ []
      ended := true } := by
    rw [append_nil, append_nil, ← he.produced.1, ← he.produced.2]
  have hheld : TextHeld (d.produced ++ []) d.text false det := by
    rw [append_nil]
    exact htext
  refine ⟨{ d' with ended := true }, ?_, ?_, fun hl hmeets => ?_⟩
  · rw [abort_eq]
    simp only [hemit, bind]
    rfl
  · rw [hrest]
    exact he.delivering hd hs (hd.known hended) hheld nofun
  · rw [hrest]
    refine he.deliveringLogprobs hd hl hs (hids.trans (append_nil _).symm)
      (hl.own.trans (append_nil _).symm) (by split_ifs <;> rfl) fun hlog hne => ?_
    rw [append_nil] at hne
    exact ⟨hmeets hlog hne, fun hnil => absurd hnil hne⟩

theorem sibling_delivering {o : RequestOutput α L} (hd : d.Delivering)
    (hsame : h.logprobs d.state.requestId = d.shared.logprobs d.state.requestId)
    (hknown : d.ended = false → Known d.state h)
    (ho : ∃ c, o.outputs = .own [some c] ∧ d.FromSibling c) : ∃ d',
      d.putOutput d.state h (some (.completion o)) = .ok d' ∧ d'.Delivering ∧
        (d.DeliveringLogprobs → d'.DeliveringLogprobs) := by
  obtain ⟨c, hc, hsib⟩ := ho
  obtain ⟨n, outputs, finished⟩ := o
  obtain rfl : outputs = .own [some c] := hc
  obtain ⟨q, h', hput, hq, hwait, hparents, hlog⟩ :=
    hd.collects.put_sibling h n finished hsib.index hsib.logprobs hsib.notShared
  obtain ⟨htok, htxt, hlogp⟩ := queue_congr h' hd.collects hq hwait
  refine ⟨{ d with shared := h', queue := q }, ?_, ?_, fun hl => ?_⟩
  · unfold putOutput
    simp only [hput, bind]
    rfl
  · refine ⟨hd.delta, fun hended => Known.of_parents (hknown hended) hparents, hq, ?_, hd.sent_le,
      hd.sent_ended, htok.trans hd.tokenIds⟩
    obtain ⟨det, hdet, hids, htext⟩ := hd.detokenizer
    exact ⟨det, hdet, hids, htxt.symm ▸ htext⟩
  · refine ⟨(hlog.trans hsame).trans hl.own, hl.length, ?_, ?_⟩
    · refine (hlogp.trans (logprobs_congr hd.collects rfl fun x hx => ?_)).trans hl.logprobs
      exact (hl.waiting x hx).imp_right (Or.imp_right fun h => ⟨h.1, hlog.trans hsame⟩)
    · show ∀ x ∈ q.waiting d.state.requestIndex, _
      rw [hwait]
      exact hl.waiting

theorem get_delivering (hd : d.Delivering) :
    d.get.Delivering ∧ (d.DeliveringLogprobs → d.get.DeliveringLogprobs) := by
  have hstream : d.get.stream = d.stream := by
    unfold stream get
    simp [RequestOutputCollector.getNowait]
  have hdelivered : d.get.delivered = d.delivered := congrArg (flatMap _) hstream
  have htok : d.get.tokenIds = d.tokenIds := congrArg (flatMap _) hdelivered
  have htxt : d.get.text = d.text := congrArg (flatMap _) hdelivered
  have hlogp : d.get.logprobs = d.logprobs := congrArg (flatMap _) hdelivered
  refine ⟨⟨hd.delta, hd.known, ⟨hd.collects.aggregate, nofun⟩, ?_, hd.sent_le, hd.sent_ended,
    htok.trans hd.tokenIds⟩, fun hl => ⟨hl.own, hl.length, hlogp.trans hl.logprobs, nofun⟩⟩
  obtain ⟨det, hdet, hids, htext⟩ := hd.detokenizer
  exact ⟨det, hdet, hids, htxt.symm ▸ htext⟩

theorem Started.delivering (hd : d.Started) : d.Delivering ∧ d.DeliveringLogprobs := by
  have hq : Collects d.state.requestId d.state.requestIndex d.state.logprobs d.queue := by
    refine ⟨hd.aggregate, fun o ho => ?_⟩
    obtain ⟨n, cs, finished, rfl, hcs⟩ := hd.queue o ho
    refine ⟨n, cs, finished, rfl, fun c hc => (hcs c hc).logprobs, fun c hc _ => (hcs c hc).notShared, ?_⟩
    rw [filter_eq_nil_of_ne fun c hc => (hcs c hc).index]
    exact Nat.zero_le _
  have hwait : d.waiting = [] := by
    unfold waiting
    cases ho : d.queue.output with
    | none =>
      unfold RequestOutputCollector.waiting
      rw [ho]
      rfl
    | some o =>
      obtain ⟨n, cs, finished, rfl, hcs⟩ := hd.queue o ho
      rw [waiting_own ho]
      exact filter_eq_nil_of_ne fun c hc => (hcs c hc).index
  have htok := tokenIds_eq hq
  have htxt := text_eq hq
  have hlogp := logprobs_eq hq
  simp only [hd.received, hwait, flatMap_nil, append_nil] at htok htxt hlogp
  obtain ⟨hprod, hprodlog⟩ := hd.produced
  obtain ⟨request, parentReq, index, queue, streamInterval, hstate, hdelta, hdet⟩ := hd.request
  have hsent : d.state.sent d.produced = 0 := by
    rw [hstate, hprod]
    unfold sent
    split_ifs <;> rfl
  refine ⟨⟨by rw [hstate]; exact hdelta, fun _ => hd.known, hq, ?_, by omega, fun h => ?_, ?_⟩,
    ⟨hd.logprobs.trans hprodlog.symm, by rw [hprod, hprodlog]; split_ifs <;> rfl, ?_, ?_⟩⟩
  · rw [hd.ended, hprod, htxt, hstate]
    rcases hdet with hdet | ⟨decodeNext, params, prompt, hdet⟩
    · exact ⟨_, hdet, rfl, rfl, rfl⟩
    · exact ⟨_, hdet, outputTokenIds_new params prompt, textHeld_new decodeNext params prompt⟩
  · rw [hd.ended] at h
    cases h
  · rw [htok, hprod, take_nil]
  · rw [hlogp, hprodlog, take_nil]
  · rw [hwait]
    nofun

end DeltaRequest

end LoptVllm.Frontend
