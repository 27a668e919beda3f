import LoptVllm.Frontend.DeltaStream
import LoptVllm.Frontend.Streaming

/-!
# What a request in DELTA mode delivers
-/

namespace LoptVllm.Frontend

open List BaseIncrementalDetokenizer RequestState RequestOutputCollector Output

variable {α L : Type}

/-! ### The detokenizer -/

namespace BaseIncrementalDetokenizer

variable (decodeNext : List ℕ → List α)

theorem decodeTokens_tokenIds (ts : List ℕ) : ∀ (b : BaseIncrementalDetokenizer α) (o : ℕ),
    (b.decodeTokens decodeNext o ts).1.tokenIds = b.tokenIds ++ ts ∧
      (b.decodeTokens decodeNext o ts).1.promptLen = b.promptLen := by
  induction ts with
  | nil => exact fun b o => ⟨(append_nil _).symm, rfl⟩
  | cons t ts ih =>
    intro b o
    obtain ⟨hids, hlen⟩ := ih { b with
      tokenIds := b.tokenIds ++ [t]
      outputText := b.outputText ++ decodeNext (b.tokenIds ++ [t]) } _
    exact ⟨hids.trans (by simp), hlen⟩

variable (b : BaseIncrementalDetokenizer α)

theorem evaluateStop_tokenIds [DecidableEq α] (o : ℕ) :
    (b.evaluateStop o).2.tokenIds = b.tokenIds ∧ (b.evaluateStop o).2.promptLen = b.promptLen := by
  unfold evaluateStop
  split_ifs
  · split
    · exact ⟨rfl, rfl⟩
    · dsimp only
      split_ifs <;> exact ⟨rfl, rfl⟩
  · exact ⟨rfl, rfl⟩

theorem update_tokenIds [DecidableEq α] (new : List ℕ)
    (term : Bool) : (b.update decodeNext new term).2.tokenIds = b.tokenIds ++ new ∧
      (b.update decodeNext new term).2.promptLen = b.promptLen := by
  unfold update
  split_ifs with hnew
  · exact ⟨by simp [hnew], rfl⟩
  · extract_lets skip skipped
    obtain ⟨hids, hlen⟩ := decodeTokens_tokenIds decodeNext
      (if skip then new.dropLast else new) b b.outputText.length
    rw [(evaluateStop_tokenIds _ _).1, (evaluateStop_tokenIds _ _).2]
    refine ⟨?_, hlen⟩
    rw [hids]
    by_cases hskip : skip
    · simp only [skipped, if_pos hskip, append_assoc]
      rw [getLast?_eq_some_getLast hnew, Option.toList_some, dropLast_append_getLast]
    · simp [skipped, if_neg hskip]

end BaseIncrementalDetokenizer

/-- The text of the output. -/
def IncrementalDetokenizer.text : IncrementalDetokenizer α → List α
  | .plain _ => []
  | .base _ b => b.outputText

/-- The output tokens are those that were produced, and the text that was handed out is the beginning
of the text of the output. -/
def TextHeld (produced : List ℕ) (text : List α) (stopped : Bool) : IncrementalDetokenizer α → Prop
  | .plain tokenIds => tokenIds = produced ∧ text = []
  | .base _ b => b.outputTokenIds = produced ∧ b.promptLen ≤ b.tokenIds.length ∧
    ∃ params, b.HandedOut params [text] stopped

variable {det : IncrementalDetokenizer α} {produced : List ℕ} {text : List α} {stopped : Bool}

theorem HandedOut.congr {params : StopParams α} {b : BaseIncrementalDetokenizer α}
    {deltas deltas' : List (List α)} (h : b.HandedOut params deltas stopped)
    (heq : deltas'.flatten = deltas.flatten) : b.HandedOut params deltas' stopped :=
  ⟨h.params_eq, h.buffer, h.offset_le, heq.trans h.flatten_eq, h.held⟩

theorem TextHeld.outputTokenIds (h : TextHeld produced text stopped det) :
    det.outputTokenIds = produced := by
  cases det with
  | plain tokenIds => exact h.1
  | base decodeNext b => exact h.1

theorem outputTokenIds_new (params : StopParams α) (prompt : List ℕ) :
    (new params prompt).outputTokenIds = [] := by
  unfold BaseIncrementalDetokenizer.outputTokenIds
  split_ifs with hlen
  · exact length_eq_zero_iff.1 hlen
  · exact drop_length

theorem textHeld_new (decodeNext : List ℕ → List α) (params : StopParams α) (prompt : List ℕ) :
    TextHeld [] [] false (.base decodeNext (.new params prompt)) :=
  ⟨outputTokenIds_new params prompt, le_rfl, params,
    HandedOut.congr (handedOut_new params prompt) rfl⟩

/-- The detokenizer is updated; a stop string that it finds is not empty. -/
theorem TextHeld.update [DecidableEq α] (h : TextHeld produced text false det) (new : List ℕ)
    (term : Bool) : TextHeld (produced ++ new) text (det.update new term).1.isSome
      (det.update new term).2 ∧ (det.update new term).1 ≠ some [] := by
  cases det with
  | plain tokenIds =>
    obtain ⟨rfl, rfl⟩ := h
    exact ⟨⟨rfl, rfl⟩, nofun⟩
  | base decodeNext b =>
    obtain ⟨rfl, hlen, params, hheld⟩ := h
    obtain ⟨hids, hprompt⟩ := b.update_tokenIds decodeNext new term
    have hupdates := update_updates decodeNext b new term
    refine ⟨⟨?_, ?_, params, hheld.updates hupdates⟩, fun hstop => ?_⟩
    · show (b.update decodeNext new term).2.outputTokenIds = _
      unfold BaseIncrementalDetokenizer.outputTokenIds
      rw [hids, hprompt]
      split_ifs
      · rfl
      · rw [drop_append_of_le_length hlen]
    · show (b.update decodeNext new term).2.promptLen ≤ (b.update decodeNext new term).2.tokenIds.length
      rw [hids, hprompt, length_append]
      omega
    · have hstop' : (b.update decodeNext new term).1 = some [] := hstop
      generalize b.update decodeNext new term = r at hupdates hstop'
      cases hupdates with
      | goesOn ids u => cases hstop'
      | stops ids u s e hs hc =>
        cases hstop'
        exact b.params.stop_ne_nil _ hs rfl

/-- The next piece of the text is handed out. -/
theorem TextHeld.next (h : TextHeld produced text false det) :
    TextHeld produced (text ++ (det.getNextOutputText false true).1) false
      (det.getNextOutputText false true).2 := by
  cases det with
  | plain tokenIds =>
    obtain ⟨rfl, rfl⟩ := h
    exact ⟨rfl, rfl⟩
  | base decodeNext b =>
    obtain ⟨rfl, hlen, params, hheld⟩ := h
    have hsame : (b.getNextOutputText false true).2.tokenIds = b.tokenIds ∧
        (b.getNextOutputText false true).2.promptLen = b.promptLen := by
      unfold getNextOutputText
      simp only [Bool.true_eq_false]
      split_ifs <;> exact ⟨rfl, rfl⟩
    refine ⟨?_, ?_, params, HandedOut.congr hheld.next ?_⟩
    · show (b.getNextOutputText false true).2.outputTokenIds = b.outputTokenIds
      unfold BaseIncrementalDetokenizer.outputTokenIds
      rw [hsame.1, hsame.2]
    · show (b.getNextOutputText false true).2.promptLen ≤ (b.getNextOutputText false true).2.tokenIds.length
      rw [hsame.1, hsame.2]
      exact hlen
    · simp [IncrementalDetokenizer.getNextOutputText]

theorem TextHeld.last (h : TextHeld produced text stopped det) :
    text ++ (det.getNextOutputText true true).1 = det.text := by
  cases det with
  | plain tokenIds =>
    obtain ⟨rfl, rfl⟩ := h
    rfl
  | base decodeNext b =>
    obtain ⟨-, -, params, hheld⟩ := h
    have hlast := hheld.last
    show text ++ (b.getNextOutputText true true).1 = b.outputText
    simpa using hlast

theorem text_getNextOutputText (det : IncrementalDetokenizer α) (finished delta : Bool) :
    (det.getNextOutputText finished delta).2.text = det.text := by
  cases det with
  | plain tokenIds => rfl
  | base decodeNext b =>
    show (b.getNextOutputText finished delta).2.outputText = b.outputText
    unfold getNextOutputText
    dsimp only
    split_ifs <;> rfl

theorem outputTokenIds_getNextOutputText (det : IncrementalDetokenizer α) (finished delta : Bool) :
    (det.getNextOutputText finished delta).2.outputTokenIds = det.outputTokenIds := by
  cases det with
  | plain tokenIds => rfl
  | base decodeNext b =>
    show (b.getNextOutputText finished delta).2.outputTokenIds = b.outputTokenIds
    unfold getNextOutputText
    dsimp only
    split_ifs <;> rfl

/-! ### The completion that is handed out -/

variable {s s' : RequestState α} {h h' : Shared α L}

/-- The tokens that have been handed out. -/
def RequestState.sent (s : RequestState α) (produced : List ℕ) : ℕ :=
  if s.streamInterval ≤ 1 then produced.length else s.sentTokensOffset

/-- The tokens of an output, which is handed out unless it is withheld by the stream interval. -/
def RequestState.handedTokens (s : RequestState α) (produced new : List ℕ) : List ℕ :=
  if s.streamInterval ≤ 1 then new else produced.drop s.sentTokensOffset

/-- An output is withheld. -/
def RequestState.Withholds (s : RequestState α) (produced : List ℕ) (finished : Bool) : Prop :=
  1 < s.streamInterval ∧ finished = false ∧ s.sentTokensOffset ≠ 0 ∧
    produced.length - s.sentTokensOffset < s.streamInterval

/-- The completion that is handed out, and the state after it. -/
structure HandsOut (s : RequestState α) (h : Shared α L) (det : IncrementalDetokenizer α)
    (tokens : List ℕ) (finished : Bool) (c : CompletionOutput α L) (s' : RequestState α)
    (h' : Shared α L) : Prop where
  index : c.index = s.requestIndex
  tokenIds : c.tokenIds = tokens
  text : c.text = (det.getNextOutputText finished true).1
  logprobs : c.logprobs = if s.logprobs then some
    (if h.logprobs s.requestId ≠ [] then .own (lastLogprobs tokens.length (h.logprobs s.requestId))
      else .shared s.requestId) else none
  state : ∃ offset, s' = { s with
    detokenizer := some (det.getNextOutputText finished true).2, sentTokensOffset := offset } ∧
      (1 < s.streamInterval → offset = det.outputTokenIds.length)
  shared : h'.logprobs = h.logprobs
  known : finished = false → Known s h'

section

variable (hdelta : s.outputKind = .delta)

include hdelta

theorem applyStreamInterval_delta (hdet : s.detokenizer = some det)
    (new : List ℕ) (finished : Bool) :
    (s.Withholds det.outputTokenIds finished ∧ s.applyStreamInterval new finished = .ok (none, s)) ∨
    ¬ s.Withholds det.outputTokenIds finished ∧ ∃ offset, s.applyStreamInterval new finished =
        .ok (some (s.handedTokens det.outputTokenIds new), { s with sentTokensOffset := offset }) ∧
      (1 < s.streamInterval → offset = det.outputTokenIds.length) := by
  unfold applyStreamInterval Withholds handedTokens
  by_cases hle : s.streamInterval ≤ 1
  · rw [if_pos hle, if_pos hle]
    refine .inr ⟨fun h => absurd h.1 (by omega), s.sentTokensOffset, rfl, fun h => absurd h (by omega)⟩
  · rw [if_neg hle, if_neg hle, hdet]
    dsimp only
    by_cases hsend : finished = true ∨ s.sentTokensOffset = 0 ∨
        s.streamInterval ≤ det.outputTokenIds.length - s.sentTokensOffset
    · rw [if_neg (not_not.2 hsend), if_pos hdelta]
      refine .inr ⟨?_, _, rfl, fun _ => rfl⟩
      rintro ⟨-, hfin, hne, hlt⟩
      rcases hsend with h | h | h
      · rw [hfin] at h
        cases h
      · exact hne h
      · omega
    · rw [if_pos hsend]
      rw [not_or, not_or] at hsend
      exact .inl ⟨⟨by omega, by simpa using hsend.1, hsend.2.1, by omega⟩, rfl⟩

theorem newCompletionOutput_delta (hdet : s.detokenizer = some det)
    (h : Shared α L) (tokens : List ℕ) (finishReason : Option FinishReason)
    (stopReason : Option (StopReason α)) : ∃ c,
    s.newCompletionOutput h tokens finishReason stopReason =
      .ok (c, { s with detokenizer := some (det.getNextOutputText finishReason.isSome true).2 }) ∧
    CompletionOf s finishReason.isSome c ∧ c.tokenIds = tokens ∧
    c.text = (det.getNextOutputText finishReason.isSome true).1 ∧
    c.logprobs = if s.logprobs then some (if h.logprobs s.requestId ≠ [] then
        .own (lastLogprobs tokens.length (h.logprobs s.requestId))
      else .shared s.requestId) else none := by
  unfold newCompletionOutput
  simp only [hdet, hdelta, decide_true, true_and]
  refine ⟨_, rfl, ⟨rfl, ?_, rfl⟩, rfl, rfl, rfl⟩
  cases s.logprobs <;> rfl

theorem wrapCompletion_delta (hs : Known s h) (c : CompletionOutput α L) : ∃ id finished h',
    s.wrapCompletion h c = .ok (some (.completion ⟨id, .own [some c], finished⟩), h') ∧
      h'.logprobs = h.logprobs ∧ (c.finished = false → Known s h') := by
  unfold wrapCompletion
  cases hP : s.parentReq with
  | none => exact ⟨_, _, h, rfl, rfl, fun _ => hs⟩
  | some P =>
    have hid := hs.parentId P hP
    have hkind : (h.parents P).outputKind ≠ .finalOnly := by
      rw [hs.outputKind P hP, hdelta]
      simp
    dsimp only
    rw [getOutputs_streamed hkind (hs.mem P hP)]
    refine ⟨_, _, _, rfl, rfl, fun hc => ?_⟩
    have hleft : (h.parents P).left s.requestId c.finished = (h.parents P).childRequests := by
      rw [hc]
      rfl
    have hsame : h.setParent { h.parents P with
        childRequests := (h.parents P).left s.requestId c.finished } = h := by
      rw [hleft]
      exact setParent_self hid
    rw [hsame]
    exact hs

/-- In DELTA mode a completion is handed out, or withheld. -/
theorem makeRequestOutput_delta (hdet : s.detokenizer = some det)
    (hs : Known s h) (new : List ℕ) (finishReason : Option FinishReason)
    (stopReason : Option (StopReason α)) : (s.Withholds det.outputTokenIds finishReason.isSome ∧
      s.makeRequestOutput h new none finishReason stopReason = .ok (none, s, h)) ∨
    ¬ s.Withholds det.outputTokenIds finishReason.isSome ∧ ∃ c s' h' id finished,
      s.makeRequestOutput h new none finishReason stopReason =
        .ok (some (.completion ⟨id, .own [some c], finished⟩), s', h') ∧
      HandsOut s h det (s.handedTokens det.outputTokenIds new) finishReason.isSome c s' h' := by
  unfold makeRequestOutput
  have hwait : ¬ (finishReason.isSome = false ∧ s.outputKind = .finalOnly) := fun hw => by
    rw [hdelta] at hw
    cases hw.2
  simp only [if_neg hwait]
  rcases applyStreamInterval_delta hdelta hdet new finishReason.isSome with
    ⟨hw, heq⟩ | ⟨hw, offset, heq, hoffset⟩
  · refine .inl ⟨hw, ?_⟩
    rw [heq]
    rfl
  · refine .inr ⟨hw, ?_⟩
    obtain ⟨c, hc, hof, htokens, htext, hlog⟩ := newCompletionOutput_delta
      (s := { s with sentTokensOffset := offset }) hdelta hdet h
      (s.handedTokens det.outputTokenIds new) finishReason stopReason
    obtain ⟨id, finished, h', hwrap, hlogprobs, hknown⟩ := wrapCompletion_delta
      (s := { s with
        detokenizer := some (det.getNextOutputText finishReason.isSome true).2
        sentTokensOffset := offset })
      hdelta ⟨nofun, hs.parentId, hs.outputKind, hs.mem, hs.index⟩ c
    refine ⟨c, _, h', id, finished, ?_, hof.index, htokens, htext, hlog, ⟨offset, rfl, hoffset⟩,
      hlogprobs, fun hfin => ?_⟩
    · simp only [heq, ok_bind, hc, hwrap]
      rfl
    · obtain ⟨-, h₂, h₃, h₄, h₅⟩ := hknown (hof.finished.trans hfin)
      exact ⟨hs.pooling, h₂, h₃, h₄, h₅⟩

end

/-! ### The collector -/

/-- The collector of a request in DELTA mode: one completion of the request waits at most. -/
structure Collects (id : RequestId) (index : ℕ) (logprobs : Bool) (q : RequestOutputCollector α L) :
    Prop where
  aggregate : q.aggregate = true
  output : ∀ o, q.output = some o → ∃ (n : ℕ) (cs : List (CompletionOutput α L)) (finished : Bool),
    o = .completion ⟨n, .own (cs.map some), finished⟩ ∧ (∀ c ∈ cs, c.logprobs.isSome = logprobs) ∧
      (∀ c ∈ cs, c.index ≠ index → c.logprobs ≠ some (.shared id)) ∧
      (cs.filter (·.index = index)).length ≤ 1

theorem reduceOption_map_some {β : Type} (l : List β) : (l.map some).reduceOption = l := by
  show List.filterMap id (l.map some) = l
  rw [filterMap_map]
  exact filterMap_some

variable {q : RequestOutputCollector α L} {index : ℕ} {cs : List (CompletionOutput α L)}

theorem waiting_own {n : ℕ} {finished : Bool}
    (hq : q.output = some (.completion ⟨n, .own (cs.map some), finished⟩)) :
    q.waiting index = cs.filter (·.index = index) := by
  simp [RequestOutputCollector.waiting, hq, completionsOf, reduceOption_map_some]

variable {id : RequestId} {logprobs : Bool}

theorem Collects.logprobs_waiting (hq : Collects id index logprobs q) {x : CompletionOutput α L}
    (hx : x ∈ q.waiting index) : x.logprobs.isSome = logprobs := by
  cases hout : q.output with
  | none =>
    unfold RequestOutputCollector.waiting at hx
    rw [hout] at hx
    cases hx
  | some o =>
    obtain ⟨n, cs, fin, rfl, hlogs, -⟩ := hq.output o hout
    rw [waiting_own hout] at hx
    exact hlogs x (mem_of_mem_filter hx)

theorem waiting_one (aggregate : Bool) (index n : ℕ) (finished : Bool) (c : CompletionOutput α L) :
    RequestOutputCollector.waiting ⟨aggregate, some (.completion ⟨n, .own [some c], finished⟩)⟩ index =
      [c].filter (·.index = index) :=
  waiting_own rfl

theorem filter_eq_nil_of_ne (h : ∀ c ∈ cs, c.index ≠ index) : cs.filter (·.index = index) = [] := by
  simpa [filter_eq_nil_iff] using h

/-- What a merge does to the logprobs. -/
inductive MergesLogprobs (h : Shared α L) (next : List L) :
    Option (SampleLogprobs L) → Option (SampleLogprobs L) → Shared α L → Prop
  | same (logprobs : Option (SampleLogprobs L)) (hnext : next = []) :
      MergesLogprobs h next logprobs logprobs h
  | own (l : List L) : MergesLogprobs h next (some (.own l)) (some (.own (l ++ next))) h
  | shared (id : RequestId) (hnext : next ≠ []) : MergesLogprobs h next (some (.shared id))
      (some (.shared id)) (h.setLogprobs id (h.logprobs id ++ next))

variable {c : CompletionOutput α L}

/-- A merge appends the tokens and the text. -/
theorem merge_eq {x x' : CompletionOutput α L} (hlog : c.logprobs.isSome = x.logprobs.isSome)
    (hmerge : x.merge h c = .ok (x', h')) : x'.tokenIds = x.tokenIds ++ c.tokenIds ∧
      x'.text = x.text ++ c.text ∧ MergesLogprobs h (c.entries h) x.logprobs x'.logprobs h' := by
  unfold CompletionOutput.merge mergeLogprobs at hmerge
  unfold CompletionOutput.entries
  cases hc : c.logprobs with
  | none =>
    rw [hc] at hmerge hlog
    cases hmerge
    exact ⟨rfl, rfl, .same _ rfl⟩
  | some lc =>
    cases hx : x.logprobs with
    | none =>
      rw [hc, hx] at hlog
      cases hlog
    | some lx =>
      simp only [hc, hx] at hmerge
      split_ifs at hmerge with hnil
      · cases hmerge
        exact ⟨rfl, rfl, .same _ (by simpa using hnil)⟩
      · cases lx with
        | own l =>
          cases hmerge
          exact ⟨rfl, rfl, .own l⟩
        | shared id =>
          cases hmerge
          exact ⟨rfl, rfl, .shared id (by simpa using hnil)⟩

theorem Collects.put_own (hq : Collects id index logprobs q) (h : Shared α L) (n : ℕ)
    (finished : Bool) (hindex : c.index = index) (hlog : c.logprobs.isSome = logprobs) :
    ∃ q' h', q.put h (.completion ⟨n, .own [some c], finished⟩) = .ok (q', h') ∧
      Collects id index logprobs q' ∧ h'.parents = h.parents ∧
      (q.waiting index = [] ∧ q'.waiting index = [c] ∧ h' = h ∨
        ∃ x x', q.waiting index = [x] ∧ q'.waiting index = [x'] ∧ x.merge h c = .ok (x', h')) := by
  obtain ⟨aggregate, output⟩ := q
  obtain rfl : aggregate = true := hq.aggregate
  cases output with
  | none =>
    refine ⟨_, h, rfl, ⟨rfl, fun o ho => ⟨n, [c], finished, (Option.some.inj ho).symm, ?_, ?_, ?_⟩⟩,
      rfl, .inl ⟨rfl, ?_, rfl⟩⟩
    · simpa using hlog
    · simp [hindex]
    · simp [hindex]
    · rw [waiting_one]
      simp [hindex]
  | some o =>
    obtain ⟨m, cs, fin, rfl, hlogs, hnot, hone⟩ := hq.output o rfl
    obtain ⟨cs', h', hadd, hto⟩ := add_own true m n fin finished fun x hx => (hlogs x hx).trans hlog.symm
    refine ⟨⟨true, some (.completion ⟨m, .own (cs'.map some), fin || finished⟩)⟩, h', ?_, ?_,
      hto.parents, ?_⟩
    · unfold put
      simp only [hadd, bind]
      rfl
    · have hlogs' := hto.logprobs hlogs hlog
      cases hto with
      | append hne =>
        refine ⟨rfl, fun o ho => ⟨m, _, _, (Option.some.inj ho).symm, hlogs', ?_, ?_⟩⟩
        · intro x hx hx'
          rcases mem_append.1 hx with hx | hx
          · exact hnot x hx hx'
          · exact absurd ((mem_singleton.1 hx) ▸ hindex) hx'
        · rw [filter_append, filter_eq_nil_of_ne (hindex ▸ hne)]
          simp [hindex]
      | @merge l r x x' _ _ hl hx hx' hindex' =>
        refine ⟨rfl, fun o ho => ⟨m, _, _, (Option.some.inj ho).symm, hlogs', ?_, ?_⟩⟩
        · intro y hy hy'
          rcases mem_append.1 hy with hy | hy
          · exact hnot y (mem_append_left _ hy) hy'
          · rcases mem_cons.1 hy with rfl | hy
            · exact absurd (hindex'.trans hindex) hy'
            · exact hnot y (mem_append_right _ (.tail _ hy)) hy'
        · rw [filter_append, filter_cons_of_pos (by simp [hx, hindex])] at hone
          rw [filter_append, filter_cons_of_pos (by simp [hindex', hindex])]
          simpa using hone
    · rw [waiting_own rfl, waiting_own rfl]
      cases hto with
      | append hne =>
        rw [filter_append, filter_eq_nil_of_ne (hindex ▸ hne)]
        simp [hindex]
      | @merge l r x x' _ _ hl hx hx' hindex' =>
        rw [filter_append, filter_cons_of_pos (by simp [hx, hindex])] at hone
        rw [length_append, length_cons] at hone
        have hnil : l.filter (·.index = index) = [] ∧ r.filter (·.index = index) = [] :=
          ⟨length_eq_zero_iff.1 (by omega), length_eq_zero_iff.1 (by omega)⟩
        refine .inr ⟨x, x', ?_, ?_, hx'⟩
        · rw [filter_append, filter_cons_of_pos (by simp [hx, hindex]), hnil.1, hnil.2]
          rfl
        · rw [filter_append, filter_cons_of_pos (by simp [hindex', hindex]), hnil.1, hnil.2]
          rfl

theorem Collects.put_sibling (hq : Collects id index logprobs q) (h : Shared α L) (n : ℕ)
    (finished : Bool) (hindex : c.index ≠ index) (hlog : c.logprobs.isSome = logprobs)
    (hshared : c.logprobs ≠ some (.shared id)) :
    ∃ q' h', q.put h (.completion ⟨n, .own [some c], finished⟩) = .ok (q', h') ∧
      Collects id index logprobs q' ∧ q'.waiting index = q.waiting index ∧
      h'.parents = h.parents ∧ h'.logprobs id = h.logprobs id := by
  obtain ⟨aggregate, output⟩ := q
  obtain rfl : aggregate = true := hq.aggregate
  have hnone : ∀ x : CompletionOutput α L, x.index ≠ index →
      [x].filter (·.index = index) = [] := fun x hx => filter_eq_nil_of_ne (by simpa using hx)
  cases output with
  | none =>
    refine ⟨_, h, rfl, ⟨rfl, fun o ho => ⟨n, [c], finished, (Option.some.inj ho).symm, ?_, ?_, ?_⟩⟩,
      ?_, rfl, rfl⟩
    · simpa using hlog
    · simpa using fun _ => hshared
    · rw [hnone c hindex]
      exact Nat.zero_le _
    · rw [waiting_one, hnone c hindex]
      rfl
  | some o =>
    obtain ⟨m, cs, fin, rfl, hlogs, hnot, hone⟩ := hq.output o rfl
    obtain ⟨cs', h', hadd, hto⟩ := add_own (h := h) true m n fin finished
      fun x hx => (hlogs x hx).trans hlog.symm
    have hlogs' := hto.logprobs hlogs hlog
    -- the completions of the request itself are left alone
    have hfacts : cs'.filter (·.index = index) = cs.filter (·.index = index) ∧
        (∀ x ∈ cs', x.index ≠ index → x.logprobs ≠ some (.shared id)) ∧
        h'.logprobs id = h.logprobs id := by
      cases hto with
      | append hne =>
        refine ⟨?_, fun x hx hx' => ?_, rfl⟩
        · rw [filter_append, hnone c hindex, append_nil]
        · rcases mem_append.1 hx with hx | hx
          · exact hnot x hx hx'
          · rw [mem_singleton.1 hx]
            exact hshared
      | @merge l r x x' _ _ hl hx hx' hindex' =>
        have hxs : x.logprobs ≠ some (.shared id) :=
          hnot x (mem_append_right _ (.head _)) (hx.trans_ne hindex)
        obtain ⟨hxs', hid⟩ : x'.logprobs ≠ some (.shared id) ∧ h'.logprobs id = h.logprobs id := by
          have hmerge := (merge_eq ((hlog.trans (hlogs x (by simp)).symm)) hx').2.2
          generalize x'.logprobs = l' at hmerge
          generalize hl : x.logprobs = l at hmerge hxs
          cases hmerge with
          | same _ _ => exact ⟨hxs, rfl⟩
          | own l => exact ⟨nofun, rfl⟩
          | shared id' _ =>
            have hne : id ≠ id' := fun heq => hxs (by rw [heq])
            exact ⟨hxs, Function.update_of_ne hne _ _⟩
        refine ⟨?_, fun y hy hy' => ?_, hid⟩
        · rw [filter_append, filter_append, filter_cons_of_neg (by simp [hindex', hindex]),
            filter_cons_of_neg (by simp [hx, hindex])]
        · rcases mem_append.1 hy with hy | hy
          · exact hnot y (mem_append_left _ hy) hy'
          · rcases mem_cons.1 hy with rfl | hy
            · exact hxs'
            · exact hnot y (mem_append_right _ (.tail _ hy)) hy'
    refine ⟨⟨true, some (.completion ⟨m, .own (cs'.map some), fin || finished⟩)⟩, h', ?_,
      ⟨rfl, fun o ho => ⟨m, _, _, (Option.some.inj ho).symm, hlogs', hfacts.2.1, ?_⟩⟩, ?_,
      hto.parents, hfacts.2.2⟩
    · unfold put
      simp only [hadd, bind]
      rfl
    · rw [hfacts.1]
      exact hone
    · rw [waiting_own rfl, waiting_own rfl, hfacts.1]

/-! ### What has been delivered -/

/-- The logprobs of a completion are a list of its own. -/
def CompletionOutput.Copied (c : CompletionOutput α L) : Prop := ∃ l, c.logprobs = some (.own l)

theorem ownLogprobs_copy (h : Shared α L) (c : CompletionOutput α L) :
    (c.copy h).ownLogprobs = c.entries h := by
  unfold CompletionOutput.copy CompletionOutput.ownLogprobs CompletionOutput.entries
  cases c.logprobs <;> rfl

namespace DeltaRequest

variable {d d' : DeltaRequest α L} {id : RequestId} {logprobs : Bool}

section

variable (hq : Collects id d.state.requestIndex logprobs d.queue)

include hq

/-- What the consumer has received, and what waits. -/
theorem delivered_eq : d.delivered = d.received.flatMap (completionsOf d.state.requestIndex) ++
      d.waiting.map (CompletionOutput.copy d.shared) := by
  unfold delivered stream waiting
  rw [flatMap_append]
  congr 1
  cases hout : d.queue.output with
  | none =>
    unfold RequestOutputCollector.waiting
    rw [hout]
    rfl
  | some o =>
    obtain ⟨n, cs, fin, rfl, -⟩ := hq.output o hout
    rw [waiting_own hout]
    simp only [Option.map_some, Option.toList_some, flatMap_singleton, copy,
      Completions.entries, map_map]
    show (cs.map (some ∘ CompletionOutput.copy d.shared)).reduceOption.filter _ = _
    rw [← map_map, reduceOption_map_some, filter_map]
    rfl

theorem tokenIds_eq :
    d.tokenIds = (d.received.flatMap (completionsOf d.state.requestIndex)).flatMap (·.tokenIds) ++
      d.waiting.flatMap (·.tokenIds) := by
  unfold tokenIds
  rw [delivered_eq hq, flatMap_append, flatMap_map]
  rfl

theorem text_eq :
    d.text = (d.received.flatMap (completionsOf d.state.requestIndex)).flatMap (·.text) ++
      d.waiting.flatMap (·.text) := by
  unfold text
  rw [delivered_eq hq, flatMap_append, flatMap_map]
  rfl

theorem logprobs_eq : d.logprobs =
      (d.received.flatMap (completionsOf d.state.requestIndex)).flatMap (·.ownLogprobs) ++
        d.waiting.flatMap (CompletionOutput.entries d.shared) := by
  unfold DeltaRequest.logprobs
  rw [delivered_eq hq, flatMap_append, flatMap_map]
  simp [ownLogprobs_copy]

end

/-- A completion is put into the collector: what it has is appended. Its logprobs are appended to a
list that has been copied, or there are none. -/
structure Appends (d : DeltaRequest α L) (h : Shared α L) (c : CompletionOutput α L)
    (d' : DeltaRequest α L) : Prop where
  collects : Collects d.state.requestId d.state.requestIndex d.state.logprobs d'.queue
  tokenIds : d'.tokenIds = d.tokenIds ++ c.tokenIds
  text : d'.text = d.text ++ c.text
  logprobs : (c.entries h = [] ∨ ∀ x ∈ d.waiting, x.Copied) → d'.shared.logprobs = h.logprobs ∧
    d'.logprobs = DeltaRequest.logprobs { d with shared := h } ++ c.entries h ∧
    ∀ x ∈ d'.waiting, x.logprobs = c.logprobs ∨ x.Copied ∨ ∃ y ∈ d.waiting, x.logprobs = y.logprobs

theorem entries_congr (hlog : h'.logprobs = h.logprobs)
    (c : CompletionOutput α L) : c.entries h' = c.entries h := by
  unfold CompletionOutput.entries
  congr 2
  funext l
  cases l with
  | own l => rfl
  | shared id => exact congrFun hlog id

/-- Only the logprobs of the shared objects matter. -/
theorem Appends.of_logprobs {c : CompletionOutput α L} (ha : Appends d h' c d')
    (hq : Collects d.state.requestId d.state.requestIndex d.state.logprobs d.queue)
    (hlog : h'.logprobs = h.logprobs) : Appends d h c d' := by
  refine ⟨ha.collects, ha.tokenIds, ha.text, fun hc => ?_⟩
  obtain ⟨hsame, heq, hwait⟩ := ha.logprobs (by rwa [entries_congr hlog])
  refine ⟨hsame.trans hlog, ?_, hwait⟩
  rw [heq, entries_congr hlog, logprobs_eq (d := { d with shared := h' }) hq,
    logprobs_eq (d := { d with shared := h }) hq]
  have hentries : CompletionOutput.entries h' = CompletionOutput.entries h :=
    funext (entries_congr hlog)
  rw [hentries]
  rfl

theorem putOutput_appends (s' : RequestState α) (h : Shared α L) (n : ℕ) (finished : Bool)
    {c : CompletionOutput α L}
    (hq : Collects d.state.requestId d.state.requestIndex d.state.logprobs d.queue)
    (hs' : s'.requestIndex = d.state.requestIndex) (hindex : c.index = d.state.requestIndex)
    (hlog : c.logprobs.isSome = d.state.logprobs) : ∃ q h',
      d.putOutput s' h (some (.completion ⟨n, .own [some c], finished⟩)) =
        .ok { d with state := s', shared := h', queue := q } ∧ h'.parents = h.parents ∧
      Appends d h c { d with state := s', shared := h', queue := q } := by
  obtain ⟨q, h', hput, hq', hparents, hwaiting⟩ := hq.put_own h n finished hindex hlog
  refine ⟨q, h', ?_, hparents, ?_⟩
  · unfold putOutput
    simp only [hput, bind]
    rfl
  generalize hd' : ({ d with state := s', shared := h', queue := q } : DeltaRequest α L) = d'
  obtain ⟨hindex', hreceived, hshared, hqueue⟩ : d'.state.requestIndex = d.state.requestIndex ∧
      d'.received = d.received ∧ d'.shared = h' ∧ d'.queue = q := by
    subst hd'
    exact ⟨hs', rfl, rfl, rfl⟩
  have hq'' : Collects d.state.requestId d'.state.requestIndex d.state.logprobs d'.queue := by
    rw [hindex', hqueue]
    exact hq'
  have hwait : d'.waiting = q.waiting d.state.requestIndex := by
    unfold waiting
    rw [hindex', hqueue]
  have heq := logprobs_eq hq''
  have heq₀ := logprobs_eq (d := { d with shared := h }) hq
  rw [hreceived, hindex', hwait] at heq
  -- nothing waits, or the completion is merged into one that waits
  rcases hwaiting with ⟨hnil, hone, rfl⟩ | ⟨x, x', hx, hx', hmerge⟩
  · refine ⟨hqueue ▸ hq', ?_, ?_, fun _ => ⟨hshared ▸ rfl, ?_, ?_⟩⟩
    · rw [tokenIds_eq hq'', tokenIds_eq hq, hwait, hreceived, hindex', waiting, hnil, hone]
      simp
    · rw [text_eq hq'', text_eq hq, hwait, hreceived, hindex', waiting, hnil, hone]
      simp
    · rw [heq, heq₀, hshared, hone, waiting, hnil]
      simp
    · rw [hwait, hone]
      exact fun y hy => .inl (mem_singleton.1 hy ▸ rfl)
  · have hmem : x ∈ d.waiting := by
      unfold waiting
      exact hx ▸ mem_singleton_self x
    obtain ⟨hids, htext, hmerges⟩ := merge_eq (hlog.trans (hq.logprobs_waiting hmem).symm) hmerge
    refine ⟨hqueue ▸ hq', ?_, ?_, fun hcopied => ?_⟩
    · rw [tokenIds_eq hq'', tokenIds_eq hq, hwait, hreceived, hindex', waiting, hx, hx']
      simp [hids]
    · rw [text_eq hq'', text_eq hq, hwait, hreceived, hindex', waiting, hx, hx']
      simp [htext]
    · rw [heq, heq₀, hshared, hwait, hx', waiting, hx]
      simp only [flatMap_singleton, append_assoc, mem_singleton, forall_eq]
      have hmem' : ∀ x' : CompletionOutput α L, x'.logprobs = x.logprobs →
          ∃ y ∈ d.waiting, x'.logprobs = y.logprobs := fun x' h => ⟨x, hmem, h⟩
      unfold CompletionOutput.entries at hcopied hmerges ⊢
      unfold CompletionOutput.Copied at hcopied ⊢
      generalize hl : x.logprobs = l at hmerges hmem'
      generalize x'.logprobs = l' at hmerges hmem'
      cases hmerges with
      | same _ hnext => exact ⟨rfl, by rw [hnext, append_nil], .inr (.inr ⟨x, hmem, hl.symm⟩)⟩
      | own l => exact ⟨rfl, rfl, .inr (.inl ⟨_, rfl⟩)⟩
      | shared id hnext =>
        rcases hcopied with hnil | hcopied
        · exact absurd hnil hnext
        · obtain ⟨l, hl'⟩ := hcopied x hmem
          rw [hl] at hl'
          cases hl'

end DeltaRequest

end LoptVllm.Frontend
