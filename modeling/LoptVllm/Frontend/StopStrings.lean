import LoptVllm.Frontend.Detokenizer

/-!
# Stop strings and the way tokens are batched

An update looks for the stop strings that are completed in the characters it has added. It goes
through the list of stop strings, so of several that are completed in the same update it reports
the one that is listed first, at its first occurrence.
-/

namespace LoptVllm.Frontend

open List Option Prod

variable {α : Type*} [DecidableEq α]

/-! ### The search -/

omit [DecidableEq α] in
/-- The text, cut where a stop string was found. -/
def cut (includeInOutput : Bool) (text : List α) : Option (List α × ℕ) → List α
  | none => text
  | some (s, e) => text.take (if includeInOutput then e else e - s.length)

variable {o : ℕ}

theorem find_eq {text s : List α} (hs : s ≠ []) (ho : o < text.length) :
    find text s (1 - (text.length - o : ℕ) - s.length) = findFrom s text (o + 1 - s.length) := by
  have hpos : 0 < s.length := length_pos_iff.2 hs
  unfold find
  rw [if_pos (by omega)]
  congr 1
  omega

/-- The search finds the stop string that is listed first among those completed after `o`. -/
theorem checkStopStrings_eq {text : List α} {stop : List (List α)} (incl : Bool)
    (hstop : ∀ s ∈ stop, s ≠ []) (ho : o ≤ text.length) :
    checkStopStrings text (text.length - o) stop incl = (firstListed stop text o).map fun r =>
        (r.1, if incl then (if text.length ≤ r.2 then -1 else (r.2 : ℤ))
          else ((r.2 - r.1.length : ℕ) : ℤ)) := by
  unfold checkStopStrings
  by_cases hempty : text.length - o = 0 ∨ stop = []
  · rw [if_pos hempty]
    -- nothing new, or no stop strings
    have hnone : firstListed stop text o = none := by
      rcases hempty with hempty | rfl
      · exact firstListed_of_length_le hstop (by omega)
      · rfl
    rw [hnone]
    rfl
  · rw [if_neg hempty]
    have ho' : o < text.length := by
      by_contra hle
      exact hempty (.inl (by omega))
    unfold firstListed
    rw [map_findSome?]
    refine findSome?_congr fun s hs => ?_
    rw [find_eq (hstop s hs) ho', Function.comp_apply]
    cases findFrom s text (o + 1 - s.length) with
    | none => rfl
    | some i =>
      cases incl
      · simp
      · by_cases hle : text.length ≤ i + s.length <;> simp [hle]

/-! ### The text of a sequence of tokens -/

/-- The text of the tokens `ts` that come after the tokens `ids`. -/
def detokenize (decodeNext : List ℕ → List α) : List ℕ → List ℕ → List α
  | _, [] => []
  | ids, t :: ts => decodeNext (ids ++ [t]) ++ detokenize decodeNext (ids ++ [t]) ts

variable (decodeNext : List ℕ → List α)

omit [DecidableEq α] in
theorem detokenize_append (ids xs ys : List ℕ) : detokenize decodeNext ids (xs ++ ys) =
      detokenize decodeNext ids xs ++ detokenize decodeNext (ids ++ xs) ys := by
  induction xs generalizing ids with
  | nil => simp [detokenize]
  | cons x xs ih => simp [detokenize, ih]

namespace BaseIncrementalDetokenizer

/-- The state after the tokens `toks`, none of which was left out and where no stop string was
found. -/
structure Decoded (d : BaseIncrementalDetokenizer α) (params : StopParams α)
    (prompt toks : List ℕ) : Prop where
  params_eq : d.params = params
  promptLen_eq : d.promptLen = prompt.length
  tokenIds_eq : d.tokenIds = prompt ++ toks
  outputText_eq : d.outputText = detokenize decodeNext prompt toks

variable {d : BaseIncrementalDetokenizer α}

section

omit [DecidableEq α]

theorem outputTokenIds_eq {prompt toks : List ℕ} (hlen : d.promptLen = prompt.length)
    (hids : d.tokenIds = prompt ++ toks) : d.outputTokenIds = toks := by
  unfold outputTokenIds
  rw [hlen, hids, drop_left]
  split_ifs with h
  · rw [length_eq_zero_iff.1 h, nil_append]
  · rfl

variable {prompt : List ℕ}

variable {decodeNext} in
/-- The loop over the new tokens: the window starts after the first `min_tokens` tokens. -/
theorem decodeTokens_eq {params : StopParams α} (ts : List ℕ) :
    ∀ {d : BaseIncrementalDetokenizer α} {toks : List ℕ} {o : ℕ},
      Decoded decodeNext d params prompt toks →
      d.decodeTokens decodeNext o ts = ({ d with
        tokenIds := prompt ++ (toks ++ ts)
        outputText := detokenize decodeNext prompt (toks ++ ts) },
        if params.minTokens - toks.length = 0 ∨ ts = [] then o
        else (detokenize decodeNext prompt
          (toks ++ ts.take (params.minTokens - toks.length))).length) := by
  induction ts with
  | nil =>
    intro d toks o hd
    simp [decodeTokens, hd.tokenIds_eq.symm, hd.outputText_eq.symm]
  | cons t ts ih =>
    intro d toks o hd
    have htext : d.outputText ++ decodeNext (d.tokenIds ++ [t]) =
        detokenize decodeNext prompt (toks ++ [t]) := by
      rw [detokenize_append, hd.outputText_eq, hd.tokenIds_eq]
      simp [detokenize]
    have hids : d.tokenIds ++ [t] = prompt ++ (toks ++ [t]) := by
      rw [hd.tokenIds_eq, append_assoc]
    have hd' : Decoded decodeNext { d with
        tokenIds := d.tokenIds ++ [t]
        outputText := d.outputText ++ decodeNext (d.tokenIds ++ [t]) } params prompt
        (toks ++ [t]) := ⟨hd.params_eq, hd.promptLen_eq, hids, htext⟩
    unfold decodeTokens
    rw [ih hd', outputTokenIds_eq hd'.promptLen_eq hids, htext, hd.params_eq]
    simp only [append_assoc, singleton_append, length_append, length_singleton]
    by_cases hmin : params.minTokens - toks.length = 0
    · have hcount : ¬ (params.minTokens ≠ 0 ∧ toks.length + 1 ≤ params.minTokens) := by omega
      rw [if_pos (show _ ∨ _ from .inl (by omega)), if_pos (show _ ∨ _ from .inl hmin),
        if_neg hcount]
    · obtain ⟨k, hk⟩ := Nat.exists_eq_succ_of_ne_zero hmin
      have hk' : params.minTokens - (toks.length + 1) = k := by omega
      have hcount : params.minTokens ≠ 0 ∧ toks.length + 1 ≤ params.minTokens := by omega
      rw [if_pos hcount, hk, hk', take_succ_cons,
        if_neg (show ¬ (k.succ = 0 ∨ t :: ts = []) by simp)]
      split_ifs with h
      · rcases h with h | h
        · simp [h]
        · simp [h]
      · rfl

variable (params : StopParams α) (newTokenIds : List ℕ)

/-- The tokens of an update that are decoded: not the last one, if it is a stop token that is left
out of the output. -/
def decodedTokens (stopTerminated : Bool) : List ℕ :=
  if stopTerminated = true ∧ params.includeStopStrInOutput = false then newTokenIds.dropLast
  else newTokenIds

/-- The position after which stop strings count, in an update that decodes the tokens `ts`. -/
def windowStart (prompt toks ts : List ℕ) : ℕ :=
  (detokenize decodeNext prompt (toks ++ ts.take (params.minTokens - toks.length))).length

theorem decodedTokens_nil (term : Bool) : decodedTokens params [] term = [] := by
  unfold decodedTokens
  split_ifs <;> rfl

theorem length_decodedTokens_le (term : Bool) :
    (decodedTokens params newTokenIds term).length ≤ newTokenIds.length := by
  unfold decodedTokens
  split_ifs
  · rw [length_dropLast]
    omega
  · exact le_rfl

theorem windowStart_le (prompt toks ts : List ℕ) : windowStart decodeNext params prompt toks ts ≤
      (detokenize decodeNext prompt (toks ++ ts)).length := by
  conv_rhs => rw [← take_append_drop (params.minTokens - toks.length) ts, ← append_assoc,
    detokenize_append, length_append]
  exact Nat.le_add_right _ _

end

/-- If the stop strings are evaluated, then the text is cut where the search finds one. -/
theorem evaluateStop_of_check (ho : o ≤ d.outputText.length)
    (hcheck : d.params.stop ≠ [] ∧ d.params.minTokens < d.outputTokenIds.length) :
    d.evaluateStop o = ((firstListed d.params.stop d.outputText o).map fst, { d with
      outputText := cut d.params.includeStopStrInOutput d.outputText
        (firstListed d.params.stop d.outputText o) }) := by
  unfold evaluateStop
  rw [if_pos hcheck, checkStopStrings_eq _ d.params.stop_ne_nil ho]
  cases hfirst : firstListed d.params.stop d.outputText o with
  | none => rfl
  | some r =>
    obtain ⟨s, e⟩ := r
    cases hincl : d.params.includeStopStrInOutput with
    | false => simp [cut]
    | true =>
      by_cases hle : d.outputText.length ≤ e
      · simp [cut, hle, take_of_length_le]
      · simp [cut, hle]

theorem evaluateStop_eq (ho : o ≤ d.outputText.length)
    (hmin : d.outputTokenIds.length ≤ d.params.minTokens → d.outputText.length ≤ o) :
    d.evaluateStop o = ((firstListed d.params.stop d.outputText o).map fst, { d with
      outputText := cut d.params.includeStopStrInOutput d.outputText
        (firstListed d.params.stop d.outputText o) }) := by
  by_cases hcheck : d.params.stop ≠ [] ∧ d.params.minTokens < d.outputTokenIds.length
  · exact evaluateStop_of_check ho hcheck
  · have hnone : firstListed d.params.stop d.outputText o = none := by
      by_cases hstop : d.params.stop = []
      · rw [hstop]
        rfl
      · exact firstListed_of_length_le d.params.stop_ne_nil
          (hmin (by_contra fun hlt => hcheck ⟨hstop, by omega⟩))
    unfold evaluateStop
    rw [if_neg hcheck, hnone]
    rfl

variable {decodeNext} in
/-- An update reports the stop string that is listed first among those completed in its window, and
cuts the text there. -/
theorem update_eq {d : BaseIncrementalDetokenizer α} {params : StopParams α}
    {prompt toks new : List ℕ} (term : Bool) (hd : Decoded decodeNext d params prompt toks)
    (hnew : new ≠ []) :
    let ts := decodedTokens params new term
    let text := detokenize decodeNext prompt (toks ++ ts)
    let first := firstListed params.stop text (windowStart decodeNext params prompt toks ts)
    d.update decodeNext new term = (first.map fst, { d with
      tokenIds := prompt ++ (toks ++ new)
      outputText := cut params.includeStopStrInOutput text first }) := by
  intro ts text first
  -- a stop token is not detokenized, unless it is to be in the output
  have hids : toks ++ ts ++ (if term = true ∧ params.includeStopStrInOutput = false then
      new.getLast? else none).toList = toks ++ new := by
    show toks ++ decodedTokens params new term ++ _ = _
    unfold decodedTokens
    split_ifs
    · rw [append_assoc, getLast?_eq_some_getLast hnew, toList_some, dropLast_concat_getLast]
    · simp
  have hloop := decodeTokens_eq ts (o := d.outputText.length) hd
  have hstart : (if params.minTokens - toks.length = 0 ∨ ts = [] then d.outputText.length
      else (detokenize decodeNext prompt
        (toks ++ ts.take (params.minTokens - toks.length))).length) =
      windowStart decodeNext params prompt toks ts := by
    unfold windowStart
    split_ifs with h
    · rcases h with h | h <;> simp [h, hd.outputText_eq]
    · rfl
  rw [hstart] at hloop
  unfold update
  rw [if_neg hnew]
  simp only [hd.params_eq]
  have hts : (if term = true ∧ params.includeStopStrInOutput = false then new.dropLast
      else new) = ts := rfl
  rw [hts, hloop]
  rw [append_assoc, hids]
  have hcount : outputTokenIds { d with
      tokenIds := prompt ++ (toks ++ new)
      outputText := text } = toks ++ new := outputTokenIds_eq hd.promptLen_eq rfl
  rw [evaluateStop_eq]
  · simp only [hd.params_eq]
    rfl
  · exact windowStart_le decodeNext params prompt toks ts
  · intro hle
    rw [hcount, length_append] at hle
    simp only [hd.params_eq] at hle
    have hlen := length_decodedTokens_le params new term
    unfold windowStart
    rw [take_of_length_le (show ts.length ≤ params.minTokens - toks.length from
      hlen.trans (by omega))]

variable {decodeNext} in
/-- If an update reports no stop string, then the next one goes on from there. -/
theorem update_decoded {d : BaseIncrementalDetokenizer α} {params : StopParams α}
    {prompt toks new : List ℕ} (hd : Decoded decodeNext d params prompt toks) (hnew : new ≠ [])
    (hnone : (d.update decodeNext new false).1 = none) :
    Decoded decodeNext (d.update decodeNext new false).2 params prompt (toks ++ new) := by
  have heq := update_eq false hd hnew
  have hts : decodedTokens params new false = new := rfl
  rw [heq] at hnone ⊢
  rw [map_eq_none_iff.1 hnone, hts]
  exact ⟨hd.params_eq, hd.promptLen_eq, rfl, rfl⟩

/-! ### Runs -/

/-- Successive updates, until one of them reports a stop string. The last one is told whether the
last token is a stop token. -/
def runUpdates (stopTerminated : Bool) (d : BaseIncrementalDetokenizer α) :
    List (List ℕ) → Option (List α) × BaseIncrementalDetokenizer α
  | [] => (none, d)
  | new :: calls =>
    let (stopString, d) := d.update decodeNext new (stopTerminated && calls.isEmpty)
    if stopString.isSome then (stopString, d) else runUpdates stopTerminated d calls

section

omit [DecidableEq α]

/-- The text at the end of each update if none is cut, and the position after which stop strings
count in it. -/
def windows (params : StopParams α) (stopTerminated : Bool) (prompt : List ℕ) :
    List ℕ → List (List ℕ) → List (List α × ℕ)
  | _, [] => []
  | toks, new :: calls =>
    let ts := decodedTokens params new (stopTerminated && calls.isEmpty)
    (detokenize decodeNext prompt (toks ++ ts), windowStart decodeNext params prompt toks ts) ::
      windows params stopTerminated prompt (toks ++ new) calls

theorem decodedTokens_append {params : StopParams α} {new rest : List ℕ} (term : Bool)
    (hrest : rest ≠ []) :
    decodedTokens params (new ++ rest) term = new ++ decodedTokens params rest term := by
  unfold decodedTokens
  split_ifs
  · exact dropLast_append_of_ne_nil hrest
  · rfl

theorem cut_append {incl : Bool} {t u s : List α} {e : ℕ} (he : e ≤ t.length) :
    cut incl (t ++ u) (some (s, e)) = cut incl t (some (s, e)) := by
  refine take_append_of_le_length ?_
  split_ifs <;> omega

variable {calls : List (List ℕ)}

theorem flatten_ne_nil {new : List ℕ} (hcalls : [] ∉ new :: calls) :
    (new :: calls).flatten ≠ [] := by
  intro hnil
  rw [flatten_cons, append_eq_nil_iff] at hnil
  exact hcalls (hnil.1 ▸ mem_cons_self)

end

variable {decodeNext} in
/-- A run reports what the search finds in the first window in which it finds anything. -/
theorem runUpdates_eq {params : StopParams α} (term : Bool)
    (hcalls : [] ∉ calls) :
    ∀ {d : BaseIncrementalDetokenizer α} {toks : List ℕ}, Decoded decodeNext d params prompt toks →
      let text := detokenize decodeNext prompt (toks ++ decodedTokens params calls.flatten term)
      let found := (windows decodeNext params term prompt toks calls).findSome? fun w =>
        firstListed params.stop w.1 w.2
      (runUpdates decodeNext term d calls).1 = found.map fst ∧
        (runUpdates decodeNext term d calls).2.outputText =
          cut params.includeStopStrInOutput text found := by
  induction calls with
  | nil =>
    intro d toks hd text found
    refine ⟨rfl, ?_⟩
    show d.outputText = detokenize decodeNext prompt (toks ++ decodedTokens params [] term)
    rw [decodedTokens_nil, append_nil, hd.outputText_eq]
  | cons new calls ih =>
    intro d toks hd text found
    have hnew : new ≠ [] := fun h => hcalls (h ▸ mem_cons_self)
    have hupdate := update_eq (term && calls.isEmpty) hd hnew
    dsimp only at hupdate
    -- the first window is that of this update
    have hwindows : found = ((_, _) :: windows decodeNext params term prompt (toks ++ new)
        calls).findSome? fun w => firstListed params.stop w.1 w.2 := rfl
    rw [findSome?_cons] at hwindows
    generalize hts : decodedTokens params new (term && calls.isEmpty) = ts at hupdate hwindows
    cases hfirst : firstListed params.stop (detokenize decodeNext prompt (toks ++ ts))
      (windowStart decodeNext params prompt toks ts) with
    | some r =>
      obtain ⟨s, e⟩ := r
      have hfound : found = some (s, e) := by
        rw [hwindows]
        rw [hfirst]
      rw [hfirst] at hupdate
      have hrun : runUpdates decodeNext term d (new :: calls) =
          d.update decodeNext new (term && calls.isEmpty) := by
        rw [runUpdates, hupdate]
        rfl
      obtain ⟨hc, -, l, r, hl, -⟩ := firstListed_eq_some params.stop_ne_nil hfirst
      have hle := hc.le_length (params.stop_ne_nil s (hl ▸ by simp))
      obtain ⟨u, hu⟩ : ∃ u, text = detokenize decodeNext prompt (toks ++ ts) ++ u := by
        cases calls with
        | nil =>
          refine ⟨[], ?_⟩
          rw [append_nil, ← hts]
          simp [text]
        | cons call calls =>
          have hts' : ts = new := by
            rw [← hts]
            simp [decodedTokens]
          refine ⟨detokenize decodeNext (prompt ++ (toks ++ new))
            (decodedTokens params (call :: calls).flatten term), ?_⟩
          show detokenize decodeNext prompt (toks ++ decodedTokens params
            (new ++ (call :: calls).flatten) term) = _
          rw [decodedTokens_append term
            (flatten_ne_nil fun h => hcalls (.tail _ h)), ← append_assoc,
            detokenize_append, hts']
      rw [hrun, hupdate, hfound, hu, cut_append hle]
      exact ⟨rfl, rfl⟩
    | none =>
      have hfound : found = (windows decodeNext params term prompt (toks ++ new)
          calls).findSome? fun w => firstListed params.stop w.1 w.2 := by
        rw [hwindows]
        rw [hfirst]
      rw [hfirst] at hupdate
      have hrun : runUpdates decodeNext term d (new :: calls) =
          runUpdates decodeNext term (d.update decodeNext new (term && calls.isEmpty)).2 calls := by
        rw [runUpdates, hupdate]
        rfl
      cases calls with
      | nil =>
        rw [hrun, hupdate, hfound]
        refine ⟨rfl, ?_⟩
        show detokenize decodeNext prompt (toks ++ ts) = text
        rw [← hts]
        simp [text]
      | cons call calls =>
        have hcalls' : [] ∉ call :: calls := fun h => hcalls (.tail _ h)
        have hflag : (term && (call :: calls).isEmpty) = false := by simp
        rw [hflag] at hupdate hrun
        have hd' := update_decoded hd hnew (by rw [hupdate]; rfl)
        obtain ⟨hfst, htext⟩ := ih hcalls' hd'
        rw [hrun, hfst, htext, hfound]
        refine ⟨rfl, ?_⟩
        show cut _ _ _ = cut _ (detokenize decodeNext prompt (toks ++ decodedTokens params
          (new ++ (call :: calls).flatten) term)) _
        rw [decodedTokens_append term (flatten_ne_nil hcalls'), ← append_assoc]

/-! ### The stop string that is completed earliest -/

omit [DecidableEq α] in
theorem windowStart_append (params : StopParams α) (prompt toks new rest : List ℕ) :
    windowStart decodeNext params prompt toks (new ++ rest) =
      if params.minTokens - toks.length ≤ new.length then
        windowStart decodeNext params prompt toks new
      else windowStart decodeNext params prompt (toks ++ new) rest := by
  unfold windowStart
  split_ifs with h
  · rw [take_append_of_le_length h]
  · rw [take_append, take_of_length_le (by omega), append_assoc, length_append, Nat.sub_add_eq]

omit [DecidableEq α] in
theorem windowStart_of_minTokens_le {params : StopParams α} {prompt toks ts : List ℕ}
    (h : params.minTokens ≤ toks.length) : windowStart decodeNext params prompt toks ts =
      (detokenize decodeNext prompt toks).length := by
  unfold windowStart
  rw [Nat.sub_eq_zero_of_le h, take_zero, append_nil]

/-- The stop string that is completed first in the text of the whole sequence of tokens, after its
first `min_tokens` tokens. -/
def earliestStop (params : StopParams α) (stopTerminated : Bool) (prompt tokens : List ℕ) :
    Option (List α × ℕ) :=
  let ts := decodedTokens params tokens stopTerminated
  firstCompleted params.stop (detokenize decodeNext prompt ts)
    (windowStart decodeNext params prompt [] ts)

omit [DecidableEq α] in
/-- No update completes a stop string before the one that it reports. -/
def StopsInOrder (params : StopParams α) (windows : List (List α × ℕ)) : Prop :=
  ∀ l w r, windows = l ++ w :: r → (∀ w' ∈ l, ∀ s ∈ params.stop, ∀ e, ¬ CompletesAt s w'.1 w'.2 e) →
      InListOrder params.stop w.1 w.2

/-- To look for the stop string that is completed first, one may go from window to window. -/
theorem findSome?_firstCompleted {params : StopParams α} (term : Bool)
    (hcalls : [] ∉ calls) (hne : calls ≠ []) :
    ∀ toks, ((windows decodeNext params term prompt toks calls).findSome? fun w =>
        firstCompleted params.stop w.1 w.2) = firstCompleted params.stop
        (detokenize decodeNext prompt (toks ++ decodedTokens params calls.flatten term))
        (windowStart decodeNext params prompt toks (decodedTokens params calls.flatten term)) := by
  induction calls with
  | nil => exact absurd rfl hne
  | cons new calls ih =>
    intro toks
    rw [windows, findSome?_cons]
    cases calls with
    | nil =>
      simp only [windows, isEmpty_nil]
      split <;> simp_all
    | cons call calls =>
      have hcalls' : [] ∉ call :: calls := fun h => hcalls (.tail _ h)
      have hflatten : (new :: call :: calls).flatten = new ++ (call :: calls).flatten := rfl
      rw [ih hcalls' (cons_ne_nil _ _), hflatten,
        decodedTokens_append term (flatten_ne_nil hcalls')]
      generalize decodedTokens params (call :: calls).flatten term = rest
      have hts : decodedTokens params new (term && (call :: calls).isEmpty) = new := by
        simp [decodedTokens]
      rw [hts, ← append_assoc, detokenize_append decodeNext prompt (toks ++ new),
        windowStart_append]
      have hle := windowStart_le decodeNext params prompt toks new
      generalize detokenize decodeNext (prompt ++ (toks ++ new)) rest = u
      by_cases hmin : params.minTokens - toks.length ≤ new.length
      · -- the window of the first update is a proper one: it is searched, and then the rest
        have hskip : windowStart decodeNext params prompt (toks ++ new) rest =
            (detokenize decodeNext prompt (toks ++ new)).length :=
          windowStart_of_minTokens_le decodeNext (by rw [length_append]; omega)
        rw [if_pos hmin, hskip]
        cases hfirst : firstCompleted params.stop (detokenize decodeNext prompt (toks ++ new))
          (windowStart decodeNext params prompt toks new) with
        | some r => exact (firstCompleted_append_of_some params.stop_ne_nil u hfirst).symm
        | none => exact (firstCompleted_append_of_none params.stop_ne_nil u hle hfirst).symm
      · -- all its tokens are among the first `min_tokens`: its window is empty
        rw [if_neg hmin]
        have hnone : firstCompleted params.stop (detokenize decodeNext prompt (toks ++ new))
            (windowStart decodeNext params prompt toks new) = none := by
          refine (firstCompleted_eq_none params.stop_ne_nil).2 fun s hs e he => ?_
          have hlt := he.1
          have hle := he.le_length (params.stop_ne_nil s hs)
          unfold windowStart at hlt
          rw [take_of_length_le (by omega)] at hlt
          omega
        rw [hnone]

omit [DecidableEq α] in
/-- The reported stop string and the text determine the position at which it was found. -/
theorem cut_injective {incl : Bool} {text : List α} {r r' : Option (List α × ℕ)}
    (hr : ∀ s e, r = some (s, e) → s.length ≤ e ∧ e ≤ text.length)
    (hr' : ∀ s e, r' = some (s, e) → s.length ≤ e ∧ e ≤ text.length)
    (h : (r.map fst, cut incl text r) = (r'.map fst, cut incl text r')) : r = r' := by
  obtain ⟨hfst, htext⟩ := Prod.mk.inj h
  cases r with
  | none =>
    cases r' with
    | none => rfl
    | some => cases hfst
  | some r =>
    cases r' with
    | none => cases hfst
    | some r' =>
      obtain ⟨s, e⟩ := r
      obtain ⟨s', e'⟩ := r'
      obtain rfl : s = s' := Option.some.inj hfst
      have hlen := congrArg List.length htext
      unfold cut at hlen
      rw [length_take, length_take] at hlen
      have := hr s e rfl
      have := hr' s e' rfl
      obtain rfl : e = e' := by
        cases incl
        · simp only [Bool.false_eq_true, if_false] at hlen
          omega
        · simp only [if_true] at hlen
          omega
      rfl

omit [DecidableEq α] in
/-- The texts of the windows are prefixes of the text of the whole sequence. -/
theorem prefix_of_mem_windows (params : StopParams α) (prompt : List ℕ) (term : Bool)
    (hcalls : [] ∉ calls) : ∀ toks, ∀ w ∈ windows decodeNext params term prompt toks calls,
      w.1 <+: detokenize decodeNext prompt (toks ++ decodedTokens params calls.flatten term) := by
  induction calls with
  | nil => exact fun _ _ hw => absurd hw not_mem_nil
  | cons new calls ih =>
    intro toks w hw
    cases calls with
    | nil =>
      rw [mem_singleton.1 hw]
      simp
    | cons call calls =>
      have hcalls' : [] ∉ call :: calls := fun h => hcalls (.tail _ h)
      rw [flatten_cons, decodedTokens_append term (flatten_ne_nil hcalls'), ← append_assoc]
      rcases mem_cons.1 hw with rfl | hw
      · have hts : decodedTokens params new (term && (call :: calls).isEmpty) = new := by
          simp [decodedTokens]
        rw [hts, detokenize_append decodeNext prompt (toks ++ new)]
        exact prefix_append _ _
      · exact ih hcalls' _ w hw

/-- **The output is cut at the stop string that is completed earliest**, however the tokens are
batched, exactly if no update completes a stop string before the one that it reports. -/
theorem runUpdates_eq_iff (params : StopParams α) (stopTerminated : Bool) (prompt : List ℕ)
    {calls : List (List ℕ)} (hcalls : [] ∉ calls) :
    let run := runUpdates decodeNext stopTerminated (new params prompt) calls
    let text := detokenize decodeNext prompt (decodedTokens params calls.flatten stopTerminated)
    let earliest := earliestStop decodeNext params stopTerminated prompt calls.flatten
    (run.1, run.2.outputText) =
        (earliest.map fst, cut params.includeStopStrInOutput text earliest) ↔
      StopsInOrder params (windows decodeNext params stopTerminated prompt [] calls) := by
  intro run text earliest
  have hnew : Decoded decodeNext (new params prompt) params prompt [] :=
    ⟨rfl, rfl, (append_nil prompt).symm, rfl⟩
  obtain ⟨hfst, htext⟩ := runUpdates_eq stopTerminated hcalls hnew
  have hpre := prefix_of_mem_windows decodeNext params prompt stopTerminated hcalls []
  rw [nil_append] at htext hpre
  generalize hws : windows decodeNext params stopTerminated prompt [] calls = ws at *
  have hearliest : earliest = ws.findSome? fun w => firstCompleted params.stop w.1 w.2 := by
    by_cases hne : calls = []
    · subst hne
      rw [← hws]
      show earliestStop decodeNext params stopTerminated prompt [] = none
      simp [earliestStop, decodedTokens_nil, detokenize, firstCompleted]
    · rw [← hws, findSome?_firstCompleted decodeNext stopTerminated hcalls hne]
      rfl
  -- what is found lies within the text
  have hbound : ∀ {w : List α × ℕ} {s : List α} {e : ℕ}, w ∈ ws → s ∈ params.stop →
      CompletesAt s w.1 w.2 e → s.length ≤ e ∧ e ≤ text.length := fun hw hs hc =>
    ⟨hc.2.1, (hc.le_length (params.stop_ne_nil _ hs)).trans (hpre _ hw).length_le⟩
  have hiff : (run.1, run.2.outputText) =
        (earliest.map fst, cut params.includeStopStrInOutput text earliest) ↔
      (ws.findSome? fun w => firstListed params.stop w.1 w.2) = earliest := by
    rw [show run.1 = _ from hfst, show run.2.outputText = _ from htext]
    refine ⟨fun h => cut_injective (fun s e h => ?_) (fun s e h => ?_) h, fun h => by rw [h]⟩
    · obtain ⟨l, w, r, rfl, hw, -⟩ := findSome?_eq_some_iff.1 h
      obtain ⟨hc, -, l', r', hstop, -⟩ := firstListed_eq_some params.stop_ne_nil hw
      exact hbound (by simp) (hstop ▸ by simp) hc
    · rw [hearliest] at h
      obtain ⟨l, w, r, rfl, hw, -⟩ := findSome?_eq_some_iff.1 h
      obtain ⟨hs, hc⟩ := completesAt_of_find (firstCompleted_spec params.stop_ne_nil hw).2
      exact hbound (by simp) hs hc
  rw [hiff, hearliest, findSome?_eq_iff]
  · simp only [firstListed_eq_iff params.stop_ne_nil, firstCompleted_eq_none params.stop_ne_nil]
    rfl
  · intro w _
    rw [firstCompleted_eq_none params.stop_ne_nil]
    refine ⟨firstListed_eq_none params.stop_ne_nil, fun hnone => ?_⟩
    cases hfirst : firstListed params.stop w.1 w.2 with
    | none => rfl
    | some r =>
      obtain ⟨hc, -, l, r', hl, -⟩ := firstListed_eq_some params.stop_ne_nil hfirst
      exact absurd hc (hnone _ (hl ▸ by simp) _)

/-- A decoder whose characters are the tokens. -/
def smallDecode (ids : List ℕ) : List ℕ := ids.drop (ids.length - 1)

/-- Two stop strings of one character. -/
def smallParams : StopParams ℕ := ⟨[[1], [0]], 0, false, by decide⟩

/-- The tokens come one by one, and the output is cut at the stop string that comes first. -/
theorem runUpdates_eq_one_by_one :
    earliestStop smallDecode smallParams false [] [2, 0, 1] = some ([0], 2) ∧
      StopsInOrder smallParams (windows smallDecode smallParams false [] [] [[2], [0], [1]]) :=
  ⟨by decide, (runUpdates_eq_iff smallDecode smallParams false [] (by decide)).1 (by decide)⟩

/-- If the two tokens come together, then the output is cut at the stop string that comes second,
which is listed first. -/
theorem runUpdates_ne_together :
    let run := runUpdates smallDecode false (new smallParams []) [[0], [1]]
    let run' := runUpdates smallDecode false (new smallParams []) [[0, 1]]
    (run.1, run.2.outputText) = (some [0], []) ∧ (run'.1, run'.2.outputText) = (some [1], [0]) := by
  decide

end BaseIncrementalDetokenizer

end LoptVllm.Frontend
