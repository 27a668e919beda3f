import LoptVllm.Frontend.StopStrings
import Mathlib.Data.List.MinMax
import Mathlib.Order.Nat

/-!
# Streaming the output text

While a request runs, the text is handed out in pieces, all but the last `stop_buffer_length`
characters. A stop string that is found in an update starts after what has been handed out before,
so nothing that was handed out is cut away.
-/

namespace LoptVllm.Frontend

open List Bool

namespace BaseIncrementalDetokenizer

variable {α : Type*} [DecidableEq α] (decodeNext : List ℕ → List α)

/-- The detokenizer after updates and calls of `get_next_output_text(False, True)`, with the texts
that these returned, and whether a stop string was reported. There is no update after that. -/
inductive Stream (params : StopParams α) (prompt : List ℕ) :
    BaseIncrementalDetokenizer α → List (List α) → Bool → Prop
  | new : Stream params prompt (new params prompt) [] false
  | update {d : BaseIncrementalDetokenizer α} {deltas : List (List α)}
      (newTokenIds : List ℕ) (stopTerminated : Bool) (h : Stream params prompt d deltas false) :
      Stream params prompt (d.update decodeNext newTokenIds stopTerminated).2 deltas
        (d.update decodeNext newTokenIds stopTerminated).1.isSome
  | next {d : BaseIncrementalDetokenizer α} {deltas : List (List α)} {stopped : Bool}
      (h : Stream params prompt d deltas stopped) :
      Stream params prompt (d.getNextOutputText false true).2
        (deltas ++ [(d.getNextOutputText false true).1]) stopped

/-! ### One update -/

omit [DecidableEq α] in
variable {decodeNext} in
/-- The loop over the new tokens extends the text; the window lies in what was added. -/
theorem decodeTokens_extends (ts : List ℕ) :
    ∀ {d : BaseIncrementalDetokenizer α} {o n : ℕ}, n ≤ o → o ≤ d.outputText.length →
      ∃ ids u o', d.decodeTokens decodeNext o ts = ({ d with
        tokenIds := ids
        outputText := d.outputText ++ u }, o') ∧ n ≤ o' ∧ o' ≤ (d.outputText ++ u).length := by
  induction ts with
  | nil =>
    intro d o n hn ho
    refine ⟨d.tokenIds, [], o, ?_, hn, ?_⟩ <;> simp [decodeTokens, ho]
  | cons t ts ih =>
    intro d o n hn ho
    let d' : BaseIncrementalDetokenizer α := { d with
      tokenIds := d.tokenIds ++ [t]
      outputText := d.outputText ++ decodeNext (d.tokenIds ++ [t]) }
    have hlen : d.outputText.length ≤ d'.outputText.length := by simp [d']
    let o₁ := if d'.params.minTokens ≠ 0 ∧ d'.outputTokenIds.length ≤ d'.params.minTokens then
      d'.outputText.length else o
    have ho₁ : n ≤ o₁ ∧ o₁ ≤ d'.outputText.length := by
      show n ≤ ite _ _ _ ∧ ite _ _ _ ≤ _
      split_ifs <;> omega
    obtain ⟨ids, u, o', heq, hn', ho'⟩ := ih ho₁.1 ho₁.2
    refine ⟨ids, decodeNext (d.tokenIds ++ [t]) ++ u, o', ?_, hn', ?_⟩
    · rw [decodeTokens]
      refine heq.trans ?_
      simp [d']
    · simpa [d'] using ho'

/-- What an update does to the text: it extends the text, and it may cut it at a stop string that
is completed in what was added. -/
inductive Updates (d : BaseIncrementalDetokenizer α) :
    Option (List α) × BaseIncrementalDetokenizer α → Prop
  | goesOn (ids : List ℕ) (u : List α) :
      Updates d (none, { d with tokenIds := ids, outputText := d.outputText ++ u })
  | stops (ids : List ℕ) (u s : List α) (e : ℕ) (hs : s ∈ d.params.stop)
      (hc : CompletesAt s (d.outputText ++ u) d.outputText.length e) :
      Updates d (some s, { d with
        tokenIds := ids
        outputText := cut d.params.includeStopStrInOutput (d.outputText ++ u) (some (s, e)) })

theorem update_updates (d : BaseIncrementalDetokenizer α) (new : List ℕ) (term : Bool) :
    Updates d (d.update decodeNext new term) := by
  unfold update
  by_cases hnew : new = []
  · rw [if_pos hnew]
    have h := Updates.goesOn (d := d) d.tokenIds []
    rwa [append_nil] at h
  · rw [if_neg hnew]
    extract_lets skip skipped
    obtain ⟨ids, u, o, heq, hlo, hhi⟩ :
        ∃ ids u o', d.decodeTokens decodeNext d.outputText.length _ = _ ∧ _ :=
      decodeTokens_extends (if skip then new.dropLast else new) (le_refl d.outputText.length) le_rfl
    rw [heq]
    dsimp only
    generalize ids ++ skipped.toList = ids
    generalize hd : ({ d with
      tokenIds := ids
      outputText := d.outputText ++ u } : BaseIncrementalDetokenizer α) = d'
    have hgoes : Updates d (none, d') := hd ▸ .goesOn ids u
    by_cases hcheck : d'.params.stop ≠ [] ∧ d'.params.minTokens < d'.outputTokenIds.length
    · rw [evaluateStop_of_check (by rw [← hd]; exact hhi) hcheck]
      cases hfirst : firstListed d'.params.stop d'.outputText o with
      | none => exact hgoes
      | some r =>
        obtain ⟨s, e⟩ := r
        obtain ⟨hc, -, l, r, hl, -⟩ := firstListed_eq_some d'.params.stop_ne_nil hfirst
        subst hd
        exact .stops ids u s e (hl ▸ by simp) (hc.mono (lt_of_le_of_lt hlo hc.1))
    · unfold evaluateStop
      rw [if_neg hcheck]
      exact hgoes

/-! ### What has been handed out -/

/-- The texts that were returned are the beginning of the output text. As long as no stop string is
reported, the last `stop_buffer_length` characters are held back. -/
structure HandedOut (params : StopParams α) (d : BaseIncrementalDetokenizer α)
    (deltas : List (List α)) (stopped : Bool) : Prop where
  params_eq : d.params = params
  buffer : params.includeStopStrInOutput = false → ∀ s ∈ params.stop,
    s.length ≤ d.stopBufferLength + 1
  offset_le : d.lastOutputTextOffset ≤ d.outputText.length
  flatten_eq : deltas.flatten = d.outputText.take d.lastOutputTextOffset
  held : stopped = false → d.lastOutputTextOffset = 0 ∨
    d.lastOutputTextOffset + d.stopBufferLength ≤ d.outputText.length

omit [DecidableEq α] in
theorem handedOut_new (params : StopParams α) (prompt : List ℕ) :
    HandedOut params (new params prompt) [] false := by
  refine ⟨rfl, fun hincl s hs => ?_, le_rfl, rfl, fun _ => .inl rfl⟩
  have hne : params.stop ≠ [] := ne_nil_of_mem hs
  have hle : s.length ≤ (params.stop.map List.length).foldr max 0 :=
    le_max_of_le (mem_map_of_mem hs) le_rfl
  show s.length ≤ (if params.stop ≠ [] ∧ params.includeStopStrInOutput = false then _ else _) + 1
  rw [if_pos ⟨hne, hincl⟩]
  omega

variable {params : StopParams α} {d : BaseIncrementalDetokenizer α} {deltas : List (List α)}

omit [DecidableEq α] in
/-- A stop string that is completed in new characters starts after what was handed out. -/
theorem HandedOut.le_cut {u s : List α} {e : ℕ} (h : HandedOut params d deltas false)
    (hs : s ∈ d.params.stop) (hc : CompletesAt s (d.outputText ++ u) d.outputText.length e) :
    d.lastOutputTextOffset ≤ (if d.params.includeStopStrInOutput then e else e - s.length) := by
  have hle := h.offset_le
  have hlt := hc.1
  rw [h.params_eq] at hs ⊢
  split_ifs with hincl
  · omega
  · have hbuffer := h.buffer (by simpa using hincl) s hs
    rcases h.held rfl with h | h <;> omega

omit [DecidableEq α] in
theorem HandedOut.updates {r : Option (List α) × BaseIncrementalDetokenizer α}
    (h : HandedOut params d deltas false) (hr : Updates d r) :
    HandedOut params r.2 deltas r.1.isSome := by
  have hle := h.offset_le
  cases hr with
  | goesOn ids u =>
    refine ⟨h.params_eq, h.buffer, ?_, ?_, fun _ => (h.held rfl).imp_right fun h => ?_⟩
    · simp only [length_append]
      omega
    · rw [h.flatten_eq]
      exact (take_append_of_le_length hle).symm
    · simp only [length_append]
      omega
  | stops ids u s e hs hc =>
    have hcut := h.le_cut hs hc
    refine ⟨h.params_eq, h.buffer, ?_, ?_, fun hstop => by cases hstop⟩
    · show d.lastOutputTextOffset ≤ (take _ _).length
      rw [length_take, length_append]
      omega
    · rw [h.flatten_eq]
      show _ = take _ (take _ _)
      rw [take_take, min_eq_left hcut, take_append_of_le_length hle]

variable {stopped : Bool}

omit [DecidableEq α] in
theorem HandedOut.next (h : HandedOut params d deltas stopped) :
    HandedOut params (d.getNextOutputText false true).2
      (deltas ++ [(d.getNextOutputText false true).1]) stopped := by
  unfold getNextOutputText
  simp only [true_eq_false, if_false, false_eq_true]
  split_ifs with hlt
  · refine ⟨h.params_eq, h.buffer, ?_, ?_, fun _ => .inr ?_⟩
    · dsimp only
      omega
    · dsimp only
      generalize hn : ((d.outputText.length : ℤ) - d.stopBufferLength).toNat = n
      have htake : d.outputText.take d.lastOutputTextOffset =
          (d.outputText.take n).take d.lastOutputTextOffset := by
        rw [take_take, min_eq_left (by omega)]
      rw [flatten_append, h.flatten_eq, flatten_singleton, htake, take_append_drop]
    · dsimp only
      omega
  · exact ⟨h.params_eq, h.buffer, h.offset_le, by simpa using h.flatten_eq, h.held⟩

variable {decodeNext} in
theorem Stream.handedOut {prompt : List ℕ}
    (h : Stream decodeNext params prompt d deltas stopped) : HandedOut params d deltas stopped := by
  induction h with
  | new => exact handedOut_new params prompt
  | update newTokenIds stopTerminated _ ih =>
    exact ih.updates (update_updates decodeNext _ newTokenIds stopTerminated)
  | next _ ih => exact ih.next

omit [DecidableEq α] in
theorem HandedOut.last (h : HandedOut params d deltas stopped) :
    (deltas ++ [(d.getNextOutputText true true).1]).flatten = d.outputText := by
  rw [flatten_append, h.flatten_eq, flatten_singleton]
  unfold getNextOutputText
  simp only [true_eq_false, if_false, if_true]
  split_ifs with hlt
  · simp
  · simp only [append_nil]
    exact take_of_length_le (by simp at hlt; omega)

variable {decodeNext} in
/-- **The pieces add up to the final text**: what was handed out is a prefix of the text at any
time, and together with the last piece it is the text, which can also be asked for as a whole. -/
theorem Stream.flatten_eq {params : StopParams α} {prompt : List ℕ}
    {d : BaseIncrementalDetokenizer α} {deltas : List (List α)} {stopped : Bool}
    (h : Stream decodeNext params prompt d deltas stopped) : deltas.flatten <+: d.outputText ∧
      (deltas ++ [(d.getNextOutputText true true).1]).flatten = d.outputText ∧
      ((d.getNextOutputText true true).2.getNextOutputText true false).1 = d.outputText := by
  refine ⟨?_, h.handedOut.last, ?_⟩
  · rw [h.handedOut.flatten_eq]
    exact take_prefix _ _
  · unfold getNextOutputText
    simp only
    split_ifs <;> simp_all

/-- A stop string of two characters is completed over two updates; its first character was held
back. -/
theorem flatten_eq_two_updates :
    ∃ d deltas, Stream smallDecode ⟨[[1, 2]], 0, false, by decide⟩ [] d deltas true ∧
      deltas = [[0]] ∧ (deltas ++ [(d.getNextOutputText true true).1]).flatten = [0] := by
  have h₀ : Stream smallDecode ⟨[[1, 2]], 0, false, by decide⟩ [] _ [] false := .new
  have h₁ := (h₀.update [0, 1] false).next
  have h₂ := h₁.update [2] false
  exact ⟨_, _, h₂, by decide, h₂.flatten_eq.2.1.trans (by decide)⟩

end BaseIncrementalDetokenizer

end LoptVllm.Frontend
