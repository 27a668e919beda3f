import LoptVllm.Lib.Slices
import LoptVllm.Python
import Mathlib.Data.List.DropRight
import Mathlib.Data.List.Infix

/-!
# Streaming with the Hermes tool parser
-/

namespace LoptVllm.ToolParsers

open List String

abbrev Text := List Char

/-- `DeltaMessage`; the tool calls of type `τ`. -/
structure DeltaMessage (τ : Type) where
  content : Option Text
  toolCalls : List τ

/-- `ExtractedToolCallInformation`. -/
structure ExtractedToolCallInformation (τ : Type) where
  toolsCalled : Bool
  toolCalls : List τ
  content : Option Text

/-- `Hermes2ProToolParser`: the tokens of the two tags, as the tokenizer decodes them, and the state
of the tool calls that it has found. -/
structure Hermes2ProToolParser (σ : Type) where
  toolCallStartTokenArray : List Text
  toolCallEndTokenArray : List Text
  bufferedDeltaText : Text
  toolCallState : σ

def toolCallStartToken : Text := "<tool_call>".toList

variable {σ τ : Type}

/-- `array[-1]`. -/
def lastOf (array : List Text) : Except PyErr Text := match array.getLast? with
  | some token => .ok token
  | none => .error (.indexError "list index out of range")

namespace Hermes2ProToolParser

variable (p : Hermes2ProToolParser σ)

/-- The text that was held back is returned with the delta. -/
def flush (deltaText : Text) : Text × Hermes2ProToolParser σ :=
  (p.bufferedDeltaText ++ deltaText, { p with bufferedDeltaText := [] })

/-- `tool_call_delta_buffer`. -/
def toolCallDeltaBuffer (deltaText : Text) : Except PyErr (Text × Hermes2ProToolParser σ) := do
  if deltaText ∈ p.toolCallStartTokenArray ∨ deltaText ∈ p.toolCallEndTokenArray then
    if deltaText = (← lastOf p.toolCallStartTokenArray) then return p.flush deltaText
    if deltaText = (← lastOf p.toolCallEndTokenArray) then return p.flush deltaText
    return ([], { p with bufferedDeltaText := p.bufferedDeltaText ++ deltaText })
  -- the buffer is emptied, or was empty
  else return p.flush deltaText

/-- `extract_tool_calls_streaming`. A text with the start tag is parsed by `parse`. -/
def extractToolCallsStreaming (parse : Hermes2ProToolParser σ → Text → Text → Text →
      Except PyErr (Option (DeltaMessage τ) × Hermes2ProToolParser σ))
    (previousText currentText deltaText : Text) :
    Except PyErr (Option (DeltaMessage τ) × Hermes2ProToolParser σ) := do
  let (deltaText, p) ← p.toolCallDeltaBuffer deltaText
  let buffered := p.bufferedDeltaText
  -- the part that is held back is removed from the end of the previous text
  let (previousText, currentText) := if buffered.length ≤ previousText.length ∧
        sliceFrom previousText (-(buffered.length : ℤ)) = buffered then
      let previousText := sliceTo previousText (-(buffered.length : ℤ))
      (previousText, previousText ++ deltaText)
    else (previousText, currentText)
  if ¬ toolCallStartToken <:+: currentText then return (some ⟨some deltaText, []⟩, p)
  else parse p previousText currentText deltaText

/-- The messages for the deltas of an answer. -/
def stream (parse : Hermes2ProToolParser σ → Text → Text → Text →
      Except PyErr (Option (DeltaMessage τ) × Hermes2ProToolParser σ))
    (p : Hermes2ProToolParser σ) (previousText : Text) :
    List Text → Except PyErr (List (Option (DeltaMessage τ)) × Hermes2ProToolParser σ)
  | [] => .ok ([], p)
  | deltaText :: deltas => do
    let (message, p) ← p.extractToolCallsStreaming parse previousText (previousText ++ deltaText) deltaText
    let (messages, p) ← stream parse p (previousText ++ deltaText) deltas
    return (message :: messages, p)

end Hermes2ProToolParser

/-- `extract_tool_calls`. A text with the start tag is parsed by `parse`. -/
def extractToolCalls (parse : Text → ExtractedToolCallInformation τ) (modelOutput : Text) :
    ExtractedToolCallInformation τ :=
  if ¬ toolCallStartToken <:+: modelOutput then ⟨false, [], some modelOutput⟩ else parse modelOutput

/-- The content of the messages, one after the other. -/
def contents (messages : List (Option (DeltaMessage τ))) : Text :=
  (messages.filterMap fun m => m.bind (·.content)).flatten

namespace Hermes2ProToolParser

/-- A token of a tag is held back, unless it is the last one of a tag. -/
def holdsBack (p : Hermes2ProToolParser σ) (deltaText : Text) : Bool :=
  decide ((deltaText ∈ p.toolCallStartTokenArray ∨ deltaText ∈ p.toolCallEndTokenArray) ∧
    p.toolCallStartTokenArray.getLast? ≠ some deltaText ∧
    p.toolCallEndTokenArray.getLast? ≠ some deltaText)

variable {p : Hermes2ProToolParser σ}

theorem toolCallDeltaBuffer_eq (hstart : p.toolCallStartTokenArray ≠ [])
    (hend : p.toolCallEndTokenArray ≠ []) (deltaText : Text) :
    p.toolCallDeltaBuffer deltaText = .ok (if p.holdsBack deltaText then
      ([], { p with bufferedDeltaText := p.bufferedDeltaText ++ deltaText })
    else p.flush deltaText) := by
  obtain ⟨s, hs⟩ := Option.isSome_iff_exists.1 (getLast?_isSome.2 hstart)
  obtain ⟨e, he⟩ := Option.isSome_iff_exists.1 (getLast?_isSome.2 hend)
  unfold toolCallDeltaBuffer holdsBack lastOf
  rw [hs, he]
  by_cases hmem : deltaText ∈ p.toolCallStartTokenArray ∨ deltaText ∈ p.toolCallEndTokenArray
  · by_cases hlast : deltaText = s
    · simp [hlast, ok_bind, pure, Except.pure]
    · by_cases hlast' : deltaText = e
      · simp [hlast', ok_bind, pure, Except.pure]
      · simp [hmem, hlast, hlast', Ne.symm hlast, Ne.symm hlast', ok_bind, pure, Except.pure]
  · simp [hmem, pure, Except.pure]

variable (parse : Hermes2ProToolParser σ → Text → Text → Text →
  Except PyErr (Option (DeltaMessage τ) × Hermes2ProToolParser σ))

/-- A delta without a start tag in the text up to it: it is held back, or it is the content after
what was held back. -/
theorem extractToolCallsStreaming_eq (hstart : p.toolCallStartTokenArray ≠ [])
    (hend : p.toolCallEndTokenArray ≠ []) {previousText deltaText : Text}
    (hbuffered : previousText = [] → p.bufferedDeltaText = [])
    (htag : ¬ toolCallStartToken <:+: previousText ++ deltaText) :
    p.extractToolCallsStreaming parse previousText (previousText ++ deltaText) deltaText =
      .ok (if p.holdsBack deltaText then (some ⟨some [], []⟩,
          { p with bufferedDeltaText := p.bufferedDeltaText ++ deltaText })
        else (some ⟨some (p.flush deltaText).1, []⟩, (p.flush deltaText).2)) := by
  have hprevious : ¬ toolCallStartToken <:+: previousText := fun h =>
    htag (h.trans (prefix_append _ _).isInfix)
  unfold extractToolCallsStreaming
  rw [toolCallDeltaBuffer_eq hstart hend]
  by_cases hheld : p.holdsBack deltaText
  · -- the text without what is held back is the beginning of the text before
    have hcut : ∀ i, ¬ toolCallStartToken <:+: sliceTo previousText i := fun i h =>
      hprevious (h.trans ( take_prefix _ _).isInfix)
    simp only [hheld, if_true, ok_bind, append_nil]
    split_ifs <;> simp_all [pure, Except.pure]
  · simp only [hheld, Bool.false_eq_true, if_false, flush, ok_bind, length_nil, Nat.zero_le, true_and]
    by_cases hempty : sliceFrom previousText (-((0 : ℕ) : ℤ)) = []
    · have hnil : previousText = [] := by simpa [sliceFrom] using hempty
      simp_all [sliceTo]
      rfl
    · rw [if_neg hempty]
      simp only [htag]
      rfl

/-- What is held back after some deltas, and the messages for them. -/
theorem stream_eq (deltas : List Text) : ∀ {p : Hermes2ProToolParser σ} (past : List Text),
    p.toolCallStartTokenArray ≠ [] → p.toolCallEndTokenArray ≠ [] →
    p.bufferedDeltaText = (past.rtakeWhile p.holdsBack).flatten →
    ¬ toolCallStartToken <:+: (past ++ deltas).flatten →
    ∃ messages p', p.stream parse past.flatten deltas = .ok (messages, p') ∧
      contents messages ++ ((past ++ deltas).rtakeWhile p.holdsBack).flatten =
        p.bufferedDeltaText ++ deltas.flatten := by
  induction deltas with
  | nil =>
    intro p past _ _ hbuffered _
    refine ⟨[], p, rfl, ?_⟩
    rw [append_nil, ← hbuffered]
    exact (append_nil _).symm
  | cons d deltas ih =>
    intro p past hstart hend hbuffered htag
    have happend : past ++ d :: deltas = past ++ [d] ++ deltas := by simp
    rw [happend] at htag ⊢
    have hfirst : past.flatten ++ d = (past ++ [d]).flatten := by simp
    have hempty : past.flatten = [] → p.bufferedDeltaText = [] := by
      intro hnil
      obtain ⟨a, ha⟩ := rtakeWhile_suffix p.holdsBack past
      rw [hbuffered]
      rw [← ha, flatten_append] at hnil
      exact (append_eq_nil_iff.1 hnil).2
    have htag' : ¬ toolCallStartToken <:+: past.flatten ++ d := by
      rw [hfirst]
      refine fun h => htag (h.trans ?_)
      exact ⟨[], deltas.flatten, by simp⟩
    have hmessage := extractToolCallsStreaming_eq parse hstart hend hempty htag'
    have hlast := rtakeWhile_concat p.holdsBack past d
    -- the delta is held back, or handed out with what was held back before
    by_cases hheld : p.holdsBack d
    · rw [if_pos hheld] at hmessage hlast
      obtain ⟨messages, p', hrun, hcontents⟩ := ih (p := { p with
        bufferedDeltaText := p.bufferedDeltaText ++ d }) (past ++ [d]) hstart hend
        (by show _ = ((past ++ [d]).rtakeWhile p.holdsBack).flatten; simp [hlast, hbuffered]) htag
      refine ⟨some ⟨some [], []⟩ :: messages, p', ?_, ?_⟩
      · rw [stream, hmessage]
        simp only [ok_bind, hfirst, hrun]
        rfl
      · have hall : contents messages ++ ((past ++ [d] ++ deltas).rtakeWhile p.holdsBack).flatten =
            p.bufferedDeltaText ++ d ++ deltas.flatten := hcontents
        simpa [contents] using hall
    · rw [if_neg hheld] at hmessage hlast
      obtain ⟨messages, p', hrun, hcontents⟩ := ih (p := (p.flush d).2) (past ++ [d]) hstart hend
        (by show [] = ((past ++ [d]).rtakeWhile p.holdsBack).flatten; simp [hlast]) htag
      refine ⟨some ⟨some (p.flush d).1, []⟩ :: messages, p', ?_, ?_⟩
      · rw [stream, hmessage]
        simp only [ok_bind, hfirst, hrun]
        rfl
      · have hall : contents messages ++ ((past ++ [d] ++ deltas).rtakeWhile p.holdsBack).flatten =
            deltas.flatten := hcontents
        simpa [contents, flush] using hall

/-- **The messages have the whole text of an answer without a tool call**, as it is extracted from the
complete answer, if and only if nothing is held back at its end. -/
theorem stream_loses_nothing_iff {p : Hermes2ProToolParser σ}
    (parse' : Text → ExtractedToolCallInformation τ) (hstart : p.toolCallStartTokenArray ≠ [])
    (hend : p.toolCallEndTokenArray ≠ []) (hnew : p.bufferedDeltaText = []) {deltas : List Text}
    (htag : ¬ toolCallStartToken <:+: deltas.flatten) :
    (∃ messages p', p.stream parse [] deltas = .ok (messages, p') ∧
      contents messages = deltas.flatten ∧
      (extractToolCalls parse' deltas.flatten).content = some (contents messages)) ↔
      (deltas.rtakeWhile p.holdsBack).flatten = [] := by
  obtain ⟨messages, p', hrun, hcontents⟩ := stream_eq parse deltas [] hstart hend
    (by simpa using hnew) htag
  rw [hnew, nil_append, nil_append] at hcontents
  constructor
  · rintro ⟨messages', p'', hrun', hsame, -⟩
    obtain ⟨rfl, -⟩ := Prod.mk.inj (Except.ok.inj (hrun.symm.trans hrun'))
    exact (append_right_eq_self.1 (hcontents.trans hsame.symm))
  · intro hnil
    rw [hnil, append_nil] at hcontents
    exact ⟨messages, p', hrun, hcontents, by rw [extractToolCalls, if_pos htag, hcontents]⟩

/-- A tokenizer that has the tags as several tokens. -/
def fourTokens : Hermes2ProToolParser Unit where
  toolCallStartTokenArray := ["<", "tool", "_call", ">"].map toList
  toolCallEndTokenArray := ["</", "tool", "_call", ">"].map toList
  bufferedDeltaText := []
  toolCallState := ()

theorem stream_loses_nothing_iff_tool :
    (∃ messages p', fourTokens.stream (τ := Unit) (fun p _ _ _ => .ok (none, p)) []
        (["the ", "tool", " box"].map toList) = .ok (messages, p') ∧
      contents messages = (["the ", "tool", " box"].map toList).flatten ∧
      (extractToolCalls (τ := Unit) (fun _ => ⟨true, [], none⟩)
        (["the ", "tool", " box"].map toList).flatten).content = some (contents messages)) ↔
      ((["the ", "tool", " box"].map toList).rtakeWhile fourTokens.holdsBack).flatten = [] :=
  stream_loses_nothing_iff _ _ (by decide) (by decide) rfl (by decide)

/-- An answer that ends with `<`. -/
theorem tail_is_lost : ¬ toolCallStartToken <:+: "1 <".toList ∧
    (fourTokens.stream (τ := Unit) (fun p _ _ _ => .ok (none, p)) []
      ["1 ".toList, "<".toList]).map (contents ·.1) = .ok "1 ".toList ∧
    (extractToolCalls (τ := Unit) (fun _ => ⟨true, [], none⟩) "1 <".toList).content =
      some "1 <".toList := by
  decide

end Hermes2ProToolParser

end LoptVllm.ToolParsers
