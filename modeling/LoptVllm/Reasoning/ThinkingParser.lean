import LoptVllm.Lib.Occurrence
import LoptVllm.Lib.Slices

/-!
# Extracting the reasoning from a model's output
-/

namespace LoptVllm.Reasoning

abbrev Text := List Char

/-- `text.find(token)`. -/
def find (text token : Text) : ℤ := match findFrom token text 0 with
  | some i => i
  | none => -1

/-- `text.partition(token)`. -/
def partition (text token : Text) : Text × Text × Text := match findFrom token text 0 with
  | some i => (text.take i, token, text.drop (i + token.length))
  | none => (text, [], [])

/-- `xs[i:j]`. -/
def slice {α : Type*} (xs : List α) (i j : ℤ) : List α :=
  (sliceTo xs j).drop (if i < 0 then i + xs.length else i).toNat

/-- `text if text else None`. -/
def orNone (text : Text) : Option Text := if text.isEmpty then none else some text

structure DeltaMessage where
  reasoning : Option Text
  content : Option Text
  deriving DecidableEq, Repr

/-- The token that starts reasoning content. -/
def startToken : Text := "<think>".toList

/-- The token that ends reasoning content. -/
def endToken : Text := "</think>".toList

/-- The ids of the two tokens in the vocabulary. -/
structure DeepSeekR1ReasoningParser where
  startTokenId : ℤ
  endTokenId : ℤ

/-- `BaseThinkingReasoningParser.extract_reasoning`. -/
def extractReasoning (modelOutput : Text) : Option Text × Option Text :=
  let modelOutputParts := partition modelOutput startToken
  let modelOutput := if modelOutputParts.2.1 ≠ [] then modelOutputParts.2.2 else modelOutputParts.1
  if findFrom endToken modelOutput 0 = none then (some modelOutput, none)
  else
    let parts := partition modelOutput endToken
    (some parts.1, orNone parts.2.2)

namespace DeepSeekR1ReasoningParser

variable (p : DeepSeekR1ReasoningParser)

/-- `BaseThinkingReasoningParser.extract_reasoning_streaming`. -/
def baseExtractReasoningStreaming (deltaText : Text) (previousTokenIds deltaTokenIds : List ℤ) :
    Option DeltaMessage :=
  -- skip single special tokens
  if deltaTokenIds = [p.startTokenId] ∨ deltaTokenIds = [p.endTokenId] then none
  else if p.startTokenId ∈ previousTokenIds then
    if p.endTokenId ∈ deltaTokenIds then
      let endIndex := find deltaText endToken
      let reasoning := sliceTo deltaText endIndex
      let content := sliceFrom deltaText (endIndex + endToken.length)
      some ⟨some reasoning, orNone content⟩
    else if p.endTokenId ∈ previousTokenIds then some ⟨none, some deltaText⟩
    else some ⟨some deltaText, none⟩
  else if p.startTokenId ∈ deltaTokenIds then
    if p.endTokenId ∈ deltaTokenIds then
      let startIndex := find deltaText startToken
      let endIndex := find deltaText endToken
      let reasoning := slice deltaText (startIndex + startToken.length) endIndex
      let content := sliceFrom deltaText (endIndex + endToken.length)
      some ⟨some reasoning, orNone content⟩
    else some ⟨some deltaText, none⟩
  else some ⟨none, some deltaText⟩

/-- `extract_reasoning_streaming`: without a start token the output begins with the reasoning. -/
def extractReasoningStreaming (deltaText : Text) (previousTokenIds deltaTokenIds : List ℤ) :
    Option DeltaMessage :=
  let ret := p.baseExtractReasoningStreaming deltaText previousTokenIds deltaTokenIds
  if ret.isSome ∧ p.startTokenId ∉ previousTokenIds ∧ p.startTokenId ∉ deltaTokenIds then
    if p.endTokenId ∈ deltaTokenIds then
      let endIndex := find deltaText endToken
      let reasoning := sliceTo deltaText endIndex
      let content := sliceFrom deltaText (endIndex + endToken.length)
      some ⟨some reasoning, orNone content⟩
    else if p.endTokenId ∈ previousTokenIds then some ⟨none, some deltaText⟩
    else some ⟨some deltaText, none⟩
  else ret

/-- The messages for the deltas of an output, after the tokens `previous`. -/
def stream (text : ℤ → Text) (previous : List ℤ) : List (List ℤ) → List (Option DeltaMessage)
  | [] => []
  | delta :: deltas =>
    p.extractReasoningStreaming (delta.flatMap text) previous delta ::
      stream text (previous ++ delta) deltas

end DeepSeekR1ReasoningParser

variable (messages : List (Option DeltaMessage))

/-- The reasoning of the messages; `None` counts as empty. -/
def reasoningOf : Text :=
  messages.flatMap fun m => (m.bind DeltaMessage.reasoning).getD []

/-- The content of the messages. -/
def contentOf : Text :=
  messages.flatMap fun m => (m.bind DeltaMessage.content).getD []

end LoptVllm.Reasoning
