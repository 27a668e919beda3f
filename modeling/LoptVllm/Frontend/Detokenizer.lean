import LoptVllm.Lib.Occurrence

/-!
# Incremental detokenization

The output tokens of a request arrive in updates of one or several tokens. The detokenizer turns
them into text, looks for stop strings in what was added, and hands the text out piece by piece. It
holds back as many characters as a stop string may still take away.
-/

namespace LoptVllm.Frontend

variable {α : Type*}

/-- The part of `SamplingParams` that the detokenizer reads. `_verify_args` refuses an empty stop
string. -/
structure StopParams (α : Type*) where
  stop : List (List α)
  minTokens : ℕ
  includeStopStrInOutput : Bool
  stop_ne_nil : ∀ s ∈ stop, s ≠ []

/-- `BaseIncrementalDetokenizer`. `token_ids` starts with the prompt in the slow implementation,
and without it in the fast one. -/
structure BaseIncrementalDetokenizer (α : Type*) where
  params : StopParams α
  promptLen : ℕ
  tokenIds : List ℕ
  stopBufferLength : ℕ
  lastOutputTextOffset : ℕ
  outputText : List α

/-- `text.find(s, start)`; a negative position counts from the end. -/
def find [DecidableEq α] (text s : List α) (start : ℤ) : Option ℕ :=
  findFrom s text (if start < 0 then (text.length + start).toNat else start.toNat)

/-- `check_stop_strings`. -/
def checkStopStrings [DecidableEq α] (outputText : List α) (newCharCount : ℕ)
    (stop : List (List α)) (includeInOutput : Bool) : Option (List α × ℤ) :=
  if newCharCount = 0 ∨ stop = [] then none
  else stop.findSome? fun stopStr =>
    match find outputText stopStr (1 - newCharCount - stopStr.length) with
    | none => none
    | some stopIndex =>
      if includeInOutput then
        if outputText.length ≤ stopIndex + stopStr.length then some (stopStr, -1)
        else some (stopStr, stopIndex + stopStr.length)
      else some (stopStr, stopIndex)

namespace BaseIncrementalDetokenizer

variable (decodeNext : List ℕ → List α) (d : BaseIncrementalDetokenizer α)

/-- The detokenizer of a new request. -/
def new (params : StopParams α) (prompt : List ℕ) : BaseIncrementalDetokenizer α where
  params := params
  promptLen := prompt.length
  tokenIds := prompt
  stopBufferLength := if params.stop ≠ [] ∧ params.includeStopStrInOutput = false then
      (params.stop.map List.length).foldr max 0 - 1
    else 0
  lastOutputTextOffset := 0
  outputText := []

/-- `output_token_ids`. -/
def outputTokenIds : List ℕ := if d.promptLen = 0 then d.tokenIds else d.tokenIds.drop d.promptLen

/-- The loop of `update` over the new tokens, with `stop_check_offset`. -/
def decodeTokens (d : BaseIncrementalDetokenizer α) (stopCheckOffset : ℕ) :
    List ℕ → BaseIncrementalDetokenizer α × ℕ
  | [] => (d, stopCheckOffset)
  | newTokenId :: newTokenIds =>
    let d := { d with
      tokenIds := d.tokenIds ++ [newTokenId]
      outputText := d.outputText ++ decodeNext (d.tokenIds ++ [newTokenId]) }
    decodeTokens d
      (if d.params.minTokens ≠ 0 ∧ d.outputTokenIds.length ≤ d.params.minTokens then
        d.outputText.length
      else stopCheckOffset) newTokenIds

/-- The end of `update`: the stop strings are evaluated. -/
def evaluateStop [DecidableEq α] (stopCheckOffset : ℕ) :
    Option (List α) × BaseIncrementalDetokenizer α :=
  if d.params.stop ≠ [] ∧ d.params.minTokens < d.outputTokenIds.length then
    match checkStopStrings d.outputText (d.outputText.length - stopCheckOffset) d.params.stop
      d.params.includeStopStrInOutput with
    | none => (none, d)
    | some (stopString, truncateTo) =>
      (some stopString,
        if truncateTo ≠ -1 then { d with outputText := d.outputText.take truncateTo.toNat } else d)
  else (none, d)

/-- `update`. A stop token that is left out of the output is not decoded. -/
def update [DecidableEq α] (newTokenIds : List ℕ) (stopTerminated : Bool) :
    Option (List α) × BaseIncrementalDetokenizer α :=
  if newTokenIds = [] then (none, d)
  else
    let skip := stopTerminated = true ∧ d.params.includeStopStrInOutput = false
    let skippedStopTokenId := if skip then newTokenIds.getLast? else none
    let (d', stopCheckOffset) := d.decodeTokens decodeNext d.outputText.length
      (if skip then newTokenIds.dropLast else newTokenIds)
    evaluateStop { d' with tokenIds := d'.tokenIds ++ skippedStopTokenId.toList } stopCheckOffset

/-- `get_next_output_text`. -/
def getNextOutputText (finished delta : Bool) : List α × BaseIncrementalDetokenizer α :=
  let bufferLength := if finished then 0 else d.stopBufferLength
  if delta = false then
    (if bufferLength ≠ 0 then d.outputText.take (d.outputText.length - bufferLength)
      else d.outputText, d)
  else
    let length : ℤ := d.outputText.length - bufferLength
    if d.lastOutputTextOffset < length then
      ((d.outputText.take length.toNat).drop d.lastOutputTextOffset,
        { d with lastOutputTextOffset := length.toNat })
    else ([], d)

end BaseIncrementalDetokenizer

end LoptVllm.Frontend
