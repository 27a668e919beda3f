import LoptVllm.Frontend.Made

/-!
# A request in DELTA mode

One request with its collector, as `process_outputs`, `abort_requests` and the consumer see it. The
collector of a parallel sampling request also has the outputs of the other children.
-/

namespace LoptVllm.Frontend

variable {α L : Type}

/-- A request in DELTA mode. What the consumer has received is kept as it was when it was taken. -/
structure DeltaRequest (α L : Type) where
  state : RequestState α
  shared : Shared α L
  queue : RequestOutputCollector α L
  received : List (Output α L)
  /-- The tokens and the logprobs of the engine outputs. -/
  produced : List ℕ
  producedLogprobs : List L
  ended : Bool

/-- The completions of an output that have an index. -/
def Output.completionsOf (index : ℕ) : Output α L → List (CompletionOutput α L)
  | .completion ⟨_, .own l, _⟩ => l.reduceOption.filter (·.index = index)
  | _ => []

/-- The completions in the output that waits. -/
def RequestOutputCollector.waiting (q : RequestOutputCollector α L) (index : ℕ) :
    List (CompletionOutput α L) :=
  (q.output.map (Output.completionsOf index)).getD []

/-- The logprobs of a completion. -/
def CompletionOutput.entries (h : Shared α L) (c : CompletionOutput α L) : List L :=
  (c.logprobs.map (SampleLogprobs.entries h)).getD []

/-- The logprobs of a completion that has been copied. -/
def CompletionOutput.ownLogprobs (c : CompletionOutput α L) : List L := match c.logprobs with
  | some (.own l) => l
  | _ => []

/-- What happens to a request. -/
inductive DeltaEvent (α L : Type)
  | output (o : EngineCoreOutput α L)
  | abort
  | sibling (h : Shared α L) (o : RequestOutput α L)
  | get

namespace DeltaRequest

variable (d : DeltaRequest α L)

/-- An output is put into the collector. -/
def putOutput (s : RequestState α) (h : Shared α L) (output : Option (Output α L)) :
    Except PyErr (DeltaRequest α L) :=
  match output with
  | none => .ok { d with state := s, shared := h }
  | some output => do
    let (q, h) ← d.queue.put h output
    return { d with state := s, shared := h, queue := q }

/-- A round of `process_outputs`, without the maps. -/
def processOutput [DecidableEq α] (o : EngineCoreOutput α L) : Except PyErr (DeltaRequest α L) := do
  let ((finishReason, stopReason), s, h) ← d.state.updateFromOutput d.shared o
  let (output, s, h) ← s.makeRequestOutput h o.newTokenIds o.poolingOutput finishReason stopReason
  let d ← d.putOutput s h output
  return { d with
    produced := d.produced ++ o.newTokenIds
    producedLogprobs := d.producedLogprobs ++ o.newLogprobs.getD []
    ended := finishReason.isSome }

/-- The final output of a request that is aborted. -/
def abort : Except PyErr (DeltaRequest α L) := do
  let (output, s, h) ← d.state.makeRequestOutput d.shared [] none (some .abort) none
  let d ← d.putOutput s h output
  return { d with ended := true }

/-- The consumer takes the output that waits, if there is one. -/
def get : DeltaRequest α L :=
  let (output, q) := d.queue.getNowait
  { d with
    queue := q
    received := d.received ++ (output.map (Output.copy d.shared)).toList }

/-- What an event does. -/
def step [DecidableEq α] : DeltaEvent α L → Except PyErr (DeltaRequest α L)
  | .output o => d.processOutput o
  | .abort => d.abort
  | .sibling h o => d.putOutput d.state h (some (.completion o))
  | .get => .ok d.get

/-- The outputs that the consumer has received, and the one that waits. -/
def stream : List (Output α L) := d.received ++ (d.queue.output.map (Output.copy d.shared)).toList

/-- What has been delivered: the completions of the request in the stream. -/
def delivered : List (CompletionOutput α L) :=
  d.stream.flatMap (Output.completionsOf d.state.requestIndex)

/-- The concatenation of the tokens. -/
def tokenIds : List ℕ := d.delivered.flatMap (·.tokenIds)

/-- The concatenation of the texts. -/
def text : List α := d.delivered.flatMap (·.text)

/-- The concatenation of the logprobs. -/
def logprobs : List L := d.delivered.flatMap (·.ownLogprobs)

/-- The completions of the request in the output that waits. -/
def waiting : List (CompletionOutput α L) := d.queue.waiting d.state.requestIndex

/-- The text of the request. -/
def outputText : List α := match d.state.detokenizer with
  | some (.base _ b) => b.outputText
  | _ => []

/-- An output that waits while another child hands out a completion, or before the request runs. -/
structure FromSibling (c : CompletionOutput α L) : Prop where
  index : c.index ≠ d.state.requestIndex
  logprobs : c.logprobs.isSome = d.state.logprobs
  notShared : c.logprobs ≠ some (.shared d.state.requestId)

/-- A request that has just been added. The collector may have outputs of other children. -/
structure Started : Prop where
  request : ∃ request parentReq index queue streamInterval,
    d.state = .fromNewRequest request parentReq index queue streamInterval ∧
      request.outputKind = .delta ∧ (request.detokenizer = some (.plain []) ∨
        ∃ decodeNext params prompt, request.detokenizer = some (.base decodeNext (.new params prompt)))
  known : Known d.state d.shared
  logprobs : d.shared.logprobs d.state.requestId = []
  aggregate : d.queue.aggregate = true
  queue : ∀ output, d.queue.output = some output → ∃ (id : ℕ)
    (cs : List (CompletionOutput α L)) (finished : Bool), output =
      .completion ⟨id, .own (cs.map some), finished⟩ ∧ ∀ c ∈ cs, d.FromSibling c
  received : d.received = []
  produced : d.produced = [] ∧ d.producedLogprobs = []
  ended : d.ended = false

/-- The events that can happen: the engine produces a logprob for each token, if they are requested,
until the request has ended; another child hands out a completion of its own. -/
def Admissible : DeltaEvent α L → Prop
  | .output o => d.ended = false ∧ o.poolingOutput = none ∧
    if d.state.logprobs then (o.newLogprobs.getD []).length = o.newTokenIds.length
    else o.newLogprobs = none
  | .abort => d.ended = false
  | .sibling h o => h.logprobs d.state.requestId = d.shared.logprobs d.state.requestId ∧
    (d.ended = false → Known d.state h) ∧ ∃ c, o.outputs = .own [some c] ∧ d.FromSibling c
  | .get => True

/-- An output that is handed out has a token. -/
def SendsTokens (new : List ℕ) (finished : Bool) : Prop :=
  if d.state.streamInterval ≤ 1 then new ≠ []
  else finished = true → d.state.sentTokensOffset < (d.produced ++ new).length

/-- The condition on an event of a request with logprobs: once it has a token, no output without a
token is handed out, and no such output waits when the first tokens come. -/
def Meets [DecidableEq α] : DeltaEvent α L → Prop
  | .output o => d.state.logprobs = true → d.produced ++ o.newTokenIds ≠ [] →
    d.SendsTokens o.newTokenIds (d.state.finishes o) ∧ (d.produced = [] → d.waiting = [])
  | .abort => d.state.logprobs = true → d.produced ≠ [] → d.SendsTokens [] true
  | .sibling _ _ | .get => True

end DeltaRequest

/-- The states after any number of events, each of which meets a condition. -/
inductive DeltaRun [DecidableEq α] (meets : DeltaRequest α L → DeltaEvent α L → Prop) :
    DeltaRequest α L → Prop
  | start {d : DeltaRequest α L} (h : d.Started) : DeltaRun meets d
  | step {d d' : DeltaRequest α L} (event : DeltaEvent α L) (h : DeltaRun meets d)
      (hevent : d.Admissible event) (hmeets : meets d event) (hd : d.step event = .ok d') :
      DeltaRun meets d'

end LoptVllm.Frontend
