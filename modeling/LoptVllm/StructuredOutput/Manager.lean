import LoptVllm.Lib.Automaton
import LoptVllm.Lib.OrderedDict
import LoptVllm.Python

/-!
# The bitmasks of structured output

A grammar is a matcher of an automaton. The masks of all structured requests are written into the
rows of one tensor, a row for each draft token and one more for the token after the drafts.
-/

namespace LoptVllm.StructuredOutput

variable {ρ σ Mask : Type}

/-- `StructuredOutputRequest`. The grammar is compiled before the request is scheduled. -/
structure StructuredOutputRequest (σ : Type) where
  grammar : Matcher σ
  reasoningEnded : Option Bool

/-- `Request`. -/
structure Request (σ : Type) where
  promptTokenIds : List ℤ
  structuredOutputRequest : Option (StructuredOutputRequest σ)

variable (r : Request σ)

/-- `use_structured_output`. -/
def Request.useStructuredOutput : Bool := r.structuredOutputRequest.isSome

/-- The grammar of a request. -/
def Request.grammar : Option (Matcher σ) := r.structuredOutputRequest.map (·.grammar)

/-- The grammar of a request is changed in place. -/
def Request.setGrammar (grammar : Matcher σ) : Request σ :=
  { r with structuredOutputRequest :=
      r.structuredOutputRequest.map fun s => { s with grammar := grammar } }

/-- `StructuredOutputManager`, with what it reads of the configuration. -/
structure StructuredOutputManager (Mask : Type) where
  /-- `backend is not None`. -/
  hasBackend : Bool
  /-- `reasoner.is_reasoning_end`. -/
  reasoner : Option (List ℤ → Bool)
  enableInReasoning : Bool
  maxNumSeqs : ℕ
  /-- `speculative_config.num_speculative_tokens`. -/
  numSpeculativeTokens : Option ℕ
  fillBitmaskParallelThreshold : ℕ
  grammarBitmask : Option (List Mask)

/-- `fill_bitmask_parallel_batch_size`. -/
def fillBitmaskParallelBatchSize : ℕ := 16

/-- A row that is to be filled: the grammar, the index and `apply_bitmask`. -/
abbrev Fill (σ : Type) := Matcher σ × ℕ × Bool

/-- The order in which the threads of the pool fill the rows. -/
structure FillOrder (σ : Type) where
  list : List (Fill σ) → List (Fill σ)
  perm : ∀ l, (list l).Perm l

variable (A : Automaton σ ℤ Mask) (full : Mask)

/-- `_fill_bitmasks`. -/
def fillBitmasks (bitmask : List Mask) (batch : List (Fill σ)) : Except PyErr (List Mask) :=
  batch.foldlM (fun bitmask (grammar, index, applyBitmask) =>
    if index < bitmask.length then
      .ok (bitmask.set index (if applyBitmask = true ∧ A.isTerminated grammar.state = false then
        A.mask grammar.state else full))
    else .error (.indexError "")) bitmask

/-- A request while its rows are filled. -/
structure Filling (σ Mask : Type) where
  bitmask : List Mask
  grammar : Matcher σ
  cumulativeIndex : ℕ
  applyBitmask : Bool
  stateAdvancements : ℕ

/-- The grammar accepts a draft token whose row has been filled. -/
def acceptDraft (f : Filling σ Mask) (token : ℤ) : Except PyErr (Filling σ Mask) :=
  if f.applyBitmask = true ∧ A.isTerminated f.grammar.state = false then
    let (accepted, grammar) := f.grammar.acceptTokens A [token]
    if accepted then
      .ok { f with
        grammar := grammar
        stateAdvancements := f.stateAdvancements + 1 }
    else .error (.assertionError "")
  else .ok f

/-- The row of a draft token is filled, and the grammar accepts the token. -/
def fillToken (f : Filling σ Mask) (token : ℤ) : Except PyErr (Filling σ Mask) := do
  let bitmask ← fillBitmasks A full f.bitmask [(f.grammar, f.cumulativeIndex, f.applyBitmask)]
  acceptDraft A { f with
    bitmask := bitmask
    applyBitmask := if token = -1 then false else f.applyBitmask
    cumulativeIndex := f.cumulativeIndex + 1 } token

namespace StructuredOutputManager

variable (m : StructuredOutputManager Mask)

/-- `should_fill_bitmask`, and the request afterwards. -/
def shouldFillBitmask (r : Request σ) : Except PyErr (Bool × Request σ) := match m.reasoner with
  | none => .ok (true, r)
  | some isReasoningEnd =>
    if m.enableInReasoning then .ok (true, r)
    else match r.structuredOutputRequest with
      | none => .error (.assertionError "")
      | some s =>
        let reasoningEnded := s.reasoningEnded.getD (isReasoningEnd r.promptTokenIds)
        .ok (reasoningEnded, { r with
          structuredOutputRequest := some { s with reasoningEnded := some reasoningEnded } })

variable [DecidableEq ρ]

/-- The state of the loops over the requests. -/
structure Rows (ρ σ Mask : Type) where
  bitmask : List Mask
  cumulativeIndex : ℕ
  requests : OrderedDict ρ (Request σ)

variable (scheduledSpecDecodeTokens : OrderedDict ρ (List ℤ))

/-- The rows of a request are filled, and its grammar goes back. -/
def fillRequest (rows : Rows ρ σ Mask) (reqId : ρ) : Except PyErr (Rows ρ σ Mask) :=
  match rows.requests.lookup reqId with
  | none => .error (.keyError "")
  | some request =>
    match request.grammar with
    | none => .error (.attributeError "")
    | some grammar => do
      let (applyBitmask, request) ← m.shouldFillBitmask request
      let reqTokens := (scheduledSpecDecodeTokens.lookup reqId).getD []
      let f ← (reqTokens ++ [-1]).foldlM (fillToken A full)
        ⟨rows.bitmask, grammar, rows.cumulativeIndex, applyBitmask, 0⟩
      let grammar ← if 0 < f.stateAdvancements then
          match f.grammar.rollback f.stateAdvancements with
          | none => .error (.runtimeError "")
          | some grammar => .ok grammar
        else .ok f.grammar
      return ⟨f.bitmask, f.cumulativeIndex, rows.requests.setItem reqId (request.setGrammar grammar)⟩

/-- The state of the loop that collects the rows for the pool. -/
structure Batches (ρ σ : Type) where
  promises : List (List (Fill σ))
  batch : List (Fill σ)
  cumulativeIndex : ℕ
  requests : OrderedDict ρ (Request σ)

/-- The row of a request is added to the batch, which is submitted when it is long enough. -/
def addToBatch (b : Batches ρ σ) (reqId : ρ) : Except PyErr (Batches ρ σ) :=
  match b.requests.lookup reqId with
  | none => .error (.keyError "")
  | some request =>
    match request.grammar with
    | none => .error (.attributeError "")
    | some grammar => do
      let (applyBitmask, request) ← m.shouldFillBitmask request
      let batch := b.batch ++ [(grammar, b.cumulativeIndex, applyBitmask)]
      let requests := b.requests.setItem reqId request
      if m.maxNumSeqs ≤ m.fillBitmaskParallelThreshold then .error (.attributeError "")
      else if batch.length = fillBitmaskParallelBatchSize then
        return ⟨b.promises ++ [batch], [], b.cumulativeIndex + 1, requests⟩
      else return ⟨b.promises, batch, b.cumulativeIndex + 1, requests⟩

/-- The tensor, which is allocated at the first call. -/
def allocate (maxNumSpecTokens : ℕ) : Except PyErr (List Mask) := match m.grammarBitmask with
  | some bitmask => .ok bitmask
  | none =>
    if m.hasBackend then .ok (.replicate (m.maxNumSeqs * (1 + maxNumSpecTokens)) full)
    else .error (.assertionError "")

/-- The rows are filled by the threads of the pool. -/
def fillParallel (order : FillOrder σ) (structuredOutputRequestIds : List ρ)
    (rows : Rows ρ σ Mask) : Except PyErr (Rows ρ σ Mask) := do
  let b ← structuredOutputRequestIds.foldlM m.addToBatch ⟨[], [], rows.cumulativeIndex, rows.requests⟩
  let promises := if b.batch = [] then b.promises else b.promises ++ [b.batch]
  let bitmask ← fillBitmasks A full rows.bitmask (order.list promises.flatten)
  return ⟨bitmask, b.cumulativeIndex, b.requests⟩

/-- The rows are filled one request after the other. -/
def fillSerial (structuredOutputRequestIds : List ρ) (rows : Rows ρ σ Mask) :
    Except PyErr (Rows ρ σ Mask) :=
  structuredOutputRequestIds.foldlM (m.fillRequest A full scheduledSpecDecodeTokens) rows

/-- `grammar_bitmask`. -/
def grammarBitmaskOf (order : FillOrder σ) (requests : OrderedDict ρ (Request σ))
    (structuredOutputRequestIds : List ρ) (scheduledSpecDecodeTokens : OrderedDict ρ (List ℤ)) :
    Except PyErr (Option (List Mask) × StructuredOutputManager Mask × OrderedDict ρ (Request σ)) :=
  if structuredOutputRequestIds = [] then .ok (none, m, requests)
  else do
    let maxNumSpecTokens := m.numSpeculativeTokens.getD 0
    let bitmask ← m.allocate full maxNumSpecTokens
    let rows := ⟨bitmask, 0, requests⟩
    let rows ← if m.fillBitmaskParallelThreshold < structuredOutputRequestIds.length ∧
        maxNumSpecTokens = 0 then
        m.fillParallel A full order structuredOutputRequestIds rows
      else
        m.fillSerial A full scheduledSpecDecodeTokens structuredOutputRequestIds rows
    return (some (rows.bitmask.take rows.cumulativeIndex),
      { m with grammarBitmask := some rows.bitmask }, rows.requests)

end StructuredOutputManager

/-! ### The scheduler -/

/-- `SchedulerOutput`. -/
structure SchedulerOutput (ρ : Type) where
  numScheduledTokens : OrderedDict ρ ℕ
  scheduledSpecDecodeTokens : OrderedDict ρ (List ℤ)

/-- `GrammarOutput`. -/
structure GrammarOutput (ρ Mask : Type) where
  structuredOutputRequestIds : List ρ
  grammarBitmask : Option (List Mask)

variable [DecidableEq ρ]

/-- The scheduled requests that use structured output. -/
def structuredOutputRequestIds (requests : OrderedDict ρ (Request σ)) (output : SchedulerOutput ρ) :
    List ρ :=
  (output.numScheduledTokens.items.map Prod.fst).filter fun reqId =>
    ((requests.lookup reqId).map Request.useStructuredOutput).getD false

/-- `Scheduler.get_grammar_bitmask`. -/
def getGrammarBitmask (m : StructuredOutputManager Mask) (order : FillOrder σ)
    (requests : OrderedDict ρ (Request σ)) (output : SchedulerOutput ρ) :
    Except PyErr (Option (GrammarOutput ρ Mask) × StructuredOutputManager Mask ×
      OrderedDict ρ (Request σ)) :=
  let ids := structuredOutputRequestIds requests output
  if ids = [] then .ok (none, m, requests)
  else do
    let (bitmask, m, requests) ←
      m.grammarBitmaskOf A full order requests ids output.scheduledSpecDecodeTokens
    return (some ⟨ids, bitmask⟩, m, requests)

end LoptVllm.StructuredOutput
