import Mathlib.Data.List.FinRange
import LoptVllm.Python

/-!
# `MultiprocExecutor`

The executor broadcasts its calls in one queue; each worker answers the calls that address it in a
response queue of its own. A call is matched with its responses by position only.

A response carries the number of its call, which no modelled function reads.
-/

namespace LoptVllm.Executor

open Function

/-- `(status, result)` in a response queue; `.error` is a `FAILURE` with the exception's text. -/
structure Response (R : Type*) where
  call : ℕ
  result : Except String R

/-- What a call returns: the response of one worker, those of all, or the aggregated ones. -/
inductive Reply (R V : Type*)
  | single (r : R)
  | all (rs : List R)
  | aggregated (v : V)

/-- The arguments of `collective_rpc`. `kvOutputAggregator` is `aggregate(outputs, output_rank)`. -/
structure RpcCall (n : ℕ) (R V : Type*) where
  nonBlock : Bool
  uniqueReplyRank : Option (Fin n)
  kvOutputAggregator : Option (List R → ℕ → Except PyErr V)

variable {n : ℕ} {R V : Type*}

namespace RpcCall

variable (call : RpcCall n R V)

/-- `output_rank`: every worker replies to an aggregator. -/
def outputRank : Option (Fin n) :=
  if call.kvOutputAggregator.isSome then none else call.uniqueReplyRank

/-- `output_rank is None or self.rank == output_rank`, in the worker. -/
def addresses (rank : Fin n) : Bool :=
  call.outputRank = none ∨ call.outputRank = some rank

/-- The response queues the call reads, in order. -/
def responseMqs : List (Fin n) := match call.outputRank with
  | some rank => [rank]
  | none => List.finRange n

/-- `aggregate(get_response())`, when no response was a failure. -/
def aggregate (responses : List R) : Except PyErr (Reply R V) :=
  match call.kvOutputAggregator with
  | some aggregate =>
    (aggregate responses (call.uniqueReplyRank.elim 0 Fin.val)).map .aggregated
  | none =>
    match call.outputRank, responses with
    | none, responses => .ok (.all responses)
    | some _, r :: _ => .ok (.single r)
    | some _, [] => .error (.indexError "list index out of range")

end RpcCall

/-- How a call ended: the responses it has read, and what it returned or raised. -/
structure Outcome (R V : Type*) where
  used : List (Response R)
  result : Except PyErr (Reply R V)

/-- What the executor's thread is doing: nothing, in the blocking call `c`, in `result()` of the
future of call `c`, or out of it by an `IndexError` of `futures_queue.pop()`. -/
inductive Control
  | idle
  | calling (c : ℕ)
  | awaiting (c : ℕ)
  | indexError (c : ℕ)
  deriving DecidableEq, Repr

/-- A `get_response` under way: the queues still to be read, and what was read. -/
structure Reading (n : ℕ) (R : Type*) where
  call : ℕ
  mqs : List (Fin n)
  responses : List (Response R)

/-- The executor and its workers. `calls` is all that was broadcast, `consumed` how many of these
messages a worker has taken; a future is named by its call. -/
structure MultiprocExecutor (n : ℕ) (R V : Type*) where
  calls : List (RpcCall n R V)
  consumed : Fin n → ℕ
  asyncOutputs : Fin n → List (Response R)
  responses : Fin n → List (Response R)
  futuresQueue : List ℕ
  control : Control
  reading : Option (Reading n R)
  done : ℕ → Option (Outcome R V)

/-- The workers: whether they handle outputs in a thread, and what each one gets from a call, or
the text of the exception it raises. -/
structure Workers (n : ℕ) (R : Type*) where
  useAsyncScheduling : Bool
  run : ℕ → Fin n → Except String R

/-- What can happen next. -/
inductive Event (n : ℕ) (R V : Type*)
  | consume (rank : Fin n)
  | flush (rank : Fin n)
  | collectiveRpc (call : RpcCall n R V)
  | awaitResult (c : ℕ)
  | advance

namespace MultiprocExecutor

def new : MultiprocExecutor n R V :=
  ⟨[], fun _ => 0, fun _ => [], fun _ => [], [], .idle, none, fun _ => none⟩

/-! ### The workers -/

/-- One round of `worker_busy_loop`: an exception of the call is handed out like an output. -/
def consume (workers : Workers n R) (s : MultiprocExecutor n R V) (rank : Fin n) :
    Option (MultiprocExecutor n R V) :=
  s.calls[s.consumed rank]?.map fun call =>
    let c := s.consumed rank
    let s := { s with consumed := update s.consumed rank (c + 1) }
    if call.addresses rank then
      let output : Response R := ⟨c, workers.run c rank⟩
      if workers.useAsyncScheduling then
        { s with asyncOutputs :=
            update s.asyncOutputs rank (s.asyncOutputs rank ++ [output]) }
      else
        { s with responses := update s.responses rank (s.responses rank ++ [output]) }
    else s

variable (s : MultiprocExecutor n R V)

/-- One round of `async_output_busy_loop`. -/
def flush (rank : Fin n) : Option (MultiprocExecutor n R V) :=
  match s.asyncOutputs rank with
  | [] => none
  | output :: outputs => some { s with
      asyncOutputs := update s.asyncOutputs rank outputs
      responses := update s.responses rank (s.responses rank ++ [output]) }

/-! ### The executor's thread -/

/-- `collective_rpc` up to its first wait. `futures_queue.appendleft` is a cons. -/
def collectiveRpc (call : RpcCall n R V) : Option (MultiprocExecutor n R V) :=
  if s.control = .idle then
    let c := s.calls.length
    let s := { s with calls := s.calls ++ [call] }
    if call.nonBlock then some { s with futuresQueue := c :: s.futuresQueue }
    else some { s with control := .calling c }
  else none

/-- `future.result()`, for a future that was returned. -/
def awaitResult (c : ℕ) : Option (MultiprocExecutor n R V) :=
  if s.control = .idle ∧ (s.calls[c]?.any fun call => call.nonBlock) then
    some { s with control := .awaiting c }
  else none

/-- `get_response` of a call begins. -/
def read (c : ℕ) : MultiprocExecutor n R V :=
  { s with reading := s.calls[c]?.map fun call => ⟨c, call.responseMqs, []⟩ }

/-- The call has its result: the future is done, or the blocking call returns or raises. -/
def complete (c : ℕ) (outcome : Outcome R V) : MultiprocExecutor n R V :=
  { s with
    reading := none
    done := update s.done c (some outcome)
    control := if s.control = .calling c then .idle else s.control }

/-- The values of responses that are no failures. -/
def values (responses : List (Response R)) : List R :=
  responses.filterMap fun r => r.result.toOption

/-- One round of the loop in `get_response`, and its end. `none` when the queue is empty. -/
def dequeue (rd : Reading n R) : Option (MultiprocExecutor n R V) :=
  match rd.mqs with
  | [] => s.calls[rd.call]?.map fun call =>
      s.complete rd.call ⟨rd.responses, call.aggregate (values rd.responses)⟩
  | rank :: mqs =>
    match s.responses rank with
    | [] => none
    | r :: rest =>
      let s := { s with responses := update s.responses rank rest }
      match r.result with
      | .error msg => some (s.complete rd.call ⟨rd.responses ++ [r], .error (.runtimeError
          ("Worker failed with error '" ++ msg ++
            "', please check the stack trace above for the root cause"))⟩)
      | .ok _ => some { s with reading := some ⟨rd.call, mqs, rd.responses ++ [r]⟩ }

/-- `futures_queue.pop()`, from the right, and `wait_for_response` begins. -/
def popFuture : Option (MultiprocExecutor n R V) :=
  s.futuresQueue.getLast?.map fun c => read { s with futuresQueue := s.futuresQueue.dropLast } c

/-- The executor's thread goes on; `none` when it does nothing or waits for a worker. -/
def advance : Option (MultiprocExecutor n R V) := match s.reading with
  | some rd => s.dequeue rd
  | none =>
    match s.control with
    | .idle => none
    | .indexError _ => none
    | .calling c =>
      -- first drain any pending futures in the queue
      match s.popFuture with
      | some s' => some s'
      | none => some (s.read c)
    | .awaiting c =>
      if (s.done c).isSome then some { s with control := .idle }
      else
        match s.popFuture with
        | some s' => some s'
        | none => some { s with control := .indexError c }

def step (workers : Workers n R) (s : MultiprocExecutor n R V) :
    Event n R V → Option (MultiprocExecutor n R V)
  | .consume rank => s.consume workers rank
  | .flush rank => s.flush rank
  | .collectiveRpc call => s.collectiveRpc call
  | .awaitResult c => s.awaitResult c
  | .advance => s.advance

end MultiprocExecutor

end LoptVllm.Executor
