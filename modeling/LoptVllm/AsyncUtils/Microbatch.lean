import LoptVllm.Lib.OrderedDict
import LoptVllm.Python

/-!
# `AsyncMicrobatchTokenizer`

The callers put their requests into queues, one for each key; a batcher task for each queue takes
requests out of it, and one blocking call in the executor answers all it has taken.

A task that waits is woken by a new request, by its timeout, or by the executor; which of them
comes first is left open: a move says which task moves and how.
-/

namespace LoptVllm.AsyncUtils

/-- The value of a keyword argument, as far as `_queue_key` looks at it. Any other object has its
identity, its truth value, and whether it can be hashed. -/
inductive KwValue
  | none
  | bool (b : Bool)
  | int (n : ℤ)
  | str (s : String)
  | other (id : ℕ) (truthy hashable : Bool)
  deriving DecidableEq, Repr

namespace KwValue

/-- `bool(v)`. -/
def truthy : KwValue → Bool
  | .none => false
  | .bool b => b
  | .int n => n ≠ 0
  | .str s => s ≠ ""
  | .other _ truthy _ => truthy

def hashable : KwValue → Bool
  | .other _ _ hashable => hashable
  | _ => true

/-- `True == 1` and `False == 0`, also as keys of a dict. -/
def normalized : KwValue → KwValue
  | .bool b => .int b.toNat
  | v => v

end KwValue

abbrev Kwargs := OrderedDict String KwValue

/-- `kwargs.get(name, default)`. -/
def Kwargs.get (kwargs : Kwargs) (name : String) (default : KwValue) : KwValue :=
  (kwargs.lookup name).getD default

/-- The keys of the encode queues. -/
inductive QueueKey
  | encode (addSpecialTokens : KwValue) (truncation : Bool) (maxLength : Option String)
  | other
  deriving DecidableEq, Repr

/-- `key[1] != "other"`. -/
def QueueKey.canBatch : QueueKey → Bool
  | .encode addSpecialTokens _ _ => addSpecialTokens ≠ .str "other"
  | .other => false

/-- Whether the tuple can be looked up in `_queues`. -/
def QueueKey.hashable : QueueKey → Bool
  | .encode addSpecialTokens _ _ => addSpecialTokens.hashable
  | .other => true

/-- The wrapped tokenizer: a prompt, or token ids, alone with keyword arguments, and in batches.
`modelMaxLength` is `getattr(tokenizer, "model_max_length", None)`. -/
structure Tokenizer (P I W T : Type*) where
  modelMaxLength : KwValue
  call : P → Kwargs → Except PyErr (OrderedDict String W)
  callBatch : List P → Kwargs → Except PyErr (OrderedDict String (List W))
  decode : I → Kwargs → Except PyErr T
  batchDecode : List I → Except PyErr (List T)

variable {P I W T : Type*}

/-- `_queue_key("encode", kwargs)`. -/
def queueKey (tokenizer : Tokenizer P I W T) (kwargs : Kwargs) : QueueKey :=
  let addSpecialTokens := kwargs.get "add_special_tokens" (.bool true)
  let truncation := kwargs.get "truncation" (.bool false)
  let maxLength := kwargs.get "max_length" .none
  if !truncation.truthy then
    .encode addSpecialTokens.normalized false none
  else
    let modelMax := tokenizer.modelMaxLength
    if maxLength = .none ∨ (modelMax ≠ .none ∧ maxLength.normalized = modelMax.normalized) then
      .encode addSpecialTokens.normalized true (some "model_max")
    else .other

/-- What a future is resolved with. -/
inductive Answer (W T : Type*)
  | encoding (data : OrderedDict String W)
  | text (t : T)

/-- The resolved futures, in the order of `set_result` and `set_exception`. -/
abbrev Answers (W T : Type*) := List (ℕ × Except PyErr (Answer W T))

/-- `fut.done()`. -/
def Answers.done (answers : Answers W T) (fut : ℕ) : Bool := fut ∈ answers.map Prod.fst

/-- `for fut, res in ..: if not fut.done(): fut.set_result(res)`; a result that raises when it is
built stops the loop. -/
def Answers.setResults (answers : Answers W T) :
    List (ℕ × Except PyErr (Answer W T)) → Answers W T × Option PyErr
  | [] => (answers, none)
  | (fut, res) :: rest =>
    if answers.done fut then Answers.setResults answers rest
    else
      match res with
      | .ok res => Answers.setResults (answers ++ [(fut, .ok res)]) rest
      | .error e => (answers, some e)

/-- `for fut in result_futures: if not fut.done(): fut.set_exception(e)`. -/
def Answers.setException (answers : Answers W T) (e : PyErr) : List ℕ → Answers W T
  | [] => answers
  | fut :: rest =>
    if answers.done fut then Answers.setException answers e rest
    else Answers.setException (answers ++ [(fut, .error e)]) e rest

/-- The `try` statement of the loops: the blocking call gives the results to set, or it raises. -/
def Answers.resolve (answers : Answers W T) (resultFutures : List ℕ)
    (results : Except PyErr (List (ℕ × Except PyErr (Answer W T)))) : Answers W T :=
  match results with
  | .error e => answers.setException e resultFutures
  | .ok results =>
    match answers.setResults results with
    | (answers, none) => answers
    | (answers, some e) => answers.setException e resultFutures

/-- `{k: v[i] for k, v in results.items()}`. -/
def entry (results : OrderedDict String (List W)) (i : ℕ) : Except PyErr (OrderedDict String W) :=
  results.items.foldlM (fun data kv =>
    match kv.2[i]? with
    | some v => .ok (data.setItem kv.1 v)
    | none => .error (.indexError "list index out of range")) ∅

/-- `_batch_encode_loop` with its queue. Without a batch the lists are empty. -/
structure EncodeBatcher (P : Type*) where
  canBatch : Bool
  queue : List (P × Kwargs × ℕ)
  prompts : List P
  kwargsList : List Kwargs
  kwargs : Kwargs
  resultFutures : List ℕ

/-- `_batch_decode_loop` with its queue. -/
structure DecodeBatcher (I : Type*) where
  queue : List (I × ℕ)
  tokenIdsList : List I
  resultFutures : List ℕ

/-- A new queue with its task. -/
def EncodeBatcher.new (canBatch : Bool) : EncodeBatcher P := ⟨canBatch, [], [], [], ∅, []⟩

variable (b : EncodeBatcher P)

def EncodeBatcher.put (item : P × Kwargs × ℕ) : EncodeBatcher P :=
  { b with queue := b.queue ++ [item] }

/-- `queue.get()`: the first of a batch, or one more before the timeout. -/
def EncodeBatcher.get (maxBatchSize : ℕ) : Option (EncodeBatcher P) :=
  match b.queue with
  | [] => none
  | (prompt, kwargs, fut) :: queue =>
    if b.prompts.isEmpty then
      some { b with
        queue := queue
        prompts := [prompt]
        kwargsList := [kwargs]
        kwargs := kwargs
        resultFutures := [fut] }
    else if b.prompts.length < maxBatchSize then
      some { b with
        queue := queue
        prompts := b.prompts ++ [prompt]
        kwargsList := if b.canBatch then b.kwargsList else b.kwargsList ++ [kwargs]
        kwargs := kwargs
        resultFutures := b.resultFutures ++ [fut] }
    else none

/-- What the executor gives for the batch. -/
def EncodeBatcher.results (tokenizer : Tokenizer P I W T) :
    Except PyErr (List (ℕ × Except PyErr (Answer W T))) :=
  if b.canBatch ∧ 1 < b.prompts.length then
    (tokenizer.callBatch b.prompts b.kwargs).map fun results =>
      b.resultFutures.zipIdx.map fun (fut, i) => (fut, (entry results i).map .encoding)
  else
    let results : Except PyErr (List (OrderedDict String W)) :=
      (b.prompts.zip b.kwargsList).mapM fun (p, kw) => tokenizer.call p kw
    results.map fun results => b.resultFutures.zip (results.map fun res => .ok (.encoding res))

/-- The loop starts again. -/
def EncodeBatcher.restart : EncodeBatcher P :=
  { b with
    prompts := []
    kwargsList := []
    resultFutures := [] }

/-- A new queue with its task. -/
def DecodeBatcher.new : DecodeBatcher I := ⟨[], [], []⟩

def DecodeBatcher.put (b : DecodeBatcher I) (item : I × ℕ) : DecodeBatcher I :=
  { b with queue := b.queue ++ [item] }

def DecodeBatcher.get (b : DecodeBatcher I) (maxBatchSize : ℕ) : Option (DecodeBatcher I) :=
  match b.queue with
  | [] => none
  | (tokenIds, fut) :: queue =>
    if b.tokenIdsList.isEmpty ∨ b.tokenIdsList.length < maxBatchSize then
      some ⟨queue, b.tokenIdsList ++ [tokenIds], b.resultFutures ++ [fut]⟩
    else none

def DecodeBatcher.results (b : DecodeBatcher I) (tokenizer : Tokenizer P I W T) :
    Except PyErr (List (ℕ × Except PyErr (Answer W T))) :=
  (tokenizer.batchDecode b.tokenIdsList).map fun results =>
    b.resultFutures.zip (results.map fun res => .ok (.text res))

def DecodeBatcher.restart (b : DecodeBatcher I) : DecodeBatcher I :=
  { b with
    tokenIdsList := []
    resultFutures := [] }

/-- A call of the public API. -/
inductive Call (P I : Type*)
  | encode (prompt : P) (kwargs : Kwargs)
  | decode (tokenIds : I) (kwargs : Kwargs)

/-- The tokenizer's queues, the calls so far and the answers so far. The future of a call is its
place in `calls`. `_queues` is split by the operation of the key: the decode queue has one key. -/
structure AsyncMicrobatchTokenizer (P I W T : Type*) where
  encodeQueues : OrderedDict QueueKey (EncodeBatcher P)
  decodeQueue : Option (DecodeBatcher I)
  calls : List (Call P I)
  answers : Answers W T

/-- A move of a batcher task: it takes a request out of its queue, or the executor answers its
batch. -/
inductive Move
  | getEncode (key : QueueKey)
  | runEncode (key : QueueKey)
  | getDecode
  | runDecode
  deriving DecidableEq, Repr

inductive Event (P I : Type*)
  | call (prompt : P) (kwargs : Kwargs)
  | decode (tokenIds : I) (kwargs : Kwargs)
  | move (m : Move)

namespace AsyncMicrobatchTokenizer

def new : AsyncMicrobatchTokenizer P I W T := ⟨∅, none, [], []⟩

/-- `_get_queue` for an encode key. -/
def getQueue (s : AsyncMicrobatchTokenizer P I W T) (key : QueueKey) : EncodeBatcher P :=
  (s.encodeQueues.lookup key).getD (.new key.canBatch)

variable (tokenizer : Tokenizer P I W T) (s : AsyncMicrobatchTokenizer P I W T)

/-- `__call__` up to the wait for its future. A key that cannot be hashed raises in
`self._queues.get(key)`, and the caller gets that exception. -/
def call (prompt : P) (kwargs : Kwargs) : AsyncMicrobatchTokenizer P I W T :=
  let fut := s.calls.length
  let calls := s.calls ++ [.encode prompt kwargs]
  let key := queueKey tokenizer kwargs
  if key.hashable then
    { s with
      calls := calls
      encodeQueues := s.encodeQueues.setItem key ((s.getQueue key).put (prompt, kwargs, fut)) }
  else
    { s with
      calls := calls
      answers := s.answers ++ [(fut, .error (.typeError "unhashable type"))] }

/-- `decode` up to the wait for its future. -/
def decode (tokenIds : I) (kwargs : Kwargs) : AsyncMicrobatchTokenizer P I W T :=
  { s with
    calls := s.calls ++ [.decode tokenIds kwargs]
    decodeQueue := some ((s.decodeQueue.getD .new).put (tokenIds, s.calls.length)) }

/-- `none` when the task cannot move so. -/
def move (maxBatchSize : ℕ)
    (s : AsyncMicrobatchTokenizer P I W T) : Move → Option (AsyncMicrobatchTokenizer P I W T)
  | .getEncode key =>
    (s.encodeQueues.lookup key).bind fun b => (b.get maxBatchSize).map fun b' =>
      { s with encodeQueues := s.encodeQueues.setItem key b' }
  | .runEncode key =>
    (s.encodeQueues.lookup key).bind fun b =>
      if b.prompts.isEmpty then none
      else some { s with
        encodeQueues := s.encodeQueues.setItem key b.restart
        answers := s.answers.resolve b.resultFutures (b.results tokenizer) }
  | .getDecode =>
    s.decodeQueue.bind fun b => (b.get maxBatchSize).map fun b' =>
      { s with decodeQueue := some b' }
  | .runDecode =>
    s.decodeQueue.bind fun b =>
      if b.tokenIdsList.isEmpty then none
      else some { s with
        decodeQueue := some b.restart
        answers := s.answers.resolve b.resultFutures (b.results tokenizer) }

def step (maxBatchSize : ℕ)
    (s : AsyncMicrobatchTokenizer P I W T) :
    Event P I → Option (AsyncMicrobatchTokenizer P I W T)
  | .call prompt kwargs => some (s.call tokenizer prompt kwargs)
  | .decode tokenIds kwargs => some (s.decode tokenIds kwargs)
  | .move m => s.move tokenizer maxBatchSize m

end AsyncMicrobatchTokenizer

end LoptVllm.AsyncUtils
