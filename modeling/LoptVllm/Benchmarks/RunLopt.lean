import LoptVllm.Lopt.ChunkGeometry
import LoptVllm.Lopt.Wrapper

/-!
# The benchmark

`ParallelTokenizer` of `run_lopt.py`, which compares the parallel tokenizer with the serial one on
one prompt. `check_overlap` returns a pair or a string, and `query_llm` unpacks what it gets.

Times are not part of the model, but whether there is one is: the dictionary of a `timer` gets its
key when its block is left. A call that makes chunks is run with a number of rounds, and has no
result if they are not enough.
-/

namespace LoptVllm.Benchmarks

open Lopt

/-- The tokenizer of `AutoTokenizer.from_pretrained`: what it encodes a text into, with and without
special tokens, and the further keys of its encodings, with a value for each token. -/
structure AutoTokenizer (α : Type) where
  encode : List α → List Token
  encodeSpecial : List α → List ℤ
  decode : List ℤ → List α
  perToken : List (String × (Token → ℤ))
  offset_notMem : "offset_mapping" ∉ perToken.map Prod.fst

/-- `BatchEncoding`, with arrays. -/
abbrev BatchEncoding := List (String × NdArray)

/-- The dictionary that `timer()` yields, during its block and after it. -/
inductive Timer
  | running
  | stopped

/-- `t["elapsed"]`; the times themselves are left out. -/
def Timer.elapsed : Timer → Except PyErr Unit
  | running => .error (.keyError "elapsed")
  | stopped => .ok ()

/-- What `check_overlap` returns: an encoding and its timings, or a string. -/
inductive Checked
  | pair (encoding : BatchEncoding)
  | str (s : String)

/-- The value of a name that an element of what `check_overlap` returned is assigned to. -/
inductive Value
  | encoding (encoding : BatchEncoding)
  | str (s : String)

/-- `res, tinfo = ...`, of which the timings are left out. A string is unpacked into its
characters. -/
def unpack : Checked → Except PyErr Value
  | .pair encoding => .ok (.encoding encoding)
  | .str s =>
    match s.toList with
    | [c, _] => .ok (.str (String.singleton c))
    | _ :: _ :: _ => .error (.valueError "too many values to unpack (expected 2)")
    | _ => .error (.valueError "not enough values to unpack (expected 2)")

/-- `res != s`. -/
def Value.ne (s : String) : Value → Bool
  | encoding _ => true
  | str t => t ≠ s

/-- `_cpp_match_wrapper`. -/
def cppMatchWrapper (tokensA tokensB : List ℤ) (chunkSize : ℕ) : Except PyErr (ℤ × ℤ) :=
  let res := cppMatch tokensA tokensB chunkSize 2
  if res.1 < 0 then .error (.runtimeError "C++ match returned error") else .ok res

/-- `args`. -/
structure Args where
  chunkSize : ℤ
  seqLen : ℤ
  nProc : ℕ
  nProc_pos : 0 < nProc

/-- `TokenizationMetrics` without the times. -/
structure TokenizationMetrics where
  chunkNum : ℕ
  matchAttempts : ℕ
  equal : ℕ
  deriving DecidableEq, Repr

variable {α : Type}

namespace AutoTokenizer

variable (tok : AutoTokenizer α)

/-- The keys of an encoding other than `offset_mapping`, with their value at each token. -/
def fields : List (String × (Token → ℤ)) := ("input_ids", Token.id) :: tok.perToken

/-- `_tokenize_chunk`. -/
def tokenizeChunk (text : List α) : BatchEncoding :=
  let tokens := tok.encode text
  (tok.fields.map fun p => (p.1, ⟨[1, tokens.length], tokens.map p.2⟩)) ++
    [("offset_mapping", ⟨[1, tokens.length, 2],
      tokens.flatMap fun t => [(t.start : ℤ), (t.stop : ℤ)]⟩)]

/-- `tokenizer(text, return_tensors="pt", add_special_tokens=False)["input_ids"]`. -/
def serialIds (text : List α) : NdArray :=
  ⟨[1, (tok.encode text).length], (tok.encode text).map Token.id⟩

/-- The only shard is returned as it is, with an axis more. The time of the whole call is read
while its block still runs. -/
def checkSingle (shard : BatchEncoding) : Except PyErr Checked := do
  let result := (shard.filter (·.1 ≠ "offset_mapping")).map fun p => (p.1, p.2.newaxis)
  Timer.running.elapsed
  return .pair result

/-- The flat list of the results of matching, with the outer ends of the first and the last shard. -/
def flatten (tokensShards : List (List ℤ)) (rs : List (ℤ × ℤ)) : Except PyErr (List ℤ) :=
  (reduceMatches rs).map fun flat => ((tokensShards.headD []).length : ℤ) :: flat ++ [0]

/-- The array that the values of all shards under a key are merged into. -/
def mergeKey (shards : List BatchEncoding) (ms : List ℤ) (key : String) :
    Except PyErr (String × NdArray) := do
  let bufs ← shards.mapM fun shard => (getKey shard key).map NdArray.data
  let merged ← cppMerge bufs ms
  return (key, NdArray.newaxis ⟨[merged.length], merged⟩)

/-- Several shards are matched and merged. -/
def checkShards (chunkSize : ℕ) (shards : List BatchEncoding) : Except PyErr Checked := do
  let tokensShards ← shards.mapM fun shard =>
    (getKey shard "offset_mapping").map fun a => everyOther a.data
  match (pairs tokensShards).mapM fun p => cppMatchWrapper p.1 p.2 chunkSize with
  | .error _ => return .str "match failed"
  | .ok rs => do
    let ms ← flatten tokensShards rs
    let merged ← (((shards.headD []).map Prod.fst).filter (· ≠ "offset_mapping")).mapM
      (mergeKey shards ms)
    Timer.stopped.elapsed
    return .pair merged

/-- `check_overlap` from the tokenized chunks on. -/
def checkTokenized (chunkSize : ℕ) : List BatchEncoding → Except PyErr Checked
  | [shard] => checkSingle shard
  | shards => checkShards chunkSize shards

/-- `check_overlap`. -/
def checkOverlap (prompt : List α) (overlap chunkSize fuel : ℕ) : Option (Except PyErr Checked) :=
  (stringChunks chunkSize overlap fuel prompt).map fun textChunks =>
    checkTokenized chunkSize (textChunks.map tok.tokenizeChunk)

/-- The initial `chunk_size` of `query_llm`. -/
def initialChunkSize (args : Args) (prompt : List α) : ℕ :=
  if args.chunkSize < 0 then max (prompt.length / args.nProc) 2048
  else min args.chunkSize.toNat prompt.length

/-- `processed_prompt`; `space` is the character that separates the copies of a prompt that is too
short. -/
def processedPrompt (space : α) (args : Args) (prompt : List α) : Except PyErr (List α) :=
  if 0 < args.seqLen then
    let inputIds := tok.encodeSpecial prompt
    if args.seqLen < inputIds.length then
      .ok (tok.decode (sliceTo inputIds (args.seqLen / 2) ++ sliceFrom inputIds (-args.seqLen / 2)))
    else if inputIds.length = 0 then .error .zeroDivisionError
    else
      let repeatTimes := args.seqLen / inputIds.length + 1
      .ok (List.replicate repeatTimes.toNat (prompt ++ [space])).flatten
  else .ok prompt

/-- The local variables of `query_llm` after its loop. -/
structure Attempts where
  resultEncoding : Option Value
  chunkSize : ℕ
  attempt : ℕ

/-- The loop of `query_llm`. -/
def queryLoop (processed : List α) (overlap chunksFuel : ℕ) :
    ℕ → ℕ → ℕ → Option (Except PyErr Attempts)
  | 0, _, _ => none
  | fuel + 1, chunkSize, attempt =>
    if chunkSize ≤ processed.length then
      match tok.checkOverlap processed overlap chunkSize chunksFuel with
      | none => none
      | some checked =>
        match checked >>= unpack with
        | .error e => some (.error e)
        | .ok res =>
          if res.ne "match_failed" then some (.ok ⟨some res, chunkSize, attempt + 1⟩)
          else queryLoop processed overlap chunksFuel fuel (min (chunkSize * 2) processed.length)
            (attempt + 1)
    else some (.ok ⟨none, chunkSize, attempt⟩)

/-- The `input_ids` of `result_encoding`, which is compared, and the metrics. -/
structure QueryResult where
  inputIds : NdArray
  metrics : TokenizationMetrics

/-- `result["input_ids"]`. -/
def inputIds : Value → Except PyErr NdArray
  | .encoding encoding => getKey encoding "input_ids"
  | .str _ => .error (.typeError "string indices must be integers, not 'str'")

/-- The comparison of `query_llm`. Without a result, the serial encoding is taken for it. -/
def compare (serial : NdArray) (attempts : Attempts) : Except PyErr QueryResult :=
  match attempts.resultEncoding with
  | none => .ok ⟨serial, 0, 0, 0⟩
  | some result => do
    let ids ← inputIds result
    if attempts.chunkSize = 0 then .error .zeroDivisionError
    else
      let chunkNum := (ids.shape.headD 0) / attempts.chunkSize + 1
      return ⟨ids, chunkNum, attempts.attempt, if serial = ids then 1 else 0⟩

/-- `query_llm`. -/
def queryLlm (space : α) (args : Args) (prompt : List α) (fuel chunksFuel : ℕ) :
    Option (Except PyErr QueryResult) :=
  let chunkSize := initialChunkSize args prompt
  match tok.processedPrompt space args prompt with
  | .error e => some (.error e)
  | .ok processed =>
    (tok.queryLoop processed (chunkSize / 8) chunksFuel fuel chunkSize 0).map fun attempts =>
      attempts >>= compare (tok.serialIds processed)

end AutoTokenizer

end LoptVllm.Benchmarks
