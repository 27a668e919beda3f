import LoptVllm.Lopt.Lossless

/-!
# The parallel tokenizer

`LoptParallelTokenizer` of `lopt_wrapper.py`, with the four ways it makes an encoding, and
`parse_raw_prompts`, which turns its `input_ids` into prompts.

The HuggingFace tokenizer is a parameter (`HfTokenizer`): what it encodes a text into, with and
without special tokens, and the further keys of its encodings. Its calling convention is modelled: the
second positional argument is a text pair.
-/

namespace LoptVllm.Lopt

open List Option Function Prod Except

/-! ### `parse_raw_prompts` -/

/-- The `TextPrompt`s and `TokensPrompt`s that `parse_raw_prompts` returns. -/
inductive RawPrompt (α : Type)
  | text (prompt : PyVal α)
  | tokens (promptTokenIds : List (PyVal α))

variable {α : Type}

/-- The check of an element of an array of token arrays. -/
def parseTokenArray : PyVal α → Except PyErr (RawPrompt α)
  | .list xs =>
    if isListOf PyVal.isInt xs then .ok (.tokens xs)
    else .error (.typeError "Nested lists of tokens must contain only integers.")
  | _ => .error (.typeError "prompt must be a list of lists, but found a non-list element.")

/-- `parse_raw_prompts`. -/
def parseRawPrompts : PyVal α → Except PyErr (List (RawPrompt α))
  | .str s => .ok [.text (.str s)]
  | .list [] => .error (.valueError "please provide at least one prompt")
  | .list (x :: xs) =>
    if isListOf PyVal.isStr (x :: xs) then .ok ((x :: xs).map .text)
    else if isListOf PyVal.isInt (x :: xs) then .ok [.tokens (x :: xs)]
    else if isListOf PyVal.isList (x :: xs) then
      match x, xs with
      | .list [], [] => .error (.valueError "please provide at least one prompt")
      | _, _ => (x :: xs).mapM parseTokenArray
    else .error (.typeError
      "prompt must be a string, array of strings, array of tokens, or array of token arrays")
  | _ => .error (.typeError
      "prompt must be a string, array of strings, array of tokens, or array of token arrays")

/-! ### The HuggingFace tokenizer -/

/-- A fast HuggingFace tokenizer: a tokenizer whose tokens may be completed by special ones, and
whose encodings have further keys, with a value for each token. -/
structure HfTokenizer (α : Type) extends Tokenizer α where
  encodeSpecial : List α → List Token
  perToken : List (String × (Token → ℤ))
  /-- The ids of `tokenizer(text, add_special_tokens=..., truncation=True, max_length=...)`. -/
  truncated : List α → Bool → ℕ → List ℤ
  /-- The encoding of a text and a text pair. -/
  encodePair : PyVal α → PyVal α → Bool → Except PyErr (List (String × PyVal α))
  offset_notMem : "offset_mapping" ∉ perToken.map fst
  perToken_shift : ∀ p ∈ perToken, ∀ n t, p.2 (t.shift n) = p.2 t

/-- `_is_valid_text_input` of `transformers`. -/
def isTextInput : PyVal α → Bool
  | .str _ => true
  | .list [] => true
  | .list (.str _ :: _) => true
  | .list (.list [] :: _) => true
  | .list (.list (.str _ :: _) :: _) => true
  | _ => false

namespace HfTokenizer

variable (tok : HfTokenizer α)

/-- The tokens of one text. -/
def tokens (text : List α) (addSpecialTokens : Bool) : List Token :=
  if addSpecialTokens then tok.encodeSpecial text else tok.encode text

variable (text : PyVal α)

/-- The tokens of a text or of a batch of texts, a row each. -/
def tokenRows (addSpecialTokens : Bool) : Except PyErr (List (List Token)) :=
  match text with
  | .str s => .ok [tok.tokens s addSpecialTokens]
  | .list xs => xs.mapM fun
    | .str s => .ok (tok.tokens s addSpecialTokens)
    | _ => .error (.typeError "")
  | _ => .error (.valueError "")

/-- The keys of an encoding other than `offset_mapping`, with their value at each token. -/
def fields : List (String × (Token → ℤ)) := ("input_ids", Token.id) :: tok.perToken

/-- `tokenizer(text, text_pair, add_special_tokens=...)`. -/
def call (text textPair : PyVal α) (addSpecialTokens : Bool) :
    Except PyErr (List (String × PyVal α)) :=
  if !isTextInput text then .error (.valueError "text input must be of type `str` ...")
  else match textPair with
    | .none => do
      let rows ← tok.tokenRows text addSpecialTokens
      let value := fun (f : Token → ℤ) => match text, rows with
        | .str _, [row] => PyVal.ints (row.map f)
        | _, _ => .list (rows.map fun row => .ints (row.map f))
      return tok.fields.map fun p => (p.1, value p.2)
    | _ =>
      if !isTextInput textPair then .error (.valueError "text input must be of type `str` ...")
      else tok.encodePair text textPair addSpecialTokens

/-- The arrays of an encoding with the given rows. -/
def encodingNp (rows : List (List Token)) (returnOffsetsMapping : Bool) : List (String × NdArray) :=
  let n := (rows.headD []).length
  (tok.fields.map fun p => (p.1, ⟨[rows.length, n], rows.flatMap fun row => row.map p.2⟩)) ++
    if returnOffsetsMapping then
      [("offset_mapping", ⟨[rows.length, n, 2],
        rows.flatMap fun row => row.flatMap fun t => [(t.start : ℤ), (t.stop : ℤ)]⟩)]
    else []

/-- `tokenizer(text, return_tensors="np", add_special_tokens=..., return_offsets_mapping=...)`. -/
def callNp (addSpecialTokens returnOffsetsMapping : Bool) :
    Except PyErr (List (String × NdArray)) :=
  if !isTextInput text then .error (.valueError "text input must be of type `str` ...")
  else do
    let rows ← tok.tokenRows text addSpecialTokens
    if rows.all fun row => row.length = (rows.headD []).length then
      return tok.encodingNp rows returnOffsetsMapping
    else .error (.valueError "Unable to create tensor ...")

/-- `_tokenize_chunk`. -/
def tokenizeChunk : Except PyErr (List (String × NdArray)) :=
  tok.callNp text false true

end HfTokenizer

/-! ### `LoptParallelTokenizer` -/

/-- The loop of `chunks` on a list of strings. -/
def chunksBatch (cfg : ChunkConfig) : ℕ → List (List α) → List (List (List α))
  | 0, _ => []
  | fuel + 1, sentence =>
    if sentence.any fun s => !s.isEmpty then
      (sentence.map fun s =>
        if (s.drop cfg.chunkSize).length > 100 then s.take (cfg.overlap + cfg.chunkSize) else s) ::
      chunksBatch cfg fuel (sentence.map fun s =>
        if (s.drop cfg.chunkSize).length > 100 then s.drop cfg.chunkSize else [])
    else []

/-- An element of a batch, of which `chunks` takes slices. -/
def sliceable : PyVal α → Except PyErr (List α)
  | .str s => .ok s
  | _ => .error (.typeError "object is not subscriptable")

/-- `list(chunks(text, chunk_size, overlap))` on any value. The rounds of a batch are as many as
those of its longest string. -/
def chunksPy (cfg : ChunkConfig) : PyVal α → Except PyErr (List (PyVal α))
  | .str s => .ok ((chunks cfg s).map .str)
  | .list [] => .error (.indexError "list index out of range")
  | .list (.str s :: rest) => do
    let strs ← (.str s :: rest).mapM sliceable
    let fuel := (strs.map List.length).foldr max 0 + 1
    return (chunksBatch cfg fuel strs).map fun row => .list (row.map .str)
  | _ => .error (.valueError "Unsupported type for chunks")

/-- `l[::2]`. -/
def everyOther : List ℤ → List ℤ
  | a :: _ :: rest => a :: everyOther rest
  | l => l

/-- `shard[key]`. -/
def getKey {β : Type} (shard : List (String × β)) (key : String) : Except PyErr β :=
  match shard.lookup key with
  | some v => .ok v
  | none => .error (.keyError key)

namespace HfTokenizer

variable (tok : HfTokenizer α) (cfg : ChunkConfig) (text : PyVal α)

/-- `_parallel_encode` from the tokenized chunks on. -/
def mergeShards (shards : List (List (String × NdArray))) :
    Except PyErr (List (String × PyVal α)) :=
  match shards with
  | [shard] =>
    .ok ((shard.filter (·.1 ≠ "offset_mapping")).map fun p => (p.1, .ndarray p.2.newaxis))
  | _ => do
    let tokensShards ← shards.mapM fun shard =>
      (getKey shard "offset_mapping").map fun a => everyOther a.data
    match assembleMatches cfg tokensShards with
    | .error (.runtimeError _) =>
      -- fall back to the standard tokenizer, with its default `add_special_tokens=True`
      (tok.callNp text true false).map fun enc => enc.map fun p => (p.1, .ndarray p.2)
    | .error e => .error e
    | .ok ms =>
      (((shards.headD []).map fst).filter (· ≠ "offset_mapping")).mapM fun key => do
        let bufs ← shards.mapM fun shard => (getKey shard key).map NdArray.data
        let merged ← cppMerge bufs ms
        return (key, .list [.ints merged])

/-- `_parallel_encode`. -/
def parallelEncode : Except PyErr (List (String × PyVal α)) := do
  let textChunks ← chunksPy cfg text
  let shards ← textChunks.mapM tok.tokenizeChunk
  tok.mergeShards cfg text shards

/-- `__call__`. On a short text the flag is the second positional argument of the tokenizer. -/
def parallelCall (addSpecialTokens : Bool) : Except PyErr (List (String × PyVal α)) := do
  let n ← text.len
  if n < cfg.chunkSize * 2 then tok.call text (.bool addSpecialTokens) true
  else tok.parallelEncode cfg text

/-- The call returns the prompt of the serial tokenizer: `input_ids` is parsed as one
`TokensPrompt` with the ids of the text under the same flag. -/
def AgreesWithSerial (text : List α) (addSpecialTokens : Bool) : Prop :=
  ∃ enc inputIds, tok.parallelCall cfg (.str text) addSpecialTokens = .ok enc ∧
    getKey enc "input_ids" = .ok inputIds ∧
    parseRawPrompts inputIds = .ok [.tokens ((ids (tok.tokens text addSpecialTokens)).map .int)]

/-! ### The encodings of strings -/

variable {tok cfg}

theorem lookup_map_snd {β γ : Type*} (g : β → γ) (l : List (String × β)) (key : String) :
    (l.map fun p => (p.1, g p.2)).lookup key = (l.lookup key).map g := by
  induction l with
  | nil => rfl
  | cons p l ih =>
    rw [map_cons, lookup_cons, lookup_cons, ih]
    cases key == p.1 <;> rfl

section

variable {β : Type*} {l : List (String × β)} {key : String}

theorem exists_lookup_of_mem (h : key ∈ l.map fst) : ∃ b, l.lookup key = some b := by
  obtain ⟨p, hp, rfl⟩ := List.mem_map.1 h
  exact isSome_iff_exists.1 (lookup_isSome_iff.2 ⟨p, hp, beq_self_eq_true _⟩)

theorem lookup_of_notMem (h : key ∉ l.map fst) : l.lookup key = none :=
  lookup_eq_none_iff.2 fun _ hp => bne_iff_ne.2 fun heq => h (heq ▸ List.mem_map_of_mem hp)

theorem filter_of_notMem {keys : List String} (h : key ∉ keys) : keys.filter (· ≠ key) = keys :=
  filter_eq_self.2 fun _ hkey => decide_eq_true fun heq => h (heq ▸ hkey)

end

variable (tok) in
/-- The value at each token under a key. -/
def fieldOf (key : String) : Token → ℤ := (tok.fields.lookup key).getD fun _ => 0

variable {key : String}

theorem lookup_fields (h : key ∈ tok.fields.map fst) :
    tok.fields.lookup key = some (tok.fieldOf key) := by
  obtain ⟨f, hf⟩ := exists_lookup_of_mem h
  simp [fieldOf, hf]

theorem fieldOf_shift (h : key ∈ tok.fields.map fst) (n : ℕ) (t : Token) :
    tok.fieldOf key (t.shift n) = tok.fieldOf key t := by
  obtain ⟨l₁, l₂, heq, -⟩ := lookup_eq_some_iff.1 (lookup_fields h)
  have hmem : (key, tok.fieldOf key) ∈ tok.fields := by simp [heq]
  rcases mem_cons.1 hmem with he | hmem
  · obtain ⟨-, he⟩ := Prod.mk.inj he
    rw [he, Token.shift_id]
  · exact tok.perToken_shift _ hmem n t

theorem offset_notMem_fields : "offset_mapping" ∉ tok.fields.map fst := by
  simp only [fields, map_cons, mem_cons, not_or]
  exact ⟨by decide, tok.offset_notMem⟩

theorem getKey_encodingNp (h : key ∈ tok.fields.map fst) (rows : List (List Token)) (b : Bool) :
    getKey (tok.encodingNp rows b) key =
      .ok ⟨[rows.length, (rows.headD []).length], rows.flatten.map (tok.fieldOf key)⟩ := by
  rw [getKey, encodingNp, lookup_append]
  simp only [lookup_map_snd (fun f => (⟨[rows.length, (rows.headD []).length],
    rows.flatMap fun row => row.map f⟩ : NdArray)), lookup_fields h, map_some]
  simp [flatMap_def, map_flatten]

theorem everyOther_offsets (tokens : List Token) :
    everyOther (tokens.flatMap fun t => [(t.start : ℤ), (t.stop : ℤ)]) = starts tokens := by
  induction tokens with
  | nil => rfl
  | cons t tokens ih => simpa [everyOther, starts] using ih

variable (rows : List (List Token))

theorem getKey_offset :
    (getKey (tok.encodingNp rows true) "offset_mapping").map (fun a => everyOther a.data) =
      .ok (starts rows.flatten) := by
  have hnone : tok.fields.lookup _ = none := lookup_of_notMem offset_notMem_fields
  rw [getKey, encodingNp, lookup_append]
  simp only [lookup_map_snd (fun f => (⟨[rows.length, (rows.headD []).length],
    rows.flatMap fun row => row.map f⟩ : NdArray)), hnone, map_none, none_or, if_true]
  simp only [lookup_cons_self, Except.map, ← everyOther_offsets]
  congr 2
  induction rows with
  | nil => rfl
  | cons row rows ih => rw [flatMap_cons, ih, flatten_cons, flatMap_append]

theorem filter_keys_encodingNp :
    ((tok.encodingNp rows true).map fst).filter (· ≠ "offset_mapping") = tok.fields.map fst := by
  have hkeep : (tok.fields.map fst).filter _ = _ := filter_of_notMem offset_notMem_fields
  simpa [encodingNp, comp_def] using hkeep

theorem callNp_str (text : List α) (a b : Bool) :
    tok.callNp (.str text) a b = .ok (tok.encodingNp [tok.tokens text a] b) := by
  simp [callNp, isTextInput, tokenRows, ok_bind, pure, Except.pure]

/-! ### The ways out of `_parallel_encode` -/

/-- The encodings of batches, one batch a chunk. -/
def encodeRows (tok : HfTokenizer α) (css : List (List (List Token))) :
    List (List (String × NdArray)) :=
  css.map fun rows => tok.encodingNp rows true

variable {css : List (List (List Token))} {ms : List ℤ}

variable (tok) in
/-- The start offsets that are matched are those of the rows of a chunk one after the other. -/
theorem mapM_offsets (css : List (List (List Token))) : (tok.encodeRows css).mapM (fun shard =>
      (getKey shard "offset_mapping").map fun a => everyOther a.data) =
        .ok ((css.map flatten).map starts) := by
  rw [List.map_map]
  exact mapM_map_ok _ _ fun rows _ => getKey_offset rows

variable (tok) in
theorem mergeShards_of_matches (text : PyVal α) (hlen : css.length ≠ 1)
    (hms : assembleMatches cfg ((css.map flatten).map starts) = .ok ms)
    (merged : (Token → ℤ) → List ℤ) (hmerge : ∀ key ∈ tok.fields.map fst,
      cppMerge ((css.map flatten).map (List.map (tok.fieldOf key))) ms =
        .ok (merged (tok.fieldOf key))) :
    tok.mergeShards cfg text (tok.encodeRows css) = .ok ((tok.fields.map fst).map fun key =>
        (key, .list [.ints (merged (tok.fieldOf key))])) := by
  have hoffsets := mapM_offsets tok css
  match css, hlen with
  | [], _ => cases hms
  | r₁ :: r₂ :: rest, _ =>
    have hkeys : ((((tok.encodeRows (r₁ :: r₂ :: rest)).headD []).map fst).filter
        (· ≠ "offset_mapping")) = tok.fields.map fst := filter_keys_encodingNp r₁
    simp only [encodeRows, map_cons] at hoffsets hkeys hms ⊢
    simp only [mergeShards, hoffsets, bind, Except.bind, hms, hkeys]
    refine mapM_ok _ fun key hkey => ?_
    have hbufs : (tok.encodeRows (r₁ :: r₂ :: rest)).mapM
        (fun shard => (getKey shard key).map NdArray.data) =
          .ok (((r₁ :: r₂ :: rest).map flatten).map (List.map (tok.fieldOf key))) := by
      rw [List.map_map]
      exact mapM_map_ok _ _ fun rows _ => by simp [getKey_encodingNp hkey, Except.map]
    simp only [encodeRows, map_cons] at hbufs
    simp only [hbufs, ← map_cons, hmerge key hkey]
    rfl

/-- When some neighbours do not match, the whole text is tokenized. -/
theorem mergeShards_of_runtimeError (text : PyVal α) {msg : String} (hlen : css.length ≠ 1)
    (hms : assembleMatches cfg ((css.map flatten).map starts) = .error (.runtimeError msg)) :
    tok.mergeShards cfg text (tok.encodeRows css) =
      (tok.callNp text true false).map fun enc => enc.map fun p => (p.1, .ndarray p.2) := by
  have hoffsets := mapM_offsets tok css
  match css, hlen with
  | [], _ => cases hms
  | r₁ :: r₂ :: rest, _ =>
    simp only [encodeRows, map_cons] at hoffsets hms ⊢
    simp only [mergeShards, hoffsets, ok_bind, hms]

variable (tok cfg) in
/-- A single chunk is returned as arrays with one axis too many. -/
theorem mergeShards_single (text : PyVal α) (rows : List (List Token)) :
    ∃ enc, tok.mergeShards cfg text (tok.encodeRows [rows]) = .ok enc ∧ getKey enc "input_ids" =
        .ok (.ndarray ⟨[1, rows.length, (rows.headD []).length], ids rows.flatten⟩) := by
  refine ⟨_, rfl, ?_⟩
  simp [getKey, encodingNp, fields, NdArray.newaxis, ids, flatMap_def]

/-- A chunk that does not match fails with the error that is caught. -/
theorem assembleMatches_of_not_matched {shards : List (List Token)}
    (h : ¬ AllMatched cfg shards) : assembleMatches cfg (shards.map starts) =
      .error (.runtimeError "C++ match returned error: (-1, -1)") := by
  obtain ⟨p, hp, hneg⟩ : ∃ p ∈ pairs (shards.map starts),
      ¬ 0 ≤ (cppMatch p.1 p.2 cfg.chunkSize 2).1 := by
    simpa [AllMatched] using h
  rw [assembleMatches, mapM_error (fun q _ => ?_) hp]
  · rfl
  · exact if_pos (by omega)
  · by_cases hq : 0 ≤ (cppMatch q.1 q.2 cfg.chunkSize 2).1
    · exact .inl ⟨_, cppMatchWrapper_of_matched hq⟩
    · exact .inr (if_pos (by omega))

theorem parallelEncode_str (text : List α) : tok.parallelEncode cfg (.str text) =
      tok.mergeShards cfg (.str text)
        (tok.encodeRows ((tok.shards cfg text).map fun shard => [shard])) := by
  have hmap : ((chunks cfg text).map PyVal.str).mapM tok.tokenizeChunk =
      .ok ((chunks cfg text).map fun chunk => tok.encodingNp [tok.encode chunk] true) :=
    mapM_map_ok _ _ fun chunk _ => callNp_str chunk false true
  have hrows : tok.encodeRows ((tok.shards cfg text).map fun shard => [shard]) =
      (chunks cfg text).map fun chunk => tok.encodingNp [tok.encode chunk] true := by
    simp [encodeRows, Tokenizer.shards]
  rw [hrows]
  simp [parallelEncode, chunksPy, hmap]

theorem map_flatten_singletons (shards : List (List Token)) :
    (shards.map fun shard => [shard]).map flatten = shards := by
  simp [comp_def]

variable {text : List α}

theorem length_shards_ne_one (h : text.length > cfg.chunkSize + 100) :
    ((tok.shards cfg text).map fun shard => [shard]).length ≠ 1 := by
  rw [length_map, Tokenizer.shards, length_map]
  exact fun h' => length_chunks_eq_one_iff.1 h' h

theorem parallelEncode_single (tok : HfTokenizer α) (h : ¬ text.length > cfg.chunkSize + 100) :
    ∃ enc a, tok.parallelEncode cfg (.str text) = .ok enc ∧
      getKey enc "input_ids" = .ok (.ndarray a) := by
  have hshards : tok.shards cfg text = [tok.encode text] := by
    rw [Tokenizer.shards, chunks_of_short h]
    rfl
  rw [parallelEncode_str, hshards]
  obtain ⟨enc, henc, hkey⟩ := mergeShards_single tok cfg (.str text) [tok.encode text]
  exact ⟨enc, _, henc, hkey⟩

/-- When some neighbours do not match, the fallback returns an array. -/
theorem parallelEncode_fallback (h : text.length > cfg.chunkSize + 100)
    (hmatch : ¬ AllMatched cfg (tok.shards cfg text)) :
    ∃ enc a, tok.parallelEncode cfg (.str text) = .ok enc ∧
      getKey enc "input_ids" = .ok (.ndarray a) := by
  have herr := assembleMatches_of_not_matched hmatch
  rw [← map_flatten_singletons (tok.shards cfg text)] at herr
  rw [parallelEncode_str, mergeShards_of_runtimeError _ (length_shards_ne_one h) herr, callNp_str]
  exact ⟨_, _, rfl, rfl⟩

/-- When all neighbours match, the merged ids are those of the text without special tokens. -/
theorem parallelEncode_merged (hT : tok.WindowComposable) (h : text.length > cfg.chunkSize + 100)
    (hmatch : AllMatched cfg (tok.shards cfg text)) :
    ∃ enc, tok.parallelEncode cfg (.str text) = .ok enc ∧
      getKey enc "input_ids" = .ok (.list [.ints (ids (tok.encode text))]) := by
  obtain ⟨ms, hms, hmerge⟩ := merge_map_of_allMatched hT h hmatch
  rw [← map_flatten_singletons (tok.shards cfg text)] at hms hmerge
  rw [parallelEncode_str, mergeShards_of_matches tok _ (length_shards_ne_one h) hms
    (fun f => (tok.encode text).map f) fun key hkey => hmerge _ (fieldOf_shift hkey)]
  simp [getKey, fields, fieldOf, ids]

/-! ### Agreement with the serial tokenizer -/

/-- The short path always fails: the flag is taken for a text pair. -/
theorem parallelCall_short (h : text.length < cfg.chunkSize * 2) (b : Bool) :
    tok.parallelCall cfg (.str text) b =
      .error (.valueError "text input must be of type `str` ...") := by
  simp [parallelCall, PyVal.len, h, call, isTextInput]

theorem parallelCall_long (h : ¬ text.length < cfg.chunkSize * 2) (b : Bool) :
    tok.parallelCall cfg (.str text) b = tok.parallelEncode cfg (.str text) := by
  simp [parallelCall, PyVal.len, h]

theorem parseRawPrompts_one_row {is : List ℤ} (h : is ≠ []) :
    parseRawPrompts (.list [.ints is] : PyVal α) = .ok [.tokens (is.map .int)] := by
  cases is with
  | nil => exact absurd rfl h
  | cons i is => rfl

/-- **When the parallel tokenizer agrees with the serial one.**  Only the merged path can: the
short path raises, the single shard and the fallback return arrays, and the merged path never adds
special tokens. -/
theorem parallelCall_agrees_iff (tok : HfTokenizer α) (hT : tok.WindowComposable)
    (cfg : ChunkConfig) (text : List α) (addSpecialTokens : Bool) :
    tok.AgreesWithSerial cfg text addSpecialTokens ↔
      cfg.chunkSize * 2 ≤ text.length ∧ cfg.chunkSize + 100 < text.length ∧
        AllMatched cfg (tok.shards cfg text) ∧
        (addSpecialTokens = true → ids (tok.encodeSpecial text) = ids (tok.encode text)) := by
  by_cases hshort : text.length < cfg.chunkSize * 2
  · refine iff_of_false ?_ (fun h => by omega)
    rintro ⟨enc, v, hcall, -, -⟩
    rw [parallelCall_short hshort] at hcall
    cases hcall
  by_cases hlong : text.length > cfg.chunkSize + 100
  swap
  · refine iff_of_false ?_ (fun h => by omega)
    rintro ⟨enc, v, hcall, hkey, hparse⟩
    obtain ⟨enc', a, henc, hv⟩ := parallelEncode_single tok hlong
    rw [parallelCall_long hshort, henc] at hcall
    obtain rfl := ok.inj hcall
    rw [hv] at hkey
    obtain rfl := ok.inj hkey
    cases hparse
  by_cases hmatch : AllMatched cfg (tok.shards cfg text)
  swap
  · refine iff_of_false ?_ (fun h => hmatch h.2.2.1)
    rintro ⟨enc, v, hcall, hkey, hparse⟩
    obtain ⟨enc', a, henc, hv⟩ := parallelEncode_fallback hlong hmatch
    rw [parallelCall_long hshort, henc] at hcall
    obtain rfl := ok.inj hcall
    rw [hv] at hkey
    obtain rfl := ok.inj hkey
    cases hparse
  obtain ⟨enc, henc, hv⟩ := parallelEncode_merged hT hlong hmatch
  have hne : ids (tok.encode text) ≠ [] := by
    intro hnil
    have ht := tok.tiles text
    rw [map_eq_nil_iff.1 hnil] at ht
    have hzero : 0 = text.length := ht
    omega
  have hparse := parseRawPrompts_one_row (α := α) hne
  rw [AgreesWithSerial, parallelCall_long hshort]
  constructor
  · rintro ⟨enc', v, hcall, hkey, hparse'⟩
    rw [henc] at hcall
    obtain rfl := ok.inj hcall
    rw [hv] at hkey
    obtain rfl := ok.inj hkey
    rw [hparse] at hparse'
    refine ⟨by omega, by omega, hmatch, ?_⟩
    rintro rfl
    have hids := ok.inj hparse'
    simp only [List.cons.injEq, RawPrompt.tokens.injEq, and_true] at hids
    exact (map_injective_iff.2 (fun _ _ => PyVal.int.inj) hids).symm
  · rintro ⟨-, -, -, hspecial⟩
    have hids : ids (tok.tokens text addSpecialTokens) = ids (tok.encode text) := by
      cases addSpecialTokens with
      | false => rfl
      | true => exact hspecial rfl
    exact ⟨enc, _, henc, hv, by rw [hparse, hids]⟩

/-- One token a character, with a special token in front and an `attention_mask`. -/
def ofChars (code : α → ℤ) : HfTokenizer α where
  toTokenizer := charTokenizer code
  encodeSpecial text := ⟨0, 0, 1⟩ :: (charTokenizer code).encode text
  perToken := [("attention_mask", fun _ => 1)]
  truncated text addSpecialTokens k :=
    let plain := ids ((charTokenizer code).encode text)
    if addSpecialTokens then (1 :: plain).take k else plain.take k
  encodePair _ _ _ := .error (.valueError "")
  offset_notMem := by decide
  perToken_shift := by simp

/-- Two chunks, a character of the text a token. -/
theorem parallelCall_agrees_iff_two_chunks :
    let tok := ofChars fun _ : Unit => 7
    let cfg : ChunkConfig := ⟨4, 4, by decide, by decide⟩
    let text := List.replicate 105 ()
    tok.WindowComposable ∧ (tok.AgreesWithSerial cfg text false ↔
      cfg.chunkSize * 2 ≤ text.length ∧ cfg.chunkSize + 100 < text.length ∧
        AllMatched cfg (tok.shards cfg text) ∧
        (false = true → ids (tok.encodeSpecial text) = ids (tok.encode text))) := by
  intro tok cfg text
  have hT : tok.WindowComposable := charTokenizer_windowComposable _
  exact ⟨hT, parallelCall_agrees_iff tok hT cfg text false⟩

/-- A text of two characters raises with the default chunk size. -/
theorem not_agreesWithSerial_short : ¬ (ofChars fun c : Char => (c.toNat : ℤ)).AgreesWithSerial
      ⟨2048, 256, by decide, by decide⟩ ['h', 'i'] false := by
  rintro ⟨enc, v, hcall, -, -⟩
  cases hcall

end HfTokenizer

end LoptVllm.Lopt
