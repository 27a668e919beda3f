import LoptVllm.Lib.HashChain
import LoptVllm.Python
import Mathlib.Algebra.Order.Group.Nat
import Mathlib.Data.List.TakeWhile

/-!
# Block hashes

The hash of a block of a request covers its tokens, the hash of the block before it, and extra keys:
the LoRA name, the identifiers of multimodal items, the cache salt and the prompt embeddings. The
hasher runs when a request is created and whenever output tokens are appended, and hashes the blocks
that have become full since it last ran.
-/

namespace LoptVllm.KVCache

open List Nat

open HashChain

/-- `MultiModalFeatureSpec`, with its placeholder range. -/
structure MultiModalFeature where
  identifier : String
  offset : ℕ
  length : ℕ
  deriving DecidableEq

/-- Where the placeholder ends. -/
def MultiModalFeature.stop (f : MultiModalFeature) : ℕ := f.offset + f.length

/-- A tensor of prompt embeddings: its type and the bytes of its rows. -/
structure PromptEmbeds where
  dtype : String
  rows : List (List UInt8)
  deriving DecidableEq

/-- An extra key of a block hash. -/
inductive ExtraKey
  | str (s : String)
  | bytes (b : List UInt8)
  deriving DecidableEq

/-- The fields of a request that its extra keys come from. -/
structure KeyFields where
  promptEmbeds : Option PromptEmbeds
  mmFeatures : List MultiModalFeature
  loraName : Option String
  cacheSalt : Option String
  deriving DecidableEq

/-- The fields of a `Request` that its block hashes depend on. -/
structure Request (δ : Type) extends KeyFields where
  allTokenIds : List ℕ
  blockHashes : List δ

/-- The arguments of `get_request_block_hasher`, and `NONE_HASH`. A digest is never empty. -/
structure BlockHasher (δ : Type) where
  blockSize : ℕ
  blockSize_pos : 0 < blockSize
  hashFunction : δ → List ℕ × Option (List ExtraKey) → δ
  noneHash : δ

variable {δ : Type}

/-- The loop of `_gen_mm_extra_hash_keys` over the features from `curr_mm_idx` on. -/
def mmLoop (startTokenIdx endTokenIdx : ℕ) : List MultiModalFeature → ℕ → List String × ℕ
  | [], currMmIdx => ([], currMmIdx)
  | f :: fs, currMmIdx =>
    if endTokenIdx > f.offset then
      if startTokenIdx > f.offset + f.length then mmLoop startTokenIdx endTokenIdx fs (currMmIdx + 1)
      else if endTokenIdx ≥ f.offset + f.length then
        let (extraKeys, currMmIdx) := mmLoop startTokenIdx endTokenIdx fs (currMmIdx + 1)
        (f.identifier :: extraKeys, currMmIdx)
      else ([f.identifier], currMmIdx)
    else ([], currMmIdx)

variable (request : KeyFields) (startTokenIdx endTokenIdx : ℕ)

/-- `_gen_mm_extra_hash_keys`. -/
def genMmExtraHashKeys (startMmIdx : ℤ) : Except PyErr (List String × ℤ) :=
  match request.mmFeatures.getLast? with
  | none => .ok ([], startMmIdx)
  | some lastPos =>
    if lastPos.offset + lastPos.length < startTokenIdx then .ok ([], startMmIdx)
    else if startMmIdx < 0 ∧ ¬ -startMmIdx ≤ request.mmFeatures.length then
      .error (.assertionError "")
    else
      let currMmIdx := if startMmIdx < 0 then request.mmFeatures.length + startMmIdx else startMmIdx
      let (extraKeys, currMmIdx) :=
        mmLoop startTokenIdx endTokenIdx (request.mmFeatures.drop currMmIdx.toNat) currMmIdx.toNat
      .ok (extraKeys, currMmIdx)

/-- `_gen_lora_extra_hash_keys`. -/
def genLoraExtraHashKeys : List String := request.loraName.toList

/-- `[request.cache_salt] if (start_token_idx == 0 and request.cache_salt) else []`. -/
def cacheSaltKeys (startTokenIdx : ℕ) : List String :=
  if startTokenIdx = 0 then request.cacheSalt.toList.filter (· ≠ "") else []

/-- `_gen_prompt_embeds_extra_hash_keys`. -/
def genPromptEmbedsExtraHashKeys : List (List UInt8) :=
  match request.promptEmbeds with
  | none => []
  | some embeds => [((embeds.rows.drop startTokenIdx).take (endTokenIdx - startTokenIdx)).flatten]

/-- `generate_block_hash_extra_keys`. -/
def generateBlockHashExtraKeys (startMmIdx : ℤ) : Except PyErr (Option (List ExtraKey) × ℤ) := do
  let (mmExtraKeys, newStartMmIdx) ←
    genMmExtraHashKeys request startTokenIdx endTokenIdx startMmIdx
  let extraKeys := (genLoraExtraHashKeys request ++ mmExtraKeys ++
      cacheSaltKeys request startTokenIdx).map ExtraKey.str ++
    (genPromptEmbedsExtraHashKeys request startTokenIdx endTokenIdx).map ExtraKey.bytes
  return (if extraKeys.isEmpty then none else some extraKeys, newStartMmIdx)

namespace BlockHasher

variable (hasher : BlockHasher δ)

/-- `hash_block_tokens`. -/
def hashBlockTokens (parentBlockHash : Option δ) (currBlockTokenIds : List ℕ)
    (extraKeys : Option (List ExtraKey)) : δ :=
  hasher.hashFunction (parentBlockHash.getD hasher.noneHash) (currBlockTokenIds, extraKeys)

/-- The loop of `request_block_hasher`. -/
def hashLoop (request : Request δ) (startTokenIdx : ℕ) (currMmIdx : ℤ) (prev : Option δ) :
    Except PyErr (List δ) :=
  if startTokenIdx + hasher.blockSize > request.allTokenIds.length then .ok []
  else do
    let (extraKeys, currMmIdx) ← generateBlockHashExtraKeys request.toKeyFields startTokenIdx
      (startTokenIdx + hasher.blockSize) currMmIdx
    let blockTokens := (request.allTokenIds.drop startTokenIdx).take hasher.blockSize
    let blockHash := hasher.hashBlockTokens prev blockTokens extraKeys
    let newBlockHashes ←
      hashLoop request (startTokenIdx + hasher.blockSize) currMmIdx (some blockHash)
    return blockHash :: newBlockHashes
termination_by request.allTokenIds.length - startTokenIdx
decreasing_by
  have := hasher.blockSize_pos
  omega

/-- `request_block_hasher`. -/
def requestBlockHasher (request : Request δ) : Except PyErr (List δ) :=
  let startTokenIdx := request.blockHashes.length * hasher.blockSize
  if startTokenIdx + hasher.blockSize > request.allTokenIds.length then .ok []
  else
    hasher.hashLoop request startTokenIdx (if startTokenIdx > 0 then -1 else 0)
      request.blockHashes.getLast?

end BlockHasher

/-- `length_from_prompt_token_ids_or_embeds`. -/
def lengthFromPromptTokenIdsOrEmbeds (promptTokenIds : Option (List ℕ))
    (promptEmbeds : Option PromptEmbeds) : Except PyErr ℕ :=
  match promptTokenIds, promptEmbeds with
  | none, none =>
    .error (.valueError "Neither prompt_token_ids nor prompt_embeds were defined.")
  | none, some embeds => .ok embeds.rows.length
  | some ids, none => .ok ids.length
  | some ids, some embeds =>
    if embeds.rows.length ≠ ids.length then
      .error (.valueError ("Prompt token ids and prompt embeds had different lengths" ++
        " prompt_token_ids=" ++ toString ids.length ++
        " prompt_embeds=" ++ toString embeds.rows.length))
    else .ok ids.length

/-- What a request is built from: the arguments of its constructor and the output tokens that are
appended, call by call. -/
structure RequestInput extends KeyFields where
  promptTokenIds : Option (List ℕ)
  outputs : List (List ℕ)

variable (hasher : BlockHasher δ)

/-- `Request.__init__`. -/
def Request.new (x : RequestInput) : Except PyErr (Request δ) := do
  let numPromptTokens ← lengthFromPromptTokenIdsOrEmbeds x.promptTokenIds x.promptEmbeds
  let request : Request δ :=
    ⟨x.toKeyFields, x.promptTokenIds.getD (replicate numPromptTokens 0), []⟩
  let blockHashes ← hasher.requestBlockHasher request
  return { request with blockHashes := blockHashes }

/-- `Request.append_output_token_ids`. -/
def Request.appendOutputTokenIds (request : Request δ)
    (tokenIds : List ℕ) : Except PyErr (Request δ) := do
  let request := { request with allTokenIds := request.allTokenIds ++ tokenIds }
  let newBlockHashes ← hasher.requestBlockHasher request
  return { request with blockHashes := request.blockHashes ++ newBlockHashes }

/-- The request after all its outputs. -/
def RequestInput.build (x : RequestInput) : Except PyErr (Request δ) := do
  let request ← Request.new hasher x
  x.outputs.foldlM (Request.appendOutputTokenIds hasher) request

/-! ### The items of a block -/

/-- The placeholder starts and ends before a position. -/
def MultiModalFeature.Passed (pos : ℕ) (f : MultiModalFeature) : Prop :=
  f.offset < pos ∧ f.stop ≤ pos

instance (pos : ℕ) : DecidablePred (MultiModalFeature.Passed pos) := fun f =>
  inferInstanceAs (Decidable (f.offset < pos ∧ f.stop ≤ pos))

/-- The items of `fs` that a block `[start, stop)` touches, up to the first that it does not pass. -/
def touched (start stop : ℕ) (fs : List MultiModalFeature) : List MultiModalFeature :=
  (fs.takeWhile fun f => f.Passed stop).filter (fun f => start ≤ f.stop) ++
    ((fs.dropWhile fun f => f.Passed stop).take 1).filter fun f => f.offset < stop

variable (fs : List MultiModalFeature)

/-- The items that a call of the hasher looks at: all of them in the first call that hashes a block,
and the last one in later calls. -/
def tracked (firstBlock : ℕ) : List MultiModalFeature :=
  if firstBlock = 0 then fs else fs.drop (fs.length - 1)

/-- The items whose identifiers are keys of block `b`, when the call that hashes it starts with
block `firstBlock`. Items that were passed before the block are left out, but not in the first
block of a call. -/
def visited (blockSize firstBlock b : ℕ) : List MultiModalFeature :=
  match fs.getLast? with
  | none => []
  | some last =>
    if last.stop < b * blockSize then []
    else touched (b * blockSize) ((b + 1) * blockSize)
      (if b = firstBlock then tracked fs firstBlock
        else (tracked fs firstBlock).dropWhile fun f => f.Passed (b * blockSize))

theorem MultiModalFeature.Passed.mono {m n : ℕ} {f : MultiModalFeature} (h : f.Passed m)
    (hmn : m ≤ n) : f.Passed n :=
  ⟨h.1.trans_le hmn, h.2.trans hmn⟩

/-- What the loop does to a list of items. -/
theorem mmLoop_eq {start stop : ℕ} (h : start ≤ stop) (fs : List MultiModalFeature) (i : ℕ) :
    mmLoop start stop fs i = ((touched start stop fs).map MultiModalFeature.identifier,
      i + (fs.takeWhile fun f => f.Passed stop).length) := by
  induction fs generalizing i with
  | nil => rfl
  | cons f fs ih =>
    unfold mmLoop touched
    by_cases hp : f.Passed stop
    · have hrest : mmLoop start stop fs (i + 1) =
          ((touched start stop fs).map MultiModalFeature.identifier,
            i + ((fs.takeWhile fun f => f.Passed stop).length + 1)) := by
        rw [ih, add_right_comm, add_assoc]
      have hlt : stop > f.offset := hp.1
      have hge : stop ≥ f.offset + f.length := hp.2
      simp only [if_pos hlt, hrest, if_pos hge, takeWhile_cons, dropWhile_cons, hp,
        decide_true, if_true, filter_cons]
      by_cases hs : start > f.offset + f.length
      · have : ¬ start ≤ f.stop := not_le.2 hs
        simp only [if_pos hs, this]
        rfl
      · have : start ≤ f.stop := not_lt.1 hs
        simp only [if_neg hs, this, decide_true]
        rfl
    · simp only [takeWhile_cons, dropWhile_cons, hp, decide_false, Bool.false_eq_true,
        if_false, take_succ_cons, filter_cons, length_nil]
      by_cases hlt : stop > f.offset
      · -- the item reaches beyond the block, which therefore does not start after it
        have hgt : ¬ stop ≥ f.offset + f.length := fun hle => hp ⟨hlt, hle⟩
        have hs : ¬ start > f.offset + f.length := by omega
        rw [if_pos hlt, if_neg hs, if_neg hgt, if_pos (decide_eq_true hlt)]
        rfl
      · rw [if_neg hlt, if_neg (by simpa using hlt)]
        rfl

/-- Items passed before are passed later. -/
theorem length_takeWhile_passed {m n : ℕ} (hmn : m ≤ n) (fs : List MultiModalFeature) :
    (fs.takeWhile fun f => f.Passed m).length +
      ((fs.dropWhile fun f => f.Passed m).takeWhile fun f => f.Passed n).length =
    (fs.takeWhile fun f => f.Passed n).length := by
  induction fs with
  | nil => rfl
  | cons f fs ih =>
    by_cases hm : f.Passed m
    · simp only [takeWhile_cons, dropWhile_cons, hm, hm.mono hmn, decide_true, if_true, length_cons]
      omega
    · simp [hm]

theorem drop_length_takeWhile {α : Type*} (p : α → Bool) (l : List α) :
    l.drop (l.takeWhile p).length = l.dropWhile p := by
  induction l with
  | nil => rfl
  | cons a l ih => by_cases h : p a <;> simp [h, ih]

/-- The index the hasher carries into block `b`: the start of a call, no items, all items long
passed, or past the items that were passed before the block. -/
def MmIndex (blockSize firstBlock b : ℕ) (i : ℤ) : Prop :=
  (b = firstBlock ∧ i = if firstBlock = 0 then 0 else -1) ∨ fs = [] ∨
    (∃ last, fs.getLast? = some last ∧ last.stop < b * blockSize) ∨
    (b ≠ firstBlock ∧ i = (fs.length - (tracked fs firstBlock).length : ℕ) +
      (((tracked fs firstBlock).takeWhile fun f => f.Passed (b * blockSize)).length : ℕ))

/-- The tracked items are a suffix. -/
theorem drop_tracked (firstBlock : ℕ) :
    fs.drop (fs.length - (tracked fs firstBlock).length) = tracked fs firstBlock := by
  unfold tracked
  split_ifs with h
  · rw [Nat.sub_self, drop_zero]
  · rw [length_drop]
    congr 1
    omega

/-- The multimodal keys of a block are those of the visited items, and the index is kept. -/
theorem genMmExtraHashKeys_eq {request : KeyFields} {bs firstBlock b : ℕ} {i : ℤ}
    (hi : MmIndex request.mmFeatures bs firstBlock b i) (hb : firstBlock ≤ b) :
    ∃ j, genMmExtraHashKeys request (b * bs) ((b + 1) * bs) i =
        .ok ((visited request.mmFeatures bs firstBlock b).map MultiModalFeature.identifier, j) ∧
      MmIndex request.mmFeatures bs firstBlock (b + 1) j := by
  have hle : b * bs ≤ (b + 1) * bs := mul_le_mul_right _ (le_succ b)
  have hb1 : b + 1 ≠ firstBlock := by omega
  unfold genMmExtraHashKeys visited
  cases hlast : request.mmFeatures.getLast? with
  | none => exact ⟨i, rfl, .inr (.inl (getLast?_eq_none_iff.1 hlast))⟩
  | some last =>
    have hpos : 0 < request.mmFeatures.length := by
      rw [length_pos_iff]
      rintro hnil
      rw [hnil] at hlast
      cases hlast
    by_cases hearly : last.stop < b * bs
    · exact ⟨i, by simp only [MultiModalFeature.stop] at hearly; simp [hearly,
        MultiModalFeature.stop], .inr (.inr (.inl ⟨last, hlast, hearly.trans_le hle⟩))⟩
    · -- the index points at the items that the block is compared with
      have hstart : ∃ k : ℕ, (¬ (i < 0 ∧ ¬ -i ≤ request.mmFeatures.length)) ∧
          (if i < 0 then request.mmFeatures.length + i else i) = k ∧
          request.mmFeatures.drop k = (if b = firstBlock then tracked request.mmFeatures firstBlock
            else (tracked request.mmFeatures firstBlock).dropWhile fun f => f.Passed (b * bs)) ∧
          k + ((request.mmFeatures.drop k).takeWhile fun f => f.Passed ((b + 1) * bs)).length =
            (request.mmFeatures.length - (tracked request.mmFeatures firstBlock).length) +
            ((tracked request.mmFeatures firstBlock).takeWhile
              fun f => f.Passed ((b + 1) * bs)).length := by
        rcases hi with ⟨rfl, hi⟩ | hnil | ⟨last', hlast', hlt⟩ | ⟨hne, hi⟩
        · by_cases hb0 : b = 0
          · rw [if_pos hb0] at hi
            subst hi
            refine ⟨0, by simp, by simp, ?_, ?_⟩ <;> simp [tracked, hb0]
          · rw [if_neg hb0] at hi
            refine ⟨request.mmFeatures.length - 1, by omega, by omega, ?_, ?_⟩
            · rw [if_pos rfl, tracked, if_neg hb0]
            · have hlen : (tracked request.mmFeatures b).length = 1 := by
                rw [tracked, if_neg hb0, length_drop]
                omega
              rw [hlen, tracked, if_neg hb0]
        · rw [hnil] at hpos
          exact absurd hpos (lt_irrefl 0)
        · rw [hlast] at hlast'
          obtain rfl := Option.some.inj hlast'
          exact absurd hlt hearly
        · subst hi
          refine ⟨(request.mmFeatures.length - (tracked request.mmFeatures firstBlock).length) +
            ((tracked request.mmFeatures firstBlock).takeWhile fun f => f.Passed (b * bs)).length,
            by omega, by omega, ?_, ?_⟩
          · rw [if_neg hne, ← drop_drop, drop_tracked, drop_length_takeWhile]
          · rw [← drop_drop, drop_tracked, drop_length_takeWhile, add_assoc,
              length_takeWhile_passed hle]
      obtain ⟨k, hok, hk, hdrop, hnext⟩ := hstart
      have hearly' : ¬ last.offset + last.length < b * bs := hearly
      simp only [if_neg hearly', if_neg hok, hk, Int.toNat_natCast, mmLoop_eq hle, if_neg hearly]
      refine ⟨_, by rw [hdrop], .inr (.inr (.inr ⟨hb1, ?_⟩))⟩
      rw [← hdrop, hnext, Int.natCast_add]

/-! ### The chain of a request -/

variable (k : KeyFields)

/-- The texts among the keys of block `b`, in a call that starts with block `firstBlock`. -/
def KeyFields.texts (blockSize firstBlock b : ℕ) : List String :=
  k.loraName.toList ++ (visited k.mmFeatures blockSize firstBlock b).map
    MultiModalFeature.identifier ++ if b = 0 then k.cacheSalt.toList.filter (· ≠ "") else []

/-- The bytes of the prompt embeddings of block `b`. -/
def KeyFields.embedBytes (blockSize b : ℕ) : Option (List UInt8) :=
  k.promptEmbeds.map fun embeds => ((embeds.rows.drop (b * blockSize)).take blockSize).flatten

/-- The keys of a block: its texts, then its bytes, or none. -/
def packKeys (texts : List String) (bytes : Option (List UInt8)) : Option (List ExtraKey) :=
  if (texts.map ExtraKey.str ++ bytes.toList.map ExtraKey.bytes).isEmpty then none
  else some (texts.map ExtraKey.str ++ bytes.toList.map ExtraKey.bytes)

/-- What the hash of block `b` covers besides the hash before it. -/
def KeyFields.content (tokens : List ℕ) (blockSize firstBlock b : ℕ) :
    List ℕ × Option (List ExtraKey) :=
  ((tokens.drop (b * blockSize)).take blockSize,
    packKeys (k.texts blockSize firstBlock b) (k.embedBytes blockSize b))

/-- The first block of the call of the hasher that hashes block `b`, when `n` tokens were hashed
before and the chunks are appended call by call. -/
def callStart (blockSize : ℕ) : ℕ → List (List ℕ) → ℕ → ℕ
  | n, [], _ => n / blockSize
  | n, chunk :: chunks, b =>
    if b < (n + chunk.length) / blockSize then n / blockSize
    else callStart blockSize (n + chunk.length) chunks b

theorem generateBlockHashExtraKeys_eq {k : KeyFields} {bs firstBlock b : ℕ} {i : ℤ}
    (hbs : 0 < bs) (hi : MmIndex k.mmFeatures bs firstBlock b i) (hb : firstBlock ≤ b) :
    ∃ j, generateBlockHashExtraKeys k (b * bs) (b * bs + bs) i =
        .ok (packKeys (k.texts bs firstBlock b) (k.embedBytes bs b), j) ∧
      MmIndex k.mmFeatures bs firstBlock (b + 1) j := by
  obtain ⟨j, hmm, hj⟩ := genMmExtraHashKeys_eq hi hb
  refine ⟨j, ?_, hj⟩
  have hsalt : cacheSaltKeys k (b * bs) =
      if b = 0 then k.cacheSalt.toList.filter (· ≠ "") else [] := by
    unfold cacheSaltKeys
    by_cases h : b = 0
    · simp [h]
    · rw [if_neg h, if_neg (Nat.mul_ne_zero h hbs.ne')]
  have hembed : genPromptEmbedsExtraHashKeys k (b * bs) (b * bs + bs) =
      (k.embedBytes bs b).toList := by
    unfold genPromptEmbedsExtraHashKeys KeyFields.embedBytes
    rw [Nat.add_sub_cancel_left]
    cases k.promptEmbeds <;> rfl
  rw [← add_one_mul] at *
  simp only [generateBlockHashExtraKeys, hmm, hsalt, hembed, packKeys]
  rfl

namespace BlockHasher

variable (hasher : BlockHasher δ)

/-- The loop hashes the full blocks from `b` on. -/
theorem hashLoop_eq (request : Request δ) {firstBlock : ℕ} (m b : ℕ) (i : ℤ) (prev : Option δ)
    (hm : b + m = request.allTokenIds.length / hasher.blockSize) (hb : firstBlock ≤ b)
    (hi : MmIndex request.mmFeatures hasher.blockSize firstBlock b i) :
    hasher.hashLoop request (b * hasher.blockSize) i prev =
      .ok (chain hasher.hashFunction (prev.getD hasher.noneHash) ((range' b m).map
        (request.content request.allTokenIds hasher.blockSize firstBlock))) := by
  have hbs := hasher.blockSize_pos
  have hiff : b * hasher.blockSize + hasher.blockSize > request.allTokenIds.length ↔ m = 0 := by
    rw [← add_one_mul, gt_iff_lt, ← div_lt_iff_lt_mul hbs]
    omega
  induction m generalizing b i prev with
  | zero =>
    rw [hashLoop, if_pos (hiff.2 rfl)]
    rfl
  | succ m ih =>
    obtain ⟨j, hkeys, hj⟩ := generateBlockHashExtraKeys_eq hbs hi hb
    have hnext := ih (b + 1) j
      (some (hasher.hashFunction (prev.getD hasher.noneHash)
        (request.content request.allTokenIds hasher.blockSize firstBlock b)))
      (by omega) (by omega) hj ?_
    · rw [add_one_mul] at hnext
      rw [hashLoop, if_neg (by rw [hiff]; omega), hkeys]
      simp only [ok_bind, hashBlockTokens]
      have hblock : hasher.hashFunction (prev.getD hasher.noneHash)
          ((request.allTokenIds.drop (b * hasher.blockSize)).take hasher.blockSize,
            packKeys (request.texts hasher.blockSize firstBlock b)
              (request.embedBytes hasher.blockSize b)) =
          hasher.hashFunction (prev.getD hasher.noneHash)
            (request.content request.allTokenIds hasher.blockSize firstBlock b) := rfl
      rw [hblock, hnext]
      rfl
    · rw [← add_one_mul, gt_iff_lt, ← div_lt_iff_lt_mul hbs]
      omega

theorem requestBlockHasher_eq (request : Request δ) {cs : List (List ℕ × Option (List ExtraKey))}
    (hcs : request.blockHashes = chain hasher.hashFunction hasher.noneHash cs)
    (hlen : cs.length ≤ request.allTokenIds.length / hasher.blockSize) :
    hasher.requestBlockHasher request =
      .ok (chain hasher.hashFunction (cs.foldl hasher.hashFunction hasher.noneHash)
        ((range' cs.length (request.allTokenIds.length / hasher.blockSize - cs.length)).map
          (request.content request.allTokenIds hasher.blockSize cs.length))) := by
  have hbs := hasher.blockSize_pos
  have hlast : request.blockHashes.getLast?.getD hasher.noneHash =
      cs.foldl hasher.hashFunction hasher.noneHash := by
    rw [hcs, getLast?_chain]
    by_cases h : cs = []
    · simp [h]
    · simp [h]
  unfold requestBlockHasher
  rw [hcs, length_chain, ← hcs]
  by_cases hfull : request.allTokenIds.length / hasher.blockSize = cs.length
  · have hgt : cs.length * hasher.blockSize + hasher.blockSize > request.allTokenIds.length := by
      rw [← add_one_mul, gt_iff_lt, ← div_lt_iff_lt_mul hbs, hfull]
      exact lt_succ_self _
    rw [if_pos hgt, hfull, Nat.sub_self]
    rfl
  · have hle : ¬ cs.length * hasher.blockSize + hasher.blockSize > request.allTokenIds.length := by
      rw [← add_one_mul, not_lt, ← le_div_iff_mul_le hbs]
      omega
    rw [if_neg hle, hasher.hashLoop_eq request (request.allTokenIds.length / hasher.blockSize -
      cs.length) cs.length _ _ (by omega) le_rfl (.inl ⟨rfl, ?_⟩), hlast]
    by_cases h0 : cs.length = 0
    · simp [h0]
    · rw [if_pos (Nat.mul_pos (pos_of_ne_zero h0) hbs), if_neg h0]

end BlockHasher

/-- Blocks that are full do not change when tokens are appended. -/
theorem KeyFields.content_append (k : KeyFields) {tokens : List ℕ} (more : List ℕ)
    {bs firstBlock b : ℕ} (h : (b + 1) * bs ≤ tokens.length) :
    k.content (tokens ++ more) bs firstBlock b = k.content tokens bs firstBlock b := by
  rw [add_one_mul] at h
  unfold content
  rw [drop_append_of_le_length (by omega), take_append_of_le_length (by simp; omega)]

theorem range'_split {l m n : ℕ} (hlm : l ≤ m) (hmn : m ≤ n) :
    range' l (n - l) = range' l (m - l) ++ range' m (n - m) := by
  obtain ⟨j, rfl⟩ := Nat.exists_eq_add_of_le hlm
  obtain ⟨k, rfl⟩ := Nat.exists_eq_add_of_le hmn
  rw [add_assoc, Nat.add_sub_cancel_left, Nat.add_sub_cancel_left, ← add_assoc,
    Nat.add_sub_cancel_left, range'_append_1]

theorem foldlM_appendOutputTokenIds (hasher : BlockHasher δ) (outputs : List (List ℕ))
    (request : Request δ) {cs : List (List ℕ × Option (List ExtraKey))}
    (hcs : request.blockHashes = chain hasher.hashFunction hasher.noneHash cs)
    (hlen : cs.length = request.allTokenIds.length / hasher.blockSize) :
    outputs.foldlM (Request.appendOutputTokenIds hasher) request = .ok
      { request with
        allTokenIds := request.allTokenIds ++ outputs.flatten
        blockHashes := chain hasher.hashFunction hasher.noneHash (cs ++
          (range' cs.length ((request.allTokenIds ++ outputs.flatten).length /
            hasher.blockSize - cs.length)).map fun b =>
              request.content (request.allTokenIds ++ outputs.flatten) hasher.blockSize
                (callStart hasher.blockSize request.allTokenIds.length outputs b) b) } := by
  induction outputs generalizing request cs with
  | nil => simp [← hlen, ← hcs]; rfl
  | cons chunk outputs ih =>
    set blockSize := hasher.blockSize with hblockSize
    have hbs : 0 < blockSize := hasher.blockSize_pos
    set tokens := request.allTokenIds ++ chunk with htokens
    have hmono : request.allTokenIds.length / blockSize ≤ tokens.length / blockSize :=
      Nat.div_le_div_right (by simp [htokens])
    have hmono' : tokens.length / blockSize ≤ (tokens ++ outputs.flatten).length / blockSize :=
      Nat.div_le_div_right (by simp)
    -- the blocks of this call
    set new := (range' cs.length (tokens.length / blockSize - cs.length)).map
      (request.content tokens blockSize cs.length) with hnew
    have hstep : Request.appendOutputTokenIds hasher request chunk = .ok
        { request with
          allTokenIds := tokens
          blockHashes := chain hasher.hashFunction hasher.noneHash (cs ++ new) } := by
      have := hasher.requestBlockHasher_eq { request with allTokenIds := tokens } hcs
        (by rw [hlen]; exact hmono)
      simp only [Request.appendOutputTokenIds, this, ok_bind, pure, Except.pure, ← htokens]
      rw [chain_append, ← hcs]
    have hlen' : (cs ++ new).length = tokens.length / blockSize := by
      rw [length_append, hnew, length_map, length_range']
      omega
    rw [foldlM_cons, hstep]
    refine (ih _ rfl hlen').trans ?_
    rw [hlen', flatten_cons, ← append_assoc, ← htokens]
    congr 2
    rw [append_assoc]
    congr 2
    -- the blocks of this call and of the later ones
    have hsplit : range' cs.length ((tokens ++ outputs.flatten).length / blockSize - cs.length) =
        _ := range'_split (by omega) hmono'
    rw [hsplit, map_append]
    congr 1
    · refine map_congr_left fun b hb => ?_
      obtain ⟨hb, hlt⟩ := mem_range'_1.1 hb
      have hlt' : b < tokens.length / blockSize := by omega
      rw [callStart, if_pos (by rwa [← length_append]), ← hlen]
      exact (KeyFields.content_append _ _ ((le_div_iff_mul_le hbs).1 hlt')).symm
    · refine map_congr_left fun b hb => ?_
      obtain ⟨hb, -⟩ := mem_range'_1.1 hb
      rw [callStart, if_neg (by rw [← length_append]; exact not_lt.2 hb), ← length_append]

namespace RequestInput

variable (x : RequestInput)

/-- The prompt; a request with prompt embeddings only has zeros for tokens. -/
def prompt : List ℕ :=
  x.promptTokenIds.getD (replicate ((x.promptEmbeds.map fun e => e.rows.length).getD 0) 0)

/-- All tokens of the request. -/
def tokens : List ℕ := x.prompt ++ x.outputs.flatten

/-- The first block of the call that hashes block `b`. -/
def firstBlock (blockSize b : ℕ) : ℕ :=
  callStart blockSize 0 (x.prompt :: x.outputs) b

/-- What the hash of block `b` covers besides the hash before it. -/
def content (blockSize b : ℕ) : List ℕ × Option (List ExtraKey) :=
  x.toKeyFields.content x.tokens blockSize (x.firstBlock blockSize b) b

/-- **The block hashes of a request** are the chain over its full blocks. -/
theorem build_eq_chain {hasher : BlockHasher δ} {x : RequestInput} {request : Request δ}
    (h : x.build hasher = .ok request) :
    request.blockHashes = chain hasher.hashFunction hasher.noneHash
      ((List.range (x.tokens.length / hasher.blockSize)).map (x.content hasher.blockSize)) := by
  obtain ⟨r, hnew, hfold⟩ := bind_ok.1 h
  obtain ⟨n, hn, hr⟩ := bind_ok.1 hnew
  -- the constructor is a call on a request without tokens
  have hprompt : x.promptTokenIds.getD (replicate n 0) = x.prompt := by
    unfold lengthFromPromptTokenIdsOrEmbeds at hn
    unfold prompt
    split at hn <;> simp_all
  rw [hprompt] at hr
  have hempty : Request.appendOutputTokenIds hasher ⟨x.toKeyFields, [], []⟩ x.prompt = .ok r := by
    simpa [Request.appendOutputTokenIds] using hr
  have hall : (x.prompt :: x.outputs).foldlM (Request.appendOutputTokenIds hasher)
      ⟨x.toKeyFields, [], []⟩ = .ok request := by
    rw [foldlM_cons, hempty]
    exact hfold
  have hchain : ([] : List δ) = chain hasher.hashFunction hasher.noneHash [] := rfl
  rw [foldlM_appendOutputTokenIds hasher _ _ hchain (by simp)] at hall
  cases hall
  simp [tokens, range_eq_range']
  rfl

/-- A prompt of token ids always becomes a request. -/
theorem build_promptTokenIds (hasher : BlockHasher δ) {k : KeyFields} (hk : k.promptEmbeds = none)
    (ids : List ℕ) : build hasher ⟨k, some ids, []⟩ = .ok ⟨k, ids,
      chain hasher.hashFunction hasher.noneHash ((range' 0 (ids.length / hasher.blockSize)).map
          (k.content ids hasher.blockSize 0))⟩ := by
  have hchain : ([] : List δ) = chain hasher.hashFunction hasher.noneHash [] := rfl
  have hhash := hasher.requestBlockHasher_eq ⟨k, ids, []⟩ hchain (zero_le _)
  simp only [build, Request.new, hk, Option.getD_some, hhash]
  rfl

end RequestInput

end LoptVllm.KVCache
