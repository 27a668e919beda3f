import LoptVllm.Benchmarks.RunLopt

/-!
# The attempts of the benchmark

After an attempt whose chunks do not match, `query_llm` means to try again with chunks that are twice
as large. It never does: the string that a failed attempt returns is unpacked, and an attempt with
a single chunk raises when it reads its time.
-/

namespace LoptVllm.Benchmarks

open List Option Prod NdArray

open Lopt

namespace AutoTokenizer

variable {α : Type} (tok : AutoTokenizer α)

/-! ### What the loop is for -/

/-- The chunk size of an attempt. -/
def attemptSize (chunkSize promptLen : ℕ) : ℕ → ℕ
  | 0 => chunkSize
  | i + 1 => min (attemptSize chunkSize promptLen i * 2) promptLen

/-- The text is a single chunk. -/
def Single (text : List α) (chunkSize : ℕ) : Prop := text.length ≤ chunkSize + 100

/-- All neighbouring chunks match. -/
def Matches (text : List α) (overlap chunkSize : ℕ) : Prop :=
  ∃ fuel textChunks, stringChunks chunkSize overlap fuel text = some textChunks ∧
    ∀ p ∈ pairs ((textChunks.map tok.encode).map starts), 0 ≤ (cppMatch p.1 p.2 chunkSize 2).1

/-- `query_llm` returns after `k` failed attempts, each with twice the chunk size of the one before,
and another one that matches or has a single chunk. The ids that it compares with the serial ones
are one row, as those are, and `equal` tells whether they are the same. -/
def Honest (space : α) (args : Args) (prompt : List α) : Prop := ∃ processed k fuel chunksFuel out,
    let chunkSize := initialChunkSize args prompt
    let size := attemptSize chunkSize processed.length
    tok.processedPrompt space args prompt = .ok processed ∧
      (∀ i < k, ¬ Single processed (size i) ∧ ¬ tok.Matches processed (chunkSize / 8) (size i)) ∧
      (Single processed (size k) ∨ tok.Matches processed (chunkSize / 8) (size k)) ∧
      tok.queryLlm space args prompt fuel chunksFuel = some (.ok out) ∧
      out.metrics.matchAttempts = k + 1 ∧
      out.inputIds.shape = [1, out.inputIds.data.length] ∧
      (out.metrics.equal = 1 ↔ out.inputIds.data = (tok.serialIds processed).data)

/-! ### The encodings of chunks -/

variable {tok} {text : List α} {overlap chunkSize : ℕ}

/-- A run of `chunks` that ends gives the chunks of the configuration. -/
theorem eq_chunks (cfg : ChunkConfig) {fuel : ℕ} {text : List α} {textChunks : List (List α)}
    (h : stringChunks cfg.chunkSize cfg.overlap fuel text = some textChunks) :
    textChunks = chunks cfg text := by
  induction fuel generalizing text textChunks with
  | zero => cases h
  | succ fuel ih =>
    simp only [stringChunks] at h
    split_ifs at h with hlong
    · obtain ⟨rest, hrest, rfl⟩ := map_eq_some_iff.1 h
      rw [sliceFrom_natCast] at hrest
      rw [ih hrest, chunks_of_long (s := text) (by omega), ← Int.natCast_add, sliceTo_natCast]
    · rw [chunks_of_short (by omega), some.inj h]

theorem matches_iff (cfg : ChunkConfig) : tok.Matches text cfg.overlap cfg.chunkSize ↔
      AllMatched cfg ((chunks cfg text).map tok.encode) := by
  constructor
  · rintro ⟨fuel, textChunks, h, hall⟩
    rwa [eq_chunks cfg h] at hall
  · exact fun hall => ⟨_, _, stringChunks_chunkConfig cfg text (Nat.lt_succ_self _), hall⟩

/-- The value at each token under a key. -/
def fieldOf (tok : AutoTokenizer α) (key : String) : Token → ℤ :=
  (tok.fields.lookup key).getD fun _ => 0

theorem offset_notMem_fields : "offset_mapping" ∉ tok.fields.map fst := by
  simp only [fields, map_cons, mem_cons, not_or]
  exact ⟨by decide, tok.offset_notMem⟩

theorem getKey_tokenizeChunk {key : String} (h : key ∈ tok.fields.map fst) (text : List α) :
    (getKey (tok.tokenizeChunk text) key).map data =
      .ok ((tok.encode text).map (tok.fieldOf key)) := by
  obtain ⟨f, hf⟩ := HfTokenizer.exists_lookup_of_mem h
  rw [getKey, tokenizeChunk, lookup_append,
    HfTokenizer.lookup_map_snd (fun f => (⟨[1, (tok.encode text).length],
      (tok.encode text).map f⟩ : NdArray))]
  simp [hf, fieldOf, Except.map]

theorem getKey_offset (text : List α) :
    (getKey (tok.tokenizeChunk text) "offset_mapping").map (fun a => everyOther a.data) =
      .ok (starts (tok.encode text)) := by
  have hnone : tok.fields.lookup _ = none := HfTokenizer.lookup_of_notMem offset_notMem_fields
  rw [getKey, tokenizeChunk, lookup_append,
    HfTokenizer.lookup_map_snd (fun f => (⟨[1, (tok.encode text).length],
      (tok.encode text).map f⟩ : NdArray)), hnone]
  simp [Except.map, HfTokenizer.everyOther_offsets]

theorem filter_keys (text : List α) :
    ((tok.tokenizeChunk text).map fst).filter (· ≠ "offset_mapping") = tok.fields.map fst := by
  have hkeep : (tok.fields.map fst).filter _ = _ := HfTokenizer.filter_of_notMem offset_notMem_fields
  simpa [tokenizeChunk, Function.comp_def] using hkeep

/-! ### The ways out of an attempt -/

variable {cfg : ChunkConfig} {fuel : ℕ} {checked : Except PyErr Checked}
  (h : tok.checkOverlap text cfg.overlap cfg.chunkSize fuel = some checked)

include h in
/-- An attempt that ends is one on the chunks of the configuration. -/
theorem checkOverlap_eq_some :
    checked = checkTokenized cfg.chunkSize ((chunks cfg text).map tok.tokenizeChunk) := by
  obtain ⟨textChunks, hchunks, rfl⟩ := map_eq_some_iff.1 h
  rw [eq_chunks cfg hchunks]

include h in
/-- A single chunk: the time that is read is not there yet. -/
theorem checkOverlap_single (hs : Single text cfg.chunkSize) :
    checked = .error (.keyError "elapsed") := by
  rw [checkOverlap_eq_some h, chunks_of_short (by simpa [Single] using hs)]
  rfl

/-- There are two chunks at least, and the loop is entered. -/
theorem two_chunks (hl : ¬ Single text cfg.chunkSize) :
    ∃ c₁ c₂ cs, chunks cfg text = c₁ :: c₂ :: cs := by
  have hne := chunks_ne_nil cfg text
  have hone := mt (@length_chunks_eq_one_iff _ cfg text).1 (by simpa [Single] using hl)
  match hc : chunks cfg text, hne, hone with
  | [_], _, hone => exact absurd rfl hone
  | c₁ :: c₂ :: cs, _, _ => exact ⟨c₁, c₂, cs, rfl⟩

include h in
theorem checkOverlap_several (hl : ¬ Single text cfg.chunkSize) :
    checked = checkShards cfg.chunkSize ((chunks cfg text).map tok.tokenizeChunk) := by
  obtain ⟨c₁, c₂, cs, hc⟩ := two_chunks hl
  rw [checkOverlap_eq_some h, hc]
  rfl

theorem mapM_offsets (tok : AutoTokenizer α) (textChunks : List (List α)) :
    (textChunks.map tok.tokenizeChunk).mapM (fun shard =>
      (getKey shard "offset_mapping").map fun a => everyOther a.data) =
        .ok ((textChunks.map tok.encode).map starts) := by
  rw [List.map_map]
  exact mapM_map_ok _ _ fun text _ => getKey_offset text

section

variable (hl : ¬ Single text cfg.chunkSize)

include hl

include h in
/-- A mismatch is returned as a string. -/
theorem checkOverlap_of_not_matches (hm : ¬ AllMatched cfg ((chunks cfg text).map tok.encode)) :
    checked = .ok (.str "match failed") := by
  obtain ⟨p, hp, hneg⟩ : ∃ p ∈ pairs (((chunks cfg text).map tok.encode).map starts),
      ¬ 0 ≤ (cppMatch p.1 p.2 cfg.chunkSize 2).1 := by
    simpa [AllMatched] using hm
  have herr : (pairs (((chunks cfg text).map tok.encode).map starts)).mapM
      (fun p => cppMatchWrapper p.1 p.2 cfg.chunkSize) =
        .error (.runtimeError "C++ match returned error") := by
    refine mapM_error (fun q _ => ?_) hp (if_pos (by omega))
    by_cases hq : (cppMatch q.1 q.2 cfg.chunkSize 2).1 < 0
    · exact .inr (if_pos hq)
    · exact .inl ⟨_, if_neg hq⟩
  rw [checkOverlap_several h hl]
  simp only [checkShards, mapM_offsets, bind, Except.bind, herr]
  rfl

section

variable (hm : AllMatched cfg ((chunks cfg text).map tok.encode))
include hm

/-- When all neighbours match, the results are the list that `merge` is called with. -/
theorem flatten_matches : ∃ rs ms, (pairs (((chunks cfg text).map tok.encode).map starts)).mapM
        (fun p => cppMatchWrapper p.1 p.2 cfg.chunkSize) = .ok rs ∧
      flatten (((chunks cfg text).map tok.encode).map starts) rs = .ok ms ∧
      assembleMatches cfg (((chunks cfg text).map tok.encode).map starts) = .ok ms := by
  have hrs : (pairs (((chunks cfg text).map tok.encode).map starts)).mapM
      (fun p => cppMatchWrapper p.1 p.2 cfg.chunkSize) =
        .ok ((pairs (((chunks cfg text).map tok.encode).map starts)).map
          fun p => cppMatch p.1 p.2 cfg.chunkSize 2) := by
    refine mapM_ok _ fun p hp => ?_
    have hnonneg := hm p hp
    simp only [cppMatchWrapper]
    rw [if_neg (by omega)]
  obtain ⟨c₁, c₂, cs, hc⟩ := two_chunks hl
  have hassemble := mapM_ok _ fun p hp => cppMatchWrapper_of_matched (hm p hp)
  simp only [hc] at hrs hassemble ⊢
  refine ⟨_, _, hrs, rfl, ?_⟩
  simp only [assembleMatches, hassemble]
  rfl

include h in
/-- When all neighbours match, the merged ids are one row. -/
theorem checkOverlap_of_matches :
    ∃ encoding merged, checked = .ok (.pair encoding) ∧
      getKey encoding "input_ids" = .ok ⟨[1, merged.length], merged⟩ := by
  obtain ⟨rs, ms, hrs, hflat, hms⟩ := flatten_matches hl hm
  have hkeys : (((((chunks cfg text).map tok.tokenizeChunk).headD []).map fst).filter
      (· ≠ "offset_mapping")) = tok.fields.map fst := by
    obtain ⟨c₁, c₂, cs, hc⟩ := two_chunks hl
    rw [hc]
    exact filter_keys c₁
  choose merged hmerged using fun f : Token → ℤ => cppMerge_ok f hms
  have hmerge : (tok.fields.map fst).mapM
      (mergeKey ((chunks cfg text).map tok.tokenizeChunk) ms) =
        .ok ((tok.fields.map fst).map fun key => (key, newaxis
          ⟨[(merged (tok.fieldOf key)).length], merged (tok.fieldOf key)⟩)) := by
    refine mapM_ok _ fun key hkey => ?_
    have hbufs : ((chunks cfg text).map tok.tokenizeChunk).mapM
        (fun shard => (getKey shard key).map data) =
          .ok (((chunks cfg text).map tok.encode).map (List.map (tok.fieldOf key))) := by
      rw [List.map_map]
      exact mapM_map_ok _ _ fun text _ => getKey_tokenizeChunk hkey text
    simp only [mergeKey, hbufs, bind, Except.bind, hmerged]
    rfl
  rw [checkOverlap_several h hl]
  refine ⟨(tok.fields.map fst).map fun key => (key, newaxis
    ⟨[(merged (tok.fieldOf key)).length], merged (tok.fieldOf key)⟩),
    merged (tok.fieldOf "input_ids"), ?_, ?_⟩
  · simp only [checkShards, mapM_offsets, bind, Except.bind, hrs, hflat, hkeys, hmerge]
    rfl
  · simp [getKey, fields, newaxis]

end

end

/-! ### The loop -/

/-- The configuration of the attempts with `query_llm`'s overlap. -/
def config (chunkSize : ℕ) (hpos : 0 < chunkSize) : ChunkConfig :=
  ⟨chunkSize, chunkSize / 8, hpos, Nat.div_le_self _ _⟩

variable {chunksFuel attempt : ℕ} {r : Except PyErr Attempts}

/-- The loop stops at its first attempt. If that has a single chunk or does not match, it raises. -/
theorem queryLoop_raises (hpos : 0 < chunkSize) (hle : chunkSize ≤ text.length)
    (hbad : Single text chunkSize ∨ ¬ tok.Matches text (chunkSize / 8) chunkSize)
    (h : tok.queryLoop text (chunkSize / 8) chunksFuel fuel chunkSize attempt = some r) :
    r = .error (.keyError "elapsed") ∨
      r = .error (.valueError "too many values to unpack (expected 2)") := by
  cases fuel with
  | zero => cases h
  | succ fuel =>
    simp only [queryLoop, if_pos hle] at h
    cases hc : tok.checkOverlap text (chunkSize / 8) chunkSize chunksFuel with
    | none => simp [hc] at h
    | some checked =>
      rw [hc] at h
      by_cases hs : Single text chunkSize
      · rw [@checkOverlap_single _ _ _ (config chunkSize hpos) _ _ hc hs] at h
        exact .inl (some.inj h).symm
      · have hm := mt (matches_iff (config chunkSize hpos)).2 (hbad.resolve_left hs)
        rw [@checkOverlap_of_not_matches _ _ _ (config chunkSize hpos) _ _ hc hs hm] at h
        exact .inr (some.inj h).symm

/-- If it matches, the merged encoding is what the loop ends with. -/
theorem queryLoop_matches (hpos : 0 < chunkSize) (hl : ¬ Single text chunkSize)
    (hm : tok.Matches text (chunkSize / 8) chunkSize) : ∃ chunksFuel encoding merged,
      tok.queryLoop text (chunkSize / 8) chunksFuel 1 chunkSize attempt =
        some (.ok ⟨some (.encoding encoding), chunkSize, attempt + 1⟩) ∧
      getKey encoding "input_ids" = .ok ⟨[1, merged.length], merged⟩ := by
  have hchunks := stringChunks_chunkConfig (config chunkSize hpos) text (Nat.lt_succ_self _)
  have hall := (matches_iff (config chunkSize hpos)).1 hm
  have hc : tok.checkOverlap text (chunkSize / 8) chunkSize (text.length + 1) = some _ :=
    congrArg (Option.map _) hchunks
  obtain ⟨encoding, merged, hpair, hkey⟩ :=
    @checkOverlap_of_matches _ _ _ (config chunkSize hpos) _ _ hc hl hall
  rw [hpair] at hc
  have hle : chunkSize ≤ text.length := by
    simp only [Single] at hl
    omega
  refine ⟨text.length + 1, encoding, merged, ?_, hkey⟩
  simp [queryLoop, hle, hc, bind, Except.bind, unpack, Value.ne]

variable {space : α} {args : Args} {prompt : List α}

/-- The comparison counts an attempt only if the loop made one. -/
theorem le_of_matchAttempts {attempts : Attempts} {out : QueryResult} {serial : NdArray}
    (hloop : tok.queryLoop text overlap chunksFuel fuel chunkSize 0 = some (.ok attempts))
    (hcompare : compare serial attempts = .ok out) (hpos : 0 < out.metrics.matchAttempts) :
    chunkSize ≤ text.length := by
  by_contra hlt
  cases fuel with
  | zero => cases hloop
  | succ fuel =>
    simp only [queryLoop, if_neg hlt, some.injEq, Except.ok.injEq] at hloop
    subst hloop
    obtain rfl := Except.ok.inj hcompare
    exact absurd hpos (lt_irrefl 0)

/-- A first attempt that has a single chunk or does not match is not retried. -/
theorem not_honest {processed : List α} (hpos : 1 ≤ initialChunkSize args prompt)
    (hp : tok.processedPrompt space args prompt = .ok processed)
    (hbad : Single processed (initialChunkSize args prompt) ∨
      ¬ tok.Matches processed (initialChunkSize args prompt / 8) (initialChunkSize args prompt)) :
    ¬ tok.Honest space args prompt := by
  rintro ⟨processed', k, fuel, chunksFuel, out, hp', -, -, hquery, hattempts, -⟩
  simp only [queryLlm, hp, map_eq_some_iff] at hquery
  obtain ⟨r, hloop, hr⟩ := hquery
  cases r with
  | error e => cases hr
  | ok attempts =>
    have hle := le_of_matchAttempts hloop hr (by omega)
    rcases queryLoop_raises hpos hle hbad hloop with h | h <;> cases h

/-- **The retry loop of the benchmark.**  It does what it is for exactly if the processed prompt has
more than 100 characters beyond the first chunk size and its chunks of that size all match. A failed
attempt and a single chunk both raise, so nothing is ever tried again. -/
theorem honest_iff (tok : AutoTokenizer α) (space : α) (args : Args) (prompt : List α)
    (hpos : 1 ≤ initialChunkSize args prompt) : tok.Honest space args prompt ↔
      ∃ processed, tok.processedPrompt space args prompt = .ok processed ∧
        initialChunkSize args prompt + 100 < processed.length ∧
        tok.Matches processed (initialChunkSize args prompt / 8) (initialChunkSize args prompt) := by
  constructor
  · intro h
    have hok := h
    obtain ⟨processed, -, -, -, -, hp, -⟩ := hok
    by_contra hno
    refine not_honest hpos hp ?_ h
    by_contra hbad
    simp only [Single, not_or, not_le, not_not] at hbad
    exact hno ⟨processed, hp, hbad⟩
  · rintro ⟨processed, hp, hl, hm⟩
    obtain ⟨chunksFuel, encoding, merged, hloop, hkey⟩ :=
      @queryLoop_matches _ _ _ _ 0 hpos (not_le.2 hl) hm
    let out : QueryResult := ⟨⟨[1, merged.length], merged⟩, 1 / initialChunkSize args prompt + 1, 1,
        if tok.serialIds processed = ⟨[1, merged.length], merged⟩ then 1 else 0⟩
    have hcompare : compare (tok.serialIds processed)
        ⟨some (.encoding encoding), initialChunkSize args prompt, 0 + 1⟩ = .ok out := by
      simp [compare, inputIds, hkey, bind, Except.bind, Nat.one_le_iff_ne_zero.1 hpos, pure,
        Except.pure, out]
    refine ⟨processed, 0, 1, chunksFuel, out, hp, by simp, .inr hm, ?_, rfl, rfl, ?_⟩
    · simp only [queryLlm, hp, hloop]
      exact congrArg some hcompare
    -- both arrays are one row, so they are equal if their values are
    constructor
    · intro heq
      by_contra hne
      have hserial : tok.serialIds processed ≠ ⟨[1, merged.length], merged⟩ :=
        fun h => hne (congrArg data h).symm
      simp [out, hserial] at heq
    · intro heq
      have hserial : tok.serialIds processed = ⟨[1, merged.length], merged⟩ := by
        rw [show merged = (tok.serialIds processed).data from heq]
        simp [serialIds]
      simp [out, hserial]

theorem offset_notMem_attentionMask :
    "offset_mapping" ∉ [("attention_mask", fun _ : Token => (1 : ℤ))].map fst := by
  simp

/-- A tokenizer with one token a character. -/
def ofChars (code : α → ℤ) (decode : List ℤ → List α) : AutoTokenizer α where
  encode := (charTokenizer code).encode
  encodeSpecial text := text.map code
  decode := decode
  perToken := [("attention_mask", fun _ => 1)]
  offset_notMem := offset_notMem_attentionMask

/-- 105 characters in chunks of 4 match. -/
theorem honest_two_chunks :
    let tok := ofChars (fun _ : Unit => 7) fun _ => []
    let args : Args := ⟨4, 0, 1, by decide⟩
    let prompt := replicate 105 ()
    tok.Honest () args prompt ↔ ∃ processed, tok.processedPrompt () args prompt = .ok processed ∧
        initialChunkSize args prompt + 100 < processed.length ∧
        tok.Matches processed (initialChunkSize args prompt / 8) (initialChunkSize args prompt) :=
  honest_iff _ _ _ _ (by decide)

/-- A tokenizer with one token a text. -/
def whole : AutoTokenizer Char where
  encode text := [⟨0, text.length, 1⟩]
  encodeSpecial _ := [1]
  decode _ := []
  perToken := []
  offset_notMem := by decide

/-- A prompt of two characters is a single chunk, of which the time is read too early. A prompt of
105 characters whose chunks do not match is not tried again. -/
theorem not_honest_short : ¬ whole.Honest ' ' ⟨2, 0, 1, by decide⟩ ['h', 'i'] ∧
      ¬ whole.Honest ' ' ⟨4, 0, 1, by decide⟩ (replicate 105 'h') := by
  refine ⟨not_honest (by decide) rfl (.inl ?_), not_honest (by decide) rfl (.inr ?_)⟩
  · rw [Single]
    decide
  · exact mt (matches_iff ⟨4, 0, by decide, by decide⟩).1 (by decide)

end AutoTokenizer

end LoptVllm.Benchmarks
