import LoptVllm.Lopt.Wrapper

/-!
# The parallel tokenizer on a list of strings

`create_completion` calls the parallel tokenizer on whatever the prompt of the request is. On a
list of strings `chunks` cuts all strings at once, a chunk is tokenized as a batch, and the rows of
the batch are flattened into one shard.
-/

namespace LoptVllm.Lopt

open List PyVal

namespace HfTokenizer

variable {α : Type} (tok : HfTokenizer α) (cfg : ChunkConfig) (xs : List (List α))

/-- A list of strings as a value. -/
def strsVal : PyVal α := .list (xs.map .str)

/-- The chunks of a list of strings. -/
def batchChunks : List (List (List α)) :=
  chunksBatch cfg ((xs.map List.length).foldr max 0 + 1) xs

/-- The tokens of the chunks of a list of strings. -/
def batchRows : List (List (List Token)) :=
  (batchChunks cfg xs).map fun chunk => chunk.map tok.encode

/-- The rows have equally many tokens, so that they make an array. -/
def Uniform (rows : List (List Token)) : Prop := ∀ row ∈ rows, row.length = (rows.headD []).length

instance (rows : List (List Token)) : Decidable (Uniform rows) :=
  inferInstanceAs (Decidable (∀ row ∈ rows, _))

/-- The parallel tokenizer gets through: some string is not empty, every chunk is an array, and
either there is a single chunk, or the chunks match, or the whole list is an array. -/
def BatchEncodes (xs : List (List α)) : Prop :=
  (∀ rows ∈ tok.batchRows cfg xs, Uniform rows) ∧ tok.batchRows cfg xs ≠ [] ∧
    ((tok.batchRows cfg xs).length = 1 ∨ AllMatched cfg ((tok.batchRows cfg xs).map List.flatten) ∨
      Uniform (xs.map tok.encodeSpecial))

instance (xs : List (List α)) : Decidable (tok.BatchEncodes cfg xs) :=
  inferInstanceAs (Decidable (_ ∧ _ ∧ _))

/-- An `input_ids` that is an array or has a single row. -/
def OneRow (v : PyVal α) : Prop := (∃ a, v = .ndarray a) ∨ ∃ is, v = .list [.ints is]

variable {tok cfg} {xs : List (List α)}

theorem isTextInput_strsVal (xs : List (List α)) : isTextInput (strsVal xs) = true := by
  cases xs <;> rfl

theorem tokenRows_strsVal (xs : List (List α)) (a : Bool) :
    tok.tokenRows (strsVal xs) a = .ok (xs.map fun x => tok.tokens x a) :=
  mapM_map_ok _ _ fun _ _ => rfl

theorem callNp_of_uniform (a b : Bool) (h : Uniform (xs.map fun x => tok.tokens x a)) :
    tok.callNp (strsVal xs) a b = .ok (tok.encodingNp (xs.map fun x => tok.tokens x a) b) := by
  simp only [callNp, isTextInput_strsVal, tokenRows_strsVal, bind]
  exact if_pos (all_eq_true.2 fun row hrow => decide_eq_true (h row hrow))

theorem callNp_of_not_uniform (a b : Bool) (h : ¬ Uniform (xs.map fun x => tok.tokens x a)) :
    tok.callNp (strsVal xs) a b = .error (.valueError "Unable to create tensor ...") := by
  have hall : ((xs.map fun x => tok.tokens x a).all fun row =>
      row.length = ((xs.map fun x => tok.tokens x a).headD []).length) ≠ true := fun hall =>
    h fun row hrow => of_decide_eq_true (all_eq_true.1 hall row hrow)
  simp only [callNp, isTextInput_strsVal, tokenRows_strsVal, bind]
  exact if_neg hall

theorem chunksPy_strsVal (hxs : xs ≠ []) :
    chunksPy cfg (strsVal xs) = .ok ((batchChunks cfg xs).map strsVal) := by
  cases xs with
  | nil => exact absurd rfl hxs
  | cons x xs =>
    have hstrs : ((x :: xs).map str).mapM sliceable = .ok (x :: xs) := by
      rw [mapM_map_ok str id fun _ _ => rfl, map_id]
    simp only [map_cons] at hstrs
    simp only [strsVal, map_cons, chunksPy, hstrs, bind]
    rfl

theorem parallelEncode_of_uniform (hxs : xs ≠ [])
    (h : ∀ rows ∈ tok.batchRows cfg xs, Uniform rows) : tok.parallelEncode cfg (strsVal xs) =
      tok.mergeShards cfg (strsVal xs) (tok.encodeRows (tok.batchRows cfg xs)) := by
  have hmap : ((batchChunks cfg xs).map strsVal).mapM tok.tokenizeChunk =
      .ok (tok.encodeRows (tok.batchRows cfg xs)) := by
    rw [encodeRows, batchRows, map_map]
    refine mapM_map_ok _ _ fun chunk hchunk => callNp_of_uniform false true ?_
    exact h _ (mem_map_of_mem hchunk)
  simp [parallelEncode, chunksPy_strsVal hxs, hmap]

theorem parallelEncode_of_not_uniform (hxs : xs ≠ [])
    (h : ¬ ∀ rows ∈ tok.batchRows cfg xs, Uniform rows) :
    ∀ enc, tok.parallelEncode cfg (strsVal xs) ≠ .ok enc := by
  intro enc henc
  simp only [parallelEncode, chunksPy_strsVal hxs] at henc
  obtain ⟨chunks, hchunks, henc⟩ := bind_ok.1 henc
  obtain rfl := Except.ok.inj hchunks
  obtain ⟨shards, hshards, -⟩ := bind_ok.1 henc
  refine h fun rows hrows => ?_
  obtain ⟨chunk, hchunk, rfl⟩ := mem_map.1 hrows
  obtain ⟨shard, hshard⟩ := exists_ok_of_mapM hshards (mem_map_of_mem hchunk)
  by_contra hne
  rw [tokenizeChunk, callNp_of_not_uniform false true hne] at hshard
  cases hshard

variable (tok cfg) in
/-- On a list of strings the code of the parallel tokenizer returns exactly when the batch
encodes, and then it returns an array or a single row. -/
theorem parallelEncode_strs (hxs : xs ≠ []) :
    (tok.BatchEncodes cfg xs ∧ ∃ enc v, tok.parallelEncode cfg (strsVal xs) = .ok enc ∧
      getKey enc "input_ids" = .ok v ∧ OneRow v) ∨
    (¬ tok.BatchEncodes cfg xs ∧ ∀ enc, tok.parallelEncode cfg (strsVal xs) ≠ .ok enc) := by
  by_cases huni : ∀ rows ∈ tok.batchRows cfg xs, Uniform rows
  swap
  · exact .inr ⟨fun h => huni h.1, parallelEncode_of_not_uniform hxs huni⟩
  rw [parallelEncode_of_uniform hxs huni]
  generalize hcss : tok.batchRows cfg xs = css at huni
  match css with
  | [] => exact .inr ⟨fun h => h.2.1 hcss, fun enc henc => by cases henc⟩
  | [rows] =>
    obtain ⟨enc, henc, hkey⟩ := mergeShards_single tok cfg (strsVal xs) rows
    exact .inl ⟨⟨hcss ▸ huni, by simp [hcss], .inl (by simp [hcss])⟩, enc, _, henc, hkey,
      .inl ⟨_, rfl⟩⟩
  | r₁ :: r₂ :: rest =>
    have hlen : (r₁ :: r₂ :: rest).length ≠ 1 := by simp
    by_cases hmatch : AllMatched cfg ((r₁ :: r₂ :: rest).map flatten)
    · obtain ⟨ms, hms⟩ := hmatch.assemble (by simp)
      have henc := mergeShards_of_matches tok (strsVal xs) hlen hms
        (fun f => (cppMerge_ok f hms).choose) fun key _ => (cppMerge_ok _ hms).choose_spec
      exact .inl ⟨⟨hcss ▸ huni, by simp [hcss], .inr (.inl (hcss ▸ hmatch))⟩, _, _, henc, rfl,
        .inr ⟨_, rfl⟩⟩
    · have herr := assembleMatches_of_not_matched hmatch
      rw [mergeShards_of_runtimeError _ hlen herr]
      by_cases hspecial : Uniform (xs.map tok.encodeSpecial)
      · refine .inl ⟨⟨hcss ▸ huni, by simp [hcss], .inr (.inr hspecial)⟩, ?_⟩
        rw [callNp_of_uniform true false hspecial]
        exact ⟨_, _, rfl, rfl, .inl ⟨_, rfl⟩⟩
      · refine .inr ⟨?_, ?_⟩
        · rintro ⟨-, -, h | h | h⟩
          · rw [hcss] at h
            exact hlen h
          · rw [hcss] at h
            exact hmatch h
          · exact hspecial h
        · rw [callNp_of_not_uniform true false hspecial]
          exact fun enc henc => by cases henc

/-- The flag in the place of the text pair always raises. -/
theorem call_bool (text : PyVal α) (b a : Bool) (enc : List (String × PyVal α)) :
    tok.call text (.bool b) a ≠ .ok enc := by
  intro h
  have hpair : isTextInput (.bool b : PyVal α) = false := rfl
  by_cases htext : isTextInput text <;> simp [call, hpair] at h

variable (tok cfg) in
theorem parallelCall_strs (xs : List (List α)) (b : Bool) :
    ((cfg.chunkSize * 2 ≤ xs.length ∧ tok.BatchEncodes cfg xs) ∧
      ∃ enc v, tok.parallelCall cfg (strsVal xs) b = .ok enc ∧
        getKey enc "input_ids" = .ok v ∧ OneRow v) ∨
    (¬ (cfg.chunkSize * 2 ≤ xs.length ∧ tok.BatchEncodes cfg xs) ∧
      ∀ enc, tok.parallelCall cfg (strsVal xs) b ≠ .ok enc) := by
  have hpos := cfg.chunkSize_pos
  have hlen : (strsVal xs).len = .ok xs.length := by simp [strsVal, len]
  by_cases hshort : xs.length < cfg.chunkSize * 2
  · refine .inr ⟨fun h => by omega, fun enc henc => ?_⟩
    simp only [parallelCall, hlen, ok_bind, if_pos hshort] at henc
    exact call_bool _ _ _ _ henc
  · have hxs : xs ≠ [] := by
      rintro rfl
      exact hshort (by simpa using hpos)
    simp only [parallelCall, hlen, ok_bind, if_neg hshort]
    rcases parallelEncode_strs tok cfg hxs with ⟨h, hok⟩ | ⟨h, herr⟩
    · exact .inl ⟨⟨by omega, h⟩, hok⟩
    · exact .inr ⟨fun h' => h h'.2, herr⟩

/-- `__call__` raises on a list that does not start with a string. -/
theorem parallelCall_list_ne_ok {ys : List (PyVal α)} (h : isListOf isStr ys = false ∨ ys = [])
    (b : Bool) (enc : List (String × PyVal α)) : tok.parallelCall cfg (.list ys) b ≠ .ok enc := by
  intro henc
  simp only [parallelCall, len, ok_bind] at henc
  split_ifs at henc with hshort
  · exact call_bool _ _ _ _ henc
  · rcases h with h | rfl
    · rcases ys with _ | ⟨_ | b | i | s | xs | a, ys⟩
      any_goals cases henc
      cases h
    · cases henc

/-- One prompt comes out of a single row, and none out of an array. -/
theorem parseRawPrompts_oneRow {v : PyVal α} (hv : OneRow v) {raws : List (RawPrompt α)}
    (h : parseRawPrompts v = .ok raws) : raws.length = 1 := by
  rcases hv with ⟨a, rfl⟩ | ⟨is, rfl⟩
  · cases h
  · cases is with
    | nil => cases h
    | cons i is =>
      obtain rfl := Except.ok.inj h
      rfl

end HfTokenizer

end LoptVllm.Lopt
