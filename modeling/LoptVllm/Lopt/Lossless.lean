import LoptVllm.Lopt.Merge

/-!
# Lossless parallel tokenization

When all chunks are tokenized by one tokenizer and that tokenizer is *window-composable*, merging
gives the tokens of the whole text.

A tokenizer is window-composable when four common starts in the windows `u ++ v` and `v ++ w` are
enough to cut there.

The induction runs over the chunks from the right. Its invariant (`HeadAgrees`) says that the
tokens of the rest of the text and the tokens of its first chunk agree left of `chunk_size`, where
the cut with the previous chunk lies.
-/

namespace LoptVllm.Lopt

open List Function Nat Token

open Lib

/-- A tokenizer: every text is tiled by its tokens. -/
structure Tokenizer (α : Type*) where
  encode : List α → List Token
  tiles : ∀ s, TokensTile 0 (encode s) s.length

namespace Tokenizer

variable {α : Type*} (T : Tokenizer α)

/-- Four common starts of two windows are enough to cut there. -/
def WindowComposable : Prop :=
  ∀ (u v w : List α) (x y : ℕ), CutAt u.length (T.encode (u ++ v)) (T.encode (v ++ w)) x y →
    T.encode (u ++ v ++ w) =
      (T.encode (u ++ v)).take x ++ ((T.encode (v ++ w)).drop y).map (shift u.length)

/-- The shards of a text. -/
def shards (cfg : ChunkConfig) (text : List α) : List (List Token) := (chunks cfg text).map T.encode

end Tokenizer

/-- `tokens` has the tokens of `shard` that start left of `c`, at the same indices. -/
def HeadAgrees (c : ℕ) (tokens shard : List Token) : Prop :=
  ∀ (k : ℕ) (hk : k < shard.length), shard[k].start < c → tokens[k]? = some shard[k]

variable {α : Type*} {cfg : ChunkConfig} {T : Tokenizer α} {c : ℕ}
  {shard next tokens : List Token} {x y : ℕ}

/-- Tokens that keep the shard up to a cut right of `c` agree with it left of `c`. -/
theorem headAgrees_take (ht : ∃ n, TokensTile 0 shard n) (hx : x < shard.length)
    (hc : c ≤ cut Token.start shard x 0) (rest : List Token) :
    HeadAgrees c (shard.take x ++ rest) shard := by
  intro k hk hlt
  obtain ⟨n, ht⟩ := ht
  rw [cut_of_lt hx] at hc
  have hkx := ht.lt_of_lo_lt hk hx (hlt.trans_le hc)
  rw [getElem?_append_left (by simp; omega), getElem?_take_of_lt hkx, getElem?_eq_getElem]

theorem getD_starts_of_getElem? {k : ℕ} {t : Token} (h : tokens[k]? = some t) :
    (starts tokens).getD k 0 = t.start := by
  simp [starts, h]

/-- A cut with a shard is a cut with all the tokens that agree with the shard around it. -/
theorem CutAt.of_headAgrees (h : CutAt cfg.chunkSize shard next x y) {m n : ℕ}
    (ht : TokensTile 0 shard m) (hm : m ≤ cfg.overlap + cfg.chunkSize)
    (hn : TokensTile 0 next n) (hagree : HeadAgrees cfg.chunkSize tokens next) :
    CutAt cfg.chunkSize shard tokens x y := by
  have h₂ := h.two_le_right
  have hr := h.right_lt
  have hlt := h.next_start_lt ht hm
  have hle := cfg.overlap_le
  rw [cut_of_lt hr] at hlt
  -- the four tokens around the cut start left of `overlap`
  have hget : ∀ k < 4, ∃ hk : y - 2 + k < next.length, tokens[y - 2 + k]? = some next[y - 2 + k] := by
    intro k hk
    refine ⟨by omega, hagree _ _ ?_⟩
    rcases lt_or_ge (y - 2 + k) (y + 1) with hlt' | hge
    · have := hn.lo_strictMono hlt' hr
      omega
    · have e : y - 2 + k = y + 1 := by omega
      simp only [e]
      omega
  have hlen : y - 2 + 4 ≤ tokens.length := by
    obtain ⟨hk, h3⟩ := hget 3 (by omega)
    obtain ⟨hlt, -⟩ := List.getElem?_eq_some_iff.1 h3
    omega
  refine ⟨h.two_le_left, h.two_le_right, h.agree.1, by simpa using hlen, fun k hk => ?_⟩
  obtain ⟨hk', hk''⟩ := hget k hk
  rw [h.agree.2.2 k hk, getD_starts_of_getElem? hk'', getD_starts]

/-- The tokens of a text that is longer than one chunk, from the cut of its first shard. -/
theorem encode_eq_of_cutAt (hT : T.WindowComposable) {s : List α}
    (h : CutAt cfg.chunkSize (T.encode (s.take (cfg.overlap + cfg.chunkSize)))
      (T.encode (s.drop cfg.chunkSize)) x y) (hs : cfg.chunkSize ≤ s.length) :
    T.encode s = (T.encode (s.take (cfg.overlap + cfg.chunkSize))).take x ++
      ((T.encode (s.drop cfg.chunkSize)).drop y).map (shift cfg.chunkSize) := by
  set size := cfg.chunkSize
  have hu : (s.take size).length = size := by
    rw [length_take, min_eq_left hs]
  have huv : s.take size ++ (s.drop size).take cfg.overlap = s.take (cfg.overlap + size) := by
    rw [Nat.add_comm, take_add]
  have hvw : (s.drop size).take cfg.overlap ++ s.drop (size + cfg.overlap) = s.drop size := by
    rw [← drop_drop, take_append_drop]
  have huvw : s.take (cfg.overlap + size) ++ s.drop (size + cfg.overlap) = s := by
    rw [Nat.add_comm, take_append_drop]
  have := hT (s.take size) ((s.drop size).take cfg.overlap) (s.drop (size + cfg.overlap)) x y
  rw [hu, huv, hvw, huvw] at this
  exact this h

/-- The slices from a shard with left cut `y` on are the tokens of the text from there, and the
first shard agrees with the text left of `chunk_size`. -/
theorem merge_lossless_from (hT : T.WindowComposable) (s : List α) :
    ∀ (shard : List Token) (rest : List (List Token)) (rs : List (ℤ × ℤ)),
      T.shards cfg s = shard :: rest → CutsOk cfg.chunkSize (shard :: rest) rs →
      HeadAgrees cfg.chunkSize (T.encode s) shard ∧
      ∀ k y, LeftCut cfg.chunkSize shard y → mergeLoop (shiftFrom cfg.chunkSize k (shard :: rest))
          ((shard.length - (y : ℤ)) :: flatMatches rs) =
        .ok (((T.encode s).drop y).map (shift (k * cfg.chunkSize))) := by
  induction s using chunks_induction cfg with
  -- the last shard has no cut on its right
  | last s hs =>
    intro shard rest rs hsh hcuts
    rw [Tokenizer.shards, chunks_of_short hs] at hsh
    obtain ⟨rfl, rfl⟩ := cons_eq_cons.1 hsh
    obtain rfl : rs = [] := by
      cases rs with
      | nil => rfl
      | cons r rs => exact absurd hcuts.length_eq (by simp)
    refine ⟨fun k hk _ => getElem?_eq_getElem hk, fun k y hy => ?_⟩
    have h := mergeLoop_last ((T.encode s).map (shift (k * cfg.chunkSize)))
      (by simpa using hy.le_length)
    simpa [flatMatches] using h
  | round s hs ih =>
    intro shard rest rs hsh hcuts
    rw [Tokenizer.shards, chunks_of_long hs] at hsh
    obtain ⟨rfl, htail⟩ := cons_eq_cons.1 hsh
    have ht := T.tiles (s.take (cfg.overlap + cfg.chunkSize))
    cases rest with
    | nil => exact absurd (map_eq_nil_iff.1 htail) (chunks_ne_nil cfg _)
    | cons next rest =>
      obtain ⟨r, rs, rfl⟩ : ∃ r rs', rs = r :: rs' := by
        cases rs with
        | nil => exact hcuts.elim
        | cons r rs => exact ⟨r, rs, rfl⟩
      obtain ⟨⟨x, y', rfl, hcut⟩, hcuts⟩ := hcuts
      obtain ⟨hagree, hmerge⟩ := ih next rest rs htail hcuts
      obtain ⟨chunk, hn⟩ : ∃ chunk, next = T.encode chunk := by
        have hmem : next ∈ (chunks cfg (s.drop cfg.chunkSize)).map T.encode := by
          rw [htail]
          exact .head _
        obtain ⟨chunk, -, h⟩ := mem_map.1 hmem
        exact ⟨chunk, h.symm⟩
      have hnt : TokensTile 0 next chunk.length := hn ▸ T.tiles chunk
      have hm := length_take_le (cfg.overlap + cfg.chunkSize) s
      have hs' := encode_eq_of_cutAt hT (hcut.of_headAgrees ht hm hnt hagree) (by omega)
      have hx := hcut.left_lt
      refine ⟨?_, fun k y hy => ?_⟩
      · rw [hs']
        exact headAgrees_take ⟨_, ht⟩ (by omega) (hcut.chunkSize_le 0) _
      · have hyx := hy.le ht hcut
        have h := mergeLoop_cons
          ((T.encode (s.take (cfg.overlap + cfg.chunkSize))).map
            (shift (k * cfg.chunkSize))) hyx (by simp; omega)
          (hmerge (k + 1) y' (hcut.leftCut ht hm hnt))
        rw [hs', drop_append_of_le_length (by simp; omega)]
        have hshift : ∀ t : Token, (t.shift cfg.chunkSize).shift (k * cfg.chunkSize) =
            t.shift ((k + 1) * cfg.chunkSize) := by
          intro t
          rw [shift_shift, succ_mul, Nat.add_comm]
        simpa [flatMatches, hshift, comp_def] using h

/-! ### One token a character -/

variable (code : α → ℤ)

/-- The tokenizer that makes every character a token. -/
def charTokenizer : Tokenizer α where
  encode s := s.mapIdx fun i a => ⟨i, i + 1, code a⟩
  tiles s := by
    have h : ∀ (s : List α) (n : ℕ),
        TokensTile n (s.mapIdx fun i a => ⟨n + i, n + i + 1, code a⟩) (n + s.length) := by
      intro s
      induction s with
      | nil => exact fun n => rfl
      | cons a s ih =>
        intro n
        rw [List.mapIdx_cons]
        refine ⟨rfl, lt_succ_self _, ?_⟩
        simpa only [Nat.add_assoc, Nat.add_zero, Nat.add_comm 1, List.length_cons] using ih (n + 1)
    simpa using h s 0

@[simp] theorem length_charTokenizer (s : List α) :
    ((charTokenizer code).encode s).length = s.length := by
  simp [charTokenizer]

theorem getElem?_charTokenizer (s : List α) (k : ℕ) :
    ((charTokenizer code).encode s)[k]? = s[k]?.map fun a => ⟨k, k + 1, code a⟩ := by
  simp [charTokenizer]

theorem charTokenizer_windowComposable : (charTokenizer code).WindowComposable := by
  intro u v w x y h
  have hl := h.left_lt
  have hr := h.right_lt
  have h₂ := h.two_le_left
  have h₂' := h.two_le_right
  have hstart := h.start_eq (k := 0) (by omega) (by omega) (by omega)
  simp only [length_charTokenizer, length_append] at hl hr
  simp only [charTokenizer, getElem_mapIdx] at hstart
  -- the starts are the indices, so the cut is the same place of the text
  obtain rfl : x = y + u.length := by omega
  have hlen : ((((charTokenizer code).encode (u ++ v))).take (y + u.length)).length =
      y + u.length := by
    rw [length_take, length_charTokenizer, length_append, min_eq_left (by omega)]
  refine ext_getElem? fun k => ?_
  rcases lt_or_ge k (y + u.length) with hk | hk
  · rw [getElem?_append_left (by omega), getElem?_take_of_lt hk, getElem?_charTokenizer,
      getElem?_charTokenizer, getElem?_append_left (by rw [length_append]; omega)]
  · obtain ⟨j, rfl⟩ := Nat.exists_eq_add_of_le hk
    rw [getElem?_append_right (by omega), hlen, Nat.add_sub_cancel_left, getElem?_map,
      getElem?_drop, getElem?_charTokenizer, getElem?_charTokenizer, append_assoc,
      getElem?_append_right (by omega),
      show y + u.length + j - u.length = y + j by omega]
    cases (v ++ w)[y + j]? with
    | none => rfl
    | some a =>
      simp only [Option.map_some, Option.some.injEq, shift, mk.injEq, and_true]
      omega

/-! ### The ids -/

/-- The `input_ids` of a shard. -/
def ids (shard : List Token) : List ℤ := shard.map Token.id

theorem readRange_map {β γ : Type*} (f : β → γ) (buf : List β) (start : ℤ) (n : ℕ) :
    readRange (buf.map f) start n = (readRange buf start n).map (List.map f) := by
  induction n generalizing start with
  | zero => rfl
  | succ n ih =>
    simp only [readRange]
    split_ifs
    · rfl
    · rw [getElem?_map, ih]
      cases buf[start.toNat]? with
      | none => rfl
      | some v => cases h : readRange buf (start + 1) n <;> simp [Except.map]

/-- `merge` does not look at what it slices. -/
theorem mergeLoop_map {β γ : Type*} (f : β → γ) (chunks : List (List β)) (ms : List ℤ) :
    mergeLoop (chunks.map (List.map f)) ms = (mergeLoop chunks ms).map (List.map f) := by
  induction chunks generalizing ms with
  | nil => rfl
  | cons buf chunks ih =>
    rcases ms with _ | ⟨l, _ | ⟨r, ms⟩⟩
    · rfl
    · rfl
    · simp only [map_cons, mergeLoop, length_map, readRange_map, ih, bind, Except.bind]
      cases readRange buf (buf.length - l) ((buf.length - r) - (buf.length - l)).toNat with
      | error e => rfl
      | ok piece =>
        cases mergeLoop chunks ms with
        | error e => rfl
        | ok rest => simp [Except.map, pure, Except.pure]

theorem shiftFrom_map {β : Type*} (f : Token → β) (hf : ∀ n t, f (t.shift n) = f t) (k : ℕ)
    (shards : List (List Token)) :
    (shiftFrom c k shards).map (List.map f) = shards.map (List.map f) := by
  induction shards generalizing k with
  | nil => rfl
  | cons shard rest ih => simp [ih, hf]

/-- For a text of several chunks, `merge` makes of the shards what they carry at each token, in the
order of the tokens of the whole text. -/
theorem merge_map_of_allMatched (hT : T.WindowComposable) {text : List α}
    (hlong : text.length > cfg.chunkSize + 100) (hmatch : AllMatched cfg (T.shards cfg text)) :
    ∃ ms, assembleMatches cfg ((T.shards cfg text).map starts) = .ok ms ∧
      ∀ {β : Type} (f : Token → β), (∀ n t, f (t.shift n) = f t) →
        cppMerge ((T.shards cfg text).map (List.map f)) ms = .ok ((T.encode text).map f) := by
  have hlen : 2 ≤ (T.shards cfg text).length := by
    rw [Tokenizer.shards, chunks_of_long hlong]
    have := length_pos_iff.2 (chunks_ne_nil cfg (text.drop cfg.chunkSize))
    simp only [length_cons, length_map]
    omega
  obtain ⟨ms, hms⟩ := hmatch.assemble hlen
  obtain ⟨shard, rest, rs, heq, hcuts, -, hmseq⟩ := assembleMatches_ok hms
  have hcount : ms.length = (T.shards cfg text).length * 2 := by
    rw [hcuts.length_eq, hmseq, length_cons, length_flatMatches]
    omega
  rw [heq] at hcuts
  obtain ⟨-, hmerge⟩ := merge_lossless_from hT text shard rest rs heq hcuts
  have hmerge := hmerge 0 0 (.inl rfl)
  rw [← heq, Int.natCast_zero, Int.sub_zero, ← hmseq] at hmerge
  refine ⟨ms, hms, fun f hf => ?_⟩
  rw [cppMerge, length_map, if_neg (not_not.2 hcount), ← shiftFrom_map f hf, mergeLoop_map, hmerge]
  simp [Except.map]

/-- **Lossless parallel tokenization.**  If a window-composable tokenizer tokenizes the chunks and
all neighbouring shards match, then a text of one chunk has the ids of its only shard, and for a
longer text the ids that `merge` makes of the shards are those of the whole text. -/
theorem merge_lossless (T : Tokenizer α) (hT : T.WindowComposable) (cfg : ChunkConfig)
    (text : List α) (hmatch : AllMatched cfg (T.shards cfg text)) :
    T.shards cfg text = [T.encode text] ∨
    ∃ ms, assembleMatches cfg ((T.shards cfg text).map starts) = .ok ms ∧
      cppMerge ((T.shards cfg text).map ids) ms = .ok (ids (T.encode text)) := by
  by_cases hlong : text.length > cfg.chunkSize + 100
  · obtain ⟨ms, hms, hmerge⟩ := merge_map_of_allMatched hT hlong hmatch
    exact .inr ⟨ms, hms, hmerge Token.id shift_id⟩
  · left
    rw [Tokenizer.shards, chunks_of_short hlong]
    rfl

/-- Two chunks, a character of the text a token. -/
theorem merge_lossless_two_chunks :
    let cfg : ChunkConfig := ⟨4, 4, by decide, by decide⟩
    let T := charTokenizer fun _ : Unit => 7
    let text := List.replicate 105 ()
    AllMatched cfg (T.shards cfg text) ∧ (T.shards cfg text = [T.encode text] ∨
      ∃ ms, assembleMatches cfg ((T.shards cfg text).map starts) = .ok ms ∧
        cppMerge ((T.shards cfg text).map ids) ms = .ok (ids (T.encode text))) := by
  intro cfg T text
  have h : AllMatched cfg (T.shards cfg text) := by decide +kernel
  exact ⟨h, merge_lossless T (charTokenizer_windowComposable _) cfg text h⟩

end LoptVllm.Lopt
