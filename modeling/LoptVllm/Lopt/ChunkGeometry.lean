import LoptVllm.Lib.Slices
import LoptVllm.Lopt.Chunks
import LoptVllm.Python

/-!
# The chunks of a text, for any chunk size

`chunks` of `lopt_utils.py` as it is called: the chunk size and the overlap are any integers, the
slices are those of Python, and the loop may not end. A call is run with a number of rounds, and has
no result if they are not enough.
-/

namespace LoptVllm.Lopt

open List Option Nat

variable {α : Type*} (chunkSize overlapLength : ℤ)

/-- `chunks(sentence, chunk_size, overlap_length)` for a string. -/
def stringChunks : ℕ → List α → Option (List (List α))
  | 0, _ => none
  | fuel + 1, sentence =>
    if (sentence.length : ℤ) - chunkSize > 100 then
      (stringChunks fuel (sliceFrom sentence chunkSize)).map fun chunks =>
        sliceTo sentence (overlapLength + chunkSize) :: chunks
    else some [sentence]

/-- The loop of `chunks` for a sequence of strings. -/
def sequenceLoop : ℕ → List (List α) → Option (List (List (List α)))
  | 0, _ => none
  | fuel + 1, sentence =>
    if sentence.any fun s => !s.isEmpty then
      (sequenceLoop fuel (sentence.map fun s =>
        if (sliceFrom s chunkSize).length > 100 then sliceFrom s chunkSize else [])).map fun rows =>
          (sentence.map fun s => if (sliceFrom s chunkSize).length > 100 then
            sliceTo s (overlapLength + chunkSize) else s) :: rows
    else some []

/-- `chunks(sentence, chunk_size, overlap_length)` for a sequence of strings: the first one is looked
at to tell what is given. -/
def sequenceChunks (fuel : ℕ) (sentence : List (List α)) :
    Option (Except PyErr (List (List (List α)))) :=
  match sentence with
  | [] => some (.error (.indexError "list index out of range"))
  | _ :: _ => (sequenceLoop chunkSize overlapLength fuel sentence).map .ok

/-- The part of a text that a chunk is. -/
def chunkAt (chunkSize overlapLength : ℕ) (s : List α) (i : ℕ) : List α :=
  (s.drop (i * chunkSize)).take (chunkSize + overlapLength)

variable {chunkSize overlapLength : ℕ}

/-- The text has `n` rounds of the loop: they leave more than 100 characters, and what is left is too
short for another one. -/
structure Rounds (chunkSize : ℕ) (s : List α) (n : ℕ) : Prop where
  left : n ≠ 0 → n * chunkSize + 100 < s.length
  last : s.length ≤ n * chunkSize + chunkSize + 100

variable {s : List α} {n : ℕ}

theorem exists_rounds (hpos : 1 ≤ chunkSize) (s : List α) : ∃ n, Rounds chunkSize s n := by
  have hdiv := div_add_mod' (s.length - 101) chunkSize
  have hmod := mod_lt (s.length - 101) hpos
  refine ⟨(s.length - 101) / chunkSize, fun hn => ?_, by omega⟩
  have hle : chunkSize ≤ (s.length - 101) / chunkSize * chunkSize :=
    Nat.le_mul_of_pos_left _ (Nat.pos_of_ne_zero hn)
  omega

/-- A text that is long enough for a round. -/
theorem Rounds.of_long (h : Rounds chunkSize s n) (hlong : chunkSize + 100 < s.length) :
    ∃ m, n = m + 1 ∧ Rounds chunkSize (s.drop chunkSize) m := by
  obtain ⟨hleft, hlast⟩ := h
  cases n with
  | zero => omega
  | succ m =>
    rw [succ_mul] at hleft hlast
    refine ⟨m, rfl, fun _ => ?_, ?_⟩
    · rw [length_drop]
      omega
    · rw [length_drop]
      omega

theorem Rounds.of_short (h : Rounds chunkSize s n) (hshort : ¬ chunkSize + 100 < s.length) :
    n = 0 := by
  by_contra hn
  have hle : chunkSize ≤ n * chunkSize := Nat.le_mul_of_pos_left _ (Nat.pos_of_ne_zero hn)
  have := h.left hn
  omega

/-- The chunks of a text with `n` rounds. -/
def chunkList (chunkSize overlapLength : ℕ) (s : List α) (n : ℕ) : List (List α) :=
  (range n).map (chunkAt chunkSize overlapLength s) ++ [s.drop (n * chunkSize)]

theorem chunkList_zero (s : List α) : chunkList chunkSize overlapLength s 0 = [s] := by
  simp [chunkList]

theorem chunkList_succ (s : List α) (n : ℕ) : chunkList chunkSize overlapLength s (n + 1) =
    s.take (overlapLength + chunkSize) ::
      chunkList chunkSize overlapLength (s.drop chunkSize) n := by
  unfold chunkList
  rw [range_succ_eq_map, map_cons, List.map_map, cons_append, drop_drop]
  congr 1
  · rw [chunkAt, Nat.zero_mul, drop_zero, Nat.add_comm]
  · congr 1
    · refine map_congr_left fun i _ => ?_
      rw [Function.comp_apply, chunkAt, chunkAt, drop_drop, succ_mul,
        Nat.add_comm, Nat.add_comm chunkSize]
    · rw [succ_mul, Nat.add_comm]

/-- The string form yields these chunks. -/
theorem stringChunks_eq : ∀ {fuel : ℕ} {s : List α} {n : ℕ}, Rounds chunkSize s n → n < fuel →
    stringChunks chunkSize overlapLength fuel s = some (chunkList chunkSize overlapLength s n) := by
  intro fuel
  induction fuel with
  | zero => exact fun _ h => absurd h (not_lt_zero _)
  | succ fuel ih =>
    intro s n hn hfuel
    unfold stringChunks
    by_cases hlong : chunkSize + 100 < s.length
    · obtain ⟨m, rfl, hm⟩ := hn.of_long hlong
      rw [if_pos (by omega), sliceFrom_natCast, ih hm (by omega), map_some, chunkList_succ,
        ← Int.natCast_add, sliceTo_natCast]
    · rw [if_neg (by omega), hn.of_short hlong, chunkList_zero]

theorem stringChunks_unique {c o : ℤ} : ∀ {fuel fuel' : ℕ} {s : List α} {l l' : List (List α)},
    stringChunks c o fuel s = some l → stringChunks c o fuel' s = some l' → l = l' := by
  intro fuel
  induction fuel with
  | zero =>
    intro fuel' s l l' h
    cases h
  | succ fuel ih =>
    intro fuel' s l l' h h'
    cases fuel' with
    | zero => cases h'
    | succ fuel' =>
      unfold stringChunks at h h'
      split_ifs at h h'
      · obtain ⟨m, hm, rfl⟩ := map_eq_some_iff.1 h
        obtain ⟨m', hm', rfl⟩ := map_eq_some_iff.1 h'
        rw [ih hm hm']
      · exact some.inj (h.symm.trans h')

/-- A column of the sequence form: the chunks of a string, and empty strings. -/
def Column (chunkSize overlapLength : ℕ) (s : List α) (col : List (Option (List α))) : Prop :=
  ∃ n k, Rounds chunkSize s n ∧
    col = ((if s = [] then [] else chunkList chunkSize overlapLength s n) ++
      replicate k []).map some

/-- A round yields the first chunk of a string, and goes on with the rest of it. -/
theorem Column.round {s : List α} {col : List (Option (List α))} (h : Column chunkSize overlapLength
      (if (s.drop chunkSize).length > 100 then s.drop chunkSize else []) col) :
    Column chunkSize overlapLength s (some (if (s.drop chunkSize).length > 100 then
      s.take (overlapLength + chunkSize) else s) :: col) := by
  obtain ⟨n, k, hn, rfl⟩ := h
  by_cases hlong : (s.drop chunkSize).length > 100
  · rw [if_pos hlong] at hn ⊢
    rw [if_pos hlong]
    have hdrop : s.drop chunkSize ≠ [] := fun hnil => by
      rw [hnil, length_nil] at hlong
      omega
    have hs : s ≠ [] := fun hnil => hdrop (by rw [hnil, drop_nil])
    have hlen : (s.drop chunkSize).length = s.length - chunkSize := length_drop
    refine ⟨n + 1, k, ⟨fun _ => ?_, ?_⟩, ?_⟩
    · have hleft := hn.left
      rw [succ_mul]
      rcases Nat.eq_zero_or_pos n with rfl | hpos
      · omega
      · have := hleft (Nat.pos_iff_ne_zero.1 hpos)
        omega
    · have hlast := hn.last
      rw [succ_mul]
      omega
    · rw [if_neg hdrop, if_neg hs, chunkList_succ]
      rfl
  · rw [if_neg hlong, if_neg hlong, if_pos rfl, nil_append]
    have hlen : (s.drop chunkSize).length = s.length - chunkSize := length_drop
    have h₀ : Rounds chunkSize s 0 := ⟨fun h => absurd rfl h, by omega⟩
    by_cases hs : s = []
    · refine ⟨0, k + 1, h₀, ?_⟩
      rw [if_pos hs, hs]
      rfl
    · refine ⟨0, k, h₀, ?_⟩
      rw [if_neg hs, chunkList_zero]
      rfl

theorem sequenceLoop_columns (hpos : 1 ≤ chunkSize) (fuel : ℕ) : ∀ {sentence : List (List α)},
    (∀ s ∈ sentence, s.length < fuel) → 0 < fuel → ∃ rows,
      sequenceLoop chunkSize overlapLength fuel sentence = some rows ∧
      ∀ (j : ℕ) (s : List α), sentence[j]? = some s →
        Column chunkSize overlapLength s (rows.map fun row => row[j]?) := by
  induction fuel with
  | zero => exact fun _ h => absurd h (lt_irrefl 0)
  | succ fuel ih =>
    intro sentence hlen _
    unfold sequenceLoop
    by_cases hany : (sentence.any fun s => !s.isEmpty) = true
    · rw [if_pos hany]
      obtain ⟨t, ht, hne⟩ := List.any_eq_true.1 hany
      have hpos' : 0 < fuel := by
        have hlt := hlen t ht
        have : t.length ≠ 0 := fun h => by simp [length_eq_zero_iff.1 h] at hne
        omega
      -- the rest of a string is shorter, and a string that is done has an empty rest
      have hrest : ∀ s' ∈ sentence.map fun s =>
          if (sliceFrom s (chunkSize : ℤ)).length > 100 then sliceFrom s chunkSize else [],
          s'.length < fuel := by
        intro s' hs'
        obtain ⟨s, hs, rfl⟩ := List.mem_map.1 hs'
        have hlt := hlen s hs
        rw [sliceFrom_natCast]
        split_ifs with hlong
        · rw [length_drop] at hlong ⊢
          omega
        · exact hpos'
      obtain ⟨rows, hrows, hcols⟩ := ih hrest hpos'
      refine ⟨_, by rw [hrows]; rfl, fun j s hs => ?_⟩
      have hcol := hcols j _ (by rw [getElem?_map, hs]; rfl)
      have hrow : (sentence.map fun s : List α => if (sliceFrom s (chunkSize : ℤ)).length > 100 then
          sliceTo s (overlapLength + chunkSize) else s)[j]? =
          some (if (s.drop chunkSize).length > 100 then s.take (overlapLength + chunkSize)
            else s) := by
        rw [getElem?_map, hs, map_some, sliceFrom_natCast, ← Int.natCast_add, sliceTo_natCast]
      rw [map_cons, hrow]
      exact hcol.round
    · rw [if_neg hany]
      refine ⟨[], rfl, fun j s hs => ?_⟩
      obtain ⟨n, hn⟩ := exists_rounds hpos s
      have hnil : s = [] := by
        by_contra hne
        refine hany (List.any_eq_true.2 ⟨s, mem_of_getElem? hs, ?_⟩)
        simpa using hne
      refine ⟨n, 0, hn, ?_⟩
      rw [if_pos hnil]
      rfl

/-- Neighbouring chunks agree on what they share: the end of the first one is the beginning of the
second one. -/
theorem chunkList_shared (n : ℕ) : ∀ {i : ℕ} {s c c' : List α},
    (chunkList chunkSize overlapLength s n)[i]? = some c →
    (chunkList chunkSize overlapLength s n)[i + 1]? = some c' → c.drop chunkSize <+: c' := by
  induction n with
  | zero =>
    intro i s c c' _ hc'
    cases hc'
  | succ n ih =>
    intro i s c c' hc hc'
    rw [chunkList_succ] at hc hc'
    cases i with
    | succ i => exact ih hc hc'
    | zero =>
      cases hc
      rw [drop_take, Nat.add_sub_cancel]
      cases n with
      | zero =>
        cases hc'
        rw [Nat.zero_mul, drop_zero]
        exact take_prefix _ _
      | succ n =>
        rw [chunkList_succ] at hc'
        cases hc'
        exact take_prefix_take_left (by omega)

/-- **The chunks of a text.**  A string is cut into overlapping parts and a last one, which is not
short unless it is the whole text, and neighbours agree on what they share. A sequence of strings
that are not all empty is cut column by column. -/
theorem chunks_geometry (hpos : 1 ≤ chunkSize) (overlapLength : ℕ) :
    (∀ s : List α, ∃ n fuel, stringChunks chunkSize overlapLength fuel s =
        some ((range n).map (chunkAt chunkSize overlapLength s) ++ [s.drop (n * chunkSize)]) ∧
      (n ≠ 0 → 100 < (s.drop (n * chunkSize)).length) ∧
      (s.drop (n * chunkSize)).length ≤ chunkSize + 100 ∧
      ∀ fuel chunks, stringChunks chunkSize overlapLength fuel s = some chunks →
        ∀ i c c', chunks[i]? = some c → chunks[i + 1]? = some c' → c.drop chunkSize <+: c') ∧
    ∀ sentence : List (List α), (∃ s ∈ sentence, s ≠ []) → ∃ fuel rows,
      sequenceChunks chunkSize overlapLength fuel sentence = some (.ok rows) ∧
      ∀ (j : ℕ) (s : List α), sentence[j]? = some s → ∃ fuel chunks k,
        stringChunks chunkSize overlapLength fuel s = some chunks ∧
        (rows.map fun row => row[j]?) = (chunks ++ replicate k []).map some := by
  refine ⟨fun s => ?_, fun sentence hsome => ?_⟩
  · obtain ⟨n, hn⟩ := exists_rounds hpos s
    have heq : stringChunks chunkSize overlapLength (n + 1) s = _ := stringChunks_eq hn n.lt_succ_self
    refine ⟨n, n + 1, heq, fun hne => ?_, ?_, fun fuel chunks hchunks i c c' => ?_⟩
    · have := hn.left hne
      rw [length_drop]
      omega
    · have := hn.last
      rw [length_drop]
      omega
    · rw [stringChunks_unique hchunks heq]
      exact chunkList_shared n
  · obtain ⟨t, ht, hne⟩ := hsome
    obtain ⟨fuel, hfuel⟩ : ∃ fuel, ∀ s ∈ sentence, s.length < fuel :=
      ⟨sentence.flatten.length + 1, fun s hs =>
        lt_succ_of_le (sublist_flatten_of_mem hs).length_le⟩
    obtain ⟨rows, hrows, hcols⟩ := sequenceLoop_columns hpos fuel
      hfuel ((zero_le _).trans_lt (hfuel t ht))
    refine ⟨fuel, rows, ?_, fun j s hs => ?_⟩
    · cases sentence with
      | nil => cases ht
      | cons a sentence => rw [sequenceChunks, hrows, map_some]
    · obtain ⟨n, k, hn, hcol⟩ := hcols j s hs
      have heq : stringChunks chunkSize overlapLength (n + 1) s = _ := stringChunks_eq hn n.lt_succ_self
      by_cases hnil : s = []
      · rw [if_pos hnil, nil_append] at hcol
        -- there is a row, since some string is not empty
        have hk : k = rows.length := by
          have := congrArg length hcol
          rw [length_map, length_map, length_replicate] at this
          exact this.symm
        have hrow : rows ≠ [] := by
          intro hrows
          obtain ⟨i, hi⟩ := mem_iff_getElem?.1 ht
          obtain ⟨n', k', -, hcol'⟩ := hcols i t hi
          rw [hrows, if_neg hne] at hcol'
          have := congrArg length hcol'
          simp [chunkList] at this
        have h₀ : n = 0 := hn.of_short (by rw [hnil, length_nil]; omega)
        refine ⟨n + 1, _, k - 1, heq, ?_⟩
        rw [hcol, h₀, chunkList_zero, hnil, singleton_append, ← replicate_succ,
          Nat.sub_add_cancel (hk ▸ length_pos_iff.2 hrow)]
      · rw [if_neg hnil] at hcol
        exact ⟨n + 1, _, k, heq, hcol⟩

/-- A text of 250 characters has two rounds with chunks of 60, and the sequence form yields its
chunks beside those of a shorter text. -/
theorem chunks_geometry_two : ∃ fuel rows,
    sequenceChunks 60 20 fuel [range 250, [0]] = some (.ok rows) ∧
      ∀ (j : ℕ) (s : List ℕ), [range 250, [0]][j]? = some s → ∃ fuel chunks k,
        stringChunks 60 20 fuel s = some chunks ∧
        (rows.map fun row => row[j]?) = (chunks ++ replicate k []).map some :=
  (chunks_geometry (by decide : 1 ≤ 60) 20).2 [range 250, [0]] ⟨[0], by simp, by decide⟩

/-- An empty text alone has an empty chunk, but the sequence form yields no row. -/
theorem sequenceChunks_empty : ∃ fuel rows,
    sequenceChunks 60 20 fuel [([] : List Char)] = some (.ok rows) ∧
      ¬ ∃ fuel chunks k, stringChunks 60 20 fuel ([] : List Char) = some chunks ∧
        (rows.map fun row => row[0]?) = (chunks ++ replicate k []).map some := by
  refine ⟨1, [], rfl, ?_⟩
  rintro ⟨fuel, chunks, k, hchunks, hrows⟩
  rw [stringChunks_unique hchunks (rfl : stringChunks 60 20 1 [] = some [[]])] at hrows
  cases hrows

/-- With the limits of a `ChunkConfig`, the string form is the function `chunks`. -/
theorem stringChunks_chunkConfig (cfg : ChunkConfig) (s : List α) : ∀ {fuel : ℕ}, s.length < fuel →
    stringChunks cfg.chunkSize cfg.overlap fuel s = some (chunks cfg s) := by
  induction s using chunks_induction cfg with
  | last s hshort =>
    intro fuel hfuel
    cases fuel with
    | zero => omega
    | succ fuel =>
      unfold stringChunks
      rw [if_neg (by omega), chunks_of_short hshort]
  | round s hlong ih =>
    intro fuel hfuel
    cases fuel with
    | zero => omega
    | succ fuel =>
      have hpos := cfg.chunkSize_pos
      unfold stringChunks
      rw [if_pos (by omega), sliceFrom_natCast, ih (by rw [length_drop]; omega),
        chunks_of_long hlong, map_some, ← Int.natCast_add, sliceTo_natCast]

end LoptVllm.Lopt
