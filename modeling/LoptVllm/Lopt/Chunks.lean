import Mathlib.Data.List.Basic
import Mathlib.Order.Nat

/-!
# Splitting a text into overlapping chunks

`chunks` and `pairs` of `lopt_utils.py`. A text is a list of characters of an arbitrary type.

The generator `chunks` cuts `chunk_size` characters off the sentence while more than 100 would
be left, and yields each time the first `overlap_length + chunk_size` of them. The model runs it
with the length of the text as fuel, which is enough (`chunks_eq`).
-/

namespace LoptVllm.Lopt

/-- The `chunk_size` and `overlap` of a `LoptParallelTokenizer`. -/
structure ChunkConfig where
  chunkSize : ℕ
  overlap : ℕ
  chunkSize_pos : 0 < chunkSize
  overlap_le : overlap ≤ chunkSize

variable {α : Type*} (cfg : ChunkConfig)

/-- The loop of `chunks` with at most `fuel` rounds. -/
def chunksFrom : ℕ → List α → List (List α)
  | 0, sentence => [sentence]
  | fuel + 1, sentence =>
    if sentence.length > cfg.chunkSize + 100 then
      sentence.take (cfg.overlap + cfg.chunkSize) :: chunksFrom fuel (sentence.drop cfg.chunkSize)
    else
      [sentence]

/-- `chunks(text, chunk_size, overlap)` for a string. -/
def chunks (text : List α) : List (List α) := chunksFrom cfg text.length text

/-- `pairs`: the neighbours of a list. -/
def pairs {β : Type*} : List β → List (β × β)
  | a :: b :: rest => (a, b) :: pairs (b :: rest)
  | _ => []

variable {cfg} {s : List α}

theorem chunksFrom_eq {fuel : ℕ} (h : s.length ≤ fuel) : chunksFrom cfg fuel s = chunks cfg s := by
  induction fuel using Nat.strong_induction_on generalizing s with
  | _ fuel ih =>
    unfold chunks
    have hpos := cfg.chunkSize_pos
    cases fuel with
    | zero =>
      have hs : s.length = 0 := by omega
      rw [hs]
    | succ fuel =>
      cases hlen : s.length with
      | zero => simp [chunksFrom, hlen]
      | succ n =>
        have hdrop : (s.drop cfg.chunkSize).length ≤ n := by simp; omega
        simp only [chunksFrom]
        rw [ih fuel (by omega) (by omega)]
        -- the fuel of the right-hand side is the length of `s`, which is at most `fuel + 1`
        rcases Nat.lt_or_ge n fuel with hn | hn
        · rw [ih n (by omega) hdrop]
        · rw [show n = fuel by omega, ih fuel (by omega) (by omega)]

theorem chunks_eq (s : List α) : chunks cfg s = if s.length > cfg.chunkSize + 100 then
        s.take (cfg.overlap + cfg.chunkSize) :: chunks cfg (s.drop cfg.chunkSize) else [s] := by
  have h : chunks cfg s = chunksFrom cfg (s.length + 1) s := (chunksFrom_eq (Nat.le_succ _)).symm
  rw [h]
  simp only [chunksFrom]
  rw [chunksFrom_eq (by simp)]

theorem chunks_of_long (h : s.length > cfg.chunkSize + 100) :
    chunks cfg s = s.take (cfg.overlap + cfg.chunkSize) :: chunks cfg (s.drop cfg.chunkSize) := by
  rw [chunks_eq, if_pos h]

theorem chunks_of_short (h : ¬ s.length > cfg.chunkSize + 100) : chunks cfg s = [s] := by
  rw [chunks_eq, if_neg h]

/-- Induction along the rounds of `chunks`. -/
theorem chunks_induction (cfg : ChunkConfig) {P : List α → Prop}
    (last : ∀ s, ¬ s.length > cfg.chunkSize + 100 → P s)
    (round : ∀ s, s.length > cfg.chunkSize + 100 → P (s.drop cfg.chunkSize) → P s) (s : List α) :
    P s := by
  induction hn : s.length using Nat.strong_induction_on generalizing s with
  | _ n ih =>
    by_cases h : s.length > cfg.chunkSize + 100
    · have hpos := cfg.chunkSize_pos
      exact round s h (ih (s.drop cfg.chunkSize).length (by simp; omega) _ rfl)
    · exact last s h

theorem chunks_ne_nil (cfg : ChunkConfig) (s : List α) : chunks cfg s ≠ [] := by
  rw [chunks_eq]
  split_ifs <;> simp

/-- The text is a single chunk exactly when it is too short for a first round. -/
theorem length_chunks_eq_one_iff:
    (chunks cfg s).length = 1 ↔ ¬ s.length > cfg.chunkSize + 100 := by
  by_cases h : s.length > cfg.chunkSize + 100
  · rw [chunks_of_long h]
    simp [h, chunks_ne_nil]
  · rw [chunks_of_short h]
    simp only [List.length_singleton, true_iff]
    exact h

end LoptVllm.Lopt
