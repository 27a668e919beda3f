import LoptVllm.Lopt.ChunkGeometry
import Mathlib.Algebra.Order.Group.Int

/-!
# When the chunks of a text come to an end

The chunk size of the configuration is not validated. With a chunk size of zero the rest of a text
is the whole text, and with a negative one it is a piece of fixed length from its end, so the loop may
go round forever.
-/

namespace LoptVllm.Lopt

open Option List

variable {α : Type*} {chunkSize overlap : ℤ}

/-- The chunks that `__call__` hands to the pool: none for a short text, which the main tokenizer
takes, and else those of `_parallel_encode`. -/
def parallelChunks (chunkSize overlap : ℤ) (fuel : ℕ) (text : List α) : Option (List (List α)) :=
  if (text.length : ℤ) < chunkSize * 2 then some []
  else stringChunks chunkSize overlap fuel text

/-- The loop ends. -/
def Terminates (chunkSize overlap : ℤ) (text : List α) : Prop :=
  ∃ fuel chunks, stringChunks chunkSize overlap fuel text = some chunks

variable {text : List α}

theorem terminates_of_short (h : (text.length : ℤ) - chunkSize ≤ 100) :
    Terminates chunkSize overlap text :=
  ⟨1, [text], by rw [stringChunks, if_neg (not_lt.2 h)]⟩

/-- A round goes on with the rest of the text. -/
theorem terminates_iff_of_long (h : 100 < (text.length : ℤ) - chunkSize) :
    Terminates chunkSize overlap text ↔ Terminates chunkSize overlap (sliceFrom text chunkSize) := by
  constructor
  · rintro ⟨fuel, chunks, hchunks⟩
    cases fuel with
    | zero => cases hchunks
    | succ fuel =>
      unfold stringChunks at hchunks
      rw [if_pos h] at hchunks
      obtain ⟨rest, hrest, -⟩ := map_eq_some_iff.1 hchunks
      exact ⟨fuel, rest, hrest⟩
  · rintro ⟨fuel, chunks, hchunks⟩
    refine ⟨fuel + 1, sliceTo text (overlap + chunkSize) :: chunks, ?_⟩
    unfold stringChunks
    rw [if_pos h, hchunks, map_some]

/-- A long text that a round leaves as it is. -/
theorem not_terminates_of_fixed (h : 100 < (text.length : ℤ) - chunkSize)
    (hfixed : sliceFrom text chunkSize = text) : ¬ Terminates chunkSize overlap text := by
  rintro ⟨fuel, chunks, hchunks⟩
  induction fuel generalizing chunks with
  | zero => cases hchunks
  | succ fuel ih =>
    unfold stringChunks at hchunks
    rw [if_pos h, hfixed] at hchunks
    obtain ⟨rest, hrest, -⟩ := map_eq_some_iff.1 hchunks
    exact ih rest hrest

theorem terminates_of_pos (h : 0 < chunkSize) (text : List α) :
    Terminates chunkSize overlap text := by
  induction hn : text.length using Nat.strong_induction_on generalizing text with
  | _ n ih =>
    by_cases hlong : 100 < (text.length : ℤ) - chunkSize
    · rw [terminates_iff_of_long hlong]
      refine ih _ ?_ _ rfl
      obtain ⟨k, rfl⟩ := Int.eq_ofNat_of_zero_le h.le
      rw [sliceFrom_natCast, length_drop]
      omega
    · exact terminates_of_short (not_lt.1 hlong)

/-- A text that is not longer than the piece that a round leaves. -/
theorem sliceFrom_fixed (h : chunkSize ≤ 0) (hlen : chunkSize = 0 ∨ (text.length : ℤ) ≤ -chunkSize) :
    sliceFrom text chunkSize = text := by
  unfold sliceFrom
  split_ifs with hneg
  · rw [show (chunkSize + text.length).toNat = 0 by omega, drop_zero]
  · rw [show chunkSize.toNat = 0 by omega, drop_zero]

/-- With a negative chunk size, only the first round changes the text. -/
theorem terminates_iff_of_neg (h : chunkSize < 0) : Terminates chunkSize overlap text ↔
    -chunkSize ≤ 50 ∨ (text.length : ℤ) - chunkSize ≤ 100 := by
  by_cases hlong : 100 < (text.length : ℤ) - chunkSize
  · have hlen := length_sliceFrom_of_neg text h
    have hfixed : sliceFrom (sliceFrom text chunkSize) chunkSize = sliceFrom text chunkSize :=
      sliceFrom_fixed h.le (.inr (by omega))
    rw [terminates_iff_of_long hlong]
    constructor
    · intro hterm
      by_contra hnot
      refine not_terminates_of_fixed ?_ hfixed hterm
      omega
    · intro hsmall
      exact terminates_of_short (by omega)
  · exact iff_of_true (terminates_of_short (not_lt.1 hlong)) (.inr (not_lt.1 hlong))

/-- **The loop ends exactly if** the chunk size is positive, or it is zero and the text has at most
100 characters, or it is negative and what a round leaves of the text is too short for another
one. -/
theorem parallelChunks_terminates_iff (chunkSize overlap : ℤ) (text : List α) :
    (∃ fuel chunks, parallelChunks chunkSize overlap fuel text = some chunks) ↔
      0 < chunkSize ∨ (chunkSize = 0 ∧ text.length ≤ 100) ∨
        (chunkSize < 0 ∧ (-chunkSize ≤ 50 ∨ (text.length : ℤ) - chunkSize ≤ 100)) := by
  by_cases hshort : (text.length : ℤ) < chunkSize * 2
  · exact iff_of_true ⟨0, [], if_pos hshort⟩ (.inl (by omega))
  · simp only [parallelChunks, if_neg hshort]
    show Terminates chunkSize overlap text ↔ _
    rcases lt_trichotomy chunkSize 0 with hneg | rfl | hpos
    · rw [terminates_iff_of_neg hneg]
      omega
    · by_cases hlong : 100 < (text.length : ℤ) - 0
      · refine iff_of_false (not_terminates_of_fixed hlong ?_) (by omega)
        exact sliceFrom_fixed le_rfl (.inl rfl)
      · exact iff_of_true (terminates_of_short (not_lt.1 hlong)) (by omega)
    · exact iff_of_true (terminates_of_pos hpos text) (.inl hpos)

/-- The overlap that the constructor computes, `int(chunk_size * 0.125)`. -/
def overlapOf (chunkSize : ℤ) : ℤ := chunkSize.tdiv 8

/-- With a chunk size of zero, a text of 101 characters has no end of chunks. -/
theorem parallelChunks_forever : ¬ ∃ fuel chunks,
    parallelChunks 0 (overlapOf 0) fuel (List.replicate 101 'a') = some chunks := by
  rintro ⟨fuel, chunks, h⟩
  exact not_terminates_of_fixed (by decide) (sliceFrom_fixed le_rfl (.inl rfl)) ⟨fuel, chunks, h⟩

end LoptVllm.Lopt
