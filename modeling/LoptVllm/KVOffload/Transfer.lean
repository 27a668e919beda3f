import LoptVllm.Python
import Mathlib.Data.List.Range
import Mathlib.Tactic.Linarith
import Mathlib.Tactic.Ring

/-!
# Transfers between the GPU and the CPU

A transfer copies blocks of the GPU to parts of blocks of the CPU or back.
-/

namespace LoptVllm.KVOffload

open List Function Nat

/-- `expand_block_ids`; the result is what is written to `output`. -/
def expandBlockIds (blockIds : List ℕ) (blockSizeFactor skipCount : ℕ) : Except PyErr (List ℕ) :=
  if blockSizeFactor ≤ skipCount then .error (.assertionError "")
  else
    .ok (blockIds.zipIdx.flatMap fun (blockId, i) =>
      let skipped := if i = 0 then skipCount else 0
      (range' skipped (blockSizeFactor - skipped)).map (blockId * blockSizeFactor + ·))

/-- `transfer_async`: the pairs of a source block and a destination block that are copied. -/
def transferAsync (srcBlockSizeFactor dstBlockSizeFactor : ℕ) (spec : List ℕ × List ℕ) :
    Except PyErr (List (ℕ × ℕ)) :=
  let srcSubBlockCount := spec.1.length * srcBlockSizeFactor
  let dstSubBlockCount := spec.2.length * dstBlockSizeFactor
  let srcSubBlocksToSkip := (-(spec.2.length : ℤ) % srcBlockSizeFactor).toNat
  if (dstSubBlockCount : ℤ) ≠ srcSubBlockCount - srcSubBlocksToSkip then .error (.assertionError "")
  else do
    let src ← expandBlockIds spec.1 srcBlockSizeFactor srcSubBlocksToSkip
    let dst ← expandBlockIds spec.2 dstBlockSizeFactor 0
    return src.zip dst

variable {α : Type}

/-- `swap_blocks`: the contents `dst` after the blocks of `src` are copied. -/
def swapBlocks (src dst : ℕ → α) (srcToDst : List (ℕ × ℕ)) : ℕ → α :=
  srcToDst.foldl (fun dst e => update dst e.2 (src e.1)) dst

/-! ### Contents -/

variable {pairs : List (ℕ × ℕ)}

/-- A block that nothing is copied to keeps its content. -/
theorem swapBlocks_of_notMem {src : ℕ → α} :
    ∀ {dst : ℕ → α} {d : ℕ}, d ∉ pairs.map Prod.snd → swapBlocks src dst pairs d = dst d := by
  induction pairs with
  | nil => exact fun _ => rfl
  | cons e pairs ih =>
    intro dst d hd
    rw [map_cons, mem_cons, not_or] at hd
    exact (ih hd.2).trans (update_of_ne hd.1 _ _)

/-- A block that is copied to once gets the content of its source. -/
theorem swapBlocks_of_mem {src : ℕ → α} :
    ∀ {dst : ℕ → α} {e : ℕ × ℕ}, e ∈ pairs → (pairs.map Prod.snd).count e.2 = 1 →
      swapBlocks src dst pairs e.2 = src e.1 := by
  induction pairs with
  | nil => exact nofun
  | cons p pairs ih =>
    intro dst e he hcount
    rw [map_cons, count_cons] at hcount
    rcases mem_cons.1 he with rfl | he
    · rw [if_pos (beq_self_eq_true e.2)] at hcount
      have hnot : e.2 ∉ pairs.map Prod.snd := count_eq_zero.1 (by omega)
      exact (swapBlocks_of_notMem hnot).trans (update_self _ _ _)
    · have hpos : 0 < (pairs.map Prod.snd).count e.2 := count_pos_iff.2 (mem_map_of_mem he)
      refine ih he ?_
      split at hcount <;> omega

/-! ### Pairs -/

variable (ids : List ℕ)

/-- The parts of blocks, `f` of each block. -/
def subBlocks (f : ℕ) : List ℕ := ids.flatMap fun id => (range f).map (id * f + ·)

theorem subBlocks_one : subBlocks ids 1 = ids := by
  unfold subBlocks
  induction ids with
  | nil => rfl
  | cons id ids ih =>
    simp

/-- The part `t` is the part `t % f` of the block `t / f`. -/
theorem subBlocks_eq {f : ℕ} (hf : 0 < f) : subBlocks ids f =
      (range (ids.length * f)).map fun t => ids.getD (t / f) 0 * f + t % f := by
  induction ids with
  | nil => simp [subBlocks]
  | cons id ids ih =>
    have hlen : (id :: ids).length * f = f + ids.length * f := by
      rw [length_cons]
      ring
    rw [hlen, range_add, map_append, map_map]
    show (range f).map (id * f + ·) ++ subBlocks ids f = _
    rw [ih]
    refine congrArg₂ _ (map_congr_left fun t ht => ?_) (map_congr_left fun t _ => ?_)
    · rw [div_eq_of_lt (mem_range.1 ht), mod_eq_of_lt (mem_range.1 ht)]
      rfl
    · rw [comp_apply, add_div_left t hf, add_mod_left]
      rfl

theorem expandBlockIds_eq {f skip : ℕ} (hskip : skip < f) :
    expandBlockIds ids f skip = .ok ((subBlocks ids f).drop skip) := by
  have htail : ∀ (ids : List ℕ) (k : ℕ), 0 < k → ((ids.zipIdx k).flatMap fun p =>
      (range' (if p.2 = 0 then skip else 0) (f - if p.2 = 0 then skip else 0)).map
        (p.1 * f + ·)) = subBlocks ids f := by
    intro ids
    induction ids with
    | nil => exact fun _ _ => rfl
    | cons id ids ih =>
      intro k hk
      rw [zipIdx_cons, flatMap_cons, ih (k + 1) (succ_pos k)]
      simp only [if_neg hk.ne', ← range_eq_range']
      rfl
  unfold expandBlockIds
  rw [if_neg (by omega)]
  cases ids with
  | nil => simp [subBlocks]
  | cons id ids =>
    have hfirst : (range' skip (f - skip)).map (id * f + ·) =
        ((range f).map (id * f + ·)).drop skip := by
      rw [← map_drop, range_eq_range', drop_range']
      simp
    rw [zipIdx_cons, flatMap_cons, htail ids 1 one_pos]
    show Except.ok ((range' skip (f - skip)).map (id * f + ·) ++ subBlocks ids f) =
      .ok (((range f).map (id * f + ·) ++ subBlocks ids f).drop skip)
    rw [hfirst, drop_append_of_le_length]
    rw [length_map, length_range]
    exact hskip.le

theorem transferAsync_store {src dst : List ℕ} {f : ℕ} (hf : 0 < f)
    (hlen : src.length = dst.length * f) :
    transferAsync 1 f (src, dst) = .ok (src.zip (subBlocks dst f)) := by
  have hskip : (-(dst.length : ℤ) % ((1 : ℕ) : ℤ)).toNat = 0 := by
    rw [cast_one, Int.emod_one]
    rfl
  unfold transferAsync
  rw [hskip, if_neg (by push_cast; omega), expandBlockIds_eq src one_pos,
    expandBlockIds_eq dst hf, subBlocks_one, drop_zero, drop_zero]
  rfl

/-- A load may leave out the first parts of the first block of the CPU. -/
theorem transferAsync_load {src dst : List ℕ} {f skip : ℕ} (hskip : skip < f)
    (hlen : src.length * f = skip + dst.length) :
    transferAsync f 1 (src, dst) = .ok (((subBlocks src f).drop skip).zip dst) := by
  have hmod : (-(dst.length : ℤ) % (f : ℤ)).toNat = skip := by
    have hneg : (-(dst.length : ℤ)) = skip + f * -(src.length : ℤ) := by
      linarith
    rw [hneg, Int.add_mul_emod_self_left, Int.emod_eq_of_lt (by omega) (by omega)]
    rfl
  unfold transferAsync
  rw [hmod, if_neg (by push_cast; omega), expandBlockIds_eq src hskip,
    expandBlockIds_eq dst one_pos, subBlocks_one, drop_zero]
  rfl

end LoptVllm.KVOffload
