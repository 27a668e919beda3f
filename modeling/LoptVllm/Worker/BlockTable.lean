import LoptVllm.Lib.Rows
import LoptVllm.Python
import Mathlib.Data.List.Range

/-!
# The block tables of the worker

One table for each KV cache group; a row holds the block ids of the request at that row.
-/

namespace LoptVllm.Worker

open List Function

/-- `BlockTable`. A row of the numpy array is as long as needed. -/
structure BlockTable where
  blocksPerKvBlock : ℕ
  useHybridBlocks : Bool
  blockTable : ℕ → ℕ → ℕ
  numBlocksPerRow : ℕ → ℕ

namespace BlockTable

/-- `BlockTable(block_size, …, kernel_block_size)`. -/
def new (blockSize kernelBlockSize : ℕ) : Except PyErr BlockTable :=
  if kernelBlockSize = blockSize then .ok ⟨1, false, fun _ _ => 0, fun _ => 0⟩
  else if blockSize % kernelBlockSize ≠ 0 then
    .error (.valueError "kernel_block_size must divide kv_manager_block_size size evenly")
  else .ok ⟨blockSize / kernelBlockSize, true, fun _ _ => 0, fun _ => 0⟩

/-- `map_to_kernel_blocks`. -/
def mapToKernelBlocks (kvManagerBlockIds : List ℕ) (blocksPerKvBlock : ℕ) : List ℕ :=
  if blocksPerKvBlock = 1 then kvManagerBlockIds
  else kvManagerBlockIds.flatMap fun id =>
    (range blocksPerKvBlock).map (id * blocksPerKvBlock + ·)

variable (t : BlockTable) (blockIds : List ℕ)

/-- The ids under which the kernel knows the blocks. -/
def kernelBlocks : List ℕ :=
  if t.useHybridBlocks then mapToKernelBlocks blockIds t.blocksPerKvBlock else blockIds

/-- `append_row`. -/
def appendRow (rowIdx : ℕ) : BlockTable := if blockIds = [] then t
  else
    let blockIds := t.kernelBlocks blockIds
    let start := t.numBlocksPerRow rowIdx
    { t with
      numBlocksPerRow := update t.numBlocksPerRow rowIdx (start + blockIds.length)
      blockTable := update t.blockTable rowIdx (setSlice (t.blockTable rowIdx) start blockIds) }

/-- `add_row`. -/
def addRow (rowIdx : ℕ) : BlockTable :=
  { t with numBlocksPerRow := update t.numBlocksPerRow rowIdx 0 }.appendRow blockIds rowIdx

/-- `move_row`. -/
def moveRow (src tgt : ℕ) : BlockTable :=
  let numBlocks := t.numBlocksPerRow src
  { t with
    blockTable := update t.blockTable tgt
      (setSlice (t.blockTable tgt) 0 ((range numBlocks).map (t.blockTable src)))
    numBlocksPerRow := update t.numBlocksPerRow tgt numBlocks }

/-- `swap_row`. -/
def swapRow (src tgt : ℕ) : BlockTable :=
  { t with
    numBlocksPerRow := swapRows t.numBlocksPerRow src tgt
    blockTable := swapRows t.blockTable src tgt }

/-- The block ids of a row. -/
def row (i : ℕ) : List ℕ := (range (t.numBlocksPerRow i)).map (t.blockTable i)

variable {t}

theorem kernelBlocks_nil : t.kernelBlocks [] = [] := by
  unfold kernelBlocks mapToKernelBlocks
  split_ifs <;> rfl

theorem kernelBlocks_append (l l' : List ℕ) :
    t.kernelBlocks (l ++ l') = t.kernelBlocks l ++ t.kernelBlocks l' := by
  unfold kernelBlocks mapToKernelBlocks
  split_ifs <;> simp

variable (ids : List ℕ)

@[simp] theorem kernelBlocks_appendRow (i : ℕ) :
    (t.appendRow ids i).kernelBlocks = t.kernelBlocks := by
  unfold appendRow
  split_ifs <;> rfl

@[simp] theorem kernelBlocks_addRow (i : ℕ) : (t.addRow ids i).kernelBlocks = t.kernelBlocks := by
  unfold addRow
  rw [kernelBlocks_appendRow]
  rfl

@[simp] theorem kernelBlocks_moveRow (src tgt : ℕ) :
    (t.moveRow src tgt).kernelBlocks = t.kernelBlocks := rfl

@[simp] theorem kernelBlocks_swapRow (src tgt : ℕ) :
    (t.swapRow src tgt).kernelBlocks = t.kernelBlocks := rfl

theorem row_appendRow (i k : ℕ) :
    (t.appendRow ids i).row k = if k = i then t.row i ++ t.kernelBlocks ids else t.row k := by
  unfold appendRow
  split_ifs with hids hk hk
  · rw [hk, hids, kernelBlocks_nil, append_nil]
  · rfl
  · subst hk
    unfold row
    simp only [update_self]
    exact map_setSlice _ _ _
  · unfold row
    simp only [update_of_ne hk]

theorem row_addRow (i k : ℕ) :
    (t.addRow ids i).row k = if k = i then t.kernelBlocks ids else t.row k := by
  unfold addRow
  rw [row_appendRow]
  split_ifs with hk
  · unfold row
    simp only [update_self]
    rfl
  · unfold row
    simp only [update_of_ne hk]

theorem row_moveRow (src tgt k : ℕ) :
    (t.moveRow src tgt).row k = t.row (if k = tgt then src else k) := by
  unfold moveRow row
  split_ifs with hk
  · subst hk
    simp only [update_self]
    have hmap := map_setSlice (t.blockTable k) 0
      ((range (t.numBlocksPerRow src)).map (t.blockTable src))
    rwa [length_map, length_range, Nat.zero_add] at hmap
  · simp only [update_of_ne hk]

theorem row_swapRow (src tgt k : ℕ) : (t.swapRow src tgt).row k = t.row (Equiv.swap src tgt k) := by
  unfold swapRow row
  simp only [swapRows_apply]

end BlockTable

/-- `MultiGroupBlockTable`: the tables, one for each KV cache group. -/
abbrev MultiGroupBlockTable := List BlockTable

namespace MultiGroupBlockTable

/-- `MultiGroupBlockTable(…, block_sizes, kernel_block_sizes)`. -/
def new (blockSizes kernelBlockSizes : List ℕ) : Except PyErr MultiGroupBlockTable :=
  if kernelBlockSizes.length ≠ blockSizes.length then
    .error (.valueError "kernel_block_sizes length must match block_sizes length")
  else (blockSizes.zip kernelBlockSizes).mapM fun (blockSize, kernelBlockSize) =>
    BlockTable.new blockSize kernelBlockSize

variable (ts : MultiGroupBlockTable) (blockIds : List (List ℕ))

/-- `append_row`. -/
def appendRow (rowIdx : ℕ) : MultiGroupBlockTable :=
  ts.mapIdx fun i t => t.appendRow (blockIds.getD i []) rowIdx

/-- `add_row`. -/
def addRow (rowIdx : ℕ) : MultiGroupBlockTable :=
  ts.mapIdx fun i t => t.addRow (blockIds.getD i []) rowIdx

/-- `move_row`. -/
def moveRow (src tgt : ℕ) : MultiGroupBlockTable := ts.map fun t => t.moveRow src tgt

/-- `swap_row`. -/
def swapRow (src tgt : ℕ) : MultiGroupBlockTable := ts.map fun t => t.swapRow src tgt

/-- The block ids of a row, for each group. -/
def row (i : ℕ) : List (List ℕ) := ts.map fun t => t.row i

/-- The ids under which the kernel knows the blocks of a request. -/
def kernelBlocks : List (List ℕ) :=
  ts.mapIdx fun i t => t.kernelBlocks (blockIds.getD i [])

variable {ts} (ids : List (List ℕ))

@[simp] theorem kernelBlocks_appendRow (i : ℕ) :
    (appendRow ts ids i).kernelBlocks = kernelBlocks ts := by
  unfold kernelBlocks appendRow
  simp [mapIdx_mapIdx, comp_def]

@[simp] theorem kernelBlocks_addRow (i : ℕ) : (addRow ts ids i).kernelBlocks = kernelBlocks ts := by
  unfold kernelBlocks addRow
  simp [mapIdx_mapIdx, comp_def]

@[simp] theorem kernelBlocks_moveRow (src tgt : ℕ) :
    (moveRow ts src tgt).kernelBlocks = kernelBlocks ts := by
  funext ids'
  refine ext_getElem (by simp [kernelBlocks, moveRow]) fun g h₁ h₂ => ?_
  simp [kernelBlocks, moveRow]

@[simp] theorem kernelBlocks_swapRow (src tgt : ℕ) :
    (swapRow ts src tgt).kernelBlocks = kernelBlocks ts := by
  funext ids'
  refine ext_getElem (by simp [kernelBlocks, swapRow]) fun g h₁ h₂ => ?_
  simp [kernelBlocks, swapRow]

/-- The blocks of a request that is extended. -/
theorem kernelBlocks_zipWith {ids ids' : List (List ℕ)} (h : ids.length = ts.length)
    (h' : ids'.length = ts.length) : kernelBlocks ts (zipWith (· ++ ·) ids ids') =
      zipWith (· ++ ·) (kernelBlocks ts ids) (kernelBlocks ts ids') := by
  refine ext_getElem (by simp [kernelBlocks]) fun g h₁ h₂ => ?_
  have hg : g < ts.length := by simpa [kernelBlocks] using h₁
  have hg₁ : g < ids.length := h ▸ hg
  have hg₂ : g < ids'.length := h' ▸ hg
  simp [kernelBlocks, getElem?_zipWith, getElem?_eq_getElem hg₁,
    getElem?_eq_getElem hg₂, BlockTable.kernelBlocks_append]

theorem row_appendRow_self (i : ℕ) : (appendRow ts ids i).row i =
      zipWith (· ++ ·) (row ts i) (kernelBlocks ts ids) := by
  refine ext_getElem (by simp [row, appendRow, kernelBlocks]) fun g h₁ h₂ => ?_
  simp [row, appendRow, kernelBlocks, BlockTable.row_appendRow]

theorem row_appendRow_of_ne {i k : ℕ} (h : k ≠ i) : (appendRow ts ids i).row k = row ts k := by
  refine ext_getElem (by simp [row, appendRow]) fun g h₁ h₂ => ?_
  simp [row, appendRow, BlockTable.row_appendRow, h]

theorem row_addRow (i k : ℕ) :
    (addRow ts ids i).row k = if k = i then kernelBlocks ts ids else row ts k := by
  split_ifs with h
  · refine ext_getElem (by simp [row, addRow, kernelBlocks]) fun g h₁ h₂ => ?_
    simp [row, addRow, kernelBlocks, BlockTable.row_addRow, h]
  · refine ext_getElem (by simp [row, addRow]) fun g h₁ h₂ => ?_
    simp [row, addRow, BlockTable.row_addRow, h]

theorem row_moveRow (src tgt k : ℕ) :
    (moveRow ts src tgt).row k = row ts (if k = tgt then src else k) := by
  unfold row moveRow
  simp [BlockTable.row_moveRow, comp_def]

theorem row_swapRow (src tgt k : ℕ) :
    (swapRow ts src tgt).row k = row ts (Equiv.swap src tgt k) := by
  unfold row swapRow
  simp [BlockTable.row_swapRow, comp_def]

end MultiGroupBlockTable

end LoptVllm.Worker
