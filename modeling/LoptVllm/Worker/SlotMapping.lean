import LoptVllm.Lib.Dealing
import LoptVllm.Worker.BlockTable

/-!
# The slots of the tokens in the KV cache

With context parallelism a block of a request's table stands for a block on each rank: the positions
of this virtual block are dealt out to the ranks, in runs of the interleave size.
-/

namespace LoptVllm.Worker

open List Lib Except Option Nat Int BlockTable

/-- What `get_pcp_group()` and `get_dcp_group()` say. -/
structure CpGroups where
  pcpWorldSize : ℕ
  pcpRank : ℕ
  dcpWorldSize : ℕ
  dcpRank : ℕ

/-- `BlockTable`, with what the slots are computed from. -/
structure CpBlockTable extends BlockTable, CpGroups where
  blockSize : ℕ
  maxNumBlocksPerReq : ℕ
  cpKvCacheInterleaveSize : ℕ

namespace CpBlockTable

/-- `BlockTable.__init__`: in both cases `block_size` is the one of the kernel. -/
def new (blockSize maxNumBlocksPerReq kernelBlockSize cpKvCacheInterleaveSize : ℕ)
    (groups : CpGroups) : Except PyErr CpBlockTable := do
  let t ← BlockTable.new blockSize kernelBlockSize
  .ok { t, groups with
    blockSize := kernelBlockSize
    maxNumBlocksPerReq := maxNumBlocksPerReq * t.blocksPerKvBlock
    cpKvCacheInterleaveSize := cpKvCacheInterleaveSize }

variable (t : CpBlockTable)

def totalCpWorldSize : ℕ := t.pcpWorldSize * t.dcpWorldSize

def totalCpRank : ℕ := t.pcpRank * t.dcpWorldSize + t.dcpRank

/-- `block_table.np.ravel()`. -/
def ravel (i : ℕ) : ℕ := t.blockTable (i / t.maxNumBlocksPerReq) (i % t.maxNumBlocksPerReq)

variable (pair : ℕ × ℕ)

/-- The entry of `slot_mapping` for a request index and a position. -/
def slot : ℤ := if 1 < t.totalCpWorldSize then
    let virtualBlockSize := t.blockSize * t.totalCpWorldSize
    let blockNumber := t.ravel (pair.1 * t.maxNumBlocksPerReq + pair.2 / virtualBlockSize)
    let virtualBlockOffset := pair.2 % virtualBlockSize
    let blockOffset := virtualBlockOffset / (t.totalCpWorldSize * t.cpKvCacheInterleaveSize) *
      t.cpKvCacheInterleaveSize + virtualBlockOffset % t.cpKvCacheInterleaveSize
    -- not-local tokens
    if virtualBlockOffset / t.cpKvCacheInterleaveSize % t.totalCpWorldSize = t.totalCpRank then
      ((blockNumber * t.blockSize + blockOffset : ℕ) : ℤ)
    else -1
  else
    let blockNumber := t.ravel (pair.1 * t.maxNumBlocksPerReq + pair.2 / t.blockSize)
    ((blockNumber * t.blockSize + pair.2 % t.blockSize : ℕ) : ℤ)

/-- `compute_slot_mapping`. -/
def computeSlotMapping (pairs : List (ℕ × ℕ)) : List ℤ := pairs.map t.slot

/-- The table on another rank: all ranks have the same blocks. -/
def onRank (r : ℕ × ℕ) : CpBlockTable := { t with pcpRank := r.1, dcpRank := r.2 }

def IsRank (r : ℕ × ℕ) : Prop := r.1 < t.pcpWorldSize ∧ r.2 < t.dcpWorldSize

/-- Where the table has the block for a position. -/
def cell : ℕ × ℕ := (pair.1, pair.2 / (t.blockSize * t.totalCpWorldSize))

/-- The block that the table has for a position. -/
def block : ℕ := t.blockTable (t.cell pair).1 (t.cell pair).2

/-- The row of the request fits into the array and reaches up to the position. -/
def Held : Prop :=
  (t.cell pair).2 < t.numBlocksPerRow pair.1 ∧ t.numBlocksPerRow pair.1 ≤ t.maxNumBlocksPerReq

/-- Every position has a slot on one rank, in its block, which no other position has, and which it
would have in the table `u`. -/
structure Partitions (u : CpBlockTable) (pairs : List (ℕ × ℕ)) : Prop where
  existsUnique : ∀ k < pairs.length,
    ∃! r, t.IsRank r ∧ ((t.onRank r).computeSlotMapping pairs)[k]? ≠ some (-1)
  inBlock : ∀ {r} {k : ℕ} {a} {s : ℤ}, t.IsRank r → pairs[k]? = some a →
    ((t.onRank r).computeSlotMapping pairs)[k]? = some s → s ≠ -1 → s / t.blockSize = t.block a
  injective : ∀ {r} {j k : ℕ} {a b} {s : ℤ}, t.IsRank r → pairs[j]? = some a → pairs[k]? = some b → a ≠ b →
    (t.cell a ≠ t.cell b → t.block a ≠ t.block b) →
    ((t.onRank r).computeSlotMapping pairs)[j]? = some s →
    ((t.onRank r).computeSlotMapping pairs)[k]? = some s → s = -1
  eqUnsplit : ∀ {r}, t.IsRank r →
    (t.onRank r).computeSlotMapping pairs = (u.onRank r).computeSlotMapping pairs

end CpBlockTable

/-- The operations on the rows. -/
inductive RowOp where
  | appendRow (blockIds : List ℕ) (rowIdx : ℕ)
  | addRow (blockIds : List ℕ) (rowIdx : ℕ)
  | moveRow (src tgt : ℕ)
  | swapRow (src tgt : ℕ)

def RowOp.apply (t : BlockTable) : RowOp → BlockTable
  | .appendRow blockIds rowIdx => t.appendRow blockIds rowIdx
  | .addRow blockIds rowIdx => t.addRow blockIds rowIdx
  | .moveRow src tgt => t.moveRow src tgt
  | .swapRow src tgt => t.swapRow src tgt

/-- The table after some operations. -/
def CpBlockTable.run (t : CpBlockTable) (ops : List RowOp) : CpBlockTable :=
  { t with toBlockTable := ops.foldl RowOp.apply t.toBlockTable }

namespace BlockTable

/-- The rows of `t` are the rows of `u`, split. -/
structure Splits (t u : BlockTable) : Prop where
  kernelBlocks : t.kernelBlocks = fun ids => mapToKernelBlocks ids t.blocksPerKvBlock
  unsplit : u.kernelBlocks = id
  row : ∀ i, t.row i = mapToKernelBlocks (u.row i) t.blocksPerKvBlock

variable {t u : BlockTable}

@[simp] theorem length_mapToKernelBlocks (ids : List ℕ) (n : ℕ) :
    (mapToKernelBlocks ids n).length = ids.length * n := by
  unfold mapToKernelBlocks
  split_ifs with hn
  · simp [hn]
  · simp [length_flatMap]

theorem mapToKernelBlocks_append (ids ids' : List ℕ) (n : ℕ) :
    mapToKernelBlocks (ids ++ ids') n = mapToKernelBlocks ids n ++ mapToKernelBlocks ids' n := by
  unfold mapToKernelBlocks
  split_ifs <;> simp

theorem getElem?_mapToKernelBlocks (ids : List ℕ) {n : ℕ} (hn : 0 < n) (c : ℕ) :
    (mapToKernelBlocks ids n)[c]? = ids[c / n]?.map (· * n + c % n) := by
  unfold mapToKernelBlocks
  split_ifs with hone
  · simp [hone, mod_one]
  · induction ids generalizing c with
    | nil => simp
    | cons id ids ih =>
      rw [flatMap_cons, getElem?_append]
      simp only [length_map, length_range]
      split_ifs with hc
      · simp [div_eq_of_lt hc, mod_eq_of_lt hc, hc]
      · obtain ⟨d, rfl⟩ := Nat.exists_eq_add_of_le (Nat.le_of_not_lt hc)
        rw [Nat.add_sub_cancel_left, ih, add_div_left _ hn, add_mod_left, getElem?_cons_succ]

variable (t)

theorem getElem?_row (i c : ℕ) :
    (t.row i)[c]? = if c < t.numBlocksPerRow i then some (t.blockTable i c) else none := by
  unfold row
  split_ifs with hc <;> simp [hc]

theorem length_row (i : ℕ) : (t.row i).length = t.numBlocksPerRow i := by
  simp [row]

@[simp] theorem blocksPerKvBlock_apply (op : RowOp) :
    (op.apply t).blocksPerKvBlock = t.blocksPerKvBlock := by
  cases op <;> simp only [RowOp.apply, addRow, appendRow, moveRow, swapRow] <;> split_ifs <;> rfl

variable {t}

/-- One operation on both tables keeps their rows together. -/
theorem Splits.apply (h : Splits t u) (op : RowOp) : Splits (op.apply t) (op.apply u) := by
  obtain ⟨hkernel, hunsplit, hrow⟩ := h
  refine ⟨?_, ?_, fun i => ?_⟩
  · rw [blocksPerKvBlock_apply, ← hkernel]
    cases op <;> simp [RowOp.apply]
  · rw [← hunsplit]
    cases op <;> simp [RowOp.apply]
  · rw [blocksPerKvBlock_apply]
    cases op with
    | appendRow ids j =>
      simp only [RowOp.apply, row_appendRow, hkernel, hunsplit, hrow, id]
      split_ifs
      · rw [mapToKernelBlocks_append]
      · rfl
    | addRow ids j =>
      simp only [RowOp.apply, row_addRow, hkernel, hunsplit, hrow, id]
      split_ifs <;> rfl
    | moveRow src tgt => simp only [RowOp.apply, row_moveRow, hrow]
    | swapRow src tgt => simp only [RowOp.apply, row_swapRow, hrow]

theorem Splits.foldl (h : Splits t u) (ops : List RowOp) :
    Splits (ops.foldl RowOp.apply t) (ops.foldl RowOp.apply u) ∧
      (ops.foldl RowOp.apply t).blocksPerKvBlock = t.blocksPerKvBlock := by
  induction ops generalizing t u with
  | nil => exact ⟨h, rfl⟩
  | cons op ops ih =>
    rw [← blocksPerKvBlock_apply t op]
    exact ih (h.apply op)

/-- The constructor's table and the one whose blocks are not split. -/
theorem new_splits {blockSize kernelBlockSize : ℕ} (h : new blockSize kernelBlockSize = .ok t)
    (h' : new blockSize blockSize = .ok u) :
    Splits t u ∧ kernelBlockSize * t.blocksPerKvBlock = blockSize := by
  rw [new, if_pos rfl] at h'
  obtain rfl := ok.inj h'
  unfold new at h
  split_ifs at h with heq hmod
  · obtain rfl := ok.inj h
    exact ⟨⟨rfl, rfl, fun i => rfl⟩, by rw [mul_one, heq]⟩
  · obtain rfl := ok.inj h
    refine ⟨⟨rfl, rfl, fun i => ?_⟩, Nat.mul_div_cancel' (dvd_of_mod_eq_zero (not_not.1 hmod))⟩
    exact (kernelBlocks_nil (t := ⟨blockSize / kernelBlockSize, true, fun _ _ => 0, fun _ => 0⟩)).symm

end BlockTable

namespace CpBlockTable

/-- `t` has the blocks of `u`, split. -/
structure SplitOf (t u : CpBlockTable) : Prop where
  rows : t.Splits u.toBlockTable
  size : t.blockSize * t.blocksPerKvBlock = u.blockSize
  maxBlocks : t.maxNumBlocksPerReq = u.maxNumBlocksPerReq * t.blocksPerKvBlock
  groups : t.toCpGroups = u.toCpGroups
  interleave : t.cpKvCacheInterleaveSize = u.cpKvCacheInterleaveSize

variable {t u : CpBlockTable} {a : ℕ × ℕ}

theorem SplitOf.run (h : SplitOf t u) (ops : List RowOp) : SplitOf (t.run ops) (u.run ops) := by
  obtain ⟨hrows, hblocks⟩ := h.rows.foldl ops
  refine ⟨hrows, ?_, ?_, h.groups, h.interleave⟩
  · exact (congrArg _ hblocks).trans h.size
  · exact h.maxBlocks.trans (congrArg _ hblocks.symm)

theorem new_splitOf {B K M I : ℕ} {g : CpGroups} (ht : new B M K I g = .ok t)
    (hu : new B M B I g = .ok u) :
    SplitOf t u ∧ t.blockSize = K ∧ u.blockSize = B ∧ u.maxNumBlocksPerReq = M ∧
      t.toCpGroups = g ∧ t.cpKvCacheInterleaveSize = I := by
  obtain ⟨t₀, ht₀, ht⟩ := bind_ok.1 ht
  obtain ⟨u₀, hu₀, hu⟩ := bind_ok.1 hu
  obtain rfl := ok.inj ht
  obtain rfl := ok.inj hu
  obtain ⟨hrows, hsize⟩ := new_splits ht₀ hu₀
  have hone : u₀.blocksPerKvBlock = 1 := by
    rw [BlockTable.new, if_pos rfl] at hu₀
    exact (ok.inj hu₀) ▸ rfl
  refine ⟨⟨hrows, hsize, ?_, rfl, rfl⟩, rfl, rfl, ?_, rfl, rfl⟩
  · simp [hone]
  · simp [hone]

theorem ravel_of_held (h : t.Held a) :
    t.ravel (a.1 * t.maxNumBlocksPerReq + (t.cell a).2) = t.block a := by
  have hlt := h.1.trans_le h.2
  rw [ravel, mul_comm, mul_add_div (by omega), div_eq_of_lt hlt, add_zero,
    mul_add_mod, mod_eq_of_lt hlt]
  rfl

variable (t) (a)

/-- Where a position is in its virtual block. -/
def offset : ℕ := a.2 % (t.blockSize * t.totalCpWorldSize)

/-- The number of the rank to which a position is dealt out. -/
def rankOf : ℕ :=
  hand t.totalCpWorldSize t.cpKvCacheInterleaveSize (t.offset a)

/-- The place of a position in its block on this rank. -/
def placeOf : ℕ :=
  place t.totalCpWorldSize t.cpKvCacheInterleaveSize (t.offset a)

variable {a} {t} {r : ℕ × ℕ}

/-- Without context parallelism the only rank has the whole block. -/
theorem slot_onRank (h : t.Held a) (hr : t.IsRank r) : (t.onRank r).slot a =
    if t.rankOf a = r.1 * t.dcpWorldSize + r.2 then
      ((t.block a * t.blockSize + t.placeOf a : ℕ) : ℤ) else -1 := by
  have hravel : (t.onRank r).ravel (a.1 * t.maxNumBlocksPerReq + (t.cell a).2) = t.block a :=
    ravel_of_held h
  by_cases hw : 1 < (t.onRank r).totalCpWorldSize
  · rw [slot, if_pos hw, ← hravel]
    rfl
  · obtain ⟨hr₁, hr₂⟩ := hr
    have hone : t.totalCpWorldSize = 1 :=
      le_antisymm (Nat.le_of_not_lt hw) (Nat.mul_pos (by omega) (by omega))
    have hp : t.pcpWorldSize = 1 := eq_one_of_mul_eq_one_right hone
    have hd : t.dcpWorldSize = 1 := eq_one_of_mul_eq_one_left hone
    have hrank : t.rankOf a = r.1 * t.dcpWorldSize + r.2 := by
      rw [rankOf, hone, hand_one, hd]
      omega
    have hplace : t.placeOf a = a.2 % t.blockSize := by
      rw [placeOf, hone, place_one, offset, hone, mul_one]
    rw [slot, if_neg hw, if_pos hrank, hplace, ← hravel, cell, hone, mul_one]
    rfl

/-- The runs tile the block, if there are several ranks. -/
def Tiled (t : CpBlockTable) : Prop := t.totalCpWorldSize = 1 ∨ t.cpKvCacheInterleaveSize ∣ t.blockSize

section

variable (h : t.Tiled) (hI : 0 < t.cpKvCacheInterleaveSize)

include h hI

/-- A single rank may as well have runs of one position. -/
theorem Tiled.exists_run : ∃ i, 0 < i ∧ i ∣ t.blockSize ∧
      hand t.totalCpWorldSize t.cpKvCacheInterleaveSize = hand t.totalCpWorldSize i ∧
      place t.totalCpWorldSize t.cpKvCacheInterleaveSize = place t.totalCpWorldSize i := by
  rcases h with hone | hdvd
  · refine ⟨1, one_pos, one_dvd _, ?_, ?_⟩ <;> funext p <;> simp [hone]
  · exact ⟨_, hI, hdvd, rfl, rfl⟩

theorem Tiled.place_lt (hpos : 0 < t.blockSize * t.totalCpWorldSize) :
    t.placeOf a < t.blockSize := by
  obtain ⟨i, hi, hdvd, -, hplace⟩ := h.exists_run hI
  rw [placeOf, hplace]
  exact Lib.place_lt hi hdvd (mod_lt _ hpos)

theorem Tiled.eq_of_place {b : ℕ × ℕ} (hcell : t.cell a = t.cell b)
    (hrank : t.rankOf a = t.rankOf b) (hplace : t.placeOf a = t.placeOf b) : a = b := by
  obtain ⟨i, hi, -, hhands, hplaces⟩ := h.exists_run hI
  rw [rankOf, rankOf, hhands] at hrank
  rw [placeOf, placeOf, hplaces] at hplace
  have hoffset : t.offset a = t.offset b := eq_of_hand_of_place hi hrank hplace
  obtain ⟨hreq, hcol⟩ := Prod.mk.inj hcell
  refine Prod.ext hreq ?_
  rw [← div_add_mod a.2 (t.blockSize * t.totalCpWorldSize), hcol]
  exact (congrArg _ hoffset).trans (div_add_mod _ _)

end

section

variable (h : SplitOf t u)

include h

theorem SplitOf.blocks_pos (hpos : 0 < u.blockSize) : 0 < t.blocksPerKvBlock :=
  Nat.pos_of_mul_pos_left (h.size ▸ hpos)

theorem SplitOf.virtual_pos (hpos : 0 < u.blockSize)
    (hr : t.IsRank r) : 0 < t.blockSize * t.totalCpWorldSize :=
  Nat.mul_pos (Nat.pos_of_mul_pos_right (h.size ▸ hpos))
    (Nat.mul_pos ((zero_le _).trans_lt hr.1) ((zero_le _).trans_lt hr.2))

theorem SplitOf.held (hpos : 0 < u.blockSize) (ha : u.Held a) :
    t.Held a ∧ (t.cell a).2 / t.blocksPerKvBlock = (u.cell a).2 ∧
      t.block a = u.block a * t.blocksPerKvBlock + (t.cell a).2 % t.blocksPerKvBlock := by
  have hn := h.blocks_pos hpos
  have hcol : (t.cell a).2 / t.blocksPerKvBlock = (u.cell a).2 := by
    simp only [cell, totalCpWorldSize, h.groups, ← h.size, Nat.div_div_eq_div_mul]
    congr 1
    ring
  have hrow := h.rows.row a.1
  have hlength : t.numBlocksPerRow a.1 = u.numBlocksPerRow a.1 * t.blocksPerKvBlock := by
    rw [← t.length_row, hrow, length_mapToKernelBlocks, u.length_row]
  have hlt : (t.cell a).2 < t.numBlocksPerRow a.1 := by
    rw [hlength, ← div_lt_iff_lt_mul hn, hcol]
    exact ha.1
  refine ⟨⟨hlt, ?_⟩, hcol, ?_⟩
  · rw [hlength, h.maxBlocks]
    exact mul_le_mul_right _ ha.2
  · have hget := congrArg (·[(t.cell a).2]?) hrow
    simp only [BlockTable.getElem?_mapToKernelBlocks _ hn, BlockTable.getElem?_row, if_pos hlt, hcol,
      if_pos ha.1] at hget
    exact some.inj hget

/-- The kernel blocks of a block have its positions one after the other. -/
theorem SplitOf.offset : u.offset a =
    t.blockSize * t.totalCpWorldSize * ((t.cell a).2 % t.blocksPerKvBlock) + t.offset a := by
  simp only [CpBlockTable.offset, cell, totalCpWorldSize, ← h.groups, ← h.size]
  rw [show t.blockSize * t.blocksPerKvBlock * (t.pcpWorldSize * t.dcpWorldSize) =
    t.blockSize * (t.pcpWorldSize * t.dcpWorldSize) * t.blocksPerKvBlock by ring, mod_mul]
  exact add_comm _ _

theorem SplitOf.slot_eq (htiled : t.Tiled)
    (hI : 0 < t.cpKvCacheInterleaveSize) (hpos : 0 < u.blockSize) (hr : t.IsRank r) (ha : u.Held a) :
    (t.onRank r).slot a = (u.onRank r).slot a := by
  obtain ⟨htheld, -, hblock⟩ := h.held hpos ha
  have hru : u.IsRank r := by simpa only [IsRank, h.groups] using hr
  have hw : t.totalCpWorldSize = u.totalCpWorldSize := by simp only [totalCpWorldSize, h.groups]
  have hwpos : 0 < t.totalCpWorldSize :=
    Nat.mul_pos ((zero_le _).trans_lt hr.1) ((zero_le _).trans_lt hr.2)
  obtain ⟨i, hi, hdvd, hhands, hplaces⟩ := htiled.exists_run hI
  have hrank : u.rankOf a = t.rankOf a := by
    rw [rankOf, rankOf, ← hw, ← h.interleave, hhands, h.offset, hand_add hi hdvd]
  have hplace : u.placeOf a = t.blockSize * ((t.cell a).2 % t.blocksPerKvBlock) + t.placeOf a := by
    rw [placeOf, placeOf, ← hw, ← h.interleave, hplaces, h.offset, place_add hi hwpos hdvd]
  rw [slot_onRank htheld hr, slot_onRank ha hru, hrank, hplace, hblock, ← h.groups, ← h.size]
  split_ifs
  · congr 1
    ring
  · rfl

end

theorem slot_ne_iff (h : t.Held a) (hr : t.IsRank r) : (t.onRank r).slot a ≠ -1 ↔
    t.rankOf a = r.1 * t.dcpWorldSize + r.2 := by
  rw [slot_onRank h hr]
  split_ifs with hhand
  · exact iff_of_true (natCast_nonneg _ |>.trans_lt' (by decide)).ne' hhand
  · exact iff_of_false (not_not.2 rfl) hhand

theorem slot_of_ne (h : t.Held a) (hr : t.IsRank r) (hne : (t.onRank r).slot a ≠ -1) :
    (t.onRank r).slot a = ((t.block a * t.blockSize + t.placeOf a : ℕ) : ℤ) := by
  rw [slot_onRank h hr, if_pos ((slot_ne_iff h hr).1 hne)]

theorem existsUnique_rank (h : t.Held a) (hp : 0 < t.pcpWorldSize) (hd : 0 < t.dcpWorldSize) :
    ∃! r, t.IsRank r ∧ (t.onRank r).slot a ≠ -1 := by
  obtain ⟨n, hn⟩ : ∃ n, n = t.rankOf a := ⟨_, rfl⟩
  have hlt : n < t.pcpWorldSize * t.dcpWorldSize := hn ▸ mod_lt _ (Nat.mul_pos hp hd)
  have hrank : t.IsRank (n / t.dcpWorldSize, n % t.dcpWorldSize) :=
    ⟨Nat.div_lt_of_lt_mul (by rwa [mul_comm]), mod_lt _ hd⟩
  refine ⟨_, ⟨hrank, (slot_ne_iff h hrank).2 ?_⟩, fun r hr => ?_⟩
  · rw [← hn]
    exact (div_add_mod' _ _).symm
  · obtain ⟨hr, hslot⟩ := hr
    have hr' := (slot_ne_iff h hr).1 hslot
    rw [hn, hr', mul_comm]
    refine Prod.ext ?_ ?_
    · rw [mul_add_div hd, div_eq_of_lt hr.2, add_zero]
    · rw [mul_add_mod, mod_eq_of_lt hr.2]

section

variable (htiled : t.Tiled) (hI : 0 < t.cpKvCacheInterleaveSize)
  (hpos : 0 < t.blockSize * t.totalCpWorldSize)

include htiled hI hpos

theorem slot_div (m : ℕ) : (m * t.blockSize + t.placeOf a) / t.blockSize = m := by
  rw [mul_comm, mul_add_div (Nat.pos_of_mul_pos_right hpos),
    div_eq_of_lt (htiled.place_lt hI hpos), add_zero]

theorem eq_of_slot_eq {r b : ℕ × ℕ} (ha : t.Held a) (hb : t.Held b) (hr : t.IsRank r)
    (hblock : t.cell a ≠ t.cell b → t.block a ≠ t.block b) (hne : (t.onRank r).slot a ≠ -1)
    (hslot : (t.onRank r).slot a = (t.onRank r).slot b) : a = b := by
  have hhanda := (slot_ne_iff ha hr).1 hne
  have hneb : (t.onRank r).slot b ≠ -1 := hslot ▸ hne
  have hhandb := (slot_ne_iff hb hr).1 hneb
  rw [slot_of_ne ha hr hne, slot_of_ne hb hr hneb, natCast_inj] at hslot
  have hsame : t.block a = t.block b := by
    rw [← slot_div (a := a) htiled hI hpos (t.block a), hslot, slot_div htiled hI hpos]
  rw [hsame] at hslot
  exact htiled.eq_of_place hI (by_contra fun hcell => hblock hcell hsame) (hhanda.trans hhandb.symm)
    (add_left_cancel hslot)

end

variable {pairs : List (ℕ × ℕ)}

theorem getElem?_computeSlotMapping (t : CpBlockTable) {k : ℕ}
    (h : pairs[k]? = some a) : (t.computeSlotMapping pairs)[k]? = some (t.slot a) := by
  rw [computeSlotMapping, getElem?_map, h, map_some]

theorem SplitOf.partitions (h : SplitOf t u) (htiled : t.Tiled)
    (hI : 0 < t.cpKvCacheInterleaveSize) (hpos : 0 < u.blockSize) (hp : 0 < t.pcpWorldSize)
    (hd : 0 < t.dcpWorldSize) (hpairs : ∀ a ∈ pairs, u.Held a) : t.Partitions u pairs := by
  have hheld : ∀ {k a}, pairs[k]? = some a → t.Held a := fun ha =>
    (h.held hpos (hpairs _ (mem_of_getElem? ha))).1
  have hvirtual := h.virtual_pos hpos (r := (0, 0)) ⟨hp, hd⟩
  constructor
  · intro k hk
    have ha := getElem?_eq_getElem hk
    simpa only [getElem?_computeSlotMapping _ ha, ne_eq, some.injEq] using
      existsUnique_rank (hheld ha) hp hd
  · intro r k a s hr ha hs hne
    rw [getElem?_computeSlotMapping _ ha] at hs
    obtain rfl := some.inj hs
    rw [slot_of_ne (hheld ha) hr hne, ← natCast_ediv, slot_div htiled hI hvirtual]
  · intro r j k a b s hr ha hb hab hblock hs hs'
    rw [getElem?_computeSlotMapping _ ha] at hs
    rw [getElem?_computeSlotMapping _ hb, ← hs] at hs'
    obtain rfl := some.inj hs
    exact by_contra fun hne => hab (eq_of_slot_eq htiled hI hvirtual (hheld ha) (hheld hb) hr hblock hne
      (some.inj hs').symm)
  · intro r hr
    exact map_congr_left fun a ha => h.slot_eq htiled hI hpos hr (hpairs a ha)

/-- If the second kernel block of a request is where its block would be, the runs tile the blocks. -/
theorem SplitOf.tiled (h : SplitOf t u) (hI : 0 < t.cpKvCacheInterleaveSize) (hpos : 0 < u.blockSize)
    (hr : t.IsRank (0, 0)) (hblocks : 1 < t.blocksPerKvBlock)
    (ha₂ : a.2 = t.blockSize * t.totalCpWorldSize) (ha : u.Held a) (hzero : u.block a = 0)
    (hslot : (t.onRank (0, 0)).slot a = (u.onRank (0, 0)).slot a) : t.Tiled := by
  have hw : u.totalCpWorldSize = t.totalCpWorldSize := by simp only [totalCpWorldSize, h.groups]
  obtain ⟨htheld, -, hblock⟩ := h.held hpos ha
  have hcell : (t.cell a).2 = 1 := by rw [cell, ha₂, Nat.div_self (h.virtual_pos hpos hr)]
  have hoffset : t.offset a = 0 := by rw [CpBlockTable.offset, ha₂, mod_self]
  have huoffset : u.offset a = t.blockSize * t.totalCpWorldSize := by
    rw [h.offset, hcell, hoffset, mod_eq_of_lt hblocks, mul_one, add_zero]
  rw [hzero, hcell, mod_eq_of_lt hblocks] at hblock
  have hru : u.IsRank (0, 0) := by simpa only [IsRank, h.groups] using hr
  rw [slot_onRank htheld hr, slot_onRank ha hru, if_pos (by simp [rankOf, hoffset, hand]), hblock,
    hzero] at hslot
  simp only [placeOf, rankOf, hoffset, huoffset, hw, ← h.interleave] at hslot
  split_ifs at hslot with hhand
  have hplace : place t.totalCpWorldSize t.cpKvCacheInterleaveSize
      (t.blockSize * t.totalCpWorldSize) = t.blockSize := by
    simpa [place, eq_comm] using natCast_inj.1 hslot
  exact or_iff_not_imp_left.2 fun hone => dvd_of_place hI hone (by simpa using hhand) hplace

theorem SplitOf.held_addRow (h : SplitOf t u) (hmax : 0 < u.maxNumBlocksPerReq)
    (ha₁ : a.1 = 0) (ha₂ : a.2 < u.blockSize * u.totalCpWorldSize) :
    (u.run [.addRow [0] 0]).Held a ∧ (u.run [.addRow [0] 0]).block a = 0 := by
  have hrow : (u.run [.addRow [0] 0]).row 0 = [0] := by
    refine (row_addRow [0] 0 0).trans ?_
    rw [if_pos rfl, h.rows.unsplit]
    rfl
  have hlength := (u.run [.addRow [0] 0]).length_row 0
  rw [hrow, length_singleton] at hlength
  have hcell : (u.run [.addRow [0] 0]).cell a = (0, 0) := Prod.ext ha₁ (div_eq_of_lt ha₂)
  have hget := (u.run [.addRow [0] 0]).getElem?_row 0 0
  rw [hrow, ← hlength] at hget
  refine ⟨⟨?_, ?_⟩, ?_⟩
  · rw [hcell, ha₁, ← hlength]
    exact one_pos
  · rw [ha₁, ← hlength]
    exact hmax
  · rw [block, hcell]
    simpa [eq_comm] using hget

/-- **The slots partition the positions**, of every table, if and only if there is one rank or the
runs of positions tile the block of the attention kernel. -/
theorem partitions_iff {B K M I : ℕ} {g : CpGroups} {t u : CpBlockTable} (hB : 0 < B) (hM : 0 < M)
    (hI : I ∣ B) (hp : 0 < g.pcpWorldSize) (hd : 0 < g.dcpWorldSize) (ht : new B M K I g = .ok t)
    (hu : new B M B I g = .ok u) :
    (∀ ops pairs, (∀ a ∈ pairs, (u.run ops).Held a) → (t.run ops).Partitions (u.run ops) pairs) ↔
      g.pcpWorldSize * g.dcpWorldSize = 1 ∨ I ∣ K := by
  obtain ⟨hsplit, hK, hBu, hMu, rfl, rfl⟩ := new_splitOf ht hu
  have hIpos := pos_of_dvd_of_pos hI hB
  rw [← hBu] at hB
  constructor
  · intro h
    by_cases hblocks : t.blocksPerKvBlock = 1
    · -- the blocks are not split
      have hsize := hsplit.size
      rw [hblocks, mul_one, hK, hBu] at hsize
      exact .inr (hsize ▸ hI)
    have hone : 1 < t.blocksPerKvBlock := lt_of_le_of_ne (hsplit.blocks_pos hB) (Ne.symm hblocks)
    obtain ⟨a, ha⟩ : ∃ a : ℕ × ℕ, a = (0, t.blockSize * t.totalCpWorldSize) := ⟨_, rfl⟩
    have hlt : a.2 < u.blockSize * u.totalCpWorldSize := by
      rw [ha, totalCpWorldSize, totalCpWorldSize, ← hsplit.groups, ← hsplit.size, mul_right_comm]
      exact lt_mul_of_one_lt_right (hsplit.virtual_pos hB (r := (0, 0)) ⟨hp, hd⟩) hone
    obtain ⟨hheld, hzero⟩ := hsplit.held_addRow (hMu ▸ hM) (by rw [ha]) hlt
    have hslots := (h [.addRow [0] 0] [a] (by simpa using hheld)).eqUnsplit (r := (0, 0)) ⟨hp, hd⟩
    have hrun := hsplit.run [.addRow [0] 0]
    have hcount := (hsplit.rows.foldl [.addRow [0] 0]).2
    have htiled := hrun.tiled hIpos hB ⟨hp, hd⟩ (hone.trans_eq hcount.symm) (by rw [ha]; rfl) hheld
      hzero (by simpa [computeSlotMapping] using hslots)
    exact htiled.imp_right (hK ▸ ·)
  · intro h ops pairs hpairs
    exact (hsplit.run ops).partitions (h.imp_right (hK.symm ▸ ·)) hIpos hB hp hd hpairs

theorem partitions_iff_sixteen : 16 ∣ 64 ∧ ∃ t u, new 64 8 32 16 ⟨1, 0, 2, 0⟩ = .ok t ∧
    new 64 8 64 16 ⟨1, 0, 2, 0⟩ = .ok u ∧ ((∀ ops pairs, (∀ a ∈ pairs, (u.run ops).Held a) →
      (t.run ops).Partitions (u.run ops) pairs) ↔ 1 * 2 = 1 ∨ 16 ∣ 32) :=
  ⟨by decide, _, _, rfl, rfl, partitions_iff (B := 64) (M := 8) (g := ⟨1, 0, 2, 0⟩) (by decide)
    (by decide) (by decide) (by decide) (by decide) rfl rfl⟩

/-- Blocks of four tokens that are split in two, with runs of four: two tokens of a request have one
slot, although they are in different blocks, and one of them has no other slot on any rank. -/
theorem two_tokens_one_slot : ∃ t u, new 4 1 2 4 ⟨1, 0, 2, 0⟩ = .ok t ∧
    new 4 1 4 4 ⟨1, 0, 2, 0⟩ = .ok u ∧ ∃ ops, (∀ a ∈ [(0, 2), (0, 4)], (u.run ops).Held a) ∧
    (t.run ops).block (0, 2) ≠ (t.run ops).block (0, 4) ∧
    (t.run ops).computeSlotMapping [(0, 2), (0, 4)] = [2, 2] ∧
    (u.run ops).computeSlotMapping [(0, 2), (0, 4)] = [2, -1] ∧
    ¬(t.run ops).Partitions (u.run ops) [(0, 2), (0, 4)] := by
  refine ⟨_, _, rfl, rfl, [.addRow [0] 0], by unfold Held; decide, by decide, by decide, by decide,
    fun h => ?_⟩
  exact absurd (h.eqUnsplit (r := (0, 0)) ⟨by decide, by decide⟩) (by decide)

end CpBlockTable

end LoptVllm.Worker
