import LoptVllm.Lib.OrderedDict
import LoptVllm.Python
import Mathlib.Data.List.Range

/-!
# The CPU backend

Offloaded KV blocks are kept in CPU memory. The backend hands out block ids from a counter until
all have been handed out once, and then the ids that were given back.
-/

namespace LoptVllm.KVOffload

open List

/-- `CPUBlockStatus`. A block that is not ready has the count −1. -/
structure BlockStatus where
  refCnt : ℤ
  blockId : ℕ
  deriving DecidableEq

/-- `is_ready`. -/
def BlockStatus.isReady (b : BlockStatus) : Bool := 0 ≤ b.refCnt

/-- `CPUBackend`. -/
structure CPUBackend where
  blockSize : ℕ
  numBlocks : ℕ
  numAllocatedBlocks : ℕ
  allocatedBlocksFreeList : List ℕ

namespace CPUBackend

variable (b : CPUBackend)

/-- `CPUBackend(block_size, num_blocks)`. -/
def new (blockSize numBlocks : ℕ) : CPUBackend := ⟨blockSize, numBlocks, 0, []⟩

/-- `get_num_free_blocks`. -/
def getNumFreeBlocks : ℤ := b.allocatedBlocksFreeList.length + b.numBlocks - b.numAllocatedBlocks

/-- `allocate_blocks`, which looks at the number of hashes only. -/
def allocateBlocks (n : ℕ) : Except PyErr (List BlockStatus × CPUBackend) :=
  let numFreshBlocks := min n (b.numBlocks - b.numAllocatedBlocks)
  let numReusedBlocks := n - numFreshBlocks
  if b.allocatedBlocksFreeList.length < numReusedBlocks then .error (.assertionError "")
  else
    -- the ids that were given back are popped from the end of the list
    .ok (((range' b.numAllocatedBlocks numFreshBlocks) ++
        b.allocatedBlocksFreeList.reverse.take numReusedBlocks).map fun id => ⟨-1, id⟩,
      { b with
        numAllocatedBlocks := b.numAllocatedBlocks + numFreshBlocks
        allocatedBlocksFreeList := (b.allocatedBlocksFreeList.reverse.drop numReusedBlocks).reverse })

/-- `free`. -/
def free (block : BlockStatus) : CPUBackend :=
  { b with allocatedBlocksFreeList := b.allocatedBlocksFreeList ++ [block.blockId] }

/-- `get_load_store_spec`: the ids of the blocks. -/
def getLoadStoreSpec (blocks : List BlockStatus) : List ℕ := blocks.map BlockStatus.blockId

/-! ### The ids that can be handed out -/

/-- The ids that were given back, and those that were never handed out. -/
def freeIds : List ℕ := b.allocatedBlocksFreeList ++
    range' b.numAllocatedBlocks (b.numBlocks - b.numAllocatedBlocks)

variable {b}

theorem length_freeIds (h : b.numAllocatedBlocks ≤ b.numBlocks) :
    (b.freeIds.length : ℤ) = b.getNumFreeBlocks := by
  unfold freeIds getNumFreeBlocks
  rw [length_append, length_range']
  omega

theorem freeIds_free (block : BlockStatus) :
    (b.free block).freeIds.Perm (block.blockId :: b.freeIds) := by
  unfold freeIds free
  rw [append_assoc]
  exact perm_middle

/-- What an allocation hands out: blocks that are not ready, with ids that were free. -/
structure Allocates (b : CPUBackend) (n : ℕ) (blocks : List BlockStatus) (b' : CPUBackend) :
    Prop where
  length_eq : blocks.length = n
  notReady : ∀ block ∈ blocks, block.refCnt = -1
  ids_perm : (blocks.map BlockStatus.blockId ++ b'.freeIds).Perm b.freeIds
  numBlocks_eq : b'.numBlocks = b.numBlocks
  blockSize_eq : b'.blockSize = b.blockSize
  le : b'.numAllocatedBlocks ≤ b'.numBlocks

theorem allocateBlocks_eq {n : ℕ} {blocks : List BlockStatus} {b' : CPUBackend}
    (hle : b.numAllocatedBlocks ≤ b.numBlocks) (h : b.allocateBlocks n = .ok (blocks, b')) :
    Allocates b n blocks b' := by
  unfold allocateBlocks at h
  dsimp only at h
  split at h
  · cases h
  · next hlen =>
    cases h
    generalize hfresh : min n (b.numBlocks - b.numAllocatedBlocks) = k at *
    refine ⟨?_, ?_, ?_, rfl, rfl, ?_⟩
    · simp
      omega
    · intro block hblock
      obtain ⟨id, -, rfl⟩ := mem_map.1 hblock
      rfl
    · -- the fresh ids are the first that were never handed out
      have hrange : range' b.numAllocatedBlocks (b.numBlocks - b.numAllocatedBlocks) =
          range' b.numAllocatedBlocks k ++
            range' (b.numAllocatedBlocks + k) (b.numBlocks - (b.numAllocatedBlocks + k)) := by
        rw [range'_append_1]
        congr 1
        omega
      have hids : (((range' b.numAllocatedBlocks k) ++
          b.allocatedBlocksFreeList.reverse.take (n - k)).map fun id => (⟨-1, id⟩ : BlockStatus)).map
            BlockStatus.blockId = range' b.numAllocatedBlocks k ++
              b.allocatedBlocksFreeList.reverse.take (n - k) := by
        rw [map_map]
        exact List.map_id _
      rw [hids]
      unfold freeIds
      rw [hrange]
      have hsplit : (b.allocatedBlocksFreeList.reverse.take (n - k) ++
          (b.allocatedBlocksFreeList.reverse.drop (n - k)).reverse).Perm
            b.allocatedBlocksFreeList := by
        refine ((reverse_perm _).append_left _).trans ?_
        rw [take_append_drop]
        exact reverse_perm _
      generalize range' b.numAllocatedBlocks k = fresh
      generalize range' (b.numAllocatedBlocks + k) _ = rest
      have hmove : (fresh ++ b.allocatedBlocksFreeList.reverse.take (n - k) ++
          ((b.allocatedBlocksFreeList.reverse.drop (n - k)).reverse ++ rest)).Perm
            (fresh ++ (b.allocatedBlocksFreeList ++ rest)) := by
        rw [append_assoc]
        refine Perm.append_left _ ?_
        rw [← append_assoc]
        exact hsplit.append_right _
      exact hmove.trans (perm_append_comm_assoc _ _ _)
    · show b.numAllocatedBlocks + k ≤ b.numBlocks
      omega

/-- An allocation succeeds if there are enough free blocks. -/
theorem exists_allocateBlocks {n : ℕ} (hle : b.numAllocatedBlocks ≤ b.numBlocks)
    (hn : (n : ℤ) ≤ b.getNumFreeBlocks) : ∃ r, b.allocateBlocks n = .ok r := by
  unfold getNumFreeBlocks at hn
  unfold allocateBlocks
  rw [if_neg (by omega)]
  exact ⟨_, rfl⟩

end CPUBackend

end LoptVllm.KVOffload
