import Mathlib.Data.List.Basic
import Mathlib.Order.Nat

/-!
# KV cache groups and block hashes

A block hash is the list of the digests that are concatenated in it: one digest for a block of
`hash_block_size` tokens, `k` digests for a block `k` times as large. The type `δ` of digests is
arbitrary. The key of a block in the cache is its hash with the id of its group.
-/

namespace LoptVllm.KVCache

/-- `cdiv`: division rounded up. -/
def cdiv (a b : ℕ) : ℕ := (a + b - 1) / b

theorem cdiv_le_iff {a b n : ℕ} (hb : 0 < b) : cdiv a b ≤ n ↔ a ≤ n * b := by
  have h : cdiv a b < n + 1 ↔ a + b - 1 < (n + 1) * b := Nat.div_lt_iff_lt_mul hb
  rw [Nat.succ_mul] at h
  omega

theorem le_cdiv_mul {a b : ℕ} (hb : 0 < b) : a ≤ cdiv a b * b := (cdiv_le_iff hb).1 le_rfl

theorem le_cdiv {a b n : ℕ} (hb : 0 < b) (h : n * b ≤ a) : n ≤ cdiv a b :=
  Nat.le_of_mul_le_mul_right (h.trans (le_cdiv_mul hb)) hb

/-- The attention of the layers of a group, with the sizes that block management depends on. -/
inductive AttentionKind
  | full
  | slidingWindow (slidingWindow : ℕ)
  | chunkedLocal (attentionChunkSize : ℕ)
  | mamba (numSpeculativeBlocks : ℕ)
  | cross
  | sinkFull (sinkLen : ℕ)
  deriving DecidableEq, Repr

/-- `KVCacheSpec`. The fields that only count for the equality of specs are one number, `rest`. -/
structure KVCacheSpec where
  kind : AttentionKind
  blockSize : ℕ
  rest : ℕ
  blockSize_pos : 0 < blockSize
  chunkSize_pos : ∀ c, kind = .chunkedLocal c → 0 < c := by simp
  deriving DecidableEq

theorem chunkSize_pos_full (c : ℕ) (h : AttentionKind.full = .chunkedLocal c) : 0 < c := by cases h

/-- `isinstance(spec, FullAttentionSpec)`. -/
def KVCacheSpec.isFullAttention (spec : KVCacheSpec) : Bool := match spec.kind with
  | .full => true
  | .sinkFull _ => true
  | _ => false

/-- A block hash: the digests of its parts. -/
abbrev BlockHash (δ : Type*) := List δ

/-- `BlockHashWithGroupId`. -/
abbrev BlockKey (δ : Type*) := BlockHash δ × ℕ

variable {δ : Type*}

/-- `make_block_hash_with_group_id`. -/
def makeBlockHashWithGroupId (blockHash : BlockHash δ) (groupId : ℕ) : BlockKey δ :=
  (blockHash, groupId)

/-- `BlockHashListWithBlockSize`: the hashes of the blocks that are `scaleFactor` times as large.
The hash of an incomplete block does not exist. -/
def blockHashList (blockHashes : List δ) (scaleFactor : ℕ) : List (BlockHash δ) :=
  (List.range (blockHashes.length / scaleFactor)).map fun i =>
    (blockHashes.drop (i * scaleFactor)).take scaleFactor

@[simp] theorem length_blockHashList (hs : List δ) (k : ℕ) :
    (blockHashList hs k).length = hs.length / k := by
  simp [blockHashList]

end LoptVllm.KVCache
