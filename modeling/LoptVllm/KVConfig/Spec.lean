import Mathlib
import LoptVllm.Python

/-!
# The KV cache specs of layers

The classes of `kv_cache_interface.py`: the format of the KV cache of one layer, and of several layers
whose caches always have the same number of token slots. A dictionary is the list of its items in
insertion order.
-/

namespace LoptVllm.KVConfig

/-- `cdiv`: division rounded up. -/
def cdiv (a b : ℤ) : ℤ := -(a.fdiv (-b))

theorem cdiv_eq {a b : ℤ} (hb : 0 < b) : cdiv a b = -(-a / b) := by
  have h : a.fdiv (-b) = (-a).fdiv b := by
    rw [← Int.neg_fdiv_neg, neg_neg]
  rw [cdiv, h, Int.fdiv_eq_ediv_of_nonneg _ hb.le]

theorem cdiv_mono {a a' b : ℤ} (hb : 0 < b) (h : a ≤ a') : cdiv a b ≤ cdiv a' b := by
  have := Int.ediv_le_ediv hb (Int.neg_le_neg h)
  simpa [cdiv_eq hb] using this

/-- `VllmConfig`, as far as the layout of the KV cache depends on it. -/
structure VllmConfig where
  maxModelLen : ℤ
  originalMaxModelLen : ℤ
  decodeContextParallelSize : ℕ
  prefillContextParallelSize : ℕ
  maxNumBatchedTokens : ℕ
  maxNumEncoderInputTokens : ℕ
  numGpuBlocksOverride : Option ℕ
  disableHybridKvCacheManager : Bool
  deriving DecidableEq

/-- `torch.dtype`, with its `get_dtype_size`. -/
structure Dtype where
  name : String
  size : ℕ
  deriving DecidableEq, Repr

/-! ### The classes -/

/-- `AttentionSpec`, also `EncoderOnlyAttentionSpec` and `CrossAttentionSpec`. -/
@[ext]
structure AttentionSpec where
  blockSize : ℕ
  numKvHeads : ℕ
  headSize : ℕ
  dtype : Dtype
  pageSizePadded : Option ℕ
  blockSize_pos : 0 < blockSize

instance : DecidableEq AttentionSpec := fun _ _ => decidable_of_iff _ AttentionSpec.ext_iff.symm

/-- `FullAttentionSpec`, whose `head_size_v` is `head_size` by default. -/
structure FullAttentionSpec extends AttentionSpec where
  headSizeV : ℕ
  slidingWindow : Option ℕ
  attentionChunkSize : Option ℕ
  deriving DecidableEq

/-- `MLAAttentionSpec`. -/
structure MLAAttentionSpec extends FullAttentionSpec where
  cacheDtypeStr : Option String
  deriving DecidableEq

/-- `SinkFullAttentionSpec`. -/
structure SinkFullAttentionSpec extends FullAttentionSpec where
  sinkLen : Option ℕ
  deriving DecidableEq

/-- `ChunkedLocalAttentionSpec`. -/
structure ChunkedLocalAttentionSpec extends AttentionSpec where
  attentionChunkSize : ℕ
  deriving DecidableEq

/-- `SlidingWindowSpec`. -/
structure SlidingWindowSpec extends AttentionSpec where
  slidingWindow : ℕ
  deriving DecidableEq

/-- `MambaSpec`. -/
@[ext]
structure MambaSpec where
  blockSize : ℕ
  shapes : List (List ℕ)
  dtypes : List Dtype
  pageSizePadded : Option ℕ
  mambaType : String
  numSpeculativeBlocks : ℕ
  blockSize_pos : 0 < blockSize

instance : DecidableEq MambaSpec := fun _ _ => decidable_of_iff _ MambaSpec.ext_iff.symm

/-- `KVCacheSpec`. -/
inductive KVCacheSpec
  | full (spec : FullAttentionSpec)
  | mla (spec : MLAAttentionSpec)
  | sinkFull (spec : SinkFullAttentionSpec)
  | chunkedLocal (spec : ChunkedLocalAttentionSpec)
  | slidingWindow (spec : SlidingWindowSpec)
  | mamba (spec : MambaSpec)
  | encoderOnly (spec : AttentionSpec)
  | cross (spec : AttentionSpec)
  deriving DecidableEq

/-- `assert p`, with its message. -/
def assert (p : Prop) [Decidable p] (msg : String) : Except PyErr Unit :=
  if p then .ok () else .error (.assertionError msg)

/-- The page size, if it is padded to `page_size_padded`. -/
def padPage (realPageSize : ℕ) : Option ℕ → Except PyErr ℕ
  | none => .ok realPageSize
  | some pageSizePadded =>
    if realPageSize ≤ pageSizePadded then .ok pageSizePadded else .error (.assertionError "")

namespace AttentionSpec

variable (spec : AttentionSpec)

/-- `AttentionSpec.real_page_size_bytes`. -/
def realPageSizeBytes : ℕ := 2 * spec.blockSize * spec.numKvHeads * spec.headSize * spec.dtype.size

/-- `replace(spec, block_size=block_size)`. -/
def withBlockSize (blockSize : ℕ) (h : 0 < blockSize) : AttentionSpec :=
  { spec with blockSize := blockSize, blockSize_pos := h }

end AttentionSpec

/-- `FullAttentionSpec.real_page_size_bytes`. -/
def FullAttentionSpec.realPageSizeBytes (spec : FullAttentionSpec) : ℕ :=
  spec.blockSize * spec.numKvHeads * (spec.headSize + spec.headSizeV) * spec.dtype.size

/-- `MLAAttentionSpec.real_page_size_bytes`. -/
def MLAAttentionSpec.realPageSizeBytes (spec : MLAAttentionSpec) : ℕ :=
  if spec.cacheDtypeStr = some "fp8_ds_mla" then spec.blockSize * 656
  else spec.blockSize * spec.numKvHeads * spec.headSize * spec.dtype.size

/-- The size of the state of a mamba layer. -/
def MambaSpec.realPageSizeBytes (spec : MambaSpec) : ℕ :=
  ((spec.shapes.zip spec.dtypes).map fun p => p.1.prod * p.2.size).sum

namespace KVCacheSpec

/-- `block_size`. -/
def blockSize : KVCacheSpec → ℕ
  | full spec => spec.blockSize
  | mla spec => spec.blockSize
  | sinkFull spec => spec.blockSize
  | chunkedLocal spec => spec.blockSize
  | slidingWindow spec => spec.blockSize
  | mamba spec => spec.blockSize
  | encoderOnly spec => spec.blockSize
  | cross spec => spec.blockSize

theorem blockSize_pos : ∀ spec : KVCacheSpec, 0 < spec.blockSize
  | full spec => spec.blockSize_pos
  | mla spec => spec.blockSize_pos
  | sinkFull spec => spec.blockSize_pos
  | chunkedLocal spec => spec.blockSize_pos
  | slidingWindow spec => spec.blockSize_pos
  | mamba spec => spec.blockSize_pos
  | encoderOnly spec => spec.blockSize_pos
  | cross spec => spec.blockSize_pos

/-- `page_size_bytes`. -/
def pageSizeBytes : KVCacheSpec → Except PyErr ℕ
  | full spec => padPage spec.realPageSizeBytes spec.pageSizePadded
  | mla spec => padPage spec.realPageSizeBytes spec.pageSizePadded
  | sinkFull spec => padPage spec.realPageSizeBytes spec.pageSizePadded
  | chunkedLocal spec => padPage spec.realPageSizeBytes spec.pageSizePadded
  | slidingWindow spec => padPage spec.realPageSizeBytes spec.pageSizePadded
  | mamba spec => padPage spec.realPageSizeBytes spec.pageSizePadded
  | encoderOnly spec => padPage spec.realPageSizeBytes spec.pageSizePadded
  | cross spec => padPage spec.realPageSizeBytes spec.pageSizePadded

/-- `FullAttentionSpec.max_memory_usage_bytes`: the tokens that a rank has to hold. -/
def fullTokens (cfg : VllmConfig) : ℤ :=
  let worldSize := cfg.decodeContextParallelSize * cfg.prefillContextParallelSize
  if 1 < worldSize then cdiv cfg.maxModelLen worldSize else cfg.maxModelLen

/-- `max_memory_usage_bytes` of a class whose requests need blocks for `numTokens` tokens and
`extra` blocks more. -/
def usageOf (spec : KVCacheSpec) (numTokens : ℤ) (extra : ℕ) : Except PyErr ℤ := do
  let pageSize ← spec.pageSizeBytes
  return (cdiv numTokens spec.blockSize + extra) * pageSize

/-- `max_memory_usage_bytes`. -/
def maxMemoryUsageBytes (spec : KVCacheSpec) (cfg : VllmConfig) : Except PyErr ℤ := match spec with
  | full _ | mla _ | sinkFull _ => spec.usageOf (fullTokens cfg) 0
  | chunkedLocal s =>
    spec.usageOf (min ((s.attentionChunkSize : ℤ) + cfg.maxNumBatchedTokens) cfg.maxModelLen) 0
  | slidingWindow s => do
    assert (cfg.decodeContextParallelSize = 1) "DCP not support sliding window."
    -- the window may start inside of a block
    spec.usageOf (min ((s.slidingWindow : ℤ) - 1 + cfg.maxNumBatchedTokens) cfg.maxModelLen) 1
  | mamba _ => spec.usageOf cfg.maxModelLen 0
  | encoderOnly _ => .ok 0
  | cross _ => spec.usageOf cfg.maxNumEncoderInputTokens 0

/-- The part of a `FullAttentionSpec`, if the spec is one. -/
def full? : KVCacheSpec → Option FullAttentionSpec
  | full spec => some spec
  | mla spec => some spec.toFullAttentionSpec
  | sinkFull spec => some spec.toFullAttentionSpec
  | _ => none

/-- `isinstance(spec, MLAAttentionSpec)`. -/
def isMla : KVCacheSpec → Bool
  | mla _ => true
  | _ => false

/-- `replace(spec, block_size=block_size)`. -/
def withBlockSize (blockSize : ℕ) (h : 0 < blockSize) : KVCacheSpec → KVCacheSpec
  | full spec => full { spec with blockSize := blockSize, blockSize_pos := h }
  | mla spec => mla { spec with blockSize := blockSize, blockSize_pos := h }
  | sinkFull spec => sinkFull { spec with blockSize := blockSize, blockSize_pos := h }
  | chunkedLocal spec => chunkedLocal { spec with blockSize := blockSize, blockSize_pos := h }
  | slidingWindow spec => slidingWindow { spec with blockSize := blockSize, blockSize_pos := h }
  | mamba spec => mamba { spec with blockSize := blockSize, blockSize_pos := h }
  | encoderOnly spec => encoderOnly (spec.withBlockSize blockSize h)
  | cross spec => cross (spec.withBlockSize blockSize h)

/-! ### Merging the specs of a group -/

/-- `merge_window_sizes`. -/
def mergeWindowSizes (windowSizes : List ℕ) : Except PyErr (Option ℕ) :=
  match windowSizes.dedup with
  | [] => .ok none
  | [w] => .ok (some w)
  | _ => .error (.valueError
    "All attention layers in the same KV cache group must have the same window size.")

/-- `isinstance(spec, FullAttentionSpec)` is asserted. -/
def asFull (spec : KVCacheSpec) : Except PyErr FullAttentionSpec := match spec.full? with
  | some f => .ok f
  | none => .error (.assertionError
    "All attention layers in the same KV cache group must be FullAttentionSpec.")

/-- `merge` of `FullAttentionSpec` and `SinkFullAttentionSpec`, which make `cls` of the result. Only
the fields of `AttentionSpec` are compared. -/
def mergeFull (cls : FullAttentionSpec → KVCacheSpec) (first : FullAttentionSpec)
    (specs : List KVCacheSpec) : Except PyErr KVCacheSpec := do
  let fulls ← specs.mapM asFull
  assert (∀ spec ∈ specs, spec.isMla = false)
    "MLAAttentionSpec should be merged in MLAAttentionSpec.merge"
  let slidingWindow ← mergeWindowSizes (fulls.filterMap FullAttentionSpec.slidingWindow)
  let attentionChunkSize ← mergeWindowSizes (fulls.filterMap FullAttentionSpec.attentionChunkSize)
  assert (∀ spec ∈ fulls, spec.toAttentionSpec = first.toAttentionSpec)
    "All attention layers in the same KV cache group must have the same attention spec."
  assert (slidingWindow = none ∨ attentionChunkSize = none)
    ("Model with both sliding window layers and chunked local attention " ++
      "layers is not supported.")
  return cls { first with slidingWindow := slidingWindow, attentionChunkSize := attentionChunkSize }

/-- `isinstance(spec, MLAAttentionSpec)` is asserted. -/
def asMla : KVCacheSpec → Except PyErr MLAAttentionSpec
  | mla spec => .ok spec
  | _ => .error (.assertionError
    "All attention layers in the same KV cache group must be MLAAttentionSpec.")

/-- `MLAAttentionSpec.merge`. Only `cache_dtype_str` is compared. -/
def mergeMla (first : MLAAttentionSpec) (specs : List KVCacheSpec) : Except PyErr KVCacheSpec := do
  let mlas ← specs.mapM asMla
  assert ((mlas.map MLAAttentionSpec.cacheDtypeStr).dedup.length = 1)
    "All attention layers in the same KV cache group must use the same quantization method."
  return mla { first with
    headSizeV := first.headSize, slidingWindow := none, attentionChunkSize := none }

/-- `KVCacheSpec.merge`. -/
def mergeEqual (first : KVCacheSpec) (specs : List KVCacheSpec) : Except PyErr KVCacheSpec := do
  assert (∀ spec ∈ specs, spec = first) "All layers in the same KV cache group must be the same."
  return first

/-- `specs[0].merge(specs)`. -/
def merge : List KVCacheSpec → Except PyErr KVCacheSpec
  | [] => .error (.indexError "list index out of range")
  | first :: specs =>
    match first with
    | full spec => mergeFull full spec (first :: specs)
    | sinkFull spec =>
      mergeFull (fun merged => sinkFull ⟨merged, spec.sinkLen⟩) spec.toFullAttentionSpec
        (first :: specs)
    | mla spec => mergeMla spec (first :: specs)
    | _ => mergeEqual first (first :: specs)

end KVCacheSpec

/-! ### Specs of groups -/

/-- `UniformTypeKVCacheSpecs`. -/
structure UniformTypeKVCacheSpecs where
  blockSize : ℕ
  kvCacheSpecs : List (String × KVCacheSpec)
  deriving DecidableEq

/-- The `kv_cache_spec` of a `KVCacheGroupSpec`. -/
inductive GroupKVCacheSpec
  | layer (spec : KVCacheSpec)
  | uniformType (specs : UniformTypeKVCacheSpecs)
  deriving DecidableEq

/-- The sum of what a comprehension returns for each element. -/
def sumM {α β : Type} [Add β] [Zero β] (f : α → Except PyErr β) (l : List α) : Except PyErr β :=
  (l.mapM f).map List.sum

/-- `UniformTypeKVCacheSpecs.page_size_bytes`. -/
def UniformTypeKVCacheSpecs.pageSizeBytes (specs : UniformTypeKVCacheSpecs) : Except PyErr ℕ :=
  sumM (fun p => p.2.pageSizeBytes) specs.kvCacheSpecs

/-- `page_size_bytes` of the spec of a group. -/
def GroupKVCacheSpec.pageSizeBytes : GroupKVCacheSpec → Except PyErr ℕ
  | layer spec => spec.pageSizeBytes
  | uniformType specs => specs.pageSizeBytes

namespace UniformTypeKVCacheSpecs

/-- The comparison of `is_uniform_type` of one spec with all others. -/
def sameType : KVCacheSpec → KVCacheSpec → Except PyErr Bool
  | .full _, spec | .mla _, spec | .sinkFull _, spec => .ok spec.full?.isSome
  | .cross _, spec =>
    .ok (match spec with
      | .cross _ => true
      | _ => false)
  | .slidingWindow one, spec =>
    .ok (match spec with
      | .slidingWindow s => s.slidingWindow = one.slidingWindow
      | _ => false)
  | .chunkedLocal one, spec =>
    .ok (match spec with
      | .chunkedLocal s => s.attentionChunkSize = one.attentionChunkSize
      | _ => false)
  | .mamba one, spec =>
    .ok (match spec with
      | .mamba s => s.numSpeculativeBlocks = one.numSpeculativeBlocks
      | _ => false)
  | .encoderOnly _, _ => .error .notImplementedError

variable (kvCacheSpecs : List (String × KVCacheSpec))

/-- `is_uniform_type`. -/
def isUniformType : Except PyErr Bool :=
  match kvCacheSpecs with
  | [] => .error (.runtimeError "StopIteration")
  | (_, oneSpec) :: _ =>
    if ∃ p ∈ kvCacheSpecs, p.2.blockSize ≠ oneSpec.blockSize then .ok false
    else (kvCacheSpecs.mapM fun p : String × KVCacheSpec => sameType oneSpec p.2).map (·.all id)

/-- `from_specs`. -/
def fromSpecs : Except PyErr (Option UniformTypeKVCacheSpecs) := do
  if ← isUniformType kvCacheSpecs then
    return kvCacheSpecs.head?.map fun (p : String × KVCacheSpec) => ⟨p.2.blockSize, kvCacheSpecs⟩
  else return none

end UniformTypeKVCacheSpecs

/-- `KVCacheGroupSpec`. -/
structure KVCacheGroupSpec where
  layerNames : List String
  kvCacheSpec : GroupKVCacheSpec
  deriving DecidableEq

end LoptVllm.KVConfig
