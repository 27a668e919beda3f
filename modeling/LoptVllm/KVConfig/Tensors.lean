import LoptVllm.KVConfig.Groups
import LoptVllm.KVConfig.MaxModelLen

/-!
# The tensors of the KV cache

`get_kv_cache_config_from_groups` divides the memory of a worker into tensors. If the layers have one
type but pages of different sizes, every layer has a tensor of its own; otherwise the `i`-th tensor is
shared by the `i`-th layer of every group. `get_kv_cache_configs` does this for the workers one after
another, each with its part of the layers, and shrinks all of them to the smallest number of blocks.
-/

namespace LoptVllm.KVConfig

open List Int KVCacheGroupSpec KVCacheSpec List.Subset

open Prod (fst snd)

open Lib (column)

/-- `KVCacheTensor`. -/
structure KVCacheTensor where
  size : ℤ
  sharedBy : List String
  deriving DecidableEq

/-- `KVCacheConfig`. -/
structure KVCacheConfig where
  numBlocks : ℤ
  kvCacheTensors : List KVCacheTensor
  kvCacheGroups : List KVCacheGroupSpec
  deriving DecidableEq

/-! ### The config of a worker -/

section OneWorker

variable (cfg : VllmConfig)

/-- `may_override_num_blocks`. -/
def mayOverrideNumBlocks (numBlocks : ℤ) : ℤ := match cfg.numGpuBlocksOverride with
  | some numGpuBlocksOverride => numGpuBlocksOverride
  | none => numBlocks

/-- `get_num_blocks`. -/
def getNumBlocks (numLayers : ℕ) (availableMemory : ℤ) (pageSize : ℕ) : Except PyErr ℤ := do
  let numBlocks ← floorDiv (← floorDiv availableMemory pageSize) numLayers
  return mayOverrideNumBlocks cfg (max numBlocks 0)

/-- The tensor of a layer that shares it with no other. -/
def tensorOfLayer (perLayerSpecs : LayerSpecs) (numBlocks : ℤ) (layerName : String) :
    Except PyErr KVCacheTensor := do
  let spec ← getSpec perLayerSpecs layerName
  return ⟨(← spec.pageSizeBytes) * numBlocks, [layerName]⟩

/-- The config of one group whose layers keep their specs. -/
def configOfUniformType (layerNames : List String) (specs : UniformTypeKVCacheSpecs)
    (availableMemory : ℤ) : Except PyErr KVCacheConfig := do
  let numBlocks ← floorDiv availableMemory (← specs.pageSizeBytes)
  let numBlocks := mayOverrideNumBlocks cfg numBlocks
  let kvCacheTensors ← layerNames.mapM (tensorOfLayer specs.kvCacheSpecs numBlocks)
  return ⟨numBlocks, kvCacheTensors, [⟨layerNames, .uniformType specs⟩]⟩

variable (kvCacheGroups : List KVCacheGroupSpec)

/-- The config of groups whose layers share tensors. -/
def configOfGroups (availableMemory : ℤ) : Except PyErr KVCacheConfig := do
  let pageSize ← getUniformPageSize (kvCacheGroups.map kvCacheSpec)
  assert (0 < groupSize kvCacheGroups) "group_size must be greater than 0"
  let numBlocks ← getNumBlocks cfg (groupSize kvCacheGroups) availableMemory pageSize
  let kvCacheTensors := (List.range (groupSize kvCacheGroups)).map fun i =>
    ⟨pageSize * numBlocks, column (kvCacheGroups.map KVCacheGroupSpec.layerNames) i⟩
  return ⟨numBlocks, kvCacheTensors, kvCacheGroups⟩

/-- `get_kv_cache_config_from_groups`. -/
def getKvCacheConfigFromGroups (availableMemory : ℤ) : Except PyErr KVCacheConfig :=
  match kvCacheGroups with
  -- a block pool always needs its null block
  | [] => .ok ⟨1, [], []⟩
  | [⟨layerNames, .uniformType specs⟩] => configOfUniformType cfg layerNames specs availableMemory
  | group :: groups => configOfGroups cfg (group :: groups) availableMemory

variable (kvCacheSpec : LayerSpecs)

/-- The groups with the layers of one worker. -/
def groupsOfWorker : List KVCacheGroupSpec :=
  kvCacheGroups.map fun group =>
    ⟨group.layerNames.filter (· ∈ kvCacheSpec.map fst), group.kvCacheSpec⟩

/-- The config of one worker, from the groups of the whole model. -/
def configOfWorker (availableMemory : ℤ) : Except PyErr KVCacheConfig := do
  let groups := groupsOfWorker kvCacheGroups kvCacheSpec
  assert ((groups.map fun group => group.layerNames.length).sum = kvCacheSpec.length)
    "Some layers are not assigned to any group."
  getKvCacheConfigFromGroups cfg groups availableMemory

end OneWorker

/-! ### The configs of all workers -/

/-- One layer of the loop that merges the specs of the workers. -/
def mergeLayer (merged : LayerSpecs) (layer : String × KVCacheSpec) : Except PyErr LayerSpecs :=
  match merged.lookup layer.1 with
  | none => .ok (merged ++ [layer])
  | some spec => do
    assert (spec = layer.2)
      ("The KV cache specs for the same layer are different " ++
        "across workers. This is not supported yet.")
    return merged

/-- `merged_kv_cache_specs`. -/
def mergeKvCacheSpecs (kvCacheSpecs : List LayerSpecs) : Except PyErr LayerSpecs :=
  kvCacheSpecs.flatten.foldlM mergeLayer []

/-- `min(l)`. -/
def minOf : List ℤ → Except PyErr ℤ
  | [] => .error (.valueError "min() iterable argument is empty")
  | a :: as => .ok (as.foldl min a)

/-- `_auto_fit_max_model_len`. -/
def autoFitMaxModelLen (kvCacheGroups : List KVCacheGroupSpec) (availableMemory : List ℤ) :
    ConfigM Unit := do
  let originalMax := (← get).maxModelLen
  if kvCacheGroups = [] then return ()
  else
    let minAvailableMemory ← readConfig fun _ => minOf availableMemory
    let autoFitMax ← estimateMaxModelLenFromGroups kvCacheGroups minAvailableMemory
    if autoFitMax ≤ 0 then
      throw (.valueError ("Cannot auto-fit max_model_len: not enough GPU memory available " ++
        "to serve even a single token. Try increasing `gpu_memory_utilization`."))
    else if originalMax ≤ autoFitMax then return ()
    else setMaxModelLen autoFitMax

variable (formatGib : ℤ → String)

/-- `_check_enough_kv_cache_memory`; `formatGib` writes a number of bytes as a floating-point number
of GiB. -/
def checkEnoughKvCacheMemory (availableMemory : ℤ)
    (getNeededMemory : VllmConfig → Except PyErr ℤ) (maxModelLen : ℤ)
    (estimateMaxModelLen : ℤ → ConfigM ℤ) : ConfigM Unit := do
  if availableMemory ≤ 0 then
    throw (.valueError ("No available memory for the cache blocks. " ++
      "Try increasing `gpu_memory_utilization` when initializing the engine. " ++
      "See https://docs.vllm.ai/en/latest/configuration/conserving_memory/ " ++
      "for more details."))
  else
    let neededMemory ← readConfig getNeededMemory
    if availableMemory < neededMemory then
      let estimatedMaxLen ← estimateMaxModelLen availableMemory
      let estimatedMsg := if 0 < estimatedMaxLen then
          "Based on the available memory, " ++
            s!"the estimated maximum model length is {estimatedMaxLen}. "
        else ""
      throw (.valueError ("To serve at least one request with the models's max seq len " ++
        s!"({maxModelLen}), ({formatGib neededMemory} GiB KV " ++
        "cache is needed, which is larger than the available KV cache " ++
        s!"memory ({formatGib availableMemory} GiB). {estimatedMsg}" ++
        "Try increasing `gpu_memory_utilization` or decreasing `max_model_len` " ++
        "when initializing the engine. " ++
        "See https://docs.vllm.ai/en/latest/configuration/conserving_memory/ " ++
        "for more details."))
    else return ()

/-- The tensor of a worker with `numBlocksOld` blocks, after it is shrunk. -/
def shrinkTensor (numBlocksOld minNumBlocks : ℤ) (tensor : KVCacheTensor) :
    Except PyErr KVCacheTensor :=
  if numBlocksOld = 0 then .error .zeroDivisionError
  else do
    assert (tensor.size.fmod numBlocksOld = 0) ""
    return { tensor with size := tensor.size.fdiv numBlocksOld * minNumBlocks }

/-- The config of a worker, after it is shrunk. -/
def shrinkConfig (minNumBlocks : ℤ) (config : KVCacheConfig) : Except PyErr KVCacheConfig := do
  let kvCacheTensors ← config.kvCacheTensors.mapM (shrinkTensor config.numBlocks minNumBlocks)
  return { config with numBlocks := minNumBlocks, kvCacheTensors := kvCacheTensors }

/-- The configs, with the smallest number of blocks of all workers. -/
def shrinkConfigs (configs : List KVCacheConfig) : Except PyErr (List KVCacheConfig) := do
  let minNumBlocks ← minOf (configs.map KVCacheConfig.numBlocks)
  configs.mapM (shrinkConfig minNumBlocks)

variable (kvCacheGroups : List KVCacheGroupSpec) (availableMemory : List ℤ)

/-- The check of the memory in `get_kv_cache_configs`. -/
def checkMemory : ConfigM Unit := do
  if kvCacheGroups = [] then return ()
  else
    let minAvailableMemory ← readConfig fun _ => minOf availableMemory
    checkEnoughKvCacheMemory formatGib minAvailableMemory
      (maxMemoryUsageBytesFromGroups kvCacheGroups) (← get).maxModelLen
      (estimateMaxModelLenFromGroups kvCacheGroups)

/-- What `get_kv_cache_configs` does to `vllm_config`, and its check of the memory. -/
def fitMemory : ConfigM Unit := do
  if (← get).originalMaxModelLen = -1 then autoFitMaxModelLen kvCacheGroups availableMemory
  checkMemory formatGib kvCacheGroups availableMemory

/-- `get_kv_cache_configs`. -/
def getKvCacheConfigs (kvCacheSpecs : List LayerSpecs)
    (availableMemory : List ℤ) : ConfigM (List KVCacheConfig) := do
  let merged ← readConfig fun _ => mergeKvCacheSpecs kvCacheSpecs
  let globalKvCacheGroups ← readConfig fun cfg => getKvCacheGroups cfg merged
  fitMemory formatGib globalKvCacheGroups availableMemory
  let configs ← readConfig fun cfg => (kvCacheSpecs.zip availableMemory).mapM fun worker =>
    configOfWorker cfg globalKvCacheGroups worker.1 worker.2
  readConfig fun _ => shrinkConfigs configs

/-! ### The layout of one worker -/

/-- The page size of a layer of a group. -/
def KVCacheGroupSpec.layerPage (group : KVCacheGroupSpec) (layerName : String) : Except PyErr ℕ :=
  match group.kvCacheSpec with
  | .layer spec => spec.pageSizeBytes
  | .uniformType specs => do (← getSpec specs.kvCacheSpecs layerName).pageSizeBytes

/-- The layers, groups and tensors of a worker fit together. -/
structure LaidOut (numGpuBlocksOverride : Option ℕ) (layerNames : List String) (availableMemory : ℤ)
    (config : KVCacheConfig) : Prop where
  /-- Each layer is in one group. -/
  grouped : (config.kvCacheGroups.flatMap KVCacheGroupSpec.layerNames).Perm layerNames
  /-- Each layer is backed by one tensor. -/
  backed : (config.kvCacheTensors.flatMap KVCacheTensor.sharedBy).Perm layerNames
  /-- No two layers of a group share a tensor. -/
  apart : ∀ group ∈ config.kvCacheGroups, ∀ tensor ∈ config.kvCacheTensors,
    ∀ a ∈ group.layerNames, ∀ b ∈ group.layerNames, a ∈ tensor.sharedBy → b ∈ tensor.sharedBy → a = b
  /-- A tensor has one page of its layers for every block. -/
  sized : ∀ tensor ∈ config.kvCacheTensors, tensor.sharedBy ≠ [] ∧ ∃ page : ℕ,
    tensor.size = page * config.numBlocks ∧ ∀ group ∈ config.kvCacheGroups, ∀ a ∈ group.layerNames,
      a ∈ tensor.sharedBy → group.layerPage a = .ok page
  /-- The tensors fit into the memory. -/
  memory : numGpuBlocksOverride = none →
    (config.kvCacheTensors.map KVCacheTensor.size).sum ≤ max availableMemory 0

/-- Groups as `getKvCacheGroups` forms them, of which layers may be missing. -/
inductive Formed : List KVCacheGroupSpec → Prop
  | merged {groups : List KVCacheGroupSpec}
      (hlayer : ∀ group ∈ groups, ∃ spec, group.kvCacheSpec = .layer spec)
      (hnodup : (groups.flatMap KVCacheGroupSpec.layerNames).Nodup) : Formed groups
  | uniformType {layerNames : List String} {specs : UniformTypeKVCacheSpecs}
      (hkeys : (specs.kvCacheSpecs.map fst).Nodup)
      (hsub : layerNames.Sublist (specs.kvCacheSpecs.map fst)) :
      Formed [⟨layerNames, .uniformType specs⟩]

variable {cfg : VllmConfig} {kvCacheSpec : LayerSpecs} {groups : List KVCacheGroupSpec}
  {override : Option ℕ} {layerNames : List String} {availableMemory : ℤ} {config : KVCacheConfig}

theorem Grouped.formed (h : Grouped kvCacheSpec groups) (hkeys : (kvCacheSpec.map fst).Nodup) :
    Formed groups := by
  have hnodup := h.perm.nodup_iff.2 hkeys
  cases h with
  | merged hperm h =>
    refine .merged (fun group hgroup => ?_) hnodup
    obtain ⟨layerSpecs, merged, -, -, hmerged⟩ := mem_createKvCacheGroupSpecs h hgroup
    exact ⟨merged, hmerged⟩
  | uniformType blockSize => exact .uniformType hkeys (List.Sublist.refl _)

theorem Formed.nodup (h : Formed groups) : (groups.flatMap KVCacheGroupSpec.layerNames).Nodup := by
  cases h with
  | merged hlayer hnodup => exact hnodup
  | uniformType hkeys hsub => simpa using hkeys.sublist hsub

theorem layerNames_groupsOfWorker :
    (groupsOfWorker groups kvCacheSpec).flatMap KVCacheGroupSpec.layerNames =
      (groups.flatMap KVCacheGroupSpec.layerNames).filter (· ∈ kvCacheSpec.map fst) := by
  rw [groupsOfWorker, flatMap_map, filter_flatMap]

theorem Formed.ofWorker (h : Formed groups) : Formed (groupsOfWorker groups kvCacheSpec) := by
  cases h with
  | merged hlayer hnodup =>
    refine .merged (fun group hgroup => ?_) ?_
    · obtain ⟨group', hgroup', rfl⟩ := mem_map.1 hgroup
      exact hlayer group' hgroup'
    · rw [layerNames_groupsOfWorker]
      exact hnodup.filter _
  | uniformType hkeys hsub => exact .uniformType hkeys (filter_sublist.trans hsub)

/-- The layers of a worker, if none is left out. -/
theorem layerNames_groupsOfWorker_perm (h : Formed groups)
    (hlength : ((groupsOfWorker groups kvCacheSpec).map fun group => group.layerNames.length).sum =
      kvCacheSpec.length) :
    ((groupsOfWorker groups kvCacheSpec).flatMap KVCacheGroupSpec.layerNames).Perm
      (kvCacheSpec.map fst) := by
  have hsubset : (groupsOfWorker groups kvCacheSpec).flatMap KVCacheGroupSpec.layerNames ⊆
      kvCacheSpec.map fst := by
    intro name hname
    rw [layerNames_groupsOfWorker, mem_filter] at hname
    exact of_decide_eq_true hname.2
  refine (subperm_of_subset h.ofWorker.nodup hsubset).perm_of_length_le ?_
  rw [length_map, length_flatMap, hlength]

/-! ### Tensors of one layer -/

theorem fdiv_mul_le {a b : ℤ} (hb : 0 < b) : b * a.fdiv b ≤ a := by
  have := mul_fdiv_add_fmod a b
  have := fmod_nonneg_of_pos a hb
  omega

/-- The page size of a layer of a dictionary. -/
def pageOf (kvCacheSpec : LayerSpecs) (layerName : String) : ℕ :=
  match getSpec kvCacheSpec layerName with
  | .ok spec => spec.pageSizeBytes.toOption.getD 0
  | .error _ => 0

variable {layer : String × KVCacheSpec}

theorem pageOf_eq (hkeys : (kvCacheSpec.map fst).Nodup)
    (hlayer : layer ∈ kvCacheSpec) {page : ℕ} (hpage : layer.2.pageSizeBytes = .ok page) :
    pageOf kvCacheSpec layer.1 = page := by
  simp [pageOf, getSpec_eq_ok hkeys hlayer, hpage, Except.toOption]

variable {specs : UniformTypeKVCacheSpecs}

/-- The page size of a group whose layers keep their specs. -/
theorem pageSizeBytes_uniformType (hkeys : (specs.kvCacheSpecs.map fst).Nodup) {total : ℕ}
    (h : specs.pageSizeBytes = .ok total) :
    ((specs.kvCacheSpecs.map fst).map (pageOf specs.kvCacheSpecs)).sum = total := by
  obtain ⟨pages, hpages, rfl⟩ := map_eq_ok.1 h
  have hpage : ∀ layer ∈ specs.kvCacheSpecs,
      layer.2.pageSizeBytes = .ok (pageOf specs.kvCacheSpecs layer.1) := by
    intro layer hlayer
    obtain ⟨page, hpage⟩ := exists_ok_of_mapM hpages hlayer
    rw [pageOf_eq hkeys hlayer hpage]
    exact hpage
  rw [mapM_ok _ hpage] at hpages
  cases hpages
  rw [map_map]
  rfl

variable {numBlocks : ℤ}

theorem tensorOfLayer_eq_ok {layerName : String} {tensor : KVCacheTensor}
    (h : tensorOfLayer kvCacheSpec numBlocks layerName = .ok tensor) :
    tensor = ⟨pageOf kvCacheSpec layerName * numBlocks, [layerName]⟩ ∧
      (getSpec kvCacheSpec layerName >>= pageSizeBytes) = .ok (pageOf kvCacheSpec layerName) := by
  obtain ⟨spec, hspec, h⟩ := bind_ok.1 h
  obtain ⟨page, hpage, h⟩ := bind_ok.1 h
  cases h
  have hof : pageOf kvCacheSpec layerName = page := by
    simp [pageOf, hspec, hpage, Except.toOption]
  exact ⟨by rw [hof], bind_ok.2 ⟨spec, hspec, by rw [hof, hpage]⟩⟩

theorem floorDiv_eq_ok {a b q : ℤ} (h : floorDiv a b = .ok q) : b ≠ 0 ∧ q = a.fdiv b := by
  unfold floorDiv at h
  split_ifs at h with hb
  cases h
  exact ⟨hb, rfl⟩

theorem mayOverrideNumBlocks_of_none (h : cfg.numGpuBlocksOverride = none) (numBlocks : ℤ) :
    mayOverrideNumBlocks cfg numBlocks = numBlocks := by
  simp [mayOverrideNumBlocks, h]

/-- `n` bytes for each of the blocks that fit with `total` bytes each. -/
theorem mul_fdiv_le_max {n total : ℕ} (hle : n ≤ total) (htotal : (total : ℤ) ≠ 0)
    (availableMemory : ℤ) : n * availableMemory.fdiv total ≤ max availableMemory 0 := by
  have hfdiv := @fdiv_mul_le availableMemory total (by omega)
  rcases le_or_gt 0 (availableMemory.fdiv total) with hnonneg | hneg
  · have : (n : ℤ) * availableMemory.fdiv total ≤ total * availableMemory.fdiv total :=
      mul_le_mul_of_nonneg_right (by exact_mod_cast hle) hnonneg
    exact le_max_of_le_left (this.trans hfdiv)
  · exact le_max_of_le_right (mul_nonpos_of_nonneg_of_nonpos (natCast_nonneg n) hneg.le)

theorem laidOut_uniformType (hkeys : (specs.kvCacheSpecs.map fst).Nodup)
    (hsub : layerNames.Sublist (specs.kvCacheSpecs.map fst))
    (h : configOfUniformType cfg layerNames specs availableMemory = .ok config) :
    config.kvCacheGroups = [⟨layerNames, .uniformType specs⟩] ∧
      LaidOut cfg.numGpuBlocksOverride layerNames availableMemory config := by
  obtain ⟨total, htotal, h⟩ := bind_ok.1 h
  obtain ⟨numBlocks, hdiv, h⟩ := bind_ok.1 h
  obtain ⟨tensors, htensors, h⟩ := bind_ok.1 h
  cases h
  have hspec : ∀ name ∈ layerNames, _ := fun name hname =>
    (exists_ok_of_mapM htensors hname).elim fun tensor ht =>
      And.intro ((tensorOfLayer_eq_ok ht).1 ▸ ht) (tensorOfLayer_eq_ok ht).2
  rw [mapM_ok _ fun name hname => (hspec name hname).1] at htensors
  cases htensors
  refine ⟨rfl, by simp, by simp [flatMap_map], ?_, ?_, fun hnone => ?_⟩
  · intro group _ tensor htensor a _ b _ ha hb
    obtain ⟨name, -, rfl⟩ := mem_map.1 htensor
    rw [mem_singleton.1 ha, mem_singleton.1 hb]
  · intro tensor htensor
    obtain ⟨name, hname, rfl⟩ := mem_map.1 htensor
    refine ⟨cons_ne_nil _ _, _, rfl, fun group hgroup a _ ha => ?_⟩
    cases mem_singleton.1 hgroup
    cases mem_singleton.1 ha
    exact (hspec name hname).2
  · obtain ⟨hne, rfl⟩ := floorDiv_eq_ok hdiv
    have hle : (layerNames.map (pageOf specs.kvCacheSpecs)).sum ≤ total := by
      rw [← pageSizeBytes_uniformType hkeys htotal]
      exact (hsub.map _).sum_le_sum fun _ _ => Nat.zero_le _
    rw [mayOverrideNumBlocks_of_none hnone, map_map]
    calc (layerNames.map fun name => (pageOf specs.kvCacheSpecs name : ℤ) *
            availableMemory.fdiv total).sum
        = (layerNames.map (pageOf specs.kvCacheSpecs)).sum * availableMemory.fdiv total := by
          rw [sum_map_mul_right, Nat.cast_list_sum, map_map]
          rfl
      _ ≤ max availableMemory 0 := mul_fdiv_le_max hle hne availableMemory

/-! ### Tensors that the groups share -/

theorem length_le_groupSize {group : KVCacheGroupSpec} (h : group ∈ groups) :
    group.layerNames.length ≤ groupSize groups := by
  induction groups with
  | nil => cases h
  | cons group' groups ih =>
    rcases mem_cons.1 h with rfl | h
    · exact le_max_left _ _
    · exact le_max_of_le_right (ih h)

theorem exists_lt_length {i : ℕ} (hi : i < groupSize groups) :
    ∃ group ∈ groups, i < group.layerNames.length := by
  induction groups with
  | nil => cases hi
  | cons group groups ih =>
    rcases lt_max_iff.1 hi with hi | hi
    · exact ⟨group, .head _, hi⟩
    · obtain ⟨group', hmem, hlt⟩ := ih hi
      exact ⟨group', .tail _ hmem, hlt⟩

theorem pageSizeBytes_of_uniform {specs : List GroupKVCacheSpec} {page : ℕ}
    (h : getUniformPageSize specs = .ok page) : ∀ spec ∈ specs, spec.pageSizeBytes = .ok page := by
  obtain ⟨pages, hpages, h⟩ := bind_ok.1 h
  intro spec hspec
  obtain ⟨page', hmem, hpage⟩ := exists_mem_of_mapM hpages hspec
  split at h
  · next pageSize hdedup =>
    cases h
    have hone : page' ∈ [page] := hdedup ▸ mem_dedup.2 hmem
    rw [hpage, mem_singleton.1 hone]
  · cases h

theorem getNumBlocks_of_none (hnone : cfg.numGpuBlocksOverride = none) {numLayers pageSize : ℕ}
    (h : getNumBlocks cfg numLayers availableMemory pageSize = .ok numBlocks) :
    numLayers * (pageSize * numBlocks) ≤ max availableMemory 0 := by
  obtain ⟨perPage, hpage, h⟩ := bind_ok.1 h
  obtain ⟨perLayer, hlayer, h⟩ := bind_ok.1 h
  cases h
  obtain ⟨hpageNe, rfl⟩ := floorDiv_eq_ok hpage
  obtain ⟨hlayerNe, rfl⟩ := floorDiv_eq_ok hlayer
  rw [mayOverrideNumBlocks_of_none hnone]
  have houter := @fdiv_mul_le availableMemory pageSize (by omega)
  have hinner := @fdiv_mul_le (availableMemory.fdiv pageSize) numLayers (by omega)
  rcases le_total ((availableMemory.fdiv pageSize).fdiv numLayers) 0 with hneg | hpos
  · simp [max_eq_right hneg]
  · rw [max_eq_left hpos]
    refine le_max_of_le_left (le_trans ?_ houter)
    rw [mul_left_comm]
    exact mul_le_mul_of_nonneg_left hinner (natCast_nonneg pageSize)

theorem laidOut_groups (hlayer : ∀ group ∈ groups, ∃ spec, group.kvCacheSpec = .layer spec)
    (hnodup : (groups.flatMap KVCacheGroupSpec.layerNames).Nodup)
    (h : configOfGroups cfg groups availableMemory = .ok config) :
    config.kvCacheGroups = groups ∧ LaidOut cfg.numGpuBlocksOverride
      (groups.flatMap KVCacheGroupSpec.layerNames) availableMemory config := by
  obtain ⟨page, hpage, h⟩ := bind_ok.1 h
  obtain ⟨_, _, h⟩ := bind_ok.1 h
  obtain ⟨numBlocks, hblocks, h⟩ := bind_ok.1 h
  cases h
  have hrows : ∀ row ∈ groups.map KVCacheGroupSpec.layerNames, row.length ≤ groupSize groups :=
    forall_mem_map.2 fun group hgroup => length_le_groupSize hgroup
  refine ⟨rfl, List.Perm.refl _, ?_, ?_, ?_, fun hnone => ?_⟩
  · rw [flatMap_map, flatMap_def]
    exact Lib.flatMap_column_perm hrows
  · intro group hgroup tensor htensor a ha b hb hca hcb
    obtain ⟨i, -, rfl⟩ := mem_map.1 htensor
    have hrow := mem_map_of_mem (f := KVCacheGroupSpec.layerNames) hgroup
    have hai := Lib.getElem?_of_mem_column hnodup hrow ha hca
    have hbi := Lib.getElem?_of_mem_column hnodup hrow hb hcb
    exact Option.some.inj (hai.symm.trans hbi)
  · intro tensor htensor
    obtain ⟨i, hi, rfl⟩ := mem_map.1 htensor
    refine ⟨?_, page, rfl, fun group hgroup a _ _ => ?_⟩
    · obtain ⟨group, hgroup, hlt⟩ := exists_lt_length (mem_range.1 hi)
      refine ne_nil_of_mem (a := group.layerNames[i]) (mem_filterMap.2 ?_)
      exact ⟨_, mem_map_of_mem hgroup, getElem?_eq_getElem hlt⟩
    · obtain ⟨spec, hspec⟩ := hlayer group hgroup
      have hsize := pageSizeBytes_of_uniform hpage _ (mem_map_of_mem hgroup)
      rw [hspec] at hsize
      rw [layerPage, hspec]
      exact hsize
  · simpa [Function.comp_def] using getNumBlocks_of_none hnone hblocks

/-- **The tensors of groups that are formed**, for any memory. -/
theorem laidOut_of_groups (hformed : Formed groups)
    (h : getKvCacheConfigFromGroups cfg groups availableMemory = .ok config) :
    config.kvCacheGroups = groups ∧ LaidOut cfg.numGpuBlocksOverride
      (groups.flatMap KVCacheGroupSpec.layerNames) availableMemory config := by
  cases hformed with
  | uniformType hkeys hsub => simpa using laidOut_uniformType hkeys hsub h
  | merged hlayer hnodup =>
    match groups with
    | [] =>
      cases h
      exact ⟨rfl, by simp, by simp, by simp, by simp, by simp⟩
    | ⟨layerNames, .layer spec⟩ :: rest => exact laidOut_groups hlayer hnodup h
    | ⟨layerNames, .uniformType specs⟩ :: rest =>
      obtain ⟨spec, hspec⟩ := hlayer _ (.head _)
      cases hspec

theorem LaidOut.perm {layerNames' : List String} (hperm : layerNames.Perm layerNames')
    (h : LaidOut override layerNames availableMemory config) :
    LaidOut override layerNames' availableMemory config :=
  ⟨h.grouped.trans hperm, h.backed.trans hperm, h.apart, h.sized, h.memory⟩

/-! ### The smallest number of blocks -/

theorem shrinkTensor_eq_ok {numBlocksOld minNumBlocks : ℤ} {tensor tensor' : KVCacheTensor}
    (h : shrinkTensor numBlocksOld minNumBlocks tensor = .ok tensor') :
    tensor'.sharedBy = tensor.sharedBy ∧ ∀ page : ℕ, tensor.size = page * numBlocksOld →
      tensor'.size = page * minNumBlocks := by
  unfold shrinkTensor at h
  split_ifs at h with hold
  obtain ⟨_, _, h⟩ := bind_ok.1 h
  cases h
  exact ⟨rfl, fun page hsize => by rw [hsize, mul_fdiv_cancel _ hold]⟩

/-- **Shrinking keeps the layout**: the tensors have the same layers, and pages of the same size. -/
theorem LaidOut.shrink (h : LaidOut override layerNames availableMemory config) {minNumBlocks : ℤ}
    (hle : minNumBlocks ≤ config.numBlocks) {config' : KVCacheConfig}
    (hshrink : shrinkConfig minNumBlocks config = .ok config') :
    config'.numBlocks = minNumBlocks ∧ config'.kvCacheGroups = config.kvCacheGroups ∧
      LaidOut override layerNames availableMemory config' := by
  obtain ⟨tensors, htensors, hshrink⟩ := bind_ok.1 hshrink
  cases hshrink
  have hshared : tensors.map KVCacheTensor.sharedBy =
      config.kvCacheTensors.map KVCacheTensor.sharedBy :=
    map_eq_of_mapM (fun _ _ ht => (shrinkTensor_eq_ok ht).1) htensors
  refine ⟨rfl, rfl, h.grouped, ?_, ?_, ?_, fun hnone => le_trans ?_ (h.memory hnone)⟩
  · rw [flatMap_def, hshared, ← flatMap_def]
    exact h.backed
  · intro group hgroup tensor' htensor'
    obtain ⟨tensor, htensor, hok⟩ := exists_mem_of_mem_mapM htensors htensor'
    rw [(shrinkTensor_eq_ok hok).1]
    exact h.apart group hgroup tensor htensor
  · intro tensor' htensor'
    obtain ⟨tensor, htensor, hok⟩ := exists_mem_of_mem_mapM htensors htensor'
    obtain ⟨hne, page, hsize, hpage⟩ := h.sized tensor htensor
    rw [(shrinkTensor_eq_ok hok).1]
    exact ⟨hne, page, (shrinkTensor_eq_ok hok).2 page hsize, hpage⟩
  · refine Forall₂.sum_le_sum ?_
    rw [forall₂_map_left_iff, forall₂_map_right_iff]
    refine Forall₂.flip (forall₂_iff_zip.2 ⟨(mapM_eq_ok.1 htensors).length_eq, ?_⟩)
    intro tensor tensor' hzip
    have hok := forall₂_zip (mapM_eq_ok.1 htensors) hzip
    obtain ⟨-, page, hsize, -⟩ := h.sized tensor (of_mem_zip hzip).1
    show tensor'.size ≤ tensor.size
    rw [(shrinkTensor_eq_ok hok).2 page hsize, hsize]
    exact mul_le_mul_of_nonneg_left hle (natCast_nonneg page)

theorem minOf_eq_ok {l : List ℤ} {m : ℤ} (h : minOf l = .ok m) : IsLeast {a | a ∈ l} m := by
  cases l with
  | nil => cases h
  | cons a as =>
    cases h
    exact min?_eq_some_iff.1 min?_cons'

/-! ### The specs of all workers -/

theorem notMem_of_lookup {name : String} (h : kvCacheSpec.lookup name = none) :
    name ∉ kvCacheSpec.map fst := by
  rw [lookup_eq_none_iff] at h
  intro hmem
  obtain ⟨layer, hlayer, rfl⟩ := mem_map.1 hmem
  simpa using h layer hlayer

theorem mergeLayer_eq_ok {merged merged' : LayerSpecs}
    (h : mergeLayer merged layer = .ok merged') (hkeys : (merged.map fst).Nodup) :
    (merged'.map fst).Nodup ∧ layer ∈ merged' ∧ merged ⊆ merged' ∧
      merged' ⊆ layer :: merged := by
  unfold mergeLayer at h
  split at h
  · next hnone =>
    cases h
    have hnotMem := notMem_of_lookup hnone
    refine ⟨?_, by simp, subset_append_left _ _, by simp⟩
    rw [map_append, nodup_append_comm]
    exact nodup_cons.2 ⟨hnotMem, hkeys⟩
  · next spec hsome =>
    obtain ⟨_, hsame, h⟩ := bind_ok.1 h
    rw [assert_eq_ok] at hsame
    cases h
    refine ⟨hkeys, ?_, refl _, subset_cons_self _ _⟩
    have hget : getSpec merged layer.1 = .ok layer.2 := by rw [getSpec, hsome, hsame]
    exact mem_of_getSpec hget

variable {kvCacheSpecs : List LayerSpecs}

/-- The merged specs are those of the workers, each name once. -/
theorem mergeKvCacheSpecs_eq_ok {merged : LayerSpecs}
    (h : mergeKvCacheSpecs kvCacheSpecs = .ok merged) :
    (merged.map fst).Nodup ∧ (∀ worker ∈ kvCacheSpecs, worker ⊆ merged) ∧
      merged ⊆ kvCacheSpecs.flatten := by
  have hfold : ∀ (layers start : LayerSpecs), (start.map fst).Nodup →
      layers.foldlM mergeLayer start = .ok merged →
        (merged.map fst).Nodup ∧ layers ⊆ merged ∧ start ⊆ merged ∧
          merged ⊆ start ++ layers := by
    intro layers
    induction layers with
    | nil =>
      intro start hkeys h
      cases h
      exact ⟨hkeys, nil_subset _, refl _, by simp⟩
    | cons layer layers ih =>
      intro start hkeys h
      obtain ⟨next, hnext, h⟩ := bind_ok.1 h
      obtain ⟨hkeys', hmem, hsub, hfrom⟩ := mergeLayer_eq_ok hnext hkeys
      obtain ⟨hnodup, hlayers, hstart, hback⟩ := ih next hkeys' h
      refine ⟨hnodup, cons_subset.2 ⟨hstart hmem, hlayers⟩, List.Subset.trans hsub hstart, ?_⟩
      intro p hp
      rcases mem_append.1 (hback hp) with hp | hp
      · have := hfrom hp
        simp only [mem_cons] at this
        simp only [mem_append, mem_cons]
        tauto
      · simp [hp]
  obtain ⟨hnodup, hlayers, -, hback⟩ := hfold _ [] nodup_nil h
  refine ⟨hnodup, fun worker hworker p hp => hlayers (mem_flatten.2 ⟨worker, hworker, hp⟩), ?_⟩
  exact hback

/-! ### The configs of all workers are laid out -/

variable {α : Type} {cfg' : VllmConfig}

theorem configM_bind_eq_ok {β : Type} {x : ConfigM α} {f : α → ConfigM β} {b : β}
    : (x >>= f) cfg = .ok b cfg' ↔ ∃ a cfg₁, x cfg = .ok a cfg₁ ∧ f a cfg₁ = .ok b cfg' := by
  cases h : x cfg <;> simp [Bind.bind, EStateM.bind, h]

theorem readConfig_eq_ok {f : VllmConfig → Except PyErr α} {a : α} :
    readConfig f cfg = .ok a cfg' ↔ f cfg = .ok a ∧ cfg = cfg' := by
  cases h : f cfg <;> simp [readConfig, h]

theorem probes_get : Probes get := fun cfg => ⟨cfg.maxModelLen, .inl ⟨cfg, rfl⟩⟩

theorem probes_throw (e : PyErr) : @Probes α (throw e) := fun cfg =>
  ⟨cfg.maxModelLen, .inr ⟨e, rfl⟩⟩

theorem probes_readConfig (f : VllmConfig → Except PyErr α) : Probes (readConfig f) := by
  intro cfg
  refine ⟨cfg.maxModelLen, ?_⟩
  cases h : f cfg with
  | ok a => exact .inl ⟨a, by simp [readConfig, h]⟩
  | error e => exact .inr ⟨e, by simp [readConfig, h]⟩

theorem probes_estimateMaxModelLenFromGroups (kvCacheGroups : List KVCacheGroupSpec)
    (availableMemory : ℤ) :
    Probes (estimateMaxModelLenFromGroups kvCacheGroups availableMemory) := fun cfg =>
  ⟨cfg.maxModelLen, estimateWith_restores _ availableMemory cfg⟩

theorem probes_autoFitMaxModelLen (kvCacheGroups : List KVCacheGroupSpec)
    (availableMemory : List ℤ) : Probes (autoFitMaxModelLen kvCacheGroups availableMemory) := by
  refine .bind probes_get fun cfg => ?_
  split_ifs
  · exact .pure ()
  · refine .bind (probes_readConfig _) fun minAvailableMemory =>
      .bind (probes_estimateMaxModelLenFromGroups _ _) fun autoFitMax => ?_
    split_ifs
    · exact probes_throw _
    · exact .pure ()
    · exact fun cfg => ⟨autoFitMax, .inl ⟨(), rfl⟩⟩

theorem probes_checkEnoughKvCacheMemory {formatGib : ℤ → String} {maxModelLen : ℤ}
    {getNeededMemory : VllmConfig → Except PyErr ℤ} {estimate : ℤ → ConfigM ℤ}
    (hestimate : Probes (estimate availableMemory)) :
    Probes (checkEnoughKvCacheMemory formatGib availableMemory getNeededMemory maxModelLen
      estimate) := by
  unfold checkEnoughKvCacheMemory
  split_ifs
  · exact probes_throw _
  · refine .bind (probes_readConfig _) fun neededMemory => ?_
    split_ifs
    · exact .bind hestimate fun estimatedMaxLen => probes_throw _
    · exact .pure ()

theorem probes_checkMemory (formatGib : ℤ → String) (kvCacheGroups : List KVCacheGroupSpec)
    (availableMemory : List ℤ) : Probes (checkMemory formatGib kvCacheGroups availableMemory) := by
  unfold checkMemory
  split_ifs
  · exact .pure ()
  · exact .bind (probes_readConfig _) fun minAvailableMemory => .bind probes_get fun cfg =>
      probes_checkEnoughKvCacheMemory (probes_estimateMaxModelLenFromGroups _ _)

/-- The fit may change `max_model_len`, and nothing else. -/
theorem probes_fitMemory (formatGib : ℤ → String) (kvCacheGroups : List KVCacheGroupSpec)
    (availableMemory : List ℤ) : Probes (fitMemory formatGib kvCacheGroups availableMemory) := by
  have hcheck := probes_checkMemory formatGib kvCacheGroups availableMemory
  refine .bind probes_get fun cfg => ?_
  split_ifs
  · exact .bind (probes_autoFitMaxModelLen _ _) fun _ => hcheck
  · exact hcheck

theorem getKvCacheConfigs_eq_ok {formatGib : ℤ → String}
    {availableMemory : List ℤ} {configs : List KVCacheConfig}
    (h : getKvCacheConfigs formatGib kvCacheSpecs availableMemory cfg = .ok configs cfg') :
    ∃ merged groups before, mergeKvCacheSpecs kvCacheSpecs = .ok merged ∧
      getKvCacheGroups cfg merged = .ok groups ∧
      ((kvCacheSpecs.zip availableMemory).mapM fun worker =>
        configOfWorker cfg groups worker.1 worker.2) = .ok before ∧
      shrinkConfigs before = .ok configs := by
  obtain ⟨merged, _, hread, h⟩ := configM_bind_eq_ok.1 h
  obtain ⟨hmerged, rfl⟩ := readConfig_eq_ok.1 hread
  obtain ⟨groups, _, hread, h⟩ := configM_bind_eq_ok.1 h
  obtain ⟨hgroups, rfl⟩ := readConfig_eq_ok.1 hread
  obtain ⟨_, fitted, hfit, h⟩ := configM_bind_eq_ok.1 h
  obtain ⟨before, _, hread, h⟩ := configM_bind_eq_ok.1 h
  obtain ⟨hbefore, rfl⟩ := readConfig_eq_ok.1 hread
  obtain ⟨hshrink, -⟩ := readConfig_eq_ok.1 h
  obtain ⟨modelLen, ⟨_, hok⟩ | ⟨e, herror⟩⟩ := probes_fitMemory formatGib groups availableMemory cfg
  · rw [hok] at hfit
    cases hfit
    -- a config of a worker does not depend on `max_model_len`
    exact ⟨merged, groups, before, hmerged, hgroups, hbefore, hshrink⟩
  · rw [herror] at hfit
    cases hfit

theorem configOfWorker_laidOut (hformed : Formed groups)
    (h : configOfWorker cfg groups kvCacheSpec availableMemory = .ok config) :
    config.kvCacheGroups = groupsOfWorker groups kvCacheSpec ∧
      LaidOut cfg.numGpuBlocksOverride (kvCacheSpec.map fst) availableMemory config := by
  obtain ⟨_, hlength, h⟩ := bind_ok.1 h
  rw [assert_eq_ok] at hlength
  obtain ⟨hgroups, hlaid⟩ := laidOut_of_groups hformed.ofWorker h
  exact ⟨hgroups, hlaid.perm (layerNames_groupsOfWorker_perm hformed hlength)⟩

theorem shrunk_of_laidOut {workers : List (LayerSpecs × ℤ)} {before configs : List KVCacheConfig}
    (hle : ∀ config ∈ before, numBlocks ≤ config.numBlocks)
    (hlaid : Forall₂ (fun worker config =>
      config.kvCacheGroups = groupsOfWorker groups worker.1 ∧
      LaidOut override (worker.1.map fst) worker.2 config) workers before)
    (h : before.mapM (shrinkConfig numBlocks) = .ok configs) :
    Forall₂ (fun worker config => config.numBlocks = numBlocks ∧
      config.kvCacheGroups = groupsOfWorker groups worker.1 ∧
      LaidOut override (worker.1.map fst) worker.2 config) workers configs := by
  have hall := mapM_eq_ok.1 h
  clear h
  induction hlaid generalizing configs with
  | nil =>
    cases hall
    exact .nil
  | cons hworker _ ih =>
    obtain ⟨hfirst, hrest⟩ := forall_mem_cons.1 hle
    cases hall with
    | cons hshrink hall =>
      obtain ⟨hblocks, hgroups, hlaid⟩ := hworker.2.shrink hfirst hshrink
      exact .cons ⟨hblocks, hgroups.trans hworker.1, hlaid⟩ (ih hrest hall)

/-- **Every layer is in one group and in one tensor**, for any specs and any memory: of one worker, and
of all workers after they are shrunk to the smallest number of blocks. -/
theorem layers_laidOut (cfg : VllmConfig) :
    (∀ kvCacheSpec groups, (kvCacheSpec.map fst).Nodup →
      getKvCacheGroups cfg kvCacheSpec = .ok groups →
      (∃ specs, specsToGroup cfg kvCacheSpec = .ok specs ∧
        specs.map fst = kvCacheSpec.map fst ∧ ∀ group ∈ groups,
        (∀ merged, group.kvCacheSpec = .layer merged → SeesSizes (group.specsIn specs) →
          ∀ spec ∈ group.specsIn specs, spec.pageSizeBytes = merged.pageSizeBytes) ∧
        ∀ uniform, group.kvCacheSpec = .uniformType uniform →
          groups = [group] ∧ uniform.kvCacheSpecs = specs) ∧
      ∀ availableMemory config, getKvCacheConfigFromGroups cfg groups availableMemory = .ok config →
        config.kvCacheGroups = groups ∧
          LaidOut cfg.numGpuBlocksOverride (kvCacheSpec.map fst) availableMemory config) ∧
    ∀ formatGib kvCacheSpecs availableMemory configs cfg',
      getKvCacheConfigs formatGib kvCacheSpecs availableMemory cfg = .ok configs cfg' →
      ∃ merged groups before numBlocks, mergeKvCacheSpecs kvCacheSpecs = .ok merged ∧
        (merged.map fst).Nodup ∧ (∀ worker ∈ kvCacheSpecs, worker ⊆ merged) ∧
        getKvCacheGroups cfg merged = .ok groups ∧
        ((kvCacheSpecs.zip availableMemory).mapM fun worker =>
          configOfWorker cfg groups worker.1 worker.2) = .ok before ∧
        IsLeast {n | n ∈ before.map KVCacheConfig.numBlocks} numBlocks ∧
        Forall₂ (fun worker config => config.numBlocks = numBlocks ∧
          config.kvCacheGroups = groupsOfWorker groups worker.1 ∧
          LaidOut cfg.numGpuBlocksOverride (worker.1.map fst) worker.2 config)
          (kvCacheSpecs.zip availableMemory) configs := by
  refine ⟨fun kvCacheSpec groups hkeys hgroups => ?_,
    fun formatGib kvCacheSpecs availableMemory configs cfg' h => ?_⟩
  · obtain ⟨specs, hspecs, hnames, hgrouped⟩ := getKvCacheGroups_grouped hgroups
    have hnodup : (specs.map fst).Nodup := by rwa [hnames]
    refine ⟨⟨specs, hspecs, hnames, fun group hgroup => ⟨?_, ?_⟩⟩, fun availableMemory config h => ?_⟩
    · exact fun merged hmerged hsees => hgrouped.pageSizes hnodup hgroup hmerged hsees
    · intro uniform huniform
      exact hgrouped.uniformType_unique hgroup huniform
    · obtain ⟨heq, hlaid⟩ := laidOut_of_groups (hgrouped.formed hnodup) h
      exact ⟨heq, hlaid.perm (hnames ▸ hgrouped.perm)⟩
  · obtain ⟨merged, groups, before, hmerged, hgroups, hbefore, hshrink⟩ := getKvCacheConfigs_eq_ok h
    obtain ⟨numBlocks, hmin, hshrink⟩ := bind_ok.1 hshrink
    obtain ⟨hkeys, hworkers, -⟩ := mergeKvCacheSpecs_eq_ok hmerged
    have hleast := minOf_eq_ok hmin
    obtain ⟨specs, -, hnames, hgrouped⟩ := getKvCacheGroups_grouped hgroups
    have hformed := hgrouped.formed (hnames ▸ hkeys)
    refine ⟨merged, groups, before, numBlocks, hmerged, hkeys, hworkers, hgroups, hbefore, hleast, ?_⟩
    refine shrunk_of_laidOut (fun config hconfig => hleast.2 (mem_map_of_mem hconfig))
      ((mapM_eq_ok.1 hbefore).imp fun worker config hworker => ?_) hshrink
    exact configOfWorker_laidOut hformed hworker

/-- Two stages of a model with two types of layers: the second stage is shrunk from 62 blocks to 21. -/
theorem layers_laidOut_twoWorkers :
    let spec : AttentionSpec := ⟨4, 1, 2, ⟨"float16", 2⟩, none, by decide⟩
    let full : KVCacheSpec := .full ⟨spec, 2, none, none⟩
    let window : KVCacheSpec := .slidingWindow ⟨spec, 8⟩
    let cfg : VllmConfig := ⟨10, 10, 1, 1, 8, 0, none, false⟩
    let first : LayerSpecs := [("full.0", full), ("sw.0", window), ("sw.1", window)]
    let second : LayerSpecs := [("full.1", full), ("sw.2", window)]
    (∃ groups, getKvCacheGroups cfg first = .ok groups ∧ groups.length = 3 ∧
      ∀ availableMemory config, getKvCacheConfigFromGroups cfg groups availableMemory = .ok config →
        LaidOut none ["full.0", "sw.0", "sw.1"] availableMemory config) ∧
    ∃ configs cfg', getKvCacheConfigs (fun _ => "") [first, second] [700, 2000] cfg =
        .ok configs cfg' ∧ configs.map KVCacheConfig.numBlocks = [21, 21] ∧
      Forall₂ (fun (worker : LayerSpecs × ℤ) config =>
        LaidOut none (worker.1.map fst) worker.2 config) [(first, 700), (second, 2000)] configs := by
  intro spec full window cfg first second
  obtain ⟨groups, hgroups, hlength⟩ : ∃ groups, getKvCacheGroups cfg first = .ok groups ∧
      groups.length = 3 := exists_ok_of_map (by decide +kernel)
  have hone := (layers_laidOut cfg).1 first groups (by decide) hgroups
  refine ⟨⟨groups, hgroups, hlength, fun availableMemory config h => (hone.2 _ _ h).2⟩, ?_⟩
  have hblocks : (match getKvCacheConfigs (fun _ => "") [first, second] [700, 2000] cfg with
      | .ok configs _ => configs.map KVCacheConfig.numBlocks
      | .error _ _ => []) = [21, 21] := by decide +kernel
  cases hrun : getKvCacheConfigs (fun _ => "") [first, second] [700, 2000] cfg with
  | error e cfg' =>
    rw [hrun] at hblocks
    cases hblocks
  | ok configs cfg' =>
    rw [hrun] at hblocks
    obtain ⟨_, _, _, _, _, _, _, _, _, _, hall⟩ := (layers_laidOut cfg).2 _ _ _ _ _ hrun
    exact ⟨configs, cfg', rfl, hblocks, hall.imp fun worker config h => h.2.2⟩

/-- The number of blocks is overridden, and the tensors exceed the memory; layers of one type have pages
of different sizes. -/
theorem overridden_exceeds_memory :
    let full (headSize : ℕ) : KVCacheSpec :=
      .full ⟨⟨4, 1, headSize, ⟨"float16", 2⟩, none, by decide⟩, headSize, none, none⟩
    let cfg (numGpuBlocksOverride : Option ℕ) : VllmConfig :=
      ⟨10, 10, 1, 1, 8, 0, numGpuBlocksOverride, false⟩
    (∃ groups config, getKvCacheGroups (cfg (some 100)) [("layer.0", full 2)] = .ok groups ∧
      getKvCacheConfigFromGroups (cfg (some 100)) groups 64 = .ok config ∧
      64 < (config.kvCacheTensors.map KVCacheTensor.size).sum) ∧
    ∃ group, getKvCacheGroups (cfg none) [("layer.0", full 2), ("layer.1", full 4)] = .ok [group] ∧
      group.layerNames = ["layer.0", "layer.1"] ∧ group.layerPage "layer.0" = .ok 32 ∧
      group.layerPage "layer.1" = .ok 64 :=
  ⟨⟨_, _, rfl, rfl, by decide⟩, ⟨_, rfl, rfl, rfl, rfl⟩⟩

end LoptVllm.KVConfig
