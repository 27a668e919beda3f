import LoptVllm.Lib.LruCache
import LoptVllm.Python

/-!
# `LRUCacheLoRAModelManager`

The registered adapters are in CPU memory, and the active ones in the slots of the GPU buffers.

An operation that raises leaves the manager as it is then. A cache from `vllm.utils.cache` calls the
manager for each entry that it drops.
-/

namespace LoptVllm.LoRA

open Function

inductive LoRAMappingType
  | language
  | tower
  | connector
  deriving DecidableEq

/-- The adapters of the tokens and of the prompts of a batch; no id below one is an adapter. -/
structure LoRAMapping where
  indexMapping : List ℤ
  promptMapping : List ℤ
  isPrefill : Bool
  type : LoRAMappingType
  deriving DecidableEq

/-- What `convert_mapping` returns. -/
structure Converted where
  baseIndices : List ℤ
  samplerIndices : List ℤ
  samplerIndicesPadded : List ℤ
  embeddingsIndices : List ℤ × List ℤ
  indicesLen : List ℕ

/-- `lora_index_to_id.index(x) if x > 0 else -1`. -/
def slotIndex (loraIndexToId : List (Option ℤ)) (x : ℤ) : Except PyErr ℤ := if 0 < x then
    if some x ∈ loraIndexToId then .ok (loraIndexToId.idxOf (some x))
    else .error (.valueError (toString x ++ " is not in list"))
  else .ok (-1)

/-- The slots without an adapter. -/
def freed (slots : List (Option ℤ)) (id : ℤ) : List (Option ℤ) :=
  if some id ∈ slots then slots.set (slots.idxOf (some id)) none else slots

def convertMapping (mapping : LoRAMapping) (loraIndexToId : List (Option ℤ)) (maxLoras : ℕ)
    (vocabSize extraVocabSize : ℤ) : Except PyErr Converted := do
  let promptMapping ← mapping.promptMapping.mapM (slotIndex loraIndexToId)
  let loraIndices ← mapping.indexMapping.mapM (slotIndex loraIndexToId)
  -- without an adapter the embedding index is `0`
  let embeddingIndices := loraIndices.map fun i => if i = -1 then 0 else i
  let orLast := fun i : ℤ => if i = -1 then (maxLoras : ℤ) - 1 else i
  let samplerIndicesPadded := promptMapping.mapIdx fun i slot =>
    (i : ℤ) + orLast slot * promptMapping.length
  let embeddingsIndices := (embeddingIndices.map fun i => orLast (i * extraVocabSize),
    embeddingIndices.map fun i => orLast (i * (vocabSize + extraVocabSize)))
  .ok {
    baseIndices := loraIndices
    samplerIndices := promptMapping
    samplerIndicesPadded := samplerIndicesPadded
    embeddingsIndices := embeddingsIndices
    indicesLen := [loraIndices.length, promptMapping.length, promptMapping.length,
      loraIndices.length] }

/-- The layer weights of an adapter, for the modules that it changes. -/
structure LoRAModel (M L : Type*) where
  id : ℤ
  loras : M → Option L

/-- What the manager does not change: its configuration, the modules of the model, and
`_create_merged_loras_inplace`. -/
structure Setup (M L : Type*) where
  maxLoras : ℕ
  maxCpuLoras : ℕ
  maxLoras_le : maxLoras ≤ maxCpuLoras
  vocabSize : ℤ
  modules : List M
  createMergedLoras : (M → Option L) → M → Option L

/-- `buffers` are the weights that a module has for a slot. `converted` is the result of the last
`convert_mapping`. -/
structure Manager (M L : Type*) where
  registeredAdapters : LruCache ℤ (LoRAModel M L)
  activeAdapters : LruCache ℤ Unit
  loraIndexToId : List (Option ℤ)
  buffers : M → ℕ → Option L
  lastMapping : Option LoRAMapping
  converted : Option Converted

/-- What an operation raises, and the manager as it is then. -/
abbrev Raised (M L : Type*) := PyErr × Manager M L

namespace Manager

variable {M L : Type*}

def new (setup : Setup M L) : Manager M L where
  registeredAdapters := ∅
  activeAdapters := ∅
  loraIndexToId := List.replicate setup.maxLoras none
  buffers := fun _ _ => none
  lastMapping := none
  converted := none

section Slots

variable (m : Manager M L) (id : ℤ)

/-- `_deactivate_adapter`. -/
def freeSlot : Manager M L := if some id ∈ m.loraIndexToId then
    { m with loraIndexToId := m.loraIndexToId.set (m.loraIndexToId.idxOf (some id)) none }
  else m

/-- `self._active_adapters.pop(lora_id, None)`, which calls `_deactivate_adapter`. -/
def popActive : Manager M L := if id ∈ m.activeAdapters then
    { m with activeAdapters := m.activeAdapters.delItem id }.freeSlot id
  else m

/-- `deactivate_adapter`. -/
def deactivateAdapter : Manager M L :=
  if id ∉ m.activeAdapters then m else (m.freeSlot id).popActive id

/-- `self._registered_adapters.pop(adapter_id, None)`, which calls `deactivate_adapter`. -/
def popRegistered : Manager M L := if id ∈ m.registeredAdapters then
    { m with registeredAdapters := m.registeredAdapters.delItem id }.deactivateAdapter id
  else m

/-- `remove_adapter`: whether the adapter was there. -/
def removeAdapter : Bool × Manager M L :=
  let m := m.deactivateAdapter id
  if id ∉ m.registeredAdapters then (false, m) else (true, m.popRegistered id)

/-- `LRUCache.remove_oldest`, with the removal of a key. -/
def removeOldest {ν : Type*} (cache : LruCache ℤ ν) (pop : ℤ → Manager M L) :
    Except (Raised M L) (Manager M L) :=
  if cache.size = 0 then .ok m
  else
    match cache.oldest? with
    | none =>
      .error (.runtimeError "All items are pinned, cannot remove oldest from the cache.", m)
    | some id => .ok (pop id)

/-- `remove_oldest_adapter`. -/
def removeOldestAdapter : Except (Raised M L) (Manager M L) :=
  m.removeOldest m.registeredAdapters m.popRegistered

/-- `self._active_adapters.remove_oldest()`. -/
def removeOldestActive : Except (Raised M L) (Manager M L) := m.removeOldest m.activeAdapters m.popActive

end Slots

variable [DecidableEq M] (setup : Setup M L)

/-- `module.set_lora` with the weights of a module, or `module.reset_lora`. -/
def setLora (index : ℕ) (model : LoRAModel M L) (buffers : M → ℕ → Option L) (module : M) :
    M → ℕ → Option L :=
  update buffers module (update (buffers module) index (model.loras module))

variable (m : Manager M L) (loraId : ℤ)

/-- `LoRAModelManager.activate_adapter`, when the cache of active adapters has room. -/
def activateInFreeSlot : Except (Raised M L) (Bool × Manager M L) :=
  if loraId ∈ m.activeAdapters then .ok (false, m)
  else if none ∉ m.loraIndexToId then .error (.valueError "No free lora slots", m)
  else
    let index := m.loraIndexToId.idxOf none
    let m := { m with activeAdapters := m.activeAdapters.setItem loraId () }
    match m.registeredAdapters.lookup loraId with
    | none => .error (.keyError (toString loraId), m)
    | some loraModel =>
      .ok (true, { m with
        registeredAdapters := m.registeredAdapters.touch loraId
        loraIndexToId := m.loraIndexToId.set index (some loraModel.id)
        buffers := setup.modules.foldl (setLora index loraModel) m.buffers })

/-- `activate_adapter`. -/
def activateAdapter : Except (Raised M L) (Bool × Manager M L) := do
  let m ← if loraId ∉ m.activeAdapters ∧ setup.maxLoras ≤ m.activeAdapters.size then
      m.removeOldestActive
    else .ok m
  let (result, m) ← m.activateInFreeSlot setup loraId
  .ok (result, { m with activeAdapters := m.activeAdapters.touch loraId })

/-- `add_adapter`. -/
def addAdapter (lora : LoRAModel M L) : Bool × Manager M L :=
  if lora.id ∉ m.registeredAdapters then
    let merged := { lora with loras := setup.createMergedLoras lora.loras }
    (true, { m with registeredAdapters := m.registeredAdapters.setItem lora.id merged })
  else (false, { m with registeredAdapters := m.registeredAdapters.touch lora.id })

/-- `pin_adapter`. -/
def pinAdapter : Except (Raised M L) (Manager M L) :=
  if loraId ∉ m.registeredAdapters then
    .error (.valueError ("Pinning failed. LoRA " ++ toString loraId ++ " is not registered."), m)
  else do
    let m := { m with registeredAdapters := m.registeredAdapters.pin loraId }
    let m ← if loraId ∉ m.activeAdapters then (m.activateAdapter setup loraId).map Prod.snd else .ok m
    .ok { m with activeAdapters := m.activeAdapters.pin loraId }

/-- `set_adapter_mapping`. -/
def setAdapterMapping (mapping : LoRAMapping) : Except (Raised M L) (Manager M L) :=
  if m.lastMapping ≠ some mapping then
    match convertMapping mapping m.loraIndexToId (setup.maxLoras + 1) setup.vocabSize 0 with
    | .error e => .error (e, m)
    | .ok converted => .ok { m with
        lastMapping := some mapping
        converted := some converted }
  else .ok m

end Manager

end LoptVllm.LoRA
