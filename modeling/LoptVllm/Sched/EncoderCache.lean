import LoptVllm.Sched.Request
import Mathlib.Data.Finset.Basic
import Mathlib.Data.List.AList

/-!
# The encoder cache manager

The manager keeps, for the hash of each multimodal item whose encoder output is cached, the requests
that reference it. Outputs without a reference can be evicted, the one that lost its last reference
first; the hashes of the evicted outputs are sent to the workers with the next step.

A Python dictionary is an association list with the newest entry first.
-/

namespace LoptVllm.Sched

/-- `EncoderCacheManager`, or `EncoderDecoderCacheManager`. -/
structure EncoderCacheManager where
  isEncoderDecoder : Bool
  numFreeSlots : ℤ
  numFreeableSlots : ℤ
  cached : AList fun _ : String => Finset ℕ
  freeable : AList fun _ : String => ℤ
  freed : List String

namespace EncoderCacheManager

/-- `__init__`. -/
def new (isEncoderDecoder : Bool) (cacheSize : ℕ) : EncoderCacheManager :=
  ⟨isEncoderDecoder, cacheSize, cacheSize, ∅, ∅, []⟩

variable (m : EncoderCacheManager) (requestId : ℕ)

/-- `check_and_update_cache`. -/
def checkAndUpdateCache (mmHash : String) : Except PyErr (Bool × EncoderCacheManager) :=
  if m.isEncoderDecoder then .ok (false, m)
  else match m.cached.lookup mmHash with
    | none => .ok (false, m)
    | some ids =>
      if ids = ∅ then
        match m.freeable.lookup mmHash with
        | none => .error (.keyError mmHash)
        | some numEncoderEmbeds => .ok (true, { m with
            freeable := m.freeable.erase mmHash
            numFreeableSlots := m.numFreeableSlots - numEncoderEmbeds
            cached := m.cached.insert mmHash {requestId} })
      else .ok (true, { m with cached := m.cached.insert mmHash (insert requestId ids) })

/-- The eviction in `can_allocate`, for at most the given number of entries of `freeable`. -/
def evictLoop (numEmbeds : ℤ) : ℕ → EncoderCacheManager → Except PyErr EncoderCacheManager
  | 0, m =>
    if numEmbeds ≤ m.numFreeSlots then .ok m else .error (.keyError "dictionary is empty")
  | n + 1, m =>
    if numEmbeds ≤ m.numFreeSlots then .ok m
    else match m.freeable.entries.getLast? with
      | none => .error (.keyError "dictionary is empty")
      | some ⟨mmHash, numFreeEmbeds⟩ =>
        if mmHash ∉ m.cached then .error (.keyError mmHash)
        else evictLoop numEmbeds n { m with
          freeable := m.freeable.erase mmHash
          cached := m.cached.erase mmHash
          freed := m.freed ++ [mmHash]
          numFreeSlots := m.numFreeSlots + numFreeEmbeds }

/-- `can_allocate`, for an item of `numEmbeds` embeddings. -/
def canAllocate (numEmbeds encoderComputeBudget numEmbedsToSchedule : ℤ) :
    Except PyErr (Bool × EncoderCacheManager) :=
  if encoderComputeBudget < numEmbeds then .ok (false, m)
  else
    let numEmbeds := numEmbeds + numEmbedsToSchedule
    if numEmbeds ≤ m.numFreeSlots then .ok (true, m)
    else if m.isEncoderDecoder ∨ m.numFreeableSlots < numEmbeds then .ok (false, m)
    else (evictLoop numEmbeds m.freeable.entries.length m).map fun m => (true, m)

/-- `allocate`. -/
def allocate (feature : MultiModalFeatureSpec) : Except PyErr EncoderCacheManager :=
  let mmHash := feature.identifier
  let numEncoderEmbeds : ℤ := feature.getNumEmbeds
  if m.isEncoderDecoder then .ok { m with
    numFreeSlots := m.numFreeSlots - numEncoderEmbeds
    freed := m.freed ++ [mmHash] }
  else if m.numFreeSlots < numEncoderEmbeds then
    .error (.assertionError "self.num_free_slots >= num_encoder_embeds")
  else if m.numFreeableSlots < numEncoderEmbeds then
    .error (.assertionError "self.num_freeable_slots >= num_encoder_embeds")
  else .ok { m with
    cached := m.cached.insert mmHash (insert requestId ((m.cached.lookup mmHash).getD ∅))
    numFreeSlots := m.numFreeSlots - numEncoderEmbeds
    numFreeableSlots := m.numFreeableSlots - numEncoderEmbeds }

variable (request : Request)

/-- `get_cached_input_ids`; the set is visited in ascending order. -/
def getCachedInputIds : List ℕ :=
  if m.isEncoderDecoder then List.range request.mmFeatures.length
  else (List.range request.mmFeatures.length).filter fun i =>
    (request.mmFeatures[i]?).any fun feature => decide (feature.identifier ∈ m.cached)

/-- `free_encoder_input`. -/
def freeEncoderInput (feature : MultiModalFeatureSpec) : EncoderCacheManager :=
  let mmHash := feature.identifier
  let numEncoderEmbeds : ℤ := feature.getNumEmbeds
  if m.isEncoderDecoder then { m with numFreeSlots := m.numFreeSlots + numEncoderEmbeds }
  else match m.cached.lookup mmHash with
    | none => m
    | some ids =>
      if ids = ∅ then m
      else
        let ids := ids.erase requestId
        let m := { m with cached := m.cached.insert mmHash ids }
        if ids = ∅ then { m with
          freeable := m.freeable.insert mmHash numEncoderEmbeds
          numFreeableSlots := m.numFreeableSlots + numEncoderEmbeds }
        else m

/-- `free_encoder_input` for each of some inputs of a request. -/
def freeEncoderInputs (inputIds : List ℕ) : EncoderCacheManager :=
  inputIds.foldl (fun m i =>
    match request.mmFeatures[i]? with
    | none => m
    | some feature => m.freeEncoderInput requestId feature) m

/-- `free`. -/
def free : EncoderCacheManager :=
  m.freeEncoderInputs requestId request (m.getCachedInputIds request)

/-- `get_freed_mm_hashes`. -/
def getFreedMmHashes : List String × EncoderCacheManager := (m.freed, { m with freed := [] })

end EncoderCacheManager

end LoptVllm.Sched
