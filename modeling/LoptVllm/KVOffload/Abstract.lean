import LoptVllm.KVOffload.Backend

/-!
# Offloading managers

What the offloading managers have in common. A manager keeps track of the blocks that are
offloaded, by their hashes `H`.
-/

namespace LoptVllm.KVOffload

/-- `OffloadingEvent`, without the medium. -/
structure OffloadingEvent (H : Type) where
  blockHashes : List H
  blockSize : ℕ
  removed : Bool

/-- `PrepareStoreOutput`; the store spec is the list of the block ids. -/
structure PrepareStoreOutput (H : Type) where
  blockHashesToStore : List H
  storeSpec : List ℕ
  blockHashesEvicted : List H

/-- A call of the manager. -/
inductive Call (H : Type)
  | lookup (blockHashes : List H)
  | touch (blockHashes : List H)
  | prepareLoad (blockHashes : List H)
  | completeLoad (blockHashes : List H)
  | prepareStore (blockHashes : List H)
  | completeStore (blockHashes : List H) (success : Bool)

/-- The operations of an `OffloadingManager`; the events are left to the managers. -/
class OffloadingManager (H : outParam Type) (M : Type) where
  lookup : M → List H → ℕ
  touch : M → List H → Except PyErr M
  prepareLoad : M → List H → Except PyErr (List ℕ × M)
  completeLoad : M → List H → Except PyErr M
  prepareStore : M → List H → Except PyErr (Option (PrepareStoreOutput H) × M)
  /-- The connector reports success only. -/
  completeStore : M → List H → Except PyErr M

variable {H : Type}

/-- An event is recorded if there is something to report and events are enabled. -/
def record (events : Option (List (OffloadingEvent H))) (backend : CPUBackend) (hashes : List H)
    (removed : Bool) : Option (List (OffloadingEvent H)) :=
  if hashes = [] then events else events.map (· ++ [⟨hashes, backend.blockSize, removed⟩])

end LoptVllm.KVOffload
