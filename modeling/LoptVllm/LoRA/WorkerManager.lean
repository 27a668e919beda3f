import LoptVllm.LoRA.ModelManager

/-!
# `LRUCacheWorkerLoRAManager`

The worker loads the adapters of a batch and activates them.
-/

namespace LoptVllm.LoRA

namespace WorkerManager

variable {M L : Type*} [DecidableEq M] (setup : Setup M L) (load : ℤ → M → Option L)
  (m : Manager M L)

/-- `add_adapter`, of the adapter that `_load_adapter` gives for the id of the request. -/
def addAdapter (loraIntId : ℤ) : Except (Raised M L) (Bool × Manager M L) := do
  let (loaded, m) ← if loraIntId ∉ m.registeredAdapters then do
      let m ← if setup.maxCpuLoras < m.registeredAdapters.size + 1 then m.removeOldestAdapter
        else .ok m
      .ok (m.addAdapter setup ⟨loraIntId, load loraIntId⟩)
    else .ok (true, { m with registeredAdapters := m.registeredAdapters.touch loraIntId })
  let (_, m) ← m.activateAdapter setup loraIntId
  .ok (loaded, m)

variable (loraRequests : List ℤ)

/-- The keys of `loras_map`, each where it comes first. -/
def lorasMap : List ℤ := loraRequests.reverse.dedup.reverse

/-- `_apply_adapters`. -/
def applyAdapters : Except (Raised M L) (Manager M L) :=
  let lorasMap := lorasMap loraRequests
  if setup.maxLoras < lorasMap.length then
    .error (.runtimeError ("Number of requested LoRAs (" ++ toString lorasMap.length ++
      ") is greater than the number of GPU LoRA slots (" ++ toString setup.maxLoras ++ ")."), m)
  else lorasMap.foldlM (fun m lora => (addAdapter setup load m lora).map Prod.snd) m

/-- `set_active_adapters`. -/
def setActiveAdapters (requests : List ℤ) (mapping : Option LoRAMapping) :
    Except (Raised M L) (Manager M L) := do
  let m ← applyAdapters setup load m requests
  match mapping with
  | none => .ok m
  | some mapping => m.setAdapterMapping setup mapping

end WorkerManager

/-- A call; the requests of a batch come in the order in which the set gives them. -/
inductive Call
  | setActiveAdapters (requests : List ℤ) (mapping : Option LoRAMapping)
  | addAdapter (loraIntId : ℤ)
  | removeAdapter (adapterId : ℤ)
  | pinAdapter (adapterId : ℤ)

namespace WorkerManager

variable {M L : Type*} [DecidableEq M] (setup : Setup M L) (load : ℤ → M → Option L)
  (m : Manager M L)

def call : Call → Except (Raised M L) (Manager M L)
  | .setActiveAdapters requests mapping => setActiveAdapters setup load m requests mapping
  | .addAdapter loraIntId => (addAdapter setup load m loraIntId).map Prod.snd
  | .removeAdapter adapterId => .ok (m.removeAdapter adapterId).2
  | .pinAdapter adapterId => m.pinAdapter setup adapterId

/-- The manager after a call. -/
def after (c : Call) : Manager M L := match call setup load m c with
  | .ok m' => m'
  | .error (_, m') => m'

def run (calls : List Call) : Manager M L := calls.foldl (after setup load) m

end WorkerManager

end LoptVllm.LoRA
