import LoptVllm.Multimodal.LruCache
import Mathlib.Data.List.Sort

/-!
# The sender cache and the receiver cache

The front-end (P0) does not send an item whose hash is in its cache, as it should be in the cache of
the engine (P1) too.
-/

namespace LoptVllm.Multimodal

variable {κ ι : Type}

/-- An item of a request, with the data that the processor makes of it and its place in the prompt. -/
structure Item (κ ι : Type) where
  mmHash : κ
  data : ι
  offset : ℕ

/-- `MultiModalFeatureSpec`: there is no data if the item is cached. -/
structure Feature (κ ι : Type) where
  mmHash : κ
  data : Option ι
  offset : ℕ

/-- The caches: what they are, and the sizes of an item on P0 and after it was sent to P1. -/
structure Config (κ ι : Type) where
  cache : SizedCache κ
  itemSize : ι → ℕ
  receivedSize : ι → ℕ

variable (cfg : Config κ ι)

/-! ### The sender -/

variable (cache : cfg.cache.State)

/-- `get_and_update_item` of `MultiModalProcessorSenderCache`. -/
def senderUpdate (mmItem : Option ι) (mmHash : κ) : Outcome cfg.cache.State (Option ι) :=
  if cfg.cache.contains cache mmHash then .ok none (cfg.cache.get cache mmHash)
  else
    match mmItem with
    | none => .raised .assertionError cache
    | some item =>
      match cfg.cache.setItem cache mmHash (cfg.itemSize item) with
      | .ok _ cache => .ok (some item) cache
      | .raised e cache => .raised e cache
      | .diverges => .diverges

/-- The loop of `_merge_mm_kwargs` over the items in the order of their modalities; an item whose
hash was cached before has no data. -/
def mergeItems (isCached : κ → Bool) (cache : cfg.cache.State) :
    List (Item κ ι) → Outcome cfg.cache.State (List (Feature κ ι))
  | [] => .ok [] cache
  | item :: items =>
    match senderUpdate cfg cache (if isCached item.mmHash then none else some item.data)
        item.mmHash with
    | .raised e cache => .raised e cache
    | .diverges => .diverges
    | .ok data cache =>
      match mergeItems isCached cache items with
      | .ok features cache => .ok (⟨item.mmHash, data, item.offset⟩ :: features) cache
      | .raised e cache => .raised e cache
      | .diverges => .diverges

/-- `_merge_mm_kwargs`: all hashes are touched before the items are updated. -/
def mergeMmKwargs (items : List (Item κ ι)) : Outcome cfg.cache.State (List (Feature κ ι)) :=
  mergeItems cfg (cfg.cache.contains cache)
    ((items.map Item.mmHash).foldl cfg.cache.touch cache) items

/-- The features in the order of the prompt: `argsort_mm_positions`. -/
def sortByOffset (features : List (Feature κ ι)) : List (Feature κ ι) :=
  features.insertionSort fun a b => a.offset ≤ b.offset

/-! ### The receiver -/

/-- `MultiModalReceiverCache`, with the last item that was stored for a hash. -/
structure Receiver (cfg : Config κ ι) where
  cache : cfg.cache.State
  items : κ → Option ι

namespace Receiver

variable {cfg}

/-- `get_and_update_item` of `MultiModalReceiverCache`. -/
def update [DecidableEq κ] (r : Receiver cfg) (mmItem : Option ι) (mmHash : κ) :
    Outcome (Receiver cfg) (Option ι) :=
  if cfg.cache.contains r.cache mmHash then
    .ok (r.items mmHash) { r with cache := cfg.cache.get r.cache mmHash }
  else
    match mmItem with
    | none => .raised .assertionError r
    | some item =>
      match cfg.cache.setItem r.cache mmHash (cfg.receivedSize item) with
      | .ok _ cache => .ok (some item) ⟨cache, Function.update r.items mmHash (some item)⟩
      | .raised e cache => .raised e { r with cache := cache }
      | .diverges => .diverges

/-- The second loop of `get_and_update_features`. -/
def updateFeatures [DecidableEq κ] (r : Receiver cfg) :
    List (Feature κ ι) → Outcome (Receiver cfg) (List (Feature κ ι))
  | [] => .ok [] r
  | feature :: features =>
    match r.update feature.data feature.mmHash with
    | .raised e r => .raised e r
    | .diverges => .diverges
    | .ok data r =>
      match updateFeatures r features with
      | .ok features r => .ok ({ feature with data := data } :: features) r
      | .raised e r => .raised e r
      | .diverges => .diverges

/-- `get_and_update_features`. -/
def getAndUpdateFeatures [DecidableEq κ] (r : Receiver cfg) (mmFeatures : List (Feature κ ι)) :
    Outcome (Receiver cfg) (List (Feature κ ι)) :=
  updateFeatures
    { r with cache := (mmFeatures.map Feature.mmHash).foldl cfg.cache.touch r.cache } mmFeatures

end Receiver

/-! ### Both sides -/

/-- A request with multi-modal items, in the order of their modalities. Data such as embeddings
passes through without the sender cache, and `process_inputs` may raise an exception after the items
were updated. -/
structure MMRequest (κ ι : Type) where
  items : List (Item κ ι)
  passthrough : Bool
  rejected : Bool

/-- The caches, and the features of the requests that were sent and not received. -/
structure System (cfg : Config κ ι) where
  sender : cfg.cache.State
  queue : List (List (Feature κ ι))
  receiver : Receiver cfg

/-- A step of the front-end or of the engine. -/
inductive Event (κ ι : Type)
  | process (request : MMRequest κ ι)
  | receive

namespace System

variable {cfg}

/-- Both caches are empty. -/
def new (empty : cfg.cache.State) : System cfg := ⟨empty, [], ⟨empty, fun _ => none⟩⟩

/-- The features of a request that is not rejected are sent in the order of the prompt. -/
def send (s : System cfg) (rejected : Bool) (features : List (Feature κ ι)) : System cfg :=
  if rejected then s else { s with queue := s.queue ++ [sortByOffset features] }

/-- `process_inputs`, which has no result if a cache does not return. -/
def processInputs (s : System cfg) (request : MMRequest κ ι) : Option (System cfg) :=
  if request.passthrough then
    some (s.send request.rejected
      (request.items.map fun item => ⟨item.mmHash, some item.data, item.offset⟩))
  else
    match mergeMmKwargs cfg s.sender request.items with
    | .ok features sender => some ({ s with sender := sender }.send request.rejected features)
    | .raised _ sender => some { s with sender := sender }
    | .diverges => none

/-- A step; a request for which the receiver raises an exception is dropped. -/
def step [DecidableEq κ] (s : System cfg) : Event κ ι → Option (System cfg)
  | .process request => s.processInputs request
  | .receive =>
    match s.queue with
    | [] => none
    | mmFeatures :: queue =>
      match s.receiver.getAndUpdateFeatures mmFeatures with
      | .ok _ receiver => some { s with queue := queue, receiver := receiver }
      | .raised _ receiver => some { s with queue := queue, receiver := receiver }
      | .diverges => none

/-- The receiver has the items that were not sent to it: the assertion does not fail for the next
request. -/
def Mirrored [DecidableEq κ] (s : System cfg) : Prop :=
  ∀ mmFeatures queue, s.queue = mmFeatures :: queue →
    ∀ receiver, s.receiver.getAndUpdateFeatures mmFeatures ≠ .raised .assertionError receiver

end System

end LoptVllm.Multimodal
