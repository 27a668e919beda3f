import LoptVllm.ShmStorage.Storage

/-!
# The sender and the readers of the storage

The sender puts the items of a request into the storage, and sends their addresses; each of the `n`
readers touches the items of a request and then gets them.
-/

namespace LoptVllm.ShmStorage

open Function Prod

variable {κ β : Type}

/-- An item of a request: its address and monotonic id, or nothing if the item itself is sent. -/
abbrev Feature := Option (ℕ × ℕ)

/-- `get_and_update_item` of `ShmObjectStoreSenderCache`. -/
def Storage.getAndUpdateItem [DecidableEq κ] (s : Storage κ β) (mmHash : κ) (mmItem : β) :
    Option (Storage κ β × Feature) :=
  if s.isCached mmHash then
    (s.getCached mmHash).map fun (s, address, monotonicId) => (s, some (address, monotonicId))
  else
    (s.put mmHash mmItem).map fun (s, result) =>
      match result with
      | .ok (address, monotonicId) => (s, some (address, monotonicId))
      | .error _ => (s, none)

/-- What a reader does with an item. -/
inductive Op
  | touch (address monotonicId : ℕ)
  | get (address monotonicId : ℕ)
  deriving DecidableEq

namespace Op

/-- The id of the item. -/
def id : Op → ℕ
  | .touch _ id => id
  | .get _ id => id

/-- Where the item is. -/
def address : Op → ℕ
  | .touch address _ => address
  | .get address _ => address

/-- Whether the item is got. -/
def isGet : Op → Bool
  | .touch _ _ => false
  | .get _ _ => true

end Op

/-- `get_and_update_features` of a reader: all items are touched before they are got. An item that
has no address is not in the storage. -/
def readerOps (features : List Feature) : List Op :=
  (features.filterMap fun feature => feature.map fun (address, id) => Op.touch address id) ++
    features.filterMap fun feature => feature.map fun (address, id) => Op.get address id

/-- A request in `_merge_mm_kwargs`: all hashes, the hashes to touch, the items to update, and the
items that are updated. -/
structure Making (κ β : Type) where
  mmHashes : List κ
  toTouch : List κ
  toUpdate : List (κ × β)
  features : List Feature

/-- The sender with the storage and the request that it makes, and what each reader still has to do
for the requests that were sent. -/
structure System (κ β : Type) (n : ℕ) where
  storage : Storage κ β
  making : Option (Making κ β)
  readers : Fin n → List Op

/-- A step of the sender or of a reader. The engine may have the items of a request in another
order. -/
inductive Event (κ β : Type) (n : ℕ)
  | begin (items : List (κ × β))
  | touch
  | update
  | send (mmFeatures : List Feature)
  | freeUnused
  | read (i : Fin n)

namespace System

variable {n : ℕ}

/-- A storage without objects. -/
def new (maxObjectSize : ℕ) (serialize : β → ℕ) (dataBufferSize : ℕ) : System κ β n :=
  ⟨Storage.new maxObjectSize n serialize dataBufferSize, none, fun _ => []⟩

/-- A reader takes its next operation. -/
def read (s : System κ β n) (i : Fin n) : Option (System κ β n) := match s.readers i with
  | [] => none
  | op :: ops =>
    let ringBuffer := match op with
      | .touch address _ => s.storage.ringBuffer.touchReader n address
      | .get address id => (s.storage.ringBuffer.getReader address id).map fst
    ringBuffer.map fun ringBuffer =>
      { s with
        storage := { s.storage with ringBuffer := ringBuffer }
        readers := update s.readers i ops }

variable [DecidableEq κ]

/-- A step; it has no result if it cannot be taken. -/
def step (s : System κ β n) : Event κ β n → Option (System κ β n)
  | .begin items =>
    match s.making with
    | some _ => none
    | none =>
      some { s with making := some ⟨items.map fst, items.map fst, items, []⟩ }
  | .touch =>
    match s.making with
    | some ⟨mmHashes, itemHash :: toTouch, toUpdate, features⟩ =>
      some { s with
        storage := s.storage.touch itemHash
        making := some ⟨mmHashes, toTouch, toUpdate, features⟩ }
    | _ => none
  | .update =>
    match s.making with
    | some ⟨mmHashes, [], (itemHash, item) :: toUpdate, features⟩ =>
      (s.storage.getAndUpdateItem itemHash item).map fun (storage, feature) =>
        { s with
          storage := storage
          making := some ⟨mmHashes, [], toUpdate, features ++ [feature]⟩ }
    | _ => none
  | .send mmFeatures =>
    match s.making with
    | some ⟨_, [], [], features⟩ =>
      if mmFeatures.Perm features then
        some { s with
          making := none
          readers := fun i => s.readers i ++ readerOps mmFeatures }
      else none
    | _ => none
  | .freeUnused => s.storage.freeUnused.map fun storage => { s with storage := storage }
  | .read i => s.read i

end System

/-! ### Histories -/

/-- How often the readers have touched an object, and how often it is in the first request that has
it; both are zero before this request is sent. -/
structure History where
  touches : ℕ → ℕ
  firstUses : ℕ → ℕ

/-- How often an object is in a request. -/
def uses (features : List Feature) (id : ℕ) : ℕ :=
  features.countP fun feature => decide (feature.map snd = some id)

/-- The history after a step that is taken in the state `s`. -/
def History.after {n : ℕ} (h : History) (s : System κ β n) : Event κ β n → History
  | .update =>
    -- an id without an object may become the id of a new object
    { touches := fun id => if id ∈ s.storage.idIndex then h.touches id else 0
      firstUses := fun id => if id ∈ s.storage.idIndex then h.firstUses id else 0 }
  | .send mmFeatures =>
    { h with
      firstUses := fun id => if h.firstUses id = 0 then uses mmFeatures id else h.firstUses id }
  | .read i =>
    match s.readers i with
    | .touch _ id :: _ => { h with touches := update h.touches id (h.touches id + 1) }
    | _ => h
  | _ => h

end LoptVllm.ShmStorage
