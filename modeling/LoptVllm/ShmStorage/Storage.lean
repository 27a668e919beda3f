import LoptVllm.ShmStorage.RingBuffer

/-!
# The shared-memory object storage

One process puts objects into the storage, and `n` readers get them. A call that raises an
exception which its caller does not catch has no result, nor has one that reads bytes which are not
those of one chunk.
-/

namespace LoptVllm.ShmStorage

variable {κ β : Type}

/-- The bytes of the in-use flag. -/
def flagBytes : ℕ := 4

/-- `SingleWriterShmObjectStorage` of the writer. Of the serializer it keeps how many bytes the data
and the metadata of an object have. -/
structure Storage (κ β : Type) where
  maxObjectSize : ℕ
  nReaders : ℕ
  serialize : β → ℕ
  ringBuffer : RingBuffer β
  keyIndex : OrderedDict κ (ℕ × ℕ)
  idIndex : OrderedDict ℕ κ
  writerFlag : OrderedDict ℕ ℕ

/-- What `put` raises and its caller catches. -/
inductive PutError
  | valueError
  | memoryError
  deriving DecidableEq

namespace Storage

/-- `SingleWriterShmObjectStorage(max_object_size, n_readers, ring_buffer)`. -/
def new (maxObjectSize nReaders : ℕ) (serialize : β → ℕ) (dataBufferSize : ℕ) : Storage κ β :=
  ⟨maxObjectSize, nReaders, serialize, RingBuffer.new dataBufferSize, ∅, ∅, ∅⟩

/-- `increment_writer_flag`. -/
def incrementWriterFlag (s : Storage κ β) (id : ℕ) : Storage κ β :=
  { s with writerFlag := s.writerFlag.setItem id ((s.writerFlag.lookup id).getD 0 + 1) }

/-- `default_is_free_check`. -/
def defaultIsFreeCheck (s : Storage κ β) (id readerCount : ℕ) : Option Bool :=
  (s.writerFlag.lookup id).map fun writerCount => decide (readerCount ≥ writerCount * s.nReaders)

variable [DecidableEq κ] (s : Storage κ β)

/-- A turn of the loop of `free_unused`. -/
def freeId (freedId : ℕ) : Option (Storage κ β) :=
  match s.idIndex.lookup freedId with
  | none => none
  | some keyToFree =>
    if keyToFree ∈ s.keyIndex ∧ freedId ∈ s.writerFlag then
      some { s with
        keyIndex := s.keyIndex.erase keyToFree
        idIndex := s.idIndex.erase freedId
        writerFlag := s.writerFlag.erase freedId }
    else none

/-- `free_unused`. -/
def freeUnused : Option (Storage κ β) :=
  match s.ringBuffer.freeBuf s.defaultIsFreeCheck (2 * s.maxObjectSize) with
  | none => none
  | some (ringBuffer, freedIds) => freedIds.foldlM freeId { s with ringBuffer := ringBuffer }

variable (key : κ)

/-- `is_cached`. -/
def isCached : Bool := decide (key ∈ s.keyIndex)

/-- `get_cached`. -/
def getCached : Option (Storage κ β × ℕ × ℕ) :=
  (s.keyIndex.lookup key).map fun (address, monotonicId) =>
    (s.incrementWriterFlag monotonicId, address, monotonicId)

/-- `put`, after the buffer was allocated. -/
def putAt (ringBuffer : RingBuffer β) (key : κ) (address monotonicId : ℕ) : Storage κ β :=
  let s := { s with ringBuffer := ringBuffer }.incrementWriterFlag monotonicId
  { s with
    keyIndex := s.keyIndex.setItem key (address, monotonicId)
    idIndex := s.idIndex.setItem monotonicId key }

/-- `put`. -/
def put (value : β) : Option (Storage κ β × Except PutError (ℕ × ℕ)) :=
  if key ∈ s.keyIndex then some (s, .error .valueError)
  else
    let bufferSize := flagBytes + s.serialize value
    if bufferSize > s.maxObjectSize then some (s, .error .valueError)
    else
      match s.ringBuffer.allocateBuf bufferSize value with
      | .ok (ringBuffer, address, monotonicId) =>
        some (s.putAt ringBuffer key address monotonicId, .ok (address, monotonicId))
      | .error .assertionError | .error .overflowError => none
      | .error .memoryError =>
        match s.freeUnused with
        | none => none
        | some s =>
          -- try again after freeing up space
          match s.ringBuffer.allocateBuf bufferSize value with
          | .ok (ringBuffer, address, monotonicId) =>
            some (s.putAt ringBuffer key address monotonicId, .ok (address, monotonicId))
          | .error .assertionError | .error .overflowError => none
          | .error .memoryError => some (s, .error .memoryError)

/-- `touch` of the writer. -/
def touch : Storage κ β := match s.keyIndex.lookup key with
  | none => s
  | some (_, monotonicId) => s.incrementWriterFlag monotonicId

end Storage

namespace RingBuffer

/-- `increment_reader_flag`, which fails if the count does not fit the flag. -/
def incrementReaderFlag (r : RingBuffer β) (address readerCount : ℕ) : Option (RingBuffer β) :=
  if readerCount + 1 < 2 ^ 31 then some (r.setReaderCount address (readerCount + 1)) else none

/-- `touch` of one of `nReaders` readers. -/
def touchReader (nReaders : ℕ) (r : RingBuffer β) (address : ℕ) : Option (RingBuffer β) :=
  match r.accessBuf address with
  | none => none
  | some chunk =>
    -- not for a newly added item, in order to count like the sender
    if chunk.readerCount ≥ nReaders then r.incrementReaderFlag address chunk.readerCount else some r

/-- `get` of a reader. -/
def getReader (r : RingBuffer β) (address monotonicId : ℕ) : Option (RingBuffer β × β) :=
  match r.accessBuf address with
  | none => none
  | some chunk =>
    if chunk.id ≠ monotonicId then none
    else (r.incrementReaderFlag address chunk.readerCount).map fun r => (r, chunk.object)

end RingBuffer

end LoptVllm.ShmStorage
