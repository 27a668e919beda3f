import LoptVllm.Lib.OrderedDict
import Mathlib.Algebra.Ring.Nat

/-!
# The shared-memory ring buffer

The writer allocates chunks one after the other, and frees the oldest ones. Start and end of the
allocated part are counted without wrapping around; the place of a chunk is its address modulo the
size of the buffer, and a chunk that does not fit before the end of the buffer goes to its
beginning.
-/

namespace LoptVllm.ShmStorage

open Function List

/-- `ID_MAX`, exclusive. -/
def idMax : ℕ := 2 ^ 31

/-- `MD_SIZE`: the bytes of the id and of the size. -/
def mdSize : ℕ := 4 + 4

/-- A chunk: the id and the size of its header, the flag in which the readers are counted, and the
object. -/
structure Chunk (β : Type) where
  id : ℕ
  size : ℕ
  readerCount : ℕ
  object : β

/-- `SingleWriterShmRingBuffer`. The shared memory is given by the chunks that begin at an offset
and were not written over since. -/
structure RingBuffer (β : Type) where
  dataBufferSize : ℕ
  monotonicIdEnd : ℕ
  monotonicIdStart : ℕ
  dataBufferStart : ℕ
  dataBufferEnd : ℕ
  metadata : OrderedDict ℕ ℕ
  sharedMemory : ℕ → Option (Chunk β)

/-- What `allocate_buf` raises: for a size of zero, without space, and if a size does not fit its
four bytes. -/
inductive AllocError
  | assertionError
  | memoryError
  | overflowError
  deriving DecidableEq

namespace RingBuffer

variable {β : Type}

/-- `SingleWriterShmRingBuffer(data_buffer_size, create=True)`. -/
def new (dataBufferSize : ℕ) : RingBuffer β := ⟨dataBufferSize, 0, 0, 0, 0, ∅, fun _ => none⟩

variable (r : RingBuffer β)

/-- The bytes from `bufIdx` on are written, which destroys the chunks that had some of them. -/
def write (bufIdx : ℕ) (chunk : Chunk β) : RingBuffer β :=
  { r with
    sharedMemory := fun k =>
      if k = bufIdx then some chunk
      else (r.sharedMemory k).filter fun old =>
        decide (k + old.size ≤ bufIdx ∨ bufIdx + chunk.size ≤ k) }

/-- A buffer of `size` bytes begins at `bufferEnd`. -/
def append (bufferEnd size : ℕ) (object : β) : RingBuffer β :=
  { r.write (bufferEnd % r.dataBufferSize) ⟨r.monotonicIdEnd, size, 0, object⟩ with
    metadata := r.metadata.setItem (r.monotonicIdEnd % idMax) bufferEnd
    dataBufferEnd := bufferEnd + size
    monotonicIdEnd := (r.monotonicIdEnd + 1) % idMax }

/-- `allocate_buf`. What `put` writes into the new buffer is written here. -/
def allocateBuf (size : ℕ) (object : β) : Except AllocError (RingBuffer β × ℕ × ℕ) :=
  if size = 0 then .error .assertionError else
  let size := size + mdSize
  let bufferEndReset := if r.dataBufferEnd % r.dataBufferSize + size > r.dataBufferSize then
      (r.dataBufferEnd / r.dataBufferSize + 1) * r.dataBufferSize
    else r.dataBufferEnd
  let occupiedSizeNew := bufferEndReset + size - r.dataBufferStart
  if occupiedSizeNew > r.dataBufferSize then .error .memoryError
  else if 2 ^ 31 ≤ size then .error .overflowError
  else .ok (r.append bufferEndReset size object, bufferEndReset, r.monotonicIdEnd)

/-- `access_buf`. There is no result if the bytes are not those of one chunk. -/
def accessBuf (address : ℕ) : Option (Chunk β) :=
  r.sharedMemory (address % r.dataBufferSize)

/-- A reader increments the flag of a chunk. -/
def setReaderCount (address count : ℕ) : RingBuffer β :=
  { r with
    sharedMemory := update r.sharedMemory (address % r.dataBufferSize)
      ((r.accessBuf address).map fun chunk => { chunk with readerCount := count }) }

/-- The oldest buffer is freed. -/
def popStart : RingBuffer β :=
  let metadata := r.metadata.erase r.monotonicIdStart
  let idStart := (r.monotonicIdStart + 1) % idMax
  match metadata.lookup idStart with
  | some address =>
    { r with
      metadata := metadata
      monotonicIdStart := idStart
      dataBufferStart := r.dataBufferStart +
        (((address : ℤ) - r.dataBufferStart) % r.dataBufferSize).toNat }
  | none =>
    { r with
      metadata := metadata
      monotonicIdStart := idStart
      dataBufferStart := 0
      dataBufferEnd := 0 }

/-- The loop of `free_buf`. A turn removes an entry of `metadata`, so there are no more turns than
entries. -/
def freeLoop (isFreeFn : ℕ → ℕ → Option Bool) (nbytes : ℕ) :
    ℕ → ℕ → RingBuffer β → Option (RingBuffer β)
  | 0, _, r => some r
  | fuel + 1, freedBytes, r =>
    match r.metadata.lookup r.monotonicIdStart with
    | none => some r
    | some address =>
      if nbytes ≤ freedBytes then some r
      else
        match r.accessBuf address with
        | none => none
        | some chunk =>
          match isFreeFn r.monotonicIdStart chunk.readerCount with
          | none => none
          | some false => some r
          | some true => freeLoop isFreeFn nbytes fuel (freedBytes + chunk.size) r.popStart

/-- The start and the end are counted from the beginning of the buffer again. -/
def wrapAround (r : RingBuffer β) : RingBuffer β := if r.dataBufferStart ≥ r.dataBufferSize then
    { r with
      dataBufferStart := r.dataBufferStart - r.dataBufferSize
      dataBufferEnd := r.dataBufferEnd - r.dataBufferSize }
  else r

/-- The ids from `before` on that were freed. -/
def freedIds (before after : ℕ) : List ℕ :=
  if after ≥ before then range' before (after - before)
  else range' before (idMax - before) ++ range' 0 after

/-- `free_buf`. -/
def freeBuf (r : RingBuffer β) (isFreeFn : ℕ → ℕ → Option Bool) (nbytes : ℕ) :
    Option (RingBuffer β × List ℕ) :=
  (freeLoop isFreeFn nbytes r.metadata.entries.length 0 r).map fun r' =>
    (r'.wrapAround, freedIds r.monotonicIdStart r'.monotonicIdStart)

/-- Where `allocate_buf` puts a buffer of `size` bytes: a buffer that does not fit before the end of
the memory goes to its beginning. -/
def bufferEndReset (r : RingBuffer β) (size : ℕ) : ℕ :=
  if r.dataBufferEnd % r.dataBufferSize + size > r.dataBufferSize then
    (r.dataBufferEnd / r.dataBufferSize + 1) * r.dataBufferSize
  else r.dataBufferEnd

theorem allocateBuf_eq (r : RingBuffer β) (size : ℕ) (object : β) : r.allocateBuf size object =
      if size = 0 then .error .assertionError
      else if r.bufferEndReset (size + mdSize) + (size + mdSize) - r.dataBufferStart >
          r.dataBufferSize then .error .memoryError
      else if 2 ^ 31 ≤ size + mdSize then .error .overflowError
      else .ok (r.append (r.bufferEndReset (size + mdSize)) (size + mdSize) object,
        r.bufferEndReset (size + mdSize), r.monotonicIdEnd) := rfl

@[simp] theorem accessBuf_setReaderCount_self (r : RingBuffer β) (address count : ℕ) :
    (r.setReaderCount address count).accessBuf address =
      (r.accessBuf address).map fun chunk => { chunk with readerCount := count } :=
  update_self _ _ _

theorem accessBuf_setReaderCount_of_ne (r : RingBuffer β) {address address' : ℕ} (count : ℕ)
    (h : address' % r.dataBufferSize ≠ address % r.dataBufferSize) :
    (r.setReaderCount address count).accessBuf address' = r.accessBuf address' :=
  update_of_ne h _ _

end RingBuffer

end LoptVllm.ShmStorage
