import LoptVllm.ShmStorage.RingInvariant

/-!
# Runs of the ring buffer

Whatever the writer allocates and frees, the live chunks are disjoint parts of the memory and are
freed in the order in which they were allocated, if there are always fewer than `idMax` of them.
With more the ids go around, and a chunk takes the entry of another one.
-/

namespace LoptVllm.ShmStorage

open List Nat

variable {β : Type}

namespace RingBuffer

variable (r : RingBuffer β)

/-- The four bytes of an id are written, which destroys the chunks that had some of them. -/
def writeId (bufIdx : ℕ) : RingBuffer β :=
  { r with
    sharedMemory := fun k => (r.sharedMemory k).filter fun old =>
      decide (k + old.size ≤ bufIdx ∨ bufIdx + 4 ≤ k) }

/-- The state after a call of `allocate_buf`. If the size does not fit its four bytes, the end was
moved and the id was written before. -/
def afterAllocate (size : ℕ) (object : β) : RingBuffer β :=
  match r.allocateBuf size object with
  | .ok (r', _) => r'
  | .error .assertionError | .error .memoryError => r
  | .error .overflowError =>
    let bufferEnd := r.bufferEndReset (size + mdSize)
    { r.writeId (bufferEnd % r.dataBufferSize) with dataBufferEnd := bufferEnd }

/-- `free_buf` with a check that does not raise. -/
def freeChecked (isFreeFn : ℕ → ℕ → Bool) (nbytes : ℕ) : Option (RingBuffer β × List ℕ) :=
  r.freeBuf (fun id count => some (isFreeFn id count)) nbytes

end RingBuffer

/-- The states of a ring of `bytes` bytes, with the chunks that were allocated and not freed since,
the oldest first. `limit` says of how many of them there may be when one more is allocated. -/
inductive Run (bytes : ℕ) (limit : ℕ → Prop) : RingBuffer β → List Buffer → Prop
  | new (h : 0 < bytes) : Run bytes limit (RingBuffer.new bytes) []
  | allocate {r r' : RingBuffer β} {l : List Buffer} {address id : ℕ} (size : ℕ) (object : β)
      (h : Run bytes limit r l) (hlimit : limit l.length)
      (hr : r.allocateBuf size object = .ok (r', address, id)) :
      Run bytes limit r' (l ++ [⟨id, address, size + mdSize⟩])
  | raise {r : RingBuffer β} {l : List Buffer} {error : AllocError} (size : ℕ) (object : β)
      (h : Run bytes limit r l) (hr : r.allocateBuf size object = .error error) :
      Run bytes limit (r.afterAllocate size object) l
  | free {r r' : RingBuffer β} {l : List Buffer} {freed : List ℕ} (isFreeFn : ℕ → ℕ → Bool)
      (nbytes : ℕ) (h : Run bytes limit r l)
      (hr : r.freeChecked isFreeFn nbytes = some (r', freed)) :
      Run bytes limit r' (l.drop freed.length)

/-- `metadata` has these chunks. -/
def Records (r : RingBuffer β) (l : List Buffer) : Prop :=
  ∀ id address, r.metadata.lookup id = some address ↔ ∃ b ∈ l, b.id = id ∧ b.address = address

/-- A ring that keeps its live chunks. -/
structure Intact (r : RingBuffer β) (l : List Buffer) : Prop where
  records : Records r l
  contiguous : ∀ b ∈ l, b.address % r.dataBufferSize + b.size ≤ r.dataBufferSize
  disjoint : l.Pairwise fun b b' =>
    b.address % r.dataBufferSize + b.size ≤ b'.address % r.dataBufferSize ∨
      b'.address % r.dataBufferSize + b'.size ≤ b.address % r.dataBufferSize
  header : ∀ b ∈ l, ∃ chunk, r.accessBuf b.address = some chunk ∧ chunk.id = b.id ∧
    chunk.size = b.size
  ids : l.map Buffer.id = (List.range l.length).map fun j => (r.monotonicIdStart + j) % idMax
  memoryError : ∀ size object, r.allocateBuf size object = .error .memoryError →
    r.afterAllocate size object = r
  frees : ∀ isFreeFn nbytes, ∃ r' n,
    r.freeChecked isFreeFn nbytes = some (r', (l.take n).map Buffer.id) ∧ Records r' (l.drop n)

namespace RingOk

variable {r r' : RingBuffer β} {l : List Buffer}

/-- A call that raises keeps the chunks. -/
theorem afterAllocate (h : RingOk r l) {size : ℕ} {object : β} {error : AllocError}
    (hr : r.allocateBuf size object = .error error) : RingOk (r.afterAllocate size object) l := by
  unfold RingBuffer.afterAllocate
  rw [hr]
  cases error with
  | assertionError | memoryError => exact h
  | overflowError =>
    rw [RingBuffer.allocateBuf_eq] at hr
    split_ifs at hr with hzero hoccupied hoverflow
    · cases hr
    · cases hr
    have hspace : r.bufferEndReset (size + mdSize) + (size + mdSize) ≤
        r.dataBufferStart + r.dataBufferSize := by omega
    obtain ⟨hend, hfit, hfirst⟩ := h.bufferEndReset hspace
    have hfit' : r.bufferEndReset (size + mdSize) % r.dataBufferSize + 4 ≤ r.dataBufferSize := by
      omega
    -- the id is written behind the chunks
    refine ⟨h.bytes_pos, h.ids, h.idStart_lt, h.length_lt, h.idEnd, h.metadata, ?_, ?_, h.size_pos,
      fun b hb => ?_⟩
    · cases l with
      | nil => exact ⟨h.placed.1, hfirst rfl⟩
      | cons b bs => exact ⟨h.placed.1, h.placed.2.mono hend⟩
    · show r.bufferEndReset (size + mdSize) ≤ r.dataBufferStart + r.dataBufferSize
      omega
    · obtain ⟨chunk, hchunk, hid, hsize⟩ := h.stored b hb
      refine ⟨chunk, ?_, hid, hsize⟩
      have hdisjoint := h.free_disjoint hb hend (by omega) hfit'
      show (r.accessBuf b.address).filter _ = _
      rw [hchunk, Option.filter_some, if_pos]
      rw [decide_eq_true_eq, hsize]
      exact hdisjoint

/-- A check that does not raise does not stop the loop with an error. -/
theorem exists_freeLoop (h : RingOk r l) (isFreeFn : ℕ → ℕ → Bool) (nbytes fuel freedBytes : ℕ) :
    ∃ r', RingBuffer.freeLoop (fun id count => some (isFreeFn id count)) nbytes fuel freedBytes r =
      some r' := by
  induction fuel generalizing r l freedBytes with
  | zero => exact ⟨r, rfl⟩
  | succ fuel ih =>
    unfold RingBuffer.freeLoop
    cases hlookup : r.metadata.lookup r.monotonicIdStart with
    | none => exact ⟨r, rfl⟩
    | some address =>
      obtain ⟨b, hb, hid, rfl⟩ := (h.metadata _ _).1 hlookup
      obtain ⟨chunk, hchunk, -⟩ := h.stored b hb
      simp only [hchunk]
      split_ifs
      · exact ⟨r, rfl⟩
      cases isFreeFn r.monotonicIdStart chunk.readerCount with
      | false => exact ⟨r, rfl⟩
      | true =>
        cases l with
        | nil => cases hb
        | cons c cs => exact ih h.popStart _

theorem intact (h : RingOk r l) : Intact r l where
  records := h.metadata
  contiguous b hb := by
    obtain ⟨p, -, hat, -⟩ := h.placed.lie.mem hb
    rw [← hat.1]
    exact hat.2
  disjoint := h.placed.lie.pairwise h.end_le
  header := h.stored
  ids := h.ids
  memoryError size object hr := by
    unfold RingBuffer.afterAllocate
    rw [hr]
  frees isFreeFn nbytes := by
    obtain ⟨r₁, hloop⟩ := h.exists_freeLoop isFreeFn nbytes r.metadata.entries.length 0
    have hr : r.freeChecked isFreeFn nbytes =
        some (r₁.wrapAround, RingBuffer.freedIds r.monotonicIdStart r₁.monotonicIdStart) := by
      unfold RingBuffer.freeChecked RingBuffer.freeBuf
      rw [hloop]
      rfl
    obtain ⟨l₁, l₂, rfl, hok, hfreed, -⟩ := h.freeBuf hr
    refine ⟨r₁.wrapAround, l₁.length, ?_, ?_⟩
    · rw [take_left, ← hfreed]
      exact hr
    · rw [drop_left]
      exact hok.metadata

end RingOk

variable {bytes : ℕ} {r : RingBuffer β} {l : List Buffer}

theorem Run.ok (h : Run bytes (fun n => n + 1 < idMax) r l) : RingOk r l := by
  induction h with
  | new h => exact RingOk.new h
  | allocate _ _ _ hlimit hr ih => exact (ih.allocateBuf hlimit hr).1
  | raise _ _ _ hr ih => exact ih.afterAllocate hr
  | free _ _ _ hr ih =>
    obtain ⟨l₁, l₂, rfl, hok, rfl, -⟩ := ih.freeBuf hr
    rw [length_map, drop_left]
    exact hok

/-- **The ring keeps its chunks.**  Whatever is allocated and freed, the live chunks are disjoint
and each in one piece, their headers and entries stay, and they are freed in their order, if there
are never more than `idMax - 1` of them. -/
theorem run_intact (h : Run bytes (fun n => n + 1 < idMax) r l) : Intact r l := h.ok.intact

/-- In a ring of 40 bytes a third chunk goes to the beginning, where the first one was freed. -/
theorem run_intact_three : ∃ (r : RingBuffer ℕ) (l : List Buffer),
    l.map Buffer.address = [16, 40] ∧ Intact r l := by
  have h₀ : Run 40 (fun n => n + 1 < idMax) (RingBuffer.new 40 : RingBuffer ℕ) [] :=
    .new (succ_pos 39)
  have h₁ := Run.allocate 8 5 h₀ (by decide) rfl
  have h₂ := Run.allocate 8 6 h₁ (by decide) rfl
  have h₃ := Run.free (fun _ _ => true) 1 h₂ rfl
  have h₄ := Run.allocate 8 7 h₃ (by decide) rfl
  exact ⟨_, _, rfl, run_intact h₄⟩

/-- Chunks of 9 bytes, one after the other in a ring that has place for all of them. -/
theorem exists_run (n : ℕ) (hn : n ≤ idMax) :
    ∃ (r : RingBuffer Unit) (l : List Buffer), Run (9 * (idMax + 1)) (fun _ => True) r l ∧
      r.dataBufferSize = 9 * (idMax + 1) ∧ r.dataBufferStart = 0 ∧ r.dataBufferEnd = 9 * (n + 1) ∧
      r.monotonicIdEnd = (n + 1) % idMax ∧ r.metadata.lookup (n % idMax) = some (9 * n) ∧
      ⟨0, 0, 9⟩ ∈ l := by
  induction n with
  | zero =>
    exact ⟨_, _, .allocate 1 () (.new (by decide)) trivial rfl,
      rfl, rfl, rfl, rfl, rfl, .head _⟩
  | succ n ih =>
    obtain ⟨r, l, hrun, hbytes, hstart, hend, hid, -, hmem⟩ := ih (le_of_succ_le hn)
    have hlt : 9 * (n + 1) < 9 * (idMax + 1) := by omega
    have hreset : r.bufferEndReset (1 + mdSize) = 9 * (n + 1) := by
      have hmd : 1 + mdSize = 9 := rfl
      unfold RingBuffer.bufferEndReset
      rw [hbytes, hend, mod_eq_of_lt hlt, if_neg (by omega)]
    have hr : r.allocateBuf 1 () =
        .ok (r.append (9 * (n + 1)) 9 (), 9 * (n + 1), r.monotonicIdEnd) := by
      have hmd : 1 + mdSize = 9 := rfl
      rw [RingBuffer.allocateBuf_eq, hreset, hstart, hbytes, hmd, if_neg one_ne_zero, if_neg (by omega),
        if_neg (by decide)]
    refine ⟨_, _, .allocate 1 () hrun trivial hr, hbytes, hstart, rfl, ?_, ?_,
      mem_append_left _ hmem⟩
    · show (r.monotonicIdEnd + 1) % idMax = _
      rw [hid, mod_add_mod]
    · show (r.metadata.setItem (r.monotonicIdEnd % idMax) (9 * (n + 1))).lookup _ = _
      rw [hid, mod_mod, OrderedDict.lookup_setItem, if_pos rfl]

/-- After `2 ^ 31 + 1` allocations the last chunk has taken the entry of the first one. -/
theorem id_taken : ∃ (bytes : ℕ) (r : RingBuffer Unit) (l : List Buffer),
    Run bytes (fun _ => True) r l ∧ ¬ Intact r l := by
  obtain ⟨r, l, hrun, -, -, -, -, hlookup, hmem⟩ := exists_run idMax (le_refl _)
  refine ⟨_, r, l, hrun, fun hintact => ?_⟩
  have hfirst := (hintact.records 0 0).2 ⟨_, hmem, rfl, rfl⟩
  rw [mod_self, hfirst] at hlookup
  cases hlookup

end LoptVllm.ShmStorage
