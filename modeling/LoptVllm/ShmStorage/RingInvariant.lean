import LoptVllm.ShmStorage.RingBuffer
import Mathlib.Data.Int.ModEq

/-!
# The buffers of the ring
-/

namespace LoptVllm.ShmStorage

open List OrderedDict Nat RingBuffer

/-- An allocated buffer; its size includes the header. -/
structure Buffer where
  id : ℕ
  address : ℕ
  size : ℕ

/-! ### Places -/

/-- A buffer is at the position `p`, in a memory of `B` bytes. -/
def Buffer.At (B p : ℕ) (b : Buffer) : Prop := p % B = b.address % B ∧ p % B + b.size ≤ B

/-- The buffers lie one after the other between two positions. -/
def Lie (B : ℕ) : ℕ → List Buffer → ℕ → Prop
  | lo, [], hi => lo ≤ hi
  | lo, b :: bs, hi => ∃ p, lo ≤ p ∧ b.At B p ∧ Lie B (p + b.size) bs hi

/-- The first buffer begins at the start. -/
def Placed (B start : ℕ) (l : List Buffer) (end' : ℕ) : Prop := match l with
  | [] => start = 0 ∧ end' = 0
  | b :: bs => b.At B start ∧ Lie B (start + b.size) bs end'

section

variable {B lo hi : ℕ} {l : List Buffer}

section

variable (h : Lie B lo l hi)

include h

theorem Lie.le : lo ≤ hi := by
  induction l generalizing lo with
  | nil => exact h
  | cons b bs ih =>
    obtain ⟨p, hp, -, hbs⟩ := h
    have := ih hbs
    omega

theorem Lie.mono {hi' : ℕ} (hhi : hi ≤ hi') : Lie B lo l hi' := by
  induction l generalizing lo with
  | nil => exact le_trans h hhi
  | cons b bs ih =>
    obtain ⟨p, hp, hat, hbs⟩ := h
    exact ⟨p, hp, hat, ih hbs⟩

theorem Lie.append {b : Buffer} {p : ℕ} (hp : hi ≤ p) (hb : b.At B p) :
    Lie B lo (l ++ [b]) (p + b.size) := by
  induction l generalizing lo with
  | nil => exact ⟨p, le_trans h hp, hb, le_refl _⟩
  | cons c cs ih =>
    obtain ⟨q, hq, hc, hcs⟩ := h
    exact ⟨q, hq, hc, ih hcs⟩

theorem Lie.mem {b : Buffer} (hb : b ∈ l) : ∃ p, lo ≤ p ∧ b.At B p ∧ p + b.size ≤ hi := by
  induction l generalizing lo with
  | nil => cases hb
  | cons c cs ih =>
    obtain ⟨q, hq, hc, hcs⟩ := h
    rcases mem_cons.1 hb with rfl | hb
    · exact ⟨q, hq, hc, hcs.le⟩
    · obtain ⟨p, hp, hat, hle⟩ := ih hcs hb
      exact ⟨p, by omega, hat, hle⟩

theorem Lie.sub (hlo : B ≤ lo) : Lie B (lo - B) l (hi - B) := by
  induction l generalizing lo with
  | nil => exact Nat.sub_le_sub_right h B
  | cons c cs ih =>
    obtain ⟨q, hq, hc, hcs⟩ := h
    have hmod : (q - B) % B = q % B := (mod_eq_sub_mod (le_trans hlo hq)).symm
    refine ⟨q - B, Nat.sub_le_sub_right hq B, ⟨by rw [hmod]; exact hc.1, by rw [hmod]; exact hc.2⟩,
      ?_⟩
    have heq : q - B + c.size = q + c.size - B := by omega
    rw [heq]
    exact ih hcs (by omega)

end

theorem Placed.lie {start end' : ℕ} (h : Placed B start l end') : Lie B start l end' := by
  cases l with
  | nil => exact le_of_eq (h.1.trans h.2.symm)
  | cons b bs => exact ⟨start, le_refl _, h.1, h.2⟩

/-- Two parts of one round that do not go around the end of the memory are disjoint there. -/
theorem mod_disjoint {p q s t : ℕ} (hs : p % B + s ≤ B) (ht : q % B + t ≤ B) (hpq : p + s ≤ q)
    (hround : q + t ≤ p + B) : p % B + s ≤ q % B ∨ q % B + t ≤ p % B := by
  rcases Nat.eq_zero_or_pos B with rfl | hB
  · omega
  have hp := div_add_mod p B
  have hq := div_add_mod q B
  have hle : p / B ≤ q / B := Nat.div_le_div_right (by omega)
  have hlt : q / B ≤ p / B + 1 := by
    rw [← add_div_right p hB]
    exact Nat.div_le_div_right (by omega)
  rcases eq_or_lt_of_le hle with heq | hlt'
  · rw [← heq] at hq
    omega
  · have heq : q / B = p / B + 1 := by omega
    rw [heq, mul_add, mul_one] at hq
    omega

/-- No two buffers have a byte of the memory in common. -/
theorem Lie.pairwise (h : Lie B lo l hi) (hround : hi ≤ lo + B) :
    l.Pairwise fun b b' => b.address % B + b.size ≤ b'.address % B ∨
      b'.address % B + b'.size ≤ b.address % B := by
  induction l generalizing lo with
  | nil => exact List.Pairwise.nil
  | cons c cs ih =>
    obtain ⟨q, hq, hc, hcs⟩ := h
    refine List.Pairwise.cons (fun b hb => ?_) (ih hcs (by omega))
    obtain ⟨p, hp, hat, hle⟩ := hcs.mem hb
    rw [← hc.1, ← hat.1]
    exact mod_disjoint hc.2 hat.2 hp (by omega)

end

/-! ### The allocated buffers -/

/-- The buffers that are allocated, from the oldest to the newest. -/
structure RingOk {β : Type} (r : RingBuffer β) (l : List Buffer) : Prop where
  bytes_pos : 0 < r.dataBufferSize
  ids : l.map Buffer.id = (range l.length).map fun j => (r.monotonicIdStart + j) % idMax
  idStart_lt : r.monotonicIdStart < idMax
  length_lt : l.length < idMax
  idEnd : r.monotonicIdEnd = (r.monotonicIdStart + l.length) % idMax
  metadata : ∀ id address, r.metadata.lookup id = some address ↔
    ∃ b ∈ l, b.id = id ∧ b.address = address
  placed : Placed r.dataBufferSize r.dataBufferStart l r.dataBufferEnd
  end_le : r.dataBufferEnd ≤ r.dataBufferStart + r.dataBufferSize
  size_pos : ∀ b ∈ l, 0 < b.size
  stored : ∀ b ∈ l, ∃ chunk, r.accessBuf b.address = some chunk ∧ chunk.id = b.id ∧
    chunk.size = b.size

theorem RingOk.new {β : Type} {bytes : ℕ} (h : 0 < bytes) :
    RingOk (RingBuffer.new bytes : RingBuffer β) [] where
  bytes_pos := h
  ids := rfl
  idStart_lt := Nat.two_pow_pos 31
  length_lt := Nat.two_pow_pos 31
  idEnd := rfl
  metadata id address := by
    constructor
    · intro h
      cases h
    · rintro ⟨b, hb, -⟩
      cases hb
  placed := ⟨rfl, rfl⟩
  end_le := zero_le _
  size_pos := nofun
  stored := nofun

namespace RingOk

variable {β : Type} {r r' : RingBuffer β} {l : List Buffer}

/-- Different places from one start have different ids. -/
theorem mod_injOn {start j k : ℕ} (hj : j < idMax) (hk : k < idMax)
    (h : (start + j) % idMax = (start + k) % idMax) : j = k := by
  have hmod : start + j ≡ start + k [MOD idMax] := h
  exact Nat.ModEq.eq_of_lt_of_lt (Nat.ModEq.add_left_cancel' start hmod) hj hk

theorem nodup_ids (h : RingOk r l) : (l.map Buffer.id).Nodup := by
  rw [h.ids]
  refine Nodup.map_on (fun j hj k hk heq => ?_) nodup_range
  have hlt := h.length_lt
  rw [mem_range] at hj hk
  exact mod_injOn (by omega) (by omega) heq

variable {b : Buffer}

theorem eq_of_id_eq (h : RingOk r l) {b' : Buffer} (hb : b ∈ l) (hb' : b' ∈ l)
    (hid : b.id = b'.id) : b = b' := inj_on_of_nodup_map h.nodup_ids hb hb' hid

/-- The offsets of the buffers differ. -/
theorem address_ne (h : RingOk r l) {b' : Buffer} (hb : b ∈ l) (hb' : b' ∈ l)
    (hne : b ≠ b') : b.address % r.dataBufferSize ≠ b'.address % r.dataBufferSize := by
  have hpairwise : l.Pairwise fun b b' =>
      b.address % r.dataBufferSize ≠ b'.address % r.dataBufferSize :=
    (h.placed.lie.pairwise h.end_le).imp_of_mem fun {b b'} hb hb' hdisjoint => by
      have := h.size_pos b hb
      have := h.size_pos b' hb'
      omega
  have : Std.Symm fun b b' : Buffer =>
      b.address % r.dataBufferSize ≠ b'.address % r.dataBufferSize := ⟨fun _ _ h => h.symm⟩
  exact hpairwise.forall hb hb' hne

/-! ### Allocating -/

theorem notMem_of_id (h : RingOk r l) (hb : b ∈ l) : b.id ≠ r.monotonicIdEnd := by
  intro heq
  have hmem : b.id ∈ l.map Buffer.id := mem_map_of_mem hb
  rw [h.ids] at hmem
  obtain ⟨j, hj, hid⟩ := mem_map.1 hmem
  rw [mem_range] at hj
  have hlt := h.length_lt
  rw [heq, h.idEnd] at hid
  have := mod_injOn (by omega) hlt hid
  omega

variable {q size : ℕ}

/-- The free part of the ring has no byte of a buffer. -/
theorem free_disjoint (h : RingOk r l) (hb : b ∈ l) (hq : r.dataBufferEnd ≤ q)
    (hround : q + size ≤ r.dataBufferStart + r.dataBufferSize)
    (hfit : q % r.dataBufferSize + size ≤ r.dataBufferSize) :
    b.address % r.dataBufferSize + b.size ≤ q % r.dataBufferSize ∨
      q % r.dataBufferSize + size ≤ b.address % r.dataBufferSize := by
  obtain ⟨p, hp, hat, hle⟩ := h.placed.lie.mem hb
  rw [← hat.1]
  exact mod_disjoint hat.2 hfit (by omega) (by omega)

/-- A write into the free part of the ring does not destroy a buffer. -/
theorem accessBuf_write (h : RingOk r l) (hb : b ∈ l) {chunk : Chunk β} (hpos : 0 < chunk.size)
    (hq : r.dataBufferEnd ≤ q) (hround : q + chunk.size ≤ r.dataBufferStart + r.dataBufferSize)
    (hfit : q % r.dataBufferSize + chunk.size ≤ r.dataBufferSize) :
    (r.write (q % r.dataBufferSize) chunk).accessBuf b.address = r.accessBuf b.address := by
  obtain ⟨old, hold, -, hsize⟩ := h.stored b hb
  have hdisjoint := h.free_disjoint hb hq hround hfit
  have hbpos := h.size_pos b hb
  have hne : b.address % r.dataBufferSize ≠ q % r.dataBufferSize := by omega
  show (if b.address % r.dataBufferSize = q % r.dataBufferSize then some chunk
    else (r.accessBuf b.address).filter _) = _
  rw [if_neg hne, hold, Option.filter_some, if_pos]
  rw [decide_eq_true_eq, hsize]
  exact hdisjoint

variable {object : β}

theorem accessBuf_append (h : RingOk r l) (hb : b ∈ l) (hpos : 0 < size) (hq : r.dataBufferEnd ≤ q)
    (hround : q + size ≤ r.dataBufferStart + r.dataBufferSize)
    (hfit : q % r.dataBufferSize + size ≤ r.dataBufferSize) :
    (r.append q size object).accessBuf b.address = r.accessBuf b.address :=
  h.accessBuf_write hb (show 0 < (⟨r.monotonicIdEnd, size, 0, object⟩ : Chunk β).size from hpos) hq
    hround hfit

theorem accessBuf_append_self (r : RingBuffer β) (q size : ℕ) (object : β) :
    (r.append q size object).accessBuf q = some ⟨r.monotonicIdEnd, size, 0, object⟩ := if_pos rfl

section

variable (h : RingOk r l)
include h

theorem lookup_append (q size : ℕ) (object : β) (id : ℕ) :
    (r.append q size object).metadata.lookup id =
      if id = r.monotonicIdEnd then some q else r.metadata.lookup id := by
  have hlt : r.monotonicIdEnd < idMax := by
    rw [h.idEnd]
    exact mod_lt _ (Nat.two_pow_pos 31)
  show (r.metadata.setItem (r.monotonicIdEnd % idMax) q).lookup id = _
  rw [lookup_setItem, mod_eq_of_lt hlt]

/-- A buffer that is placed behind the others. -/
theorem append (hlength : l.length + 1 < idMax) (object : β) (hpos : 0 < size)
    (hq : r.dataBufferEnd ≤ q) (hfirst : l = [] → q = 0)
    (hround : q + size ≤ r.dataBufferStart + r.dataBufferSize)
    (hfit : q % r.dataBufferSize + size ≤ r.dataBufferSize) :
    RingOk (r.append q size object) (l ++ [⟨r.monotonicIdEnd, q, size⟩]) where
  bytes_pos := h.bytes_pos
  ids := by
    rw [map_append, h.ids, length_append, length_singleton, range_succ, map_append]
    exact congrArg (fun id => _ ++ [id]) h.idEnd
  idStart_lt := h.idStart_lt
  length_lt := by simpa using hlength
  idEnd := by
    show (r.monotonicIdEnd + 1) % idMax = (r.monotonicIdStart + _) % idMax
    rw [h.idEnd, mod_add_mod, length_append, length_singleton, add_assoc]
  metadata id address := by
    rw [h.lookup_append]
    split_ifs with hid
    · constructor
      · intro heq
        exact ⟨_, mem_append_right _ (.head _), hid.symm, Option.some.inj heq⟩
      · rintro ⟨b, hb, hid', haddress⟩
        rcases mem_append.1 hb with hb | hb
        · exact absurd (hid'.trans hid) (h.notMem_of_id hb)
        · rw [← haddress, mem_singleton.1 hb]
    · rw [h.metadata]
      constructor
      · rintro ⟨b, hb, hid'⟩
        exact ⟨b, mem_append_left _ hb, hid'⟩
      · rintro ⟨b, hb, hid', haddress⟩
        rcases mem_append.1 hb with hb | hb
        · exact ⟨b, hb, hid', haddress⟩
        · rw [mem_singleton.1 hb] at hid'
          exact absurd hid'.symm hid
  placed := by
    cases l with
    | nil =>
      obtain ⟨hstart, -⟩ := h.placed
      have hstart' : r.dataBufferStart = q := hstart.trans (hfirst rfl).symm
      show Buffer.At _ r.dataBufferStart _ ∧ r.dataBufferStart + size ≤ q + size
      rw [hstart']
      exact ⟨⟨rfl, hfit⟩, le_refl _⟩
    | cons b bs => exact ⟨h.placed.1, h.placed.2.append hq ⟨rfl, hfit⟩⟩
  end_le := hround
  size_pos b hb := by
    rcases mem_append.1 hb with hb | hb
    · exact h.size_pos b hb
    · rw [mem_singleton.1 hb]
      exact hpos
  stored b hb := by
    rcases mem_append.1 hb with hb | hb
    · obtain ⟨chunk, hchunk, hid⟩ := h.stored b hb
      exact ⟨chunk, (h.accessBuf_append hb hpos hq hround hfit).trans hchunk, hid⟩
    · rw [mem_singleton.1 hb]
      exact ⟨_, accessBuf_append_self r q size object, rfl, rfl⟩

/-- Where the next buffer begins: behind the others, and not around the end of the memory. -/
theorem bufferEndReset (hspace : r.bufferEndReset size + size ≤ r.dataBufferStart + r.dataBufferSize) :
    r.dataBufferEnd ≤ r.bufferEndReset size ∧
      r.bufferEndReset size % r.dataBufferSize + size ≤ r.dataBufferSize ∧
      (l = [] → r.bufferEndReset size = 0) := by
  have hle := h.placed.lie.le
  unfold RingBuffer.bufferEndReset at hspace ⊢
  split_ifs at hspace ⊢ with hreset
  · have hlt : r.dataBufferEnd < (r.dataBufferEnd / r.dataBufferSize + 1) * r.dataBufferSize := by
      rw [mul_comm]
      exact lt_mul_div_succ _ h.bytes_pos
    refine ⟨le_of_lt hlt, ?_, ?_⟩
    · rw [mul_mod_left]
      omega
    · -- an empty ring is counted from the beginning, so that the buffer fits
      rintro rfl
      obtain ⟨hstart, hend⟩ := h.placed
      rw [hend, zero_mod] at hreset
      omega
  · refine ⟨le_refl _, Nat.le_of_not_lt hreset, ?_⟩
    rintro rfl
    exact h.placed.2

/-- `allocate_buf` adds a buffer at the end, and keeps the others. -/
theorem allocateBuf (hlength : l.length + 1 < idMax) {address id : ℕ}
    (hr : r.allocateBuf size object = .ok (r', address, id)) :
    RingOk r' (l ++ [⟨id, address, size + mdSize⟩]) ∧
      (∀ b ∈ l, b.id ≠ id ∧ r'.accessBuf b.address = r.accessBuf b.address) ∧
      r'.accessBuf address = some ⟨id, size + mdSize, 0, object⟩ ∧
      ∀ a, r'.metadata.lookup a = if a = id then some address else r.metadata.lookup a := by
  rw [allocateBuf_eq] at hr
  have hpos : 0 < size + mdSize := succ_pos _
  split_ifs at hr with hzero hoccupied hoverflow
  obtain ⟨rfl, rfl, rfl⟩ := hr
  have hspace : r.bufferEndReset (size + mdSize) + (size + mdSize) ≤
      r.dataBufferStart + r.dataBufferSize := by omega
  obtain ⟨hend, hfit, hfirst⟩ := h.bufferEndReset hspace
  exact ⟨h.append hlength object hpos hend hfirst hspace hfit,
    fun b hb => ⟨h.notMem_of_id hb, h.accessBuf_append hb hpos hend hspace hfit⟩,
    accessBuf_append_self r _ _ object, h.lookup_append _ _ object⟩

end

theorem allocateBuf_id {address id : ℕ}
    (hr : r.allocateBuf size object = .ok (r', address, id)) : id = r.monotonicIdEnd := by
  rw [allocateBuf_eq] at hr
  split_ifs at hr
  rw [Except.ok.injEq, Prod.mk.injEq, Prod.mk.injEq] at hr
  exact hr.2.2.symm

theorem length_le (h : RingOk r l) : l.length ≤ r.metadata.entries.length := by
  have hsubset : l.map Buffer.id ⊆ r.metadata.keys := by
    intro id hid
    obtain ⟨b, hb, hbid⟩ := mem_map.1 hid
    have hlookup := (h.metadata id b.address).2 ⟨b, hb, hbid, rfl⟩
    exact AList.mem_keys.1 (AList.lookup_isSome.1 (by rw [hlookup]; rfl))
  have hle := (subperm_of_subset h.nodup_ids hsubset).length_le
  rw [length_map] at hle
  exact le_trans hle (le_of_eq (length_map _))

/-! ### Freeing -/

@[simp] theorem accessBuf_popStart (r : RingBuffer β) (address : ℕ) :
    r.popStart.accessBuf address = r.accessBuf address := by
  unfold RingBuffer.popStart
  simp only
  split <;> rfl

variable {bs : List Buffer}

theorem oldest_id (h : RingOk r (b :: bs)) : b.id = r.monotonicIdStart ∧ bs.map Buffer.id =
      (range bs.length).map fun j => ((r.monotonicIdStart + 1) % idMax + j) % idMax := by
  have hids := h.ids
  rw [length_cons, range_succ_eq_map, map_cons, map_cons, map_map, List.cons.injEq] at hids
  refine ⟨hids.1.trans (mod_eq_of_lt h.idStart_lt), hids.2.trans (map_congr_left ?_)⟩
  intro j _
  show (r.monotonicIdStart + (j + 1)) % idMax = _
  rw [mod_add_mod, add_assoc, add_comm 1]

theorem lookup_erase_oldest (h : RingOk r (b :: bs))
    (id address : ℕ) : (r.metadata.erase r.monotonicIdStart).lookup id = some address ↔
      ∃ b' ∈ bs, b'.id = id ∧ b'.address = address := by
  have hnodup := h.nodup_ids
  rw [map_cons, nodup_cons, h.oldest_id.1] at hnodup
  rw [lookup_erase']
  split_ifs with hid
  · constructor
    · rintro ⟨⟩
    · rintro ⟨b', hb', hid', -⟩
      exact absurd (mem_map.2 ⟨b', hb', hid'.trans hid⟩) hnodup.1
  · rw [h.metadata]
    constructor
    · rintro ⟨b', hb', hid', haddress⟩
      rcases mem_cons.1 hb' with rfl | hb'
      · exact absurd (hid'.symm.trans h.oldest_id.1) hid
      · exact ⟨b', hb', hid', haddress⟩
    · rintro ⟨b', hb', hid'⟩
      exact ⟨b', .tail _ hb', hid'⟩

@[simp] theorem idStart_popStart (r : RingBuffer β) :
    r.popStart.monotonicIdStart = (r.monotonicIdStart + 1) % idMax := by
  unfold RingBuffer.popStart
  simp only
  split <;> rfl

theorem popStart (h : RingOk r (b :: bs)) : RingOk r.popStart bs := by
  set start := r.monotonicIdStart
  obtain ⟨hid, hids⟩ := h.oldest_id
  have hlookup := h.lookup_erase_oldest
  have hlength : bs.length + 1 < idMax := h.length_lt
  have hend : r.monotonicIdEnd = ((start + 1) % idMax + bs.length) % idMax := by
    rw [h.idEnd, mod_add_mod, length_cons, add_assoc, add_comm 1]
  have hstored : ∀ b' ∈ bs, ∃ chunk, r.accessBuf b'.address = some chunk ∧ chunk.id = b'.id ∧
      chunk.size = b'.size := fun b' hb' => h.stored b' (.tail _ hb')
  have hpos : ∀ b' ∈ bs, 0 < b'.size := fun b' hb' => h.size_pos b' (.tail _ hb')
  have hlt : (start + 1) % idMax < idMax := mod_lt _ (Nat.two_pow_pos 31)
  unfold RingBuffer.popStart
  simp only
  cases bs with
  | nil =>
    have hnone : (r.metadata.erase start).lookup ((start + 1) % idMax) =
        none := by
      refine Option.eq_none_iff_forall_ne_some.2 fun address heq => ?_
      obtain ⟨b', hb', -⟩ := (hlookup _ _).1 heq
      cases hb'
    rw [hnone]
    exact ⟨h.bytes_pos, hids, hlt, Nat.two_pow_pos 31, hend, hlookup, ⟨rfl, rfl⟩, zero_le _,
      hpos, hstored⟩
  | cons c cs =>
    have hc : c.id = (start + 1) % idMax := by
      rw [map_cons, length_cons, range_succ_eq_map, map_cons, List.cons.injEq] at hids
      rw [hids.1, add_zero, mod_mod]
    have hsome : (r.metadata.erase start).lookup ((start + 1) % idMax) =
        some c.address := (hlookup _ _).2 ⟨c, .head _, hc, rfl⟩
    rw [hsome]
    -- the next buffer is less than a round away
    obtain ⟨-, p, hp, hat, hcs⟩ := h.placed
    have hnext : r.dataBufferStart +
        (((c.address : ℤ) - r.dataBufferStart) % r.dataBufferSize).toNat = p := by
      have hcpos := hpos c (.head _)
      have hle := hcs.le
      have hround := h.end_le
      have hmod : ((c.address : ℤ) - r.dataBufferStart) % r.dataBufferSize =
          ((p : ℤ) - r.dataBufferStart) % r.dataBufferSize := by
        refine Int.ModEq.sub_right _ ?_
        exact Int.natCast_modEq_iff.2 hat.1.symm
      rw [hmod, Int.emod_eq_of_lt (by omega) (by omega)]
      omega
    dsimp only
    rw [hnext]
    refine ⟨h.bytes_pos, hids, hlt, lt_of_succ_lt hlength, hend, hlookup, ⟨hat, hcs⟩, ?_, hpos,
      hstored⟩
    have hround := h.end_le
    show r.dataBufferEnd ≤ p + r.dataBufferSize
    omega

theorem wrapAround (h : RingOk r l) : RingOk r.wrapAround l := by
  unfold RingBuffer.wrapAround
  split_ifs with hge
  · refine ⟨h.bytes_pos, h.ids, h.idStart_lt, h.length_lt, h.idEnd, h.metadata, ?_, ?_, h.size_pos,
      h.stored⟩
    · cases l with
      | nil =>
        obtain ⟨hstart, hend⟩ := h.placed
        exact ⟨by rw [hstart, Nat.zero_sub], by rw [hend, Nat.zero_sub]⟩
      | cons b bs =>
        obtain ⟨hat, hbs⟩ := h.placed
        have hmod : (r.dataBufferStart - r.dataBufferSize) % r.dataBufferSize =
            r.dataBufferStart % r.dataBufferSize := (mod_eq_sub_mod hge).symm
        refine ⟨⟨by rw [hmod]; exact hat.1, by rw [hmod]; exact hat.2⟩, ?_⟩
        have heq : r.dataBufferStart - r.dataBufferSize + b.size =
            r.dataBufferStart + b.size - r.dataBufferSize := by omega
        rw [heq]
        exact hbs.sub (by omega)
    · have := h.end_le
      show r.dataBufferEnd - r.dataBufferSize ≤
        r.dataBufferStart - r.dataBufferSize + r.dataBufferSize
      omega
  · exact h

variable {isFreeFn : ℕ → ℕ → Option Bool}

/-- The loop of `free_buf` frees some of the oldest buffers, and only those that pass the check. -/
theorem freeLoop {nbytes fuel freedBytes : ℕ} (h : RingOk r l)
    (hr : freeLoop isFreeFn nbytes fuel freedBytes r = some r') :
    ∃ l₁ l₂, l = l₁ ++ l₂ ∧ RingOk r' l₂ ∧
      r'.monotonicIdStart = (r.monotonicIdStart + l₁.length) % idMax ∧
      (∀ address, r'.accessBuf address = r.accessBuf address) ∧
      ∀ b ∈ l₁, ∃ chunk, r.accessBuf b.address = some chunk ∧
        isFreeFn b.id chunk.readerCount = some true := by
  have hstart : r.monotonicIdStart = (r.monotonicIdStart + 0) % idMax :=
    (mod_eq_of_lt h.idStart_lt).symm
  induction fuel generalizing r l freedBytes with
  | zero =>
    cases hr
    exact ⟨[], l, rfl, h, hstart, fun _ => rfl, nofun⟩
  | succ fuel ih =>
    -- nothing is freed, or the oldest buffer is
    rcases eq_or_ne r r' with rfl | hchanged
    · exact ⟨[], l, rfl, h, hstart, fun _ => rfl, nofun⟩
    unfold freeLoop at hr
    cases hlookup : r.metadata.lookup r.monotonicIdStart with
    | none =>
      simp only [hlookup] at hr
      exact absurd (Option.some.inj hr) hchanged
    | some address =>
      simp only [hlookup] at hr
      split_ifs at hr with hbytes
      · exact absurd (Option.some.inj hr) hchanged
      cases haccess : r.accessBuf address with
      | none => simp only [haccess, reduceCtorEq] at hr
      | some chunk =>
        simp only [haccess] at hr
        cases hfree : isFreeFn r.monotonicIdStart chunk.readerCount with
        | none => simp only [hfree, reduceCtorEq] at hr
        | some free =>
          cases free with
          | false =>
            simp only [hfree] at hr
            exact absurd (Option.some.inj hr) hchanged
          | true =>
            simp only [hfree] at hr
            cases l with
            | nil =>
              obtain ⟨b, hb, -⟩ := (h.metadata _ _).1 hlookup
              cases hb
            | cons b bs =>
              obtain ⟨l₁, l₂, rfl, hok, hids, hkept, hchecked⟩ :=
                ih h.popStart hr (mod_eq_of_lt h.popStart.idStart_lt).symm
              obtain ⟨b', hb', hid, haddress⟩ := (h.metadata _ _).1 hlookup
              obtain rfl := h.eq_of_id_eq hb' (.head _) (hid.trans h.oldest_id.1.symm)
              rw [idStart_popStart, mod_add_mod, add_assoc, add_comm 1] at hids
              refine ⟨b' :: l₁, l₂, rfl, hok, hids,
                fun a => (hkept a).trans (accessBuf_popStart r a), ?_⟩
              intro b hb
              rcases mem_cons.1 hb with rfl | hb
              · exact ⟨chunk, by rw [haddress]; exact haccess, by rw [hid]; exact hfree⟩
              · obtain ⟨chunk', hchunk', hfree'⟩ := hchecked b hb
                exact ⟨chunk', by rw [← hchunk', accessBuf_popStart], hfree'⟩

theorem freedIds_eq {before n : ℕ} (hbefore : before < idMax) (hn : n < idMax) :
    freedIds before ((before + n) % idMax) = (range n).map fun j => (before + j) % idMax := by
  unfold freedIds
  by_cases hwrap : before + n < idMax
  · rw [mod_eq_of_lt hwrap, if_pos (le_add_right _ _), Nat.add_sub_cancel_left, range'_eq_map_range]
    refine map_congr_left fun j hj => ?_
    rw [mem_range] at hj
    exact (mod_eq_of_lt (by omega)).symm
  · have hmod : (before + n) % idMax = before + n - idMax := by
      rw [mod_eq_sub_mod (by omega), mod_eq_of_lt (by omega)]
    have hsplit : n = (idMax - before) + (before + n - idMax) := by omega
    rw [hmod, if_neg (by omega)]
    conv_rhs => rw [hsplit, range_add, map_append, map_map]
    refine congrArg₂ _ ?_ ?_
    · rw [range'_eq_map_range]
      refine map_congr_left fun j hj => ?_
      rw [mem_range] at hj
      exact (mod_eq_of_lt (by omega)).symm
    · rw [range'_eq_map_range]
      refine map_congr_left fun j hj => ?_
      rw [mem_range] at hj
      show 0 + j = (before + (idMax - before + j)) % idMax
      have heq : before + (idMax - before + j) = idMax + j := by omega
      rw [heq, add_mod_left, mod_eq_of_lt (by omega), zero_add]

/-- `free_buf` frees some of the oldest buffers, and only those that pass the check. -/
theorem freeBuf {nbytes : ℕ} {freed : List ℕ} (h : RingOk r l)
    (hr : r.freeBuf isFreeFn nbytes = some (r', freed)) :
    ∃ l₁ l₂, l = l₁ ++ l₂ ∧ RingOk r' l₂ ∧ freed = l₁.map Buffer.id ∧
      r'.monotonicIdEnd = r.monotonicIdEnd ∧
      (∀ address, r'.accessBuf address = r.accessBuf address) ∧
      ∀ b ∈ l₁, ∃ chunk, r.accessBuf b.address = some chunk ∧
        isFreeFn b.id chunk.readerCount = some true := by
  obtain ⟨r₁, hloop, heq⟩ := Option.map_eq_some_iff.1 hr
  obtain ⟨rfl, rfl⟩ := heq
  obtain ⟨l₁, l₂, rfl, hok, hstart, hkept, hchecked⟩ := h.freeLoop hloop
  have hwrap : ∀ address, r₁.wrapAround.accessBuf address = r₁.accessBuf address := fun address => by
    unfold RingBuffer.wrapAround
    split_ifs <;> rfl
  have hend : r₁.wrapAround.monotonicIdEnd = r₁.monotonicIdEnd := by
    unfold RingBuffer.wrapAround
    split_ifs <;> rfl
  refine ⟨l₁, l₂, rfl, hok.wrapAround, ?_, ?_, fun a => (hwrap a).trans (hkept a), hchecked⟩
  rotate_left
  · rw [hend, hok.idEnd, hstart, h.idEnd, mod_add_mod, length_append, add_assoc]
  have hlength := h.length_lt
  rw [length_append] at hlength
  rw [hstart, freedIds_eq h.idStart_lt (by omega)]
  have hids := h.ids
  rw [map_append, length_append, range_add, map_append] at hids
  exact (append_inj hids (by simp)).1.symm

/-! ### Counting readers -/

theorem setReaderCount (h : RingOk r l) (address count : ℕ) :
    RingOk (r.setReaderCount address count) l := by
  refine ⟨h.bytes_pos, h.ids, h.idStart_lt, h.length_lt, h.idEnd, h.metadata, h.placed, h.end_le,
    h.size_pos, fun b hb => ?_⟩
  obtain ⟨chunk, hchunk, hid, hsize⟩ := h.stored b hb
  by_cases heq : b.address % r.dataBufferSize = address % r.dataBufferSize
  · refine ⟨{ chunk with readerCount := count }, ?_, hid, hsize⟩
    have hself := RingBuffer.accessBuf_setReaderCount_self r b.address count
    unfold RingBuffer.setReaderCount accessBuf at hself ⊢
    rw [← heq, hself]
    unfold accessBuf at hchunk
    rw [hchunk]
    rfl
  · exact ⟨chunk, (RingBuffer.accessBuf_setReaderCount_of_ne r count heq).trans hchunk, hid, hsize⟩

end RingOk

end LoptVllm.ShmStorage
