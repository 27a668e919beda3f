import LoptVllm.ShmStorage.Storage
import LoptVllm.ShmStorage.RingInvariant

/-!
# The objects of the storage
-/

namespace LoptVllm.ShmStorage

open List Option OrderedDict AList Prod Storage

variable {κ β : Type}

/-- An object of the storage. -/
structure Object (κ : Type) where
  key : κ
  address : ℕ
  writer : ℕ
  count : ℕ

/-- The object with an id. -/
def Storage.object (s : Storage κ β) (id : ℕ) : Option (Object κ) :=
  match s.idIndex.lookup id, s.ringBuffer.metadata.lookup id, s.writerFlag.lookup id with
  | some key, some address, some writer =>
    (s.ringBuffer.accessBuf address).map fun chunk => ⟨key, address, writer, chunk.readerCount⟩
  | _, _, _ => none

theorem Storage.object_eq_some {s : Storage κ β} {id : ℕ} {o : Object κ} :
    s.object id = some o ↔ s.idIndex.lookup id = some o.key ∧
      s.ringBuffer.metadata.lookup id = some o.address ∧ s.writerFlag.lookup id = some o.writer ∧
      ∃ chunk, s.ringBuffer.accessBuf o.address = some chunk ∧ chunk.readerCount = o.count := by
  unfold object
  constructor
  · intro h
    split at h
    · rename_i key address writer hkey haddress hwriter
      obtain ⟨chunk, hchunk, rfl⟩ := map_eq_some_iff.1 h
      exact ⟨hkey, haddress, hwriter, chunk, hchunk, rfl⟩
    · cases h
  · rintro ⟨hkey, haddress, hwriter, chunk, hchunk, hcount⟩
    rw [hkey, haddress, hwriter]
    simp only
    rw [hchunk, map_some, hcount]

/-- The ids and keys of the buffers are indexed. -/
structure IndexOk (s : Storage κ β) [DecidableEq κ] (l : List Buffer) : Prop where
  nodup : (l.map Buffer.id).Nodup
  idIndex : ∀ id, id ∈ s.idIndex ↔ id ∈ l.map Buffer.id
  writerFlag : ∀ id, id ∈ s.writerFlag ↔ id ∈ l.map Buffer.id
  keyIndex : ∀ key address id, s.keyIndex.lookup key = some (address, id) ↔
    s.idIndex.lookup id = some key ∧ ∃ b ∈ l, b.id = id ∧ b.address = address

/-- The storage with the buffers of its objects, from the oldest to the newest. -/
structure StorageOk [DecidableEq κ] (s : Storage κ β) (l : List Buffer) : Prop where
  ring : RingOk s.ringBuffer l
  index : IndexOk s l

variable [DecidableEq κ] {s s' : Storage κ β} {l : List Buffer}

theorem StorageOk.new {maxObjectSize nReaders bytes : ℕ} {serialize : β → ℕ} (h : 0 < bytes) :
    StorageOk (Storage.new maxObjectSize nReaders serialize bytes : Storage κ β) [] where
  ring := .new h
  index := by
    refine ⟨nodup_nil, fun id => ?_, fun id => ?_, fun key address id => ?_⟩
    · exact iff_of_false (notMem_empty id) not_mem_nil
    · exact iff_of_false (notMem_empty id) not_mem_nil
    · constructor
      · intro h
        cases h
      · rintro ⟨h, -⟩
        cases h

namespace StorageOk

variable {id : ℕ}

theorem mem_idIndex (h : StorageOk s l) : id ∈ s.idIndex ↔ ∃ o, s.object id = some o := by
  constructor
  · intro hid
    have hl := (h.index.idIndex id).1 hid
    have hw := (h.index.writerFlag id).2 hl
    obtain ⟨key, hkey⟩ := isSome_iff_exists.1 (lookup_isSome.2 hid)
    obtain ⟨writer, hwriter⟩ := isSome_iff_exists.1 (lookup_isSome.2 hw)
    obtain ⟨b, hb, hbid⟩ := List.mem_map.1 hl
    obtain ⟨chunk, hchunk, -⟩ := h.ring.stored b hb
    exact ⟨⟨key, b.address, writer, chunk.readerCount⟩, object_eq_some.2
      ⟨hkey, (h.ring.metadata _ _).2 ⟨b, hb, hbid, rfl⟩, hwriter, chunk, hchunk, rfl⟩⟩
  · rintro ⟨o, ho⟩
    exact lookup_isSome.1 (by rw [(object_eq_some.1 ho).1]; rfl)

theorem lookup_keyIndex (h : StorageOk s l) {key : κ} {address : ℕ} :
    s.keyIndex.lookup key = some (address, id) ↔
      ∃ o, s.object id = some o ∧ o.key = key ∧ o.address = address := by
  rw [h.index.keyIndex]
  constructor
  · rintro ⟨hkey, b, hb, hid, haddress⟩
    obtain ⟨o, ho⟩ := h.mem_idIndex.1 (lookup_isSome.1 (by rw [hkey]; rfl))
    have ho' := object_eq_some.1 ho
    refine ⟨o, ho, some.inj (ho'.1.symm.trans hkey), ?_⟩
    have hmeta := (h.ring.metadata id address).2 ⟨b, hb, hid, haddress⟩
    exact some.inj (ho'.2.1.symm.trans hmeta)
  · rintro ⟨o, ho, rfl, rfl⟩
    have ho' := object_eq_some.1 ho
    exact ⟨ho'.1, (h.ring.metadata _ _).1 ho'.2.1⟩

variable {o : Object κ}

theorem key_ne (h : StorageOk s l) {key : κ} (hkey : key ∉ s.keyIndex)
    (ho : s.object id = some o) : o.key ≠ key := by
  rintro rfl
  have hlookup := h.lookup_keyIndex.2 ⟨o, ho, rfl, rfl⟩
  exact hkey (lookup_isSome.1 (by rw [hlookup]; rfl))

theorem id_inj (h : StorageOk s l) {id' : ℕ} {o' : Object κ} (ho : s.object id = some o)
    (ho' : s.object id' = some o') (hkey : o.key = o'.key) : id = id' := by
  have h₁ := h.lookup_keyIndex.2 ⟨o, ho, rfl, rfl⟩
  have h₂ := h.lookup_keyIndex.2 ⟨o', ho', rfl, rfl⟩
  rw [hkey] at h₁
  exact (mk.inj (some.inj (h₁.symm.trans h₂))).2

theorem idEnd_notMem (h : StorageOk s l) : s.ringBuffer.monotonicIdEnd ∉ s.idIndex := by
  intro hmem
  obtain ⟨b, hb, hid⟩ := List.mem_map.1 ((h.index.idIndex _).1 hmem)
  exact h.ring.notMem_of_id hb hid

/-! ### The counters -/

omit [DecidableEq κ] in
theorem object_incrementWriterFlag (ho : s.object id = some o) (a : ℕ) :
    (s.incrementWriterFlag id).object a =
      if a = id then some { o with writer := o.writer + 1 } else s.object a := by
  have ho' := object_eq_some.1 ho
  split_ifs with ha
  · rw [ha]
    refine object_eq_some.2 ⟨ho'.1, ho'.2.1, ?_, ho'.2.2.2⟩
    show (s.writerFlag.setItem id _).lookup id = _
    rw [lookup_setItem, if_pos rfl, ho'.2.2.1, getD_some]
  · unfold object
    have hflag : (s.incrementWriterFlag id).writerFlag.lookup a = s.writerFlag.lookup a := by
      show (s.writerFlag.setItem id _).lookup a = _
      rw [lookup_setItem, if_neg ha]
    rw [hflag]
    rfl

theorem incrementWriterFlag (h : StorageOk s l)
    (ho : s.object id = some o) : StorageOk (s.incrementWriterFlag id) l where
  ring := h.ring
  index := by
    refine ⟨h.index.nodup, h.index.idIndex, fun a => ?_, h.index.keyIndex⟩
    show a ∈ s.writerFlag.setItem id _ ↔ _
    rw [mem_setItem, h.index.writerFlag, or_iff_right_of_imp]
    rintro rfl
    exact (h.index.idIndex _).1 (h.mem_idIndex.2 ⟨o, ho⟩)

theorem setReaderCount (h : StorageOk s l) (address count : ℕ) :
    StorageOk { s with ringBuffer := s.ringBuffer.setReaderCount address count } l :=
  ⟨h.ring.setReaderCount address count,
    ⟨h.index.nodup, h.index.idIndex, h.index.writerFlag, h.index.keyIndex⟩⟩

theorem object_setReaderCount (h : StorageOk s l) (ho : s.object id = some o) (count a : ℕ) :
    object { s with ringBuffer := s.ringBuffer.setReaderCount o.address count } a =
      if a = id then some { o with count := count } else s.object a := by
  obtain ⟨hkey, hmeta, hflag, chunk, hchunk, hcount⟩ := object_eq_some.1 ho
  split_ifs with ha
  · rw [ha]
    refine object_eq_some.2 ⟨hkey, hmeta, hflag, { chunk with readerCount := count }, ?_, rfl⟩
    rw [RingBuffer.accessBuf_setReaderCount_self, hchunk, map_some]
  · refine ext fun o' => ?_
    rw [object_eq_some, object_eq_some]
    refine and_congr_right fun hkey' => and_congr_right fun hmeta' => and_congr_right fun _ => ?_
    obtain ⟨b, hb, hid, haddress⟩ := (h.ring.metadata _ _).1 hmeta
    obtain ⟨b', hb', hid', haddress'⟩ := (h.ring.metadata a o'.address).1 hmeta'
    have hne : b' ≠ b := by
      rintro rfl
      exact ha (hid'.symm.trans hid)
    have hoffset := h.ring.address_ne hb' hb hne
    rw [haddress, haddress'] at hoffset
    rw [RingBuffer.accessBuf_setReaderCount_of_ne _ _ hoffset]

end StorageOk

/-! ### Freeing -/

/-- The buffer of the freed id is no longer indexed. -/
theorem IndexOk.freeId {b : Buffer} (h : IndexOk s (b :: l)) (hs : s.freeId b.id = some s') :
    IndexOk s' l ∧ s'.ringBuffer = s.ringBuffer ∧ s'.nReaders = s.nReaders ∧
      (∀ id, id ≠ b.id → s'.idIndex.lookup id = s.idIndex.lookup id) ∧
      ∀ id, id ≠ b.id → s'.writerFlag.lookup id = s.writerFlag.lookup id := by
  have hnodup := nodup_cons.1 h.nodup
  -- the ids that are left are those of the other buffers
  have hmem : ∀ {id : ℕ}, id ≠ b.id ∧ id ∈ (b :: l).map Buffer.id ↔ id ∈ l.map Buffer.id := by
    intro id
    rw [map_cons, mem_cons]
    constructor
    · rintro ⟨hne, hid | hid⟩
      · exact absurd hid hne
      · exact hid
    · intro hid
      exact ⟨fun heq => hnodup.1 (heq ▸ hid), Or.inr hid⟩
  unfold Storage.freeId at hs
  split at hs
  · cases hs
  · rename_i keyToFree hkey
    split_ifs at hs with hkeys
    cases hs
    refine ⟨⟨hnodup.2, fun id => ?_, fun id => ?_, fun key address id => ?_⟩, rfl, rfl,
      fun id hid => lookup_erase_ne hid, fun id hid => lookup_erase_ne hid⟩
    · show id ∈ s.idIndex.erase b.id ↔ _
      rw [mem_erase, h.idIndex, hmem]
    · show id ∈ s.writerFlag.erase b.id ↔ _
      rw [mem_erase, h.writerFlag, hmem]
    · show (s.keyIndex.erase keyToFree).lookup key = some (address, id) ↔
        (s.idIndex.erase b.id).lookup id = some key ∧ _
      have hfreed := (h.keyIndex keyToFree b.address b.id).2 ⟨hkey, b, .head _, rfl, rfl⟩
      rw [lookup_erase', lookup_erase']
      by_cases hid : id = b.id
      · rw [if_pos hid]
        refine iff_of_false (fun heq => ?_) (fun heq => by cases heq.1)
        split_ifs at heq with hk
        have hid' := ((h.keyIndex _ _ _).1 heq).1
        rw [hid] at hid'
        exact hk (some.inj (hid'.symm.trans hkey))
      · rw [if_neg hid]
        constructor
        · intro heq
          split_ifs at heq with hk
          obtain ⟨hlookup, b', hb', hid', haddress⟩ := (h.keyIndex _ _ _).1 heq
          rcases mem_cons.1 hb' with rfl | hb'
          · exact absurd hid'.symm hid
          · exact ⟨hlookup, b', hb', hid', haddress⟩
        · rintro ⟨hlookup, b', hb', hid', haddress⟩
          have heq := (h.keyIndex key address id).2
            ⟨hlookup, b', .tail _ hb', hid', haddress⟩
          rw [if_neg, heq]
          rintro rfl
          exact hid (mk.inj (some.inj (heq.symm.trans hfreed))).2

theorem IndexOk.foldlM_freeId {l₁ l₂ : List Buffer} (h : IndexOk s (l₁ ++ l₂))
    (hs : (l₁.map Buffer.id).foldlM Storage.freeId s = some s') :
    IndexOk s' l₂ ∧ s'.ringBuffer = s.ringBuffer ∧ s'.nReaders = s.nReaders ∧
      (∀ id, id ∉ l₁.map Buffer.id → s'.idIndex.lookup id = s.idIndex.lookup id) ∧
      ∀ id, id ∉ l₁.map Buffer.id → s'.writerFlag.lookup id = s.writerFlag.lookup id := by
  induction l₁ generalizing s with
  | nil =>
    cases hs
    exact ⟨h, rfl, rfl, fun _ _ => rfl, fun _ _ => rfl⟩
  | cons b bs ih =>
    obtain ⟨s₁, hs₁, hs'⟩ := bind_eq_some_iff.1 hs
    obtain ⟨h₁, hring₁, hn₁, hid₁, hflag₁⟩ := IndexOk.freeId h hs₁
    obtain ⟨h₂, hring₂, hn₂, hid₂, hflag₂⟩ := ih h₁ hs'
    refine ⟨h₂, hring₂.trans hring₁, hn₂.trans hn₁, fun id hid => ?_, fun id hid => ?_⟩
    · rw [map_cons, mem_cons, not_or] at hid
      exact (hid₂ id hid.2).trans (hid₁ id hid.1)
    · rw [map_cons, mem_cons, not_or] at hid
      exact (hflag₂ id hid.2).trans (hflag₁ id hid.1)

namespace StorageOk

theorem freed (h : StorageOk s l) {nbytes : ℕ} {r' : RingBuffer β} {freed : List ℕ}
    (hr : s.ringBuffer.freeBuf s.defaultIsFreeCheck nbytes = some (r', freed)) :
    ∀ id ∈ freed, ∃ o, s.object id = some o ∧ o.writer * s.nReaders ≤ o.count := by
  obtain ⟨l₁, l₂, rfl, -, rfl, -, -, hchecked⟩ := h.ring.freeBuf hr
  intro id hid
  obtain ⟨b, hb, rfl⟩ := List.mem_map.1 hid
  obtain ⟨chunk, hchunk, hcheck⟩ := hchecked b hb
  have hb' : b ∈ l₁ ++ l₂ := mem_append_left _ hb
  obtain ⟨o, ho⟩ := h.mem_idIndex.1 ((h.index.idIndex b.id).2 (List.mem_map_of_mem hb'))
  obtain ⟨-, hmeta, hflag, chunk', hchunk', hcount⟩ := object_eq_some.1 ho
  have haddress := (h.ring.metadata _ _).2 ⟨b, hb', rfl, rfl⟩
  rw [some.inj (hmeta.symm.trans haddress), hchunk] at hchunk'
  refine ⟨o, ho, ?_⟩
  unfold Storage.defaultIsFreeCheck at hcheck
  rw [hflag, map_some, some.inj hchunk', hcount] at hcheck
  exact of_decide_eq_true (some.inj hcheck)

theorem freeUnused (h : StorageOk s l) (hs : s.freeUnused = some s') :
    ∃ l', StorageOk s' l' ∧ l'.length ≤ l.length ∧ s'.nReaders = s.nReaders ∧
      s'.ringBuffer.monotonicIdEnd = s.ringBuffer.monotonicIdEnd ∧ ∀ id, s'.object id = s.object id ∨
      s'.object id = none ∧ ∃ o, s.object id = some o ∧ o.writer * s.nReaders ≤ o.count := by
  unfold Storage.freeUnused at hs
  split at hs
  · cases hs
  · rename_i r' freed hr
    have hfreed := h.freed hr
    obtain ⟨l₁, l₂, rfl, hring, rfl, hend, haccess, -⟩ := h.ring.freeBuf hr
    have hindex : IndexOk { s with ringBuffer := r' } (l₁ ++ l₂) :=
      ⟨h.index.nodup, h.index.idIndex, h.index.writerFlag, h.index.keyIndex⟩
    obtain ⟨hindex', hring', hn, hid, hflag⟩ := hindex.foldlM_freeId hs
    have hok : StorageOk s' l₂ := ⟨by rw [hring']; exact hring, hindex'⟩
    refine ⟨l₂, hok, by simp, hn, by rw [hring']; exact hend, fun id => ?_⟩
    by_cases hmem : id ∈ l₁.map Buffer.id
    · refine Or.inr ⟨?_, hfreed id hmem⟩
      refine eq_none_iff_forall_ne_some.2 fun o ho => ?_
      have hl₂ := (hindex'.idIndex id).1 (hok.mem_idIndex.2 ⟨o, ho⟩)
      have hnodup := h.index.nodup
      rw [map_append] at hnodup
      exact disjoint_of_nodup_append hnodup hmem hl₂
    · refine Or.inl (ext fun o => ?_)
      rw [object_eq_some, object_eq_some, hid id hmem, hflag id hmem, hring']
      have hmeta : r'.metadata.lookup id = some o.address ↔
          s.ringBuffer.metadata.lookup id = some o.address := by
        rw [hring.metadata, h.ring.metadata]
        constructor
        · rintro ⟨b, hb, hbid⟩
          exact ⟨b, mem_append_right _ hb, hbid⟩
        · rintro ⟨b, hb, hbid, haddress⟩
          rcases mem_append.1 hb with hb | hb
          · exact absurd (List.mem_map.2 ⟨b, hb, hbid⟩) hmem
          · exact ⟨b, hb, hbid, haddress⟩
      rw [hmeta, haccess]

/-! ### Putting -/

theorem putAt (h : StorageOk s l) (hlength : l.length + 1 < idMax) {size address id : ℕ} {value : β}
    {r' : RingBuffer β} (hr : s.ringBuffer.allocateBuf size value = .ok (r', address, id)) {key : κ}
    (hkey : key ∉ s.keyIndex) :
    StorageOk (s.putAt r' key address id) (l ++ [⟨id, address, size + mdSize⟩]) ∧
      s.object id = none ∧ ∀ a, (s.putAt r' key address id).object a =
        if a = id then some ⟨key, address, 1, 0⟩ else s.object a := by
  obtain ⟨hring, hother, hnew, hmeta⟩ := h.ring.allocateBuf hlength hr
  -- the id of the new buffer is fresh
  have hid : id ∉ l.map Buffer.id := by
    intro hmem
    obtain ⟨b, hb, hbid⟩ := List.mem_map.1 hmem
    exact (hother b hb).1 hbid
  have hidIndex : id ∉ s.idIndex := fun hmem => hid ((h.index.idIndex id).1 hmem)
  have hflag : s.writerFlag.lookup id = none :=
    lookup_eq_none.2 fun hmem => hid ((h.index.writerFlag id).1 hmem)
  have hnone : s.object id = none :=
    eq_none_iff_forall_ne_some.2 fun o ho => hidIndex (h.mem_idIndex.2 ⟨o, ho⟩)
  have hwriter : ∀ a, (s.putAt r' key address id).writerFlag.lookup a =
      if a = id then some 1 else s.writerFlag.lookup a := fun a => by
    show (s.writerFlag.setItem id ((s.writerFlag.lookup id).getD 0 + 1)).lookup a = _
    rw [lookup_setItem, hflag]
    rfl
  have hlookup : ∀ a, (s.putAt r' key address id).idIndex.lookup a =
      if a = id then some key else s.idIndex.lookup a := fun a =>
    lookup_setItem s.idIndex id a key
  refine ⟨⟨hring, ?_, fun a => ?_, fun a => ?_, fun key' address' a => ?_⟩, hnone, fun a => ?_⟩
  · rw [map_append]
    refine nodup_append.2 ⟨h.index.nodup, nodup_singleton id, fun a ha b hb heq => ?_⟩
    obtain rfl : b = id := mem_singleton.1 hb
    exact hid (heq ▸ ha)
  · show a ∈ s.idIndex.setItem id key ↔ _
    rw [mem_setItem, h.index.idIndex, map_append, mem_append, or_comm]
    exact or_congr Iff.rfl mem_singleton.symm
  · show a ∈ s.writerFlag.setItem id _ ↔ _
    rw [mem_setItem, h.index.writerFlag, map_append, mem_append, or_comm]
    exact or_congr Iff.rfl mem_singleton.symm
  · show (s.keyIndex.setItem key (address, id)).lookup key' = some (address', a) ↔ _
    rw [lookup_setItem, hlookup]
    -- the new key, or a key that was there
    by_cases ha : a = id
    · rw [ha, if_pos rfl]
      constructor
      · intro heq
        split_ifs at heq with hk
        · obtain ⟨rfl, -⟩ := mk.inj (some.inj heq)
          exact ⟨congrArg some hk.symm, _, mem_append_right _ (.head _), rfl, rfl⟩
        · have hold := ((h.index.keyIndex _ _ _).1 heq).1
          exact absurd (lookup_isSome.1 (by rw [hold]; rfl)) hidIndex
      · rintro ⟨hk, b, hb, hbid, haddress⟩
        rw [if_pos (some.inj hk).symm, ← haddress]
        rcases mem_append.1 hb with hb | hb
        · exact absurd (List.mem_map.2 ⟨b, hb, hbid⟩) hid
        · rw [mem_singleton.1 hb]
    · rw [if_neg ha]
      constructor
      · intro heq
        split_ifs at heq with hk
        · exact absurd (mk.inj (some.inj heq)).2.symm ha
        · obtain ⟨hold, b, hb, hbid⟩ := (h.index.keyIndex _ _ _).1 heq
          exact ⟨hold, b, mem_append_left _ hb, hbid⟩
      · rintro ⟨hold, b, hb, hbid, haddress⟩
        rcases mem_append.1 hb with hb | hb
        · have heq := (h.index.keyIndex key' address' a).2 ⟨hold, b, hb, hbid, haddress⟩
          rw [if_neg, heq]
          rintro rfl
          exact hkey (lookup_isSome.1 (by rw [heq]; rfl))
        · rw [mem_singleton.1 hb] at hbid
          exact absurd hbid.symm ha
  · refine ext fun o => ?_
    rw [object_eq_some, hlookup, hwriter]
    show _ ∧ r'.metadata.lookup a = _ ∧ _ ∧ (∃ chunk, r'.accessBuf _ = _ ∧ _) ↔ _
    rw [hmeta]
    by_cases ha : a = id
    · simp only [if_pos ha]
      constructor
      · rintro ⟨hk, haddress, hw, chunk, hchunk, hcount⟩
        rw [← some.inj haddress, hnew] at hchunk
        cases o
        simp only [some.injEq] at hk haddress hw hchunk hcount ⊢
        rw [← hk, ← haddress, ← hw, ← hcount, ← hchunk]
      · rintro ⟨rfl⟩
        exact ⟨rfl, rfl, rfl, _, hnew, rfl⟩
    · simp only [if_neg ha]
      rw [object_eq_some]
      refine and_congr_right fun _ => and_congr_right fun hmeta' => and_congr_right fun _ => ?_
      obtain ⟨b, hb, -, haddress⟩ := (h.ring.metadata a o.address).1 hmeta'
      rw [← haddress, (hother b hb).2]

end StorageOk

end LoptVllm.ShmStorage
