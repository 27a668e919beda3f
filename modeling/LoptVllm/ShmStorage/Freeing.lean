import LoptVllm.ShmStorage.Accounts

/-!
# Objects are freed in time
-/

namespace LoptVllm.ShmStorage

open List Option Function AList Prod Nat Storage

variable {κ β : Type} [DecidableEq κ] {n : ℕ}

/-- No object is freed that a reader still has to get for a request that was sent; and once all
readers have processed all requests, every object can be freed. -/
structure System.FreedInTime (s : System κ β n) : Prop where
  notEarly : ∀ nbytes ringBuffer freed,
    s.storage.ringBuffer.freeBuf s.storage.defaultIsFreeCheck nbytes = some (ringBuffer, freed) →
    ∀ id ∈ freed, ∀ i address, Op.get address id ∉ s.readers i
  notNever : s.making = none → (∀ i, s.readers i = []) → ∀ id address,
    s.storage.ringBuffer.metadata.lookup id = some address →
    ∃ chunk, s.storage.ringBuffer.accessBuf address = some chunk ∧
      s.storage.defaultIsFreeCheck id chunk.readerCount = some true

/-- The steps after which the counters agree. When the readers have counted `n` for an object, they
must have made all the touches of its first request, and no others; and the ids of the objects must
not be used up. -/
def Meets (s : System κ β n) (h : History) : Event κ β n → Prop
  | .update => s.storage.ringBuffer.metadata.entries.length + 1 < idMax
  | .read i =>
    match s.readers i with
    | .get address id :: _ => ∀ chunk, s.storage.ringBuffer.accessBuf address = some chunk →
        chunk.readerCount + 1 = n → h.touches id = n * h.firstUses id
    | _ => True
  | _ => True

namespace SystemOk

variable {s s' : System κ β n} {h : History}

theorem freedInTime (hs : SystemOk s h) : s.FreedInTime where
  notEarly nbytes ringBuffer freed hr id hid i address hmem := by
    obtain ⟨bs, hok⟩ := hs.storage
    obtain ⟨o, ho, hfree⟩ := hok.freed hr id hid
    rw [hs.nReaders] at hfree
    exact (hs.unused ho hfree).1 i _ hmem rfl
  notNever hmaking hreaders id address hmeta := by
    obtain ⟨bs, hok⟩ := hs.storage
    obtain ⟨b, hb, hbid, -⟩ := (hok.ring.metadata _ _).1 hmeta
    have hmem : id ∈ bs.map Buffer.id := List.mem_map.2 ⟨b, hb, hbid⟩
    obtain ⟨o, ho⟩ := hok.mem_idIndex.1 ((hok.index.idIndex id).2 hmem)
    obtain ⟨l, hl⟩ := hs.accounted id o ho
    obtain ⟨-, hmeta', hflag, chunk, hchunk, hcount⟩ := object_eq_some.1 ho
    obtain rfl := some.inj (hmeta'.symm.trans hmeta)
    refine ⟨chunk, hchunk, ?_⟩
    have hpending : l.pending = 0 := by
      rw [hl.pending]
      exact Finset.sum_eq_zero fun i _ => by rw [hreaders, countP_nil]
    have hunsent := hl.unsent
    rw [hmaking] at hunsent
    have hfree := hl.ok.free hpending hunsent.2
    unfold Ledger.Free at hfree
    rw [hl.writer, hl.count, ← hcount] at hfree
    unfold Storage.defaultIsFreeCheck
    rw [hflag, map_some, hs.nReaders, decide_eq_true hfree]

/-! ### The sender -/

theorem begin (hs : SystemOk s h) (hmaking : s.making = none) (items : List (κ × β)) :
    SystemOk { s with
      making := some ⟨items.map fst, items.map fst, items, []⟩ } h := by
  refine hs.remake (fun id o ho firstUses unsent hunsent => ?_) (fun m hm address id hmem => ?_)
  · rw [hmaking] at hunsent
    obtain ⟨hpos, rfl⟩ := hunsent
    exact ⟨fun hzero => absurd hzero hpos.ne', fun _ => ⟨0, zero_add _, zero_add _, rfl⟩⟩
  · cases hm
    cases hmem

variable {mmHashes : List κ} {itemHash : κ} {toUpdate : List (κ × β)} {features : List Feature}

theorem touch (hs : SystemOk s h) {toTouch : List κ}
    (hmaking : s.making = some ⟨mmHashes, itemHash :: toTouch, toUpdate, features⟩) :
    SystemOk { s with
      storage := s.storage.touch itemHash
      making := some ⟨mmHashes, toTouch, toUpdate, features⟩ } h := by
  obtain ⟨bs, hok⟩ := hs.storage
  -- only the object with the hash is touched once more
  have hunsent : ∀ key firstUses unsent id, Unsent s.making id key firstUses unsent →
      Unsent (some (⟨mmHashes, toTouch, toUpdate, features⟩ : Making κ β)) id key firstUses
        (if key = itemHash then unsent + 1 else unsent) := by
    intro key firstUses unsent id hunsent
    rw [hmaking] at hunsent
    refine ⟨fun hzero => ?_, fun hpos => ?_⟩
    · cases (hunsent.fresh hzero).1
    · obtain ⟨touched, htouched, hupdated, rfl⟩ := hunsent.known hpos
      simp only [count_cons, beq_iff_eq] at htouched
      split_ifs with hkey
      · rw [if_pos hkey.symm] at htouched
        refine ⟨touched + 1, ?_, hupdated, add_right_comm _ _ _⟩
        show touched + 1 + toTouch.count key = mmHashes.count key
        omega
      · rw [if_neg (Ne.symm hkey)] at htouched
        exact ⟨touched, htouched, hupdated, rfl⟩
  have hfeatures : ∀ m, some (⟨mmHashes, toTouch, toUpdate, features⟩ : Making κ β) = some m →
      ∀ address id, some (address, id) ∈ m.features →
      ∃ o, s.storage.object id = some o ∧ o.address = address := by
    intro m hm address id hmem
    cases hm
    exact hs.features _ hmaking address id hmem
  unfold Storage.touch
  cases hlookup : s.storage.keyIndex.lookup itemHash with
  | none =>
    refine hs.remake (fun id o ho firstUses unsent hu => ?_) hfeatures
    have hne := hok.key_ne (lookup_eq_none.1 hlookup) ho
    have := hunsent o.key firstUses unsent id hu
    rwa [if_neg hne] at this
  | some p =>
    obtain ⟨address, id₀⟩ := p
    obtain ⟨o₀, ho₀, hkey₀, -⟩ := hok.lookup_keyIndex.1 hlookup
    refine hs.increment ho₀ (fun id o ho firstUses unsent hu => ?_) hfeatures
    have := hunsent o.key firstUses unsent id hu
    have hiff : o.key = itemHash ↔ id = id₀ := by
      constructor
      · intro hkey
        exact hok.id_inj ho ho₀ (hkey.trans hkey₀.symm)
      · rintro rfl
        rw [← hkey₀, some.inj (ho.symm.trans ho₀)]
    rwa [if_congr hiff rfl rfl] at this

variable {id : ℕ}

/-- What an updated item changes: the object with its hash is in the request once more. -/
theorem unsent_update {item : β} {feature : Feature} {key : κ} {firstUses unsent : ℕ}
    (hkey : key = itemHash ↔ feature.map snd = some id)
    (hunsent : Unsent (some (⟨mmHashes, [], (itemHash, item) :: toUpdate, features⟩ : Making κ β)) id
      key firstUses unsent) :
    Unsent (some (⟨mmHashes, [], toUpdate, features ++ [feature]⟩ : Making κ β)) id key firstUses
      (if feature.map snd = some id then unsent + 1 else unsent) := by
  refine ⟨fun hzero => ?_, fun hpos => ?_⟩
  · obtain ⟨-, rfl, hused⟩ := hunsent.fresh hzero
    refine ⟨rfl, ?_, ?_⟩
    · show _ = uses (features ++ [feature]) id
      rw [uses_append]
      split_ifs <;> rfl
    · split_ifs
      · exact succ_pos _
      · exact hused
  · obtain ⟨touched, htouched, hupdated, rfl⟩ := hunsent.known hpos
    rw [map_cons, count_cons] at hupdated
    refine ⟨touched, htouched, ?_, ?_⟩
    · show uses (features ++ [feature]) id + (toUpdate.map fst).count key = mmHashes.count key
      rw [uses_append, ← hupdated]
      simp only [beq_iff_eq, eq_comm (a := itemHash), hkey]
      omega
    · show _ = touched + uses (features ++ [feature]) id
      rw [uses_append]
      split_ifs <;> rfl

section

variable {mmHashes : List κ} {itemHash : κ} {item : β} {toUpdate : List (κ × β)}
  {features : List Feature} {storage : Storage κ β}

theorem update_cached (hs : SystemOk s h)
    (hmaking : s.making = some ⟨mmHashes, [], (itemHash, item) :: toUpdate, features⟩)
    {address id : ℕ} (hlookup : s.storage.keyIndex.lookup itemHash = some (address, id)) :
    SystemOk { s with
      storage := s.storage.incrementWriterFlag id
      making := some ⟨mmHashes, [], toUpdate, features ++ [some (address, id)]⟩ }
      (h.after s .update) := by
  obtain ⟨bs, hok⟩ := hs.storage
  obtain ⟨o₀, ho₀, hkey₀, haddress₀⟩ := hok.lookup_keyIndex.1 hlookup
  refine SystemOk.increment (hs.congr (fun a ha => if_pos ha) fun a ha => if_pos ha) ho₀
    (fun a o ho firstUses unsent hunsent => ?_) fun m hm address' a hmem => ?_
  · rw [hmaking] at hunsent
    have hiff : o.key = itemHash ↔ (some (address, id) : Feature).map snd = some a := by
      rw [map_some, some.injEq]
      constructor
      · intro hkey
        exact hok.id_inj ho₀ ho (hkey₀.trans hkey.symm)
      · rintro rfl
        rw [← hkey₀, some.inj (ho.symm.trans ho₀)]
    have hid : (some (address, id) : Feature).map snd = some a ↔ a = id := by
      rw [map_some, some.injEq, eq_comm]
    have := unsent_update hiff hunsent
    rwa [if_congr hid rfl rfl] at this
  · cases hm
    rcases mem_append.1 hmem with hmem | hmem
    · exact hs.features _ hmaking address' a hmem
    · obtain ⟨rfl, rfl⟩ := mk.inj (some.inj (mem_singleton.1 hmem))
      exact ⟨o₀, ho₀, haddress₀⟩

section

variable (hs : SystemOk { s with storage := storage } h)
  (hmaking : s.making = some ⟨mmHashes, [], (itemHash, item) :: toUpdate, features⟩)
  (hids : ∀ a ∈ storage.idIndex, a ∈ s.storage.idIndex) (hkey : itemHash ∉ storage.keyIndex)

include hs hmaking hids hkey

/-- The item cannot be put into the storage, and is sent itself. -/
theorem update_failed : SystemOk { s with
      storage := storage
      making := some ⟨mmHashes, [], toUpdate, features ++ [none]⟩ } (h.after s .update) := by
  obtain ⟨bs, hok⟩ := hs.storage
  refine SystemOk.remake (hs.congr (fun a ha => if_pos (hids a ha)) fun a ha => if_pos (hids a ha))
    (fun a o ho firstUses unsent hunsent => ?_) fun m hm address' a hmem => ?_
  · have hunsent' : Unsent s.making a o.key firstUses unsent := hunsent
    rw [hmaking] at hunsent'
    exact unsent_update (iff_of_false (hok.key_ne hkey ho) nofun) hunsent'
  · cases hm
    rcases mem_append.1 hmem with hmem | hmem
    · exact hs.features _ hmaking address' a hmem
    · cases mem_singleton.1 hmem

theorem update_put
    (hend : storage.ringBuffer.monotonicIdEnd ∉ s.storage.idIndex)
    (hspace : ∃ bs, StorageOk storage bs ∧ bs.length + 1 < idMax) {size address id : ℕ}
    {r' : RingBuffer β} (hr : storage.ringBuffer.allocateBuf size item = .ok (r', address, id)) :
    SystemOk { s with
      storage := storage.putAt r' itemHash address id
      making := some ⟨mmHashes, [], toUpdate, features ++ [some (address, id)]⟩ }
      (h.after s .update) := by
  obtain ⟨bs, hok⟩ := hs.storage
  rw [← RingOk.allocateBuf_id hr] at hend
  have hnone : storage.object id = none := by
    obtain ⟨bs, hok, hlength⟩ := hspace
    exact (hok.putAt hlength hr hkey).2.1
  refine hs.put hspace hr hkey (fun a ha => ⟨if_pos (hids a ha), if_pos (hids a ha)⟩)
    ⟨if_neg hend, if_neg hend⟩ ?_ (fun a o ha ho firstUses unsent hunsent => ?_)
    fun m hm address' a hmem => ?_
  · refine ⟨fun _ => ⟨rfl, ?_, one_pos⟩, nofun⟩
    rw [uses_append, (hs.unknown hnone).2.2 _ hmaking, map_some, if_pos rfl]
  · have hunsent' : Unsent s.making a o.key firstUses unsent := hunsent
    rw [hmaking] at hunsent'
    have hne : (some (address, id) : Feature).map snd ≠ some a := fun heq =>
      ha (some.inj heq).symm
    have := unsent_update (iff_of_false (hok.key_ne hkey ho) hne) hunsent'
    rwa [if_neg hne] at this
  · cases hm
    rcases mem_append.1 hmem with hmem | hmem
    · exact Or.inr (hs.features _ hmaking address' a hmem)
    · exact Or.inl (mk.inj (some.inj (mem_singleton.1 hmem)))

end

end

theorem update (hs : SystemOk s h) {item : β} {storage : Storage κ β} {feature : Feature}
    (hmaking : s.making = some ⟨mmHashes, [], (itemHash, item) :: toUpdate, features⟩)
    (hspace : s.storage.ringBuffer.metadata.entries.length + 1 < idMax)
    (hr : s.storage.getAndUpdateItem itemHash item = some (storage, feature)) :
    SystemOk { s with
      storage := storage
      making := some ⟨mmHashes, [], toUpdate, features ++ [feature]⟩ } (h.after s .update) := by
  obtain ⟨bs, hok⟩ := hs.storage
  have hlength : bs.length + 1 < idMax := lt_of_le_of_lt (succ_le_succ hok.ring.length_le) hspace
  unfold getAndUpdateItem isCached at hr
  -- the item is in the storage, or it is put there
  by_cases hkey : itemHash ∈ s.storage.keyIndex
  · rw [if_pos (decide_eq_true hkey)] at hr
    obtain ⟨⟨address, id⟩, hlookup⟩ := isSome_iff_exists.1 (lookup_isSome.2 hkey)
    unfold Storage.getCached at hr
    rw [hlookup] at hr
    cases hr
    exact hs.update_cached hmaking hlookup
  · rw [if_neg (by simpa using hkey)] at hr
    unfold Storage.put at hr
    simp only at hr
    split_ifs at hr with hlarge
    · cases hr
      exact hs.update_failed hmaking (fun _ ha => ha) hkey
    · cases halloc : s.storage.ringBuffer.allocateBuf (flagBytes + s.storage.serialize item) item with
      | ok result =>
        rw [halloc] at hr
        cases hr
        exact hs.update_put hmaking (fun _ ha => ha) hkey hok.idEnd_notMem ⟨bs, hok, hlength⟩ halloc
      | error e =>
        rw [halloc] at hr
        cases e with
        | assertionError | overflowError => cases hr
        | memoryError =>
          cases hfree : s.storage.freeUnused with
          | none =>
            rw [hfree] at hr
            cases hr
          | some freed =>
            simp only [hfree] at hr
            have hs' := hs.free hfree
            obtain ⟨bs', hok', hle, -, hend, hobject⟩ := hok.freeUnused hfree
            have hold : ∀ {id : ℕ} {o : Object κ}, freed.object id = some o →
                s.storage.object id = some o := by
              intro id o ho
              rcases hobject id with heq | ⟨hnone, -⟩
              · exact heq ▸ ho
              · rw [hnone] at ho
                cases ho
            have hids : ∀ a ∈ freed.idIndex, a ∈ s.storage.idIndex := by
              intro a ha
              obtain ⟨o, ho⟩ := hok'.mem_idIndex.1 ha
              exact hok.mem_idIndex.2 ⟨o, hold ho⟩
            have hkey' : itemHash ∉ freed.keyIndex := by
              intro hmem
              obtain ⟨⟨address, id⟩, hlookup⟩ := isSome_iff_exists.1 (lookup_isSome.2 hmem)
              obtain ⟨o, ho, hkey₀, -⟩ := hok'.lookup_keyIndex.1 hlookup
              exact hok.key_ne hkey (hold ho) hkey₀
            cases halloc' : freed.ringBuffer.allocateBuf
                (flagBytes + s.storage.serialize item) item with
            | ok result =>
              rw [halloc'] at hr
              cases hr
              exact hs'.update_put hmaking hids hkey' (by rw [hend]; exact hok.idEnd_notMem)
                ⟨bs', hok', by omega⟩ halloc'
            | error e =>
              rw [halloc'] at hr
              cases e with
              | assertionError | overflowError => cases hr
              | memoryError =>
                cases hr
                exact hs'.update_failed hmaking hids hkey'

/-! ### The readers -/

variable {address : ℕ} {r' : RingBuffer β}

theorem incrementReaderFlag (hs : SystemOk s h) {count : ℕ} {o : Object κ}
    (ho : s.storage.object id = some o) (haddress : o.address = address)
    (hr : s.storage.ringBuffer.incrementReaderFlag address count = some r') :
    (∃ bs, StorageOk { s.storage with ringBuffer := r' } bs) ∧
      ∀ a, object { s.storage with ringBuffer := r' } a =
        if a = id then some { o with count := count + 1 } else s.storage.object a := by
  obtain ⟨bs, hok⟩ := hs.storage
  unfold RingBuffer.incrementReaderFlag at hr
  split_ifs at hr
  cases hr
  rw [← haddress]
  exact ⟨⟨bs, hok.setReaderCount o.address (count + 1)⟩, hok.object_setReaderCount ho (count + 1)⟩

variable {i : Fin n} {ops : List Op}

/-- What a reader still has to do with the object of its next operation. -/
theorem pending_pos {op : Op} (hop : s.readers i = op :: ops) {o : Object κ} {l : Ledger}
    (hl : Accounted s h op.id o l) :
    0 < l.pending ∧ if op.isGet then 0 < l.pendingGets else l.pendingGets < l.pending := by
  have hpending := pendingOf_update hop op.id
  have hgets := pendingGetsOf_update hop op.id
  have hle := pendingGetsOf_le (Function.update s.readers i ops) op.id
  rw [← hl.pending, if_pos rfl] at hpending
  rw [← hl.pendingGets] at hgets
  split_ifs with hget
  · rw [if_pos ⟨rfl, hget⟩] at hgets
    omega
  · rw [if_neg fun h => hget h.2] at hgets
    omega

section

variable (hs : SystemOk s h)
include hs

theorem read_touch (hop : s.readers i = .touch address id :: ops)
    (hr : s.storage.ringBuffer.touchReader n address = some r') :
    SystemOk { s with
      storage := { s.storage with ringBuffer := r' }
      readers := Function.update s.readers i ops }
      { h with touches := Function.update h.touches id (h.touches id + 1) } := by
  obtain ⟨o, chunk, ho, haddress, hchunk, hcount, -⟩ := hs.next hop
  have hchunk' : s.storage.ringBuffer.accessBuf address = some chunk := hchunk
  unfold RingBuffer.touchReader at hr
  simp only [hchunk'] at hr
  rw [hcount] at hr
  have hobject : (∃ bs, StorageOk { s.storage with ringBuffer := r' } bs) ∧
      ∀ a, object { s.storage with ringBuffer := r' } a =
        if a = id then some { o with count := if o.count ≥ n then o.count + 1 else o.count }
        else s.storage.object a := by
    split_ifs at hr ⊢ with hge
    · exact hs.incrementReaderFlag ho haddress hr
    · cases hr
      refine ⟨hs.storage, fun a => ?_⟩
      split_ifs with ha
      · rw [ha]
        exact ho
      · rfl
  refine hs.count hop ho hobject.1 hobject.2 (fun l hl => ?_) (fun a ha => update_of_ne ha _ _) rfl
  obtain ⟨hpos, hgets⟩ := pending_pos hop hl
  refine ⟨l.touch n, hl.ok.touch hgets, ?_, rfl, rfl, rfl, Nat.sub_add_cancel hpos, rfl, ?_⟩
  · show (if l.count ≥ n then l.count + 1 else l.count) = _
    rw [hl.count]
  · show l.touches + 1 = Function.update h.touches id (h.touches id + 1) id
    rw [update_self, hl.touches]
    rfl

theorem read_get (hop : s.readers i = .get address id :: ops)
    (hmeets : ∀ chunk, s.storage.ringBuffer.accessBuf address = some chunk →
      chunk.readerCount + 1 = n → h.touches id = n * h.firstUses id) {object : β}
    (hr : s.storage.ringBuffer.getReader address id = some (r', object)) :
    SystemOk { s with
      storage := { s.storage with ringBuffer := r' }
      readers := Function.update s.readers i ops } h := by
  obtain ⟨o, chunk, ho, haddress, hchunk, hcount, -⟩ := hs.next hop
  have hchunk' : s.storage.ringBuffer.accessBuf address = some chunk := hchunk
  unfold RingBuffer.getReader at hr
  simp only [hchunk'] at hr
  split_ifs at hr
  obtain ⟨r, hr', heq⟩ := map_eq_some_iff.1 hr
  cases heq
  rw [hcount] at hr'
  obtain ⟨hok, hobject⟩ := hs.incrementReaderFlag ho haddress hr'
  refine hs.count hop ho hok hobject (fun l hl => ?_) (fun _ _ => rfl) rfl
  obtain ⟨hpos, hgets⟩ := pending_pos hop hl
  have htouches : l.count + 1 = n → l.touches = n * l.firstUses := by
    intro hn
    rw [hl.count, ← hcount] at hn
    rw [hl.touches, hl.firstUses]
    exact hmeets chunk hchunk' hn
  exact ⟨l.get, hl.ok.get hgets htouches, congrArg (· + 1) hl.count, rfl, rfl, rfl,
    Nat.sub_add_cancel hpos, Nat.sub_add_cancel hgets, hl.touches⟩

theorem read (hmeets : Meets s h (.read i))
    (hr : s.read i = some s') : SystemOk s' (h.after s (.read i)) := by
  unfold System.read at hr
  unfold Meets at hmeets
  unfold History.after
  cases hop : s.readers i with
  | nil =>
    rw [hop] at hr
    cases hr
  | cons op ops =>
    cases op with
    | touch address id =>
      simp only [hop] at hr hmeets ⊢
      obtain ⟨r', hr', rfl⟩ := map_eq_some_iff.1 hr
      exact hs.read_touch hop hr'
    | get address id =>
      simp only [hop] at hr hmeets ⊢
      obtain ⟨r', hget, rfl⟩ := map_eq_some_iff.1 hr
      obtain ⟨⟨r', object⟩, hget', rfl⟩ := map_eq_some_iff.1 hget
      exact hs.read_get hop hmeets hget'

/-- A step keeps the ledgers. -/
theorem step {event : Event κ β n} (hmeets : Meets s h event)
    (hr : s.step event = some s') : SystemOk s' (h.after s event) := by
  unfold System.step at hr
  cases event with
  | begin items =>
    simp only at hr
    split at hr
    · cases hr
    · rename_i hmaking
      cases hr
      exact hs.begin hmaking items
  | touch =>
    simp only at hr
    split at hr
    · rename_i hmaking
      cases hr
      exact hs.touch hmaking
    · cases hr
  | update =>
    simp only at hr
    split at hr
    · rename_i hmaking
      obtain ⟨⟨storage, feature⟩, hr', rfl⟩ := map_eq_some_iff.1 hr
      exact hs.update hmaking hmeets hr'
    · cases hr
  | send mmFeatures =>
    simp only at hr
    split at hr
    · rename_i hmaking
      split_ifs at hr with hperm
      cases hr
      exact hs.send hmaking hperm
    · cases hr
  | freeUnused =>
    obtain ⟨storage, hr', rfl⟩ := map_eq_some_iff.1 hr
    exact hs.free hr'
  | read i => exact hs.read hmeets hr

end

end SystemOk

/-! ### Runs -/

/-- The states of a run whose steps satisfy a condition. -/
inductive Reached (P : System κ β n → History → Event κ β n → Prop) : System κ β n → History → Prop
  | start (hn : 0 < n) {bytes : ℕ} (hbytes : 0 < bytes) (maxObjectSize : ℕ) (serialize : β → ℕ) :
    Reached P (System.new maxObjectSize serialize bytes) ⟨fun _ => 0, fun _ => 0⟩
  | step {s s' : System κ β n} {h : History} (event : Event κ β n) (hs : Reached P s h)
    (hmeets : P s h event) (hr : s.step event = some s') : Reached P s' (h.after s event)

theorem Reached.ok {s : System κ β n} {h : History} (hs : Reached Meets s h) : SystemOk s h := by
  induction hs with
  | start hn hbytes maxObjectSize serialize => exact SystemOk.new hn hbytes maxObjectSize serialize
  | step event _ hmeets hr ih => exact ih.step hmeets hr

/-- In a run whose steps meet the condition, objects are freed neither early nor never. -/
theorem run_freedInTime {s : System κ β n} {h : History} (hs : Reached Meets s h) :
    s.FreedInTime := hs.ok.freedInTime

/-- Two readers, one after the other, read an item. -/
theorem run_freedInTime_two : ∃ s : System ℕ ℕ 2, s.making = none ∧ (∀ i, s.readers i = []) ∧
    s.storage.keyIndex.lookup 7 = some (0, 0) ∧ s.FreedInTime := by
  have h₀ := Reached.start (P := Meets (κ := ℕ)) two_pos (succ_pos 63) 50 (fun value : ℕ => value)
  have h₁ := Reached.step (.begin [(7, 5)]) h₀ trivial rfl
  have h₂ := Reached.step .touch h₁ trivial rfl
  have h₃ := Reached.step .update h₂ (show 0 + 1 < idMax by decide) rfl
  have h₄ := Reached.step (.send [some (0, 0)]) h₃ trivial rfl
  have h₅ := Reached.step (.read 0) h₄ trivial rfl
  have h₆ := Reached.step (.read 0) h₅ (fun chunk hchunk hcount => by
    cases hchunk
    cases hcount) rfl
  have h₇ := Reached.step (.read 1) h₆ trivial rfl
  have h₈ := Reached.step (.read 1) h₇ (fun chunk hchunk _ => rfl) rfl
  exact ⟨_, rfl, Fin.forall_fin_two.2 ⟨rfl, rfl⟩, rfl, run_freedInTime h₈⟩

/-- An item that is twice in its first request can be freed while a reader has to get it; and if a
reader touches it for a second request before the other has got it for the first, it is never freed. -/
theorem freed_early_or_never :
    (∃ (s : System ℕ ℕ 2) (h : History), Reached (fun _ _ _ => True) s h ∧
      Op.get 0 0 ∈ s.readers 1 ∧ ¬ s.FreedInTime) ∧
    ∃ (s : System ℕ ℕ 2) (h : History), Reached (fun _ _ _ => True) s h ∧
      (∀ i, s.readers i = []) ∧ ¬ s.FreedInTime := by
  have start := Reached.start (P := fun (_ : System ℕ ℕ 2) _ _ => True) two_pos
    (succ_pos 63) 50 (fun value : ℕ => value)
  constructor
  · have h₁ := Reached.step (.begin [(7, 5), (7, 5)]) start trivial rfl
    have h₂ := Reached.step .touch h₁ trivial rfl
    have h₃ := Reached.step .touch h₂ trivial rfl
    have h₄ := Reached.step .update h₃ trivial rfl
    have h₅ := Reached.step .update h₄ trivial rfl
    have h₆ := Reached.step (.send [some (0, 0), some (0, 0)]) h₅ trivial rfl
    have h₇ := Reached.step (.read 0) h₆ trivial rfl
    have h₈ := Reached.step (.read 0) h₇ trivial rfl
    have h₉ := Reached.step (.read 0) h₈ trivial rfl
    have h₁₀ := Reached.step (.read 0) h₉ trivial rfl
    have h₁₁ := Reached.step (.read 1) h₁₀ trivial rfl
    have h₁₂ := Reached.step (.read 1) h₁₁ trivial rfl
    refine ⟨_, _, h₁₂, .head _, fun hfreed => ?_⟩
    exact hfreed.notEarly 1 _ [0] rfl 0 (.head _) 1 0 (.head _)
  · have h₁ := Reached.step (.begin [(7, 5)]) start trivial rfl
    have h₂ := Reached.step .touch h₁ trivial rfl
    have h₃ := Reached.step .update h₂ trivial rfl
    have h₄ := Reached.step (.send [some (0, 0)]) h₃ trivial rfl
    have h₅ := Reached.step (.begin [(7, 5)]) h₄ trivial rfl
    have h₆ := Reached.step .touch h₅ trivial rfl
    have h₇ := Reached.step .update h₆ trivial rfl
    have h₈ := Reached.step (.send [some (0, 0)]) h₇ trivial rfl
    have h₉ := Reached.step (.read 0) h₈ trivial rfl
    have h₁₀ := Reached.step (.read 0) h₉ trivial rfl
    have h₁₁ := Reached.step (.read 0) h₁₀ trivial rfl
    have h₁₂ := Reached.step (.read 1) h₁₁ trivial rfl
    have h₁₃ := Reached.step (.read 0) h₁₂ trivial rfl
    have h₁₄ := Reached.step (.read 1) h₁₃ trivial rfl
    have h₁₅ := Reached.step (.read 1) h₁₄ trivial rfl
    have h₁₆ := Reached.step (.read 1) h₁₅ trivial rfl
    refine ⟨_, _, h₁₆, Fin.forall_fin_two.2 ⟨rfl, rfl⟩, fun hfreed => ?_⟩
    obtain ⟨chunk, hchunk, hcheck⟩ := hfreed.notNever rfl (Fin.forall_fin_two.2 ⟨rfl, rfl⟩) 0 0 rfl
    cases hchunk
    cases hcheck

end LoptVllm.ShmStorage
