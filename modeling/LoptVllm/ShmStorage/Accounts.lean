import LoptVllm.ShmStorage.System
import LoptVllm.ShmStorage.StorageInvariant
import LoptVllm.ShmStorage.Ledger
import Mathlib.Algebra.Order.BigOperators.Group.Finset
import Mathlib.Algebra.Group.Action.Defs

/-!
# The accounts of the objects
-/

namespace LoptVllm.ShmStorage

open List Option Function Finset

variable {κ β : Type}

/-! ### What is left to do -/

section

variable {n : ℕ} (readers : Fin n → List Op)

/-- How many operations the readers still have to do with an object. -/
def pendingOf (id : ℕ) : ℕ :=
  ∑ i, (readers i).countP fun op => decide (op.id = id)

/-- How often the readers still have to get an object. -/
def pendingGetsOf (id : ℕ) : ℕ :=
  ∑ i, (readers i).countP fun op => decide (op.id = id) && op.isGet

variable {readers : Fin n → List Op} {i : Fin n} {op : Op}

theorem pendingOf_pos (h : op ∈ readers i) : 0 < pendingOf readers op.id := by
  have hpos : 0 < (readers i).countP fun op' => decide (op'.id = op.id) :=
    countP_pos_iff.2 ⟨op, h, decide_eq_true rfl⟩
  exact lt_of_lt_of_le hpos
    (single_le_sum (f := fun i => (readers i).countP fun op' => decide (op'.id = op.id))
      (fun _ _ => Nat.zero_le _) (mem_univ i))

variable {ops : List Op}

/-- A reader has done an operation. -/
theorem sum_countP_update (h : readers i = op :: ops) (p : Op → Bool) :
    (∑ j, (update readers i ops j).countP p) + (if p op then 1 else 0) =
      ∑ j, (readers j).countP p := by
  rw [← add_sum_erase univ (fun j => (readers j).countP p) (mem_univ i),
    ← add_sum_erase univ (fun j => (update readers i ops j).countP p) (mem_univ i)]
  have hrest : ∑ j ∈ univ.erase i, (update readers i ops j).countP p =
      ∑ j ∈ univ.erase i, (readers j).countP p :=
    sum_congr rfl fun j hj => by
      rw [update_of_ne (ne_of_mem_erase hj)]
  rw [hrest, update_self, h, countP_cons]
  omega

theorem pendingGetsOf_le (readers : Fin n → List Op) (id : ℕ) :
    pendingGetsOf readers id ≤ pendingOf readers id :=
  Finset.sum_le_sum fun i _ => countP_mono_left fun op _ hop => by
    rw [Bool.and_eq_true] at hop
    exact hop.1

theorem pendingOf_update (h : readers i = op :: ops) (id : ℕ) :
    pendingOf (update readers i ops) id + (if op.id = id then 1 else 0) = pendingOf readers id := by
  unfold pendingOf
  simpa using sum_countP_update h fun op => decide (op.id = id)

theorem pendingGetsOf_update (h : readers i = op :: ops) (id : ℕ) :
    pendingGetsOf (update readers i ops) id +
      (if op.id = id ∧ op.isGet then 1 else 0) = pendingGetsOf readers id := by
  unfold pendingGetsOf
  simpa using sum_countP_update h fun op => decide (op.id = id) && op.isGet

theorem countP_readerOps (features : List Feature) (id : ℕ) :
    ((readerOps features).countP fun op => decide (op.id = id)) =
        uses features id + uses features id ∧
      ((readerOps features).countP fun op => decide (op.id = id) && op.isGet) =
        uses features id := by
  have hsome : ∀ {f : ℕ × ℕ → Op} {p : Op → Bool}, (∀ x, p (f x) = decide (x.2 = id)) →
      (features.filterMap fun feature => feature.map f).countP p = uses features id := by
    intro f p hp
    rw [countP_filterMap]
    refine countP_congr fun feature _ => ?_
    cases feature with
    | none => simp
    | some x => simp [hp]
  have hnone : ∀ {f : ℕ × ℕ → Op} {p : Op → Bool}, (∀ x, p (f x) = false) →
      (features.filterMap fun feature => feature.map f).countP p = 0 := by
    intro f p hp
    rw [countP_filterMap, countP_eq_zero]
    intro feature _
    cases feature with
    | none => simp
    | some x => simp [hp]
  unfold readerOps
  rw [countP_append, countP_append]
  constructor
  · rw [hsome fun _ => rfl, hsome fun _ => rfl]
  · rw [hnone fun _ => Bool.and_false _, hsome fun _ => Bool.and_true _, zero_add]

end

/-! ### Ledgers -/

/-- What the writer has counted for the request that it makes: the hashes that it has touched and
the items that it has updated. An object of its first request was not touched. -/
structure Making.Counts (m : Making κ β) (id : ℕ) (key : κ) [DecidableEq κ]
    (firstUses unsent : ℕ) : Prop where
  fresh : firstUses = 0 → m.toTouch = [] ∧ unsent = uses m.features id ∧ 0 < unsent
  known : 0 < firstUses → ∃ touched, touched + m.toTouch.count key = m.mmHashes.count key ∧
    uses m.features id + (m.toUpdate.map Prod.fst).count key = m.mmHashes.count key ∧
    unsent = touched + uses m.features id

/-- What the writer has counted for an object that is not sent. -/
def Unsent [DecidableEq κ] (making : Option (Making κ β)) (id : ℕ) (key : κ)
    (firstUses unsent : ℕ) : Prop :=
  match making with
  | none => 0 < firstUses ∧ unsent = 0
  | some m => m.Counts id key firstUses unsent

variable [DecidableEq κ] {n : ℕ}

/-- The ledger of an object. -/
structure Accounted (s : System κ β n) (h : History) (id : ℕ) (o : Object κ) (l : Ledger) :
    Prop where
  ok : l.Ok n
  count : l.count = o.count
  writer : l.sent + l.unsent = o.writer
  unsent : Unsent s.making id o.key l.firstUses l.unsent
  pending : l.pending = pendingOf s.readers id
  pendingGets : l.pendingGets = pendingGetsOf s.readers id
  touches : l.touches = h.touches id
  firstUses : l.firstUses = h.firstUses id

/-- Every object has a ledger, and the objects that are used are in the storage. -/
structure SystemOk (s : System κ β n) (h : History) : Prop where
  readers_pos : 0 < n
  nReaders : s.storage.nReaders = n
  storage : ∃ l, StorageOk s.storage l
  accounted : ∀ id o, s.storage.object id = some o → ∃ l, Accounted s h id o l
  readers : ∀ i, ∀ op ∈ s.readers i, ∃ o, s.storage.object op.id = some o ∧ o.address = op.address
  features : ∀ m, s.making = some m → ∀ address id, some (address, id) ∈ m.features →
    ∃ o, s.storage.object id = some o ∧ o.address = address

theorem uses_pos {features : List Feature} {address id : ℕ} (h : some (address, id) ∈ features) :
    0 < uses features id :=
  countP_pos_iff.2 ⟨_, h, decide_eq_true rfl⟩

theorem uses_append (features : List Feature) (feature : Feature) (id : ℕ) :
    uses (features ++ [feature]) id =
      uses features id + if feature.map Prod.snd = some id then 1 else 0 := by
  unfold uses
  rw [countP_append, countP_singleton]
  simp only [decide_eq_true_eq]

/-- The items that were put into the request are counted. -/
theorem Making.Counts.uses_le {m : Making κ β} {id : ℕ} {key : κ} {firstUses unsent : ℕ}
    (h : m.Counts id key firstUses unsent) : uses m.features id ≤ unsent := by
  rcases Nat.eq_zero_or_pos firstUses with hzero | hpos
  · exact le_of_eq (h.fresh hzero).2.1.symm
  · obtain ⟨touched, -, -, rfl⟩ := h.known hpos
    exact Nat.le_add_left _ _

namespace SystemOk

variable {s s' : System κ β n} {h h' : History}

theorem new (hn : 0 < n) {bytes : ℕ} (hbytes : 0 < bytes) (maxObjectSize : ℕ) (serialize : β → ℕ) :
    SystemOk (System.new maxObjectSize serialize bytes : System κ β n)
      ⟨fun _ => 0, fun _ => 0⟩ where
  readers_pos := hn
  nReaders := rfl
  storage := ⟨[], .new hbytes⟩
  accounted := nofun
  readers := nofun
  features := nofun

/-- A ledger with all uses counted belongs to an object that nobody uses. -/
theorem unused (hs : SystemOk s h) {id : ℕ} {o : Object κ} (ho : s.storage.object id = some o)
    (hfree : o.writer * n ≤ o.count) : (∀ i, ∀ op ∈ s.readers i, op.id ≠ id) ∧
      ∀ m, s.making = some m → ∀ address, some (address, id) ∉ m.features := by
  obtain ⟨l, hl⟩ := hs.accounted id o ho
  have hfree' : l.Free n := by
    unfold Ledger.Free
    rw [hl.writer, hl.count]
    exact hfree
  obtain ⟨hpending, hunsent⟩ := hl.ok.idle hs.readers_pos hfree'
  constructor
  · rintro i op hop rfl
    have := pendingOf_pos hop
    rw [← hl.pending] at this
    omega
  · intro m hm address hmem
    have hcounts := hl.unsent
    rw [hm] at hcounts
    have hle := Making.Counts.uses_le hcounts
    have := uses_pos hmem
    omega

/-- The histories of the objects are what matters. -/
theorem congr (hs : SystemOk s h) (htouches : ∀ id ∈ s.storage.idIndex, h'.touches id = h.touches id)
    (hfirst : ∀ id ∈ s.storage.idIndex, h'.firstUses id = h.firstUses id) : SystemOk s h' where
  readers_pos := hs.readers_pos
  nReaders := hs.nReaders
  storage := hs.storage
  accounted id o ho := by
    obtain ⟨l, hl⟩ := hs.accounted id o ho
    obtain ⟨bs, hok⟩ := hs.storage
    have hid := hok.mem_idIndex.2 ⟨o, ho⟩
    exact ⟨l, hl.ok, hl.count, hl.writer, hl.unsent, hl.pending, hl.pendingGets,
      hl.touches.trans (htouches id hid).symm, hl.firstUses.trans (hfirst id hid).symm⟩
  readers := hs.readers
  features := hs.features

variable {making : Option (Making κ β)}

section

variable (hs : SystemOk s h)

include hs

/-- The request that is made changes, but not what it uses. -/
theorem remake (hunsent : ∀ id o, s.storage.object id = some o → ∀ firstUses unsent,
      Unsent s.making id o.key firstUses unsent → Unsent making id o.key firstUses unsent)
    (hfeatures : ∀ m, making = some m → ∀ address id, some (address, id) ∈ m.features →
      ∃ o, s.storage.object id = some o ∧ o.address = address) :
    SystemOk { s with making := making } h where
  readers_pos := hs.readers_pos
  nReaders := hs.nReaders
  storage := hs.storage
  accounted id o ho := by
    obtain ⟨l, hl⟩ := hs.accounted id o ho
    exact ⟨l, hl.ok, hl.count, hl.writer, hunsent id o ho _ _ hl.unsent, hl.pending, hl.pendingGets,
      hl.touches, hl.firstUses⟩
  readers := hs.readers
  features := hfeatures

/-- The writer counts an object. -/
theorem increment {id₀ : ℕ} {o₀ : Object κ} (ho₀ : s.storage.object id₀ = some o₀)
    (hunsent : ∀ id o, s.storage.object id = some o → ∀ firstUses unsent,
      Unsent s.making id o.key firstUses unsent →
      Unsent making id o.key firstUses (if id = id₀ then unsent + 1 else unsent))
    (hfeatures : ∀ m, making = some m → ∀ address id, some (address, id) ∈ m.features →
      ∃ o, s.storage.object id = some o ∧ o.address = address) :
    SystemOk { s with storage := s.storage.incrementWriterFlag id₀, making := making } h := by
  have hobject := StorageOk.object_incrementWriterFlag ho₀
  have hkept : ∀ {id address : ℕ}, (∃ o, s.storage.object id = some o ∧ o.address = address) →
      ∃ o, (s.storage.incrementWriterFlag id₀).object id = some o ∧ o.address = address := by
    rintro id address ⟨o, ho, haddress⟩
    rw [hobject]
    split_ifs with hid
    · rw [hid, ho₀] at ho
      exact ⟨_, rfl, by rw [← haddress, some.inj ho]⟩
    · exact ⟨o, ho, haddress⟩
  obtain ⟨bs, hok⟩ := hs.storage
  refine ⟨hs.readers_pos, hs.nReaders, ⟨bs, hok.incrementWriterFlag ho₀⟩, fun id o ho => ?_,
    fun i op hop => hkept (hs.readers i op hop),
    fun m hm address id hmem => hkept (hfeatures m hm address id hmem)⟩
  have ho' : (s.storage.incrementWriterFlag id₀).object id = some o := ho
  rw [hobject] at ho'
  split_ifs at ho' with hid
  · cases ho'
    subst hid
    obtain ⟨l, hl⟩ := hs.accounted id o₀ ho₀
    have hunsent' := hunsent id o₀ ho₀ _ _ hl.unsent
    rw [if_pos rfl] at hunsent'
    exact ⟨l.increment, hl.ok.increment, hl.count, by
      show l.sent + (l.unsent + 1) = o₀.writer + 1
      rw [← hl.writer, add_assoc], hunsent', hl.pending, hl.pendingGets, hl.touches,
      hl.firstUses⟩
  · obtain ⟨l, hl⟩ := hs.accounted id o ho'
    have hunsent' := hunsent id o ho' _ _ hl.unsent
    rw [if_neg hid] at hunsent'
    exact ⟨l, hl.ok, hl.count, hl.writer, hunsent', hl.pending, hl.pendingGets, hl.touches,
      hl.firstUses⟩

/-- Nothing that is used is freed. -/
theorem free {storage : Storage κ β} (hr : s.storage.freeUnused = some storage) :
    SystemOk { s with storage := storage } h := by
  obtain ⟨bs, hok⟩ := hs.storage
  obtain ⟨bs', hok', -, hn, -, hobject⟩ := hok.freeUnused hr
  have hold : ∀ {id : ℕ} {o : Object κ}, storage.object id = some o →
      s.storage.object id = some o := by
    intro id o ho
    rcases hobject id with heq | ⟨hnone, -⟩
    · exact heq ▸ ho
    · rw [hnone] at ho
      cases ho
  have hkept : ∀ {id : ℕ} {o : Object κ}, s.storage.object id = some o →
      ((∃ i, ∃ op ∈ s.readers i, op.id = id) ∨
        ∃ m, s.making = some m ∧ ∃ address, some (address, id) ∈ m.features) →
      storage.object id = some o := by
    intro id o ho hused
    rcases hobject id with heq | ⟨-, o', ho', hfree⟩
    · exact heq.trans ho
    · rw [hs.nReaders] at hfree
      obtain ⟨hreaders, hfeatures⟩ := hs.unused ho' hfree
      rcases hused with ⟨i, op, hop, hid⟩ | ⟨m, hm, address, hmem⟩
      · exact absurd hid (hreaders i op hop)
      · exact absurd hmem (hfeatures m hm address)
  refine ⟨hs.readers_pos, hn.trans hs.nReaders, ⟨bs', hok'⟩, fun id o ho => ?_, fun i op hop => ?_,
    fun m hm address id hmem => ?_⟩
  · obtain ⟨l, hl⟩ := hs.accounted id o (hold ho)
    exact ⟨l, hl.ok, hl.count, hl.writer, hl.unsent, hl.pending, hl.pendingGets, hl.touches,
      hl.firstUses⟩
  · obtain ⟨o, ho, haddress⟩ := hs.readers i op hop
    exact ⟨o, hkept ho (Or.inl ⟨i, op, hop, rfl⟩), haddress⟩
  · obtain ⟨o, ho, haddress⟩ := hs.features m hm address id hmem
    exact ⟨o, hkept ho (Or.inr ⟨m, hm, address, hmem⟩), haddress⟩

theorem unknown {id : ℕ} (hid : s.storage.object id = none) :
    pendingOf s.readers id = 0 ∧ pendingGetsOf s.readers id = 0 ∧
      ∀ m, s.making = some m → uses m.features id = 0 := by
  have hne : ∀ i, ∀ op ∈ s.readers i, op.id ≠ id := by
    rintro i op hop rfl
    obtain ⟨o, ho, -⟩ := hs.readers i op hop
    rw [hid] at ho
    cases ho
  refine ⟨sum_eq_zero fun i _ => countP_eq_zero.2 fun op hop => ?_,
    sum_eq_zero fun i _ => countP_eq_zero.2 fun op hop => ?_,
    fun m hm => countP_eq_zero.2 fun feature hfeature => ?_⟩
  · simpa using hne i op hop
  · simp [hne i op hop]
  · rw [decide_eq_true_eq]
    intro heq
    obtain ⟨⟨address, id'⟩, rfl, rfl⟩ := map_eq_some_iff.1 heq
    obtain ⟨o, ho, -⟩ := hs.features m hm address id' hfeature
    rw [hid] at ho
    cases ho

theorem put (hspace : ∃ bs, StorageOk s.storage bs ∧ bs.length + 1 < idMax)
    {size address id : ℕ} {value : β} {r' : RingBuffer β} {key : κ}
    (hr : s.storage.ringBuffer.allocateBuf size value = .ok (r', address, id))
    (hkey : key ∉ s.storage.keyIndex)
    (hold : ∀ a ∈ s.storage.idIndex, h'.touches a = h.touches a ∧ h'.firstUses a = h.firstUses a)
    (hnew : h'.touches id = 0 ∧ h'.firstUses id = 0) (hmaking : Unsent making id key 0 1)
    (hunsent : ∀ a o, a ≠ id → s.storage.object a = some o → ∀ firstUses unsent,
      Unsent s.making a o.key firstUses unsent → Unsent making a o.key firstUses unsent)
    (hfeatures : ∀ m, making = some m → ∀ address' a, some (address', a) ∈ m.features →
      (address' = address ∧ a = id) ∨ ∃ o, s.storage.object a = some o ∧ o.address = address') :
    SystemOk { s with storage := s.storage.putAt r' key address id, making := making } h' := by
  obtain ⟨bs, hok, hlength⟩ := hspace
  obtain ⟨hok', hnone, hobject⟩ := hok.putAt hlength hr hkey
  have hkept : ∀ {a address' : ℕ}, (∃ o, s.storage.object a = some o ∧ o.address = address') →
      ∃ o, (s.storage.putAt r' key address id).object a = some o ∧ o.address = address' := by
    rintro a address' ⟨o, ho, haddress⟩
    refine ⟨o, ?_, haddress⟩
    rw [hobject, if_neg, ho]
    rintro rfl
    rw [hnone] at ho
    cases ho
  refine ⟨hs.readers_pos, hs.nReaders, ⟨_, hok'⟩, fun a o ho => ?_,
    fun i op hop => hkept (hs.readers i op hop), fun m hm address' a hmem => ?_⟩
  · have ho' : (s.storage.putAt r' key address id).object a = some o := ho
    rw [hobject] at ho'
    split_ifs at ho' with ha
    · cases ho'
      subst ha
      obtain ⟨hpending, hgets, -⟩ := hs.unknown hnone
      exact ⟨Ledger.new, Ledger.new_ok hs.readers_pos, rfl, rfl, hmaking, hpending.symm, hgets.symm,
        hnew.1.symm, hnew.2.symm⟩
    · obtain ⟨l, hl⟩ := hs.accounted a o ho'
      obtain ⟨htouches, hfirst⟩ := hold a (hok.mem_idIndex.2 ⟨o, ho'⟩)
      exact ⟨l, hl.ok, hl.count, hl.writer, hunsent a o ha ho' _ _ hl.unsent, hl.pending,
        hl.pendingGets, hl.touches.trans htouches.symm, hl.firstUses.trans hfirst.symm⟩
  · rcases hfeatures m hm address' a hmem with ⟨rfl, rfl⟩ | hlive
    · exact ⟨_, (hobject a).trans (if_pos rfl), rfl⟩
    · exact hkept hlive

theorem send {mmHashes : List κ} {features mmFeatures : List Feature}
    (hmaking : s.making = some ⟨mmHashes, [], [], features⟩) (hperm : mmFeatures.Perm features) :
    SystemOk { s with
      making := none
      readers := fun i => s.readers i ++ readerOps mmFeatures }
      { h with
        firstUses := fun id =>
          if h.firstUses id = 0 then uses mmFeatures id else h.firstUses id } where
  readers_pos := hs.readers_pos
  nReaders := hs.nReaders
  storage := hs.storage
  accounted id o ho := by
    obtain ⟨l, hl⟩ := hs.accounted id o ho
    have huses : uses mmFeatures id = uses features id := hperm.countP_eq _
    have hcounts := hl.unsent
    rw [hmaking] at hcounts
    have hfirst : l.firstUses = 0 → 0 < uses mmFeatures id ∧ l.unsent = uses mmFeatures id := by
      intro hzero
      obtain ⟨-, hunsent, hpos⟩ := hcounts.fresh hzero
      rw [huses, ← hunsent]
      exact ⟨hpos, rfl⟩
    have hother : 0 < l.firstUses → l.unsent = uses mmFeatures id + uses mmFeatures id := by
      intro hpos
      obtain ⟨touched, htouched, hbuilt, hunsent⟩ := hcounts.known hpos
      simp only [map_nil, count_nil, add_zero] at htouched hbuilt
      rw [hunsent, huses, htouched, ← hbuilt]
    have hok := hl.ok.send hs.readers_pos hfirst hother
    refine ⟨l.send n (uses mmFeatures id), hok, hl.count, hl.writer, ⟨?_, rfl⟩, ?_, ?_, hl.touches,
      ?_⟩
    · show 0 < if l.firstUses = 0 then uses mmFeatures id else l.firstUses
      split_ifs with hzero
      · exact (hfirst hzero).1
      · exact Nat.pos_of_ne_zero hzero
    · show l.pending + n * (uses mmFeatures id + uses mmFeatures id) = ∑ i, _
      simp only [countP_append, (countP_readerOps mmFeatures id).1, sum_add_distrib,
        sum_const, card_univ, Fintype.card_fin]
      rw [hl.pending, mul_add]
      rfl
    · show l.pendingGets + n * uses mmFeatures id = ∑ i, _
      simp only [countP_append, (countP_readerOps mmFeatures id).2, sum_add_distrib,
        sum_const, card_univ, Fintype.card_fin]
      rw [hl.pendingGets]
      rfl
    · show (if l.firstUses = 0 then uses mmFeatures id else l.firstUses) = _
      rw [hl.firstUses]
  readers i op hop := by
    rcases mem_append.1 hop with hop | hop
    · exact hs.readers i op hop
    · have hfeature : some (op.address, op.id) ∈ features := by
        rcases mem_append.1 hop with hop | hop
        all_goals
          obtain ⟨feature, hmem, heq⟩ := mem_filterMap.1 hop
          obtain ⟨⟨address, id⟩, rfl, rfl⟩ := map_eq_some_iff.1 heq
          exact hperm.mem_iff.1 hmem
      exact hs.features _ hmaking _ _ hfeature
  features := nofun

end

/-! ### Readers -/

/-- A reader has taken an operation, and counted `count` for the object. -/
theorem count (hs : SystemOk s h) {i : Fin n} {op : Op} {ops : List Op}
    (hop : s.readers i = op :: ops) {o : Object κ} (ho : s.storage.object op.id = some o)
    {r' : RingBuffer β} (hok : ∃ bs, StorageOk { s.storage with ringBuffer := r' } bs) {count : ℕ}
    (hobject : ∀ a, Storage.object { s.storage with ringBuffer := r' } a =
      if a = op.id then some { o with count := count } else s.storage.object a)
    (hledger : ∀ l, Accounted s h op.id o l → ∃ l' : Ledger, l'.Ok n ∧ l'.count = count ∧
      l'.sent = l.sent ∧ l'.unsent = l.unsent ∧ l'.firstUses = l.firstUses ∧
      l'.pending + 1 = l.pending ∧ l'.pendingGets + (if op.isGet then 1 else 0) = l.pendingGets ∧
      l'.touches = h'.touches op.id)
    (htouches : ∀ a, a ≠ op.id → h'.touches a = h.touches a) (hfirst : h'.firstUses = h.firstUses) :
    SystemOk { s with
      storage := { s.storage with ringBuffer := r' }
      readers := update s.readers i ops } h' where
  readers_pos := hs.readers_pos
  nReaders := hs.nReaders
  storage := hok
  accounted a o' ho' := by
    have ho'' := (hobject a).symm.trans ho'
    have hpending := pendingOf_update hop a
    have hgets := pendingGetsOf_update hop a
    -- only the ledger of the object of the operation changes
    split_ifs at ho'' with ha
    · cases ho''
      subst ha
      obtain ⟨l, hl⟩ := hs.accounted op.id o ho
      obtain ⟨l', hl', hcount', hsent', hunsent', hfirst', hpending', hgets', htouches'⟩ := hledger l hl
      rw [if_pos rfl] at hpending
      simp only [true_and] at hgets
      refine ⟨l', hl', hcount', ?_, ?_, ?_, ?_, htouches', ?_⟩
      · rw [hsent', hunsent']
        exact hl.writer
      · rw [hunsent', hfirst']
        exact hl.unsent
      · have := hl.pending
        show l'.pending = pendingOf (update s.readers i ops) op.id
        omega
      · have := hl.pendingGets
        show l'.pendingGets = pendingGetsOf (update s.readers i ops) op.id
        omega
      · rw [hfirst', hl.firstUses, hfirst]
    · obtain ⟨l, hl⟩ := hs.accounted a o' ho''
      rw [if_neg (Ne.symm ha), add_zero] at hpending
      rw [if_neg fun hand => ha hand.1.symm, add_zero] at hgets
      exact ⟨l, hl.ok, hl.count, hl.writer, hl.unsent, hl.pending.trans hpending.symm,
        hl.pendingGets.trans hgets.symm, hl.touches.trans (htouches a ha).symm,
        hl.firstUses.trans (congrFun hfirst a).symm⟩
  readers j op' hop' := by
    have hmem : op' ∈ s.readers j := by
      by_cases hj : j = i
      · subst hj
        rw [hop]
        exact mem_cons_of_mem _ (by simpa using hop')
      · simpa [update_of_ne hj] using hop'
    obtain ⟨o', ho', haddress⟩ := hs.readers j op' hmem
    rw [hobject]
    split_ifs with hid
    · rw [hid, ho] at ho'
      exact ⟨_, rfl, by rw [← haddress, some.inj ho']⟩
    · exact ⟨o', ho', haddress⟩
  features m hm address id hmem := by
    obtain ⟨o', ho', haddress⟩ := hs.features m hm address id hmem
    rw [hobject]
    split_ifs with hid
    · rw [hid, ho] at ho'
      exact ⟨_, rfl, by rw [← haddress, some.inj ho']⟩
    · exact ⟨o', ho', haddress⟩

theorem next (hs : SystemOk s h) {i : Fin n} {op : Op} {ops : List Op}
    (hop : s.readers i = op :: ops) : ∃ o chunk, s.storage.object op.id = some o ∧
      o.address = op.address ∧ s.storage.ringBuffer.accessBuf op.address = some chunk ∧
      chunk.readerCount = o.count ∧ chunk.id = op.id := by
  obtain ⟨o, ho, haddress⟩ := hs.readers i op (by rw [hop]; exact mem_cons_self)
  obtain ⟨bs, hok⟩ := hs.storage
  obtain ⟨-, hmeta, -, chunk, hchunk, hcount⟩ := Storage.object_eq_some.1 ho
  obtain ⟨b, hb, hid, hb'⟩ := (hok.ring.metadata _ _).1 hmeta
  obtain ⟨chunk', hchunk', hid', -⟩ := hok.ring.stored b hb
  rw [hb', hchunk] at hchunk'
  rw [haddress] at hchunk
  refine ⟨o, chunk, ho, haddress, hchunk, hcount, ?_⟩
  rw [some.inj hchunk', hid', hid]

end SystemOk

end LoptVllm.ShmStorage
