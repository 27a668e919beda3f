import LoptVllm.LoRA.WorkerManager

/-!
# The slots hold the adapters of the batch
-/

namespace LoptVllm.LoRA

open List Function Except LruCache

open WorkerManager

variable {M L : Type*} {setup : Setup M L} {load : ℤ → M → Option L}

/-- No two slots have the adapter. -/
def UniqueSlot (slots : List (Option ℤ)) (id : ℤ) : Prop :=
  ∀ i j : ℕ, slots[i]? = some (some id) → slots[j]? = some (some id) → i = j

/-- What the slots and the two caches always agree on. -/
structure Valid (setup : Setup M L) (load : ℤ → M → Option L) (m : Manager M L) : Prop where
  length : m.loraIndexToId.length = setup.maxLoras
  active_iff : ∀ id, id ∈ m.activeAdapters ↔ some id ∈ m.loraIndexToId
  unique : ∀ id, UniqueSlot m.loraIndexToId id
  registered : ∀ id, id ∈ m.activeAdapters → id ∈ m.registeredAdapters
  size : m.registeredAdapters.size ≤ setup.maxCpuLoras
  model : ∀ id lora, m.registeredAdapters.lookup id = some lora →
    lora.id = id ∧ lora.loras = setup.createMergedLoras (load id)
  buffers : ∀ (i : ℕ) id, m.loraIndexToId[i]? = some (some id) → ∀ module ∈ setup.modules,
    m.buffers module i = setup.createMergedLoras (load id) module
  pinned_active : ∀ id ∈ m.activeAdapters.pinned, id ∈ m.activeAdapters

/-- Between the calls the two caches have the same pins. -/
def Paired (m : Manager M L) : Prop := m.activeAdapters.pinned = m.registeredAdapters.pinned

/-! ### A slot is freed -/

variable {slots : List (Option ℤ)} {id : ℤ}

theorem getElem?_freed (hunique : UniqueSlot slots id) (i : ℕ) :
    (freed slots id)[i]? = if slots[i]? = some (some id) then some none else slots[i]? := by
  unfold freed
  split_ifs with hmem hi hi
  · have hidx := getElem?_idxOf hmem
    obtain rfl := hunique _ _ hi hidx
    exact getElem?_set_self (idxOf_lt_length_of_mem hmem)
  · refine getElem?_set_ne fun heq => hi ?_
    rw [← heq]
    exact getElem?_idxOf hmem
  · exact absurd (mem_of_getElem? hi) hmem
  · rfl

theorem length_freed (slots : List (Option ℤ)) (id : ℤ) :
    (freed slots id).length = slots.length := by
  unfold freed
  split_ifs
  · exact length_set
  · rfl

theorem freed_of_notMem (h : some id ∉ slots) : freed slots id = slots := if_neg h

theorem getElem?_freed_some (hunique : UniqueSlot slots id) {i : ℕ} {a : ℤ} :
    (freed slots id)[i]? = some (some a) ↔ a ≠ id ∧ slots[i]? = some (some a) := by
  rw [getElem?_freed hunique]
  split_ifs with h
  · refine iff_of_false (by simp) fun ⟨hne, ha⟩ => hne ?_
    simpa [h, eq_comm] using ha
  · refine ⟨fun ha => ⟨?_, ha⟩, And.right⟩
    rintro rfl
    exact h ha

theorem mem_freed (hunique : UniqueSlot slots id) {a : ℤ} :
    some a ∈ freed slots id ↔ a ≠ id ∧ some a ∈ slots := by
  simp [mem_iff_getElem?, getElem?_freed_some hunique, exists_and_left]

/-- The manager after an adapter is deactivated. -/
def evicted (m : Manager M L) (id : ℤ) : Manager M L :=
  { m with
    activeAdapters := m.activeAdapters.delItem id
    loraIndexToId := freed m.loraIndexToId id }

/-- The manager after an adapter is removed. -/
def forgotten (m : Manager M L) (id : ℤ) : Manager M L :=
  { evicted m id with registeredAdapters := m.registeredAdapters.delItem id }

section Removal

variable {m : Manager M L} {id : ℤ}

theorem freeSlot_eq (m : Manager M L) (id : ℤ) :
    m.freeSlot id = { m with loraIndexToId := freed m.loraIndexToId id } := by
  unfold Manager.freeSlot freed
  split_ifs <;> rfl

section

variable (hactive : id ∈ m.activeAdapters ↔ some id ∈ m.loraIndexToId)
include hactive

/-- Without the registered adapters. -/
theorem popActive_eq (hpinned : id ∈ m.activeAdapters.pinned → id ∈ m.activeAdapters) :
    m.popActive id = evicted m id := by
  unfold Manager.popActive
  split_ifs with h
  · rw [freeSlot_eq]
    rfl
  · rw [evicted, freed_of_notMem (mt hactive.2 h), delItem_of_notMem h (mt hpinned h)]

theorem deactivateAdapter_eq (hunique : UniqueSlot m.loraIndexToId id)
    (hpinned : id ∈ m.activeAdapters.pinned → id ∈ m.activeAdapters) :
    m.deactivateAdapter id = evicted m id := by
  unfold Manager.deactivateAdapter
  by_cases h : id ∈ m.activeAdapters
  · have hmem : id ∈ (m.freeSlot id).activeAdapters := by
      rw [freeSlot_eq]
      exact h
    -- the slot is free when the adapter leaves the cache
    rw [if_neg (not_not.2 h), Manager.popActive, if_pos hmem, freeSlot_eq, freeSlot_eq]
    rw [freed_of_notMem fun hmem => ((mem_freed hunique).1 hmem).1 rfl]
    rfl
  · rw [if_pos h, evicted, freed_of_notMem (mt hactive.2 h), delItem_of_notMem h (mt hpinned h)]

end

section

variable (h : Valid setup load m)

include h

theorem Valid.popActive_eq : m.popActive id = evicted m id :=
  LoRA.popActive_eq (h.active_iff id) (h.pinned_active id)

theorem Valid.popRegistered_eq (hid : id ∈ m.registeredAdapters) :
    m.popRegistered id = forgotten m id := by
  rw [Manager.popRegistered, if_pos hid]
  exact deactivateAdapter_eq (h.active_iff id) (h.unique id) (h.pinned_active id)

theorem Valid.removeAdapter_eq (hpaired : Paired m) : (m.removeAdapter id).2 = forgotten m id := by
  have hdeactivate : m.deactivateAdapter id = evicted m id :=
    deactivateAdapter_eq (h.active_iff id) (h.unique id) (h.pinned_active id)
  rw [Manager.removeAdapter, hdeactivate]
  by_cases hid : id ∈ m.registeredAdapters
  · have hmem : id ∈ (evicted m id).registeredAdapters := hid
    have hactive : id ∉ (evicted m id).activeAdapters := fun h => (mem_delItem.1 h).1 rfl
    rw [if_neg (not_not.2 hmem), Manager.popRegistered, if_pos hmem, Manager.deactivateAdapter]
    exact if_pos hactive
  · have hmem : id ∉ (evicted m id).registeredAdapters := hid
    have hpinned : id ∉ m.registeredAdapters.pinned := fun hp =>
      hid (h.registered id (h.pinned_active id (hpaired ▸ hp)))
    rw [if_pos hmem, forgotten, delItem_of_notMem hid hpinned]
    rfl

theorem Valid.evicted : Valid setup load (evicted m id) where
  length := (length_freed _ _).trans h.length
  active_iff a := by rw [LoRA.evicted, mem_delItem, mem_freed (h.unique id), h.active_iff]
  unique a i j hi hj := h.unique a i j ((getElem?_freed_some (h.unique id)).1 hi).2
    ((getElem?_freed_some (h.unique id)).1 hj).2
  registered a ha := h.registered a (mem_delItem.1 ha).2
  size := h.size
  model := h.model
  buffers i a hi := h.buffers i a ((getElem?_freed_some (h.unique id)).1 hi).2
  pinned_active a ha := by
    rw [LoRA.evicted, mem_pinned_delItem] at ha
    exact mem_delItem.2 ⟨ha.1, h.pinned_active a ha.2⟩

theorem Valid.forgotten : Valid setup load (forgotten m id) where
  length := (length_freed _ _).trans h.length
  active_iff a := by
    change a ∈ m.activeAdapters.delItem id ↔ _
    rw [mem_delItem, h.active_iff]
    exact (mem_freed (h.unique id)).symm
  unique a i j hi hj := h.unique a i j ((getElem?_freed_some (h.unique id)).1 hi).2
    ((getElem?_freed_some (h.unique id)).1 hj).2
  registered a ha := by
    obtain ⟨hne, ha⟩ := mem_delItem.1 ha
    exact mem_delItem.2 ⟨hne, h.registered a ha⟩
  size := le_trans (size_delItem_le _ _) h.size
  model a lora ha := by
    rw [LoRA.forgotten, lookup_delItem] at ha
    split_ifs at ha
    exact h.model a lora ha
  buffers i a hi := h.buffers i a ((getElem?_freed_some (h.unique id)).1 hi).2
  pinned_active a ha := by
    obtain ⟨hne, ha⟩ := mem_pinned_delItem.1 ha
    exact mem_delItem.2 ⟨hne, h.pinned_active a ha⟩

theorem Valid.touchActive :
    Valid setup load { m with activeAdapters := m.activeAdapters.touch id } where
  length := h.length
  active_iff a := mem_touch.trans (h.active_iff a)
  unique := h.unique
  registered a ha := h.registered a (mem_touch.1 ha)
  size := h.size
  model := h.model
  buffers := h.buffers
  pinned_active a ha := mem_touch.2 (h.pinned_active a ha)

theorem Valid.touchRegistered (hid : id ∈ m.registeredAdapters) :
    Valid setup load { m with registeredAdapters := m.registeredAdapters.touch id } where
  length := h.length
  active_iff := h.active_iff
  unique := h.unique
  registered a ha := mem_touch.2 (h.registered a ha)
  size := le_trans (le_of_eq (size_touch hid)) h.size
  model a lora ha := h.model a lora (by rwa [lookup_touch] at ha)
  buffers := h.buffers
  pinned_active := h.pinned_active

end

end Removal

/-! ### A slot is filled -/

theorem foldl_setLora [DecidableEq M] (index : ℕ) (model : LoRAModel M L) (module : M) (i : ℕ) :
    ∀ (modules : List M) (buffers : M → ℕ → Option L),
      modules.foldl (Manager.setLora index model) buffers module i =
        if i = index ∧ module ∈ modules then model.loras module else buffers module i
  | [], buffers => by simp
  | module' :: modules, buffers => by
    rw [foldl_cons, foldl_setLora index model module i modules]
    by_cases hmem : i = index ∧ module ∈ modules
    · rw [if_pos hmem, if_pos ⟨hmem.1, .tail _ hmem.2⟩]
    · rw [if_neg hmem, Manager.setLora]
      by_cases hmodule : module = module'
      · subst hmodule
        rw [update_self]
        by_cases hi : i = index
        · rw [hi, update_self, if_pos ⟨rfl, mem_cons_self⟩]
        · rw [update_of_ne hi, if_neg fun h => hi h.1]
      · rw [update_of_ne hmodule, if_neg fun h =>
          hmem ⟨h.1, (mem_cons.1 h.2).resolve_left hmodule⟩]

/-- With fewer active adapters than slots a slot is free. -/
theorem Valid.none_mem {m : Manager M L} (h : Valid setup load m)
    (hsize : m.activeAdapters.size < setup.maxLoras) : none ∈ m.loraIndexToId := by
  by_contra hnone
  have hsome : ∀ o ∈ m.loraIndexToId, ∃ id ∈ m.activeAdapters, o = some id := by
    intro o ho
    cases o with
    | none => exact absurd ho hnone
    | some id => exact ⟨id, (h.active_iff id).2 ho, rfl⟩
  have hnodup : m.loraIndexToId.Nodup := by
    rw [nodup_iff_getElem?_ne_getElem?]
    intro i j hij hj heq
    obtain ⟨id, -, hid⟩ := hsome _ (getElem_mem hj)
    have hj' : m.loraIndexToId[j]? = some (some id) := by rw [getElem?_eq_getElem hj, hid]
    exact absurd (h.unique id i j (heq.trans hj') hj') (by omega)
  have hsub : m.loraIndexToId ⊆ m.activeAdapters.data.keys.map some := by
    intro o ho
    obtain ⟨id, hid, rfl⟩ := hsome o ho
    exact mem_map_of_mem hid
  have hle := (subperm_of_subset hnodup hsub).length_le
  rw [h.length, length_map] at hle
  unfold LruCache.size at hsize
  omega

theorem Valid.active_size_le {m : Manager M L} (h : Valid setup load m) :
    m.activeAdapters.size ≤ setup.maxLoras := by
  have hnodup : (m.activeAdapters.data.keys.map some).Nodup :=
    m.activeAdapters.data.keys_nodup.map fun _ _ => Option.some.inj
  have hsub : m.activeAdapters.data.keys.map some ⊆ m.loraIndexToId := by
    intro o ho
    obtain ⟨id, hid, rfl⟩ := mem_map.1 ho
    exact (h.active_iff id).1 hid
  have hle := (subperm_of_subset hnodup hsub).length_le
  rwa [h.length, length_map] at hle

/-- What a call on behalf of a batch leaves: the adapters `P` and `Q` have been used after all others
in the two caches, the pins and the mapping are as before. -/
structure Serving (setup : Setup M L) (load : ℤ → M → Option L) (m m' : Manager M L)
    (P Q : List ℤ) : Prop where
  valid : Valid setup load m'
  active : m'.activeAdapters.Recent P
  registered : m'.registeredAdapters.Recent Q
  pinned : m'.activeAdapters.pinned = m.activeAdapters.pinned
  pinnedCpu : m'.registeredAdapters.pinned = m.registeredAdapters.pinned
  lastMapping : m'.lastMapping = m.lastMapping
  converted : m'.converted = m.converted

section Activation

variable [DecidableEq M] {m : Manager M L} {x : ℤ}

/-- An active adapter stays where it is. -/
theorem activateAdapter_of_mem (hx : x ∈ m.activeAdapters) :
    m.activateAdapter setup x = .ok (false, { m with activeAdapters := m.activeAdapters.touch x }) := by
  have hguard : ¬(x ∉ m.activeAdapters ∧ setup.maxLoras ≤ m.activeAdapters.size) := fun h => h.1 hx
  rw [Manager.activateAdapter, if_neg hguard]
  change bind (m.activateInFreeSlot setup x) _ = _
  rw [Manager.activateInFreeSlot, if_pos hx]
  rfl

/-- The manager after an adapter is put into a free slot. -/
def activated (setup : Setup M L) (m : Manager M L) (lora : LoRAModel M L) : Manager M L :=
  { m with
    activeAdapters := m.activeAdapters.setItem lora.id ()
    registeredAdapters := m.registeredAdapters.touch lora.id
    loraIndexToId := m.loraIndexToId.set (m.loraIndexToId.idxOf none) (some lora.id)
    buffers := setup.modules.foldl (Manager.setLora (m.loraIndexToId.idxOf none) lora) m.buffers }

theorem activateInFreeSlot_eq (hx : x ∉ m.activeAdapters) (hnone : none ∈ m.loraIndexToId)
    {lora : LoRAModel M L} (hlora : m.registeredAdapters.lookup x = some lora) (hid : lora.id = x) :
    m.activateInFreeSlot setup x = .ok (true, activated setup m lora) := by
  subst hid
  rw [Manager.activateInFreeSlot, if_neg hx, if_neg (not_not.2 hnone)]
  dsimp only
  rw [hlora]
  rfl

theorem Valid.activated (h : Valid setup load m) {lora : LoRAModel M L}
    (hx : lora.id ∉ m.activeAdapters) (hnone : none ∈ m.loraIndexToId)
    (hlora : m.registeredAdapters.lookup lora.id = some lora) :
    Valid setup load (activated setup m lora) := by
  have hidx := getElem?_idxOf hnone
  have hlt := idxOf_lt_length_of_mem hnone
  have hfresh : some lora.id ∉ m.loraIndexToId := mt (h.active_iff _).2 hx
  have hset : ∀ i : ℕ, (m.loraIndexToId.set (m.loraIndexToId.idxOf none) (some lora.id))[i]? =
      if i = m.loraIndexToId.idxOf none then some (some lora.id) else m.loraIndexToId[i]? := by
    intro i
    split_ifs with hi
    · rw [hi, getElem?_set_self hlt]
    · exact getElem?_set_ne (Ne.symm hi)
  -- a slot has the adapter that it had, or is the one that was filled
  have hsome : ∀ (i : ℕ) a,
      (m.loraIndexToId.set (m.loraIndexToId.idxOf none) (some lora.id))[i]? = some (some a) ↔
        i = m.loraIndexToId.idxOf none ∧ a = lora.id ∨ m.loraIndexToId[i]? = some (some a) := by
    intro i a
    rw [hset]
    split_ifs with hi
    · rw [hi, hidx]
      simp [eq_comm]
    · simp [hi]
  have hmem : lora.id ∈ m.registeredAdapters := mem_iff_lookup.2 ⟨_, hlora⟩
  constructor
  · exact length_set.trans h.length
  · intro a
    change a ∈ m.activeAdapters.setItem lora.id () ↔ some a ∈ m.loraIndexToId.set _ (some lora.id)
    rw [mem_setItem, h.active_iff, mem_iff_getElem?, mem_iff_getElem?]
    simp [hsome, exists_or]
  · intro a i j hi hj
    obtain ⟨hi, ha⟩ | hi := (hsome i a).1 hi
    · obtain ⟨hj, -⟩ | hj := (hsome j a).1 hj
      · rw [hi, hj]
      · exact absurd (mem_of_getElem? (ha ▸ hj)) hfresh
    · obtain ⟨-, ha⟩ | hj := (hsome j a).1 hj
      · exact absurd (mem_of_getElem? (ha ▸ hi)) hfresh
      · exact h.unique a i j hi hj
  · intro a ha
    refine mem_touch.2 ?_
    obtain rfl | ha := mem_setItem.1 ha
    · exact hmem
    · exact h.registered a ha
  · exact le_trans (le_of_eq (size_touch hmem)) h.size
  · intro a lora' ha
    rw [LoRA.activated, lookup_touch] at ha
    exact h.model a lora' ha
  · intro i a hi module hmodule
    change setup.modules.foldl (Manager.setLora _ lora) m.buffers module i = _
    rw [foldl_setLora]
    obtain ⟨hi, ha⟩ | hi := (hsome i a).1 hi
    · rw [if_pos ⟨hi, hmodule⟩, ha, (h.model _ lora hlora).2]
    · rw [if_neg, h.buffers i a hi module hmodule]
      rintro ⟨rfl, -⟩
      rw [hidx] at hi
      cases hi
  · exact fun a ha => mem_setItem.2 (.inr (h.pinned_active a ha))

/-- The manager after an adapter is registered. -/
def registeredWith (setup : Setup M L) (load : ℤ → M → Option L) (m : Manager M L) (x : ℤ) :
    Manager M L :=
  { m with registeredAdapters :=
      m.registeredAdapters.setItem x ⟨x, setup.createMergedLoras (load x)⟩ }

omit [DecidableEq M] in
theorem addAdapter_eq (hx : x ∉ m.registeredAdapters) :
    m.addAdapter setup ⟨x, load x⟩ = (true, registeredWith setup load m x) := by
  rw [Manager.addAdapter, if_pos hx]
  rfl

/-- What follows, once there is room. -/
theorem continue_addAdapter (hx : x ∉ m.registeredAdapters) {b : Bool} {m' : Manager M L}
    (hm' : (registeredWith setup load m x).activateAdapter setup x = .ok (b, m')) :
    ((Manager.activateAdapter setup (m.addAdapter setup ⟨x, load x⟩).2 x).bind fun r =>
      .ok ((m.addAdapter setup ⟨x, load x⟩).1, r.2)) = .ok (true, m') := by
  rw [addAdapter_eq hx]
  rw [hm']
  rfl

omit [DecidableEq M] in
theorem Valid.registeredWith (h : Valid setup load m) (hx : x ∉ m.registeredAdapters)
    (hsize : m.registeredAdapters.size < setup.maxCpuLoras) :
    Valid setup load (registeredWith setup load m x) where
  length := h.length
  active_iff := h.active_iff
  unique := h.unique
  registered a ha := mem_setItem.2 (.inr (h.registered a ha))
  size := le_trans (le_of_eq (size_setItem hx _)) hsize
  model a lora ha := by
    rw [LoRA.registeredWith, lookup_setItem] at ha
    split_ifs at ha with hax
    · cases ha
      exact ⟨hax.symm, by rw [hax]⟩
    · exact h.model a lora ha
  buffers := h.buffers
  pinned_active := h.pinned_active

variable {P batch : List ℤ} (h : Valid setup load m)

include h

theorem activateInFreeSlot_spec {Q : List ℤ} (hxa : x ∉ m.activeAdapters)
    (hxr : x ∈ m.registeredAdapters) (hsize : m.activeAdapters.size < setup.maxLoras)
    (hactive : m.activeAdapters.Recent P) (hregistered : m.registeredAdapters.Recent Q) :
    ∃ m', m.activateInFreeSlot setup x = .ok (true, m') ∧
      Serving setup load m { m' with activeAdapters := m'.activeAdapters.touch x } (x :: P)
        (x :: Q) := by
  obtain ⟨lora, hlora⟩ := mem_iff_lookup.1 hxr
  obtain ⟨hid, -⟩ := h.model x lora hlora
  subst hid
  refine ⟨_, activateInFreeSlot_eq hxa (h.none_mem hsize) hlora rfl, ?_⟩
  have hmem : lora.id ∈ m.activeAdapters.setItem lora.id () := mem_setItem.2 (.inl rfl)
  constructor
  · exact (h.activated hxa (h.none_mem hsize) hlora).touchActive
  · exact ((hactive.setItem lora.id ()).touch hmem).congr fun k => by simp
  · exact hregistered.touch hxr
  all_goals rfl

variable (hroom : Room m.activeAdapters.pinned setup.maxLoras batch) (hP : ∀ k ∈ P, k ∈ batch)
  (hx : x ∈ batch)

include hroom hP hx

omit [DecidableEq M] in
/-- The active adapter to drop is none of the batch's. -/
theorem removeOldestActive_spec (hrecent : m.activeAdapters.Recent P) (hxa : x ∉ m.activeAdapters)
    (hfull : setup.maxLoras ≤ m.activeAdapters.size) :
    ∃ id, id ∈ m.activeAdapters ∧ id ∉ m.activeAdapters.pinned ∧ id ∉ P ∧
      m.removeOldestActive = .ok (evicted m id) := by
  obtain ⟨id, hid, hidP⟩ := oldest?_spec hrecent hroom hP hx hxa hfull
  obtain ⟨hmem, hpinned⟩ := oldest?_mem hid
  refine ⟨id, hmem, hpinned, hidP, ?_⟩
  have hsize : m.activeAdapters.size ≠ 0 := Nat.pos_iff_ne_zero.1 (length_pos_of_mem hmem)
  rw [Manager.removeOldestActive, Manager.removeOldest, if_neg hsize, hid]
  exact congrArg _ h.popActive_eq

omit [DecidableEq M] in
theorem removeOldestAdapter_spec (hpaired : Paired m) (hrecent : m.registeredAdapters.Recent P)
    (hxr : x ∉ m.registeredAdapters) (hfull : setup.maxCpuLoras ≤ m.registeredAdapters.size) :
    ∃ id, id ∈ m.registeredAdapters ∧ id ∉ m.activeAdapters.pinned ∧ id ∉ P ∧
      m.removeOldestAdapter = .ok (forgotten m id) := by
  have hroomCpu : Room m.registeredAdapters.pinned setup.maxCpuLoras batch := by
    rw [← show m.activeAdapters.pinned = _ from hpaired]
    exact le_trans hroom setup.maxLoras_le
  obtain ⟨id, hid, hidP⟩ := oldest?_spec hrecent hroomCpu hP hx hxr hfull
  obtain ⟨hmem, hpinned⟩ := oldest?_mem hid
  refine ⟨id, hmem, hpaired ▸ hpinned, hidP, ?_⟩
  have hsize : m.registeredAdapters.size ≠ 0 := Nat.pos_iff_ne_zero.1 (length_pos_of_mem hmem)
  rw [Manager.removeOldestAdapter, Manager.removeOldest, if_neg hsize, hid]
  exact congrArg _ (h.popRegistered_eq hmem)

/-- For a batch the slot of another adapter is freed, if need be. -/
theorem activateAdapter_of_notMem {Q : List ℤ} (hxa : x ∉ m.activeAdapters)
    (hxr : x ∈ m.registeredAdapters) (hactive : m.activeAdapters.Recent P)
    (hregistered : m.registeredAdapters.Recent Q) : ∃ m', m.activateAdapter setup x = .ok (true, m') ∧
      Serving setup load m m' (x :: P) (x :: Q) := by
  by_cases hfull : setup.maxLoras ≤ m.activeAdapters.size
  · obtain ⟨id, hid, hpinned, hidP, hevict⟩ :=
      removeOldestActive_spec h hroom hP hx hactive hxa hfull
    have hsize : (evicted m id).activeAdapters.size + 1 = m.activeAdapters.size := size_delItem hid
    have hle := h.active_size_le
    have hxa' : x ∉ (evicted m id).activeAdapters := fun hmem => hxa (mem_delItem.1 hmem).2
    obtain ⟨m', hm', hserving⟩ := activateInFreeSlot_spec h.evicted hxa' hxr (by omega)
      (hactive.delItem hidP) hregistered
    refine ⟨_, ?_, hserving.valid, hserving.active, hserving.registered, ?_, hserving.pinnedCpu,
      hserving.lastMapping, hserving.converted⟩
    · rw [Manager.activateAdapter, if_pos ⟨hxa, hfull⟩, hevict]
      change bind ((evicted m id).activateInFreeSlot setup x) _ = _
      rw [hm']
      rfl
    · exact hserving.pinned.trans (pinned_delItem hpinned)
  · obtain ⟨m', hm', hserving⟩ :=
      activateInFreeSlot_spec h hxa hxr (Nat.lt_of_not_le hfull) hactive hregistered
    refine ⟨_, ?_, hserving⟩
    rw [Manager.activateAdapter, if_neg fun h => hfull h.2]
    change bind (m.activateInFreeSlot setup x) _ = _
    rw [hm']
    rfl

/-- An adapter of the batch is activated, and the one that was active has its slot still. -/
theorem activateAdapter_spec (hactive : m.activeAdapters.Recent P)
    (hregistered : m.registeredAdapters.Recent (x :: P)) :
    ∃ b m', m.activateAdapter setup x = .ok (b, m') ∧ Serving setup load m m' (x :: P) (x :: P) ∧
      (x ∈ m.activeAdapters → m'.loraIndexToId = m.loraIndexToId) := by
  by_cases hxa : x ∈ m.activeAdapters
  · refine ⟨false, _, activateAdapter_of_mem hxa, ?_, fun _ => rfl⟩
    exact ⟨h.touchActive, hactive.touch hxa, hregistered, rfl, rfl, rfl, rfl⟩
  · obtain ⟨m', hm', hserving⟩ := activateAdapter_of_notMem h hroom hP hx hxa
      (hregistered.mem (.head _)) hactive hregistered
    exact ⟨true, m', hm', { hserving with registered := hserving.registered.congr fun k => by simp },
      fun hmem => absurd hmem hxa⟩

/-- An adapter of the batch is added: it is loaded when it is not there, and activated. -/
theorem addAdapter_spec (hpaired : Paired m) (hactive : m.activeAdapters.Recent P)
    (hregistered : m.registeredAdapters.Recent P) :
    ∃ b m', addAdapter setup load m x = .ok (b, m') ∧ Serving setup load m m' (x :: P) (x :: P) ∧
      (x ∈ m.activeAdapters → m'.loraIndexToId = m.loraIndexToId) := by
  by_cases hxr : x ∈ m.registeredAdapters
  · obtain ⟨b, m', hm', hserving, hslots⟩ := activateAdapter_spec (h.touchRegistered hxr) hroom hP hx
      hactive (hregistered.touch hxr)
    refine ⟨true, m', ?_, ⟨hserving.valid, hserving.active, hserving.registered, hserving.pinned,
      hserving.pinnedCpu, hserving.lastMapping, hserving.converted⟩, hslots⟩
    rw [addAdapter, if_neg (not_not.2 hxr)]
    change bind (Manager.activateAdapter setup _ x) _ = _
    rw [hm']
    rfl
  · suffices hadded : ∃ m', addAdapter setup load m x = .ok (true, m') ∧
        Serving setup load m m' (x :: P) (x :: P) by
      obtain ⟨m', hm', hserving⟩ := hadded
      exact ⟨true, m', hm', hserving, fun hxa => absurd (h.registered x hxa) hxr⟩
    by_cases hfull : setup.maxCpuLoras < m.registeredAdapters.size + 1
    · obtain ⟨id, hid, hpinned, hidP, hevict⟩ := removeOldestAdapter_spec h hroom hP hx hpaired
        hregistered hxr (Nat.le_of_lt_succ hfull)
      have hsize : (forgotten m id).registeredAdapters.size + 1 = m.registeredAdapters.size :=
        size_delItem hid
      have hle := h.size
      have hxr' : x ∉ (forgotten m id).registeredAdapters := fun hmem =>
        hxr (mem_delItem.1 hmem).2
      have hpins : (forgotten m id).activeAdapters.pinned = m.activeAdapters.pinned :=
        pinned_delItem hpinned
      have hvalid := h.forgotten.registeredWith hxr' (by omega : _ < setup.maxCpuLoras)
      obtain ⟨b, m', hm', hserving, -⟩ := activateAdapter_spec hvalid (hpins ▸ hroom) hP hx
        (hactive.delItem hidP) ((hregistered.delItem hidP).setItem x _)
      have hpinsCpu : (forgotten m id).registeredAdapters.pinned = m.registeredAdapters.pinned :=
        pinned_delItem fun hp => hpinned (hpaired ▸ hp)
      refine ⟨m', ?_, hserving.valid, hserving.active, hserving.registered,
        hserving.pinned.trans hpins, hserving.pinnedCpu.trans hpinsCpu, hserving.lastMapping,
        hserving.converted⟩
      rw [addAdapter, if_pos hxr, if_pos hfull, hevict]
      exact continue_addAdapter hxr' hm'
    · have hvalid := h.registeredWith hxr (by omega : _ < setup.maxCpuLoras)
      obtain ⟨b, m', hm', hserving, -⟩ := activateAdapter_spec hvalid hroom hP hx hactive
        (hregistered.setItem x _)
      refine ⟨m', ?_, hserving.valid, hserving.active, hserving.registered, hserving.pinned,
        hserving.pinnedCpu, hserving.lastMapping, hserving.converted⟩
      rw [addAdapter, if_pos hxr, if_neg hfull]
      exact continue_addAdapter hxr hm'

end Activation

end LoptVllm.LoRA
