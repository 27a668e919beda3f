import LoptVllm.KVOffload.Abstract
import Mathlib.Tactic.Linarith
import Mathlib.Tactic.Ring

/-!
# The ARC offloading manager

The manager keeps the blocks that were accessed once apart from those that were accessed more often,
and remembers which blocks it evicted from either part. A hit among the evicted ones moves the
target size of the first part.
-/

namespace LoptVllm.KVOffload

open List OrderedDict AList Prod Nat BlockStatus CPUBackend

/-- The rounding of floating-point numbers, which is monotone and exact on the integers of up to 53
bits. -/
structure Rounding where
  round : ℚ → ℚ
  mono : ∀ x y, x ≤ y → round x ≤ round y
  round_nat : ∀ n : ℕ, n ≤ 2 ^ 53 → round n = n

/-- `int(x)`, which truncates. -/
def truncate (x : ℚ) : ℤ := x.num.tdiv x.den

/-- `ARCOffloadingManager` with a `CPUBackend`. -/
structure ARCOffloadingManager (H : Type) where
  backend : CPUBackend
  targetT1Size : ℚ
  t1 : OrderedDict H BlockStatus
  t2 : OrderedDict H BlockStatus
  b1 : OrderedDict H Unit
  b2 : OrderedDict H Unit
  events : Option (List (OffloadingEvent H))
  cacheCapacity : ℤ

variable {H : Type}

namespace ARCOffloadingManager

/-- `ARCOffloadingManager(backend, enable_events)`. -/
def new (backend : CPUBackend) (enableEvents : Bool) : ARCOffloadingManager H :=
  ⟨backend, 0, ∅, ∅, ∅, ∅, if enableEvents then some [] else none, backend.getNumFreeBlocks⟩

variable [DecidableEq H] (fl : Rounding) (m : ARCOffloadingManager H) (blockHashes : List H)

/-- `self.t1.get(block_hash) or self.t2.get(block_hash)`. -/
def get (h : H) : Option BlockStatus := (m.t1.lookup h).or (m.t2.lookup h)

/-- The status that `get` finds is changed in place. -/
def modify (h : H) (f : BlockStatus → BlockStatus) : ARCOffloadingManager H :=
  if h ∈ m.t1 then { m with t1 := m.t1.modify h f } else { m with t2 := m.t2.modify h f }

/-- `lookup`. -/
def lookup : ℕ := (blockHashes.takeWhile fun h => (m.get h).any isReady).length

/-- One block of `prepare_load`. The messages are kept without the hash. -/
def prepareLoadBlock (st : ARCOffloadingManager H × List BlockStatus) (h : H) :
    Except PyErr (ARCOffloadingManager H × List BlockStatus) :=
  match st.1.get h with
  | none => .error (.assertionError "Block not found in cache")
  | some block =>
    if block.isReady then
      .ok (st.1.modify h fun b => { b with refCnt := b.refCnt + 1 }, st.2 ++ [block])
    else .error (.assertionError "Block is not ready for reading")

/-- `prepare_load`. -/
def prepareLoad : Except PyErr (List ℕ × ARCOffloadingManager H) := do
  let (m, loaded) ← blockHashes.foldlM prepareLoadBlock (m, [])
  return (getLoadStoreSpec loaded, m)

/-- One block of `touch`. -/
def touchBlock (h : H) : Except PyErr (ARCOffloadingManager H) := match m.t1.lookup h with
  | some block =>
    if block.isReady then .ok { m with t1 := m.t1.erase h, t2 := m.t2.setItem h block }
    else
      -- the block was popped just before
      match moveToEnd? (m.t1.erase h) h with
      | some t1 => .ok { m with t1 := t1 }
      | none => .error (.keyError "")
  | none =>
    match m.t2.moveToEnd? h with
    | some t2 => .ok { m with t2 := t2 }
    | none =>
      match m.b1.moveToEnd? h with
      | some b1 =>
        let delta := max 1 (fl.round (m.b2.entries.length / m.b1.entries.length))
        .ok { m with
          targetT1Size := min (fl.round (m.targetT1Size + delta)) m.cacheCapacity
          b1 := b1 }
      | none =>
        match m.b2.moveToEnd? h with
        | some b2 =>
          let delta := max 1 (fl.round (m.b1.entries.length / m.b2.entries.length))
          .ok { m with
            targetT1Size := max (fl.round (m.targetT1Size - delta)) 0
            b2 := b2 }
        | none => .ok m

/-- `touch`. -/
def touch : Except PyErr (ARCOffloadingManager H) := blockHashes.reverse.foldlM (touchBlock fl) m

/-- One block of `complete_load`. -/
def completeLoadBlock (m : ARCOffloadingManager H) (h : H) : Except PyErr (ARCOffloadingManager H) :=
  match m.get h with
  | none => .error (.assertionError "Block not found")
  | some block =>
    if 0 < block.refCnt then .ok (m.modify h fun b => { b with refCnt := b.refCnt - 1 })
    else .error (.assertionError "Block ref_cnt is already 0")

/-- `complete_load`. -/
def completeLoad : Except PyErr (ARCOffloadingManager H) := blockHashes.foldlM completeLoadBlock m

variable (d : OrderedDict H BlockStatus)

/-- The least recently used block that is not in use. -/
def firstIdle : Option (H × BlockStatus) :=
  d.items.find? fun e => e.2.refCnt = 0

/-- One round of the eviction loop of `prepare_store`. -/
def evictOne : Option (H × ARCOffloadingManager H) :=
  match (if truncate m.targetT1Size ≤ m.t1.entries.length then firstIdle m.t1 else none) with
  | some (h, block) =>
    some (h, { m with
      backend := m.backend.free block
      t1 := m.t1.erase h
      b1 := m.b1.setItem h () })
  | none =>
    match firstIdle m.t2 with
    | some (h, block) =>
      some (h, { m with
        backend := m.backend.free block
        t2 := m.t2.erase h
        b2 := m.b2.setItem h () })
    | none => none

/-- The eviction loop of `prepare_store`. A loop that finds too few blocks has already evicted
those it found. -/
def evictBlocks : ℕ → ARCOffloadingManager H → Option (List H) × ARCOffloadingManager H
  | 0, m => (some [], m)
  | n + 1, m =>
    match m.evictOne with
    | none => (none, m)
    | some (h, m) =>
      let (evicted, m) := evictBlocks n m
      (evicted.map (h :: ·), m)

/-- The oldest entries of a ghost list are dropped. -/
def trim : ARCOffloadingManager H :=
  { m with
    b1 := m.b1.dropFirst (m.b1.entries.length - m.cacheCapacity).toNat
    b2 := m.b2.dropFirst (m.b2.entries.length - m.cacheCapacity).toNat }

/-- A block is inserted. -/
def insertBlock (m : ARCOffloadingManager H) (e : H × BlockStatus) : ARCOffloadingManager H :=
  { m with
    t1 := m.t1.setItem e.1 e.2
    b1 := m.b1.erase e.1
    b2 := m.b2.erase e.1 }

/-- The end of `prepare_store`, once the blocks are evicted. -/
def storeBlocks (evicted toStore : List H) :
    Except PyErr (PrepareStoreOutput H × ARCOffloadingManager H) := do
  let (newBlocks, backend) ← m.backend.allocateBlocks toStore.length
  if newBlocks.length ≠ toStore.length then
    .error (.assertionError "Backend did not allocate the expected number of blocks")
  else
    return (⟨toStore, getLoadStoreSpec newBlocks, evicted⟩,
      (toStore.zip newBlocks).foldl insertBlock { m.trim with
        backend := backend
        events := record m.events m.backend evicted true })

/-- The hashes that `prepare_store` has to store. -/
def toStore : List H := blockHashes.filter fun h => h ∉ m.t1 ∧ h ∉ m.t2

/-- `prepare_store`. -/
def prepareStore : Except PyErr (Option (PrepareStoreOutput H) × ARCOffloadingManager H) :=
  let toStore := m.toStore blockHashes
  if toStore = [] then .ok (some ⟨[], getLoadStoreSpec [], []⟩, m)
  else
    let numBlocksToEvict := toStore.length - m.backend.getNumFreeBlocks
    match evictBlocks numBlocksToEvict.toNat m with
    | (none, m) => .ok (none, m)
    | (some evicted, m) => do
      let (out, m) ← m.storeBlocks evicted toStore
      return (some out, m)

/-- One block of `complete_store(success=True)`. -/
def completeStoreBlock (st : ARCOffloadingManager H × List H) (h : H) :
    ARCOffloadingManager H × List H :=
  match st.1.get h with
  | none => st
  | some block =>
    if block.isReady then st
    else (st.1.modify h fun b => { b with refCnt := 0 }, st.2 ++ [h])

/-- One block of `complete_store(success=False)`. -/
def dropStoreBlock (m : ARCOffloadingManager H) (h : H) : ARCOffloadingManager H :=
  match m.get h with
  | none => m
  | some block =>
    let m := if h ∈ m.t1 then { m with t1 := m.t1.erase h } else { m with t2 := m.t2.erase h }
    if block.isReady then m else { m with backend := m.backend.free block }

/-- `complete_store`. -/
def completeStore (success : Bool) : ARCOffloadingManager H := if success then
    let (m, stored) := blockHashes.foldl completeStoreBlock (m, [])
    { m with events := record m.events m.backend stored false }
  else blockHashes.foldl dropStoreBlock m

/-! ### What a store can evict -/

/-- The blocks that are not in use. -/
def numIdle : ℕ := d.items.countP fun e => e.2.refCnt = 0

/-- The first part gives up blocks as long as it has not fallen below its target size. -/
def numEvictableT1 : ℕ := min (numIdle m.t1) (m.t1.entries.length + 1 - truncate m.targetT1Size).toNat

/-- The second part gives up all blocks that are not in use. -/
def numEvictableT2 : ℕ := numIdle m.t2

/-! ### Where a hash is -/

/-- No hash is in two of the four dictionaries, and the target size is within the capacity. -/
structure Layout (numBlocks : ℕ) (m : ARCOffloadingManager H) : Prop where
  t1_disjoint : ∀ h ∈ m.t1, h ∉ m.t2 ∧ h ∉ m.b1 ∧ h ∉ m.b2
  t2_disjoint : ∀ h ∈ m.t2, h ∉ m.b1 ∧ h ∉ m.b2
  b1_disjoint : ∀ h ∈ m.b1, h ∉ m.b2
  capacity_eq : m.cacheCapacity = numBlocks
  target_nonneg : 0 ≤ m.targetT1Size
  target_le : m.targetT1Size ≤ m.cacheCapacity

/-- The blocks that are being stored are in the first part with the count −1; any other count is
the number of the loads of the block. -/
structure Refs (loads stores : List H) (m : ARCOffloadingManager H) : Prop where
  storing : ∀ h ∈ stores, ∃ b, m.t1.lookup h = some b ∧ b.refCnt = -1
  loading : ∀ h ∈ loads, (m.get h).isSome ∧ h ∉ stores
  ready : ∀ h b, m.get h = some b → h ∉ stores → b.refCnt = loads.count h

/-- The number of resident blocks. -/
def size (m : ARCOffloadingManager H) : ℕ := m.t1.entries.length + m.t2.entries.length

variable {m : ARCOffloadingManager H} {numBlocks : ℕ} {loads stores : List H}
  {h : H} {b : BlockStatus}

/-- The hash is in one of the four dictionaries at most. -/
def Apart (m : ARCOffloadingManager H) (h : H) : Prop :=
  (h ∈ m.t1 → h ∉ m.t2 ∧ h ∉ m.b1 ∧ h ∉ m.b2) ∧ (h ∈ m.t2 → h ∉ m.b1 ∧ h ∉ m.b2) ∧
    (h ∈ m.b1 → h ∉ m.b2)

omit [DecidableEq H] in
theorem Layout.of_apart {m' : ARCOffloadingManager H} (hl : Layout numBlocks m)
    (h : ∀ a, m.Apart a → m'.Apart a) (hcap : m'.cacheCapacity = m.cacheCapacity)
    (htarget : 0 ≤ m'.targetT1Size ∧ m'.targetT1Size ≤ m'.cacheCapacity) : Layout numBlocks m' := by
  have h' := fun a => h a ⟨hl.t1_disjoint a, hl.t2_disjoint a, hl.b1_disjoint a⟩
  exact ⟨fun a => (h' a).1, fun a => (h' a).2.1, fun a => (h' a).2.2, hcap.trans hl.capacity_eq,
    htarget.1, htarget.2⟩

omit [DecidableEq H] in
theorem Layout.target (hl : Layout numBlocks m) :
    0 ≤ m.targetT1Size ∧ m.targetT1Size ≤ m.cacheCapacity := ⟨hl.target_nonneg, hl.target_le⟩

theorem get_of_t1 (hb : m.t1.lookup h = some b) : m.get h = some b := by
  rw [get, hb]
  rfl

theorem get_of_notMem_t1 (hh : h ∉ m.t1) : m.get h = m.t2.lookup h := by
  rw [get, lookup_eq_none.2 hh]
  rfl

theorem get_eq_some_of_t2 (hl : Layout numBlocks m)
    (hb : m.t2.lookup h = some b) : m.get h = some b := by
  have hmem : h ∈ m.t2 := lookup_isSome.1 (by rw [hb]; rfl)
  rw [get_of_notMem_t1 fun hh => (hl.t1_disjoint h hh).1 hmem, hb]

/-- A block that is being stored is not ready, and any other is. -/
theorem Refs.isReady_iff (hr : Refs loads stores m)
    (hb : m.get h = some b) : b.isReady = true ↔ h ∉ stores := by
  constructor
  · intro hready hmem
    obtain ⟨b', hb', href⟩ := hr.storing h hmem
    rw [get_of_t1 hb'] at hb
    cases hb
    simp [isReady, href] at hready
  · intro hnot
    simp [isReady, hr.ready h b hb hnot]

/-- An idle block is neither stored nor loaded. -/
theorem Refs.notInUse (hr : Refs loads stores m) (hb : m.get h = some b)
    (hzero : b.refCnt = 0) : h ∉ stores ∧ h ∉ loads := by
  have hnot : h ∉ stores := (hr.isReady_iff hb).1 (by simp [isReady, hzero])
  refine ⟨hnot, count_eq_zero.1 ?_⟩
  have href := hr.ready h b hb hnot
  omega

/-! ### Changing a count -/

/-- The statuses of the resident blocks change by `f`, and nothing else changes. -/
structure Adjusts (f : H → BlockStatus → BlockStatus) (m m' : ARCOffloadingManager H) : Prop where
  rest : m' = { m with t1 := m'.t1, t2 := m'.t2, events := m'.events }
  keys_t1 : m'.t1.keys = m.t1.keys
  keys_t2 : m'.t2.keys = m.t2.keys
  t1 : ∀ a, m'.t1.lookup a = (m.t1.lookup a).map (f a)
  get : ∀ a, m'.get a = (m.get a).map (f a)

theorem Adjusts.refl (m : ARCOffloadingManager H) : Adjusts (fun _ b => b) m m :=
  ⟨rfl, rfl, rfl, fun _ => Option.map_id'.symm, fun _ => Option.map_id'.symm⟩

variable {f : H → BlockStatus → BlockStatus} {m₁ m₂ m₃ : ARCOffloadingManager H}

variable {g : H → BlockStatus → BlockStatus}

theorem Adjusts.trans (h₁ : Adjusts f m₁ m₂)
    (h₂ : Adjusts g m₂ m₃) : Adjusts (fun a b => g a (f a b)) m₁ m₃ := by
  refine ⟨?_, h₂.keys_t1.trans h₁.keys_t1, h₂.keys_t2.trans h₁.keys_t2, fun a => ?_, fun a => ?_⟩
  · rw [h₂.rest, h₁.rest]
  · rw [h₂.t1, h₁.t1, Option.map_map]
    rfl
  · rw [h₂.get, h₁.get, Option.map_map]
    rfl

theorem adjusts_modify (m : ARCOffloadingManager H) (h : H) (f : BlockStatus → BlockStatus) :
    Adjusts (fun a b => if a = h then f b else b) m (m.modify h f) := by
  unfold ARCOffloadingManager.modify
  by_cases hmem : h ∈ m.t1
  · rw [if_pos hmem]
    have ht1 : ∀ a, (m.t1.modify h f).lookup a =
        (m.t1.lookup a).map fun b => if a = h then f b else b := by
      intro a
      rw [lookup_modify]
      by_cases ha : a = h
      · subst ha
        simp
      · simp [ha]
    refine ⟨rfl, keys_modify _ _ _, rfl, ht1, fun a => ?_⟩
    show ((m.t1.modify h f).lookup a).or (m.t2.lookup a) = _
    rw [ht1, ARCOffloadingManager.get]
    cases hb : m.t1.lookup a with
    | some b => rfl
    | none =>
      have ha : a ≠ h := fun heq => lookup_eq_none.1 hb (heq ▸ hmem)
      simp [ha]
  · rw [if_neg hmem]
    have ht1 : ∀ a, m.t1.lookup a = (m.t1.lookup a).map fun b => if a = h then f b else b := by
      intro a
      by_cases ha : a = h
      · rw [ha, lookup_eq_none.2 hmem]
        rfl
      · simp [ha]
    refine ⟨rfl, rfl, keys_modify _ _ _, ht1, fun a => ?_⟩
    show (m.t1.lookup a).or ((m.t2.modify h f).lookup a) = _
    rw [lookup_modify, ARCOffloadingManager.get]
    by_cases ha : a = h
    · subst ha
      rw [AList.lookup_eq_none.2 hmem]
      simp
    · simp [ha]

variable {m' : ARCOffloadingManager H}

theorem Adjusts.layout (h : Adjusts f m m') (hl : Layout numBlocks m) : Layout numBlocks m' := by
  have hrest := h.rest
  have h₁ : ∀ a, a ∈ m'.t1 ↔ a ∈ m.t1 := fun a => by
    rw [AList.mem_keys, AList.mem_keys, h.keys_t1]
  have h₂ : ∀ a, a ∈ m'.t2 ↔ a ∈ m.t2 := fun a => by
    rw [AList.mem_keys, AList.mem_keys, h.keys_t2]
  have hb₁ : m'.b1 = m.b1 := by rw [hrest]
  have hb₂ : m'.b2 = m.b2 := by rw [hrest]
  refine hl.of_apart (fun a ha => ?_) (by rw [hrest]) (by rw [hrest]; exact hl.target)
  unfold Apart
  rwa [h₁, h₂, hb₁, hb₂]

omit [DecidableEq H] in
theorem length_keys (d : OrderedDict H BlockStatus) : d.keys.length = d.entries.length :=
  length_map _

theorem Adjusts.size_eq (h : Adjusts f m m') : m'.size = m.size := by
  unfold size
  rw [← length_keys, ← length_keys, h.keys_t1, h.keys_t2, length_keys, length_keys]

/-! ### Touching -/

theorem mem_of_moveToEnd? {β : Type} {d d' : OrderedDict H β}
    (hd : d.moveToEnd? h = some d') : h ∈ d ∧ (∀ a, d'.lookup a = d.lookup a) ∧
      (∀ a, a ∈ d' ↔ a ∈ d) ∧ d'.entries.length = d.entries.length := by
  obtain ⟨b, hb, rfl⟩ := moveToEnd?_eq_some hd
  have hperm := insert_perm_of_lookup hb
  exact ⟨lookup_isSome.1 (by rw [hb]; rfl), lookup_insert_of_lookup hb,
    fun a => mem_of_perm hperm, hperm.length_eq⟩

/-- What one block of `touch` changes. -/
structure Touches (numBlocks : ℕ) (m m' : ARCOffloadingManager H) : Prop where
  layout : Layout numBlocks m'
  backend : m'.backend = m.backend
  get : ∀ a, m'.get a = m.get a
  size_eq : m'.size = m.size
  t1 : ∀ a b, m'.t1.lookup a = some b → m.t1.lookup a = some b
  notReady : ∀ a b, m.t1.lookup a = some b → b.isReady = false → m'.t1.lookup a = some b
  b1 : m'.b1.entries.length = m.b1.entries.length
  b2 : m'.b2.entries.length = m.b2.entries.length

theorem Touches.refl (hl : Layout numBlocks m) : Touches numBlocks m m :=
  ⟨hl, rfl, fun _ => rfl, rfl, fun _ _ h => h, fun _ _ h _ => h, rfl, rfl⟩

theorem Touches.trans (h₁ : Touches numBlocks m₁ m₂)
    (h₂ : Touches numBlocks m₂ m₃) : Touches numBlocks m₁ m₃ :=
  ⟨h₂.layout, h₂.backend.trans h₁.backend, fun a => (h₂.get a).trans (h₁.get a),
    h₂.size_eq.trans h₁.size_eq, fun a b h => h₁.t1 a b (h₂.t1 a b h),
    fun a b h hb => h₂.notReady a b (h₁.notReady a b h hb) hb, h₂.b1.trans h₁.b1,
    h₂.b2.trans h₁.b2⟩

/-- A ready block of the first part goes over to the second. -/
theorem touches_t1 (hl : Layout numBlocks m) (hb : m.t1.lookup h = some b)
    (hready : b.isReady = true) :
    Touches numBlocks m { m with t1 := m.t1.erase h, t2 := m.t2.setItem h b } := by
  have hmem : h ∈ m.t1 := lookup_isSome.1 (by rw [hb]; rfl)
  obtain ⟨hnot, hb₁, hb₂⟩ := hl.t1_disjoint h hmem
  refine ⟨hl.of_apart (fun a ha => ?_) rfl hl.target, rfl,
    fun a => ?_, ?_, fun a b' hb' => ?_, fun a b' hb' hfalse => ?_, rfl, rfl⟩
  · grind [Apart, mem_erase, mem_setItem]
  · show ((m.t1.erase h).lookup a).or ((m.t2.setItem h b).lookup a) = _
    rw [lookup_setItem, get]
    by_cases ha : a = h
    · subst ha
      rw [lookup_erase, if_pos rfl, hb]
      rfl
    · rw [lookup_erase_ne ha, if_neg ha]
  · show (m.t1.erase h).entries.length + (m.t2.setItem h b).entries.length = _
    have herase := length_erase hmem
    rw [length_setItem hnot]
    unfold size
    omega
  · change (m.t1.erase h).lookup a = some b' at hb'
    by_cases ha : a = h
    · rw [ha, lookup_erase] at hb'
      cases hb'
    · rwa [lookup_erase_ne ha] at hb'
  · show (m.t1.erase h).lookup a = some b'
    have ha : a ≠ h := by
      rintro rfl
      rw [hb] at hb'
      cases hb'
      rw [hready] at hfalse
      cases hfalse
    rwa [lookup_erase_ne ha]

theorem round_nonneg {x : ℚ} (hx : 0 ≤ x) : 0 ≤ fl.round x := by
  have h := fl.mono 0 x hx
  rwa [← cast_zero, fl.round_nat 0 (zero_le _), cast_zero] at h

theorem touchBlock_eq (hl : Layout numBlocks m) (hcap : numBlocks ≤ 2 ^ 53)
    (hready : ∀ b, m.t1.lookup h = some b → b.isReady = true) :
    ∃ m', touchBlock fl m h = .ok m' ∧ Touches numBlocks m m' := by
  unfold touchBlock
  cases hb : m.t1.lookup h with
  | some b =>
    have hbready := hready b hb
    simp only [hbready]
    exact ⟨_, rfl, touches_t1 hl hb hbready⟩
  | none =>
    have hcap₀ : (0 : ℚ) ≤ (m.cacheCapacity : ℚ) := hl.target_nonneg.trans hl.target_le
    cases ht₂ : m.t2.moveToEnd? h with
    | some t2 =>
      obtain ⟨-, hlookup, hmem, hlen⟩ := mem_of_moveToEnd? ht₂
      refine ⟨_, rfl, hl.of_apart (fun a ha => by grind [Apart]) rfl hl.target, rfl, fun a => ?_, ?_,
        fun _ _ h => h, fun _ _ h _ => h, rfl, rfl⟩
      · show (m.t1.lookup a).or (t2.lookup a) = _
        rw [hlookup, get]
      · show m.t1.entries.length + t2.entries.length = _
        rw [hlen, size]
    | none =>
      cases hb₁ : m.b1.moveToEnd? h with
      | some b1 =>
        obtain ⟨-, -, hmem, hlen⟩ := mem_of_moveToEnd? hb₁
        refine ⟨_, rfl, hl.of_apart (fun a ha => by grind [Apart]) rfl ⟨?_, min_le_right _ _⟩, rfl,
          fun _ => rfl, rfl, fun _ _ h => h, fun _ _ h _ => h, hlen, rfl⟩
        refine le_min (round_nonneg fl ?_) hcap₀
        have hdelta := le_max_left (1 : ℚ) (fl.round (m.b2.entries.length / m.b1.entries.length))
        have htarget := hl.target_nonneg
        linarith
      | none =>
        cases hb₂ : m.b2.moveToEnd? h with
        | some b2 =>
          obtain ⟨-, -, hmem, hlen⟩ := mem_of_moveToEnd? hb₂
          refine ⟨_, rfl, hl.of_apart (fun a ha => by grind [Apart]) rfl
            ⟨le_max_right _ _, max_le ?_ hcap₀⟩, rfl, fun _ => rfl, rfl, fun _ _ h => h,
            fun _ _ h _ => h, rfl, hlen⟩
          -- the target falls, and the capacity is not rounded
          have hcap' : (m.cacheCapacity : ℚ) = numBlocks := by rw [hl.capacity_eq, Int.cast_natCast]
          have hdelta := le_max_left (1 : ℚ) (fl.round (m.b1.entries.length / m.b2.entries.length))
          have htarget := hl.target_le
          rw [hcap', ← fl.round_nat numBlocks hcap]
          refine fl.mono _ _ ?_
          linarith
        | none => exact ⟨m, rfl, .refl hl⟩

variable {hs : List H}

theorem touch_eq (hl : Layout numBlocks m) (hcap : numBlocks ≤ 2 ^ 53)
    (hready : ∀ h ∈ hs, ∀ b, m.t1.lookup h = some b → b.isReady = true) :
    ∃ m', m.touch fl hs = .ok m' ∧ Touches numBlocks m m' := by
  unfold touch
  have hready' : ∀ h ∈ hs.reverse, ∀ b, m.t1.lookup h = some b → b.isReady = true :=
    fun h hh => hready h (mem_reverse.1 hh)
  generalize hs.reverse = hs at hready'
  clear hready
  induction hs generalizing m with
  | nil => exact ⟨m, rfl, .refl hl⟩
  | cons h hs ih =>
    obtain ⟨m₁, hm₁, ht⟩ := touchBlock_eq fl hl hcap (hready' h (.head _))
    obtain ⟨m₂, hm₂, ht'⟩ := ih ht.layout fun a ha b hb =>
      hready' a (.tail _ ha) b (ht.t1 a b hb)
    exact ⟨m₂, bind_ok.2 ⟨m₁, hm₁, hm₂⟩, ht.trans ht'⟩

/-- A block that is being stored cannot be touched: it is popped and then not found. -/
theorem touch_ne_ok (hl : Layout numBlocks m) (hcap : numBlocks ≤ 2 ^ 53) (hh : h ∈ hs)
    (hb : m.t1.lookup h = some b) (hready : b.isReady = false)
    (m' : ARCOffloadingManager H) : m.touch fl hs ≠ .ok m' := by
  have herror : ∀ {m : ARCOffloadingManager H} {a : H} {b : BlockStatus},
      m.t1.lookup a = some b → b.isReady = false → touchBlock fl m a = .error (.keyError "") := by
    intro m a b hb hready
    unfold touchBlock
    have hnone : moveToEnd? (m.t1.erase a) a = none := by
      rw [moveToEnd?, lookup_erase]
      rfl
    simp [hb, hready, hnone]
  unfold touch
  have hh : h ∈ hs.reverse := mem_reverse.2 hh
  generalize hs.reverse = hs at hh
  induction hs generalizing m with
  | nil => cases hh
  | cons a hs ih =>
    intro hrun
    obtain ⟨m₁, hm₁, hrun⟩ := bind_ok.1 hrun
    by_cases ha : ∀ b, m.t1.lookup a = some b → b.isReady = true
    · obtain ⟨m₁', hm₁', ht⟩ := touchBlock_eq fl hl hcap ha
      rw [hm₁] at hm₁'
      cases hm₁'
      rcases mem_cons.1 hh with rfl | hh
      · rw [ha b hb] at hready
        cases hready
      · exact ih ht.layout (ht.notReady h b hb hready) hh hrun
    · push Not at ha
      obtain ⟨b', hb', hready'⟩ := ha
      rw [herror hb' (by simpa using hready')] at hm₁
      cases hm₁

theorem Touches.refs (h : Touches numBlocks m m')
    (hr : Refs loads stores m) : Refs loads stores m' := by
  refine ⟨fun a ha => ?_, fun a ha => ?_, fun a b hb => ?_⟩
  · obtain ⟨b, hb, href⟩ := hr.storing a ha
    exact ⟨b, h.notReady a b hb (by simp [isReady, href]), href⟩
  · rw [h.get]
    exact hr.loading a ha
  · rw [h.get] at hb
    exact hr.ready a b hb

/-! ### Evictions -/

variable {d : OrderedDict H BlockStatus}

theorem numIdle_erase (hb : d.lookup h = some b)
    (hzero : b.refCnt = 0) : numIdle (d.erase h) + 1 = numIdle d := by
  have hcount : ∀ d : OrderedDict H BlockStatus,
      numIdle d = d.entries.countP fun e => e.2.refCnt = 0 := fun d => by
    unfold numIdle items
    rw [countP_reverse, countP_map]
    rfl
  rw [hcount, hcount, (entries_perm_cons_erase hb).countP_eq,
    countP_cons_of_pos (by simpa using hzero)]

theorem firstIdle_eq_some
    (hd : firstIdle d = some (h, b)) : d.lookup h = some b ∧ b.refCnt = 0 := by
  have hmem := mem_of_find?_eq_some hd
  have hzero := find?_some hd
  unfold items at hmem
  rw [mem_reverse, mem_map] at hmem
  obtain ⟨⟨h', b'⟩, hmem, heq⟩ := hmem
  cases heq
  exact ⟨mem_entries.1 hmem, by simpa using hzero⟩

omit [DecidableEq H] in
theorem firstIdle_eq_none (hd : firstIdle d = none) : numIdle d = 0 := by
  unfold numIdle
  rw [countP_eq_zero]
  exact find?_eq_none.1 hd

/-- `n₁` blocks of the first part are evicted, and `n₂` of the second. -/
structure Evicts (numBlocks : ℕ) (loads stores : List H) (n₁ n₂ : ℕ)
    (m m' : ARCOffloadingManager H) : Prop where
  layout : Layout numBlocks m'
  refs : Refs loads stores m'
  mem_t1 : ∀ a ∈ m'.t1, a ∈ m.t1
  mem_t2 : ∀ a ∈ m'.t2, a ∈ m.t2
  size_eq : m'.size + n₁ + n₂ = m.size
  backend : m'.backend = { m.backend with
    allocatedBlocksFreeList := m'.backend.allocatedBlocksFreeList }
  length : m'.backend.allocatedBlocksFreeList.length =
    m.backend.allocatedBlocksFreeList.length + n₁ + n₂
  b1 : m'.b1.entries.length = m.b1.entries.length + n₁
  b2 : m'.b2.entries.length = m.b2.entries.length + n₂
  evictableT1 : m'.numEvictableT1 + n₁ = m.numEvictableT1
  evictableT2 : m'.numEvictableT2 + n₂ = m.numEvictableT2

theorem Evicts.refl (hl : Layout numBlocks m) (hr : Refs loads stores m) :
    Evicts numBlocks loads stores 0 0 m m :=
  ⟨hl, hr, fun _ h => h, fun _ h => h, rfl, rfl, rfl, rfl, rfl, rfl, rfl⟩

theorem Evicts.trans {n₁ n₂ k₁ k₂ : ℕ} (h₁ : Evicts numBlocks loads stores n₁ n₂ m₁ m₂)
    (h₂ : Evicts numBlocks loads stores k₁ k₂ m₂ m₃) :
    Evicts numBlocks loads stores (n₁ + k₁) (n₂ + k₂) m₁ m₃ where
  layout := h₂.layout
  refs := h₂.refs
  mem_t1 := fun a ha => h₁.mem_t1 a (h₂.mem_t1 a ha)
  mem_t2 := fun a ha => h₁.mem_t2 a (h₂.mem_t2 a ha)
  size_eq := by linarith [h₁.size_eq, h₂.size_eq]
  backend := by rw [h₂.backend, h₁.backend]
  length := by linarith [h₁.length, h₂.length]
  b1 := by linarith [h₁.b1, h₂.b1]
  b2 := by linarith [h₁.b2, h₂.b2]
  evictableT1 := by linarith [h₁.evictableT1, h₂.evictableT1]
  evictableT2 := by linarith [h₁.evictableT2, h₂.evictableT2]

theorem Refs.drop (hr : Refs loads stores m) (hb : m.get h = some b) (hzero : b.refCnt = 0)
    (hnone : m'.get h = none)
    (hothers : ∀ a ≠ h, m'.t1.lookup a = m.t1.lookup a ∧ m'.t2.lookup a = m.t2.lookup a) :
    Refs loads stores m' := by
  obtain ⟨hstores, hloads⟩ := hr.notInUse hb hzero
  have hget : ∀ a ≠ h, m'.get a = m.get a := fun a ha => by
    rw [get, get, (hothers a ha).1, (hothers a ha).2]
  refine ⟨fun a ha => ?_, fun a ha => ?_, fun a b' hb' hnot => ?_⟩
  · obtain ⟨b', hb', href⟩ := hr.storing a ha
    exact ⟨b', (hothers a fun heq => hstores (heq ▸ ha)).1.trans hb', href⟩
  · obtain ⟨hsome, hnot⟩ := hr.loading a ha
    exact ⟨by rwa [hget a fun heq => hloads (heq ▸ ha)], hnot⟩
  · by_cases ha : a = h
    · rw [ha, hnone] at hb'
      cases hb'
    · exact hr.ready a b' (by rwa [hget a ha] at hb') hnot

section

variable (hl : Layout numBlocks m) (hr : Refs loads stores m)

include hl hr

/-- A block that is not in use leaves its part for the ghost list. -/
theorem evicts_t1 (hb : m.t1.lookup h = some b)
    (hzero : b.refCnt = 0) (htarget : truncate m.targetT1Size ≤ m.t1.entries.length) :
    Evicts numBlocks loads stores 1 0 m { m with
      backend := m.backend.free b
      t1 := m.t1.erase h
      b1 := m.b1.setItem h () } := by
  have hmem : h ∈ m.t1 := lookup_isSome.1 (by rw [hb]; rfl)
  obtain ⟨ht₂, hb₁, hb₂⟩ := hl.t1_disjoint h hmem
  have hlen := length_erase hmem
  have hidle := numIdle_erase hb hzero
  refine ⟨hl.of_apart (fun a ha => by grind [Apart, mem_erase, mem_setItem]) rfl hl.target,
    hr.drop (get_of_t1 hb) hzero ?_ fun a ha => ⟨lookup_erase_ne ha, rfl⟩,
    fun a ha => (mem_erase.1 ha).2, fun _ ha => ha, ?_, rfl, ?_,
    length_setItem hb₁ (), rfl, ?_, rfl⟩
  · rw [get, lookup_erase, lookup_eq_none.2 ht₂]
    rfl
  · show (m.t1.erase h).entries.length + m.t2.entries.length + 1 + 0 = m.size
    unfold size
    omega
  · exact length_append
  · unfold numEvictableT1
    dsimp only
    omega

theorem evicts_t2 (hb : m.t2.lookup h = some b)
    (hzero : b.refCnt = 0) :
    Evicts numBlocks loads stores 0 1 m { m with
      backend := m.backend.free b
      t2 := m.t2.erase h
      b2 := m.b2.setItem h () } := by
  have hmem : h ∈ m.t2 := lookup_isSome.1 (by rw [hb]; rfl)
  obtain ⟨hb₁, hb₂⟩ := hl.t2_disjoint h hmem
  have ht₁ : h ∉ m.t1 := fun hh => (hl.t1_disjoint h hh).1 hmem
  have hlen := length_erase hmem
  have hidle := numIdle_erase hb hzero
  refine ⟨hl.of_apart (fun a ha => by grind [Apart, mem_erase, mem_setItem]) rfl hl.target,
    hr.drop (get_eq_some_of_t2 hl hb) hzero ?_ fun a ha => ⟨rfl, lookup_erase_ne ha⟩,
    fun _ ha => ha, fun a ha => (mem_erase.1 ha).2, ?_, rfl, ?_, rfl,
    length_setItem hb₂ (), rfl, ?_⟩
  · rw [get, lookup_erase, lookup_eq_none.2 ht₁]
    rfl
  · show m.t1.entries.length + (m.t2.erase h).entries.length + 0 + 1 = m.size
    unfold size
    omega
  · exact length_append
  · exact hidle

/-- The first part gives up a block if it can, else the second. -/
theorem evictOne_cases : (∃ h m' n₁ n₂, m.evictOne = some (h, m') ∧ n₁ + n₂ = 1 ∧
      Evicts numBlocks loads stores n₁ n₂ m m') ∨
    m.numEvictableT1 = 0 ∧ m.numEvictableT2 = 0 ∧ m.evictOne = none := by
  unfold evictOne
  cases hfirst : (if truncate m.targetT1Size ≤ m.t1.entries.length then firstIdle m.t1 else none) with
  | some e =>
    obtain ⟨h, b⟩ := e
    split at hfirst
    · next htarget =>
      obtain ⟨hb, hzero⟩ := firstIdle_eq_some hfirst
      exact .inl ⟨h, _, 1, 0, rfl, rfl, evicts_t1 hl hr hb hzero htarget⟩
    · cases hfirst
  | none =>
    have hzero : m.numEvictableT1 = 0 := by
      unfold numEvictableT1
      split at hfirst
      · rw [firstIdle_eq_none hfirst, zero_min]
      · omega
    cases hsecond : firstIdle m.t2 with
    | some e =>
      obtain ⟨h, b⟩ := e
      obtain ⟨hb, hb₀⟩ := firstIdle_eq_some hsecond
      exact .inl ⟨h, _, 0, 1, rfl, rfl, evicts_t2 hl hr hb hb₀⟩
    | none => exact .inr ⟨hzero, firstIdle_eq_none hsecond, rfl⟩

end

/-- Either the blocks are evicted, or all that can be evicted are, and they are too few. -/
theorem evictBlocks_cases (n : ℕ) (hl : Layout numBlocks m) (hr : Refs loads stores m) :
    (∃ evicted m' n₁ n₂, evictBlocks n m = (some evicted, m') ∧ n₁ + n₂ = n ∧
      Evicts numBlocks loads stores n₁ n₂ m m') ∨
    ∃ m', evictBlocks n m = (none, m') ∧ m.numEvictableT1 + m.numEvictableT2 < n ∧
      Evicts numBlocks loads stores m.numEvictableT1 m.numEvictableT2 m m' := by
  induction n generalizing m with
  | zero => exact .inl ⟨[], m, 0, 0, rfl, rfl, .refl hl hr⟩
  | succ n ih =>
    rw [evictBlocks]
    rcases evictOne_cases hl hr with ⟨h, m₁, k₁, k₂, hone, hk, he⟩ | ⟨hzero, hzero', hone⟩
    · simp only [hone]
      have h₁ := he.evictableT1
      have h₂ := he.evictableT2
      rcases ih he.layout he.refs with ⟨evicted, m', n₁, n₂, hrun, hn, he'⟩ | ⟨m', hrun, hn, he'⟩
      · exact .inl ⟨h :: evicted, m', k₁ + n₁, k₂ + n₂, by rw [hrun]; rfl, by omega, he.trans he'⟩
      · refine .inr ⟨m', by rw [hrun]; rfl, by omega, ?_⟩
        rw [← h₁, ← h₂, add_comm _ k₁, add_comm _ k₂]
        exact he.trans he'
    · simp only [hone]
      refine .inr ⟨m, rfl, by omega, ?_⟩
      rw [hzero, hzero']
      exact .refl hl hr

/-! ### Insertions -/

omit [DecidableEq H] in
theorem trim_layout (hl : Layout numBlocks m) : Layout numBlocks m.trim :=
  hl.of_apart (fun a ha => by grind [Apart, trim, mem_of_mem_dropFirst]) rfl hl.target

omit [DecidableEq H] in
/-- The ghost lists are within the capacity. -/
theorem length_trim (hl : m.cacheCapacity = numBlocks) :
    m.trim.b1.entries.length ≤ numBlocks ∧ m.trim.b2.entries.length ≤ numBlocks := by
  unfold trim
  rw [length_dropFirst, length_dropFirst]
  omega

/-- New blocks go to the first part and leave the ghost lists. -/
structure Inserts (numBlocks : ℕ) (loads stores : List H) (n : ℕ) (m m' : ARCOffloadingManager H) :
    Prop where
  layout : Layout numBlocks m'
  refs : Refs loads stores m'
  backend : m'.backend = m.backend
  size_eq : m'.size = m.size + n
  b1 : m'.b1.entries.length ≤ m.b1.entries.length
  b2 : m'.b2.entries.length ≤ m.b2.entries.length

theorem length_erase_le {β : Type} (d : OrderedDict H β) (h : H) :
    (d.erase h).entries.length ≤ d.entries.length := by
  by_cases hmem : h ∈ d
  · exact le_of_lt (lt_of_succ_le (length_erase hmem).le)
  · show (List.kerase h d.entries).length ≤ _
    rw [kerase_of_notMem_keys hmem]

theorem insertBlock_eq (hl : Layout numBlocks m) (hr : Refs loads stores m) {e : H × BlockStatus}
    (hnew : e.1 ∉ m.t1 ∧ e.1 ∉ m.t2) (href : e.2.refCnt = -1) :
    Inserts numBlocks loads (e.1 :: stores) 1 m (m.insertBlock e) := by
  obtain ⟨ht₁, ht₂⟩ := hnew
  have hget : ∀ a, a ≠ e.1 → (m.insertBlock e).get a = m.get a := fun a ha => by
    show ((m.t1.setItem e.1 e.2).lookup a).or (m.t2.lookup a) = _
    rw [lookup_setItem, if_neg ha, get]
  have hnone : m.get e.1 = none := by
    rw [get, lookup_eq_none.2 ht₁, lookup_eq_none.2 ht₂]
    rfl
  refine ⟨hl.of_apart (fun a ha => ?_) rfl hl.target,
    ⟨fun a ha => ?_, fun a ha => ?_, fun a b hb hnot => ?_⟩, rfl, ?_,
    length_erase_le _ _, length_erase_le _ _⟩
  · grind [Apart, insertBlock, mem_erase, mem_setItem]
  · show ∃ b, (m.t1.setItem e.1 e.2).lookup a = some b ∧ b.refCnt = -1
    rw [lookup_setItem]
    by_cases hae : a = e.1
    · exact ⟨e.2, if_pos hae, href⟩
    · rw [if_neg hae]
      exact hr.storing a ((mem_cons.1 ha).resolve_left hae)
  · obtain ⟨hsome, hnot⟩ := hr.loading a ha
    have hae : a ≠ e.1 := fun heq => by
      rw [heq, hnone] at hsome
      cases hsome
    rw [hget a hae]
    exact ⟨hsome, fun hmem => (mem_cons.1 hmem).elim hae hnot⟩
  · rw [mem_cons, not_or] at hnot
    rw [hget a hnot.1] at hb
    exact hr.ready a b hb hnot.2
  · show (m.t1.setItem e.1 e.2).entries.length + m.t2.entries.length = _
    rw [length_setItem ht₁]
    unfold size
    omega

theorem foldl_insertBlock {l : List (H × BlockStatus)} (hnodup : (l.map fst).Nodup)
    (href : ∀ e ∈ l, e.2.refCnt = -1) (hl : Layout numBlocks m) (hr : Refs loads stores m)
    (hnew : ∀ h ∈ l.map fst, h ∉ m.t1 ∧ h ∉ m.t2) :
    Inserts numBlocks loads ((l.map fst).reverse ++ stores) l.length m (l.foldl insertBlock m) := by
  induction l generalizing m stores with
  | nil => exact ⟨hl, hr, rfl, rfl, le_rfl, le_rfl⟩
  | cons e l ih =>
    obtain ⟨hh, hnodup⟩ := nodup_cons.1 hnodup
    have h₁ := insertBlock_eq hl hr (hnew e.1 (.head _)) (href e (.head _))
    have h₂ := ih hnodup (fun e' he => href e' (.tail _ he)) h₁.layout h₁.refs
      fun a ha => ⟨fun hmem => ?_, (hnew a (.tail _ ha)).2⟩
    · rw [map_cons, reverse_cons, append_assoc]
      have hsize := h₁.size_eq
      have hsize' := h₂.size_eq
      refine ⟨h₂.layout, h₂.refs, h₂.backend.trans h₁.backend, ?_, h₂.b1.trans h₁.b1,
        h₂.b2.trans h₁.b2⟩
      rw [foldl_cons, length_cons]
      omega
    · rcases mem_setItem.1 hmem with rfl | hmem
      · exact hh ha
      · exact (hnew a (.tail _ ha)).1 hmem

/-- The resident blocks and the free ones are all blocks. -/
structure Counts (numBlocks : ℕ) (m : ARCOffloadingManager H) : Prop where
  size_add : (m.size : ℤ) + m.backend.getNumFreeBlocks = numBlocks
  le : m.backend.numAllocatedBlocks ≤ m.backend.numBlocks

section

variable (hl : Layout numBlocks m) (hr : Refs loads stores m) (hc : Counts numBlocks m)

include hl hr hc

theorem storeBlocks_eq {evicted toStore : List H} (hnodup : toStore.Nodup)
    (hnew : ∀ h ∈ toStore, h ∉ m.t1 ∧ h ∉ m.t2)
    (hfree : (toStore.length : ℤ) ≤ m.backend.getNumFreeBlocks) :
    ∃ out m', m.storeBlocks evicted toStore = .ok (out, m') ∧ out.blockHashesToStore = toStore ∧
      Layout numBlocks m' ∧ Refs loads (toStore.reverse ++ stores) m' ∧ Counts numBlocks m' ∧
      m'.b1.entries.length ≤ numBlocks ∧ m'.b2.entries.length ≤ numBlocks := by
  obtain ⟨⟨newBlocks, backend⟩, halloc⟩ := exists_allocateBlocks hc.le hfree
  have ha := allocateBlocks_eq hc.le halloc
  have hfst : (toStore.zip newBlocks).map fst = toStore := map_fst_zip (by rw [ha.length_eq])
  have hlen : (toStore.zip newBlocks).length = toStore.length := by
    rw [length_zip, ha.length_eq, min_self]
  have hl' := trim_layout hl
  obtain ⟨hb₁, hb₂⟩ := length_trim hl.capacity_eq
  have hl₁ : Layout numBlocks { m.trim with
      backend := backend, events := record m.events m.backend evicted true } :=
    ⟨hl'.t1_disjoint, hl'.t2_disjoint, hl'.b1_disjoint, hl'.capacity_eq, hl'.target_nonneg,
      hl'.target_le⟩
  have hr₁ : Refs loads stores { m.trim with
      backend := backend, events := record m.events m.backend evicted true } :=
    ⟨hr.storing, hr.loading, hr.ready⟩
  have hi := foldl_insertBlock (by rwa [hfst])
    (fun e he => ha.notReady e.2 (of_mem_zip he).2) hl₁ hr₁ (by rwa [hfst])
  rw [hfst, hlen] at hi
  refine ⟨⟨toStore, getLoadStoreSpec newBlocks, evicted⟩, _, ?_, rfl, hi.layout, hi.refs,
    ⟨?_, ?_⟩, hi.b1.trans hb₁, hi.b2.trans hb₂⟩
  · unfold storeBlocks
    simp only [halloc, ok_bind]
    rw [if_neg (not_not_intro ha.length_eq)]
    rfl
  · have hids := ha.ids_perm.length_eq
    rw [length_append, length_map, ha.length_eq] at hids
    have h₁ := length_freeIds ha.le
    have h₂ := length_freeIds hc.le
    have h₃ := hc.size_add
    rw [hi.backend, hi.size_eq]
    have hsize : size { m.trim with
      backend := backend, events := record m.events m.backend evicted true } = m.size := rfl
    rw [hsize]
    dsimp only
    omega
  · rw [hi.backend]
    exact ha.le

/-- What `prepare_store` does: nothing if there is nothing to store, and if it is refused it has
evicted all blocks that it found. -/
theorem prepareStore_cases (hnodup : hs.Nodup) :
    (∃ out, m.prepareStore hs = .ok (some out, m) ∧ out.blockHashesToStore = [] ∧
      m.toStore hs = []) ∨
    (∃ m', m.prepareStore hs = .ok (none, m') ∧ (m.numEvictableT1 + m.numEvictableT2 : ℤ) <
        (m.toStore hs).length - m.backend.getNumFreeBlocks ∧
      Evicts numBlocks loads stores m.numEvictableT1 m.numEvictableT2 m m') ∨
    ∃ out m', m.prepareStore hs = .ok (some out, m') ∧
      ((m.toStore hs).length - m.backend.getNumFreeBlocks : ℤ) ≤
        m.numEvictableT1 + m.numEvictableT2 ∧ Layout numBlocks m' ∧
      Refs loads (out.blockHashesToStore.reverse ++ stores) m' ∧ Counts numBlocks m' ∧
      m'.b1.entries.length ≤ numBlocks ∧ m'.b2.entries.length ≤ numBlocks := by
  unfold prepareStore
  dsimp only
  by_cases hempty : m.toStore hs = []
  · rw [if_pos hempty]
    exact .inl ⟨_, rfl, rfl, hempty⟩
  rw [if_neg hempty]
  have hnew : ∀ h ∈ m.toStore hs, h ∉ m.t1 ∧ h ∉ m.t2 := fun h hh => by
    simpa using (mem_filter.1 hh).2
  rcases evictBlocks_cases ((m.toStore hs).length - m.backend.getNumFreeBlocks).toNat hl hr with
    ⟨evicted, m₁, n₁, n₂, hrun, hn, he⟩ | ⟨m₁, hrun, hn, he⟩
  · rw [hrun]
    have hfree : m₁.backend.getNumFreeBlocks = m.backend.getNumFreeBlocks + n₁ + n₂ := by
      have hlength := he.length
      unfold getNumFreeBlocks
      rw [he.backend]
      dsimp only
      omega
    have hc₁ : Counts numBlocks m₁ := by
      have hsize := he.size_eq
      have hadd := hc.size_add
      refine ⟨by omega, ?_⟩
      rw [he.backend]
      exact hc.le
    have hnodup' : (m.toStore hs).Nodup := hnodup.filter _
    have henough : ((m.toStore hs).length : ℤ) ≤ m₁.backend.getNumFreeBlocks := by omega
    obtain ⟨out, m', hstore, hto, hl', hr', hc', hb₁, hb₂⟩ := storeBlocks_eq he.layout he.refs hc₁
      hnodup' (fun h hh => ⟨fun hmem => (hnew h hh).1 (he.mem_t1 h hmem),
        fun hmem => (hnew h hh).2 (he.mem_t2 h hmem)⟩) henough
    have h₁ := he.evictableT1
    have h₂ := he.evictableT2
    refine .inr (.inr ⟨out, m', bind_ok.2 ⟨_, hstore, rfl⟩, by omega, hl', ?_, hc', hb₁, hb₂⟩)
    rwa [hto]
  · rw [hrun]
    exact .inr (.inl ⟨m₁, rfl, by omega, he⟩)

end

/-! ### Loads and completions -/

theorem Adjusts.congr (h : Adjusts f m m')
    (hfg : ∀ a b, m.get a = some b → f a b = g a b) : Adjusts g m m' := by
  refine ⟨h.rest, h.keys_t1, h.keys_t2, fun a => ?_, fun a => ?_⟩
  · rw [h.t1]
    exact Option.map_congr fun b hb => hfg a b (get_of_t1 hb)
  · rw [h.get]
    exact Option.map_congr fun b hb => hfg a b hb

theorem Adjusts.counts (h : Adjusts f m m') (hc : Counts numBlocks m) : Counts numBlocks m' := by
  have hbackend : m'.backend = m.backend := by rw [h.rest]
  refine ⟨?_, ?_⟩
  · rw [h.size_eq, hbackend]
    exact hc.size_add
  · rw [hbackend]
    exact hc.le

/-- The count of a block that is listed in `hs` changes by `δ`, as often as it is listed. -/
def adjust (hs : List H) (δ : ℤ) (a : H) (b : BlockStatus) : BlockStatus :=
  { b with refCnt := b.refCnt + δ * hs.count a }

theorem adjust_cons (h : H) (hs : List H) (δ : ℤ) (a : H) (b : BlockStatus) :
    adjust hs δ a (if a = h then { b with refCnt := b.refCnt + δ } else b) =
      adjust (h :: hs) δ a b := by
  unfold adjust
  by_cases ha : a = h
  · subst ha
    rw [if_pos rfl, count_cons_self]
    push_cast
    ring_nf
  · rw [if_neg ha, count_cons_of_ne fun heq => ha heq.symm]

theorem prepareLoad_eq (hready : ∀ h ∈ hs, ∃ b, m.get h = some b ∧ b.isReady = true) :
    ∃ spec m', m.prepareLoad hs = .ok (spec, m') ∧ Adjusts (adjust hs 1) m m' := by
  suffices hfold : ∀ loaded, ∃ loaded' m', hs.foldlM prepareLoadBlock (m, loaded) =
      .ok (m', loaded') ∧ Adjusts (adjust hs 1) m m' by
    obtain ⟨loaded, m', hrun, hm'⟩ := hfold []
    exact ⟨_, m', bind_ok.2 ⟨_, hrun, rfl⟩, hm'⟩
  induction hs generalizing m with
  | nil =>
    intro loaded
    exact ⟨loaded, m, rfl, (Adjusts.refl m).congr fun a b _ => by simp [adjust]⟩
  | cons h hs ih =>
    intro loaded
    obtain ⟨b, hb, hbready⟩ := hready h (.head _)
    have h₁ := adjusts_modify m h fun b => { b with refCnt := b.refCnt + 1 }
    have hready' : ∀ a ∈ hs, ∃ b, (m.modify h fun b => { b with refCnt := b.refCnt + 1 }).get a =
        some b ∧ b.isReady = true := by
      intro a ha
      obtain ⟨b', hb', hbready'⟩ := hready a (.tail _ ha)
      refine ⟨_, by rw [h₁.get, hb']; rfl, ?_⟩
      split
      · have hpos : 0 ≤ b'.refCnt := by simpa [isReady] using hbready'
        simpa [isReady] using (by omega : 0 ≤ b'.refCnt + 1)
      · exact hbready'
    obtain ⟨loaded', m', hrun, h₂⟩ := ih hready' (loaded ++ [b])
    refine ⟨loaded', m', bind_ok.2 ⟨_, ?_, hrun⟩, (h₁.trans h₂).congr fun a b _ => ?_⟩
    · unfold prepareLoadBlock
      simp [hb, hbready]
    · exact adjust_cons h hs 1 a b

theorem completeLoad_eq (hcount : ∀ h ∈ hs, ∃ b, m.get h = some b ∧ (hs.count h : ℤ) ≤ b.refCnt) :
    ∃ m', m.completeLoad hs = .ok m' ∧ Adjusts (adjust hs (-1)) m m' := by
  induction hs generalizing m with
  | nil => exact ⟨m, rfl, (Adjusts.refl m).congr fun a b _ => by simp [adjust]⟩
  | cons h hs ih =>
    obtain ⟨b, hb, hle⟩ := hcount h (.head _)
    rw [count_cons_self] at hle
    have hpos : 0 < b.refCnt := by omega
    have h₁ := adjusts_modify m h fun b => { b with refCnt := b.refCnt + -1 }
    have hcount' : ∀ a ∈ hs, ∃ b, (m.modify h fun b => { b with refCnt := b.refCnt + -1 }).get a =
        some b ∧ (hs.count a : ℤ) ≤ b.refCnt := by
      intro a ha
      obtain ⟨b', hb', hle'⟩ := hcount a (.tail _ ha)
      refine ⟨_, by rw [h₁.get, hb']; rfl, ?_⟩
      by_cases hah : a = h
      · subst hah
        rw [hb] at hb'
        cases hb'
        dsimp only
        rw [if_pos rfl]
        show (hs.count a : ℤ) ≤ b.refCnt + -1
        omega
      · dsimp only
        rw [if_neg hah]
        rwa [count_cons_of_ne fun heq => hah heq.symm] at hle'
    obtain ⟨m', hrun, h₂⟩ := ih hcount'
    refine ⟨m', bind_ok.2 ⟨_, ?_, hrun⟩, (h₁.trans h₂).congr fun a b _ =>
      adjust_cons h hs (-1) a b⟩
    unfold completeLoadBlock
    simp only [hb, hpos]
    rfl

/-- A listed block that is not ready becomes ready. -/
def markStored (hs : List H) (a : H) (b : BlockStatus) : BlockStatus :=
  if a ∈ hs ∧ b.isReady = false then { b with refCnt := 0 } else b

theorem foldl_completeStoreBlock (stored : List H) :
    Adjusts (markStored hs) m (hs.foldl completeStoreBlock (m, stored)).1 := by
  induction hs generalizing m stored with
  | nil => exact (Adjusts.refl m).congr fun a b _ => by simp [markStored]
  | cons h hs ih =>
    rw [foldl_cons]
    unfold completeStoreBlock
    cases hb : m.get h with
    | none =>
      refine (ih stored).congr fun a b' hb' => ?_
      have ha : a ≠ h := fun heq => by
        rw [heq, hb] at hb'
        cases hb'
      simp [markStored, ha]
    | some b =>
      dsimp only
      split
      · next hready =>
        refine (ih stored).congr fun a b' hb' => ?_
        by_cases ha : a = h
        · subst ha
          rw [hb] at hb'
          cases hb'
          simp [markStored, hready]
        · simp [markStored, ha]
      · next hready =>
        have h₁ := adjusts_modify m h fun b => { b with refCnt := 0 }
        refine (h₁.trans (ih _)).congr fun a b' hb' => ?_
        by_cases ha : a = h
        · subst ha
          rw [hb] at hb'
          cases hb'
          have hzero : (⟨0, b.blockId⟩ : BlockStatus).isReady = true := rfl
          simp [markStored, hready]
        · simp [markStored, ha]

section

variable (hl : Layout numBlocks m) (hr : Refs loads stores m) (hc : Counts numBlocks m)

include hl hr hc

/-- A block whose store failed is removed. -/
theorem dropStoreBlock_eq (hh : h ∈ stores) : Layout numBlocks (m.dropStoreBlock h) ∧
      Refs loads (stores.filter fun a => a ≠ h) (m.dropStoreBlock h) ∧
      Counts numBlocks (m.dropStoreBlock h) ∧ (m.dropStoreBlock h).b1 = m.b1 ∧
      (m.dropStoreBlock h).b2 = m.b2 := by
  obtain ⟨b, hb, href⟩ := hr.storing h hh
  -- a block that is being stored is in `t1`
  have hmem : h ∈ m.t1 := lookup_isSome.1 (by rw [hb]; rfl)
  have heq : m.dropStoreBlock h = { m with
      t1 := m.t1.erase h
      backend := m.backend.free b } := by
    unfold dropStoreBlock
    rw [get_of_t1 hb]
    dsimp only
    rw [if_pos hmem, if_neg (by simp [isReady, href])]
  have hget : ∀ a, a ≠ h → (m.dropStoreBlock h).get a = m.get a := fun a ha => by
    rw [heq]
    show ((m.t1.erase h).lookup a).or (m.t2.lookup a) = _
    rw [lookup_erase_ne ha, get]
  have hnone : (m.dropStoreBlock h).get h = none := by
    rw [heq]
    show ((m.t1.erase h).lookup h).or (m.t2.lookup h) = none
    rw [lookup_erase, lookup_eq_none.2 (hl.t1_disjoint h hmem).1]
    rfl
  refine ⟨?_, ⟨fun a ha => ?_, fun a ha => ?_, fun a b' hb' hnot => ?_⟩, ⟨?_, ?_⟩, ?_, ?_⟩
  · rw [heq]
    exact hl.of_apart (fun a ha => by grind [Apart, mem_erase]) rfl hl.target
  · obtain ⟨ha, hne⟩ := mem_filter.1 ha
    obtain ⟨b', hb', href'⟩ := hr.storing a ha
    rw [heq]
    exact ⟨b', (lookup_erase_ne (by simpa using hne)).trans hb', href'⟩
  · obtain ⟨hsome, hnot⟩ := hr.loading a ha
    have hne : a ≠ h := fun heq => hnot (heq ▸ hh)
    rw [hget a hne]
    exact ⟨hsome, fun hmem' => hnot (mem_filter.1 hmem').1⟩
  · have hne : a ≠ h := fun heq => by
      rw [heq, hnone] at hb'
      cases hb'
    rw [hget a hne] at hb'
    exact hr.ready a b' hb' fun hmem' => hnot (mem_filter.2 ⟨hmem', by simpa using hne⟩)
  · rw [heq]
    have hlen := length_erase hmem
    have hadd := hc.size_add
    unfold size getNumFreeBlocks free at *
    dsimp only
    rw [length_append, length_singleton]
    omega
  · rw [heq]
    exact hc.le
  · rw [heq]
  · rw [heq]

theorem foldl_dropStoreBlock (hnodup : hs.Nodup) (hmem : ∀ h ∈ hs, h ∈ stores) :
    Layout numBlocks (hs.foldl dropStoreBlock m) ∧
      Refs loads (stores.filter fun a => a ∉ hs) (hs.foldl dropStoreBlock m) ∧
      Counts numBlocks (hs.foldl dropStoreBlock m) ∧ (hs.foldl dropStoreBlock m).b1 = m.b1 ∧
      (hs.foldl dropStoreBlock m).b2 = m.b2 := by
  induction hs generalizing m stores with
  | nil =>
    refine ⟨hl, ?_, hc, rfl, rfl⟩
    rwa [filter_eq_self.2 fun a _ => by simp]
  | cons h hs ih =>
    obtain ⟨hh, hnodup⟩ := nodup_cons.1 hnodup
    obtain ⟨hl₁, hr₁, hc₁, hb₁, hb₂⟩ := dropStoreBlock_eq hl hr hc (hmem h (.head _))
    obtain ⟨hl₂, hr₂, hc₂, hb₁', hb₂'⟩ := ih hl₁ hr₁ hc₁ hnodup fun a ha =>
      mem_filter.2 ⟨hmem a (.tail _ ha), by
        simpa using fun heq : a = h => hh (heq ▸ ha)⟩
    refine ⟨hl₂, ?_, hc₂, hb₁'.trans hb₁, hb₂'.trans hb₂⟩
    rw [filter_filter] at hr₂
    have hsame : (stores.filter fun a => a ∉ h :: hs) =
        stores.filter fun a => decide (a ∉ hs) && decide (a ≠ h) := by
      refine filter_congr fun a _ => ?_
      by_cases ha : a = h <;> simp [ha]
    rwa [hsame]

end

end ARCOffloadingManager

end LoptVllm.KVOffload
