import LoptVllm.KVOffload.Abstract
import Mathlib.Tactic.Ring

/-!
# The LRU offloading manager

The manager keeps the offloaded blocks in the order in which they were touched or stored. A block
that is not in use, neither being stored nor loaded, may be evicted to make room.
-/

namespace LoptVllm.KVOffload

open List OrderedDict AList Nat BlockStatus CPUBackend

/-- `LRUOffloadingManager` with a `CPUBackend`. -/
structure LRUOffloadingManager (H : Type) where
  backend : CPUBackend
  blocks : OrderedDict H BlockStatus
  events : Option (List (OffloadingEvent H))

variable {H : Type} [DecidableEq H]

namespace LRUOffloadingManager

variable (m : LRUOffloadingManager H) (blockHashes : List H)

/-- `LRUOffloadingManager(backend, enable_events)`. -/
def new (backend : CPUBackend) (enableEvents : Bool) : LRUOffloadingManager H :=
  ⟨backend, ∅, if enableEvents then some [] else none⟩

/-- `lookup`. -/
def lookup : ℕ :=
  (blockHashes.takeWhile fun h => (m.blocks.lookup h).any isReady).length

/-- One block of `prepare_load`. -/
def prepareLoadBlock (st : OrderedDict H BlockStatus × List BlockStatus) (h : H) :
    Except PyErr (OrderedDict H BlockStatus × List BlockStatus) :=
  match st.1.lookup h with
  | none => .error (.keyError "")
  | some block =>
    if block.isReady then
      .ok (st.1.modify h fun b => { b with refCnt := b.refCnt + 1 }, st.2 ++ [block])
    else .error (.assertionError "")

/-- `prepare_load`. -/
def prepareLoad : Except PyErr (List ℕ × LRUOffloadingManager H) := do
  let (blocks, loaded) ← blockHashes.foldlM prepareLoadBlock (m.blocks, [])
  return (getLoadStoreSpec loaded, { m with blocks := blocks })

/-- `touch`. -/
def touch : LRUOffloadingManager H :=
  let blocks := blockHashes.reverse.foldl (fun blocks h => (blocks.moveToEnd? h).getD blocks) m.blocks
  { m with blocks := blocks }

/-- One block of `complete_load`. -/
def completeLoadBlock (blocks : OrderedDict H BlockStatus) (h : H) :
    Except PyErr (OrderedDict H BlockStatus) :=
  match blocks.lookup h with
  | none => .error (.keyError "")
  | some block =>
    if 0 < block.refCnt then .ok (blocks.modify h fun b => { b with refCnt := b.refCnt - 1 })
    else .error (.assertionError "")

/-- `complete_load`. -/
def completeLoad : Except PyErr (LRUOffloadingManager H) := do
  let blocks ← blockHashes.foldlM completeLoadBlock m.blocks
  return { m with blocks := blocks }

/-- The loop of `prepare_store` that looks for `n` blocks to evict, the oldest first. -/
def toEvict : List (H × BlockStatus) → ℕ → Option (List H)
  | [], _ => none
  | (h, block) :: items, n =>
    if block.refCnt = 0 then
      if n = 1 then some [h] else (toEvict items (n - 1)).map (h :: ·)
    else toEvict items n

variable (st : CPUBackend × OrderedDict H BlockStatus)

/-- A block is evicted. -/
def evict (h : H) : Except PyErr (CPUBackend × OrderedDict H BlockStatus) :=
  match st.2.lookup h with
  | none => .error (.keyError "")
  | some block => .ok (st.1.free block, st.2.erase h)

/-- The end of `prepare_store`, once the blocks to evict are known. -/
def storeBlocks (evicted toStore : List H) :
    Except PyErr (PrepareStoreOutput H × LRUOffloadingManager H) := do
  let (backend, blocks) ← evicted.foldlM evict (m.backend, m.blocks)
  let (newBlocks, backend) ← backend.allocateBlocks toStore.length
  if newBlocks.length ≠ toStore.length then .error (.assertionError "")
  else
    return (⟨toStore, getLoadStoreSpec newBlocks, evicted⟩,
      { m with
        backend := backend
        blocks := (toStore.zip newBlocks).foldl (fun blocks e => blocks.setItem e.1 e.2) blocks
        events := record m.events m.backend evicted true })

/-- `prepare_store`. -/
def prepareStore : Except PyErr (Option (PrepareStoreOutput H) × LRUOffloadingManager H) :=
  let toStore := blockHashes.filter fun h => h ∉ m.blocks
  let numBlocksToEvict := toStore.length - m.backend.getNumFreeBlocks
  match (if 0 < numBlocksToEvict then toEvict m.blocks.items numBlocksToEvict.toNat
    else some []) with
  | none => .ok (none, m)
  | some evicted => do
    let (out, m) ← m.storeBlocks evicted toStore
    return (some out, m)

/-- One block of `complete_store(success=True)`. -/
def completeStoreBlock (st : OrderedDict H BlockStatus × List H) (h : H) :
    Except PyErr (OrderedDict H BlockStatus × List H) :=
  match st.1.lookup h with
  | none => .error (.keyError "")
  | some block =>
    if block.isReady then .ok st
    else .ok (st.1.modify h fun b => { b with refCnt := 0 }, st.2 ++ [h])

/-- One block of `complete_store(success=False)`. -/
def dropStoreBlock (h : H) : Except PyErr (CPUBackend × OrderedDict H BlockStatus) :=
  match st.2.lookup h with
  | none => .error (.keyError "")
  | some block =>
    if block.isReady then .ok st
    else .ok (st.1.free block, st.2.erase h)

/-- `complete_store`. -/
def completeStore (success : Bool) : Except PyErr (LRUOffloadingManager H) := if success then do
    let (blocks, stored) ← blockHashes.foldlM completeStoreBlock (m.blocks, [])
    return { m with blocks := blocks, events := record m.events m.backend stored false }
  else do
    let (backend, blocks) ← blockHashes.foldlM dropStoreBlock (m.backend, m.blocks)
    return { m with backend := backend, blocks := blocks }

instance : OffloadingManager H (LRUOffloadingManager H) where
  lookup := lookup
  touch := fun m hs => .ok (m.touch hs)
  prepareLoad := prepareLoad
  completeLoad := completeLoad
  prepareStore := prepareStore
  completeStore := fun m hs => m.completeStore hs true

variable {m : LRUOffloadingManager H} {hs : List H} {h : H}

/-- The blocks that `lookup` counts are resident and ready. -/
theorem mem_take_lookup
    (hh : h ∈ hs.take (m.lookup hs)) : ∃ b, m.blocks.lookup h = some b ∧ b.isReady = true := by
  unfold lookup at hh
  rw [← prefix_iff_eq_take.1 (List.takeWhile_prefix _)] at hh
  have hany := all_eq_true.1 all_takeWhile h hh
  cases hb : m.blocks.lookup h with
  | none =>
    rw [hb] at hany
    cases hany
  | some b =>
    rw [hb] at hany
    exact ⟨b, rfl, hany⟩

/-! ### Reference counts -/

/-- The reference counts of the blocks `hs` change by `δ`, as often as they are listed. -/
structure Adjusts (d d' : OrderedDict H BlockStatus) (hs : List H) (δ : ℤ) : Prop where
  keys : d'.keys = d.keys
  ids : d'.values.map blockId = d.values.map blockId
  lookup : ∀ a, d'.lookup a = (d.lookup a).map fun b =>
    { b with refCnt := b.refCnt + δ * hs.count a }

theorem adjusts_nil (d : OrderedDict H BlockStatus) (δ : ℤ) : Adjusts d d [] δ :=
  ⟨rfl, rfl, fun a => by cases d.lookup a <;> simp⟩

variable {d : OrderedDict H BlockStatus} {d' : OrderedDict H BlockStatus}

theorem Adjusts.cons {δ : ℤ}
    (hd : Adjusts (d.modify h fun b => { b with refCnt := b.refCnt + δ }) d' hs δ) :
    Adjusts d d' (h :: hs) δ := by
  refine ⟨hd.keys.trans (keys_modify _ _ _),
    hd.ids.trans (map_values_modify _ _ fun _ => rfl), fun a => ?_⟩
  rw [hd.lookup, lookup_modify]
  split_ifs with ha
  · subst ha
    cases d.lookup a with
    | none => rfl
    | some b =>
      simp only [Option.map_some, count_cons_self]
      push_cast
      ring_nf
  · rw [count_cons_of_ne fun heq => ha heq.symm]

theorem foldlM_prepareLoadBlock:
    ∀ {d d' : OrderedDict H BlockStatus} {loaded loaded' : List BlockStatus},
      hs.foldlM prepareLoadBlock (d, loaded) = .ok (d', loaded') →
      Adjusts d d' hs 1 ∧ ∃ bs, loaded' = loaded ++ bs ∧
        Forall₂ (fun h i => ∃ b, d.lookup h = some b ∧ b.isReady = true ∧ b.blockId = i) hs
          (bs.map blockId) := by
  induction hs with
  | nil =>
    intro d d' loaded loaded' h
    cases h
    exact ⟨adjusts_nil d 1, [], (append_nil _).symm, .nil⟩
  | cons h hs ih =>
    intro d d' loaded loaded' hrun
    obtain ⟨⟨d₁, loaded₁⟩, hstep, hrun⟩ := bind_ok.1 hrun
    unfold prepareLoadBlock at hstep
    cases hb : d.lookup h with
    | none =>
      simp only [hb] at hstep
      cases hstep
    | some b =>
      simp only [hb] at hstep
      split at hstep
      · next hready =>
        cases hstep
        obtain ⟨hadj, bs, rfl, hbs⟩ := ih hrun
        refine ⟨hadj.cons, b :: bs, by simp, .cons ⟨b, hb, hready, rfl⟩ (hbs.imp ?_)⟩
        rintro a i ⟨b', hb', hready', rfl⟩
        rw [lookup_modify] at hb'
        split_ifs at hb' with ha
        · rw [hb] at hb'
          cases hb'
          exact ⟨b, ha ▸ hb, hready, rfl⟩
        · exact ⟨b', hb', hready', rfl⟩
      · cases hstep

variable {m' : LRUOffloadingManager H}

/-- `prepare_load` fails unless all blocks are ready, and returns their ids. -/
theorem prepareLoad_eq {spec : List ℕ} (h : m.prepareLoad hs = .ok (spec, m')) :
    ∃ d, m' = { m with blocks := d } ∧ Adjusts m.blocks d hs 1 ∧
      Forall₂ (fun h i => ∃ b, m.blocks.lookup h = some b ∧ b.isReady = true ∧ b.blockId = i)
        hs spec := by
  obtain ⟨⟨d, loaded⟩, hrun, heq⟩ := bind_ok.1 h
  cases heq
  obtain ⟨hadj, bs, rfl, hbs⟩ := foldlM_prepareLoadBlock hrun
  exact ⟨d, rfl, hadj, hbs⟩

theorem foldlM_completeLoadBlock:
    ∀ {d d' : OrderedDict H BlockStatus}, hs.foldlM completeLoadBlock d = .ok d' →
      Adjusts d d' hs (-1) := by
  induction hs with
  | nil =>
    intro d d' h
    cases h
    exact adjusts_nil d (-1)
  | cons h hs ih =>
    intro d d' hrun
    obtain ⟨d₁, hstep, hrun⟩ := bind_ok.1 hrun
    unfold completeLoadBlock at hstep
    cases hb : d.lookup h with
    | none =>
      simp only [hb] at hstep
      cases hstep
    | some b =>
      simp only [hb] at hstep
      split at hstep
      · cases hstep
        exact (ih hrun).cons
      · cases hstep

theorem completeLoad_eq (h : m.completeLoad hs = .ok m') :
    ∃ d, m' = { m with blocks := d } ∧ Adjusts m.blocks d hs (-1) := by
  obtain ⟨d, hrun, heq⟩ := bind_ok.1 h
  cases heq
  exact ⟨d, rfl, foldlM_completeLoadBlock hrun⟩

/-! ### Recency -/

/-- The keys are listed in the order of their latest use, the latest use first. -/
def Recent (uses : List H) (d : OrderedDict H BlockStatus) : Prop :=
  d.keys.Pairwise fun a b => uses.idxOf a < uses.idxOf b

/-- The keys that follow a new use of `h` keep their order. -/
theorem pairwise_use {uses ks : List H} (hks : h ∉ ks)
    (hr : ks.Pairwise fun a b => uses.idxOf a < uses.idxOf b) :
    (h :: ks).Pairwise fun a b => (h :: uses).idxOf a < (h :: uses).idxOf b := by
  have hne : ∀ a ∈ ks, (h :: uses).idxOf a = uses.idxOf a + 1 := fun a ha =>
    idxOf_cons_ne uses fun heq => hks (heq ▸ ha)
  refine pairwise_cons.2 ⟨fun a ha => ?_, hr.imp_of_mem fun ha hb hlt => ?_⟩
  · rw [hne a ha, idxOf_cons_self]
    exact succ_pos _
  · rw [hne _ ha, hne _ hb]
    exact succ_lt_succ hlt

theorem touch_eq (m : LRUOffloadingManager H) (hs : List H) :
    ∃ d, m.touch hs = { m with blocks := d } ∧ d.entries.Perm m.blocks.entries ∧
      ∀ uses, Recent uses m.blocks → Recent (hs ++ uses) d := by
  refine ⟨_, rfl, ?_⟩
  rw [foldl_reverse]
  induction hs with
  | nil => exact ⟨.refl _, fun uses h => h⟩
  | cons h hs ih =>
    obtain ⟨hperm, hrecent⟩ := ih
    rw [foldr_cons]
    generalize List.foldr _ m.blocks hs = d at *
    cases hb : d.lookup h with
    | none =>
      have hmove : d.moveToEnd? h = none := by
        rw [moveToEnd?, hb]
        rfl
      rw [hmove]
      -- a hash that is not there is not a key
      have hnot : h ∉ d.keys := fun hmem =>
        lookup_eq_none.1 hb (mem_keys.2 hmem)
      exact ⟨hperm, fun uses hr => (pairwise_use hnot (hrecent uses hr)).of_cons⟩
    | some b =>
      have hmove : d.moveToEnd? h = some (d.insert h b) := by
        rw [moveToEnd?, hb]
        rfl
      rw [hmove]
      refine ⟨(insert_perm_of_lookup hb).trans hperm, fun uses hr => ?_⟩
      show List.Pairwise _ (insert h b d).keys
      rw [keys_insert]
      exact pairwise_use (Nodup.not_mem_erase d.keys_nodup)
        ((hrecent uses hr).sublist erase_sublist)

/-! ### Evictions -/

/-- The hashes of the blocks that are not in use, the oldest first. -/
def idle (d : OrderedDict H BlockStatus) : List H :=
  (d.items.filter fun e => e.2.refCnt = 0).map Prod.fst

omit [DecidableEq H] in
theorem toEvict_eq {items : List (H × BlockStatus)} : ∀ {n : ℕ}, 0 < n → toEvict items n =
      if n ≤ (items.filter fun e => e.2.refCnt = 0).length then
        some (((items.filter fun e => e.2.refCnt = 0).map Prod.fst).take n) else none := by
  induction items with
  | nil =>
    intro n hn
    rw [toEvict, if_neg]
    simpa using hn.ne'
  | cons e items ih =>
    intro n hn
    obtain ⟨h, block⟩ := e
    rw [toEvict]
    by_cases hblock : block.refCnt = 0
    · rw [if_pos hblock, filter_cons_of_pos (by simpa using hblock)]
      obtain ⟨n, rfl⟩ := exists_eq_succ_of_ne_zero hn.ne'
      by_cases hn1 : n = 0
      · subst hn1
        simp
      · rw [if_neg (by omega), succ_sub_one, ih (pos_of_ne_zero hn1)]
        simp only [length_cons, succ_le_succ_iff, map_cons]
        split <;> rfl
    · rw [if_neg hblock, filter_cons_of_neg (by simpa using hblock)]
      exact ih hn

/-- The blocks `hs` are removed and their ids are given back. -/
structure Erases (b : CPUBackend) (d : OrderedDict H BlockStatus) (b' : CPUBackend)
    (d' : OrderedDict H BlockStatus) (hs : List H) : Prop where
  mem : ∀ h ∈ hs, h ∈ d
  lookup : ∀ a, d'.lookup a = if a ∈ hs then none else d.lookup a
  keys : d'.keys = d.keys.filter fun a => a ∉ hs
  ids : (d'.values.map blockId ++ b'.freeIds).Perm (d.values.map blockId ++ b.freeIds)
  backend : b' = { b with allocatedBlocksFreeList := b'.allocatedBlocksFreeList }
  length : b'.allocatedBlocksFreeList.length = b.allocatedBlocksFreeList.length + hs.length

theorem erases_nil (b : CPUBackend) (d : OrderedDict H BlockStatus) : Erases b d b d [] :=
  ⟨by simp, by simp, by simp, .refl _, rfl, rfl⟩

theorem Erases.cons {b b' : CPUBackend} {block : BlockStatus} (hblock : d.lookup h = some block)
    (he : Erases (b.free block) (d.erase h) b' d' hs) : Erases b d b' d' (h :: hs) := by
  have hmem : h ∈ d := lookup_isSome.1 (by rw [hblock]; rfl)
  refine ⟨?_, fun a => ?_, ?_, ?_, he.backend, ?_⟩
  · rintro a (_ | ⟨_, ha⟩)
    · exact hmem
    · exact (mem_erase.1 (he.mem a ha)).2
  · rw [he.lookup]
    by_cases ha : a = h
    · subst ha
      rw [lookup_erase, if_pos mem_cons_self, ite_self]
    · rw [lookup_erase_ne ha]
      simp [ha]
  · rw [he.keys, keys_erase, d.keys_nodup.erase_eq_filter, filter_filter]
    refine filter_congr fun a _ => ?_
    by_cases ha : a = h <;> simp [ha]
  · -- the id moves from the residents to the free ones
    refine he.ids.trans (((freeIds_free block).append_left _).trans ?_)
    have hids := (values_perm_cons_erase hblock).map blockId
    exact perm_middle.trans (hids.symm.append_right b.freeIds)
  · rw [he.length, length_cons]
    unfold free
    rw [length_append, length_singleton]
    omega

theorem foldlM_evict : ∀ {b b' : CPUBackend} {d d' : OrderedDict H BlockStatus},
      hs.foldlM evict (b, d) = .ok (b', d') → Erases b d b' d' hs := by
  induction hs with
  | nil =>
    intro b b' d d' h
    cases h
    exact erases_nil b d
  | cons h hs ih =>
    intro b b' d d' hrun
    obtain ⟨⟨b₁, d₁⟩, hstep, hrun⟩ := bind_ok.1 hrun
    unfold evict at hstep
    cases hblock : d.lookup h with
    | none =>
      simp only [hblock] at hstep
      cases hstep
    | some block =>
      simp only [hblock] at hstep
      cases hstep
      exact (ih hrun).cons hblock

theorem exists_foldlM_evict {b : CPUBackend} (hnodup : hs.Nodup)
    (hmem : ∀ h ∈ hs, h ∈ d) : ∃ r, hs.foldlM evict (b, d) = .ok r := by
  refine exists_foldlM (P := fun st hs => hs.Nodup ∧ ∀ h ∈ hs, h ∈ st.2) ?_ ⟨hnodup, hmem⟩
  rintro ⟨b, d⟩ h hs ⟨hnodup, hmem⟩
  obtain ⟨hh, hnodup⟩ := nodup_cons.1 hnodup
  obtain ⟨block, hblock⟩ := Option.isSome_iff_exists.1 (lookup_isSome.2 (hmem h (.head _)))
  refine ⟨(b.free block, d.erase h), ?_, hnodup, fun a ha => ?_⟩
  · unfold evict
    simp [hblock]
  · exact mem_erase.2 ⟨fun heq => hh (heq ▸ ha), hmem a (.tail _ ha)⟩

/-! ### Stores -/

/-- What a store does that is not refused. -/
structure Stores (m m' : LRUOffloadingManager H) (hs : List H) (out : PrepareStoreOutput H) :
    Prop where
  toStore : out.blockHashesToStore = hs.filter fun h => h ∉ m.blocks
  evicted : out.blockHashesEvicted =
    (idle m.blocks).take (out.blockHashesToStore.length - m.backend.getNumFreeBlocks).toNat
  length_evicted : out.blockHashesEvicted.length =
    (out.blockHashesToStore.length - m.backend.getNumFreeBlocks).toNat
  length_spec : out.storeSpec.length = out.blockHashesToStore.length
  lookup_new : ∀ e ∈ out.blockHashesToStore.zip out.storeSpec, m'.blocks.lookup e.1 = some ⟨-1, e.2⟩
  lookup_old : ∀ a, a ∉ out.blockHashesToStore → m'.blocks.lookup a =
    if a ∈ out.blockHashesEvicted then none else m.blocks.lookup a
  keys : m'.blocks.keys = out.blockHashesToStore.reverse ++
    m.blocks.keys.filter fun a => a ∉ out.blockHashesEvicted
  ids : (m'.blocks.values.map blockId ++ m'.backend.freeIds).Perm
    (m.blocks.values.map blockId ++ m.backend.freeIds)
  numBlocks_eq : m'.backend.numBlocks = m.backend.numBlocks
  le : m'.backend.numAllocatedBlocks ≤ m'.backend.numBlocks

/-- The blocks of a store are new, and each gets the status handed out for it. -/
theorem storeBlocks_eq {evicted toStore : List H} {out : PrepareStoreOutput H}
    (hle : m.backend.numAllocatedBlocks ≤ m.backend.numBlocks) (hnew : ∀ h ∈ toStore, h ∉ m.blocks)
    (hnodup : toStore.Nodup) (h : m.storeBlocks evicted toStore = .ok (out, m')) :
    out.blockHashesToStore = toStore ∧ out.blockHashesEvicted = evicted ∧
      (∀ h ∈ evicted, h ∈ m.blocks) ∧ out.storeSpec.length = toStore.length ∧
      (∀ e ∈ toStore.zip out.storeSpec, m'.blocks.lookup e.1 = some ⟨-1, e.2⟩) ∧
      (∀ a, a ∉ toStore → m'.blocks.lookup a = if a ∈ evicted then none else m.blocks.lookup a) ∧
      m'.blocks.keys = toStore.reverse ++ m.blocks.keys.filter (fun a => a ∉ evicted) ∧
      (m'.blocks.values.map blockId ++ m'.backend.freeIds).Perm
        (m.blocks.values.map blockId ++ m.backend.freeIds) ∧
      m'.backend.numBlocks = m.backend.numBlocks ∧
      m'.backend.numAllocatedBlocks ≤ m'.backend.numBlocks := by
  obtain ⟨⟨b₁, d₁⟩, hevict, h⟩ := bind_ok.1 h
  obtain ⟨⟨newBlocks, b₂⟩, halloc, h⟩ := bind_ok.1 h
  have he := foldlM_evict hevict
  have hnum : b₁.numAllocatedBlocks = m.backend.numAllocatedBlocks ∧
      b₁.numBlocks = m.backend.numBlocks := by
    rw [he.backend]
    exact ⟨rfl, rfl⟩
  have ha := allocateBlocks_eq (by omega) halloc
  dsimp only at h
  rw [if_neg (not_not_intro ha.length_eq)] at h
  cases h
  have hfst : (toStore.zip newBlocks).map Prod.fst = toStore := map_fst_zip (by rw [ha.length_eq])
  have hsnd : (toStore.zip newBlocks).map Prod.snd = newBlocks := map_snd_zip (by rw [ha.length_eq])
  -- the hashes to store are new
  have hfresh : ∀ k ∈ (toStore.zip newBlocks).map Prod.fst, k ∉ d₁ := by
    rw [hfst]
    intro k hk hmem
    rw [AList.mem_keys, he.keys] at hmem
    exact hnew k hk (mem_keys.2 (mem_filter.1 hmem).1)
  obtain ⟨hkeys, hvalues, hlnew, hlold⟩ := foldl_setItem (by rwa [hfst]) hfresh
  rw [hfst] at hkeys hlold
  rw [hsnd] at hvalues
  refine ⟨rfl, rfl, he.mem, ?_, fun e hmem => ?_, fun a hnot => ?_, ?_, ?_, ?_, ha.le⟩
  · exact (length_map _).trans ha.length_eq
  · -- the status of a new block is the one it was zipped with
    unfold getLoadStoreSpec at hmem
    rw [zip_map_right, mem_map] at hmem
    obtain ⟨⟨k, block⟩, hblock, rfl⟩ := hmem
    refine (hlnew _ hblock).trans ?_
    have href := ha.notReady block (of_mem_zip hblock).2
    obtain ⟨refCnt, blockId⟩ := block
    obtain rfl : refCnt = -1 := href
    rfl
  · rw [hlold a hnot, he.lookup]
  · rw [hkeys, he.keys]
  · rw [hvalues, map_append, map_reverse, append_assoc]
    refine ((reverse_perm _).append_right _).trans ?_
    refine (perm_append_comm_assoc _ _ _).trans ?_
    exact (ha.ids_perm.append_left _).trans he.ids
  · exact ha.numBlocks_eq.trans hnum.2

omit [DecidableEq H] in
theorem length_idle (d : OrderedDict H BlockStatus) :
    (idle d).length = (d.items.filter fun e => e.2.refCnt = 0).length := length_map _

omit [DecidableEq H] in
/-- The blocks that a store evicts, if there are enough that are not in use. -/
theorem evicted_eq (m : LRUOffloadingManager H) (toStore : List H) :
    (if 0 < (toStore.length : ℤ) - m.backend.getNumFreeBlocks then
        toEvict m.blocks.items ((toStore.length : ℤ) - m.backend.getNumFreeBlocks).toNat
      else some []) =
      if ((toStore.length : ℤ) - m.backend.getNumFreeBlocks).toNat ≤ (idle m.blocks).length then
        some ((idle m.blocks).take ((toStore.length : ℤ) - m.backend.getNumFreeBlocks).toNat)
      else none := by
  generalize (toStore.length : ℤ) - m.backend.getNumFreeBlocks = n
  by_cases hn : 0 < n
  · rw [if_pos hn, toEvict_eq (by omega), length_idle]
    rfl
  · have hzero : n.toNat = 0 := by omega
    rw [if_neg hn, hzero, if_pos (zero_le _), take_zero]

/-- `prepare_store` evicts the oldest blocks that are not in use, as few as needed; it is refused,
and changes nothing, only if there are too few of them. -/
theorem prepareStore_eq {r : Option (PrepareStoreOutput H)}
    (hle : m.backend.numAllocatedBlocks ≤ m.backend.numBlocks) (hnodup : hs.Nodup)
    (h : m.prepareStore hs = .ok (r, m')) : (r = none ∧ m' = m ∧ ((idle m.blocks).length : ℤ) <
      (hs.filter fun h => h ∉ m.blocks).length - m.backend.getNumFreeBlocks) ∨
    ∃ out, r = some out ∧ Stores m m' hs out := by
  unfold prepareStore at h
  dsimp only at h
  rw [evicted_eq] at h
  split at h
  · next heq =>
    split at heq
    · cases heq
    · next hlt =>
      cases h
      exact .inl ⟨rfl, rfl, by omega⟩
  · next evicted heq =>
    split at heq
    · next hlen =>
      cases heq
      obtain ⟨⟨out, m₁⟩, hrun, heq⟩ := bind_ok.1 h
      cases heq
      obtain ⟨hto, hev, -, hspec, hnew, hold, hkeys, hids, hnum, hle'⟩ := storeBlocks_eq hle
        (fun h hh => by simpa using (mem_filter.1 hh).2) (hnodup.filter _) hrun
      rw [← hto] at hev hspec hnew hold hkeys
      rw [← hev] at hold hkeys
      exact .inr ⟨out, rfl, hto, hev, by rw [hev, length_take, hto]; omega, hspec, hnew,
        hold, hkeys, hids, hnum, hle'⟩
    · cases heq

theorem foldlM_completeStoreBlock : ∀ {d d' : OrderedDict H BlockStatus} {stored stored' : List H},
      hs.foldlM completeStoreBlock (d, stored) = .ok (d', stored') →
      d'.keys = d.keys ∧ d'.values.map blockId = d.values.map blockId ∧
      ∀ a, d'.lookup a = (d.lookup a).map fun b =>
        if a ∈ hs ∧ b.isReady = false then { b with refCnt := 0 } else b := by
  induction hs with
  | nil =>
    intro d d' stored stored' h
    cases h
    exact ⟨rfl, rfl, fun a => by cases d.lookup a <;> simp⟩
  | cons h hs ih =>
    intro d d' stored stored' hrun
    obtain ⟨⟨d₁, stored₁⟩, hstep, hrun⟩ := bind_ok.1 hrun
    unfold completeStoreBlock at hstep
    cases hb : d.lookup h with
    | none =>
      simp only [hb] at hstep
      cases hstep
    | some b =>
      simp only [hb] at hstep
      split at hstep
      · next hready =>
        cases hstep
        obtain ⟨hkeys, hids, hlookup⟩ := ih hrun
        refine ⟨hkeys, hids, fun a => ?_⟩
        rw [hlookup]
        by_cases ha : a = h
        · subst ha
          simp [hb, hready]
        · simp [ha]
      · next hready =>
        cases hstep
        obtain ⟨hkeys, hids, hlookup⟩ := ih hrun
        refine ⟨hkeys.trans (keys_modify _ _ _),
          hids.trans (map_values_modify _ _ fun _ => rfl), fun a => ?_⟩
        rw [hlookup, lookup_modify]
        by_cases ha : a = h
        · subst ha
          have hfalse : b.isReady = false := Bool.eq_false_iff.2 hready
          rw [if_pos rfl, hb]
          simp [hfalse]
        · simp [ha]

/-- The blocks whose store failed are those listed that are not ready. -/
theorem foldlM_dropStoreBlock : ∀ {b b' : CPUBackend} {d d' : OrderedDict H BlockStatus}, hs.Nodup →
      hs.foldlM dropStoreBlock (b, d) = .ok (b', d') →
      Erases b d b' d' (hs.filter fun h => (d.lookup h).any fun block => !block.isReady) := by
  induction hs with
  | nil =>
    intro b b' d d' _ h
    cases h
    exact erases_nil b d
  | cons h hs ih =>
    intro b b' d d' hnodup hrun
    obtain ⟨hh, hnodup⟩ := nodup_cons.1 hnodup
    obtain ⟨⟨b₁, d₁⟩, hstep, hrun⟩ := bind_ok.1 hrun
    unfold dropStoreBlock at hstep
    cases hblock : d.lookup h with
    | none =>
      simp only [hblock] at hstep
      cases hstep
    | some block =>
      simp only [hblock] at hstep
      split at hstep
      · next hready =>
        cases hstep
        rw [filter_cons_of_neg (by simp [hblock, hready])]
        exact ih hnodup hrun
      · next hready =>
        cases hstep
        rw [filter_cons_of_pos (by simpa [hblock] using hready)]
        have hsame : (hs.filter fun a => (d.lookup a).any fun block => !block.isReady) =
            hs.filter fun a => ((d.erase h).lookup a).any fun block => !block.isReady := by
          refine filter_congr fun a ha => ?_
          have hne : a ≠ h := fun heq => hh (heq ▸ ha)
          rw [lookup_erase_ne hne]
        rw [hsame]
        exact (ih hnodup hrun).cons hblock

/-! ### Calls that do not fail -/

theorem exists_prepareLoad (m : LRUOffloadingManager H)
    (hready : ∀ h ∈ hs, ∃ b, m.blocks.lookup h = some b ∧ b.isReady = true) :
    ∃ r, m.prepareLoad hs = .ok r := by
  refine exists_bind_ok (exists_foldlM (P := fun st hs => ∀ h ∈ hs, ∃ b, st.1.lookup h = some b ∧
    b.isReady = true) ?_ hready) fun _ => ⟨_, rfl⟩
  rintro ⟨d, loaded⟩ h hs hready
  obtain ⟨b, hb, hbready⟩ := hready h (.head _)
  refine ⟨_, by unfold prepareLoadBlock; simp only [hb, hbready]; rfl, fun a ha => ?_⟩
  obtain ⟨b', hb', hbready'⟩ := hready a (.tail _ ha)
  rw [lookup_modify]
  by_cases hah : a = h
  · subst hah
    refine ⟨_, by rw [if_pos rfl, hb]; rfl, ?_⟩
    have hpos : 0 ≤ b.refCnt := by simpa [isReady] using hbready
    simpa [isReady] using (by omega : 0 ≤ b.refCnt + 1)
  · exact ⟨b', by rw [if_neg hah, hb'], hbready'⟩

theorem exists_completeLoad (m : LRUOffloadingManager H)
    (hcount : ∀ h ∈ hs, ∃ b, m.blocks.lookup h = some b ∧ (hs.count h : ℤ) ≤ b.refCnt) :
    ∃ r, m.completeLoad hs = .ok r := by
  refine exists_bind_ok (exists_foldlM (P := fun d hs => ∀ h ∈ hs, ∃ b, d.lookup h = some b ∧
    (hs.count h : ℤ) ≤ b.refCnt) ?_ hcount) fun _ => ⟨_, rfl⟩
  intro d h hs hcount
  obtain ⟨b, hb, hle⟩ := hcount h (.head _)
  rw [count_cons_self] at hle
  have hpos : 0 < b.refCnt := by omega
  refine ⟨_, by unfold completeLoadBlock; simp only [hb, hpos]; rfl, fun a ha => ?_⟩
  obtain ⟨b', hb', hle'⟩ := hcount a (.tail _ ha)
  rw [lookup_modify]
  by_cases hah : a = h
  · subst hah
    refine ⟨_, by rw [if_pos rfl, hb]; rfl, ?_⟩
    show (hs.count a : ℤ) ≤ b.refCnt - 1
    omega
  · rw [count_cons_of_ne fun heq => hah heq.symm] at hle'
    exact ⟨b', by rw [if_neg hah, hb'], hle'⟩

theorem mem_idle : h ∈ idle d ↔ ∃ b, d.lookup h = some b ∧ b.refCnt = 0 := by
  unfold idle items
  simp only [mem_map, mem_filter, mem_reverse, decide_eq_true_eq]
  constructor
  · rintro ⟨_, ⟨⟨⟨h, b⟩, hmem, rfl⟩, hzero⟩, rfl⟩
    exact ⟨b, mem_entries.1 hmem, hzero⟩
  · rintro ⟨b, hb, hzero⟩
    exact ⟨(h, b), ⟨⟨⟨h, b⟩, mem_entries.2 hb, rfl⟩, hzero⟩, rfl⟩

omit [DecidableEq H] in
theorem nodup_idle (d : OrderedDict H BlockStatus) : (idle d).Nodup := by
  unfold idle items
  refine List.Nodup.sublist (filter_sublist.map _) ?_
  rw [map_reverse, map_map]
  exact nodup_reverse.2 d.keys_nodup

/-- `prepare_store` never fails: the blocks that it evicts are there, and then enough are free. -/
theorem exists_prepareStore (m : LRUOffloadingManager H) (hs : List H)
    (hle : m.backend.numAllocatedBlocks ≤ m.backend.numBlocks) :
    ∃ r, m.prepareStore hs = .ok r := by
  unfold prepareStore
  dsimp only
  rw [evicted_eq]
  generalize hs.filter (fun h => h ∉ m.blocks) = toStore
  split
  · exact ⟨_, rfl⟩
  · next evicted heq =>
    split at heq
    · next hlen =>
      cases heq
      obtain ⟨⟨b, d⟩, hevict⟩ := exists_foldlM_evict (b := m.backend)
        ((nodup_idle m.blocks).sublist (take_sublist
          ((toStore.length : ℤ) - m.backend.getNumFreeBlocks).toNat _)) fun h hh => by
            obtain ⟨block, hblock, -⟩ := mem_idle.1 (mem_of_mem_take hh)
            exact lookup_isSome.1 (by rw [hblock]; rfl)
      have he := foldlM_evict hevict
      have hlength := he.length
      have hb : b.numBlocks = m.backend.numBlocks ∧
          b.numAllocatedBlocks = m.backend.numAllocatedBlocks := by
        rw [he.backend]
        exact ⟨rfl, rfl⟩
      rw [length_take, min_eq_left hlen] at hlength
      have hfree : (toStore.length : ℤ) ≤ b.getNumFreeBlocks := by
        unfold getNumFreeBlocks at hlength hlen ⊢
        omega
      obtain ⟨⟨newBlocks, b'⟩, halloc⟩ := exists_allocateBlocks (by omega) hfree
      have ha := allocateBlocks_eq (by omega) halloc
      have hstore : ∃ r, m.storeBlocks ((idle m.blocks).take
          ((toStore.length : ℤ) - m.backend.getNumFreeBlocks).toNat) toStore = .ok r := by
        unfold storeBlocks
        simp only [hevict, halloc, ok_bind]
        rw [if_neg (not_not_intro ha.length_eq)]
        exact ⟨_, rfl⟩
      obtain ⟨r, hr⟩ := hstore
      exact ⟨_, bind_ok.2 ⟨r, hr, rfl⟩⟩
    · cases heq

theorem exists_completeStore (m : LRUOffloadingManager H) (success : Bool) (hnodup : hs.Nodup)
    (hmem : ∀ h ∈ hs, h ∈ m.blocks) : ∃ r, m.completeStore hs success = .ok r := by
  cases success with
  | true =>
    refine exists_bind_ok (exists_foldlM (P := fun st hs => ∀ h ∈ hs, h ∈ st.1) ?_ hmem) fun _ =>
      ⟨_, rfl⟩
    rintro ⟨d, stored⟩ h hs hmem
    obtain ⟨b, hb⟩ := Option.isSome_iff_exists.1 (lookup_isSome.2 (hmem h (.head _)))
    unfold completeStoreBlock
    simp only [hb]
    split
    · exact ⟨_, rfl, fun a ha => hmem a (.tail _ ha)⟩
    · exact ⟨_, rfl, fun a ha => mem_modify.2 (hmem a (.tail _ ha))⟩
  | false =>
    refine exists_bind_ok (exists_foldlM (P := fun st hs => hs.Nodup ∧ ∀ h ∈ hs, h ∈ st.2) ?_
      ⟨hnodup, hmem⟩) fun _ => ⟨_, rfl⟩
    rintro ⟨b, d⟩ h hs ⟨hnodup, hmem⟩
    obtain ⟨hh, hnodup⟩ := nodup_cons.1 hnodup
    obtain ⟨block, hblock⟩ := Option.isSome_iff_exists.1 (lookup_isSome.2 (hmem h (.head _)))
    unfold dropStoreBlock
    simp only [hblock]
    split
    · exact ⟨_, rfl, hnodup, fun a ha => hmem a (.tail _ ha)⟩
    · refine ⟨_, rfl, hnodup, fun a ha => ?_⟩
      exact mem_erase.2 ⟨fun heq => hh (heq ▸ ha), hmem a (.tail _ ha)⟩

end LRUOffloadingManager

end LoptVllm.KVOffload
