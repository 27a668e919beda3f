import LoptVllm.KVOffload.Lru

/-!
# Safety of the LRU offloading manager

Loads and stores of several requests overlap: a block is prepared, its transfer takes some time,
and then it is completed. Beside the manager we record what is in flight, with the block ids that
were given out for it, and the order of the uses.
-/

namespace LoptVllm.KVOffload

open List OrderedDict AList BlockStatus

open Prod (fst snd)

namespace LRUOffloadingManager

variable {H : Type}

/-- The manager with a record of its calls. -/
structure Traced (H : Type) where
  manager : LRUOffloadingManager H
  /-- The loads that were prepared and not completed. -/
  loads : List (H × ℕ)
  /-- The stores that were prepared and not completed. -/
  stores : List (H × ℕ)
  /-- The hashes whose last store was completed with success. -/
  completed : List H
  /-- The hashes that were touched or stored, the latest first. -/
  uses : List H

namespace Traced

/-- Nothing is stored. -/
def new (backend : CPUBackend) (enableEvents : Bool) : Traced H :=
  ⟨.new backend enableEvents, [], [], [], []⟩

variable [DecidableEq H]

/-- One prepared load of each of the blocks is completed. -/
def endLoads (loads : List (H × ℕ)) (hs : List H) : List (H × ℕ) :=
  hs.foldl (fun loads h => loads.eraseP fun e => e.1 = h) loads

variable (st : Traced H)

/-- What is recorded of a store. -/
def recordStore : Option (PrepareStoreOutput H) × LRUOffloadingManager H → Traced H
  | (none, m) => { st with manager := m }
  | (some out, m) =>
    { st with
      manager := m
      stores := out.blockHashesToStore.zip out.storeSpec ++ st.stores
      completed := st.completed.filter fun h => h ∉ out.blockHashesToStore
      uses := out.blockHashesToStore.reverse ++ st.uses }

/-- A call. -/
def step : Call H → Except PyErr (Traced H)
  | .lookup hs => do
    let _ := st.manager.lookup hs
    return st
  | .touch hs => .ok { st with manager := st.manager.touch hs, uses := hs ++ st.uses }
  | .prepareLoad hs => do
    let (spec, m) ← st.manager.prepareLoad hs
    return { st with manager := m, loads := hs.zip spec ++ st.loads }
  | .completeLoad hs => do
    let m ← st.manager.completeLoad hs
    return { st with manager := m, loads := endLoads st.loads hs }
  | .prepareStore hs => do
    let r ← st.manager.prepareStore hs
    return st.recordStore r
  | .completeStore hs success => do
    let m ← st.manager.completeStore hs success
    return { st with
      manager := m
      stores := st.stores.filter fun e => e.1 ∉ hs
      completed := if success then hs ++ st.completed else st.completed }

/-- The protocol: only ready blocks are loaded, the hashes of a request are distinct, and what was
prepared is completed once. -/
def Admissible : Call H → Prop
  | .lookup _ => True
  | .touch _ => True
  | .prepareLoad hs => ∀ h ∈ hs, ∃ b ∈ st.manager.blocks.lookup h, b.isReady = true
  | .completeLoad hs => ∀ h ∈ hs, hs.count h ≤ (st.loads.map fst).count h
  | .prepareStore hs => hs.Nodup
  | .completeStore hs _ => hs.Nodup ∧ ∀ h ∈ hs, h ∈ st.stores.map fst

instance (st : Traced H) : DecidablePred st.Admissible
  | .lookup _ => inferInstanceAs (Decidable True)
  | .touch _ => inferInstanceAs (Decidable True)
  | .prepareLoad hs => inferInstanceAs
    (Decidable (∀ h ∈ hs, ∃ b ∈ st.manager.blocks.lookup h, b.isReady = true))
  | .completeLoad hs => inferInstanceAs
    (Decidable (∀ h ∈ hs, hs.count h ≤ (st.loads.map fst).count h))
  | .prepareStore hs => inferInstanceAs (Decidable hs.Nodup)
  | .completeStore hs _ => inferInstanceAs
    (Decidable (hs.Nodup ∧ ∀ h ∈ hs, h ∈ st.stores.map fst))

/-- The states after the calls of a run. -/
inductive Reachable (blockSize numBlocks : ℕ) (enableEvents : Bool) : Traced H → Prop
  | new : Reachable blockSize numBlocks enableEvents
      (Traced.new (CPUBackend.new blockSize numBlocks) enableEvents)
  | step {st st' : Traced H} (call : Call H) (h : Reachable blockSize numBlocks enableEvents st)
      (hcall : st.Admissible call) (hst' : st.step call = .ok st') :
      Reachable blockSize numBlocks enableEvents st'

/-! ### The invariant -/

/-- What holds between the manager and the record. A block with count −1 is being stored, and any
other count is the number of the loads of the block. -/
structure Invariant (numBlocks : ℕ) (st : Traced H) : Prop where
  ids : (st.manager.blocks.values.map blockId ++ st.manager.backend.freeIds).Perm (range numBlocks)
  numBlocks_eq : st.manager.backend.numBlocks = numBlocks
  le : st.manager.backend.numAllocatedBlocks ≤ st.manager.backend.numBlocks
  stores : ∀ e ∈ st.stores, st.manager.blocks.lookup e.1 = some ⟨-1, e.2⟩
  nodup_stores : (st.stores.map fst).Nodup
  loads : ∀ e ∈ st.loads, ∃ b, st.manager.blocks.lookup e.1 = some b ∧ b.blockId = e.2
  loads_not_stores : ∀ h ∈ st.loads.map fst, h ∉ st.stores.map fst
  ready : ∀ h b, st.manager.blocks.lookup h = some b → h ∉ st.stores.map fst →
    b.refCnt = (st.loads.map fst).count h ∧ h ∈ st.completed
  recent : Recent st.uses st.manager.blocks

theorem invariant_new (blockSize numBlocks : ℕ) (enableEvents : Bool) :
    Invariant numBlocks (new (H := H) (CPUBackend.new blockSize numBlocks) enableEvents) := by
  refine ⟨?_, rfl, Nat.zero_le _, nofun, .nil, nofun, nofun, nofun, .nil⟩
  show (List.range' 0 (numBlocks - 0)).Perm (range numBlocks)
  rw [Nat.sub_zero, range_eq_range']

variable {numBlocks : ℕ} {st st' : Traced H}

/-- A block that is being stored is not ready, and any other is. -/
theorem Invariant.isReady_iff (hi : Invariant numBlocks st) {h : H} {b : BlockStatus}
    (hb : st.manager.blocks.lookup h = some b) : b.isReady = true ↔ h ∉ st.stores.map fst := by
  constructor
  · intro hready hmem
    obtain ⟨e, he, rfl⟩ := mem_map.1 hmem
    rw [hi.stores e he] at hb
    cases hb
    cases hready
  · intro hnot
    have href := (hi.ready h b hb hnot).1
    simp [isReady, href]

theorem Invariant.mem_idle_iff (hi : Invariant numBlocks st) {h : H} : h ∈ idle st.manager.blocks ↔
      h ∈ st.manager.blocks ∧ h ∉ st.loads.map fst ∧ h ∉ st.stores.map fst := by
  rw [mem_idle]
  constructor
  · rintro ⟨b, hb, hzero⟩
    have hnot : h ∉ st.stores.map fst := (hi.isReady_iff hb).1 (by simp [isReady, hzero])
    refine ⟨lookup_isSome.1 (by rw [hb]; rfl), ?_, hnot⟩
    have href := (hi.ready h b hb hnot).1
    exact count_eq_zero.1 (by omega)
  · rintro ⟨hmem, hloads, hstores⟩
    obtain ⟨b, hb⟩ := Option.isSome_iff_exists.1 (lookup_isSome.2 hmem)
    refine ⟨b, hb, ?_⟩
    rw [(hi.ready h b hb hstores).1, count_eq_zero.2 hloads]
    rfl

/-! ### One call -/

theorem Invariant.touch (hi : Invariant numBlocks st) (hs : List H) :
    Invariant numBlocks { st with manager := st.manager.touch hs, uses := hs ++ st.uses } := by
  obtain ⟨d, hd, hperm, hrecent⟩ := touch_eq st.manager hs
  have hlookup : ∀ h, d.lookup h = st.manager.blocks.lookup h := fun h => perm_lookup hperm
  rw [hd]
  refine ⟨?_, hi.numBlocks_eq, hi.le, fun e he => (hlookup _).trans (hi.stores e he),
    hi.nodup_stores, fun e he => ?_, hi.loads_not_stores, fun h b hb => ?_, hrecent _ hi.recent⟩
  · have hvalues : d.values.Perm st.manager.blocks.values := hperm.map _
    exact ((hvalues.map _).append_right _).trans hi.ids
  · obtain ⟨b, hb, hid⟩ := hi.loads e he
    exact ⟨b, (hlookup _).trans hb, hid⟩
  · exact hi.ready h b ((hlookup h).symm.trans hb)

variable {hs : List H}

/-- A change of counts keeps what does not speak of the counts. -/
theorem Invariant.adjusts (hi : Invariant numBlocks st) {d : OrderedDict H BlockStatus} {δ : ℤ}
    {loads : List (H × ℕ)} (hd : Adjusts st.manager.blocks d hs δ)
    (hnot : ∀ h ∈ hs, h ∉ st.stores.map fst)
    (hloads : ∀ e ∈ loads, ∃ b, st.manager.blocks.lookup e.1 = some b ∧ b.blockId = e.2)
    (hloads' : ∀ h ∈ loads.map fst, h ∉ st.stores.map fst)
    (hcount : ∀ h, ((loads.map fst).count h : ℤ) =
      (st.loads.map fst).count h + δ * hs.count h) :
    Invariant numBlocks { st with manager := { st.manager with blocks := d }, loads := loads } := by
  refine ⟨?_, hi.numBlocks_eq, hi.le, fun e he => ?_, hi.nodup_stores, fun e he => ?_, hloads',
    fun h b hb hh => ?_, ?_⟩
  · show (d.values.map _ ++ _).Perm _
    rw [hd.ids]
    exact hi.ids
  · show d.lookup e.1 = _
    have hzero : hs.count e.1 = 0 := count_eq_zero.2 fun hmem => hnot _ hmem (mem_map_of_mem he)
    rw [hd.lookup, hi.stores e he, hzero]
    simp
  · obtain ⟨b, hb, hid⟩ := hloads e he
    refine ⟨{ b with refCnt := b.refCnt + δ * hs.count e.1 }, ?_, hid⟩
    rw [hd.lookup, hb]
    rfl
  · change d.lookup h = some b at hb
    rw [hd.lookup] at hb
    obtain ⟨b₀, hb₀, rfl⟩ := Option.map_eq_some_iff.1 hb
    obtain ⟨href, hcompleted⟩ := hi.ready h b₀ hb₀ hh
    refine ⟨?_, hcompleted⟩
    rw [hcount, href]
  · show List.Pairwise _ d.keys
    rw [hd.keys]
    exact hi.recent

variable {m : LRUOffloadingManager H}

theorem Invariant.prepareLoad (hi : Invariant numBlocks st) {spec : List ℕ}
    (h : st.manager.prepareLoad hs = .ok (spec, m)) :
    Invariant numBlocks { st with manager := m, loads := hs.zip spec ++ st.loads } := by
  obtain ⟨d, rfl, hd, hspec⟩ := prepareLoad_eq h
  have hlen := hspec.length_eq
  have hready : ∀ e ∈ hs.zip spec, ∃ b, st.manager.blocks.lookup e.1 = some b ∧
      b.isReady = true ∧ b.blockId = e.2 := fun e he => (forall₂_iff_zip.1 hspec).2 he
  have hnot : ∀ h ∈ hs, h ∉ st.stores.map fst := by
    intro h hh
    rw [← map_fst_zip hlen.le, mem_map] at hh
    obtain ⟨e, he, rfl⟩ := hh
    obtain ⟨b, hb, hbready, -⟩ := hready e he
    exact (hi.isReady_iff hb).1 hbready
  refine hi.adjusts hd hnot (fun e he => ?_) (fun h hh => ?_) fun h => ?_
  · rcases mem_append.1 he with he | he
    · obtain ⟨b, hb, -, hid⟩ := hready e he
      exact ⟨b, hb, hid⟩
    · exact hi.loads e he
  · rw [map_append, map_fst_zip hlen.le, mem_append] at hh
    exact hh.elim (hnot h) (hi.loads_not_stores h)
  · rw [map_append, map_fst_zip hlen.le, count_append]
    push_cast
    ring

theorem mem_of_mem_endLoads {e : H × ℕ} :
    ∀ {loads : List (H × ℕ)}, e ∈ endLoads loads hs → e ∈ loads := by
  induction hs with
  | nil => exact id
  | cons h hs ih => exact fun he => mem_of_mem_eraseP (ih he)

theorem count_endLoads (a : H) : ∀ loads : List (H × ℕ),
    ((endLoads loads hs).map fst).count a = (loads.map fst).count a - hs.count a := by
  induction hs with
  | nil => exact fun _ => rfl
  | cons h hs ih =>
    intro loads
    have herase : (loads.eraseP fun e => e.1 = h).map fst = (loads.map fst).erase h := by
      rw [erase_eq_eraseP, eraseP_map]
      congr 2
      funext e
      simp [Bool.beq_eq_decide_eq, eq_comm]
    show ((endLoads (loads.eraseP fun e => e.1 = h) hs).map fst).count a = _
    rw [ih, herase, count_erase, count_cons, Nat.sub_sub, add_comm]

theorem Invariant.completeLoad (hi : Invariant numBlocks st)
    (hcall : st.Admissible (.completeLoad hs)) (h : st.manager.completeLoad hs = .ok m) :
    Invariant numBlocks { st with manager := m, loads := endLoads st.loads hs } := by
  obtain ⟨d, rfl, hd⟩ := completeLoad_eq h
  have hloads : ∀ h ∈ (endLoads st.loads hs).map fst, h ∉ st.stores.map fst := by
    intro h hh
    obtain ⟨e, he, rfl⟩ := mem_map.1 hh
    exact hi.loads_not_stores _ (mem_map_of_mem (mem_of_mem_endLoads he))
  refine hi.adjusts hd (fun h hh => ?_) (fun e he => hi.loads e (mem_of_mem_endLoads he)) hloads
    fun h => ?_
  · have hle := hcall h hh
    have hpos : 0 < hs.count h := count_pos_iff.2 hh
    exact hi.loads_not_stores h (count_pos_iff.1 (by omega))
  · have hle : hs.count h ≤ (st.loads.map fst).count h := by
      by_cases hh : h ∈ hs
      · exact hcall h hh
      · rw [count_eq_zero.2 hh]
        exact Nat.zero_le _
    rw [count_endLoads]
    omega

/-- New keys are more recent than the others. -/
theorem pairwise_new {uses new ks : List H} (hnodup : (new ++ ks).Nodup)
    (hr : ks.Pairwise fun a b => uses.idxOf a < uses.idxOf b) :
    (new ++ ks).Pairwise fun a b => (new ++ uses).idxOf a < (new ++ uses).idxOf b := by
  induction new with
  | nil => exact hr
  | cons h new ih =>
    obtain ⟨hh, hnodup⟩ := nodup_cons.1 hnodup
    exact pairwise_use hh (ih hnodup)

section

variable (hi : Invariant numBlocks st)

include hi

/-- What a store puts in, and what it leaves as it was. -/
theorem Invariant.recordStore {out : PrepareStoreOutput H} (hnodup : hs.Nodup)
    (hs' : Stores st.manager m hs out) : Invariant numBlocks (st.recordStore (some out, m)) := by
  have hfst : (out.blockHashesToStore.zip out.storeSpec).map fst = out.blockHashesToStore :=
    map_fst_zip hs'.length_spec.ge
  have hnew : ∀ h ∈ out.blockHashesToStore, h ∉ st.manager.blocks := fun h hh => by
    rw [hs'.toStore] at hh
    simpa using (mem_filter.1 hh).2
  have hnotStores : ∀ h ∈ st.stores.map fst, h ∉ out.blockHashesToStore := by
    intro h hh hmem
    obtain ⟨e, he, rfl⟩ := mem_map.1 hh
    exact hnew _ hmem (lookup_isSome.1 (by rw [hi.stores e he]; rfl))
  have hnotLoads : ∀ e ∈ st.loads, e.1 ∉ out.blockHashesToStore := by
    intro e he hmem
    obtain ⟨b, hb, -⟩ := hi.loads e he
    exact hnew _ hmem (lookup_isSome.1 (by rw [hb]; rfl))
  have hidle : ∀ h ∈ out.blockHashesEvicted, h ∈ idle st.manager.blocks := fun h hh => by
    rw [hs'.evicted] at hh
    exact mem_of_mem_take hh
  have hkeep : ∀ h, h ∉ out.blockHashesToStore → h ∉ out.blockHashesEvicted →
      m.blocks.lookup h = st.manager.blocks.lookup h := fun h h₁ h₂ => by
    rw [hs'.lookup_old h h₁, if_neg h₂]
  refine ⟨hs'.ids.trans hi.ids, hs'.numBlocks_eq.trans hi.numBlocks_eq, hs'.le, fun e he => ?_, ?_,
    fun e he => ?_, fun h hh => ?_, fun h b hb hh => ?_, ?_⟩
  · rcases mem_append.1 he with he | he
    · exact hs'.lookup_new e he
    · have hmem : e.1 ∈ st.stores.map fst := mem_map_of_mem he
      refine (hkeep _ (hnotStores _ hmem) fun hev => ?_).trans (hi.stores e he)
      exact (hi.mem_idle_iff.1 (hidle _ hev)).2.2 hmem
  · show (List.map fst (_ ++ _)).Nodup
    rw [map_append, hfst]
    refine List.Nodup.append ?_ hi.nodup_stores fun h h₁ h₂ => hnotStores h h₂ h₁
    rw [hs'.toStore]
    exact hnodup.filter _
  · obtain ⟨b, hb, hid⟩ := hi.loads e he
    refine ⟨b, (hkeep _ (hnotLoads e he) fun hev => ?_).trans hb, hid⟩
    exact (hi.mem_idle_iff.1 (hidle _ hev)).2.1 (mem_map_of_mem he)
  · change h ∉ List.map fst (_ ++ _)
    rw [map_append, hfst, mem_append, not_or]
    refine ⟨fun hmem => ?_, hi.loads_not_stores h hh⟩
    obtain ⟨e, he, rfl⟩ := mem_map.1 hh
    exact hnotLoads e he hmem
  · change h ∉ List.map fst (_ ++ _) at hh
    rw [map_append, hfst, mem_append, not_or] at hh
    change m.blocks.lookup h = some b at hb
    rw [hs'.lookup_old h hh.1] at hb
    split at hb
    · cases hb
    · obtain ⟨href, hcompleted⟩ := hi.ready h b hb hh.2
      exact ⟨href, mem_filter.2 ⟨hcompleted, by simpa using hh.1⟩⟩
  · show List.Pairwise _ m.blocks.keys
    rw [hs'.keys]
    refine pairwise_new ?_ (List.Pairwise.sublist filter_sublist hi.recent)
    rw [← hs'.keys]
    exact m.blocks.keys_nodup

theorem Invariant.prepareStore
    {r : Option (PrepareStoreOutput H) × LRUOffloadingManager H} (hnodup : hs.Nodup)
    (h : st.manager.prepareStore hs = .ok r) : Invariant numBlocks (st.recordStore r) := by
  obtain ⟨r, m⟩ := r
  rcases prepareStore_eq hi.le hnodup h with ⟨rfl, rfl, -⟩ | ⟨out, rfl, hs'⟩
  · exact hi
  · exact hi.recordStore hnodup hs'

/-- A block whose store was prepared is not ready, so that its completion makes it ready. -/
theorem Invariant.completeStore_success
    (hmem : ∀ h ∈ hs, h ∈ st.stores.map fst) (h : st.manager.completeStore hs true = .ok m) :
    Invariant numBlocks { st with
      manager := m
      stores := st.stores.filter fun e => e.1 ∉ hs
      completed := hs ++ st.completed } := by
  obtain ⟨⟨d, stored⟩, hrun, heq⟩ := bind_ok.1 h
  cases heq
  obtain ⟨hkeys, hids, hlookup⟩ := foldlM_completeStoreBlock hrun
  have hstores : ∀ {h}, h ∈ st.stores.map fst → h ∉ hs →
      h ∈ (st.stores.filter fun e => e.1 ∉ hs).map fst := by
    intro h hh hnot
    obtain ⟨e, he, rfl⟩ := mem_map.1 hh
    exact mem_map_of_mem (mem_filter.2 ⟨he, by simpa using hnot⟩)
  refine ⟨?_, hi.numBlocks_eq, hi.le, fun e he => ?_, ?_, fun e he => ?_, fun h hh hmem' => ?_,
    fun h b hb hh => ?_, ?_⟩
  · show (d.values.map _ ++ _).Perm _
    rw [hids]
    exact hi.ids
  · obtain ⟨he, hnot⟩ := mem_filter.1 he
    have hnot : e.1 ∉ hs := by simpa using hnot
    rw [hlookup, hi.stores e he, Option.map_some, if_neg fun hh => hnot hh.1]
  · exact hi.nodup_stores.sublist (filter_sublist.map _)
  · obtain ⟨b, hb, hid⟩ := hi.loads e he
    refine ⟨b, ?_, hid⟩
    have hnot : e.1 ∉ hs := fun hh =>
      hi.loads_not_stores _ (mem_map_of_mem he) (hmem _ hh)
    rw [hlookup, hb, Option.map_some, if_neg fun hh => hnot hh.1]
  · obtain ⟨e, he, rfl⟩ := mem_map.1 hmem'
    exact hi.loads_not_stores _ hh (mem_map_of_mem (mem_filter.1 he).1)
  · change d.lookup h = some b at hb
    rw [hlookup] at hb
    obtain ⟨b₀, hb₀, rfl⟩ := Option.map_eq_some_iff.1 hb
    by_cases hmem' : h ∈ hs
    · -- the block was being stored, so nothing loads it
      have hready : b₀.isReady = false := Bool.eq_false_iff.2 fun hready =>
        (hi.isReady_iff hb₀).1 hready (hmem h hmem')
      have hzero : (st.loads.map fst).count h = 0 :=
        count_eq_zero.2 fun hl => hi.loads_not_stores h hl (hmem h hmem')
      rw [if_pos ⟨hmem', hready⟩]
      exact ⟨by rw [hzero]; rfl, mem_append_left _ hmem'⟩
    · rw [if_neg fun hh => hmem' hh.1]
      obtain ⟨href, hcompleted⟩ := hi.ready h b₀ hb₀ fun hst => hh (hstores hst hmem')
      exact ⟨href, mem_append_right _ hcompleted⟩
  · show List.Pairwise _ d.keys
    rw [hkeys]
    exact hi.recent

theorem Invariant.completeStore_failure (hnodup : hs.Nodup)
    (hmem : ∀ h ∈ hs, h ∈ st.stores.map fst) (h : st.manager.completeStore hs false = .ok m) :
    Invariant numBlocks { st with
      manager := m
      stores := st.stores.filter fun e => e.1 ∉ hs } := by
  obtain ⟨⟨b', d⟩, hrun, heq⟩ := bind_ok.1 h
  cases heq
  have he := foldlM_dropStoreBlock hnodup hrun
  have hall : (hs.filter fun h => (st.manager.blocks.lookup h).any fun b => !b.isReady) = hs := by
    refine filter_eq_self.2 fun h hh => ?_
    obtain ⟨e, he, rfl⟩ := mem_map.1 (hmem h hh)
    rw [hi.stores e he]
    rfl
  rw [hall] at he
  have hkeep : ∀ h, h ∉ hs → d.lookup h = st.manager.blocks.lookup h := fun h hh => by
    rw [he.lookup, if_neg hh]
  refine ⟨he.ids.trans hi.ids, ?_, ?_, fun e hmem' => ?_, ?_, fun e hmem' => ?_,
    fun h hh hmem' => ?_, fun h b hb hh => ?_, ?_⟩
  · show b'.numBlocks = numBlocks
    rw [he.backend]
    exact hi.numBlocks_eq
  · show b'.numAllocatedBlocks ≤ b'.numBlocks
    rw [he.backend]
    exact hi.le
  · obtain ⟨hmem', hnot⟩ := mem_filter.1 hmem'
    exact (hkeep _ (by simpa using hnot)).trans (hi.stores e hmem')
  · exact hi.nodup_stores.sublist (filter_sublist.map _)
  · obtain ⟨b, hb, hid⟩ := hi.loads e hmem'
    refine ⟨b, (hkeep _ fun hh => ?_).trans hb, hid⟩
    exact hi.loads_not_stores _ (mem_map_of_mem hmem') (hmem _ hh)
  · obtain ⟨e, he, rfl⟩ := mem_map.1 hmem'
    exact hi.loads_not_stores _ hh (mem_map_of_mem (mem_filter.1 he).1)
  · change d.lookup h = some b at hb
    by_cases hmem' : h ∈ hs
    · rw [he.lookup, if_pos hmem'] at hb
      cases hb
    · rw [hkeep h hmem'] at hb
      refine hi.ready h b hb fun hst => hh ?_
      obtain ⟨e, he, rfl⟩ := mem_map.1 hst
      exact mem_map_of_mem (mem_filter.2 ⟨he, by simpa using hmem'⟩)
  · show List.Pairwise _ d.keys
    rw [he.keys]
    exact List.Pairwise.sublist filter_sublist hi.recent

theorem Invariant.step {call : Call H} (hcall : st.Admissible call)
    (h : st.step call = .ok st') : Invariant numBlocks st' := by
  cases call with
  | lookup hs =>
    cases h
    exact hi
  | touch hs =>
    cases h
    exact hi.touch hs
  | prepareLoad hs =>
    obtain ⟨⟨spec, m⟩, hrun, heq⟩ := bind_ok.1 h
    cases heq
    exact hi.prepareLoad hrun
  | completeLoad hs =>
    obtain ⟨m, hrun, heq⟩ := bind_ok.1 h
    cases heq
    exact hi.completeLoad hcall hrun
  | prepareStore hs =>
    obtain ⟨r, hrun, heq⟩ := bind_ok.1 h
    cases heq
    exact hi.prepareStore hcall hrun
  | completeStore hs success =>
    obtain ⟨m, hrun, heq⟩ := bind_ok.1 h
    cases heq
    cases success with
    | true => exact hi.completeStore_success hcall.2 hrun
    | false => exact hi.completeStore_failure hcall.1 hcall.2 hrun

end

theorem Reachable.invariant {blockSize : ℕ} {enableEvents : Bool}
    (h : Reachable blockSize numBlocks enableEvents st) : Invariant numBlocks st := by
  induction h with
  | new => exact invariant_new _ _ _
  | step call _ hcall hst' ih => exact ih.step hcall hst'

/-- A call that follows the protocol does not fail. -/
theorem Invariant.exists_step (hi : Invariant numBlocks st) {call : Call H}
    (hcall : st.Admissible call) : ∃ st', st.step call = .ok st' := by
  cases call with
  | lookup hs => exact ⟨_, rfl⟩
  | touch hs => exact ⟨_, rfl⟩
  | prepareLoad hs =>
    obtain ⟨r, hr⟩ := exists_prepareLoad st.manager hcall
    exact ⟨_, bind_ok.2 ⟨r, hr, rfl⟩⟩
  | completeLoad hs =>
    have hcount : ∀ h ∈ hs, ∃ b, st.manager.blocks.lookup h = some b ∧
        (hs.count h : ℤ) ≤ b.refCnt := fun h hh => by
      have hpos : 0 < hs.count h := count_pos_iff.2 hh
      have hle := hcall h hh
      have hmem : h ∈ st.loads.map fst := count_pos_iff.1 (by omega)
      obtain ⟨e, he, rfl⟩ := mem_map.1 hmem
      obtain ⟨b, hb, -⟩ := hi.loads e he
      refine ⟨b, hb, ?_⟩
      rw [(hi.ready _ b hb (hi.loads_not_stores _ hmem)).1]
      exact_mod_cast hle
    obtain ⟨r, hr⟩ := exists_completeLoad st.manager hcount
    exact ⟨_, bind_ok.2 ⟨r, hr, rfl⟩⟩
  | prepareStore hs =>
    obtain ⟨r, hr⟩ := LRUOffloadingManager.exists_prepareStore st.manager hs hi.le
    exact ⟨_, bind_ok.2 ⟨r, hr, rfl⟩⟩
  | completeStore hs success =>
    obtain ⟨r, hr⟩ := exists_completeStore st.manager success hcall.1 fun h hh => by
      obtain ⟨e, he, rfl⟩ := mem_map.1 (hcall.2 h hh)
      exact lookup_isSome.1 (by rw [hi.stores e he]; rfl)
    exact ⟨_, bind_ok.2 ⟨r, hr, rfl⟩⟩

/-! ### What the protocol guarantees -/

/-- A store evicts the oldest blocks that are not in use, as few as needed, and removes no other. -/
structure EvictsOldest (st : Traced H) (out : PrepareStoreOutput H) (m : LRUOffloadingManager H) :
    Prop where
  length_eq : (out.blockHashesEvicted.length : ℤ) =
    max 0 (out.blockHashesToStore.length - st.manager.backend.getNumFreeBlocks)
  nodup : out.blockHashesEvicted.Nodup
  notInUse : ∀ h ∈ out.blockHashesEvicted, h ∈ st.manager.blocks ∧
    h ∉ st.loads.map fst ∧ h ∉ st.stores.map fst
  oldest : ∀ h ∈ out.blockHashesEvicted, ∀ a ∈ st.manager.blocks, a ∉ st.loads.map fst →
    a ∉ st.stores.map fst → a ∉ out.blockHashesEvicted → st.uses.idxOf a < st.uses.idxOf h
  others : ∀ a ∈ st.manager.blocks, a ∉ out.blockHashesEvicted →
    m.blocks.lookup a = st.manager.blocks.lookup a

/-- The ids of the resident blocks are distinct, and together with the free ids they are all ids;
what is in flight is resident under the id that was given out; only blocks whose store was completed
are found; and the calls of the protocol do not fail. -/
structure Safe (numBlocks : ℕ) (st : Traced H) : Prop where
  nodup : (st.manager.blocks.values.map blockId).Nodup
  lt : ∀ i ∈ st.manager.blocks.values.map blockId, i < numBlocks
  ids : (st.manager.blocks.values.map blockId ++ st.manager.backend.freeIds).Perm (range numBlocks)
  length_add : (st.manager.blocks.keys.length : ℤ) + st.manager.backend.getNumFreeBlocks = numBlocks
  inFlight : ∀ e ∈ st.loads ++ st.stores,
    ∃ b, st.manager.blocks.lookup e.1 = some b ∧ b.blockId = e.2
  lookup_completed : ∀ hs : List H, ∀ h ∈ hs.take (st.manager.lookup hs), h ∈ st.completed
  evicts : ∀ {hs : List H} {out : PrepareStoreOutput H} {m : LRUOffloadingManager H}, hs.Nodup →
    st.manager.prepareStore hs = .ok (some out, m) → EvictsOldest st out m
  returns : ∀ call : Call H, st.Admissible call → ∃ st', st.step call = .ok st'

section

variable (hi : Invariant numBlocks st)
include hi

/-- The idle blocks are listed in the order of their latest use, the oldest first. -/
theorem Invariant.pairwise_idle :
    (idle st.manager.blocks).Pairwise fun a b => st.uses.idxOf b < st.uses.idxOf a := by
  have hkeys : (st.manager.blocks.items.map fst).Pairwise
      fun a b => st.uses.idxOf b < st.uses.idxOf a := by
    unfold items
    rw [map_reverse, map_map]
    exact pairwise_reverse.2 hi.recent
  exact hkeys.sublist (filter_sublist.map _)

theorem Invariant.evictsOldest {out : PrepareStoreOutput H} (hnodup : hs.Nodup)
    (h : st.manager.prepareStore hs = .ok (some out, m)) : EvictsOldest st out m := by
  rcases prepareStore_eq hi.le hnodup h with ⟨heq, -⟩ | ⟨out, heq, hs'⟩
  · cases heq
  cases heq
  have hidle : ∀ h ∈ out.blockHashesEvicted, h ∈ idle st.manager.blocks := fun h hh => by
    rw [hs'.evicted] at hh
    exact mem_of_mem_take hh
  refine ⟨?_, ?_, fun h hh => hi.mem_idle_iff.1 (hidle h hh), ?_, fun a ha hnot => ?_⟩
  · rw [hs'.length_evicted]
    omega
  · rw [hs'.evicted]
    exact (nodup_idle _).sublist (take_sublist _ _)
  · intro h hh a ha hloads hstores hnot
    have hmem : a ∈ idle st.manager.blocks := hi.mem_idle_iff.2 ⟨ha, hloads, hstores⟩
    rw [hs'.evicted] at hh hnot
    -- a block that is not evicted comes after those that are
    have hsplit := hi.pairwise_idle
    rw [← take_append_drop ((out.blockHashesToStore.length : ℤ) -
      st.manager.backend.getNumFreeBlocks).toNat (idle st.manager.blocks)] at hsplit hmem
    rcases mem_append.1 hmem with hmem | hmem
    · exact absurd hmem hnot
    · exact (pairwise_append.1 hsplit).2.2 h hh a hmem
  · have hnew : a ∉ out.blockHashesToStore := by
      rw [hs'.toStore]
      intro hmem
      have hnot : a ∉ st.manager.blocks := by simpa using (mem_filter.1 hmem).2
      exact hnot ha
    rw [hs'.lookup_old a hnew, if_neg hnot]

theorem Invariant.lookup_completed (hs : List H) :
    ∀ h ∈ hs.take (st.manager.lookup hs), h ∈ st.completed := by
  intro h hh
  obtain ⟨b, hb, hready⟩ := mem_take_lookup hh
  exact (hi.ready h b hb ((hi.isReady_iff hb).1 hready)).2

end

/-- The manager is safe after every run that follows the protocol. -/
theorem Reachable.safe {blockSize : ℕ} {enableEvents : Bool}
    (h : Reachable blockSize numBlocks enableEvents st) : Safe numBlocks st := by
  have hi := h.invariant
  have hnodup := (nodup_range).perm hi.ids.symm
  refine ⟨hnodup.of_append_left, fun i hmem => ?_, hi.ids, ?_, fun e he => ?_,
    hi.lookup_completed, hi.evictsOldest, fun call => hi.exists_step⟩
  · exact mem_range.1 (hi.ids.subset (mem_append_left _ hmem))
  · have hlen := hi.ids.length_eq
    rw [length_append, length_range, length_map] at hlen
    have hfree := CPUBackend.length_freeIds hi.le
    have hkeys : st.manager.blocks.keys.length = st.manager.blocks.values.length := by
      unfold AList.keys List.keys values
      rw [length_map, length_map]
    omega
  · rcases mem_append.1 he with he | he
    · exact hi.loads e he
    · exact ⟨_, hi.stores e he, rfl⟩

/-- Two blocks are stored in a pool of two; the first is loaded while the second is still being
stored, and then a third takes the place of the second. -/
theorem safe_of_overlap : ∃ st : Traced ℕ, st.loads = [(1, 0)] ∧ st.stores = [(3, 1)] ∧
    Safe 2 st := by
  have h₀ : Reachable 16 2 false (new (H := ℕ) (CPUBackend.new 16 2) false) := .new
  have h₁ := h₀.step (.prepareStore [1, 2]) (by decide) rfl
  have h₂ := h₁.step (.completeStore [1] true) (by decide) rfl
  have h₃ := h₂.step (.prepareLoad [1]) (by decide) rfl
  have h₄ := h₃.step (.completeStore [2] true) (by decide) rfl
  have h₅ := h₄.step (.prepareStore [3]) (by decide) rfl
  exact ⟨_, rfl, rfl, h₅.safe⟩

end Traced

end LRUOffloadingManager

end LoptVllm.KVOffload
