import LoptVllm.KVOffload.Arc
import LoptVllm.KVOffload.LruSafety

/-!
# Safety of the ARC offloading manager

The protocol is that of `LruSafety`. The manager follows it except for two defects.
-/

namespace LoptVllm.KVOffload

open List Option AList Nat CPUBackend List.Nodup

namespace ARCOffloadingManager

variable {H : Type}

/-- The manager with a record of its calls. -/
structure Traced (H : Type) where
  manager : ARCOffloadingManager H
  /-- The loads that were prepared and not completed. -/
  loads : List H
  /-- The stores that were prepared and not completed. -/
  stores : List H

namespace Traced

/-- Nothing is stored. -/
def new (backend : CPUBackend) (enableEvents : Bool) : Traced H :=
  ⟨.new backend enableEvents, [], []⟩

variable [DecidableEq H] (fl : Rounding) (st : Traced H)

/-- What is recorded of a store. -/
def recordStore : Option (PrepareStoreOutput H) × ARCOffloadingManager H → Traced H
  | (none, m) => { st with manager := m }
  | (some out, m) =>
    { st with manager := m, stores := out.blockHashesToStore.reverse ++ st.stores }

/-- A call. -/
def step : Call H → Except PyErr (Traced H)
  | .lookup hs => do
    let _ := st.manager.lookup hs
    return st
  | .touch hs => do
    let m ← st.manager.touch fl hs
    return { st with manager := m }
  | .prepareLoad hs => do
    let (_, m) ← st.manager.prepareLoad hs
    return { st with manager := m, loads := hs ++ st.loads }
  | .completeLoad hs => do
    let m ← st.manager.completeLoad hs
    return { st with manager := m, loads := st.loads.diff hs }
  | .prepareStore hs => do
    let r ← st.manager.prepareStore hs
    return st.recordStore r
  | .completeStore hs success =>
    .ok { st with
      manager := st.manager.completeStore hs success
      stores := st.stores.filter fun h => h ∉ hs }

/-- The protocol: only ready blocks are loaded, the hashes of a request are distinct, and what was
prepared is completed once. -/
def Admissible : Call H → Prop
  | .lookup _ => True
  | .touch _ => True
  | .prepareLoad hs => ∀ h ∈ hs, ∃ b ∈ st.manager.get h, b.isReady = true
  | .completeLoad hs => ∀ h ∈ hs, hs.count h ≤ st.loads.count h
  | .prepareStore hs => hs.Nodup
  | .completeStore hs _ => hs.Nodup ∧ ∀ h ∈ hs, h ∈ st.stores

instance (st : Traced H) : DecidablePred st.Admissible
  | .lookup _ => inferInstanceAs (Decidable True)
  | .touch _ => inferInstanceAs (Decidable True)
  | .prepareLoad hs => inferInstanceAs
    (Decidable (∀ h ∈ hs, ∃ b ∈ st.manager.get h, b.isReady = true))
  | .completeLoad hs => inferInstanceAs (Decidable (∀ h ∈ hs, hs.count h ≤ st.loads.count h))
  | .prepareStore hs => inferInstanceAs (Decidable hs.Nodup)
  | .completeStore hs _ => inferInstanceAs (Decidable (hs.Nodup ∧ ∀ h ∈ hs, h ∈ st.stores))

/-- The calls that do not go wrong: no block is touched while it is being stored, and enough blocks
can be evicted for a store, or else the ghost lists have room for those that can. -/
def Meets (st : Traced H) : Call H → Prop
  | .touch hs => ∀ h ∈ hs, ∀ b ∈ st.manager.t1.lookup h, b.isReady = true
  | .prepareStore hs =>
    (((st.manager.toStore hs).length - st.manager.backend.getNumFreeBlocks : ℤ) ≤
      st.manager.numEvictableT1 + st.manager.numEvictableT2) ∨
    (st.manager.b1.entries.length + st.manager.numEvictableT1 ≤ st.manager.cacheCapacity ∧
      st.manager.b2.entries.length + st.manager.numEvictableT2 ≤ st.manager.cacheCapacity)
  | _ => True

instance (st : Traced H) : DecidablePred st.Meets
  | .lookup _ => inferInstanceAs (Decidable True)
  | .touch hs => inferInstanceAs
    (Decidable (∀ h ∈ hs, ∀ b ∈ st.manager.t1.lookup h, b.isReady = true))
  | .prepareLoad _ => inferInstanceAs (Decidable True)
  | .completeLoad _ => inferInstanceAs (Decidable True)
  | .prepareStore _ => inferInstanceAs (Decidable (_ ∨ _))
  | .completeStore _ _ => inferInstanceAs (Decidable True)

/-- The states after the calls of a run in which every call satisfies `P`. -/
inductive Reachable (blockSize numBlocks : ℕ) (enableEvents : Bool) (P : Traced H → Call H → Prop) :
    Traced H → Prop
  | new : Reachable blockSize numBlocks enableEvents P
      (Traced.new (CPUBackend.new blockSize numBlocks) enableEvents)
  | step {st st' : Traced H} (call : Call H)
      (h : Reachable blockSize numBlocks enableEvents P st) (hcall : st.Admissible call)
      (hP : P st call) (hst' : st.step fl call = .ok st') :
      Reachable blockSize numBlocks enableEvents P st'

/-! ### The invariant -/

/-- What holds between the manager and the record. -/
structure Invariant (numBlocks : ℕ) (st : Traced H) : Prop where
  layout : Layout numBlocks st.manager
  refs : Refs st.loads st.stores st.manager
  counts : Counts numBlocks st.manager
  b1_le : st.manager.b1.entries.length ≤ numBlocks
  b2_le : st.manager.b2.entries.length ≤ numBlocks

theorem invariant_new (blockSize numBlocks : ℕ) (enableEvents : Bool) :
    Invariant numBlocks (new (H := H) (CPUBackend.new blockSize numBlocks) enableEvents) := by
  have hfree : (CPUBackend.new blockSize numBlocks).getNumFreeBlocks = numBlocks := by
    simp [getNumFreeBlocks, CPUBackend.new]
  refine ⟨⟨nofun, nofun, nofun, hfree, le_rfl, ?_⟩, ⟨nofun, nofun, nofun⟩, ⟨?_, zero_le _⟩,
    zero_le _, zero_le _⟩
  · show (0 : ℚ) ≤ (((CPUBackend.new blockSize numBlocks).getNumFreeBlocks : ℤ) : ℚ)
    exact cast_nonneg _
  · show ((0 : ℕ) : ℤ) + (CPUBackend.new blockSize numBlocks).getNumFreeBlocks = _
    omega

variable {numBlocks : ℕ} {st st' : Traced H} {fl} {m : ARCOffloadingManager H}

/-- A change of counts keeps the invariant if the record changes in the same way. -/
theorem Invariant.adjusts (hi : Invariant numBlocks st) {f : H → BlockStatus → BlockStatus}
    (hm : Adjusts f st.manager m) {loads stores : List H}
    (hr : Refs loads stores m) : Invariant numBlocks ⟨m, loads, stores⟩ := by
  have hb₁ : m.b1 = st.manager.b1 := by rw [hm.rest]
  have hb₂ : m.b2 = st.manager.b2 := by rw [hm.rest]
  refine ⟨hm.layout hi.layout, hr, hm.counts hi.counts, ?_, ?_⟩
  · rw [hb₁]
    exact hi.b1_le
  · rw [hb₂]
    exact hi.b2_le

variable {hs : List H}

/-- Loads that are prepared or completed change the counts of ready blocks only. -/
theorem Invariant.adjust (hi : Invariant numBlocks st) {loads : List H} {δ : ℤ}
    (hm : Adjusts (adjust hs δ) st.manager m) (hnot : ∀ h ∈ hs, h ∉ st.stores)
    (hloads : ∀ h ∈ loads, h ∈ hs ∨ h ∈ st.loads) (hget : ∀ h ∈ hs, (st.manager.get h).isSome)
    (hcount : ∀ h, (loads.count h : ℤ) = st.loads.count h + δ * hs.count h) :
    Invariant numBlocks ⟨m, loads, st.stores⟩ := by
  refine hi.adjusts hm ⟨fun a ha => ?_, fun a ha => ?_, fun a b hb hnot' => ?_⟩
  · obtain ⟨b, hb, href⟩ := hi.refs.storing a ha
    refine ⟨_, by rw [hm.t1, hb]; rfl, ?_⟩
    have hzero : hs.count a = 0 := count_eq_zero.2 fun hmem => hnot a hmem ha
    simp [ARCOffloadingManager.adjust, href, hzero]
  · rw [hm.get, isSome_map]
    rcases hloads a ha with ha | ha
    · exact ⟨hget a ha, hnot a ha⟩
    · exact hi.refs.loading a ha
  · rw [hm.get] at hb
    obtain ⟨b₀, hb₀, rfl⟩ := map_eq_some_iff.1 hb
    have href := hi.refs.ready a b₀ hb₀ hnot'
    rw [hcount, ← href]
    rfl

theorem Invariant.exists_prepareLoad (hi : Invariant numBlocks st)
    (hcall : st.Admissible (.prepareLoad hs)) :
    ∃ st', st.step fl (.prepareLoad hs) = .ok st' ∧ Invariant numBlocks st' := by
  obtain ⟨spec, m, hrun, hm⟩ := prepareLoad_eq hcall
  refine ⟨_, bind_ok.2 ⟨_, hrun, rfl⟩, hi.adjust hm (fun h hh => ?_) (fun h hh => ?_)
    (fun h hh => ?_) fun h => ?_⟩
  · obtain ⟨b, hb, hready⟩ := hcall h hh
    exact (hi.refs.isReady_iff hb).1 hready
  · exact mem_append.1 hh
  · obtain ⟨b, hb, -⟩ := hcall h hh
    rw [hb]
    rfl
  · rw [count_append]
    push_cast
    ring

theorem count_diff (a : H) : ∀ (hs l : List H), (l.diff hs).count a = l.count a - hs.count a
  | [], _ => rfl
  | h :: hs, l => by
    rw [diff_cons, count_diff a hs, count_erase, count_cons, Nat.sub_sub, add_comm]

section

variable (hi : Invariant numBlocks st)

include hi

theorem Invariant.exists_completeLoad (hcall : st.Admissible (.completeLoad hs)) :
    ∃ st', st.step fl (.completeLoad hs) = .ok st' ∧ Invariant numBlocks st' := by
  have hloads : ∀ h ∈ hs, h ∈ st.loads := fun h hh => by
    have hle := hcall h hh
    have hpos : 0 < hs.count h := count_pos_iff.2 hh
    exact count_pos_iff.1 (by omega)
  have hcount : ∀ h ∈ hs, ∃ b, st.manager.get h = some b ∧ (hs.count h : ℤ) ≤ b.refCnt := by
    intro h hh
    obtain ⟨hsome, hnot⟩ := hi.refs.loading h (hloads h hh)
    obtain ⟨b, hb⟩ := isSome_iff_exists.1 hsome
    refine ⟨b, hb, ?_⟩
    rw [hi.refs.ready h b hb hnot]
    exact_mod_cast hcall h hh
  obtain ⟨m, hrun, hm⟩ := completeLoad_eq hcount
  refine ⟨_, bind_ok.2 ⟨_, hrun, rfl⟩, hi.adjust hm (fun h hh => ?_) (fun h hh => ?_)
    (fun h hh => ?_) fun h => ?_⟩
  · exact (hi.refs.loading h (hloads h hh)).2
  · exact .inr ((diff_sublist st.loads hs).subset hh)
  · exact (hi.refs.loading h (hloads h hh)).1
  · have hle : hs.count h ≤ st.loads.count h := by
      by_cases hh : h ∈ hs
      · exact hcall h hh
      · rw [count_eq_zero.2 hh]
        exact zero_le _
    rw [count_diff]
    omega

theorem Invariant.exists_touch (hcap : numBlocks ≤ 2 ^ 53) (hmeets : st.Meets (.touch hs)) :
    ∃ st', st.step fl (.touch hs) = .ok st' ∧ Invariant numBlocks st' := by
  obtain ⟨m, hrun, hm⟩ := touch_eq fl hi.layout hcap hmeets
  refine ⟨_, bind_ok.2 ⟨_, hrun, rfl⟩, hm.layout, hm.refs hi.refs, ⟨?_, ?_⟩, ?_, ?_⟩
  · show (m.size : ℤ) + m.backend.getNumFreeBlocks = _
    rw [hm.size_eq, hm.backend]
    exact hi.counts.size_add
  · show m.backend.numAllocatedBlocks ≤ m.backend.numBlocks
    rw [hm.backend]
    exact hi.counts.le
  · exact hm.b1.trans_le hi.b1_le
  · exact hm.b2.trans_le hi.b2_le

/-- A store returns, and the ghost lists are within the capacity if and only if it does not go
wrong. -/
theorem Invariant.exists_prepareStore (hnodup : hs.Nodup) :
    ∃ r m, st.manager.prepareStore hs = .ok (r, m) ∧
      (m.b1.entries.length ≤ numBlocks ∧ m.b2.entries.length ≤ numBlocks ↔
        st.Meets (.prepareStore hs)) ∧
      (m.b1.entries.length ≤ numBlocks → m.b2.entries.length ≤ numBlocks →
        Invariant numBlocks (st.recordStore (r, m))) := by
  have hcapacity := hi.layout.capacity_eq
  rcases prepareStore_cases hi.layout hi.refs hi.counts hnodup with ⟨out, hrun, hto, hempty⟩ |
    ⟨m, hrun, hlt, he⟩ | ⟨out, m, hrun, hle, hl, hr, hc, hb₁, hb₂⟩
  · refine ⟨_, _, hrun, ⟨fun _ => .inl ?_, fun _ => ⟨hi.b1_le, hi.b2_le⟩⟩, fun _ _ => ?_⟩
    · have hfree := length_freeIds hi.counts.le
      rw [hempty, length_nil]
      omega
    · dsimp only [recordStore]
      rw [hto]
      exact hi
  · have h₁ := he.b1
    have h₂ := he.b2
    refine ⟨_, _, hrun, ⟨fun hroom => .inr ?_, fun hmeets => ?_⟩, fun hb₁ hb₂ =>
      ⟨he.layout, he.refs, ⟨?_, ?_⟩, hb₁, hb₂⟩⟩
    · omega
    · have hroom := hmeets.resolve_left (by omega)
      omega
    · have hsize := he.size_eq
      have hadd := hi.counts.size_add
      have hlength := he.length
      show (m.size : ℤ) + m.backend.getNumFreeBlocks = _
      unfold getNumFreeBlocks at hadd ⊢
      rw [he.backend]
      dsimp only
      omega
    · show m.backend.numAllocatedBlocks ≤ m.backend.numBlocks
      rw [he.backend]
      exact hi.counts.le
  · exact ⟨_, _, hrun, ⟨fun _ => .inl hle, fun _ => ⟨hb₁, hb₂⟩⟩, fun _ _ => ⟨hl, hr, hc, hb₁, hb₂⟩⟩

/-- A block whose store was prepared is not ready, so that its completion makes it ready. -/
theorem Invariant.completeStore_success
    (hmem : ∀ h ∈ hs, h ∈ st.stores) :
    Invariant numBlocks { st with
      manager := st.manager.completeStore hs true
      stores := st.stores.filter fun h => h ∉ hs } := by
  have hm : Adjusts (markStored hs) st.manager (st.manager.completeStore hs true) := by
    have hfold : Adjusts (markStored hs) st.manager
        (hs.foldl completeStoreBlock (st.manager, [])).1 := foldl_completeStoreBlock []
    exact ⟨congrArg (fun m => { m with events := (st.manager.completeStore hs true).events })
      hfold.rest, hfold.keys_t1, hfold.keys_t2, hfold.t1, hfold.get⟩
  refine hi.adjusts hm ⟨fun a ha => ?_, fun a ha => ?_, fun a b hb hnot => ?_⟩
  · obtain ⟨ha, hnot⟩ := mem_filter.1 ha
    have hnot : a ∉ hs := by simpa using hnot
    obtain ⟨b, hb, href⟩ := hi.refs.storing a ha
    refine ⟨b, ?_, href⟩
    rw [hm.t1, hb, map_some, markStored, if_neg fun h => hnot h.1]
  · obtain ⟨hsome, hnot⟩ := hi.refs.loading a ha
    rw [hm.get, isSome_map]
    exact ⟨hsome, fun hmem' => hnot (mem_filter.1 hmem').1⟩
  · rw [hm.get] at hb
    obtain ⟨b₀, hb₀, rfl⟩ := map_eq_some_iff.1 hb
    unfold markStored
    by_cases ha : a ∈ hs
    · -- the block was being stored, so nothing loads it
      have hready : b₀.isReady = false := Bool.eq_false_iff.2 fun hready =>
        (hi.refs.isReady_iff hb₀).1 hready (hmem a ha)
      have hzero : st.loads.count a = 0 :=
        count_eq_zero.2 fun hl => (hi.refs.loading a hl).2 (hmem a ha)
      rw [if_pos ⟨ha, hready⟩, hzero]
      rfl
    · rw [if_neg fun h => ha h.1]
      exact hi.refs.ready a b₀ hb₀ fun hst => hnot (mem_filter.2 ⟨hst, by simpa using ha⟩)

theorem Invariant.completeStore_failure (hnodup : hs.Nodup)
    (hmem : ∀ h ∈ hs, h ∈ st.stores) :
    Invariant numBlocks { st with
      manager := st.manager.completeStore hs false
      stores := st.stores.filter fun h => h ∉ hs } := by
  obtain ⟨hl, hr, hc, hb₁, hb₂⟩ := foldl_dropStoreBlock hi.layout hi.refs hi.counts hnodup hmem
  refine ⟨hl, hr, hc, ?_, ?_⟩
  · exact (congrArg (fun d : OrderedDict H Unit => d.entries.length) hb₁).trans_le hi.b1_le
  · exact (congrArg (fun d : OrderedDict H Unit => d.entries.length) hb₂).trans_le hi.b2_le

theorem Invariant.exists_step (hcap : numBlocks ≤ 2 ^ 53)
    {call : Call H} (hcall : st.Admissible call) (hmeets : st.Meets call) :
    ∃ st', st.step fl call = .ok st' ∧ Invariant numBlocks st' := by
  cases call with
  | lookup hs => exact ⟨_, rfl, hi⟩
  | touch hs => exact hi.exists_touch hcap hmeets
  | prepareLoad hs => exact hi.exists_prepareLoad hcall
  | completeLoad hs => exact hi.exists_completeLoad hcall
  | prepareStore hs =>
    obtain ⟨r, m, hrun, hiff, hi'⟩ := hi.exists_prepareStore hcall
    obtain ⟨hb₁, hb₂⟩ := hiff.2 hmeets
    exact ⟨_, bind_ok.2 ⟨_, hrun, rfl⟩, hi' hb₁ hb₂⟩
  | completeStore hs success =>
    refine ⟨_, rfl, ?_⟩
    cases success with
    | true => exact hi.completeStore_success hcall.2
    | false => exact hi.completeStore_failure hcall.1 hcall.2

end

theorem Reachable.invariant {blockSize : ℕ} {enableEvents : Bool} (hcap : numBlocks ≤ 2 ^ 53)
    (h : Reachable fl blockSize numBlocks enableEvents Meets st) : Invariant numBlocks st := by
  induction h with
  | new => exact invariant_new _ _ _
  | step call _ hcall hmeets hst' ih =>
    obtain ⟨st', hrun, hi⟩ := ih.exists_step hcap hcall hmeets
    rw [hst'] at hrun
    cases hrun
    exact hi

/-! ### What the protocol guarantees -/

/-- No hash is in two of the dictionaries, the resident and the free blocks are all blocks, the
target size and the ghost lists are within the capacity, the calls do not fail, and a touch keeps
the resident hashes. -/
structure Safe (fl : Rounding) (numBlocks : ℕ) (st : Traced H) : Prop where
  disjoint : (st.manager.t1.keys ++ st.manager.t2.keys ++ st.manager.b1.keys ++
    st.manager.b2.keys).Nodup
  size_add : (st.manager.size : ℤ) + st.manager.backend.getNumFreeBlocks = numBlocks
  capacity_eq : st.manager.cacheCapacity = numBlocks
  target_nonneg : 0 ≤ st.manager.targetT1Size
  target_le : st.manager.targetT1Size ≤ st.manager.cacheCapacity
  b1_le : st.manager.b1.entries.length ≤ st.manager.cacheCapacity
  b2_le : st.manager.b2.entries.length ≤ st.manager.cacheCapacity
  returns : ∀ call, st.Admissible call → st.Meets call → ∃ st', st.step fl call = .ok st'
  touch : ∀ hs m, st.manager.touch fl hs = .ok m → ∀ h, (m.get h).isSome ↔ (st.manager.get h).isSome
  /-- The calls excluded by `Meets` are those that go wrong. -/
  touch_iff : ∀ hs, (∃ m, st.manager.touch fl hs = .ok m) ↔ st.Meets (.touch hs)
  prepareStore_iff : ∀ hs : List H, hs.Nodup → ∃ r m, st.manager.prepareStore hs = .ok (r, m) ∧
    ((m.b1.entries.length ≤ st.manager.cacheCapacity ∧
      m.b2.entries.length ≤ st.manager.cacheCapacity) ↔ st.Meets (.prepareStore hs))

theorem Invariant.touch_iff (hi : Invariant numBlocks st) (hcap : numBlocks ≤ 2 ^ 53)
    (hs : List H) : (∃ m, st.manager.touch fl hs = .ok m) ↔ st.Meets (.touch hs) := by
  refine ⟨fun ⟨m, hrun⟩ h hh b hb => ?_, fun hmeets => ?_⟩
  · by_contra hready
    exact touch_ne_ok fl hi.layout hcap hh hb (by simpa using hready) m hrun
  · obtain ⟨m, hrun, -⟩ := touch_eq fl hi.layout hcap hmeets
    exact ⟨m, hrun⟩

omit [DecidableEq H] in
theorem Layout.nodup (hl : Layout numBlocks m) :
    (m.t1.keys ++ m.t2.keys ++ m.b1.keys ++ m.b2.keys).Nodup := by
  simp only [append_assoc]
  refine append m.t1.keys_nodup (append m.t2.keys_nodup
    (append m.b1.keys_nodup m.b2.keys_nodup ?_) ?_) ?_
  · exact fun a h₁ h₂ => hl.b1_disjoint a (mem_keys.2 h₁) (mem_keys.2 h₂)
  · intro a h₁ h₂
    obtain ⟨hb₁, hb₂⟩ := hl.t2_disjoint a (mem_keys.2 h₁)
    exact (mem_append.1 h₂).elim (fun h => hb₁ (mem_keys.2 h)) fun h => hb₂ (mem_keys.2 h)
  · intro a h₁ h₂
    obtain ⟨ht₂, hb₁, hb₂⟩ := hl.t1_disjoint a (mem_keys.2 h₁)
    rcases mem_append.1 h₂ with h | h
    · exact ht₂ (mem_keys.2 h)
    · exact (mem_append.1 h).elim (fun h => hb₁ (mem_keys.2 h)) fun h => hb₂ (mem_keys.2 h)

/-- In a run without the calls that go wrong the manager is safe, whatever the rounding. -/
theorem Reachable.safe_of_meets {blockSize : ℕ} {enableEvents : Bool} (hcap : numBlocks ≤ 2 ^ 53)
    (h : Reachable fl blockSize numBlocks enableEvents Meets st) : Safe fl numBlocks st := by
  have hi := h.invariant hcap
  have hcapacity := hi.layout.capacity_eq
  refine ⟨Layout.nodup hi.layout, hi.counts.size_add, hcapacity, hi.layout.target_nonneg,
    hi.layout.target_le, ?_, ?_, fun call hcall hmeets => ?_, fun hs m hrun a => ?_,
    hi.touch_iff hcap, fun hs hnodup => ?_⟩
  · have hle := hi.b1_le
    omega
  · have hle := hi.b2_le
    omega
  · obtain ⟨st', hst', -⟩ := hi.exists_step hcap hcall hmeets
    exact ⟨st', hst'⟩
  · obtain ⟨m', hrun', ht⟩ := touch_eq fl hi.layout hcap ((hi.touch_iff hcap hs).1 ⟨m, hrun⟩)
    rw [hrun] at hrun'
    cases hrun'
    rw [ht.get]
  · obtain ⟨r, m, hrun, hiff, -⟩ := hi.exists_prepareStore hnodup
    refine ⟨r, m, hrun, ?_⟩
    rw [← hiff, hcapacity, cast_le, cast_le]

/-- The operations of exact arithmetic. -/
def noRounding : Rounding := ⟨id, fun _ _ h => h, fun _ _ => rfl⟩

/-- A block is stored and loaded, then it is touched and goes over to the second part, and then a
store evicts it. -/
theorem safe_of_promotion : ∃ st : Traced ℕ, st.manager.t1.keys = [2] ∧ st.manager.b2.keys = [1] ∧
    Safe noRounding 1 st := by
  have h₀ : Reachable noRounding 16 1 false Meets (new (H := ℕ) (CPUBackend.new 16 1) false) := .new
  have h₁ := h₀.step (.prepareStore [1]) (by decide) (by decide) rfl
  have h₂ := h₁.step (.completeStore [1] true) (by decide) (by decide) rfl
  have h₃ := h₂.step (.touch [1]) (by decide) (by decide) rfl
  have h₄ := h₃.step (.prepareStore [2]) (by decide) (by decide) rfl
  exact ⟨_, rfl, rfl, h₄.safe_of_meets (by decide)⟩

/-- The protocol alone does not make the manager safe. A touch of a block that is being stored
fails, and a store that is refused leaves a ghost list longer than the capacity. -/
theorem raises_and_overflows :
    (∃ st : Traced ℕ, Reachable noRounding 16 1 false (fun _ _ => True) st ∧
      st.Admissible (.touch [1]) ∧ st.step noRounding (.touch [1]) = .error (.keyError "")) ∧
    ∃ st : Traced ℕ, Reachable noRounding 16 2 false (fun _ _ => True) st ∧
      st.manager.cacheCapacity < st.manager.b1.entries.length := by
  constructor
  · have h₀ : Reachable noRounding 16 1 false (fun _ _ => True)
        (new (H := ℕ) (CPUBackend.new 16 1) false) := .new
    have h₁ := h₀.step (.prepareStore [1]) (by decide) trivial rfl
    exact ⟨_, h₁, trivial, rfl⟩
  · have h₀ : Reachable noRounding 16 2 false (fun _ _ => True)
        (new (H := ℕ) (CPUBackend.new 16 2) false) := .new
    have h₁ := h₀.step (.prepareStore [1, 2]) (by decide) trivial rfl
    have h₂ := h₁.step (.completeStore [1, 2] true) (by decide) trivial rfl
    have h₃ := h₂.step (.prepareStore [3, 4]) (by decide) trivial rfl
    have h₄ := h₃.step (.completeStore [3, 4] true) (by decide) trivial rfl
    have h₅ := h₄.step (.prepareStore [5, 6, 7]) (by decide) trivial rfl
    exact ⟨_, h₅, by decide⟩

end Traced

end ARCOffloadingManager

end LoptVllm.KVOffload
