import LoptVllm.KVOffload.ArcSafety

/-!
# Stores that are refused

`prepare_store` returns `None` if it cannot make room. The LRU manager looks for the blocks to
evict before it evicts any of them. The ARC manager evicts while it looks, so that a refusal leaves
it without the blocks that it found, and without an event that reports them.
-/

namespace LoptVllm.KVOffload

open List OrderedDict AList Prod ARCOffloadingManager

variable {H : Type}

/-- A store that is refused changes nothing. If it is not, then the blocks that are no longer
resident are those of `block_hashes_evicted`, and they are reported in one event. -/
structure Reports {M : Type} (resident : M → H → Prop)
    (events : M → Option (List (OffloadingEvent H))) (backend : M → CPUBackend) (m : M)
    (r : Except PyErr (Option (PrepareStoreOutput H) × M)) : Prop where
  refused : ∀ m', r = .ok (none, m') → m' = m
  evicted : ∀ out m', r = .ok (some out, m') →
    (∀ h, resident m h ∧ ¬ resident m' h ↔ h ∈ out.blockHashesEvicted) ∧
      events m' = record (events m) (backend m) out.blockHashesEvicted true

variable [DecidableEq H]

theorem mem_foldl_setItem {l : List (H × BlockStatus)} {d : OrderedDict H BlockStatus} {h : H} :
    h ∈ l.foldl (fun d e => d.setItem e.1 e.2) d ↔ h ∈ l.map fst ∨ h ∈ d := by
  induction l generalizing d with
  | nil => simp
  | cons e l ih =>
    rw [foldl_cons, ih, mem_setItem, map_cons, mem_cons]
    tauto

namespace LRUOffloadingManager

variable (m : LRUOffloadingManager H)

/-- The blocks of the manager. -/
def Resident (h : H) : Prop := h ∈ m.blocks

/-- What is to be evicted is known before anything is evicted. -/
theorem prepareStore_reports (hs : List H) :
    Reports Resident events backend m (m.prepareStore hs) := by
  constructor
  · intro m' hr
    unfold prepareStore at hr
    dsimp only at hr
    split at hr
    · cases hr
      rfl
    · obtain ⟨_, -, heq⟩ := bind_ok.1 hr
      cases heq
  · intro out m' hr
    unfold prepareStore at hr
    dsimp only at hr
    split at hr
    · cases hr
    next evicted _ =>
    obtain ⟨⟨out, m₁⟩, hstore, heq⟩ := bind_ok.1 hr
    cases heq
    obtain ⟨⟨b₁, d₁⟩, hevict, hstore⟩ := bind_ok.1 hstore
    obtain ⟨⟨newBlocks, b₂⟩, -, hstore⟩ := bind_ok.1 hstore
    dsimp only at hstore
    split at hstore
    · cases hstore
    next hlength =>
    cases hstore
    have he := foldlM_evict hevict
    refine ⟨fun h => ?_, rfl⟩
    have hfst : ((hs.filter fun h => h ∉ m.blocks).zip newBlocks).map fst =
        hs.filter fun h => h ∉ m.blocks := map_fst_zip (not_not.1 hlength).symm.le
    have hmem : h ∈ d₁ ↔ h ∈ m.blocks ∧ h ∉ evicted := by
      rw [AList.mem_keys, he.keys, mem_filter, ← AList.mem_keys, decide_eq_true_eq]
    show h ∈ m.blocks ∧ ¬ h ∈ List.foldl _ _ _ ↔ _
    rw [mem_foldl_setItem, hfst, hmem]
    have hin := he.mem h
    simp only [mem_filter, decide_eq_true_eq]
    tauto

end LRUOffloadingManager

namespace ARCOffloadingManager

variable {m m' : ARCOffloadingManager H}
variable (m)

/-- The blocks of the manager. -/
def Resident (h : H) : Prop := h ∈ m.t1 ∨ h ∈ m.t2

/-- No block is in both parts. -/
def Disjoint : Prop := ∀ h ∈ m.t1, h ∉ m.t2

/-- How many blocks a store can evict. -/
def numEvictable : ℕ := m.numEvictableT1 + m.numEvictableT2

variable {m}

/-! ### Evicting -/

/-- The blocks `evicted` are dropped, and nobody is told. -/
structure Drops (evicted : List H) (m m' : ARCOffloadingManager H) : Prop where
  disjoint : m'.Disjoint
  resident : ∀ h, m'.Resident h ↔ m.Resident h ∧ h ∉ evicted
  wereResident : ∀ h ∈ evicted, m.Resident h
  events : m'.events = m.events
  blockSize : m'.backend.blockSize = m.backend.blockSize
  count : m'.numEvictable + evicted.length = m.numEvictable

omit [DecidableEq H] in
theorem Drops.refl (hm : m.Disjoint) : Drops [] m m := ⟨hm, by simp, nofun, rfl, rfl, rfl⟩

omit [DecidableEq H] in
theorem Drops.cons {m₁ : ARCOffloadingManager H} {h : H} {hs : List H} (h₁ : Drops [h] m m₁)
    (h₂ : Drops hs m₁ m') : Drops (h :: hs) m m' where
  disjoint := h₂.disjoint
  resident a := by
    rw [h₂.resident, h₁.resident, mem_singleton, mem_cons]
    tauto
  wereResident a ha := by
    rcases mem_cons.1 ha with rfl | ha
    · exact h₁.wereResident _ (.head _)
    · exact ((h₁.resident a).1 (h₂.wereResident a ha)).1
  events := h₂.events.trans h₁.events
  blockSize := h₂.blockSize.trans h₁.blockSize
  count := by
    have hcount := h₁.count
    rw [← h₂.count] at hcount
    rw [← hcount, length_cons, length_singleton, add_assoc]

theorem evictOne_drops (hm : m.Disjoint) {h : H} (hone : m.evictOne = some (h, m')) :
    Drops [h] m m' := by
  unfold evictOne at hone
  split at hone
  · next a block hfirst =>
    cases hone
    split at hfirst
    · next htarget =>
      obtain ⟨hb, hzero⟩ := firstIdle_eq_some hfirst
      have hmem : h ∈ m.t1 := lookup_isSome.1 (by rw [hb]; rfl)
      refine ⟨fun a ha => hm a (mem_erase.1 ha).2, fun a => ?_, ?_, rfl, rfl, ?_⟩
      · show a ∈ m.t1.erase h ∨ a ∈ m.t2 ↔ (a ∈ m.t1 ∨ a ∈ m.t2) ∧ a ∉ [h]
        rw [mem_erase, mem_singleton]
        have hnot : a = h → a ∉ m.t2 := fun heq => heq ▸ hm h hmem
        tauto
      · rw [forall_mem_singleton]
        exact .inl hmem
      · have hidle := numIdle_erase hb hzero
        have hlength := length_erase hmem
        unfold numEvictable numEvictableT1
        dsimp only [length_singleton]
        change _ + m.numEvictableT2 + 1 = _
        omega
    · cases hfirst
  · next hfirst =>
    split at hone
    · next a block hsecond =>
      cases hone
      obtain ⟨hb, hzero⟩ := firstIdle_eq_some hsecond
      have hmem : h ∈ m.t2 := lookup_isSome.1 (by rw [hb]; rfl)
      refine ⟨fun a ha hmem' => hm a ha (mem_erase.1 hmem').2, fun a => ?_, ?_, rfl, rfl, ?_⟩
      · show a ∈ m.t1 ∨ a ∈ m.t2.erase h ↔ (a ∈ m.t1 ∨ a ∈ m.t2) ∧ a ∉ [h]
        rw [mem_erase, mem_singleton]
        have hnot : a = h → a ∉ m.t1 := fun heq hmem' => hm a hmem' (heq ▸ hmem)
        tauto
      · rw [forall_mem_singleton]
        exact .inr hmem
      · rw [numEvictable, numEvictable, length_singleton, add_assoc]
        exact congrArg (m.numEvictableT1 + ·) (numIdle_erase hb hzero)
    · cases hone

theorem evictOne_eq_none (hone : m.evictOne = none) : m.numEvictable = 0 := by
  unfold evictOne at hone
  split at hone
  · cases hone
  · next hfirst =>
    split at hone
    · cases hone
    · next hsecond =>
      have hzero : m.numEvictableT1 = 0 := by
        unfold numEvictableT1
        split at hfirst
        · rw [firstIdle_eq_none hfirst, Nat.zero_min]
        · omega
      rw [numEvictable, hzero, numEvictableT2, firstIdle_eq_none hsecond]

/-- The loop evicts as many blocks as it has to, or all that it can. -/
theorem evictBlocks_drops (n : ℕ) (hm : m.Disjoint) :
    ∃ evicted m', Drops evicted m m' ∧ evicted.length = min n m.numEvictable ∧
      evictBlocks n m = (if n ≤ m.numEvictable then some evicted else none, m') ∧
      (evicted = [] → m' = m) := by
  induction n generalizing m with
  | zero => exact ⟨[], m, .refl hm, (Nat.zero_min _).symm, by rw [if_pos (Nat.zero_le _)]; rfl,
      fun _ => rfl⟩
  | succ n ih =>
    rw [evictBlocks]
    cases hone : m.evictOne with
    | none =>
      have hzero := evictOne_eq_none hone
      exact ⟨[], m, .refl hm, by rw [hzero]; rfl, by rw [hzero, if_neg (Nat.not_succ_le_zero n)],
        fun _ => rfl⟩
    | some e =>
      obtain ⟨h, m₁⟩ := e
      have hfirst := evictOne_drops hm hone
      have hcount := hfirst.count
      rw [length_singleton] at hcount
      obtain ⟨evicted, m', hdrops, hlength, hrun, -⟩ := ih hfirst.disjoint
      refine ⟨h :: evicted, m', hfirst.cons hdrops, ?_, ?_, fun hnil => absurd hnil (cons_ne_nil _ _)⟩
      · rw [length_cons, hlength]
        omega
      · simp only [hrun]
        by_cases hn : n ≤ m₁.numEvictable
        · rw [if_pos hn, if_pos (by omega)]
          rfl
        · rw [if_neg hn, if_neg (by omega)]
          rfl

/-! ### Storing -/

variable {l : List (H × BlockStatus)}

theorem resident_foldl_insertBlock {h : H} :
    (l.foldl insertBlock m).Resident h ↔ h ∈ l.map fst ∨ m.Resident h := by
  induction l generalizing m with
  | nil => simp
  | cons e l ih =>
    rw [foldl_cons, ih]
    show _ ∨ h ∈ m.t1.setItem e.1 e.2 ∨ h ∈ m.t2 ↔ _ ∨ h ∈ m.t1 ∨ h ∈ m.t2
    rw [mem_setItem, map_cons, mem_cons]
    tauto

theorem events_foldl_insertBlock : (l.foldl insertBlock m).events = m.events := by
  induction l generalizing m with
  | nil => rfl
  | cons e l ih => exact ih

/-- There is nothing to store, or the blocks that can be evicted are enough, or there are none. -/
def FindsEnough (m : ARCOffloadingManager H) (hs : List H) : Prop := m.toStore hs = [] ∨
    ((m.toStore hs).length - m.backend.getNumFreeBlocks : ℤ) ≤ m.numEvictable ∨
    m.numEvictable = 0

/-- A store that is not refused reports what it evicted. -/
theorem storeBlocks_reports {m₁ : ARCOffloadingManager H} {evicted hs : List H}
    (hdrops : Drops evicted m m₁) {out : PrepareStoreOutput H}
    (hr : m₁.storeBlocks evicted (m.toStore hs) = .ok (out, m')) :
    (∀ h, m.Resident h ∧ ¬ m'.Resident h ↔ h ∈ out.blockHashesEvicted) ∧
      m'.events = record m.events m.backend out.blockHashesEvicted true := by
  obtain ⟨⟨newBlocks, b⟩, -, hr⟩ := bind_ok.1 hr
  dsimp only at hr
  split at hr
  · cases hr
  next hlength =>
  cases hr
  have hfst : ((m.toStore hs).zip newBlocks).map fst = m.toStore hs :=
    map_fst_zip (not_not.1 hlength).symm.le
  refine ⟨fun h => ?_, ?_⟩
  · rw [resident_foldl_insertBlock, hfst]
    change _ ∧ ¬ (_ ∨ m₁.Resident h) ↔ h ∈ evicted
    have hin := hdrops.wereResident h
    have hnew : h ∈ m.toStore hs → ¬ m.Resident h := fun hh hres => by
      have hnot := (mem_filter.1 hh).2
      rw [decide_eq_true_eq] at hnot
      exact hres.elim hnot.1 hnot.2
    rw [hdrops.resident]
    tauto
  · rw [events_foldl_insertBlock]
    rw [hdrops.events, record, record, hdrops.blockSize]

theorem reports_iff (hm : m.Disjoint) (hs : List H) :
    Reports Resident events backend m (m.prepareStore hs) ↔ m.FindsEnough hs := by
  unfold prepareStore FindsEnough
  dsimp only
  by_cases hempty : m.toStore hs = []
  · rw [if_pos hempty]
    refine iff_of_true ⟨nofun, ?_⟩ (.inl hempty)
    rintro out m' ⟨⟩
    exact ⟨fun h => by simp, rfl⟩
  rw [if_neg hempty, or_iff_right hempty]
  obtain ⟨evicted, m₁, hdrops, hlength, hrun, hnil⟩ :=
    evictBlocks_drops ((m.toStore hs).length - m.backend.getNumFreeBlocks).toNat hm
  rw [hrun]
  split_ifs with hn
  · refine iff_of_true ⟨fun m' hr => ?_, fun out m' hr => ?_⟩ (.inl (by omega))
    · obtain ⟨_, -, heq⟩ := bind_ok.1 hr
      cases heq
    · obtain ⟨⟨out, m₂⟩, hstore, heq⟩ := bind_ok.1 hr
      cases heq
      exact storeBlocks_reports hdrops hstore
  · -- the store is refused, after everything was evicted that can be
    constructor
    · intro hreports
      have hsame := hreports.refused m₁ rfl
      cases evicted with
      | nil => exact .inr (by rw [length_nil] at hlength; omega)
      | cons h evicted =>
        have hres := hdrops.wereResident h (.head _)
        rw [← hsame] at hres
        exact absurd (.head _) ((hdrops.resident h).1 hres).2
    · rintro (hle | hzero)
      · omega
      · refine ⟨?_, nofun⟩
        rintro m' ⟨⟩
        exact hnil (length_eq_zero_iff.1 (by omega))

/-! ### Every state -/

/-- The states of a manager, whatever is called. A call that raises in the middle of its list has
treated a part of the list, and a `touch` that raises has popped the block besides. -/
inductive Reached (fl : Rounding) (backend : CPUBackend) (enableEvents : Bool) :
    ARCOffloadingManager H → Prop
  | new : Reached fl backend enableEvents (new backend enableEvents)
  | touch {m m' : ARCOffloadingManager H} (hs : List H) (h : Reached fl backend enableEvents m)
      (hr : m.touch fl hs = .ok m') : Reached fl backend enableEvents m'
  | popped {m : ARCOffloadingManager H} (a : H) (h : Reached fl backend enableEvents m) :
      Reached fl backend enableEvents { m with t1 := m.t1.erase a }
  | prepareLoad {m m' : ARCOffloadingManager H} {spec : List ℕ} (hs : List H)
      (h : Reached fl backend enableEvents m) (hr : m.prepareLoad hs = .ok (spec, m')) :
      Reached fl backend enableEvents m'
  | completeLoad {m m' : ARCOffloadingManager H} (hs : List H)
      (h : Reached fl backend enableEvents m) (hr : m.completeLoad hs = .ok m') :
      Reached fl backend enableEvents m'
  | prepareStore {m m' : ARCOffloadingManager H} {out : Option (PrepareStoreOutput H)} (hs : List H)
      (h : Reached fl backend enableEvents m) (hr : m.prepareStore hs = .ok (out, m')) :
      Reached fl backend enableEvents m'
  | completeStore {m : ARCOffloadingManager H} (hs : List H) (success : Bool)
      (h : Reached fl backend enableEvents m) :
      Reached fl backend enableEvents (m.completeStore hs success)
  | takeEvents {m : ARCOffloadingManager H} (h : Reached fl backend enableEvents m) :
      Reached fl backend enableEvents { m with events := m.events.map fun _ => [] }

theorem Disjoint.touchBlock {fl : Rounding} (hm : m.Disjoint) {h : H}
    (hr : touchBlock fl m h = .ok m') : m'.Disjoint := by
  unfold ARCOffloadingManager.touchBlock at hr
  split at hr
  · next b hb =>
    split at hr
    · cases hr
      intro a ha hmem'
      obtain ⟨hne, ha⟩ := mem_erase.1 ha
      exact (mem_setItem.1 hmem').elim hne (hm a ha)
    · split at hr
      · next t1 hmove =>
        cases hr
        exact fun a ha => hm a (mem_erase.1 (((mem_of_moveToEnd? hmove).2.2.1 a).1 ha)).2
      · cases hr
  · split at hr
    · next t2 hmove =>
      cases hr
      exact fun a ha hmem => hm a ha (((mem_of_moveToEnd? hmove).2.2.1 a).1 hmem)
    · split at hr
      · cases hr
        exact hm
      · split at hr
        all_goals
          cases hr
          exact hm

theorem Adjusts.isDisjoint {f : H → BlockStatus → BlockStatus} (h : Adjusts f m m')
    (hm : m.Disjoint) : m'.Disjoint := by
  intro a ha
  rw [AList.mem_keys, h.keys_t1, ← AList.mem_keys] at ha
  rw [AList.mem_keys, h.keys_t2, ← AList.mem_keys]
  exact hm a ha

theorem Disjoint.foldl_insertBlock (hm : m.Disjoint)
    (hl : ∀ e ∈ l, e.1 ∉ m.t2) : (l.foldl insertBlock m).Disjoint := by
  induction l generalizing m with
  | nil => exact hm
  | cons e l ih =>
    refine ih (fun a ha => ?_) fun e he => hl e (.tail _ he)
    rcases mem_setItem.1 ha with rfl | ha
    · exact hl e (.head _)
    · exact hm a ha

theorem Disjoint.prepareStore (hm : m.Disjoint) {hs : List H}
    {out : Option (PrepareStoreOutput H)} (hr : m.prepareStore hs = .ok (out, m')) :
    m'.Disjoint := by
  unfold ARCOffloadingManager.prepareStore at hr
  dsimp only at hr
  split at hr
  · cases hr
    exact hm
  obtain ⟨evicted, m₁, hdrops, -, hrun, -⟩ :=
    evictBlocks_drops ((m.toStore hs).length - m.backend.getNumFreeBlocks).toNat hm
  rw [hrun] at hr
  split_ifs at hr
  · obtain ⟨⟨out, m₂⟩, hstore, heq⟩ := bind_ok.1 hr
    cases heq
    obtain ⟨⟨newBlocks, b⟩, -, hstore⟩ := bind_ok.1 hstore
    dsimp only at hstore
    split at hstore
    · cases hstore
    cases hstore
    refine Disjoint.foldl_insertBlock hdrops.disjoint fun e he hmem => ?_
    -- a block that is stored was not resident
    have hnot := (mem_filter.1 (of_mem_zip he).1).2
    rw [decide_eq_true_eq] at hnot
    exact (((hdrops.resident e.1).1 (.inr hmem)).1).elim hnot.1 hnot.2
  · cases hr
    exact hdrops.disjoint

theorem Disjoint.completeStore (hm : m.Disjoint) (hs : List H) (success : Bool) :
    (m.completeStore hs success).Disjoint := by
  cases success with
  | true => exact (foldl_completeStoreBlock []).isDisjoint hm
  | false =>
    induction hs generalizing m with
    | nil => exact hm
    | cons h hs ih =>
      refine ih ?_
      have herase : (if h ∈ m.t1 then { m with t1 := m.t1.erase h }
          else { m with t2 := m.t2.erase h }).Disjoint := by
        split
        · exact fun a ha => hm a (mem_erase.1 ha).2
        · exact fun a ha hmem => hm a ha (mem_erase.1 hmem).2
      unfold dropStoreBlock
      split
      · exact hm
      · dsimp only
        split
        · exact herase
        · exact herase

theorem Reached.disjoint {fl : Rounding} {backend : CPUBackend} {enableEvents : Bool}
    (h : Reached fl backend enableEvents m) : m.Disjoint := by
  induction h with
  | new => exact nofun
  | touch hs _ hr ih => exact foldlM_induction (fun _ _ _ _ hm hr => hm.touchBlock hr) ih hr
  | popped a _ ih => exact fun h hh => ih h (mem_erase.1 hh).2
  | prepareLoad hs _ hr ih =>
    obtain ⟨⟨m₁, loaded⟩, hrun, heq⟩ := bind_ok.1 hr
    cases heq
    refine foldlM_induction (P := fun st => st.1.Disjoint) (fun st a _ st' hm hr => ?_) ih hrun
    unfold prepareLoadBlock at hr
    split at hr
    · cases hr
    · split at hr
      · cases hr
        exact (adjusts_modify _ _ _).isDisjoint hm
      · cases hr
  | completeLoad hs _ hr ih =>
    refine foldlM_induction (fun m a _ m' hm hr => ?_) ih hr
    unfold completeLoadBlock at hr
    split at hr
    · cases hr
    · split at hr
      · cases hr
        exact (adjusts_modify _ _ _).isDisjoint hm
      · cases hr
  | prepareStore hs _ hr ih => exact ih.prepareStore hr
  | completeStore hs success _ ih => exact ih.completeStore hs success
  | takeEvents _ ih => exact ih

end ARCOffloadingManager

/-- **Which stores are reported.**  Every store of the LRU manager, in any state; and in every state
of the ARC manager those that do not find some blocks to evict but too few. -/
theorem stores_reported (fl : Rounding) (backend : CPUBackend) (enableEvents : Bool) (hs : List H) :
    (∀ m : LRUOffloadingManager H, Reports LRUOffloadingManager.Resident
      LRUOffloadingManager.events LRUOffloadingManager.backend m (m.prepareStore hs)) ∧
    ∀ m : ARCOffloadingManager H, ARCOffloadingManager.Reached fl backend enableEvents m →
      (Reports Resident events
        ARCOffloadingManager.backend m (m.prepareStore hs) ↔ m.FindsEnough hs) :=
  ⟨fun m => m.prepareStore_reports hs, fun _ h => reports_iff h.disjoint hs⟩

namespace ARCOffloadingManager

/-- A pool of two blocks is full and one of them is in use; the other one is evicted for a third
block, and an event says so. -/
theorem stores_reported_three : ∃ m : ARCOffloadingManager ℕ,
    Reached Traced.noRounding (CPUBackend.new 16 2) true m ∧ (m.prepareStore [3]).toOption.map
        (fun r => (r.1.map PrepareStoreOutput.blockHashesEvicted, r.2.t1.keys)) =
          some (some [1], [3, 2]) ∧ Reports Resident events backend m (m.prepareStore [3]) := by
  have h₀ : Reached Traced.noRounding (CPUBackend.new 16 2) true
      (new (H := ℕ) (CPUBackend.new 16 2) true) := .new
  have h₂ := (h₀.prepareStore [1, 2] rfl).completeStore [1] true
  exact ⟨_, h₂, rfl, ((stores_reported _ _ _ [3]).2 _ h₂).2 (.inr (.inl (by decide)))⟩

/-- For two blocks there is not enough room, but the other one is gone nevertheless. -/
theorem refused_store_evicts : ∃ m : ARCOffloadingManager ℕ,
    Reached Traced.noRounding (CPUBackend.new 16 2) true m ∧
      ¬ Reports Resident events backend m (m.prepareStore [3, 4]) := by
  have h₀ : Reached Traced.noRounding (CPUBackend.new 16 2) true
      (new (H := ℕ) (CPUBackend.new 16 2) true) := .new
  have h₂ := (h₀.prepareStore [1, 2] rfl).completeStore [1] true
  refine ⟨_, h₂, fun hreports => ?_⟩
  have hkeys := congrArg (fun m => m.t1.keys) (hreports.refused _ rfl)
  exact absurd hkeys (by decide)

end ARCOffloadingManager

end LoptVllm.KVOffload
