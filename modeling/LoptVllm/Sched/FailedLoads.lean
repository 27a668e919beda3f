import LoptVllm.Sched.Drafts

/-!
# Recovery from failed loads

A block that a KV connector failed to load may be shared by several running requests. The first of
them in `self.running` is cut back to the block and computes it again. Which requests are affected is
found by a scan of the blocks of the first `num_cached_tokens` tokens, a number that is recorded when
a request is scheduled for the first time; what a resumed request has loaded since is not scanned.
-/

namespace LoptVllm.Sched

open List Nat Int Engine

namespace Scheduler

variable {K : Type} [KVCacheManagerOps K] {cfg : SchedulerConfig} {invalidBlockIds : List ℕ}

open KVCacheManagerOps

/-! ### The scan of one request -/

omit [KVCacheManagerOps K] in
theorem scanBlocks_isAffected_iff (blocks : List ℕ) : ∀ (idx : ℕ) (scan : InvalidScan),
    (scanBlocks cfg invalidBlockIds idx blocks scan).isAffected = true ↔
      scan.isAffected = true ∨ ∃ b ∈ blocks, b ∈ invalidBlockIds := by
  induction blocks with
  | nil => simp [scanBlocks]
  | cons block blocks ih =>
    intro idx scan
    simp only [scanBlocks, ih]
    split_ifs with h₁ h₂ h₃ <;> simp [h₁]

/-- What the scan of the blocks from `idx` on does to the marked blocks: what it marks, and what it
finds unmarked, is at or above the block to which the request is cut back. -/
structure Marks (cfg : SchedulerConfig) (invalidBlockIds : List ℕ) (idx : ℕ) (blocks : List ℕ)
    (scan scan' : InvalidScan) : Prop where
  kept : scan.markedInvalidBlock = true →
    scan'.markedInvalidBlock = true ∧ scan'.numComputedTokens = scan.numComputedTokens
  within : scan.markedInvalidBlock = false → scan'.markedInvalidBlock = true →
    scan'.numComputedTokens ≤ ((idx + blocks.length) * cfg.blockSize : ℕ)
  above : ∀ b ∈ scan'.markedInvalidBlockIds, b ∈ scan.markedInvalidBlockIds ∨
    scan'.markedInvalidBlock = true ∧ ∃ i : ℕ, blocks[i]? = some b ∧
      scan'.numComputedTokens ≤ ((idx + i) * cfg.blockSize : ℕ)
  failed : ∀ (i b : ℕ), blocks[i]? = some b → b ∈ invalidBlockIds →
    b ∈ scan.markedInvalidBlockIds ∨ scan'.markedInvalidBlock = true ∧
      scan'.numComputedTokens ≤ ((idx + i) * cfg.blockSize : ℕ)

namespace Marks

variable {idx block : ℕ} {blocks : List ℕ} {scan scan₁ scan' : InvalidScan}

theorem cons (h : Marks cfg invalidBlockIds (idx + 1) blocks scan₁ scan')
    (h₁ : Marks cfg invalidBlockIds idx [block] scan scan₁) :
    Marks cfg invalidBlockIds idx (block :: blocks) scan scan' := by
  have hle : ∀ i : ℕ, (idx + 1 + i) * cfg.blockSize = (idx + (i + 1)) * cfg.blockSize := fun i => by
    rw [add_assoc, add_comm 1]
  -- a number of the first step is the number in the end
  have hfirst : ∀ {n : ℕ}, scan₁.markedInvalidBlock = true → scan₁.numComputedTokens ≤ n →
      scan'.markedInvalidBlock = true ∧ scan'.numComputedTokens ≤ n := by
    intro n hm hn
    obtain ⟨hm', heq⟩ := h.kept hm
    exact ⟨hm', heq ▸ hn⟩
  refine ⟨fun hm => ?_, fun hm hm' => ?_, fun b hb => ?_, fun i b hi hb => ?_⟩
  · obtain ⟨hm₁, heq₁⟩ := h₁.kept hm
    obtain ⟨hm', heq⟩ := h.kept hm₁
    exact ⟨hm', heq.trans heq₁⟩
  · rw [length_cons, ← hle]
    cases hm₁ : scan₁.markedInvalidBlock with
    | false => exact h.within hm₁ hm'
    | true =>
      refine (hfirst hm₁ (h₁.within hm hm₁)).2.trans ?_
      exact Int.ofNat_le.2 (mul_le_mul_right _ (by simp))
  · rcases h.above b hb with hb₁ | ⟨hm', i, hi, hn⟩
    · rcases h₁.above b hb₁ with hb₀ | ⟨hm₁, i, hi, hn⟩
      · exact .inl hb₀
      · obtain ⟨rfl, rfl⟩ : i = 0 ∧ block = b := by
          cases i with
          | zero => exact ⟨rfl, Option.some.inj hi⟩
          | succ i => cases hi
        obtain ⟨hm', hn'⟩ := hfirst hm₁ hn
        exact .inr ⟨hm', 0, rfl, hn'⟩
    · exact .inr ⟨hm', i + 1, hi, hle i ▸ hn⟩
  · cases i with
    | zero =>
      exact (h₁.failed 0 b hi hb).imp_right fun ⟨hm₁, hn⟩ => hfirst hm₁ hn
    | succ i =>
      rcases h.failed i b hi hb with hb₁ | ⟨hm', hn⟩
      · rcases h₁.above b hb₁ with hb₀ | ⟨hm₁, j, hj, hn⟩
        · exact .inl hb₀
        · have hj₀ : j = 0 := by
            cases j with
            | zero => rfl
            | succ j => cases hj
          obtain ⟨hm', hn'⟩ := hfirst hm₁ hn
          exact .inr ⟨hm', hn'.trans (Int.ofNat_le.2 (mul_le_mul_right _ (by omega)))⟩
      · exact .inr ⟨hm', hle i ▸ hn⟩

/-- A block that the scan does not mark, as it loaded or was marked before. -/
theorem pass (hb : block ∈ invalidBlockIds → block ∈ scan.markedInvalidBlockIds) {affected : Bool} :
    Marks cfg invalidBlockIds idx [block] scan { scan with isAffected := affected } where
  kept hm := ⟨hm, rfl⟩
  within hm hm' := absurd (hm.symm.trans hm') Bool.false_ne_true
  above _ hmem := .inl hmem
  failed i b hi hinvalid := by
    obtain rfl : block = b := mem_singleton.1 (mem_of_getElem? hi) |>.symm
    exact .inl (hb hinvalid)

/-- A block that the scan marks, in a state that is cut back to it or further up. -/
theorem mark (hm : scan'.markedInvalidBlock = true)
    (hmarked : scan'.markedInvalidBlockIds = block :: scan.markedInvalidBlockIds)
    (hn : scan'.numComputedTokens ≤ (idx * cfg.blockSize : ℕ))
    (hkept : scan.markedInvalidBlock = true → scan'.numComputedTokens = scan.numComputedTokens) :
    Marks cfg invalidBlockIds idx [block] scan scan' where
  kept h := ⟨hm, hkept h⟩
  within _ _ := hn.trans (Int.ofNat_le.2 (mul_le_mul_right _ (le_add_right _ _)))
  above b hb := by
    rw [hmarked, mem_cons] at hb
    rcases hb with rfl | hb
    · exact .inr ⟨hm, 0, rfl, hn⟩
    · exact .inl hb
  failed i _ _ _ := .inr ⟨hm, hn.trans (Int.ofNat_le.2 (mul_le_mul_right _ (le_add_right _ _)))⟩

end Marks

omit [KVCacheManagerOps K] in
/-- The scan, in a state that is cut back to the block `idx` or further up, if it is cut back. -/
theorem scanBlocks_marks (blocks : List ℕ) : ∀ (idx : ℕ) (scan : InvalidScan),
    (scan.markedInvalidBlock = true → scan.numComputedTokens ≤ (idx * cfg.blockSize : ℕ)) →
      Marks cfg invalidBlockIds idx blocks scan
        (scanBlocks cfg invalidBlockIds idx blocks scan) := by
  induction blocks with
  | nil => exact fun idx scan h => ⟨fun hm => ⟨hm, rfl⟩, fun hm hm' => absurd (hm.symm.trans hm')
      Bool.false_ne_true, fun b hb => .inl hb, fun i b hi => by cases hi⟩
  | cons block blocks ih =>
    intro idx scan h
    have hnext : (idx * cfg.blockSize : ℕ) ≤ (((idx + 1) * cfg.blockSize : ℕ) : ℤ) :=
      Int.ofNat_le.2 (mul_le_mul_right _ (le_succ _))
    simp only [scanBlocks]
    split_ifs with hinvalid hmarked hcut
    · exact Marks.cons (ih _ _ fun hm => (h hm).trans hnext) (.pass fun _ => hmarked)
    · exact Marks.cons (ih _ _ fun hm => (h hm).trans hnext) (.mark hcut rfl (h hcut) fun _ => rfl)
    · exact Marks.cons (ih _ _ fun _ => hnext) (.mark rfl rfl le_rfl fun hm => absurd hm hcut)
    · exact Marks.cons (ih _ _ fun hm => (h hm).trans hnext) (.pass fun hb => absurd hb hinvalid)

section Requests

variable (cfg invalidBlockIds) (blocks : ℕ → List ℕ)

/-- A block of a request that failed to load, below the first `n` tokens. -/
def FailedBelow (n : ℤ) (id idx b : ℕ) : Prop :=
  b ∈ invalidBlockIds ∧ (blocks id)[idx]? = some b ∧ ((idx * cfg.blockSize : ℕ) : ℤ) < n

/-- A block of a request that is above its computed tokens: the request computes the block. -/
def RecomputedBy (s : Scheduler K) (id b : ℕ) : Prop := ∃ idx : ℕ, (blocks id)[idx]? = some b ∧
    (s.heap id).numComputedTokens ≤ (idx * cfg.blockSize : ℕ)

/-- The scan of the blocks of a request, of which the first `cached` tokens may have been loaded. -/
def scanCached (blockIds marked : List ℕ) (cached computed : ℤ) : InvalidScan :=
  scanBlocks cfg invalidBlockIds 0 (blockIds.take ((cached + cfg.blockSize - 1) / cfg.blockSize).toNat)
    ⟨false, false, marked, computed, []⟩

/-- The computed tokens of a request after its scan. -/
def InvalidScan.cutBack (scan : InvalidScan) (cached : ℤ) : ℤ :=
  if scan.isAffected && !scan.markedInvalidBlock then cached else scan.numComputedTokens

/-- What the scans of several requests leave behind: the affected requests are those with a failed
block among the cached ones, and such a block below the computed tokens was marked before or is
recomputed by an earlier request. -/
structure Recomputed (requests marked affected : List ℕ) (s s' : Scheduler K) : Prop where
  affected_iff : ∀ id ∈ requests, id ∈ affected ↔
    ∃ idx b, FailedBelow cfg invalidBlockIds blocks (s.heap id).numCachedTokens id idx b
  earlier : ∀ id ∈ affected, ∀ idx b,
    FailedBelow cfg invalidBlockIds blocks (s'.heap id).numComputedTokens id idx b →
      b ∈ marked ∨ ∃ earlier, [earlier, id].Sublist requests ∧ RecomputedBy cfg blocks s' earlier b

end Requests

variable {blocks : ℕ → List ℕ} {marked : List ℕ} {cached computed : ℤ} {id : ℕ}

section

omit [KVCacheManagerOps K]

section

variable (hpos : 0 < cfg.blockSize)
include hpos

/-- The blocks that are scanned are those below the cached tokens. -/
theorem lt_numBlocks_iff {idx : ℕ} : idx < ((cached + cfg.blockSize - 1) / cfg.blockSize).toNat ↔
      ((idx * cfg.blockSize : ℕ) : ℤ) < cached := by
  rw [lt_toNat, ← Int.add_one_le_iff, Int.le_ediv_iff_mul_le (by omega), add_mul, one_mul,
    natCast_mul]
  omega

theorem failed_iff {idx b : ℕ} :
    FailedBelow cfg invalidBlockIds blocks cached id idx b ↔ b ∈ invalidBlockIds ∧
      ((blocks id).take ((cached + cfg.blockSize - 1) / cfg.blockSize).toNat)[idx]? = some b := by
  unfold FailedBelow
  rw [getElem?_take, ← lt_numBlocks_iff hpos]
  split_ifs with h <;> simp [h]

theorem scanCached_isAffected_iff :
    (scanCached cfg invalidBlockIds (blocks id) marked cached computed).isAffected = true ↔
      ∃ idx b, FailedBelow cfg invalidBlockIds blocks cached id idx b := by
  simp only [scanCached, scanBlocks_isAffected_iff, Bool.false_eq_true, false_or, failed_iff hpos]
  constructor
  · rintro ⟨b, hb, hinvalid⟩
    obtain ⟨idx, hidx⟩ := mem_iff_getElem?.1 hb
    exact ⟨idx, b, hinvalid, hidx⟩
  · rintro ⟨idx, b, hinvalid, hidx⟩
    exact ⟨b, mem_of_getElem? hidx, hinvalid⟩

end

theorem scanCached_marks : Marks cfg invalidBlockIds 0
    ((blocks id).take ((cached + cfg.blockSize - 1) / cfg.blockSize).toNat)
    ⟨false, false, marked, computed, []⟩
    (scanCached cfg invalidBlockIds (blocks id) marked cached computed) :=
  scanBlocks_marks _ _ _ fun hm => absurd hm Bool.false_ne_true

theorem scanCached_above {b : ℕ} (hb : b ∈ (scanCached cfg invalidBlockIds (blocks id) marked cached
      computed).markedInvalidBlockIds) : b ∈ marked ∨ ∃ idx : ℕ, (blocks id)[idx]? = some b ∧
      (scanCached cfg invalidBlockIds (blocks id) marked cached computed).cutBack cached ≤
        (idx * cfg.blockSize : ℕ) := by
  refine (scanCached_marks.above b hb).imp_right ?_
  rintro ⟨hm, idx, hidx, hn⟩
  rw [zero_add] at hn
  rw [getElem?_take] at hidx
  split_ifs at hidx
  refine ⟨idx, hidx, ?_⟩
  rwa [InvalidScan.cutBack, hm, Bool.not_true, Bool.and_false, if_neg Bool.false_ne_true]

/-- A failed block below the tokens to which the scan cuts a request back was marked before. -/
theorem scanCached_marked (hpos : 0 < cfg.blockSize)
    (haffected : (scanCached cfg invalidBlockIds (blocks id) marked cached computed).isAffected = true)
    {idx b : ℕ} (hb : FailedBelow cfg invalidBlockIds blocks
      ((scanCached cfg invalidBlockIds (blocks id) marked cached computed).cutBack cached) id idx b) :
    b ∈ marked := by
  have hmarks := @scanCached_marks cfg invalidBlockIds blocks marked cached computed id
  revert haffected hb hmarks
  generalize scanCached cfg invalidBlockIds (blocks id) marked cached computed = scan
  intro haffected hb hmarks
  obtain ⟨hinvalid, hidx, hlt⟩ := hb
  rw [InvalidScan.cutBack, haffected, Bool.true_and] at hlt
  cases hm : scan.markedInvalidBlock with
  | false =>
    -- nothing is marked, and the request is cut back to the cached tokens
    rw [hm, Bool.not_false, if_pos rfl] at hlt
    obtain ⟨-, hmem⟩ := (failed_iff hpos).1 ⟨hinvalid, hidx, hlt⟩
    refine (hmarks.failed idx b hmem hinvalid).resolve_right fun h => ?_
    rw [hm] at h
    exact absurd h.1 Bool.false_ne_true
  | true =>
    rw [hm, Bool.not_true, if_neg Bool.false_ne_true] at hlt
    have hle := hmarks.within rfl hm
    rw [zero_add, length_take] at hle
    have hblocks : idx < ((cached + cfg.blockSize - 1) / cfg.blockSize).toNat := by
      have := Int.ofNat_lt.1 (hlt.trans_le hle)
      exact (Nat.lt_of_mul_lt_mul_right this).trans_le (min_le_left _ _)
    obtain ⟨-, hmem⟩ := (failed_iff hpos).1 ⟨hinvalid, hidx, (lt_numBlocks_iff hpos).1 hblocks⟩
    refine (hmarks.failed idx b hmem hinvalid).resolve_right fun h => ?_
    rw [zero_add] at h
    exact absurd hlt (not_lt.2 h.2)

end

/-! ### The scans of the running requests -/

/-- The scan of one request does not depend on the others. -/
theorem Recomputed.cons (hpos : 0 < cfg.blockSize) {requests marked affected evict : List ℕ}
    {a : ℕ} {s s' : Scheduler K} {scan : InvalidScan}
    (hscan : scanCached cfg invalidBlockIds (blocks a) marked (s.heap a).numCachedTokens
      (s.heap a).numComputedTokens = scan)
    (hnodup : (a :: requests).Nodup) {s₁ : Scheduler K}
    (hs₁ : s₁ = s.modify a fun r =>
      { r with numComputedTokens := scan.cutBack (s.heap a).numCachedTokens })
    (hrec : updateRequestsWithInvalidBlocks cfg invalidBlockIds requests scan.markedInvalidBlockIds
      s₁ = .ok (affected, evict, s'))
    (h : Recomputed cfg invalidBlockIds blocks requests scan.markedInvalidBlockIds affected s₁ s') :
    Recomputed cfg invalidBlockIds blocks (a :: requests) marked
      (if scan.isAffected then a :: affected else affected) s s' := by
  obtain ⟨ha, -⟩ := nodup_cons.1 hnodup
  have hsub := (updateRequestsWithInvalidBlocks_eq _ hrec).1
  have hheap : ∀ id ∈ requests, s₁.heap id = s.heap id := fun id hid => by
    rw [hs₁, modify_heap_of_ne _ _ (ne_of_mem_of_not_mem hid ha)]
  have hself : (s'.heap a).numComputedTokens = scan.cutBack (s.heap a).numCachedTokens := by
    obtain ⟨-, n, rfl, hn⟩ := updateRequestsWithInvalidBlocks_eq _ hrec
    exact (hn a ha).trans (by rw [hs₁, modify_heap_self])
  refine ⟨fun id hid => ?_, fun id hid idx b hb => ?_⟩
  · rcases mem_cons.1 hid with rfl | hmem
    · rw [← scanCached_isAffected_iff hpos, hscan]
      split_ifs with haffected
      · exact iff_of_true (.head _) haffected
      · exact iff_of_false (fun hmem => ha (hsub hmem)) haffected
    · rw [← hheap id hmem, ← h.affected_iff id hmem]
      split_ifs
      · rw [mem_cons, or_iff_right (ne_of_mem_of_not_mem hmem ha)]
      · rfl
  · have hcases : id ∈ affected ∨ id = a ∧ scan.isAffected = true := by
      split_ifs at hid with haffected
      · exact (mem_cons.1 hid).symm.imp_right fun he => ⟨he, haffected⟩
      · exact .inl hid
    rcases hcases with hmem | ⟨rfl, haffected⟩
    · rcases h.earlier id hmem idx b hb with hb | ⟨earlier, hlist, hrec⟩
      · subst hscan
        refine (scanCached_above hb).imp_right ?_
        rintro ⟨idx', hidx', hle⟩
        exact ⟨a, cons_sublist_cons.2 (singleton_sublist.2 (hsub hmem)), idx', hidx',
          hself.trans_le hle⟩
      · exact .inr ⟨earlier, hlist.cons _, hrec⟩
    · subst hscan
      rw [hself] at hb
      exact .inl (scanCached_marked hpos haffected hb)

theorem updateRequestsWithInvalidBlocks_cons {requests affected evict : List ℕ} {a : ℕ}
    {s s' : Scheduler K} {scan : InvalidScan} (hone : getBlocks s.kvCacheManager a = [blocks a])
    (hscan : scanCached cfg invalidBlockIds (blocks a) marked (s.loadedTokens cfg a (blocks a))
      (s.heap a).numComputedTokens = scan)
    (hrec : updateRequestsWithInvalidBlocks cfg invalidBlockIds requests scan.markedInvalidBlockIds
      (s.modify a fun r =>
        { r with numComputedTokens := scan.cutBack (s.heap a).numCachedTokens }) =
      .ok (affected, evict, s')) :
    ∃ evict', updateRequestsWithInvalidBlocks cfg invalidBlockIds (a :: requests) marked s =
      .ok (if scan.isAffected then a :: affected else affected, evict', s') := by
  subst hscan
  rw [updateRequestsWithInvalidBlocks, hone]
  exact ⟨_, bind_ok.2 ⟨blocks a, rfl, bind_ok.2 ⟨(affected, evict, s'), hrec, rfl⟩⟩⟩

theorem updateRequestsWithInvalidBlocks_returns {requests : List ℕ} :
    ∀ {marked : List ℕ} {s : Scheduler K}, (∀ id, getBlocks s.kvCacheManager id = [blocks id]) →
    ∃ affected evict s', updateRequestsWithInvalidBlocks cfg invalidBlockIds requests marked s =
      .ok (affected, evict, s') := by
  induction requests with
  | nil => exact fun {_ s} _ => ⟨[], [], s, rfl⟩
  | cons a requests ih =>
    intro marked s hone
    obtain ⟨scan, hscan⟩ : ∃ scan, scanCached cfg invalidBlockIds (blocks a) marked
      (s.loadedTokens cfg a (blocks a)) (s.heap a).numComputedTokens = scan := ⟨_, rfl⟩
    obtain ⟨affected, evict, s', hrec⟩ := @ih scan.markedInvalidBlockIds (s.modify a fun r =>
      { r with numComputedTokens := scan.cutBack (s.heap a).numCachedTokens }) hone
    obtain ⟨evict', heq⟩ := updateRequestsWithInvalidBlocks_cons (hone a) hscan hrec
    exact ⟨_, evict', s', heq⟩

/-- The scans of requests that are not waiting for the connector. -/
theorem updateRequestsWithInvalidBlocks_recomputed (hpos : 0 < cfg.blockSize)
    {requests : List ℕ} : ∀ {marked : List ℕ} {s : Scheduler K}, requests.Nodup →
    (∀ id ∈ requests, (s.heap id).status ≠ .waitingForRemoteKvs) →
    (∀ id, getBlocks s.kvCacheManager id = [blocks id]) →
    ∃ affected evict s', updateRequestsWithInvalidBlocks cfg invalidBlockIds requests marked s =
        .ok (affected, evict, s') ∧
      Recomputed cfg invalidBlockIds blocks requests marked affected s s' := by
  induction requests with
  | nil =>
    intro marked s _ _ _
    exact ⟨[], [], s, rfl, nofun,
      nofun⟩
  | cons a requests ih =>
    intro marked s hnodup hst hone
    obtain ⟨scan, hscan⟩ : ∃ scan, scanCached cfg invalidBlockIds (blocks a) marked
      (s.heap a).numCachedTokens (s.heap a).numComputedTokens = scan := ⟨_, rfl⟩
    obtain ⟨ha, hnodup'⟩ := nodup_cons.1 hnodup
    obtain ⟨affected, evict, s', hrec, h⟩ := @ih scan.markedInvalidBlockIds
      (s.modify a fun r =>
        { r with numComputedTokens := scan.cutBack (s.heap a).numCachedTokens }) hnodup'
      (fun id hid => by
        rw [modify_heap_of_ne _ _ (ne_of_mem_of_not_mem hid ha)]
        exact hst id (.tail _ hid)) hone
    have hloaded : s.loadedTokens cfg a (blocks a) = (s.heap a).numCachedTokens :=
      if_neg (hst a (.head _))
    obtain ⟨evict', heq⟩ :=
      updateRequestsWithInvalidBlocks_cons (hone a) (by rw [hloaded, hscan]) hrec
    exact ⟨_, evict', s', heq, h.cons hpos hscan hnodup rfl hrec⟩

/-! ### The call -/

section Call

variable (cfg invalidBlockIds) (blocks : ℕ → List ℕ)

/-- The failed loads of a step have been dealt with: a failed block below the computed tokens of a
running request is one that an earlier running request computes again, and `update_from_output`
skips the requests that had such a block when they ran. -/
structure Recovered (s : Scheduler K) (failed : List ℕ) (s' : Scheduler K) : Prop where
  recomputed : ∀ id ∈ s.running, ∀ idx b,
    FailedBelow cfg invalidBlockIds blocks (s'.heap id).numComputedTokens id idx b →
      ∃ earlier, [earlier, id].Sublist s.running ∧ RecomputedBy cfg blocks s' earlier b
  skipped : ∀ id ∈ s.running,
    (∃ idx b, FailedBelow cfg invalidBlockIds blocks (s.heap id).numComputedTokens id idx b) →
      id ∈ failed

/-- Every running request that has read a failed block has one among the blocks that were cached
when it was scheduled for the first time. -/
def ScansReach (s : Scheduler K) : Prop := ∀ id ∈ s.running,
  (∃ idx b, FailedBelow cfg invalidBlockIds blocks (s.heap id).numComputedTokens id idx b) →
    ∃ idx b, FailedBelow cfg invalidBlockIds blocks (s.heap id).numCachedTokens id idx b

end Call

/-- **The recovery from failed loads leaves no garbage behind exactly if the scans reach every
request that has read a failed block**, with one KV group and the recompute policy. -/
theorem handleInvalidBlocks_recovered_iff {ids : Finset ℕ} {s : Scheduler K}
    (h : Reachable cfg ids s) (hpos : 0 < cfg.blockSize)
    (hrecompute : cfg.recomputeKvLoadFailures = true) {blocks : ℕ → List ℕ}
    (hone : ∀ id, getBlocks s.kvCacheManager id = [blocks id]) (invalidBlockIds : List ℕ) :
    ∃ failed s', s.handleInvalidBlocks cfg invalidBlockIds = .ok (failed, s') ∧
      (Recovered cfg invalidBlockIds blocks s failed s' ↔
        ScansReach cfg invalidBlockIds blocks s) := by
  obtain ⟨hq, -⟩ := h.queued
  obtain ⟨asyncFailed, evict₁, s₁, h₁⟩ := @updateRequestsWithInvalidBlocks_returns _ _ cfg
    invalidBlockIds blocks ((s.iterRequests cfg s.waiting).filter fun id =>
      (s.heap id).status = .waitingForRemoteKvs) [] s hone
  obtain ⟨hasync, n₁, hs₁, -⟩ := updateRequestsWithInvalidBlocks_eq _ h₁
  -- the requests that are loading do not run
  have hheap : ∀ id ∈ s.running, s₁.heap id = s.heap id := fun id hid =>
    updateRequestsWithInvalidBlocks_unaffected _ h₁ id fun hmem => by
      have hst := of_decide_eq_true (mem_filter.1 (hasync hmem)).2
      rw [(hq.isRunning id hid).2] at hst
      cases hst
  obtain ⟨failed, evict, s₂, h₂, hrec⟩ := @updateRequestsWithInvalidBlocks_recomputed _ _ cfg
    invalidBlockIds blocks hpos _ [] s₁ hq.running_nodup
    (fun id hid => by rw [hheap id hid, (hq.isRunning id hid).2]; decide) (by rw [hs₁]; exact hone)
  refine ⟨failed, { s₂ with
    failedRecvingKvReqIds := s₂.failedRecvingKvReqIds ∪ asyncFailed.toFinset }, ?_, ?_⟩
  · refine bind_ok.2 ⟨_, h₁, bind_ok.2 ⟨(failed, evict, s₂), ?_, ?_⟩⟩
    · rw [← h₂, hs₁]
    · rw [hrecompute]
      rfl
  have haffected : ∀ id ∈ s.running, (id ∈ failed ↔
      ∃ idx b, FailedBelow cfg invalidBlockIds blocks (s.heap id).numCachedTokens id idx b) :=
    fun id hid => by rw [hrec.affected_iff id hid, hheap id hid]
  constructor
  · exact fun hr id hid hread => (haffected id hid).1 (hr.skipped id hid hread)
  · refine fun hreach => ⟨fun id hid idx b hb => ?_, fun id hid hread =>
      (haffected id hid).2 (hreach id hid hread)⟩
    by_cases hfailed : id ∈ failed
    · exact (hrec.earlier id hfailed idx b hb).resolve_left not_mem_nil
    · refine absurd ((haffected id hid).2 (hreach id hid ⟨idx, b, ?_⟩)) hfailed
      rw [← hheap id hid, ← updateRequestsWithInvalidBlocks_unaffected _ h₂ id hfailed]
      exact hb

/-- The small scheduler with a connector, and the recompute policy. -/
def loadConfig : SchedulerConfig := { smallConfig with
  hasConnector := true
  recomputeKvLoadFailures := true }

/-- The connector has the first block of every request. -/
def loadEnv : ScheduleEnv := { smallEnv with getNumNewMatchedTokens := fun _ _ => (some 4, false) }

/-- A request of two blocks. -/
def twoBlocks : EngineCoreRequest := { smallRequest with promptTokenIds := some (List.range 8) }

omit [KVCacheManagerOps K] in
/-- The blocks of the requests, if there is one group. -/
theorem getBlocks_one {kv : HashedKVCacheManager smallHasher}
    (h : kv.singleTypeManagers.length = 1) :
    ∃ blocks : ℕ → List ℕ, ∀ id, getBlocks kv id = [blocks id] := by
  obtain ⟨m, hm⟩ := length_eq_one_iff.1 h
  refine ⟨m.blocks, fun id => ?_⟩
  exact (congrArg (List.map fun manager => manager.blocks id) hm : _)

/-- The first block of a new request fails to load: the request is cut back to its beginning. -/
theorem handleInvalidBlocks_recovered_small :
    ∃ (ids : Finset ℕ) (s : Scheduler (HashedKVCacheManager smallHasher)) (blocks : ℕ → List ℕ)
      (failed : List ℕ) (s' : Scheduler (HashedKVCacheManager smallHasher)),
      Reachable loadConfig ids s ∧ 0 ∈ s.running ∧ blocks 0 = [1, 2] ∧
        s.handleInvalidBlocks loadConfig [1] = .ok (failed, s') ∧
        Recovered loadConfig [1] blocks s failed s' := by
  obtain ⟨e, he, hobs⟩ := exists_ok_of_map (c := ([0], (4 : ℤ), 1, [[1, 2]]))
    (f := fun e : Engine (HashedKVCacheManager smallHasher) =>
      (e.sched.running, (e.sched.heap 0).numCachedTokens,
        e.sched.kvCacheManager.singleTypeManagers.length, e.sched.kvCacheManager.getBlocks 0))
    (show (Engine.runCalls loadConfig (fun _ _ => True) [.addRequest 0 twoBlocks, .schedule loadEnv]
      Engine.smallEngine).toOption.map _ = _ by decide +kernel)
  simp only [Prod.mk.injEq] at hobs
  obtain ⟨hrun, hcached, hlength, hblocks⟩ := hobs
  obtain ⟨blocks, hone⟩ := getBlocks_one hlength
  have hzero : blocks 0 = [1, 2] := singleton_inj.1 ((hone 0).symm.trans hblocks)
  have hreach := ((Run.new _ _ _).runCalls he).reachable.1
  obtain ⟨failed, s', hcall, hiff⟩ :=
    handleInvalidBlocks_recovered_iff hreach (by decide) rfl hone [1]
  refine ⟨_, e.sched, blocks, failed, s', hreach, by rw [hrun]; decide, hzero, hcall, hiff.2 ?_⟩
  intro id hid _
  rw [hrun, mem_singleton] at hid
  subst hid
  exact ⟨0, 1, mem_singleton_self 1, by rw [hzero]; rfl, by rw [hcached]; decide⟩

/-- A request is scheduled when nothing is cached, preempted, and resumed with a block that the
connector loads. The load fails, and the request is not skipped. -/
theorem not_recovered_resumed :
    ∃ (ids : Finset ℕ) (s : Scheduler (HashedKVCacheManager smallHasher)) (blocks : ℕ → List ℕ)
      (failed : List ℕ) (s' : Scheduler (HashedKVCacheManager smallHasher)),
      Reachable loadConfig ids s ∧ (∀ id, getBlocks s.kvCacheManager id = [blocks id]) ∧
        s.handleInvalidBlocks loadConfig [3] = .ok (failed, s') ∧
        ¬ Recovered loadConfig [3] blocks s failed s' := by
  obtain ⟨e, he, hobs⟩ := exists_ok_of_map (c := (true, [[3, 2, 1]], some ([] : List ℕ)))
    (f := fun e : Engine (HashedKVCacheManager smallHasher) =>
      (decide (0 ∈ e.sched.running ∧ 0 < (e.sched.heap 0).numComputedTokens ∧
          e.sched.kvCacheManager.singleTypeManagers.length = 1),
        e.sched.kvCacheManager.getBlocks 0,
        (e.sched.handleInvalidBlocks loadConfig [3]).toOption.map Prod.fst))
    (show (Engine.runCalls loadConfig (fun _ _ => True)
      [.addRequest 0 twoBlocks, .schedule smallEnv,
        .updateFromOutput (fun _ => (false, false)) (smallResult 0 7),
        .resetPrefixCache true false false, .schedule loadEnv]
      Engine.smallEngine).toOption.map _ = _ by decide +kernel)
  simp only [Prod.mk.injEq, decide_eq_true_eq] at hobs
  obtain ⟨⟨hrun, hcomputed, hlength⟩, hblocks, hfailed⟩ := hobs
  obtain ⟨blocks, hone⟩ := getBlocks_one hlength
  have hzero : blocks 0 = [3, 2, 1] := singleton_inj.1 ((hone 0).symm.trans hblocks)
  have hreach := ((Run.new _ _ _).runCalls he).reachable.1
  cases hcall : e.sched.handleInvalidBlocks loadConfig [3] with
  | error err =>
    rw [hcall] at hfailed
    cases hfailed
  | ok r =>
    refine ⟨_, e.sched, blocks, r.1, r.2, hreach, hone, hcall, fun hr => ?_⟩
    have hmem := hr.skipped 0 hrun ⟨0, 3, mem_singleton_self 3, by rw [hzero]; rfl, by simpa⟩
    rw [hcall] at hfailed
    rw [Option.some.inj hfailed] at hmem
    exact not_mem_nil hmem

end Scheduler

end LoptVllm.Sched
