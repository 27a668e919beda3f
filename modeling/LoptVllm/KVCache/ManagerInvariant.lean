import LoptVllm.KVCache.Manager
import LoptVllm.KVCache.PoolInvariant
import Mathlib.Algebra.BigOperators.Group.List.Basic

/-!
# What the managers do

One lemma for each method of a manager: which blocks the request has afterwards, and that reference
counts are occurrences again. `others` are the occurrences in the lists of the other managers.
-/

namespace LoptVllm.KVCache

open List AList Nat Int Pi

/-- The sum over an association list is that over the rest of it and the entry of one key. -/
theorem sum_kerase (f : List ℕ → ℕ → ℕ) (hf : f [] = 0) (a : ℕ) (l : List (Σ _ : ℕ, List ℕ)) :
    f ((l.dlookup a).getD []) + ((l.kerase a).map fun e => f e.2).sum =
      (l.map fun e => f e.2).sum := by
  induction l with
  | nil => simp [hf]
  | cons e l ih =>
    obtain ⟨k, v⟩ := e
    by_cases h : a = k
    · subst h
      have herase : (⟨a, v⟩ :: l : List (Σ _ : ℕ, List ℕ)).kerase a = l := kerase_cons_eq rfl
      rw [dlookup_cons_eq, herase]
      rfl
    · rw [dlookup_cons_ne _ _ h, kerase_cons_ne h, map_cons, map_cons,
        sum_cons, sum_cons, ← ih, add_left_comm]

/-- No block occurs twice, except for the null block. -/
def Distinct (nullBlock : ℕ) (l : List ℕ) : Prop := ∀ b, b ≠ nullBlock → tally l b ≤ 1

theorem distinct_nil (nullBlock : ℕ) : Distinct nullBlock [] := fun _ _ => zero_le 1

variable {l : List ℕ}

theorem tally_eq_zero {b : ℕ} (h : b ∉ l) : tally l b = 0 := count_eq_zero.2 h

theorem tally_replicate_of_ne {n a b : ℕ} (h : b ≠ a) : tally (replicate n a) b = 0 :=
  tally_eq_zero fun hb => h (eq_of_mem_replicate hb)

theorem tally_le_one (h : l.Nodup) (b : ℕ) : tally l b ≤ 1 :=
  nodup_iff_count_le_one.1 h b

/-- New blocks keep a list distinct, since they occur nowhere. -/
theorem Distinct.append_new {nullBlock : ℕ} {l ret : List ℕ} (h : Distinct nullBlock l)
    (occ : ℕ → ℕ) (hnodup : ret.Nodup) (hle : ∀ b, b ≠ nullBlock → tally l b ≤ occ b)
    (hret : ∀ b ∈ ret, occ b = 0) : Distinct nullBlock (l ++ ret) := by
  intro b hb
  rw [tally_append, Pi.add_apply]
  by_cases hmem : b ∈ ret
  · have := hle b hb
    have := hret b hmem
    have := tally_le_one hnodup b
    omega
  · rw [tally_eq_zero hmem]
    exact h b hb

namespace SingleTypeKVCacheManager

open BlockPool

variable {δ : Type} {m m' : SingleTypeKVCacheManager} {pool pool' : BlockPool δ} {first : ℕ}
  {others : ℕ → ℕ} {rid : ℕ} {l : List ℕ}

/-- How often each block occurs in the lists of the manager. -/
def occ (m : SingleTypeKVCacheManager) : ℕ → ℕ := (m.reqToBlocks.entries.map fun e => tally e.2).sum

/-- The blocks of a request become `l`, and those of the other requests stay. -/
structure SetsBlocks (m : SingleTypeKVCacheManager) (rid : ℕ) (l : List ℕ)
    (m' : SingleTypeKVCacheManager) : Prop where
  config : m'.toManagerConfig = m.toManagerConfig
  self : m'.blocks rid = l
  other : ∀ r, r ≠ rid → m'.blocks r = m.blocks r
  occ : m'.occ + tally (m.blocks rid) = m.occ + tally l

variable (m) (rid)

theorem occ_erase :
    tally (m.blocks rid) + ((m.reqToBlocks.entries.kerase rid).map fun e => tally e.2).sum =
      m.occ :=
  sum_kerase tally tally_nil rid m.reqToBlocks.entries

theorem SetsBlocks.refl : SetsBlocks m rid (m.blocks rid) m :=
  ⟨rfl, rfl, fun _ _ => rfl, rfl⟩

theorem setsBlocks_setBlocks (l : List ℕ) : SetsBlocks m rid l (m.setBlocks rid l) := by
  refine ⟨rfl, ?_, fun r hr => ?_, ?_⟩
  · simp [blocks, setBlocks]
  · simp [blocks, setBlocks, lookup_insert_ne hr]
  · have hocc : (m.setBlocks rid l).occ =
        tally l + ((m.reqToBlocks.entries.kerase rid).map fun e => tally e.2).sum := by
      rw [occ, setBlocks, entries_insert, map_cons, sum_cons]
    rw [hocc, ← occ_erase m, add_assoc, add_comm _ (tally (m.blocks rid)), add_comm]

theorem setsBlocks_erase : SetsBlocks m rid [] { m with
      reqToBlocks := m.reqToBlocks.erase rid
      numCachedBlock := m.numCachedBlock.erase rid } := by
  refine ⟨rfl, ?_, fun r hr => ?_, ?_⟩
  · simp [blocks]
  · simp [blocks, lookup_erase_ne hr]
  · rw [tally_nil, add_zero, ← occ_erase m, add_comm]
    rfl

variable {rid} {m}

theorem SetsBlocks.counted_add (hs : SetsBlocks m rid l m') (new : ℕ → ℕ)
    (h : pool.Counted first (others + m.occ + new))
    (hl : ∀ b, b ≠ pool.nullBlock → tally l b = tally (m.blocks rid) b + new b) :
    pool.Counted first (others + m'.occ) := by
  refine h.congr fun b hb => ?_
  have hocc := congrFun hs.occ b
  have := hl b hb
  simp only [Pi.add_apply] at hocc ⊢
  omega

/-- Fewer blocks for the request; those that it loses are still counted. -/
theorem SetsBlocks.counted_sub (hs : SetsBlocks m rid l m') (removed : List ℕ)
    (h : pool.Counted first (others + m.occ))
    (hl : ∀ b, b ≠ pool.nullBlock → tally (m.blocks rid) b = tally l b + tally removed b) :
    pool.Counted first (others + m'.occ + tally removed) := by
  refine h.congr fun b hb => ?_
  have hocc := congrFun hs.occ b
  have := hl b hb
  simp only [Pi.add_apply] at hocc ⊢
  omega

theorem tally_blocks_le (m : SingleTypeKVCacheManager) (rid b : ℕ) :
    tally (m.blocks rid) b ≤ m.occ b := by
  rw [← occ_erase m, Pi.add_apply]
  exact le_add_right _ _

theorem usable_of_mem (h : pool.Counted first (others + m.occ)) {b : ℕ} (hb : b ∈ m.blocks rid)
    (hnull : b ≠ pool.nullBlock) : pool.Usable first b := by
  refine h.usable b hnull ?_
  have := tally_pos_iff.2 hb
  have := tally_blocks_le m rid b
  rw [Pi.add_apply]
  omega

/-! ### Removing and freeing -/

theorem tally_set {i : ℕ} (hi : i < l.length) {b nullBlock : ℕ} (hb : b ≠ nullBlock) :
    tally l b = tally (l.set i nullBlock) b + tally [l.getD i nullBlock] b := by
  have hget : l.getD i nullBlock = l[i] := by
    rw [getD_eq_getElem?_getD, getElem?_eq_getElem, Option.getD_some]
  have hcount := count_set (a := nullBlock) (b := b) hi
  have hle : l[i] = b → 0 < l.count b := fun h => count_pos_iff.2 (h ▸ getElem_mem hi)
  simp only [tally, count_singleton, beq_iff_eq] at hcount ⊢
  split_ifs at hcount ⊢ with h <;> omega

theorem removeLoop_spec (nullBlock n : ℕ) (l : List ℕ) (hn : n ≤ l.length) :
    (removeLoop nullBlock n l).2.length = l.length ∧ (∀ b, b ≠ nullBlock → tally l b =
      tally (removeLoop nullBlock n l).2 b + tally (removeLoop nullBlock n l).1 b) ∧
    ∀ i, (removeLoop nullBlock n l).2[i]? = l[i]? ∨
      i < n ∧ (removeLoop nullBlock n l).2[i]? = some nullBlock := by
  induction n generalizing l with
  | zero => exact ⟨rfl, fun b _ => rfl, fun i => .inl rfl⟩
  | succ n ih =>
    by_cases hnull : l.getD n nullBlock = nullBlock
    · have hstep : removeLoop nullBlock (n + 1) l = ([], l) := by
        simp only [removeLoop, if_pos hnull]
      rw [hstep]
      exact ⟨rfl, fun b _ => rfl, fun i => .inl rfl⟩
    · have hstep : removeLoop nullBlock (n + 1) l =
          (l.getD n nullBlock :: (removeLoop nullBlock n (l.set n nullBlock)).1,
            (removeLoop nullBlock n (l.set n nullBlock)).2) := by
        simp only [removeLoop, if_neg hnull]
      rw [hstep]
      obtain ⟨hlen, htally, hget⟩ := ih (l.set n nullBlock) (by rw [length_set]; omega)
      refine ⟨by rw [hlen, length_set], fun b hb => ?_, fun i => ?_⟩
      · have hcons : tally (l.getD n nullBlock :: (removeLoop nullBlock n (l.set n nullBlock)).1) b =
            tally [l.getD n nullBlock] b + tally (removeLoop nullBlock n (l.set n nullBlock)).1 b :=
          congrFun (tally_append [_] _) b
        rw [tally_set hn hb, htally b hb, hcons, add_comm (tally [_] b), add_assoc]
      · rcases hget i with heq | ⟨hi, heq⟩
        · by_cases hin : i = n
          · subst hin
            rw [heq, getElem?_set_self hn]
            exact .inr ⟨lt_succ_self i, rfl⟩
          · rw [heq, getElem?_set_ne (Ne.symm hin)]
            exact .inl rfl
        · exact .inr ⟨hi.trans (lt_succ_self n), heq⟩

/-- What `remove_skipped_blocks` does: blocks before the attention window become null blocks. -/
structure Removes (nullBlock : ℕ) (m : SingleTypeKVCacheManager) (rid skipped : ℕ)
    (m' : SingleTypeKVCacheManager) : Prop where
  numCachedBlock : m'.numCachedBlock = m.numCachedBlock
  setsBlocks : SetsBlocks m rid (m'.blocks rid) m'
  length : (m'.blocks rid).length = (m.blocks rid).length
  block : ∀ i, (m'.blocks rid)[i]? = (m.blocks rid)[i]? ∨
    i < skipped ∧ (m'.blocks rid)[i]? = some nullBlock
  distinct : Distinct nullBlock (m'.blocks rid)

/-- **Removing skipped blocks** never fails. -/
theorem removeSkippedBlocks_spec (h : pool.Counted first (others + m.occ))
    (hdistinct : Distinct pool.nullBlock (m.blocks rid)) (totalComputedTokens : ℕ) :
    ∃ m' pool', m.removeSkippedBlocks rid totalComputedTokens pool = .ok (m', pool') ∧
      pool'.Counted first (others + m'.occ) ∧ SameIndex pool pool' ∧
      pool.getNumFreeBlocks ≤ pool'.getNumFreeBlocks ∧
      Removes pool.nullBlock m rid (m.numSkippedBlocks totalComputedTokens) m' := by
  unfold removeSkippedBlocks
  split_ifs with hzero
  · exact ⟨m, pool, rfl, h, ⟨rfl, rfl, rfl, rfl⟩, le_rfl, rfl, .refl m rid, rfl,
      fun i => .inl rfl, hdistinct⟩
  · set n := min (m.numSkippedBlocks totalComputedTokens) (m.blocks rid).length with hn
    obtain ⟨hlen, htally, hget⟩ := removeLoop_spec pool.nullBlock n (m.blocks rid) (min_le_right _ _)
    have hsets := setsBlocks_setBlocks m rid (removeLoop pool.nullBlock n (m.blocks rid)).2
    obtain ⟨q, refCnt, hfree, hcounted, hnum⟩ := freeBlocks_counted
      (hsets.counted_sub _ h htally) fun b hb => by
        have := htally b hb
        have := hdistinct b hb
        omega
    refine ⟨_, _, bind_ok.2 ⟨_, hfree, rfl⟩, hcounted, ⟨rfl, rfl, rfl, rfl⟩, hnum, rfl,
      hsets.self.symm ▸ hsets, ?_, fun i => ?_, fun b hb => ?_⟩
    · exact (congrArg List.length hsets.self).trans hlen
    · rw [hsets.self]
      exact (hget i).imp_right (And.imp_left fun hi => hi.trans_le (min_le_left _ _))
    · rw [hsets.self]
      have := htally b hb
      have := hdistinct b hb
      omega

/-- What `free` does: the request is forgotten. -/
structure Forgets (m : SingleTypeKVCacheManager) (rid : ℕ) (m' : SingleTypeKVCacheManager) :
    Prop where
  setsBlocks : SetsBlocks m rid [] m'
  not_mem : rid ∉ m'.numCachedBlock
  other : ∀ r, r ≠ rid → m'.numCachedBlock.lookup r = m.numCachedBlock.lookup r

/-- **Freeing** never fails. -/
theorem free_spec (h : pool.Counted first (others + m.occ))
    (hdistinct : Distinct pool.nullBlock (m.blocks rid)) :
    ∃ m' pool', m.free rid pool = .ok (m', pool') ∧ pool'.Counted first (others + m'.occ) ∧
      SameIndex pool pool' ∧ pool.getNumFreeBlocks ≤ pool'.getNumFreeBlocks ∧ Forgets m rid m' := by
  have hsets := setsBlocks_erase m rid
  obtain ⟨q, refCnt, hfree, hcounted, hnum⟩ := freeBlocks_counted
    (hsets.counted_sub (m.blocks rid).reverse h fun b _ => by
      simp [tally_reverse]) fun b hb => by
        rw [tally_reverse]
        exact hdistinct b hb
  refine ⟨_, _, bind_ok.2 ⟨_, hfree, rfl⟩, hcounted, ⟨rfl, rfl, rfl, rfl⟩, hnum, hsets, ?_, ?_⟩
  · simp [mem_erase]
  · exact fun r hr => lookup_erase_ne hr

/-! ### Allocating -/

/-- What allocation does to the pool: references are added, and keys may be lost. -/
structure Grows (pool pool' : BlockPool δ) : Prop where
  config : pool'.toBlockPoolConfig = pool.toBlockPoolConfig
  refCnt_le : ∀ b, pool.refCnt b ≤ pool'.refCnt b
  keeps : Keeps pool pool'

theorem Grows.refl (pool : BlockPool δ) : Grows pool pool :=
  ⟨rfl, fun _ => le_refl _, fun _ _ h => ⟨h, rfl⟩⟩

theorem Grows.trans {pool'' : BlockPool δ} (h : Grows pool pool') (h' : Grows pool' pool'') :
    Grows pool pool'' :=
  ⟨h'.config.trans h.config, fun b => le_trans (h.refCnt_le b) (h'.refCnt_le b),
    h.keeps.trans h'.keeps⟩

theorem grows_of_newBlocks {ret : List ℕ} (h : NewBlocks pool ret pool')
    (hindexed : pool.Indexed first) : Grows pool pool' := by
  refine ⟨h.config, fun b => ?_, h.keeps hindexed⟩
  rw [h.refCnt]
  exact le_add_of_nonneg_right (natCast_nonneg _)

variable [DecidableEq δ]

/-- The blocks for external tokens in `allocate_new_computed_blocks`. -/
def numExternalBlocks (m : SingleTypeKVCacheManager) (numHits numLocal numExternal : ℕ) : ℕ :=
  if 0 < (if 0 < m.numSkippedBlocks (numLocal + numExternal) then
      min (numLocal + numExternal - m.spec.kind.getNumSkippedTokens (numLocal + numExternal))
        numExternal
    else numExternal) then
    cdiv (numLocal + numExternal) m.blockSize -
      max (m.numSkippedBlocks (numLocal + numExternal)) numHits
  else 0

/-- The list of a request that starts with the hit `hits`, of which the first `skipped` blocks are
not needed, and with new blocks `ret` for external tokens. -/
def startBlocks (nullBlock skipped : ℕ) (hits ret : List ℕ) : List ℕ :=
  replicate skipped nullBlock ++ hits.drop skipped ++ ret

/-- What `allocate_new_computed_blocks` does for a new request. -/
structure Starts (nullBlock : ℕ) (m : SingleTypeKVCacheManager) (rid skipped : ℕ)
    (hits ret : List ℕ) (m' : SingleTypeKVCacheManager) : Prop where
  setsBlocks : SetsBlocks m rid (startBlocks nullBlock skipped hits ret) m'
  numCachedBlock : m'.numCachedBlock = m.numCachedBlock.insert rid (max skipped hits.length)
  ne_nullBlock : ∀ b ∈ ret, b ≠ nullBlock
  distinct : Distinct nullBlock (startBlocks nullBlock skipped hits ret)

/-- The blocks that a request starts with fit into its computed tokens. -/
theorem max_le_cdiv {numHits numLocal numExternal : ℕ} (hlen : numHits * m.blockSize ≤ numLocal)
    (hext : 0 < if 0 < m.numSkippedBlocks (numLocal + numExternal) then
        min (numLocal + numExternal - m.spec.kind.getNumSkippedTokens (numLocal + numExternal))
          numExternal else numExternal) :
    max (m.numSkippedBlocks (numLocal + numExternal)) numHits ≤
      cdiv (numLocal + numExternal) m.blockSize := by
  refine Nat.max_le.2 ⟨?_, le_cdiv m.blockSize_pos (hlen.trans (le_add_right _ _))⟩
  split_ifs at hext with hskip
  · refine le_cdiv m.blockSize_pos ((div_mul_le_self _ _).trans ?_)
    omega
  · exact (not_lt.1 hskip).trans (zero_le _)

theorem length_startBlocks (nullBlock skipped : ℕ) (hits ret : List ℕ) :
    (startBlocks nullBlock skipped hits ret).length = max skipped hits.length + ret.length := by
  simp only [startBlocks, length_append, length_replicate, length_drop]
  omega

theorem tally_startBlocks {nullBlock b : ℕ} (hb : b ≠ nullBlock) (skipped : ℕ) (hits ret : List ℕ) :
    tally (startBlocks nullBlock skipped hits ret) b =
      tally (hits.drop skipped) b + tally ret b := by
  simp [startBlocks, tally_append, Pi.add_apply, tally_replicate_of_ne hb, zero_add]

/-- **Starting a request** on a hit fails for lack of blocks only. -/
theorem allocateNewComputedBlocks_spec (h : pool.Counted first (others + m.occ))
    (hindexed : pool.Indexed first) (hcross : m.isCrossAttention = false)
    (hmem : rid ∉ m.numCachedBlock) (hnil : m.blocks rid = []) {hits : List ℕ}
    (hus : ∀ b ∈ hits, b ≠ pool.nullBlock → pool.Usable first b)
    (hdistinct : Distinct pool.nullBlock hits) {numLocal : ℕ}
    (hlen : hits.length * m.blockSize ≤ numLocal) (hoff : m.enableCaching = false → hits = [])
    (numExternal : ℕ) :
    (∃ ret m' pool', m.allocateNewComputedBlocks rid hits numLocal numExternal pool =
        .ok (m', pool') ∧ pool'.Counted first (others + m'.occ) ∧ pool'.Indexed first ∧
      ret.length = m.numExternalBlocks hits.length numLocal numExternal ∧ Grows pool pool' ∧
      pool.getNumFreeBlocks ≤ pool'.getNumFreeBlocks +
        (hits.drop (m.numSkippedBlocks (numLocal + numExternal))).countP pool.IsFree + ret.length ∧
      Starts pool.nullBlock m rid (m.numSkippedBlocks (numLocal + numExternal)) hits ret m') ∨
    (∃ e, m.allocateNewComputedBlocks rid hits numLocal numExternal pool = .error e) ∧
      pool.getNumFreeBlocks <
        (hits.drop (m.numSkippedBlocks (numLocal + numExternal))).countP pool.IsFree +
        m.numExternalBlocks hits.length numLocal numExternal := by
  set skipped := m.numSkippedBlocks (numLocal + numExternal) with hskipped
  have husdrop : ∀ b ∈ hits.drop skipped, b ≠ pool.nullBlock → pool.Usable first b :=
    fun b hb => hus b (mem_of_mem_drop hb)
  have hdrop : Distinct pool.nullBlock (hits.drop skipped) :=
    fun b hb => ((drop_sublist _ _).count_le b).trans (hdistinct b hb)
  obtain ⟨q, refCnt, htouch, hcounted, hle, hnum⟩ := touch_counted h husdrop
  -- without caching there is nothing to touch
  have htouch' : m.touchComputed (hits.drop skipped) pool =
      .ok { pool with freeBlockQueue := q, refCnt := refCnt } := by
    unfold touchComputed
    by_cases hcache : m.enableCaching
    · rw [if_pos hcache, htouch]
    · rw [Bool.not_eq_true] at hcache
      simp only [hoff hcache, drop_nil, touch] at htouch
      rw [hcache, if_neg Bool.false_ne_true, hoff hcache, drop_nil, if_neg (by simp), htouch]
  have hgrows : Grows pool { pool with freeBlockQueue := q, refCnt := refCnt } :=
    ⟨rfl, hle, fun _ _ hkey => ⟨hkey, rfl⟩⟩
  have hlenReq : (replicate skipped pool.nullBlock ++ hits.drop skipped).length =
      max skipped hits.length := by
    rw [length_append, length_replicate, length_drop]
    omega
  have hslow : ¬ (m.isCrossAttention ∨ rid ∈ m.numCachedBlock) := by
    simp [hcross, hmem]
  unfold allocateNewComputedBlocks numExternalBlocks
  rw [if_neg hslow, if_neg (by simpa using hnil)]
  simp only [← hskipped, htouch', hlenReq, bind, Except.bind, pure]
  have hsets : ∀ ret, SetsBlocks m rid (startBlocks pool.nullBlock skipped hits ret)
      ((m.setNumCachedBlock rid (max skipped hits.length)).setBlocks rid
        (startBlocks pool.nullBlock skipped hits ret)) := by
    intro ret
    have := setsBlocks_setBlocks (m.setNumCachedBlock rid (max skipped hits.length)) rid
      (startBlocks pool.nullBlock skipped hits ret)
    exact ⟨this.config, this.self, this.other, this.occ⟩
  have htally : ∀ ret b, b ≠ pool.nullBlock →
      tally (startBlocks pool.nullBlock skipped hits ret) b =
        tally (m.blocks rid) b + (tally (hits.drop skipped) + tally ret) b := by
    intro ret b hb
    rw [tally_startBlocks hb, hnil, tally_nil, Pi.zero_apply, zero_add, Pi.add_apply]
  by_cases hext : 0 < if 0 < skipped then
      min (numLocal + numExternal - m.spec.kind.getNumSkippedTokens (numLocal + numExternal))
        numExternal
    else numExternal
  · -- the external tokens get new blocks
    have hfit := max_le_cdiv hlen hext
    set n := cdiv (numLocal + numExternal) m.blockSize - max skipped hits.length with hn
    have hcast : (cdiv (numLocal + numExternal)
        (m.setNumCachedBlock rid (max skipped hits.length)).blockSize : ℤ) -
          (max skipped hits.length : ℕ) = n := by
      show (cdiv (numLocal + numExternal) m.blockSize : ℤ) - (max skipped hits.length : ℕ) = n
      omega
    simp only [if_pos hext, hcast]
    by_cases hfree : (n : ℤ) ≤ q.numFreeBlocks
    · left
      obtain ⟨ret, pool', hnew, hretlen, hnodup, hret, hblocks, hcounted', hindexed', hnum'⟩ :=
        getNewBlocks_counted hcounted (hindexed.of_eq rfl rfl rfl) hfree
      have hnull : pool'.nullBlock = pool.nullBlock := congrArg (·.nullBlock) hblocks.config
      have hstart : Distinct pool.nullBlock (startBlocks pool.nullBlock skipped hits ret) := by
        intro b hb
        rw [tally_startBlocks hb]
        have := hdrop.append_new (others + m.occ + tally (hits.drop skipped)) hnodup
          (fun b _ => le_add_left _ _) (fun b hb => (hret b hb).2) b hb
        rwa [tally_append, Pi.add_apply] at this
      rw [add_assoc] at hcounted'
      refine ⟨ret, _, pool', ?_, (hsets ret).counted_add _ hcounted' (hnull ▸ htally ret),
        hindexed', hretlen, hgrows.trans (grows_of_newBlocks hblocks (hindexed.of_eq rfl rfl rfl)),
        ?_, hsets ret, rfl, fun b hb => h.ne_nullBlock (hret b hb).1, hstart⟩
      · simp only [hnew]
        rfl
      · have hnum'' : pool'.getNumFreeBlocks = q.numFreeBlocks - n := hnum'
        omega
    · right
      have hlt : getNumFreeBlocks
          { pool with freeBlockQueue := q, refCnt := refCnt } < n := not_le.1 hfree
      have hfail := getNewBlocks_error hlt
      exact ⟨⟨_, by simp only [hfail]; rfl⟩, by omega⟩
  · left
    simp only [if_neg hext]
    have hstart : startBlocks pool.nullBlock skipped hits [] =
        replicate skipped pool.nullBlock ++ hits.drop skipped := append_nil _
    refine ⟨[], _, _, rfl, ?_, hindexed.of_eq rfl rfl rfl, rfl, hgrows, ?_, ?_, rfl,
      fun _ hb => absurd hb not_mem_nil, ?_⟩
    · rw [← hstart]
      refine (hsets []).counted_add (tally (hits.drop skipped) + tally []) ?_ (htally [])
      rwa [tally_nil, add_zero]
    · rw [length_nil, Int.natCast_zero, add_zero]
      exact hnum
    · rw [← hstart]
      exact hsets []
    · intro b hb
      rw [tally_startBlocks hb, tally_nil]
      exact hdrop b hb

/-- What `allocate_new_blocks` does: the list of the request grows at its end. -/
structure Extends (nullBlock : ℕ) (m : SingleTypeKVCacheManager) (rid : ℕ) (new : List ℕ)
    (m' : SingleTypeKVCacheManager) : Prop where
  setsBlocks : SetsBlocks m rid (m.blocks rid ++ new) m'
  numCachedBlock : m'.numCachedBlock = m.numCachedBlock
  ne_nullBlock : ∀ b ∈ new, b ≠ nullBlock
  distinct : Distinct nullBlock (m.blocks rid ++ new)

/-- **Extending the list of a request** fails for lack of blocks only. -/
theorem allocateNewBlocks_spec (h : pool.Counted first (others + m.occ))
    (hindexed : pool.Indexed first) (hdistinct : Distinct pool.nullBlock (m.blocks rid))
    (numTokens : ℕ) :
    (∃ new m' pool', m.allocateNewBlocks rid numTokens pool = .ok ((new, m'), pool') ∧
      pool'.Counted first (others + m'.occ) ∧ pool'.Indexed first ∧
      new.length = cdiv (m.addSpeculativeTokens numTokens) m.blockSize - (m.blocks rid).length ∧
      Grows pool pool' ∧ pool'.getNumFreeBlocks = pool.getNumFreeBlocks - new.length ∧
      Extends pool.nullBlock m rid new m') ∨
    (∃ e, m.allocateNewBlocks rid numTokens pool = .error e) ∧ pool.getNumFreeBlocks <
        (cdiv (m.addSpeculativeTokens numTokens) m.blockSize - (m.blocks rid).length : ℕ) := by
  unfold allocateNewBlocks
  set n := cdiv (m.addSpeculativeTokens numTokens) m.blockSize - (m.blocks rid).length with hn
  by_cases hle : (cdiv (m.addSpeculativeTokens numTokens) m.blockSize : ℤ) -
      (m.blocks rid).length ≤ 0
  · left
    have hzero : n = 0 := by omega
    simp only [if_pos hle]
    refine ⟨[], m, pool, rfl, h, hindexed, hzero.symm, .refl pool, by simp, ?_, rfl, nofun, ?_⟩
    · rw [append_nil]
      exact .refl m rid
    · rwa [append_nil]
  · have hcast : (cdiv (m.addSpeculativeTokens numTokens) m.blockSize : ℤ) -
        (m.blocks rid).length = n := by omega
    have hpos : ¬ (n : ℤ) ≤ 0 := hcast ▸ hle
    simp only [hcast, if_neg hpos]
    by_cases hfree : (n : ℤ) ≤ pool.getNumFreeBlocks
    · left
      obtain ⟨new, pool', hnew, hlen, hnodup, hret, hblocks, hcounted', hindexed', hnum⟩ :=
        getNewBlocks_counted h hindexed hfree
      have hsets := setsBlocks_setBlocks m rid (m.blocks rid ++ new)
      refine ⟨new, _, pool', bind_ok.2 ⟨_, hnew, rfl⟩, hsets.counted_add _ hcounted' ?_,
        hindexed', hlen, grows_of_newBlocks hblocks hindexed, by rw [hnum, hlen], hsets, rfl,
        fun b hb => h.ne_nullBlock (hret b hb).1, ?_⟩
      · exact fun b _ => congrFun (tally_append _ _) b
      · refine hdistinct.append_new _ hnodup (fun b _ => ?_) fun b hb => (hret b hb).2
        exact (tally_blocks_le m rid b).trans (le_add_left _ _)
    · right
      have hfail := getNewBlocks_error (not_le.1 hfree)
      exact ⟨⟨_, by simp only [hfail]; rfl⟩, not_le.1 hfree⟩

/-- **Caching blocks** touches the index only. -/
theorem cacheBlocks_spec {hasher : BlockHasher δ} {request : SchedulerRequest hasher}
    (h : pool.Counted first (others + m.occ)) (hindexed : pool.Indexed first)
    (hon : pool.enableCaching) {numTokens : ℕ}
    (hcache : m.cacheBlocks request numTokens pool = .ok (m', pool')) :
    pool'.Counted first (others + m'.occ) ∧ pool'.Indexed first ∧
      Caches pool request.input m.groupId
        (blockHashList request.blockHashes (m.blockSize / pool.hashBlockSize)) pool' ∧
      m'.toManagerConfig = m.toManagerConfig ∧ m'.reqToBlocks = m.reqToBlocks ∧
      ∀ r, r ≠ request.requestId → m'.numCachedBlock.lookup r = m.numCachedBlock.lookup r := by
  unfold cacheBlocks at hcache
  by_cases hcross : m.isCrossAttention
  · rw [if_pos hcross] at hcache
    cases hcache
  rw [if_neg hcross] at hcache
  by_cases hle : (m.numCachedBlock.lookup request.requestId).getD 0 ≥ numTokens / m.blockSize
  · -- nothing new is full
    rw [if_pos hle] at hcache
    cases hcache
    exact ⟨h, hindexed, ⟨rfl, rfl, rfl, fun _ => .inl ⟨rfl, rfl⟩⟩, rfl, rfl, fun _ _ => rfl⟩
  · rw [if_neg hle] at hcache
    obtain ⟨pool₁, hfull, hret⟩ := bind_ok.1 hcache
    cases hret
    obtain ⟨hcaches, hindexed'⟩ := cacheFullBlocks_indexed hindexed hon
      (fun b hb hnull => usable_of_mem h hb hnull) hfull
    exact ⟨h.of_eq hcaches.config hcaches.freeBlockQueue hcaches.refCnt, hindexed', hcaches, rfl,
      rfl, fun r hr => lookup_insert_ne hr⟩

end SingleTypeKVCacheManager

end LoptVllm.KVCache
