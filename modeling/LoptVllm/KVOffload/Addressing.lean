import LoptVllm.KVOffload.Connector
import LoptVllm.KVOffload.LruSafety
import LoptVllm.KVOffload.Transfer
import Mathlib.Data.List.Sort

/-!
# The addresses of offloaded blocks

The connector picks the hashes of a request by a stride, counts its GPU blocks, and hands lists of
block ids to the worker, which expands them to pairs of a GPU block and a part of a CPU block. The
paths of stores and of loads compute the same correspondence in different ways.
-/

namespace LoptVllm.KVOffload

open List Option Function OrderedDict Prod Nat OffloadingConnectorScheduler BlockStatus

open LRUOffloadingManager

variable {H : Type}

/-! ### Hashes by their indices -/

/-- The hash with index `k`. -/
def offloadedHash (req : RequestView H) (f k : ℕ) : Option H := req.blockHashes[f * k + f - 1]?

variable {req : RequestView H} {f : ℕ}

theorem offloadedHash_isSome (hf : 0 < f) {k : ℕ} :
    (offloadedHash req f k).isSome ↔ k < req.blockHashes.length / f := by
  unfold offloadedHash
  rw [isSome_iff_ne_none, Ne, List.getElem?_eq_none_iff, not_le,
    ← succ_le_iff (m := k), le_div_iff_mul_le hf, succ_mul, mul_comm k]
  omega

theorem filter_stride (hf : 0 < f) (s len : ℕ) :
    ((range len).filter fun i => f * s + f - 1 ≤ i ∧ (i - (f * s + f - 1)) % f = 0) =
      (range' s (len / f - s)).map fun k => f * k + f - 1 := by
  have hsorted : ((range len).filter fun i =>
      f * s + f - 1 ≤ i ∧ (i - (f * s + f - 1)) % f = 0).Pairwise (· < ·) :=
    List.Pairwise.filter _ pairwise_lt_range
  have hsorted' : ((range' s (len / f - s)).map fun k => f * k + f - 1).Pairwise (· < ·) := by
    rw [pairwise_map]
    refine List.Pairwise.imp (fun {a b} hab => ?_) pairwise_lt_range'
    have hmul : f * (a + 1) ≤ f * b := mul_le_mul_left f hab
    rw [mul_succ] at hmul
    omega
  refine hsorted.eq_of_mem_iff hsorted' fun i => ?_
  rw [mem_filter, List.mem_map, mem_range, decide_eq_true_eq]
  constructor
  · rintro ⟨hi, hle, hmod⟩
    obtain ⟨q, hq⟩ := dvd_of_mod_eq_zero hmod
    refine ⟨s + q, mem_range'_1.2 ⟨le_add_right s q, ?_⟩, ?_⟩
    · have hlt : s + q < len / f := by
        rw [← succ_le_iff, le_div_iff_mul_le hf, succ_mul, add_mul, mul_comm, mul_comm q]
        omega
      omega
    · rw [mul_add]
      omega
  · rintro ⟨k, hk, rfl⟩
    obtain ⟨hs, hlt⟩ := mem_range'_1.1 hk
    have hlt : k < len / f := by omega
    rw [← succ_le_iff, le_div_iff_mul_le hf, succ_mul, mul_comm] at hlt
    have hmul : f * s ≤ f * k := mul_le_mul_left f hs
    refine ⟨by omega, by omega, ?_⟩
    have hsub : f * k + f - 1 - (f * s + f - 1) = f * (k - s) := by
      rw [Nat.mul_sub]
      omega
    rw [hsub, mul_mod_right]

variable {M : Type} {c : OffloadingConnectorScheduler H M}

/-- The number of the hashes below the end of a range. -/
def endOf (req : RequestView H) (f : ℕ) (endIdx : Option ℕ) : ℕ :=
  min (endIdx.getD (req.blockHashes.length / f)) (req.blockHashes.length / f)

variable {endIdx : Option ℕ}

theorem getBlockHashes_eq (hf : 0 < c.blockSizeFactor) (hend : endIdx ≠ some 0)
    (s : ℕ) : c.getBlockHashes req s endIdx =
      (range' s (endOf req c.blockSizeFactor endIdx - s)).filterMap
        (offloadedHash req c.blockSizeFactor) := by
  unfold getBlockHashes islice
  have hstop : min ((if endIdx.getD 0 = 0 then none
      else endIdx.map (c.blockSizeFactor * ·)).getD req.blockHashes.length) req.blockHashes.length /
        c.blockSizeFactor = endOf req c.blockSizeFactor endIdx := by
    unfold endOf
    cases endIdx with
    | none => simp
    | some e =>
      have he : e ≠ 0 := fun h => hend (h ▸ rfl)
      have hmono : Monotone fun n : ℕ => n / c.blockSizeFactor := fun _ _ h =>
        Nat.div_le_div_right h
      simp only [getD_some, if_neg he, map_some]
      refine (hmono.map_min).trans ?_
      rw [Nat.mul_div_cancel_left e hf]
  rw [filter_stride hf, hstop, filterMap_map]
  rfl

theorem getElem?_filterMap {α β : Type} {g : α → Option β} {l : List α}
    (h : ∀ a ∈ l, (g a).isSome) (t : ℕ) : (l.filterMap g)[t]? = l[t]?.bind g := by
  induction l generalizing t with
  | nil => rfl
  | cons a l ih =>
    obtain ⟨b, hb⟩ := isSome_iff_exists.1 (h a (.head _))
    rw [filterMap_cons_some hb]
    cases t with
    | zero => exact hb.symm
    | succ t => exact ih (fun a ha => h a (.tail _ ha)) t

theorem isSome_of_mem_range' (hf : 0 < f) {s k : ℕ}
    (hk : k ∈ range' s (endOf req f endIdx - s)) : (offloadedHash req f k).isSome := by
  have hmem := mem_range'_1.1 hk
  have hle : endOf req f endIdx ≤ req.blockHashes.length / f := min_le_right _ _
  exact (offloadedHash_isSome hf).2 (by omega)

theorem getElem?_getBlockHashes (hf : 0 < c.blockSizeFactor) (hend : endIdx ≠ some 0)
    (s t : ℕ) : (c.getBlockHashes req s endIdx)[t]? =
      if s + t < endOf req c.blockSizeFactor endIdx then
        offloadedHash req c.blockSizeFactor (s + t) else none := by
  rw [getBlockHashes_eq hf hend, getElem?_filterMap fun a ha => isSome_of_mem_range' hf ha]
  by_cases ht : s + t < endOf req c.blockSizeFactor endIdx
  · rw [if_pos ht, getElem?_range' (by omega), one_mul]
    rfl
  · rw [if_neg ht, getElem?_eq_none (by rw [length_range']; omega)]
    rfl

theorem length_getBlockHashes (hf : 0 < c.blockSizeFactor) (hend : endIdx ≠ some 0) (s : ℕ) :
    (c.getBlockHashes req s endIdx).length = endOf req c.blockSizeFactor endIdx - s := by
  rw [getBlockHashes_eq hf hend, length_filterMap_eq_countP, countP_eq_length.2
    fun a ha => isSome_of_mem_range' hf ha, length_range']

/-! ### The CPU blocks of a request -/

section

variable [DecidableEq H] (m : LRUOffloadingManager H)

/-- The CPU block that is assigned to the hash with index `k`. -/
def cpuBlock (req : RequestView H) (f k : ℕ) : Option ℕ :=
  (offloadedHash req f k).bind fun h => (m.blocks.lookup h).map blockId

/-- The part of the CPU block that belongs to the GPU block `j`. -/
def subBlock (req : RequestView H) (f j : ℕ) : ℕ :=
  (cpuBlock m req f (j / f)).getD 0 * f + j % f

theorem lookup_touch (hs : List H) (h : H) : (m.touch hs).blocks.lookup h = m.blocks.lookup h := by
  obtain ⟨d, hd, hperm, -⟩ := touch_eq m hs
  rw [hd]
  exact AList.perm_lookup hperm

/-! ### Loads -/

/-- The blocks with the indices from `s` on are ready. -/
def ReadyFrom (req : RequestView H) (f s hits : ℕ) : Prop :=
  ∀ k, s ≤ k → k < s + hits → ∃ h b, offloadedHash req f k = some h ∧
    m.blocks.lookup h = some b ∧ b.isReady = true

theorem readyFrom_lookup {c : OffloadingConnectorScheduler H (LRUOffloadingManager H)}
    (hf : 0 < c.blockSizeFactor) (m : LRUOffloadingManager H) (s : ℕ) :
    ReadyFrom m req c.blockSizeFactor s (m.lookup (c.getBlockHashes req s none)) := by
  intro k hs hk
  generalize hl : c.getBlockHashes req s none = hashes at hk
  have hle : m.lookup hashes ≤ hashes.length := by
    exact (List.takeWhile_prefix _).length_le
  obtain ⟨h, hh⟩ : ∃ h, hashes[k - s]? = some h :=
    ⟨_, getElem?_eq_getElem (by omega : k - s < hashes.length)⟩
  have hmem : h ∈ hashes.take (m.lookup hashes) := by
    refine mem_of_getElem? (i := k - s) ?_
    rw [getElem?_take, if_pos (by omega), hh]
  obtain ⟨b, hb, hready⟩ := mem_take_lookup hmem
  refine ⟨h, b, ?_, hb, hready⟩
  rw [← hl, getElem?_getBlockHashes hf (by simp), show s + (k - s) = k by omega] at hh
  split at hh
  · exact hh
  · cases hh

variable {c : OffloadingConnectorScheduler H (LRUOffloadingManager H)}

/-- A whole offloaded block is ready beyond the `n` GPU blocks that were computed locally. -/
def LoadReady (c : OffloadingConnectorScheduler H (LRUOffloadingManager H)) (req : RequestView H)
    (n : ℕ) : Prop :=
  n + c.blockSizeFactor ≤ (n / c.blockSizeFactor +
    c.manager.lookup (c.getBlockHashes req (n / c.blockSizeFactor) none)) * c.blockSizeFactor

variable {m : LRUOffloadingManager H}

theorem lookup_congr {m' : LRUOffloadingManager H} (h : ∀ a, m'.blocks.lookup a = m.blocks.lookup a)
    (hs : List H) : m'.lookup hs = m.lookup hs := by
  unfold LRUOffloadingManager.lookup
  simp [h]

/-- What `get_num_new_matched_tokens` answers for `n` blocks that were computed locally: nothing, or
the tokens up to the end of the last block that is ready. -/
theorem getNumNewMatchedTokens_eq (hg : 0 < c.gpuBlockSize) (hf : 0 < c.blockSizeFactor)
    (hsize : c.offloadedBlockSize = c.blockSizeFactor * c.gpuBlockSize)
    (hlen : req.blockHashes.length = req.numTokens / c.gpuBlockSize) (n : ℕ) :
    ∃ ext isAsync, c.getNumNewMatchedTokens req (n * c.gpuBlockSize) = .ok ((ext, isAsync),
        { c with manager := c.manager.touch (c.getBlockHashes req 0 none) }) ∧
      (¬ LoadReady c req n ∧ ext = 0 ∨ LoadReady c req n ∧ 0 < ext ∧ ∃ hits,
        ext + n * c.gpuBlockSize =
          (n / c.blockSizeFactor + hits) * c.blockSizeFactor * c.gpuBlockSize ∧
        ReadyFrom (c.manager.touch (c.getBlockHashes req 0 none)) req c.blockSizeFactor
          (n / c.blockSizeFactor) hits) := by
  set f := c.blockSizeFactor
  have hblocks : req.blockHashes.length / f = req.numTokens / c.offloadedBlockSize := by
    rw [hlen, hsize, Nat.div_div_eq_div_mul, mul_comm]
  have hstart : n * c.gpuBlockSize / c.offloadedBlockSize = n / f := by
    rw [hsize, Nat.mul_div_mul_right _ _ hg]
  have hq : n / f * f ≤ n := div_mul_le_self _ _
  -- the hits are among the blocks of the request
  have hhits : c.manager.lookup (c.getBlockHashes req (n / f) none) ≤
      req.numTokens / c.offloadedBlockSize - n / f := by
    refine le_trans (List.takeWhile_prefix _).length_le ?_
    rw [length_getBlockHashes hf (by simp), ← hblocks]
    exact Nat.sub_le_sub_right (min_le_right _ _) _
  unfold getNumNewMatchedTokens LoadReady
  rw [if_neg (not_not_intro hblocks), hstart]
  have hready : ReadyFrom _ req _ _ _ := readyFrom_lookup hf
    (c.manager.touch (c.getBlockHashes req 0 none)) (n / f)
  rw [lookup_congr (lookup_touch _ _)] at hready
  have htouch : OffloadingManager.touch c.manager (c.getBlockHashes req 0 none) =
    (.ok (c.manager.touch (c.getBlockHashes req 0 none)) :
      Except PyErr (LRUOffloadingManager H)) := rfl
  have hlookup : OffloadingManager.lookup (c.manager.touch (c.getBlockHashes req 0 none))
      (c.getBlockHashes req (n / f) none) =
    c.manager.lookup (c.getBlockHashes req (n / f) none) :=
    lookup_congr (lookup_touch _ _) _
  simp only [htouch, hlookup, ok_bind]
  generalize c.manager.lookup (c.getBlockHashes req (n / f) none) = hits at hready hhits ⊢
  generalize n / f = q at hready hhits hq ⊢
  have hmul : c.offloadedBlockSize * (q + hits) = (q + hits) * f * c.gpuBlockSize := by
    rw [hsize]
    ring
  have hcast : (c.offloadedBlockSize : ℤ) * (q + hits) = ((q + hits) * f * c.gpuBlockSize : ℕ) := by
    rw [← hmul]
    push_cast
    ring
  by_cases hle : n + f ≤ (q + hits) * f
  · have hpos : hits ≠ 0 := by
      rintro rfl
      rw [add_zero] at hle
      omega
    have hload : n * c.gpuBlockSize + c.offloadedBlockSize ≤ (q + hits) * f * c.gpuBlockSize := by
      rw [hsize, ← add_mul]
      exact mul_le_mul_right _ hle
    have hfull : (q + hits) * f * c.gpuBlockSize ≤
        c.offloadedBlockSize * (req.numTokens / c.offloadedBlockSize) := by
      rw [← hmul]
      exact mul_le_mul_left _ (by omega)
    have hsizepos : 0 < c.offloadedBlockSize := by
      rw [hsize]
      exact mul_pos hf hg
    rw [if_neg (by omega)]
    exact ⟨_, true, rfl, .inr ⟨hle, by omega, hits, by omega, hready⟩⟩
  · have hlt : (q + hits) * f * c.gpuBlockSize < n * c.gpuBlockSize + c.offloadedBlockSize := by
      rw [hsize, ← add_mul]
      exact mul_lt_mul_of_pos_right (Nat.lt_of_not_le hle) hg
    rw [if_pos (.inr (.inr (by omega)))]
    exact ⟨0, false, rfl, .inl ⟨hle, rfl⟩⟩

/-- What a load of the GPU blocks from `n` on copies: each from its own part of a CPU block that is
ready, so that it gets what was stored under its hash. A null block may occur more than once. -/
def LoadsOwnBlocks (c : OffloadingConnectorScheduler H (LRUOffloadingManager H)) (reqId : ℕ)
    (req : RequestView H) (n numExternalTokens : ℕ) (blocks : List (ℕ × Bool)) : Prop :=
  ∃ c' spec pairs, c.updateStateAfterAlloc reqId req blocks numExternalTokens = .ok c' ∧
    c'.reqsToLoad.lookup reqId = some spec ∧
    transferAsync c.blockSizeFactor 1 spec = .ok pairs ∧
    pairs = (range' n (numExternalTokens / c.gpuBlockSize)).map (fun j =>
      (subBlock c.manager req c.blockSizeFactor j, (blocks.map fst).getD j 0)) ∧
    (∀ j ∈ range' n (numExternalTokens / c.gpuBlockSize),
      (cpuBlock c.manager req c.blockSizeFactor (j / c.blockSizeFactor)).isSome ∧
        j < blocks.length) ∧
    ∀ (α : Type) (cpu gpu : ℕ → α) (stored : H → ℕ → α),
      (∀ h b, c.manager.blocks.lookup h = some b → b.isReady = true → ∀ i < c.blockSizeFactor,
        cpu (b.blockId * c.blockSizeFactor + i) = stored h i) →
      ∀ j ∈ range' n (numExternalTokens / c.gpuBlockSize),
        ((blocks.map fst).drop n).count ((blocks.map fst).getD j 0) = 1 →
        ∃ h, offloadedHash req c.blockSizeFactor (j / c.blockSizeFactor) = some h ∧
          swapBlocks cpu gpu pairs ((blocks.map fst).getD j 0) = stored h (j % c.blockSizeFactor)

theorem drop_eq_map_range' (l : List ℕ) (n : ℕ) :
    l.drop n = (range' n (l.length - n)).map fun j => l.getD j 0 := by
  refine ext_getElem (by simp) fun t ht ht' => ?_
  rw [getElem_drop, getElem_map, getElem_range', one_mul,
    getD_eq_getElem?_getD, getElem?_eq_getElem]
  rfl

/-- The ids that a load answers belong to the hashes one after the other. -/
theorem cpuBlock_eq_of_forall₂ {s e : ℕ} {spec : List ℕ} {P : BlockStatus → Prop}
    (hf : 0 < c.blockSizeFactor) (he : e ≠ 0)
    (h : Forall₂ (fun h i => ∃ b, m.blocks.lookup h = some b ∧ P b ∧ b.blockId = i)
      (c.getBlockHashes req s (some e)) spec) {t : ℕ} (ht : t < spec.length) :
    cpuBlock m req c.blockSizeFactor (s + t) = some (spec.getD t 0) := by
  have ht' : t < (c.getBlockHashes req s (some e)).length := h.length_eq ▸ ht
  have hget := Forall₂.get h ht' ht
  obtain ⟨b, hb, -, hid⟩ := hget
  have hhash : offloadedHash req c.blockSizeFactor (s + t) =
      some ((c.getBlockHashes req s (some e)).get ⟨t, ht'⟩) := by
    have hsome := getElem?_eq_getElem ht'
    rw [getElem?_getBlockHashes hf (by simpa using he)] at hsome
    split at hsome
    · exact hsome
    · cases hsome
  unfold cpuBlock
  rw [hhash, bind_some, hb, map_some, hid, getD_eq_getElem?_getD, getElem?_eq_getElem]
  rfl

/-- The GPU block `n + t` belongs to the part `r + t` of the CPU blocks from `q` on. -/
theorem index_of_part (hf : 0 < f) {n q r len hits t : ℕ} (hsplit : f * q + r = n)
    (hend : hits * f = r + len) (ht : t < len) : (n + t) / f = q + (r + t) / f ∧
      (n + t) % f = (r + t) % f ∧ (r + t) / f < hits := by
  have hsum : n + t = (r + t) + f * q := by omega
  refine ⟨?_, ?_, (div_lt_iff_lt_mul hf).2 (by omega)⟩
  · rw [hsum, add_mul_div_left _ _ hf, add_comm]
  · rw [hsum, add_mul_mod_self_left]

/-- The parts of the CPU blocks and the GPU blocks that are copied. -/
theorem zip_subBlocks (hf : 0 < f) {n q r : ℕ} {src ids : List ℕ} (hsplit : f * q + r = n)
    (hend : src.length * f = r + (ids.length - n))
    (hcpu : ∀ t < src.length, cpuBlock m req f (q + t) = some (src.getD t 0)) :
    ((subBlocks src f).drop r).zip (ids.drop n) =
      (range' n (ids.length - n)).map fun j => (subBlock m req f j, ids.getD j 0) := by
  rw [drop_eq_map_range' ids n, subBlocks_eq src hf, ← map_drop, range_eq_range', drop_range', hend,
    Nat.add_sub_cancel_left, zero_add, mul_one, range'_eq_map_range, range'_eq_map_range,
    List.map_map, List.map_map, zip_map', List.map_map]
  refine map_congr_left fun t ht => ?_
  obtain ⟨hdiv, hmod, hlt⟩ := index_of_part hf hsplit hend (mem_range.1 ht)
  simp [comp_apply, subBlock, hdiv, hmod, hcpu _ hlt]

/-- The numbers that the connector computes for a load are right. -/
theorem updateStateAfterAlloc_load (reqId : ℕ) {n ext e : ℕ} {blocks : List (ℕ × Bool)} {src : List ℕ}
    (hpos : 0 < ext) (hcount : blocks.countP snd = n)
    (hpending : ext = (blocks.length - n) * c.gpuBlockSize)
    (hfull : n * c.gpuBlockSize + ext = e * c.offloadedBlockSize) (hsize : 0 < c.offloadedBlockSize)
    (hlast : e ≤ req.blockHashes.length / c.blockSizeFactor)
    {q : ℕ} (hstart : n * c.gpuBlockSize / c.offloadedBlockSize = q)
    (hrun : c.manager.prepareLoad (c.getBlockHashes req q (some e)) = .ok (src, m)) :
    ∃ c', c.updateStateAfterAlloc reqId req blocks ext = .ok c' ∧
      c'.reqsToLoad.lookup reqId = some (src, (blocks.map fst).drop n) := by
  unfold updateStateAfterAlloc
  dsimp only
  rw [if_neg hpos.ne', hcount, length_map, if_neg (not_not_intro hpending), hfull,
    if_neg (not_not_intro (mul_mod_left _ _)), Nat.mul_div_cancel _ hsize, if_neg (by omega),
    hstart]
  have hrun' : OffloadingManager.prepareLoad c.manager (c.getBlockHashes req q (some e)) =
    .ok (src, m) := hrun
  exact ⟨_, bind_ok.2 ⟨_, hrun', rfl⟩, (lookup_setItem _ _ _ _).trans (if_pos rfl)⟩

variable {localBlocks pending : List (ℕ × Bool)}

/-- The load copies its own blocks if the blocks that were computed locally have hashes. -/
theorem loadsOwnBlocks (hg : 0 < c.gpuBlockSize) (hf : 0 < c.blockSizeFactor)
    (hsize : c.offloadedBlockSize = c.blockSizeFactor * c.gpuBlockSize) {n ext hits : ℕ}
    (hext : ext + n * c.gpuBlockSize =
      (n / c.blockSizeFactor + hits) * c.blockSizeFactor * c.gpuBlockSize) (hpos : 0 < ext)
    (hready : ReadyFrom c.manager req c.blockSizeFactor (n / c.blockSizeFactor) hits)
    {reqId : ℕ} (hlocal : localBlocks.length = n)
    (hpending : pending.length * c.gpuBlockSize = ext) (hfresh : ∀ b ∈ pending, b.2 = false)
    (hhashed : ∀ b ∈ localBlocks, b.2 = true) :
    LoadsOwnBlocks c reqId req n ext (localBlocks ++ pending) := by
  set ids := (localBlocks ++ pending).map fst
  have hmod := mod_lt n hf
  have hsplit := div_add_mod n c.blockSizeFactor
  generalize hq : n / c.blockSizeFactor = q at hext hready hsplit
  generalize hr : n % c.blockSizeFactor = r at hmod hsplit
  have hend : pending.length + n = (q + hits) * c.blockSizeFactor := by
    refine eq_of_mul_eq_mul_right hg ?_
    rw [add_mul, hpending, hext]
  have hend' : hits * c.blockSizeFactor = r + pending.length := by
    rw [add_mul, mul_comm] at hend
    omega
  have hlen : 0 < pending.length := pos_of_ne_zero fun h => by
    rw [h, zero_mul] at hpending
    omega
  have hhits : 0 < hits := pos_of_ne_zero fun h => by
    rw [h, zero_mul] at hend'
    omega
  have hcount : (localBlocks ++ pending).countP snd = n := by
    rw [countP_append, countP_eq_length.2 hhashed, countP_eq_zero.2 fun b hb => by
      simp [hfresh b hb], hlocal, add_zero]
  have hle : q + hits ≤ req.blockHashes.length / c.blockSizeFactor := by
    obtain ⟨h, -, hh, -⟩ := hready (q + hits - 1) (by omega) (by omega)
    have := (offloadedHash_isSome hf).1 (isSome_of_eq_some hh)
    omega
  -- the numbers that the connector computes
  have hstart : n * c.gpuBlockSize / c.offloadedBlockSize = q := by
    rw [hsize, Nat.mul_div_mul_right _ _ hg, hq]
  have hfull : n * c.gpuBlockSize + ext = (q + hits) * c.offloadedBlockSize := by
    rw [hsize, ← mul_assoc, ← hext, add_comm]
  have hsizepos : 0 < c.offloadedBlockSize := by
    rw [hsize]
    exact mul_pos hf hg
  have hne : (some (q + hits) : Option ℕ) ≠ some 0 := fun h => by
    have := some.inj h
    omega
  have hendOf : endOf req c.blockSizeFactor (some (q + hits)) = q + hits :=
    min_eq_left hle
  -- the load is prepared
  have hload : ∀ h ∈ c.getBlockHashes req q (some (q + hits)),
      ∃ b, c.manager.blocks.lookup h = some b ∧ b.isReady = true := by
    intro h hh
    obtain ⟨t, ht⟩ := mem_iff_getElem?.1 hh
    rw [getElem?_getBlockHashes hf hne, hendOf] at ht
    split at ht
    · next hlt =>
      obtain ⟨h', b, hh', hb, hbready⟩ := hready _ (le_add_right _ t) hlt
      rw [ht] at hh'
      cases hh'
      exact ⟨b, hb, hbready⟩
    · cases ht
  obtain ⟨⟨src, m⟩, hrun⟩ := exists_prepareLoad c.manager hload
  obtain ⟨-, -, -, hspec⟩ := prepareLoad_eq hrun
  have hsrc : src.length = hits := by
    rw [← hspec.length_eq, length_getBlockHashes hf hne, hendOf]
    omega
  have hcpu : ∀ t < src.length, cpuBlock c.manager req c.blockSizeFactor (q + t) =
      some (src.getD t 0) := fun t ht => cpuBlock_eq_of_forall₂ hf (by omega) hspec ht
  have hdrop : ids.drop n = pending.map fst := by
    rw [show ids = localBlocks.map fst ++ pending.map fst from map_append,
      drop_left' (by rw [length_map, hlocal])]
  have hlength : ids.length - n = pending.length := by
    rw [← length_drop, hdrop, length_map]
  have hpairs : transferAsync c.blockSizeFactor 1 (src, ids.drop n) = _ :=
    transferAsync_load hmod (by rw [hsrc, length_drop, hlength, hend'])
  have hblocks : ext / c.gpuBlockSize = pending.length := by
    rw [← hpending, Nat.mul_div_cancel _ hg]
  have hzip : ((subBlocks src c.blockSizeFactor).drop r).zip (ids.drop n) = _ :=
    zip_subBlocks hf hsplit (by rw [hsrc, hlength, hend']) hcpu
  rw [hlength] at hzip
  have hmem : ∀ j ∈ range' n pending.length, ∃ t < pending.length, j = n + t := fun j hj => by
    have hj := mem_range'_1.1 hj
    exact ⟨j - n, by omega, by omega⟩
  have hpend : ext = ((localBlocks ++ pending).length - n) * c.gpuBlockSize := by
    rw [length_append, hlocal, Nat.add_sub_cancel_left, hpending]
  obtain ⟨c', hc', hload'⟩ := updateStateAfterAlloc_load reqId hpos hcount hpend hfull
    hsizepos hle hstart hrun
  refine ⟨c', (src, ids.drop n), _, hc', hload', hpairs, ?_, fun j hj => ?_,
    fun α cpu gpu stored hstored j hj hone => ?_⟩
  · rw [hblocks]
    exact hzip
  · rw [hblocks] at hj
    obtain ⟨t, ht, rfl⟩ := hmem j hj
    obtain ⟨hdiv, -, hlt⟩ := index_of_part hf hsplit hend' ht
    rw [hdiv, hcpu _ (hsrc ▸ hlt), length_append, hlocal]
    exact ⟨rfl, by omega⟩
  · rw [hblocks] at hj
    obtain ⟨t, ht, rfl⟩ := hmem j hj
    obtain ⟨hdiv, hmod', hlt⟩ := index_of_part hf hsplit hend' ht
    obtain ⟨h, b, hh, hb, hbready⟩ := hready (q + (r + t) / c.blockSizeFactor)
      (le_add_right _ _) (Nat.add_lt_add_left hlt q)
    refine ⟨h, by rw [hdiv, hh], ?_⟩
    rw [hzip]
    have hpair := List.mem_map_of_mem (f := fun j =>
      (subBlock c.manager req c.blockSizeFactor j, ids.getD j 0)) hj
    refine (swapBlocks_of_mem hpair ?_).trans ?_
    · rw [List.map_map]
      rw [drop_eq_map_range', hlength] at hone
      exact hone
    · have hid : cpuBlock c.manager req c.blockSizeFactor (q + (r + t) / c.blockSizeFactor) =
          some b.blockId := by
        unfold cpuBlock
        rw [hh, bind_some, hb, map_some]
      unfold subBlock
      rw [hdiv, hid, getD_some]
      exact hstored h b hb hbready _ (mod_lt _ hf)

/-- A load fails if a block that was computed locally has no hash. -/
theorem not_loadsOwnBlocks (hg : 0 < c.gpuBlockSize) {n ext : ℕ} (hpos : 0 < ext) {reqId : ℕ}
    (hlocal : localBlocks.length = n)
    (hpending : pending.length * c.gpuBlockSize = ext) (hfresh : ∀ b ∈ pending, b.2 = false)
    (hnull : ∃ b ∈ localBlocks, b.2 = false) :
    ¬ LoadsOwnBlocks c reqId req n ext (localBlocks ++ pending) := by
  rintro ⟨c', spec, pairs, hrun, -⟩
  obtain ⟨b, hb, hnull⟩ := hnull
  have hlt : (localBlocks ++ pending).countP snd < n := by
    have hzero : pending.countP snd = 0 := countP_eq_zero.2 fun b hb => by simp [hfresh b hb]
    rw [countP_append, hzero, add_zero, ← hlocal]
    refine lt_of_le_of_ne countP_le_length fun heq => ?_
    have hall := countP_eq_length.1 heq b hb
    rw [hnull] at hall
    cases hall
  generalize hm : (localBlocks ++ pending).countP snd = m at hlt
  -- more blocks seem to be pending than the load has tokens for
  have hne : ext ≠ (((localBlocks ++ pending).map fst).length - m) * c.gpuBlockSize := by
    rw [← hpending, length_map, length_append, hlocal]
    intro heq
    have := eq_of_mul_eq_mul_right hg heq
    omega
  unfold updateStateAfterAlloc at hrun
  dsimp only at hrun
  rw [if_neg hpos.ne', hm, if_pos hne] at hrun
  split at hrun <;> cases hrun

/-! ### Stores -/

/-- The GPU blocks of the CPU blocks with the indices `ks`. -/
def gpuBlocks (ks : List ℕ) (f : ℕ) : List ℕ := ks.flatMap fun k => range' (k * f) f

section

omit [DecidableEq H]

theorem gpuBlocks_cons (k : ℕ) (ks : List ℕ) (f : ℕ) :
    gpuBlocks (k :: ks) f = range' (k * f) f ++ gpuBlocks ks f := flatMap_cons

theorem mem_gpuBlocks (hf : 0 < f) {ks : List ℕ} {j : ℕ} : j ∈ gpuBlocks ks f ↔ j / f ∈ ks := by
  unfold gpuBlocks
  rw [mem_flatMap]
  have hmod := mod_lt j hf
  have hsplit := div_add_mod j f
  constructor
  · rintro ⟨k, hk, hj⟩
    obtain ⟨hle, hlt⟩ := mem_range'_1.1 hj
    rwa [Nat.div_eq_of_lt_le hle (by rwa [succ_mul])]
  · intro hk
    refine ⟨_, hk, mem_range'_1.2 ?_⟩
    rw [mul_comm]
    omega

theorem nodup_gpuBlocks (hf : 0 < f) {ks : List ℕ} (h : ks.Nodup) : (gpuBlocks ks f).Nodup := by
  refine nodup_flatMap.2 ⟨fun k _ => nodup_range', h.imp fun {a b} hab j ha hb => hab ?_⟩
  have hdiv : ∀ k, j ∈ range' (k * f) f → j / f = k := fun k hk => by
    have hmem : j ∈ gpuBlocks [k] f := by simpa [gpuBlocks] using hk
    simpa using (mem_gpuBlocks hf).1 hmem
  rw [← hdiv a ha, ← hdiv b hb]

theorem length_gpuBlocks (ks : List ℕ) (f : ℕ) : (gpuBlocks ks f).length = ks.length * f := by
  unfold gpuBlocks
  simp

end

/-- The parts of the CPU blocks, one for each GPU block. -/
theorem subBlocks_map (hf : 0 < f) (ks : List ℕ) (g : ℕ → ℕ) :
    subBlocks (ks.map g) f = (gpuBlocks ks f).map fun j => g (j / f) * f + j % f := by
  unfold subBlocks gpuBlocks
  rw [flatMap_map, map_flatMap]
  refine flatMap_congr fun k _ => ?_
  rw [range'_eq_map_range, List.map_map]
  refine map_congr_left fun i hi => ?_
  rw [comp_apply, mul_comm k, mul_add_div hf, mul_add_mod,
    div_eq_of_lt (mem_range.1 hi), mod_eq_of_lt (mem_range.1 hi), add_zero]

theorem srcBlockIds_congr {c' : OffloadingConnectorScheduler H (LRUOffloadingManager H)}
    (h : c'.blockSizeFactor = c.blockSizeFactor) (blockIds : List ℕ) (toStore hashes : List H)
    (idx : ℕ) :
    c'.srcBlockIds blockIds toStore hashes idx = c.srcBlockIds blockIds toStore hashes idx := by
  induction hashes generalizing idx with
  | nil => rfl
  | cons a hashes ih => simp only [srcBlockIds, h, ih]

variable {blockIds : List ℕ} {g : ℕ → Option H}

theorem srcBlockIds_eq {toStore : List H} {len : ℕ} :
    ∀ {s : ℕ}, (∀ k ∈ range' s len, (g k).isSome) →
      (s + len) * c.blockSizeFactor ≤ blockIds.length →
      c.srcBlockIds blockIds toStore ((range' s len).filterMap g) s =
        .ok ((gpuBlocks ((range' s len).filter fun k => (g k).any (· ∈ toStore))
          c.blockSizeFactor).map fun j => blockIds.getD j 0) := by
  induction len with
  | zero => exact fun _ _ => rfl
  | succ len ih =>
    intro s hsome hlen
    rw [range'_succ] at hsome ⊢
    obtain ⟨h, hh⟩ := isSome_iff_exists.1 (hsome s (.head _))
    have hrest := ih (fun k hk => hsome k (.tail _ hk)) (by rwa [add_assoc, add_comm 1])
    rw [filterMap_cons_some hh, srcBlockIds, hrest, filter_cons, hh]
    by_cases hmem : h ∈ toStore
    · rw [if_pos hmem, mapM_ok fun i => blockIds.getD (s * c.blockSizeFactor + i) 0]
      · simp only [any_some, decide_eq_true hmem, if_true]
        rw [gpuBlocks_cons, map_append, range'_eq_map_range (s := s * c.blockSizeFactor),
          List.map_map]
        rfl
      · intro i hi
        have hlt : s * c.blockSizeFactor + i < blockIds.length := by
          have hi := mem_range.1 hi
          have hmul : (s + 1) * c.blockSizeFactor ≤ (s + (len + 1)) * c.blockSizeFactor :=
            mul_le_mul_right _ (by omega)
          rw [succ_mul] at hmul
          omega
        rw [getD_eq_getElem?_getD, getElem?_eq_getElem hlt]
        rfl
    · rw [if_neg hmem, any_some, decide_eq_false hmem, if_neg Bool.false_ne_true]

theorem eq_of_blockId_eq {d : OrderedDict H BlockStatus}
    (hnodup : (d.values.map blockId).Nodup) {h h' : H} {b b' : BlockStatus}
    (hb : d.lookup h = some b) (hb' : d.lookup h' = some b') (hid : b.blockId = b'.blockId) :
    h = h' := by
  unfold values at hnodup
  rw [List.map_map] at hnodup
  have heq := inj_on_of_nodup_map hnodup (mem_entries.2 hb) (mem_entries.2 hb') hid
  exact congrArg Sigma.fst heq

/-- What a store of the offloaded blocks from `start` on copies: the GPU blocks of those that are not
in the manager, each to its own part of the CPU block that is assigned to its hash. -/
def StoresOwnBlocks (c c' : OffloadingConnectorScheduler H (LRUOffloadingManager H))
    (req : RequestView H) (blockIds : List ℕ) (start numBlocks : ℕ) (spec : TransferSpec) : Prop :=
  ∃ ks pairs, ks = ((range' start (endOf req c.blockSizeFactor (some numBlocks) - start)).filter
      fun k => (offloadedHash req c.blockSizeFactor k).any (· ∉ c.manager.blocks)) ∧
    transferAsync 1 c.blockSizeFactor spec = .ok pairs ∧
    pairs = (gpuBlocks ks c.blockSizeFactor).map (fun j =>
      (blockIds.getD j 0, subBlock c'.manager req c.blockSizeFactor j)) ∧
    (∀ j ∈ gpuBlocks ks c.blockSizeFactor,
      (cpuBlock c'.manager req c.blockSizeFactor (j / c.blockSizeFactor)).isSome ∧
        j < blockIds.length) ∧
    ∀ (α : Type) (gpu cpu : ℕ → α), ∀ j ∈ gpuBlocks ks c.blockSizeFactor,
      swapBlocks gpu cpu pairs (subBlock c'.manager req c.blockSizeFactor j) =
        gpu (blockIds.getD j 0)

/-- The blocks to store by their indices. -/
theorem toStore_eq {blocks : OrderedDict H BlockStatus} :
    ∀ {l : List ℕ}, (∀ k ∈ l, (g k).isSome) → (l.filterMap g).filter (fun h => h ∉ blocks) =
      (l.filter fun k => (g k).any (· ∉ blocks)).filterMap g := by
  intro l hsome
  induction l with
  | nil => rfl
  | cons k l ih =>
    obtain ⟨h, hh⟩ := isSome_iff_exists.1 (hsome k (.head _))
    have ih := ih fun k hk => hsome k (.tail _ hk)
    rw [filterMap_cons_some hh, filter_cons, filter_cons, hh, any_some, ih]
    split
    · rw [filterMap_cons_some hh]
    · rfl

omit [DecidableEq H] in
/-- The hashes of a request that are picked are distinct. -/
theorem offloadedHash_inj (hf : 0 < f) (hnodup : req.blockHashes.Nodup) {k k' : ℕ} {h : H}
    (hk : offloadedHash req f k = some h) (hk' : offloadedHash req f k' = some h) : k = k' := by
  obtain ⟨hlt, hk⟩ := List.getElem?_eq_some_iff.1 hk
  obtain ⟨hlt', hk'⟩ := List.getElem?_eq_some_iff.1 hk'
  have hindex := hnodup.getElem_inj_iff.1 (hk.trans hk'.symm)
  exact Nat.eq_of_mul_eq_mul_left hf (by omega)

theorem subBlock_inj {m' : LRUOffloadingManager H} (hf : 0 < f) (hnodup : req.blockHashes.Nodup)
    (hids : (m.blocks.values.map blockId).Nodup) (hm : ∀ h, m'.blocks.lookup h = m.blocks.lookup h)
    {ks : List ℕ} (hcpu : ∀ k ∈ ks, ∃ h i, offloadedHash req f k = some h ∧
      m'.blocks.lookup h = some ⟨-1, i⟩) : ∀ j ∈ gpuBlocks ks f, ∀ j' ∈ gpuBlocks ks f,
    subBlock m' req f j = subBlock m' req f j' → j = j' := by
  intro j hj j' hj' heq
  obtain ⟨h, i, hh, hi⟩ := hcpu _ ((mem_gpuBlocks hf).1 hj)
  obtain ⟨h', i', hh', hi'⟩ := hcpu _ ((mem_gpuBlocks hf).1 hj')
  unfold subBlock cpuBlock at heq
  rw [hh, hh', bind_some, bind_some, hi, hi', map_some, map_some, getD_some, getD_some] at heq
  have hmod := mod_lt j hf
  have hmod' := mod_lt j' hf
  have hparts : i = i' ∧ j % f = j' % f := by
    have hdiv := congrArg (· / f) heq
    have hrem := congrArg (· % f) heq
    simp only [mul_comm _ f, mul_add_div hf, mul_add_mod,
      div_eq_of_lt hmod, div_eq_of_lt hmod', mod_mod] at hdiv hrem
    exact ⟨hdiv, hrem⟩
  have hhash : h = h' := eq_of_blockId_eq hids ((hm h).symm.trans hi) ((hm h').symm.trans hi')
    hparts.1
  have hindex : j / f = j' / f := offloadedHash_inj hf hnodup hh (hhash ▸ hh')
  rw [← div_add_mod j, ← div_add_mod j', hindex, hparts.2]

/-- A store copies its own blocks. -/
theorem storesOwnBlocks {start numBlocks : ℕ} {out : PrepareStoreOutput H}
    (hf : 0 < c.blockSizeFactor) (hnum : numBlocks ≠ 0) (hnodup : req.blockHashes.Nodup)
    (hids : (m.blocks.values.map blockId).Nodup)
    (hs : Stores c.manager m (c.getBlockHashes req start (some numBlocks)) out)
    (hlen : numBlocks * c.blockSizeFactor ≤ blockIds.length) :
    ∃ src, c.srcBlockIds blockIds out.blockHashesToStore
        (c.getBlockHashes req start (some numBlocks)) start = .ok src ∧
      ∀ c', (∀ h, c'.manager.blocks.lookup h = m.blocks.lookup h) →
        StoresOwnBlocks c c' req blockIds start numBlocks (src, out.storeSpec) := by
  set f := c.blockSizeFactor
  have hend : (some numBlocks : Option ℕ) ≠ some 0 := fun h => hnum (some.inj h)
  generalize hl : range' start (endOf req f (some numBlocks) - start) = l
  have hsome : ∀ k ∈ l, (offloadedHash req f k).isSome :=
    fun k hk => isSome_of_mem_range' hf (hl ▸ hk)
  have hhashes : c.getBlockHashes req start (some numBlocks) =
      l.filterMap (offloadedHash req f) := by
    rw [getBlockHashes_eq hf hend, hl]
  generalize hks : (l.filter fun k =>
    (offloadedHash req f k).any (· ∉ c.manager.blocks)) = ks
  have hsub : ∀ k ∈ ks, k ∈ l := fun k hk => by
    rw [← hks] at hk
    exact mem_of_mem_filter hk
  have hnodupKs : ks.Nodup := by
    rw [← hks, ← hl]
    exact List.Nodup.filter _ nodup_range'
  have hstore : out.blockHashesToStore = ks.filterMap (offloadedHash req f) := by
    rw [hs.toStore, hhashes, toStore_eq hsome, hks]
  have hsomeKs : ∀ k ∈ ks, (offloadedHash req f k).isSome := fun k hk => hsome k (hsub k hk)
  have hlenKs : out.blockHashesToStore.length = ks.length := by
    rw [hstore, length_filterMap_eq_countP, countP_eq_length.2 hsomeKs]
  -- the index of a hash that is stored is one of the indices that are stored
  have hfilter : (l.filter fun k =>
      (offloadedHash req f k).any (· ∈ out.blockHashesToStore)) = ks := by
    rw [← hks]
    refine filter_congr fun k hk => ?_
    obtain ⟨h, hh⟩ := isSome_iff_exists.1 (hsome k hk)
    rw [hh, any_some, any_some, decide_eq_decide, hs.toStore, mem_filter,
      decide_eq_true_eq, hhashes]
    exact and_iff_right (mem_filterMap.2 ⟨k, hk, hh⟩)
  have hlt : ∀ j ∈ gpuBlocks ks f, j < blockIds.length := fun j hj => by
    have hmem := hsub _ ((mem_gpuBlocks hf).1 hj)
    rw [← hl] at hmem
    obtain ⟨hle, hlt⟩ := mem_range'_1.1 hmem
    have hnum : endOf req f (some numBlocks) ≤ numBlocks := min_le_left _ _
    exact lt_of_lt_of_le ((div_lt_iff_lt_mul hf).1 (by omega)) hlen
  have hend' : (start + (endOf req f (some numBlocks) - start)) * f ≤ blockIds.length ∨ l = [] := by
    by_cases hle : start ≤ endOf req f (some numBlocks)
    · refine .inl (le_trans (mul_le_mul_right _ ?_) hlen)
      rw [Nat.add_sub_cancel' hle]
      exact min_le_left _ _
    · refine .inr ?_
      rw [← hl, Nat.sub_eq_zero_of_le (by omega)]
      rfl
  refine ⟨(gpuBlocks ks f).map fun j => blockIds.getD j 0, ?_, fun c' hc' => ?_⟩
  · rw [hhashes]
    rcases hend' with hend' | hnil
    · have hrun : c.srcBlockIds blockIds out.blockHashesToStore _ start = _ :=
        srcBlockIds_eq (by rwa [hl]) hend'
      rwa [hl, hfilter] at hrun
    · rw [hnil] at hsub ⊢
      rw [eq_nil_iff_forall_not_mem.2 fun k hk => not_mem_nil (hsub k hk)]
      rfl
  · -- the id in the specification is the id under which the hash is in the manager
    have hcpu : ∀ k ∈ ks, ∃ h i, offloadedHash req f k = some h ∧
        c'.manager.blocks.lookup h = some ⟨-1, i⟩ := fun k hk => by
      obtain ⟨h, hh⟩ := isSome_iff_exists.1 (hsomeKs k hk)
      have hmem : h ∈ out.blockHashesToStore := by
        rw [hstore]
        exact mem_filterMap.2 ⟨k, hk, hh⟩
      rw [← map_fst_zip hs.length_spec.ge] at hmem
      obtain ⟨e, he, rfl⟩ := List.mem_map.1 hmem
      exact ⟨e.1, e.2, hh, (hc' _).trans (hs.lookup_new e he)⟩
    have hspec : out.storeSpec = ks.map fun k => (cpuBlock c'.manager req f k).getD 0 := by
      refine ext_getElem (by rw [length_map, hs.length_spec, hlenKs]) fun t ht ht' => ?_
      have htKs : t < ks.length := by simpa using ht'
      have htStore : t < out.blockHashesToStore.length := hlenKs ▸ htKs
      have hhash : offloadedHash req f ks[t] = some out.blockHashesToStore[t] := by
        have hget := getElem?_eq_getElem htStore
        simp only [hstore] at hget ⊢
        rwa [getElem?_filterMap hsomeKs, getElem?_eq_getElem] at hget
      have hnew := hs.lookup_new (out.blockHashesToStore[t], out.storeSpec[t]) (by
        rw [← getElem_zip (h := by rw [length_zip]; omega)]
        exact getElem_mem _)
      rw [getElem_map, cpuBlock, hhash, bind_some, hc', hnew]
      rfl
    have hdst : subBlocks out.storeSpec f = (gpuBlocks ks f).map (subBlock c'.manager req f) := by
      rw [hspec, subBlocks_map hf]
      rfl
    have hpairs : transferAsync 1 f
        ((gpuBlocks ks f).map fun j => blockIds.getD j 0, out.storeSpec) =
          .ok ((gpuBlocks ks f).map fun j =>
            (blockIds.getD j 0, subBlock c'.manager req f j)) := by
      rw [transferAsync_store hf, hdst, zip_map']
      rw [length_map, length_gpuBlocks, hs.length_spec, hlenKs]
    have hinj := subBlock_inj hf hnodup hids hc' hcpu
    refine ⟨ks, _, by rw [hl, hks], hpairs, rfl, fun j hj => ⟨?_, hlt j hj⟩,
      fun α gpu cpu j hj => ?_⟩
    · obtain ⟨h, i, hh, hi⟩ := hcpu _ ((mem_gpuBlocks hf).1 hj)
      unfold cpuBlock
      rw [hh, bind_some, hi]
      rfl
    · have hpair := List.mem_map_of_mem (f := fun j =>
        (blockIds.getD j 0, subBlock c'.manager req f j)) hj
      refine swapBlocks_of_mem hpair ?_
      rw [List.map_map]
      exact count_eq_one_of_mem ((nodup_gpuBlocks hf hnodupKs).map_on hinj)
        (List.mem_map.2 ⟨j, hj, rfl⟩)

/-- A store never fails, and copies its own blocks. -/
theorem exists_offerBlocks {st : Traced H} {numCpuBlocks : ℕ}
    (hi : Traced.Invariant numCpuBlocks st) (hm : c.manager = st.manager) (hg : 0 < c.gpuBlockSize)
    (hf : 0 < c.blockSizeFactor) (hsize : c.offloadedBlockSize = c.blockSizeFactor * c.gpuBlockSize)
    (hnodup : req.blockHashes.Nodup) {sched : ScheduledRequest}
    (hlen : req.numComputedTokens + sched.numScheduledTokens ≤ blockIds.length * c.gpuBlockSize) :
    ∃ answer c', c.offerBlocks req sched blockIds = .ok (answer, c') ∧ ∀ spec ∈ answer,
      StoresOwnBlocks c c' req blockIds ((c.nextStoredBlockIdx.lookup sched.reqId).getD 0)
        ((req.numComputedTokens + sched.numScheduledTokens) / c.offloadedBlockSize) spec := by
  unfold offerBlocks
  dsimp only
  generalize (c.nextStoredBlockIdx.lookup sched.reqId).getD 0 = start
  have hblocks : (req.numComputedTokens + sched.numScheduledTokens) / c.offloadedBlockSize *
      c.blockSizeFactor ≤ blockIds.length := by
    refine le_of_mul_le_mul_right ?_ hg
    rw [mul_assoc, ← hsize]
    exact le_trans (div_mul_le_self _ _) hlen
  generalize (req.numComputedTokens + sched.numScheduledTokens) / c.offloadedBlockSize =
    numBlocks at hblocks
  split
  · exact ⟨none, c, rfl, nofun⟩
  · next hlt =>
    have hnum : numBlocks ≠ 0 := by omega
    have hend : (some numBlocks : Option ℕ) ≠ some 0 := fun h => hnum (some.inj h)
    have hle : c.manager.backend.numAllocatedBlocks ≤ c.manager.backend.numBlocks := by
      rw [hm]
      exact hi.le
    have hnew : (c.getBlockHashes req start (some numBlocks)).Nodup := by
      rw [getBlockHashes_eq hf hend]
      exact List.Nodup.filterMap (fun _ _ _ => offloadedHash_inj hf hnodup) nodup_range'
    obtain ⟨⟨answer, m⟩, hrun⟩ := exists_prepareStore c.manager
      (c.getBlockHashes req start (some numBlocks)) hle
    have hrun' : OffloadingManager.prepareStore c.manager
        (c.getBlockHashes req start (some numBlocks)) = .ok (answer, m) := hrun
    simp only [hrun', ok_bind]
    rcases prepareStore_eq hle hnew hrun with ⟨rfl, -⟩ | ⟨out, rfl, hs⟩
    · exact ⟨none, _, rfl, nofun⟩
    · dsimp only
      split
      · exact ⟨none, _, rfl, nofun⟩
      · have hids : (m.blocks.values.map blockId).Nodup := by
          have hperm := hs.ids
          rw [hm] at hperm
          exact ((nodup_range.perm (hperm.trans hi.ids).symm)).of_append_left
        obtain ⟨src, hsrc, hstores⟩ := storesOwnBlocks hf hnum hnodup hids hs hblocks
        -- the touch changes the order of the blocks only
        have htouch : ∀ hs, OffloadingManager.touch m hs =
          (.ok (m.touch hs) : Except PyErr (LRUOffloadingManager H)) := fun _ => rfl
        have hsrc' : srcBlockIds { c with
              manager := m
              nextStoredBlockIdx := c.nextStoredBlockIdx.setItem sched.reqId numBlocks } blockIds
            out.blockHashesToStore (c.getBlockHashes req start (some numBlocks)) start = .ok src :=
          (srcBlockIds_congr (by rfl) _ _ _ _).trans hsrc
        simp only [hsrc']
        refine ⟨_, _, rfl, fun spec hspec => ?_⟩
        cases hspec
        exact hstores _ (lookup_touch m _)

/-! ### Both directions -/

/-- What is loaded and stored for a request whose blocks `localBlocks` were computed locally; a block
is its id and whether it has a hash. No call fails; the blocks allocated for a load are loaded, and
the blocks that are stored are stored, each with its own part of its own CPU block. -/
structure AddressesOwnBlocks (c : OffloadingConnectorScheduler H (LRUOffloadingManager H))
    (reqId : ℕ) (req : RequestView H) (localBlocks : List (ℕ × Bool)) : Prop where
  load : ∃ ext isAsync c₁, c.getNumNewMatchedTokens req (localBlocks.length * c.gpuBlockSize) =
      .ok ((ext, isAsync), c₁) ∧
    (ext = 0 → ∀ blocks, ∃ c₂, c₁.updateStateAfterAlloc reqId req blocks 0 = .ok c₂ ∧
      c₂.reqsToLoad = c.reqsToLoad) ∧
    (0 < ext → ∀ pending : List (ℕ × Bool), pending.length * c.gpuBlockSize = ext →
      (∀ b ∈ pending, b.2 = false) →
        LoadsOwnBlocks c₁ reqId req localBlocks.length ext (localBlocks ++ pending))
  store : ∀ (sched : ScheduledRequest) (blockIds : List ℕ),
    req.numComputedTokens + sched.numScheduledTokens ≤ blockIds.length * c.gpuBlockSize →
    ∃ answer c', c.offerBlocks req sched blockIds = .ok (answer, c') ∧ ∀ spec ∈ answer,
      StoresOwnBlocks c c' req blockIds ((c.nextStoredBlockIdx.lookup sched.reqId).getD 0)
        ((req.numComputedTokens + sched.numScheduledTokens) / c.offloadedBlockSize) spec

end

end LoptVllm.KVOffload
