import LoptVllm.Worker.SlotMapping
import Mathlib.Algebra.BigOperators.Ring.Finset

/-!
# The lengths of the sequences on each rank
-/

namespace LoptVllm.Worker

open List Lib Nat

/-- An entry of `dcp_local_seq_lens`. -/
def dcpLocalSeqLen (dcpSize cpKvCacheInterleaveSize seqLen rankOffset : ℕ) : ℤ :=
  let base : ℤ := (seqLen / cpKvCacheInterleaveSize / dcpSize * cpKvCacheInterleaveSize : ℕ)
  let remainder : ℤ := seqLen - base * dcpSize
  base + min (max (remainder - rankOffset * cpKvCacheInterleaveSize) 0) cpKvCacheInterleaveSize

/-- `get_dcp_local_seq_lens`: for each request the lengths on the given rank, or on all ranks. -/
def getDcpLocalSeqLens (seqLens : List ℕ) (dcpSize : ℕ) (dcpRank : Option ℕ)
    (cpKvCacheInterleaveSize : ℕ) : List (List ℤ) :=
  let rankOffsets := match dcpRank with
    | none => range dcpSize
    | some dcpRank => [dcpRank]
  seqLens.map fun seqLen =>
    rankOffsets.map (dcpLocalSeqLen dcpSize cpKvCacheInterleaveSize seqLen)

theorem dcpLocalSeqLen_eq (w i n r : ℕ) : dcpLocalSeqLen w i n r = handLength w i r n := by
  have hle : n / i / w * i * w ≤ n := by
    rw [mul_right_comm]
    exact (mul_le_mul_right i (div_mul_le_self _ _)).trans (div_mul_le_self _ _)
  unfold dcpLocalSeqLen handLength
  generalize n / i / w * i = base at *
  dsimp only
  omega

theorem sum_handLength {w i : ℕ} (hw : 0 < w) (hi : 0 < i) (n : ℕ) :
    ((range w).map fun r => handLength w i r n).sum = n := by
  have hperm := flatMap_filter_perm (f := hand w i) (l := range n) fun p _ => mod_lt _ hw
  have hlength := hperm.length_eq
  rw [length_flatMap, length_range] at hlength
  refine (congrArg sum (map_congr_left fun r hr => ?_)).trans hlength
  have := congrArg length (map_place_filter_hand hi (mem_range.1 hr) n)
  rwa [length_map, length_range, eq_comm] at this

namespace CpBlockTable

variable {t : CpBlockTable} {req n p : ℕ} {r : ℕ × ℕ}

/-- The positions below `n` of a request that are on a rank. -/
def localPositions (t : CpBlockTable) (req n : ℕ) : List ℕ :=
  (range n).filter fun p => decide (t.slot (req, p) ≠ -1)

section

variable (hI : 0 < t.cpKvCacheInterleaveSize) (hdvd : t.cpKvCacheInterleaveSize ∣ t.blockSize)

include hI hdvd

theorem rankOf_eq : t.rankOf (req, p) = hand t.totalCpWorldSize t.cpKvCacheInterleaveSize p := by
  rw [rankOf, offset, ← hand_add hI hdvd, div_add_mod]

/-- The places before a virtual block are those of its blocks. -/
theorem place_eq
    (hw : 0 < t.totalCpWorldSize) : place t.totalCpWorldSize t.cpKvCacheInterleaveSize p =
      t.blockSize * (t.cell (req, p)).2 + t.placeOf (req, p) := by
  rw [placeOf, offset, cell, ← place_add hI hw hdvd, div_add_mod]

end

/-- The slot at a place of the request's blocks. -/
def slotAt (t : CpBlockTable) (req k : ℕ) : ℤ :=
  ((t.blockTable req (k / t.blockSize) * t.blockSize + k % t.blockSize : ℕ) : ℤ)

section

variable (hI : 0 < t.cpKvCacheInterleaveSize) (hdvd : t.cpKvCacheInterleaveSize ∣ t.blockSize)

include hI hdvd

theorem slot_eq_slotAt
    (hpos : 0 < t.blockSize * t.totalCpWorldSize) (hr : t.IsRank r) (hp : t.Held (req, p))
    (hne : (t.onRank r).slot (req, p) ≠ -1) : (t.onRank r).slot (req, p) =
      t.slotAt req (place t.totalCpWorldSize t.cpKvCacheInterleaveSize p) := by
  have hlt : t.placeOf (req, p) < t.blockSize := Tiled.place_lt (.inr hdvd) hI hpos
  rw [slot_of_ne hp hr hne, slotAt, place_eq hI hdvd (Nat.pos_of_mul_pos_left hpos),
    mul_add_div (zero_lt_of_lt hlt), div_eq_of_lt hlt, add_zero, mul_add_mod,
    mod_eq_of_lt hlt]
  rfl

section

variable (hr : t.IsRank r) (hheld : ∀ p < n, t.Held (req, p))

include hr hheld

theorem localPositions_onRank : (t.onRank r).localPositions req n =
      (range n).filter fun p => decide (hand t.totalCpWorldSize t.cpKvCacheInterleaveSize p =
        r.1 * t.dcpWorldSize + r.2) := by
  refine filter_congr fun p hp => decide_eq_decide.2 ?_
  rw [slot_ne_iff (hheld p (mem_range.1 hp)) hr, rankOf_eq hI hdvd]

/-- The local positions are at the first places of the blocks, in order. -/
theorem map_place_localPositions : ((t.onRank r).localPositions req n).map
      (place t.totalCpWorldSize t.cpKvCacheInterleaveSize) = range (handLength t.totalCpWorldSize
        t.cpKvCacheInterleaveSize (r.1 * t.dcpWorldSize + r.2) n) := by
  have hle := mul_le_mul_right t.dcpWorldSize hr.1
  rw [succ_mul] at hle
  rw [localPositions_onRank hI hdvd hr hheld]
  exact map_place_filter_hand hI ((Nat.add_lt_add_left hr.2 _).trans_le hle) n

theorem length_localPositions : ((t.onRank r).localPositions req n).length = handLength
      t.totalCpWorldSize t.cpKvCacheInterleaveSize (r.1 * t.dcpWorldSize + r.2) n := by
  have := congrArg length (map_place_localPositions hI hdvd hr hheld)
  rwa [length_map, length_range] at this

end

end

/-- **The lengths agree with the slots.**  On each rank the lengths count the positions with a slot,
the lengths of all ranks add up, and the slots are the first ones of the request's blocks, in order; so
whoever reads them reads the tokens of the rank. -/
theorem local_lengths (hI : 0 < t.cpKvCacheInterleaveSize)
    (hdvd : t.cpKvCacheInterleaveSize ∣ t.blockSize) (hb : 0 < t.blockSize) (hr : t.IsRank r)
    {seqs : List (ℕ × ℕ)} (hheld : ∀ e ∈ seqs, ∀ p < e.2, t.Held (e.1, p)) :
    getDcpLocalSeqLens (seqs.map Prod.snd) t.totalCpWorldSize
        (some (r.1 * t.dcpWorldSize + r.2)) t.cpKvCacheInterleaveSize =
      seqs.map (fun e => [(((t.onRank r).localPositions e.1 e.2).length : ℤ)]) ∧
    (getDcpLocalSeqLens (seqs.map Prod.snd) t.totalCpWorldSize none t.cpKvCacheInterleaveSize).map
      sum = seqs.map (fun e => (e.2 : ℤ)) ∧
    ∀ e ∈ seqs, (∀ k p, ((t.onRank r).localPositions e.1 e.2)[k]? = some p →
        (t.onRank r).slot (e.1, p) = t.slotAt e.1 k) ∧
      ((∀ i < t.numBlocksPerRow e.1, ∀ j < t.numBlocksPerRow e.1,
          t.blockTable e.1 i = t.blockTable e.1 j → i = j) →
        (((t.onRank r).localPositions e.1 e.2).map fun p => (t.onRank r).slot (e.1, p)).Nodup) ∧
      ∀ {α : Type} (token : ℕ → α) (cache : ℤ → α),
        (∀ p ∈ (t.onRank r).localPositions e.1 e.2, cache ((t.onRank r).slot (e.1, p)) = token p) →
        (range ((t.onRank r).localPositions e.1 e.2).length).map
          (fun k => cache (t.slotAt e.1 k)) = ((t.onRank r).localPositions e.1 e.2).map token := by
  have hw : 0 < t.totalCpWorldSize := mul_pos (zero_lt_of_lt hr.1) (zero_lt_of_lt hr.2)
  have hpos := mul_pos hb hw
  -- the `k`-th local position has the `k`-th local slot
  have hslot : ∀ e ∈ seqs, ∀ k p, ((t.onRank r).localPositions e.1 e.2)[k]? = some p →
      (t.onRank r).slot (e.1, p) = t.slotAt e.1 k := by
    intro e he k p hk
    obtain ⟨hpn, hne⟩ := mem_filter.1 (mem_of_getElem? hk)
    have hplace := congrArg (·[k]?) (map_place_localPositions hI hdvd hr (hheld e he))
    simp only [getElem?_map, hk, Option.map_some] at hplace
    obtain ⟨_, hplace⟩ := List.getElem?_eq_some_iff.1 hplace.symm
    rw [slot_eq_slotAt hI hdvd hpos hr (hheld e he p (mem_range.1 hpn)) (of_decide_eq_true hne),
      ← hplace, getElem_range]
  refine ⟨?_, ?_, fun e he => ⟨hslot e he, fun hdistinct => ?_, fun token cache hcache => ?_⟩⟩
  · simp only [getDcpLocalSeqLens, map_map, map_cons, map_nil]
    refine map_congr_left fun e he => ?_
    rw [length_localPositions hI hdvd hr (hheld e he)]
    exact congrArg (fun x => [x]) (dcpLocalSeqLen_eq _ _ _ _)
  · simp only [getDcpLocalSeqLens, map_map]
    refine map_congr_left fun e _ => ?_
    have hsum := congrArg (Nat.cast : ℕ → ℤ) (sum_handLength hw hI e.2)
    rw [cast_list_sum, map_map] at hsum
    exact (congrArg sum (map_congr_left fun ρ _ => dcpLocalSeqLen_eq _ _ _ _)).trans hsum
  · -- equal slots are in equal blocks, so in one cell
    refine Nodup.map_on (fun p hp q hq heq => ?_) (nodup_range.filter _)
    obtain ⟨hpn, hpne⟩ := mem_filter.1 hp
    obtain ⟨hqn, -⟩ := mem_filter.1 hq
    have hheldp := hheld e he p (mem_range.1 hpn)
    have hheldq := hheld e he q (mem_range.1 hqn)
    refine (Prod.mk.inj (eq_of_slot_eq (.inr hdvd) hI hpos hheldp hheldq hr (fun hcell hblock => hcell ?_)
      (of_decide_eq_true hpne) heq)).2
    exact Prod.ext rfl (hdistinct _ hheldp.1 _ hheldq.1 hblock)
  · refine ext_getElem (by simp) fun k h₁ h₂ => ?_
    rw [length_map] at h₂
    have hk := getElem?_eq_getElem h₂
    simp only [getElem_map, getElem_range]
    rw [← hslot e he k _ hk, hcache _ (getElem_mem h₂)]

/-- Two ranks that take turns with single positions, and a request whose blocks are 5 and 3. -/
def twoRanks : CpBlockTable where
  toBlockTable := (BlockTable.mk 1 false (fun _ _ => 0) fun _ => 0).addRow [5, 3] 0
  toCpGroups := ⟨1, 0, 2, 1⟩
  blockSize := 2
  maxNumBlocksPerReq := 4
  cpKvCacheInterleaveSize := 1

theorem local_lengths_seven : getDcpLocalSeqLens [7] 2 (some (0 * 2 + 1)) 1 =
    [[(((twoRanks.onRank (0, 1)).localPositions 0 7).length : ℤ)]] := by
  refine (@local_lengths twoRanks (0, 1) (by decide) (by decide) (by decide) ⟨by decide, by decide⟩
    [(0, 7)] fun e he p hp => ?_).1
  obtain rfl := mem_singleton.1 he
  revert p
  unfold Held
  decide

end CpBlockTable

end LoptVllm.Worker
