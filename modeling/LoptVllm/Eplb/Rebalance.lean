import LoptVllm.Eplb.Hierarchical
import LoptVllm.Eplb.SlotPreservation
import Mathlib.Algebra.Order.Ring.NNRat

/-!
# Consistent expert maps

What `rebalance_experts` returns, with and without an old map.
-/

namespace LoptVllm.Eplb

open List Option Or Nat

open Lib

/-- The maps of a layer agree. -/
structure Consistent (numExperts numSlots : ℕ) (phy2log : ℕ → ℕ) (log2phy : ℕ → ℕ → ℤ) (logcnt : ℕ → ℕ) :
    Prop where
  expert : ∀ p < numSlots, phy2log p < numExperts
  replicated : ∀ e < numExperts, 0 < logcnt e
  count : ∀ e < numExperts, logcnt e = ((Finset.range numSlots).filter fun p => phy2log p = e).card
  listed : ∀ e < numExperts, ∀ j < logcnt e, ∃ p < numSlots, log2phy e j = p ∧ phy2log p = e
  once : ∀ p < numSlots, ∃! j, j < logcnt (phy2log p) ∧ log2phy (phy2log p) j = p
  rest : ∀ e < numExperts, ∀ j, logcnt e ≤ j → log2phy e j = -1

/-- The slots of a rank have the same experts as without the old map, and a slot keeps its expert if there
are more slots with it than such slots before it. -/
structure KeepsSlots (slots : ℕ) (old : ℕ → ℤ) (without withOld : ℕ → ℕ) : Prop where
  perm : ((range slots).map withOld).Perm ((range slots).map without)
  kept : ∀ i < slots, ((Finset.range i).filter fun j => old j = old i).card <
    ((Finset.range slots).filter fun j => (without j : ℤ) = old i).card → (withOld i : ℤ) = old i

/-- The maps agree in all layers, the ranks have equally many slots, and an old map only moves slots within
a rank. -/
def GivesConsistentMaps (np : Numpy) (numLayers numExperts : ℕ) (weight : ℕ → ℕ → ℚ≥0)
    (numReplicas numGroups numNodes numRanks : ℕ) (oldMap : Option OldMap) : Prop :=
  ∃ maps, rebalanceExperts np numLayers numExperts weight numReplicas numGroups numNodes numRanks oldMap =
      some maps ∧
    (∀ layer < numLayers, Consistent numExperts numReplicas (maps.phy2log layer) (maps.log2phy layer)
      (maps.logcnt layer)) ∧
    (∀ k < numRanks, ((Finset.range numReplicas).filter fun p => p / (numReplicas / numRanks) = k).card =
      numReplicas / numRanks) ∧
    ∀ old, oldMap = some old → ∃ without,
      rebalanceExperts np numLayers numExperts weight numReplicas numGroups numNodes numRanks none =
        some without ∧
      ∀ layer < numLayers, ∀ k < numRanks, KeepsSlots (numReplicas / numRanks)
        (fun i => old.phy2log layer (k * (numReplicas / numRanks) + i))
        (fun i => without.phy2log layer (k * (numReplicas / numRanks) + i))
        fun i => maps.phy2log layer (k * (numReplicas / numRanks) + i)

/-- Sizes that pass the assertions, of arrays that are not empty. -/
structure Admissible (numLayers numExperts numReplicas numGroups numNodes numRanks : ℕ) : Prop where
  layers : 0 < numLayers
  experts : 0 < numExperts
  nodes : 0 < numNodes
  ranks : 0 < numRanks
  replicas : numRanks ∣ numReplicas
  le : numExperts ≤ numReplicas
  hierarchical : numNodes ∣ numGroups → 0 < numGroups ∧ numGroups ∣ numExperts ∧ numNodes ∣ numRanks

/-! ### From the numbering to the maps -/

/-- A numbering gives consistent maps. -/
theorem Consistent.of_numbers {numExperts numSlots : ℕ} {phy2log replicasIdx logcnt : ℕ → ℕ}
    (h : Numbers (Set.Iio numSlots) (Set.Iio numExperts) phy2log replicasIdx logcnt)
    (hpos : ∀ l < numExperts, 0 < logcnt l) :
    Consistent numExperts numSlots phy2log (log2phyRow numSlots phy2log replicasIdx) logcnt := by
  -- a slot is where its expert and its number say
  have hentry : ∀ p < numSlots, log2phyRow numSlots phy2log replicasIdx (phy2log p)
    (replicasIdx p) = p := by
    intro p hp
    unfold log2phyRow
    rw [lastIndex_eq_some hp (decide_eq_true ⟨rfl, rfl⟩) fun q hq hqp =>
      h.inj q hq p hp (of_decide_eq_true hqp).1 (of_decide_eq_true hqp).2]
  constructor
  · exact h.mem
  · exact hpos
  · intro e he
    have hcoe : Numbers (Finset.range numSlots : Set ℕ)
      (Set.Iio numExperts) phy2log replicasIdx logcnt := by
      rw [Finset.coe_range]
      exact h
    exact (hcoe.card_fiber he).symm
  · intro e he j hj
    obtain ⟨p, hp, rfl, rfl⟩ := h.surj e he j hj
    exact ⟨p, hp, hentry p hp, rfl⟩
  · intro p hp
    refine ⟨replicasIdx p, ⟨h.rank_lt p hp, hentry p hp⟩, ?_⟩
    rintro j ⟨hj, hjp⟩
    obtain ⟨q, hq, hqp, rfl⟩ := h.surj _ (h.mem p hp) j hj
    rw [← hqp, hentry q hq, Nat.cast_inj] at hjp
    rw [hjp]
  · intro e he j hj
    have hnone : lastIndex numSlots (fun p => decide (phy2log p = e ∧ replicasIdx p = j)) = none := by
      refine lastIndex_eq_none.2 fun p hp => decide_eq_false ?_
      rintro ⟨rfl, rfl⟩
      exact absurd (h.rank_lt p hp) (not_lt.2 hj)
    unfold log2phyRow
    rw [hnone]

theorem perm_map_range {n : ℕ} {σ : ℕ → ℕ} (hσ : Set.BijOn σ (Set.Iio n) (Set.Iio n)) (f : ℕ → ℕ) :
    ((range n).map fun i => f (σ i)).Perm ((range n).map f) := by
  have hrange : ((range n).map σ).Perm (range n) := by
    refine (perm_ext_iff_of_nodup ?_ nodup_range).2 fun i => ?_
    · exact nodup_range.map_on fun i hi j hj h =>
        hσ.injOn (mem_range.1 hi) (mem_range.1 hj) h
    · rw [List.mem_map, mem_range]
      constructor
      · rintro ⟨j, hj, rfl⟩
        exact hσ.mapsTo (mem_range.1 hj)
      · intro hi
        obtain ⟨j, hj, rfl⟩ := hσ.surjOn hi
        exact ⟨j, mem_range.2 hj, rfl⟩
  rw [show (fun i => f (σ i)) = f ∘ σ from rfl, ← List.map_map]
  exact hrange.map f

theorem card_rank_slots {numRanks slots k : ℕ} (hk : k < numRanks) :
    ((Finset.range (numRanks * slots)).filter fun p => p / slots = k).card = slots := by
  have himage : ((Finset.range (numRanks * slots)).filter fun p => p / slots = k) =
      (Finset.range slots).image fun i => k * slots + i := by
    ext p
    rw [Finset.mem_filter, Finset.mem_image, Finset.mem_range]
    constructor
    · rintro ⟨hp, rfl⟩
      exact ⟨p % slots, Finset.mem_range.2 (div_lt_of_lt_mul' hp).2, div_add_mod' p slots⟩
    · rintro ⟨i, hi, rfl⟩
      exact ⟨block_lt hk (Finset.mem_range.1 hi), (block_index (Finset.mem_range.1 hi)).1⟩
  rw [himage, Finset.card_image_of_injective _ fun i j h => add_left_cancel h, Finset.card_range]

section

variable {np : Numpy} {numLayers numExperts numReplicas numGroups numNodes numRanks : ℕ}
  {weight : ℕ → ℕ → ℚ≥0} {phy2log replicasIdx logcnt : ℕ → ℕ → ℕ}

/-- The slots before `preserve_intragpu_slots`. -/
def slotMaps (np : Numpy) (numLayers numExperts : ℕ) (load : ℕ → ℕ → WithTop ℚ)
    (numReplicas numGroups numNodes numRanks : ℕ) : Option ((ℕ → ℕ → ℕ) × (ℕ → ℕ → ℕ) × (ℕ → ℕ → ℕ)) :=
  if numGroups % numNodes = 0 then
    rebalanceExpertsHierarchical np numLayers numExperts load numReplicas numGroups numNodes numRanks
  else rebalanceExpertsHierarchical np numLayers numExperts load numReplicas 1 1 numRanks

/-- The numbers of the slots of an expert fit into the map. -/
theorem guard_maps (hle : numExperts ≤ numReplicas)
    (h : ∀ layer < numLayers, Numbers (Set.Iio numReplicas) (Set.Iio numExperts) (phy2log layer)
      (replicasIdx layer) (logcnt layer) ∧ ∀ l < numExperts, 0 < logcnt layer l) :
    (guard (∀ layer < numLayers, ∀ p < numReplicas, phy2log layer p < numExperts ∧
      replicasIdx layer p < numReplicas - numExperts + 1) : Option Unit) = some () := by
  refine if_pos fun layer hlayer p hp => ?_
  obtain ⟨hnumbers, hpos⟩ := h layer hlayer
  have hcoe : Numbers (Finset.range numReplicas : Set ℕ) (Finset.range numExperts : Set ℕ) (phy2log layer)
      (replicasIdx layer) (logcnt layer) := by
    rw [Finset.coe_range, Finset.coe_range]
    exact hnumbers
  have hexpert := hnumbers.mem p hp
  have hcount := hcoe.count_add_le (fun e he => hpos e (Finset.mem_range.1 he))
    (Finset.mem_range.2 hexpert)
  rw [Finset.card_range, Finset.card_range] at hcount
  have hrank := hnumbers.rank_lt p hp
  exact ⟨hexpert, by omega⟩

/-- A numbering of the slots of all layers gives consistent maps, also with an old map that has enough
slots. -/
theorem givesConsistentMaps_of_numbers (hsizes :
      Admissible numLayers numExperts numReplicas numGroups numNodes numRanks)
    (hslots : slotMaps np numLayers numExperts (fun layer l => np.float (weight layer l)) numReplicas
      numGroups numNodes numRanks = some (phy2log, replicasIdx, logcnt))
    (h : ∀ layer < numLayers, Numbers (Set.Iio numReplicas) (Set.Iio numExperts) (phy2log layer)
      (replicasIdx layer) (logcnt layer) ∧ ∀ l < numExperts, 0 < logcnt layer l)
    {oldMap : Option OldMap} (hold : ∀ old, oldMap = some old → numReplicas ≤ old.numSlots) :
    GivesConsistentMaps np numLayers numExperts weight numReplicas numGroups numNodes numRanks oldMap := by
  have hnodes : (guard (numNodes ≠ 0) : Option Unit) = some () := if_pos hsizes.nodes.ne'
  unfold slotMaps at hslots
  obtain ⟨slots, rfl⟩ := hsizes.replicas
  have hdiv : numRanks * slots / numRanks = slots := Nat.mul_div_cancel_left _ hsizes.ranks
  have hwithout : rebalanceExperts np numLayers numExperts weight (numRanks * slots) numGroups numNodes
      numRanks none = some
        { phy2log := phy2log
          log2phy := fun layer => log2phyRow (numRanks * slots) (phy2log layer) (replicasIdx layer)
          logcnt := logcnt } := by
    unfold rebalanceExperts
    simp only [hnodes, hslots, bind_eq_bind, bind_some, guard_maps hsizes.le h]
  cases oldMap with
  | none =>
    refine ⟨_, hwithout, fun layer hlayer => .of_numbers (h layer hlayer).1 (h layer hlayer).2,
      fun k hk => ?_, fun old hold => nomatch hold⟩
    rw [hdiv]
    exact card_rank_slots hk
  | some old =>
    obtain ⟨new, hnew, hspec⟩ :=
      preserveIntragpuSlots_spec hsizes.ranks phy2log replicasIdx (hold old rfl)
    choose σ hσ hpost using hspec
    have hpermuted : ∀ layer < numLayers, Numbers (Set.Iio (numRanks * slots)) (Set.Iio numExperts)
        (new.1 layer) (new.2 layer) (logcnt layer) ∧ ∀ l < numExperts, 0 < logcnt layer l :=
        fun layer hlayer =>
      ⟨((h layer hlayer).1.comp (bijOn_within_blocks fun k _ => hσ layer k)).congr
        (fun p hp => (hpost layer p hp).1) fun p hp => (hpost layer p hp).2.1, (h layer hlayer).2⟩
    have hwith : rebalanceExperts np numLayers numExperts weight (numRanks * slots) numGroups numNodes
        numRanks (some old) = some
          { phy2log := new.1
            log2phy := fun layer => log2phyRow (numRanks * slots) (new.1 layer) (new.2 layer)
            logcnt := logcnt } := by
      unfold rebalanceExperts
      simp only [hnodes, hslots, bind_eq_bind, bind_some, hnew, guard_maps hsizes.le hpermuted]
    refine ⟨_, hwith, fun layer hlayer => .of_numbers (hpermuted layer hlayer).1 (hpermuted layer hlayer).2,
      fun k hk => ?_, fun old' hold => ⟨_, hwithout, fun layer hlayer k hk => ?_⟩⟩
    · rw [hdiv]
      exact card_rank_slots hk
    · obtain rfl := some.inj hold
      rw [hdiv]
      have hblock : ∀ i < slots,
          new.1 layer (k * slots + i) = phy2log layer (k * slots + σ layer k i) := by
        intro i hi
        rw [(hpost layer _ (block_lt hk hi)).1, (block_index hi).1, (block_index hi).2]
      constructor
      · rw [map_congr_left fun i hi => hblock i (mem_range.1 hi)]
        exact perm_map_range (hσ layer k) fun i => phy2log layer (k * slots + i)
      · intro i hi hcard
        have hkept := (hpost layer _ (block_lt hk hi)).2.2
        rw [(block_index hi).1, (block_index hi).2] at hkept
        exact hkept hcard

theorem Misses.not_consistent {phy2log replicasIdx logcnt : ℕ → ℕ}
    (h : Misses numExperts numReplicas phy2log replicasIdx logcnt) :
    ¬Consistent numExperts numReplicas phy2log (log2phyRow numReplicas phy2log replicasIdx) logcnt := by
  intro hconsistent
  obtain ⟨e, he, h⟩ := h
  obtain ⟨j, hj, hmiss⟩ := h (hconsistent.replicated e he)
  obtain ⟨p, -, hentry, -⟩ := hconsistent.listed e he j hj
  have hnone : lastIndex numReplicas (fun p => decide (phy2log p = e ∧ replicasIdx p = j)) = none :=
    lastIndex_eq_none.2 fun p hp => decide_eq_false fun h => hmiss p hp h.1 h.2
  unfold log2phyRow at hentry
  rw [hnone] at hentry
  exact absurd hentry (by simp)

/-- If the policy misses a replica, the maps are not consistent, also with an old map. -/
theorem not_givesConsistentMaps_of_misses (hsizes :
      Admissible numLayers numExperts numReplicas numGroups numNodes numRanks) {layer : ℕ}
    (hlayer : layer < numLayers) (h : ∀ phy2log replicasIdx logcnt,
      slotMaps np numLayers numExperts (fun layer l => np.float (weight layer l)) numReplicas numGroups
        numNodes numRanks = some (phy2log, replicasIdx, logcnt) →
      Misses numExperts numReplicas (phy2log layer) (replicasIdx layer) (logcnt layer))
    {oldMap : Option OldMap} :
    ¬GivesConsistentMaps np numLayers numExperts weight numReplicas numGroups numNodes numRanks oldMap := by
  rintro ⟨maps, hmaps, hconsistent, -⟩
  unfold rebalanceExperts at hmaps
  simp only [bind_eq_bind, bind_eq_some_iff] at hmaps
  obtain ⟨_, -, ⟨phy2log, replicasIdx, logcnt⟩, hslots, hmaps⟩ := hmaps
  obtain ⟨e, he, hmisses⟩ := h _ _ _ hslots
  cases oldMap with
  | none =>
    obtain ⟨new, hnew, hmaps⟩ := bind_eq_some_iff.1 hmaps
    obtain ⟨_, -, hmaps⟩ := bind_eq_some_iff.1 hmaps
    obtain rfl := some.inj hnew
    obtain rfl := some.inj hmaps
    exact Misses.not_consistent ⟨e, he, hmisses⟩ (hconsistent layer hlayer)
  | some old =>
    obtain ⟨new, hnew, hmaps⟩ := bind_eq_some_iff.1 hmaps
    obtain ⟨_, -, hmaps⟩ := bind_eq_some_iff.1 hmaps
    obtain rfl := some.inj hmaps
    refine Misses.not_consistent ⟨e, he, fun hpos => ?_⟩ (hconsistent layer hlayer)
    obtain ⟨j, hj, hmiss⟩ := hmisses hpos
    refine ⟨j, hj, fun p hp hexpert hidx => ?_⟩
    -- a slot of the new map is one of the same rank without the old map
    obtain ⟨slots, rfl⟩ := hsizes.replicas
    by_cases hold : numRanks * slots ≤ old.numSlots
    · obtain ⟨post, hpost, hspec⟩ :=
        preserveIntragpuSlots_spec hsizes.ranks phy2log replicasIdx hold
      obtain rfl := some.inj (hpost.symm.trans hnew)
      obtain ⟨σ, hσ, hmoved⟩ := hspec layer
      obtain ⟨hrank, hslot⟩ := div_lt_of_lt_mul' hp
      obtain ⟨hexpert', hidx', -⟩ := hmoved p hp
      exact hmiss _ (block_lt hrank ((hσ _).mapsTo hslot)) (hexpert'.symm.trans hexpert)
        (hidx'.symm.trans hidx)
    · rw [preserveIntragpuSlots_eq_none hsizes.ranks (not_le.1 hold)] at hnew
      cases hnew

end

/-- The loads of the layers, by which the groups are packed on nodes and the replicas on GPUs. A full pack
is masked out with an infinite load, so no two others may have one, where there are several packs with
several places. -/
structure Packable (np : Numpy) (numLayers numExperts : ℕ) (load : ℕ → ℕ → WithTop ℚ)
    (numReplicas numGroups numNodes numRanks : ℕ) : Prop where
  nodes : numNodes = 1 ∨ numGroups = numNodes ∨ ∀ layer < numLayers, ∀ g < numGroups, ∀ h < numGroups,
    tokensPerGroup np (numExperts / numGroups) load layer g = ⊤ →
    tokensPerGroup np (numExperts / numGroups) load layer h = ⊤ → g = h
  gpus : numRanks = numNodes ∨ numReplicas = numRanks ∨ ∀ layer < numLayers,
    Spread numExperts numReplicas numNodes (numExperts / numGroups) (load layer)

/-- Where something cannot be packed, a replica gets lost, depending on what is left in the memory. -/
theorem exists_misses_of_not_packable {np : Numpy} {numLayers m c gs r k : ℕ} {load : ℕ → ℕ → WithTop ℚ}
    (hm : 0 < m) (hc : 0 < c) (hgs : 0 < gs) (hr : 0 < r) (hle : c * gs ≤ r * k)
    (h : ¬Packable np numLayers (m * (c * gs)) load (m * (r * k)) (m * c) m (m * r)) :
    ∃ layer < numLayers, ∃ empty, ∀ phy2log replicasIdx logcnt,
      rebalanceExpertsHierarchical { np with empty := empty } numLayers (m * (c * gs)) load (m * (r * k))
        (m * c) m (m * r) = some (phy2log, replicasIdx, logcnt) →
      Misses (m * (c * gs)) (m * (r * k)) (phy2log layer) (replicasIdx layer) (logcnt layer) := by
  have hgroupSize : m * (c * gs) / (m * c) = gs := by
    rw [← mul_assoc]
    exact Nat.mul_div_cancel_left _ (mul_pos hm hc)
  by_cases hnodes : m = 1 ∨ m * c = m ∨ ∀ layer < numLayers, ∀ g < m * c, ∀ h < m * c,
      tokensPerGroup np gs load layer g = ⊤ → tokensPerGroup np gs load layer h = ⊤ → g = h
  · have hgpus : ¬(m * r = m ∨ m * (r * k) = m * r ∨ ∀ layer < numLayers,
        Spread (m * (c * gs)) (m * (r * k)) m gs (load layer)) := fun hgpus =>
      h ⟨by rwa [hgroupSize], by rwa [hgroupSize]⟩
    push Not at hgpus
    obtain ⟨hone, hone', layer, hlayer, hspread⟩ := hgpus
    have hr' : r ≠ 1 := fun h => hone (by rw [h, mul_one])
    have hk : k ≠ 1 := fun h => hone' (by rw [h, mul_one])
    have hk' : 0 < k := pos_of_ne_zero fun h => by
      rw [h, mul_zero] at hle
      exact absurd (mul_pos hc hgs) (not_lt.2 hle)
    obtain ⟨empty, hmisses⟩ := exists_missing_replica (k := k) hlayer hm hc hgs (by omega) (by omega) hle
      (fun layer hlayer => by
        rcases hnodes with h | h | h
        · exact inr (inl h)
        · exact inl (Nat.eq_of_mul_eq_mul_left hm (h.trans (mul_one _).symm))
        · exact inr (inr (h layer hlayer))) hspread
    exact ⟨layer, hlayer, empty, fun _ _ _ => hmisses⟩
  · push Not at hnodes
    obtain ⟨hone, hone', layer, hlayer, g, hg, g', hg', hgtop, hgtop', hne⟩ := hnodes
    have hc' : c ≠ 1 := fun h => hone' (by rw [h, mul_one])
    obtain ⟨empty, hmisses⟩ :=
      exists_missing hlayer (by omega) (by omega) hgs hg hg' hne hgtop hgtop'
    exact ⟨layer, hlayer, empty, fun _ _ _ => hmisses⟩

section

variable (np : Numpy) {numLayers numExperts numReplicas numGroups numNodes numRanks : ℕ}
  (hsizes : Admissible numLayers numExperts numReplicas numGroups numNodes numRanks)
  (weight : ℕ → ℕ → ℚ≥0) (oldMap : Option OldMap)
include hsizes

/-- The maps for the groups and nodes that the hierarchical policy gets. -/
theorem consistent_iff_packable {groups nodes : ℕ} (hgroups : 0 < groups) (hnodes : 0 < nodes)
    (hexperts : groups ∣ numExperts) (hdvd : nodes ∣ groups) (hranks : nodes ∣ numRanks)
    (hpolicy : ∀ empty, slotMaps { np with empty := empty } numLayers numExperts
        (fun layer l => np.float (weight layer l)) numReplicas numGroups numNodes numRanks =
      rebalanceExpertsHierarchical { np with empty := empty } numLayers numExperts
        (fun layer l => np.float (weight layer l)) numReplicas groups nodes numRanks) :
    (∀ empty, GivesConsistentMaps { np with empty := empty } numLayers numExperts weight numReplicas
        numGroups numNodes numRanks oldMap) ↔
      (∀ old, oldMap = some old → numReplicas ≤ old.numSlots) ∧
      Packable np numLayers numExperts (fun layer l => np.float (weight layer l)) numReplicas groups nodes
        numRanks := by
  obtain ⟨c, rfl⟩ := hdvd
  obtain ⟨gs, hgs⟩ := hexperts
  obtain rfl : numExperts = nodes * (c * gs) := by rw [hgs, mul_assoc]
  obtain ⟨r, rfl⟩ := hranks
  obtain ⟨k, hk⟩ := hsizes.replicas
  obtain rfl : numReplicas = nodes * (r * k) := by rw [hk, mul_assoc]
  have hc : 0 < c := Nat.pos_of_mul_pos_left hgroups
  have hgs' : 0 < gs := Nat.pos_of_mul_pos_left (Nat.pos_of_mul_pos_left hsizes.experts)
  have hr : 0 < r := Nat.pos_of_mul_pos_left hsizes.ranks
  have hle : c * gs ≤ r * k := le_of_mul_le_mul_left hsizes.le hnodes
  have hgroupSize : nodes * (c * gs) / (nodes * c) = gs := by
    rw [← mul_assoc]
    exact Nat.mul_div_cancel_left _ hgroups
  constructor
  · intro h
    refine ⟨?_, by_contra fun hnot => ?_⟩
    · rintro old rfl
      by_contra hold
      obtain ⟨maps, hmaps, -⟩ := h np.empty
      unfold rebalanceExperts at hmaps
      simp only [bind_eq_bind, bind_eq_some_iff] at hmaps
      obtain ⟨_, -, _, -, _, hnew, -⟩ := hmaps
      rw [← mul_assoc] at hnew hold
      rw [preserveIntragpuSlots_eq_none hsizes.ranks (not_le.1 hold)] at hnew
      cases hnew
    · obtain ⟨layer, hlayer, empty, hmisses⟩ := exists_misses_of_not_packable hnodes hc hgs' hr hle hnot
      refine not_givesConsistentMaps_of_misses hsizes hlayer (fun phy2log replicasIdx logcnt hslots => ?_)
        (h empty)
      exact hmisses _ _ _ ((hpolicy empty).symm.trans hslots)
  · rintro ⟨hold, hpack⟩ empty
    obtain ⟨hgroup, hgpu⟩ := hpack
    rw [hgroupSize] at hgroup hgpu
    have hone : ∀ {n}, nodes * n = nodes → n = 1 := fun h =>
      Nat.eq_of_mul_eq_mul_left hnodes (h.trans (mul_one _).symm)
    obtain ⟨phy2log, replicasIdx, logcnt, hresult, hnumbers⟩ :=
      rebalanceExpertsHierarchical_numbers (k := k) hsizes.layers hnodes hc hgs' hr hle
        (fun layer hlayer => by
          rcases hgroup with h | h | h
          · exact inr (inl h)
          · exact inl (hone h)
          · exact inr (inr (h layer hlayer)))
        (by
          rcases hgpu with h | h | h
          · exact inr (inl (hone h))
          · rw [← mul_assoc] at h
            exact inl (Nat.eq_of_mul_eq_mul_left hsizes.ranks (h.trans (mul_one _).symm))
          · exact inr (inr h))
    exact givesConsistentMaps_of_numbers hsizes ((hpolicy empty).trans (hresult empty)) hnumbers hold

/-- **When `rebalance_experts` gives consistent maps.**  An old map must not have fewer slots, and the
groups and replicas must be packable, also where their loads overflow. -/
theorem rebalanceExperts_consistent_iff :
    (∀ empty, GivesConsistentMaps { np with empty := empty } numLayers numExperts weight numReplicas
        numGroups numNodes numRanks oldMap) ↔
      (∀ old, oldMap = some old → numReplicas ≤ old.numSlots) ∧
      Packable np numLayers numExperts (fun layer l => np.float (weight layer l)) numReplicas
        (if numNodes ∣ numGroups then numGroups else 1) (if numNodes ∣ numGroups then numNodes else 1)
        numRanks := by
  by_cases hdvd : numNodes ∣ numGroups
  · obtain ⟨hgroups, hexperts, hranks⟩ := hsizes.hierarchical hdvd
    rw [if_pos hdvd, if_pos hdvd]
    exact consistent_iff_packable np hsizes weight oldMap hgroups hsizes.nodes hexperts hdvd hranks
      fun empty => if_pos (mod_eq_zero_of_dvd hdvd)
  · -- one group on one node
    rw [if_neg hdvd, if_neg hdvd]
    exact consistent_iff_packable np hsizes weight oldMap one_pos one_pos (one_dvd _) (one_dvd _)
      (one_dvd _) fun empty => if_neg fun h => hdvd (dvd_of_mod_eq_zero h)

end

/-- Float values without rounding, where a float32 value overflows at `2 ^ 128`, and a stable sort. -/
def exactNumpy : Numpy where
  float load := if (load : ℚ) < 2 ^ 128 then ((load : ℚ) : WithTop ℚ) else ⊤
  sum l := if l.sum < (2 ^ 128 : ℚ) then l.sum else ⊤
  sum_top l hl := if_neg (by
    obtain ⟨l₁, l₂, rfl⟩ := append_of_mem hl
    simp)
  round q := q
  argsort n weight := (range n).mergeSort fun i j => decide (weight j ≤ weight i)
  argsort_perm _ _ := List.mergeSort_perm _ _
  argsort_sorted n weight := by
    refine (List.pairwise_mergeSort (fun a b c hab hbc => ?_) (fun a b => ?_) _).imp fun h => ?_
    · exact decide_eq_true ((of_decide_eq_true hbc).trans (of_decide_eq_true hab))
    · rw [Bool.or_eq_true, decide_eq_true_eq, decide_eq_true_eq]
      exact le_total _ _
    · exact of_decide_eq_true h
  empty _ _ := 0

/-- Eight experts in four groups, on two nodes of two ranks each, after another map of the twelve slots. -/
theorem rebalanceExperts_consistent_four : GivesConsistentMaps exactNumpy 1 8
    (fun _ l => if l = 0 then 5 else 1) 12 4 2 4 (some ⟨12, fun _ p => (p % 8 : ℕ)⟩) := by
  have hsizes : Admissible 1 8 12 4 2 4 :=
    ⟨by decide, by decide, by decide, by decide, by decide, by decide, fun _ => by decide⟩
  have hfloat : ∀ l : ℕ, exactNumpy.float (if l = 0 then 5 else 1) =
    ((if l = 0 then 5 else 1 : ℚ) : WithTop ℚ) := by
    intro l
    unfold exactNumpy
    split_ifs <;> norm_num
  refine (rebalanceExperts_consistent_iff exactNumpy hsizes _ _).2 ⟨?_, ?_, ?_⟩ exactNumpy.empty
  · rintro old hold
    obtain rfl := some.inj hold
    exact le_rfl
  · refine inr (inr fun layer _ g _ h _ htop _ => absurd htop ?_)
    unfold tokensPerGroup
    simp only [hfloat]
    unfold exactNumpy
    norm_num [range_succ]
    split_ifs
    · exact WithTop.coe_lt_coe.2 (by norm_num : (5 + 1 : ℚ) < 2 ^ 128)
    · exact WithTop.coe_lt_coe.2 (by norm_num : (1 + 1 : ℚ) < 2 ^ 128)
  · refine inr (inr fun layer _ l _ htop => ?_)
    simp only [hfloat] at htop
    cases htop

/-- The four slots of an old map are too few for six. -/
theorem rebalanceExperts_narrow : ¬GivesConsistentMaps exactNumpy 1 4
    (fun _ l => if l = 0 then 5 else 1) 6 1 1 3 (some ⟨4, fun _ p => (p : ℤ)⟩) := by
  rintro ⟨maps, hmaps, -⟩
  unfold rebalanceExperts at hmaps
  simp only [bind_eq_bind, bind_eq_some_iff] at hmaps
  obtain ⟨_, -, _, -, _, hnew, -⟩ := hmaps
  exact absurd hnew (by simp [preserveIntragpuSlots])

end LoptVllm.Eplb
