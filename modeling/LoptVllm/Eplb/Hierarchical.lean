import LoptVllm.Eplb.Packing

/-!
# The hierarchical policy

The four permutations compose to a numbering of the slots by experts.
-/

namespace LoptVllm.Eplb

open Lib Option Nat Set

variable (np : Numpy)

/-! ### Arrays -/

theorem takeAlongAxis_eq {α : Type*} {rows size cols : ℕ} {a : ℕ → ℕ → α} {idx : ℕ → ℕ → ℕ}
    (h : ∀ row < rows, ∀ col < cols, idx row col < size) :
    takeAlongAxis rows size cols a idx = some fun row col => a row (idx row col) := if_pos h

/-- The inverse of a permutation, in each row, whatever is in the memory. -/
theorem inverse_spec {rows cols : ℕ} {perm : ℕ → ℕ → ℕ}
    (hperm : ∀ row < rows, BijOn (perm row) (Iio cols) (Iio cols)) :
    ∃ inv, (∀ empty, inverse { np with empty := empty } rows cols perm = some inv) ∧ ∀ row < rows,
      BijOn (inv row) (Iio cols) (Iio cols) ∧ ∀ i < cols, perm row (inv row i) = i := by
  obtain ⟨inv, hinv⟩ : ∃ inv : ℕ → ℕ → ℕ, inv = fun row i => if row < rows ∧ i < cols then
    (lastIndex cols fun col => decide (perm row col = i)).getD 0 else 0 := ⟨_, rfl⟩
  -- the only column with an entry
  have hleft : ∀ row < rows, ∀ col < cols,
      lastIndex cols (fun c => decide (perm row c = perm row col)) = some col := fun row hrow col hcol =>
    lastIndex_eq_some hcol (decide_eq_true rfl) fun c hc h =>
      (hperm row hrow).injOn hc hcol (of_decide_eq_true h)
  have hvalue : ∀ row < rows, ∀ col < cols, inv row (perm row col) = col := by
    intro row hrow col hcol
    rw [hinv]
    simp only [hleft row hrow col hcol, getD_some]
    exact if_pos ⟨hrow, (hperm row hrow).mapsTo hcol⟩
  have hright : ∀ row < rows, ∀ i < cols, inv row i < cols ∧ perm row (inv row i) = i := by
    intro row hrow i hi
    obtain ⟨col, hcol, rfl⟩ := (hperm row hrow).surjOn hi
    rw [hvalue row hrow col hcol]
    exact ⟨hcol, rfl⟩
  refine ⟨inv, fun empty => ?_, fun row hrow => ⟨⟨fun i hi => (hright row hrow i hi).1,
    fun i hi j hj h => ?_, fun col hcol => ?_⟩, fun i hi => (hright row hrow i hi).2⟩⟩
  · unfold inverse
    have hmem : ∀ row < rows, ∀ col < cols, perm row col < cols := fun row hrow col hcol =>
      (hperm row hrow).mapsTo hcol
    rw [if_pos hmem, some.injEq, hinv]
    funext row i
    split_ifs with h
    · obtain ⟨col, hcol, rfl⟩ := (hperm row h.1).surjOn h.2
      rw [hleft row h.1 col hcol]
      rfl
    · rfl
  · rw [← (hright row hrow i hi).2, ← (hright row hrow j hj).2]
    exact congrArg (perm row) h
  · exact ⟨perm row col, (hperm row hrow).mapsTo hcol, hvalue row hrow col hcol⟩

/-- Of two columns with the same entry the inverse loses one, depending on what is in the memory. -/
theorem inverse_loses {rows cols row : ℕ} {perm : ℕ → ℕ → ℕ} {a b : ℕ} (ha : a < cols) (hab : a ≠ b)
    (hsame : perm row a = perm row b) : ∃ lost, (lost = a ∨ lost = b) ∧
      ∃ empty, ∀ inv, inverse { np with empty := empty } rows cols perm = some inv →
        row < rows → ∀ i < cols, inv row i ≠ lost := by
  obtain ⟨winner, hwinner⟩ : ∃ winner,
      lastIndex cols (fun col => decide (perm row col = perm row a)) = some winner := by
    cases hlast : lastIndex cols fun col => decide (perm row col = perm row a) with
    | none =>
      have := lastIndex_eq_none.1 hlast a ha
      simp at this
    | some winner => exact ⟨winner, rfl⟩
  obtain ⟨lost, hlost, hother, hat⟩ : ∃ lost, (lost = a ∨ lost = b) ∧ winner ≠ lost ∧
      perm row lost = perm row a := by
    by_cases hw : winner = a
    · exact ⟨b, .inr rfl, hw ▸ hab, hsame.symm⟩
    · exact ⟨a, .inl rfl, hw, rfl⟩
  refine ⟨lost, hlost, fun _ _ => winner, fun inv hinv hrow i hi => ?_⟩
  unfold inverse at hinv
  split_ifs at hinv
  obtain rfl := some.inj hinv
  simp only [if_pos (And.intro hrow hi)]
  cases hlast : lastIndex cols fun col => decide (perm row col = i) with
  | none => exact hother
  | some col =>
    intro hcol
    have hidx := of_decide_eq_true (lastIndex_spec hlast).2
    rw [getD_some] at hcol
    rw [hcol, hat] at hidx
    rw [← hidx, hwinner] at hlast
    exact hother ((some.inj hlast).trans hcol)

theorem balancedPacking_one {m : ℕ} (hm : 0 < m) (weight : ℕ → ℕ → WithTop ℚ) :
    balancedPacking np (m * 1) weight m = some (fun _ group => group, fun _ _ => 0) := by
  unfold balancedPacking
  rw [if_neg (by rw [mul_mod_right]; omega), Nat.mul_div_cancel_left 1 hm]
  rfl

theorem balancedPacking_eq {m c : ℕ} (hm : 0 < m) (hc : c ≠ 1) (weight : ℕ → ℕ → WithTop ℚ) :
    balancedPacking np (m * c) weight m =
      some (fun row => (packRow np (m * c) m c (weight row)).packIndex,
        fun row => (packRow np (m * c) m c (weight row)).rankInPack) := by
  unfold balancedPacking
  rw [if_neg (by rw [mul_mod_right]; omega), Nat.mul_div_cancel_left c hm]
  exact if_neg hc

/-- The places of the groups of a row. -/
theorem balancedPacking_spec {m c : ℕ} (hm : 0 < m) (hc : 0 < c) (weight : ℕ → ℕ → WithTop ℚ) :
    ∃ packIndex rankInPack, balancedPacking np (m * c) weight m = some (packIndex, rankInPack) ∧
      (∀ row, (c = 1 ∨ m = 1 ∨
        ∀ g < m * c, ∀ h < m * c, weight row g = ⊤ → weight row h = ⊤ → g = h) →
        BijOn (fun g => packIndex row g * c + rankInPack row g) (Iio (m * c)) (Iio (m * c))) ∧
      (c = 1 → ∀ row g, packIndex row g * c + rankInPack row g = g) := by
  by_cases hone : c = 1
  · subst hone
    refine ⟨_, _, balancedPacking_one np hm weight, fun row _ => ?_, fun _ row g => mul_one g⟩
    simp only [mul_one]
    exact bijOn_id _
  · refine ⟨_, _, balancedPacking_eq np hm hone weight, fun row hweight => ?_, fun h => absurd h hone⟩
    exact bijOn_place (packRow_numbers hm) (sum_packItems hm)
      fun j hj => packItems_le hm hc (hweight.resolve_left hone) hj

variable {np}

/-! ### Replicas -/

section

variable {rows n r k : ℕ} {tokens : ℕ → ℕ → WithTop ℚ}

/-- The load of each replica of a row. -/
def replicaLoads (np : Numpy) (numLog numPhy : ℕ) (tokens : ℕ → ℕ → WithTop ℚ) (row p : ℕ) : WithTop ℚ :=
  let replicas := replicateRow np numLog numPhy (tokens row)
  np.div (tokens row (replicas.phy2log p)) (replicas.logcnt (replicas.phy2log p))

theorem packReplicas_eq (hn : 0 < n) (hle : n ≤ r * k) :
    packReplicas np rows n (r * k) r k tokens =
      (balancedPacking np (r * k) (replicaLoads np n (r * k) tokens) r).bind fun packs =>
        (inverse np rows (r * k) fun row p => packs.1 row p * k + packs.2 row p).map fun pphy2phy =>
          (fun row => replicateRow np n (r * k) (tokens row), pphy2phy) := by
  have hreplicate : replicateExperts np n (r * k) tokens =
      some fun row => replicateRow np n (r * k) (tokens row) := if_neg (not_lt.2 hle)
  have htokens := @takeAlongAxis_eq (WithTop ℚ) rows _ _
    (fun row l => np.div (tokens row l) ((replicateRow np n (r * k) (tokens row)).logcnt l)) _
    fun row _ p hp => (@replicateRow_numbers np n (r * k) hn hle (tokens row)).1.mem p hp
  unfold packReplicas
  simp only [hreplicate, htokens, bind_eq_bind, bind_some]
  unfold replicaLoads
  cases balancedPacking np (r * k) _ r with
  | none => rfl
  | some packs =>
    simp only [bind_some]
    cases inverse np rows (r * k) _ <;> rfl

/-- Each GPU gets its replicas, if no node has several infinite ones. -/
theorem packReplicas_spec (hn : 0 < n) (hr : 0 < r) (hle : n ≤ r * k)
    (hlone : ∀ row < rows, k = 1 ∨ r = 1 ∨ Lone n (r * k) (tokens row)) : ∃ pphy2phy,
      (∀ empty, packReplicas { np with empty := empty } rows n (r * k) r k tokens =
        some (fun row => replicateRow np n (r * k) (tokens row), pphy2phy)) ∧
      ∀ row < rows, BijOn (pphy2phy row) (Iio (r * k)) (Iio (r * k)) := by
  have hk : 0 < k := pos_of_ne_zero fun h => by
    rw [h, mul_zero] at hle
    omega
  obtain ⟨packIndex, rankInPack, hpack, hplace, -⟩ :=
    balancedPacking_spec np hr hk (replicaLoads np n (r * k) tokens)
  obtain ⟨pphy2phy, hinverse, hbij⟩ := @inverse_spec np rows (r * k)
    (fun row p => packIndex row p * k + rankInPack row p) fun row hrow => by
      refine hplace row ((hlone row hrow).imp_right (Or.imp_right fun h p hp q hq hptop hqtop => ?_))
      exact h.eq_of_top hn hle hp hq (np.div_eq_top.1 hptop) (np.div_eq_top.1 hqtop)
  refine ⟨pphy2phy, fun empty => ?_, fun row hrow => (hbij row hrow).1⟩
  rw [packReplicas_eq hn hle]
  show (balancedPacking np (r * k) (replicaLoads np n (r * k) tokens) r).bind _ = _
  rw [hpack, bind_some, hinverse empty]
  rfl

/-- With several infinite replicas on a node one of them gets lost, depending on what is in the memory. -/
theorem packReplicas_loses (hn : 0 < n) (hr : 2 ≤ r) (hk : 2 ≤ k) (hle : n ≤ r * k) {row : ℕ}
    (hrow : row < rows) (h : ¬Lone n (r * k) (tokens row)) : ∃ lost < r * k, ∃ empty, ∀ x,
      packReplicas { np with empty := empty } rows n (r * k) r k tokens = some x →
        x.1 = (fun row => replicateRow np n (r * k) (tokens row)) ∧ ∀ p < r * k, x.2 row p ≠ lost := by
  obtain ⟨p, hp, q, hq, hpq, hptop, hqtop⟩ := @exists_two_replicas np n (r * k) (tokens row) hle h
  obtain ⟨a, ha, b, hb, hab, hcollision⟩ :=
    @packRow_collision np r k (replicaLoads np n (r * k) tokens row) p hr hk q hp hq hpq
      (np.div_eq_top.2 hptop) (np.div_eq_top.2 hqtop)
  obtain ⟨lost, hlost, empty, hloses⟩ := @inverse_loses np rows (r * k) row (fun row p =>
    (packRow np (r * k) r k (replicaLoads np n (r * k) tokens row)).packIndex p * k +
      (packRow np (r * k) r k (replicaLoads np n (r * k) tokens row)).rankInPack p) a b ha hab hcollision
  refine ⟨lost, by rcases hlost with rfl | rfl <;> assumption, empty, fun x hx => ?_⟩
  rw [packReplicas_eq hn hle, balancedPacking_eq _ (by omega) (by omega), bind_some] at hx
  obtain ⟨inv, hinv, rfl⟩ := map_eq_some_iff.1 hx
  exact ⟨rfl, hloses inv hinv hrow⟩

end

/-! ### The composition -/

section

variable {numLayers m c gs r k : ℕ} {weight : ℕ → ℕ → WithTop ℚ} {log2mlog mlog2log : ℕ → ℕ → ℕ}

/-- The experts of each layer are arranged on `m` nodes with `c` groups of `gs` experts, and experts with
infinite loads come to the same node if they are in one group, or if there is one node. -/
structure Arranged (numLayers m c gs : ℕ) (weight : ℕ → ℕ → WithTop ℚ) (log2mlog mlog2log : ℕ → ℕ → ℕ) :
    Prop where
  places : ∀ layer < numLayers, BijOn (log2mlog layer) (Iio (m * (c * gs))) (Iio (m * (c * gs)))
  experts : ∀ layer < numLayers, BijOn (mlog2log layer) (Iio (m * (c * gs))) (Iio (m * (c * gs)))
  right_inv : ∀ layer < numLayers, ∀ i < m * (c * gs), log2mlog layer (mlog2log layer i) = i
  sameNode : ∀ layer < numLayers, ∀ l < m * (c * gs), ∀ l' < m * (c * gs), weight layer l = ⊤ →
    weight layer l' = ⊤ →
      (log2mlog layer l / (c * gs) = log2mlog layer l' / (c * gs) ↔ m = 1 ∨ l / gs = l' / gs)

/-- The load of an expert on a node. -/
def nodeLoads (m numLog : ℕ) (weight : ℕ → ℕ → WithTop ℚ) (mlog2log : ℕ → ℕ → ℕ) (row i : ℕ) : WithTop ℚ :=
  weight (row / m) (mlog2log (row / m) (row % m * numLog + i))

theorem nodeLoads_node {layer node i : ℕ} (hnode : node < m) :
    nodeLoads m (c * gs) weight mlog2log (layer * m + node) i =
      weight layer (mlog2log layer (node * (c * gs) + i)) := by
  unfold nodeLoads
  rw [(block_index hnode).1, (block_index hnode).2]

/-- A group with an infinite load overflows. -/
theorem tokensPerGroup_eq_top (hgs : 0 < gs) {layer l : ℕ} (h : weight layer l = ⊤) :
    tokensPerGroup np gs weight layer (l / gs) = ⊤ := by
  refine np.sum_top _ (List.mem_map.2 ⟨l % gs, List.mem_range.2 (mod_lt _ hgs), ?_⟩)
  rw [div_add_mod', h]

/-- The policy, where groups can be packed: the replicas of each node are packed next. -/
theorem rebalanceExpertsHierarchical_eq (hlayers : 0 < numLayers) (hm : 0 < m) (hc : 0 < c) (hgs : 0 < gs)
    (hr : 0 < r) (hweight : ∀ layer < numLayers, c = 1 ∨ m = 1 ∨ ∀ g < m * c, ∀ h < m * c,
      tokensPerGroup np gs weight layer g = ⊤ → tokensPerGroup np gs weight layer h = ⊤ → g = h) :
    ∃ log2mlog mlog2log, Arranged numLayers m c gs weight log2mlog mlog2log ∧ ∀ empty,
      rebalanceExpertsHierarchical { np with empty := empty } numLayers (m * (c * gs)) weight (m * (r * k))
          (m * c) m (m * r) =
        (packReplicas { np with empty := empty } (numLayers * m) (c * gs) (r * k) r k
          (nodeLoads m (c * gs) weight mlog2log)).bind fun x =>
            gatherSlots numLayers (m * (c * gs)) (m * (r * k)) m (c * gs) (r * k) log2mlog mlog2log
              x.1 x.2 := by
  obtain ⟨groupPackIndex, groupRankInPack, hpack, hplace, hone⟩ :=
    balancedPacking_spec np hm hc (tokensPerGroup np gs weight)
  -- the groups of a node come one after the other
  obtain ⟨log2mlog, hlog2mlogEq⟩ : ∃ log2mlog : ℕ → ℕ → ℕ, log2mlog = fun layer l =>
    (groupPackIndex layer (l / gs) * c + groupRankInPack layer (l / gs)) * gs + l % gs := ⟨_, rfl⟩
  have hlog2mlog : ∀ layer < numLayers,
      BijOn (log2mlog layer) (Iio (m * (c * gs))) (Iio (m * (c * gs))) := by
    intro layer hlayer
    rw [← mul_assoc, hlog2mlogEq]
    exact bijOn_blocks (hplace layer (hweight layer hlayer))
  obtain ⟨mlog2log, hinverse, hmlog2log⟩ := inverse_spec np hlog2mlog
  refine ⟨log2mlog, mlog2log, ⟨hlog2mlog, fun layer hlayer => (hmlog2log layer hlayer).1,
    fun layer hlayer => (hmlog2log layer hlayer).2, fun layer hlayer l hl l' hl' htop htop' => ?_⟩,
    fun empty => ?_⟩
  · constructor
    · intro hnode
      rcases hweight layer hlayer with rfl | hm | hgroup
      · -- one group on a node, and it is the node of its number
        have hid : ∀ l, log2mlog layer l / (1 * gs) = l / gs := by
          intro l
          rw [hlog2mlogEq, one_mul]
          simp only [hone rfl, div_add_mod']
        rw [hid, hid] at hnode
        exact .inr hnode
      · exact .inl hm
      · have hlt : ∀ l < m * (c * gs), l / gs < m * c := fun l hl =>
          Nat.div_lt_of_lt_mul (by rwa [mul_comm, mul_assoc])
        exact .inr (hgroup _ (hlt l hl) _ (hlt l' hl') (tokensPerGroup_eq_top hgs htop)
          (tokensPerGroup_eq_top hgs htop'))
    · rintro (rfl | hgroup)
      · have hzero : ∀ l < 1 * (c * gs), log2mlog layer l / (c * gs) = 0 := fun l hl =>
          Nat.div_eq_of_lt (by simpa using (hlog2mlog layer hlayer).mapsTo hl)
        rw [hzero l hl, hzero l' hl']
      · have hdiv : ∀ l, log2mlog layer l / (c * gs) =
            (groupPackIndex layer (l / gs) * c + groupRankInPack layer (l / gs)) / c := by
          intro l
          rw [mul_comm c, ← Nat.div_div_eq_div_mul, hlog2mlogEq]
          simp only [(block_index (mod_lt l hgs)).1]
        rw [hdiv, hdiv, hgroup]
  · have htokens := @takeAlongAxis_eq (WithTop ℚ) _ _ _ weight mlog2log fun layer hlayer l hl =>
      (hmlog2log layer hlayer).1.mapsTo hl
    have hgroupSize : m * (c * gs) / (m * c) = gs := by
      rw [← mul_assoc]
      exact Nat.mul_div_cancel_left _ (mul_pos hm hc)
    have hperGpu : m * (r * k) / (m * r) = k := by
      rw [← mul_assoc]
      exact Nat.mul_div_cancel_left _ (mul_pos hm hr)
    have hnode : ∀ n, m * n / m = n := fun n => Nat.mul_div_cancel_left n hm
    -- the assertions of the policy hold
    have hguard : (guard (m * c ≠ 0 ∧ m * (c * gs) % (m * c) = 0) : Option Unit) = some () :=
      if_pos ⟨(mul_pos hm hc).ne', by rw [← mul_assoc, mul_mod_right]⟩
    have hguard₁ : (guard (m ≠ 0 ∧ m * c % m = 0) : Option Unit) = some () :=
      if_pos ⟨hm.ne', mul_mod_right ..⟩
    have hguard₂ : (guard (m * r % m = 0) : Option Unit) = some () := if_pos (mul_mod_right ..)
    have hguard₃ : (guard (m * r ≠ 0 ∧ m * (r * k) % (m * r) = 0) : Option Unit) = some () :=
      if_pos ⟨(mul_pos hm hr).ne', by rw [← mul_assoc, mul_mod_right]⟩
    have hguard₄ : (guard (c * gs ≠ 0 ∧ numLayers ≠ 0) : Option Unit) = some () :=
      if_pos ⟨(mul_pos hc hgs).ne', hlayers.ne'⟩
    have hpack' : balancedPacking { np with empty := empty } (m * c)
        (tokensPerGroup { np with empty := empty } gs weight) m =
          some (groupPackIndex, groupRankInPack) := hpack
    unfold rebalanceExpertsHierarchical
    simp only [hgroupSize, hperGpu, hnode, hguard, hguard₁, hguard₂, hguard₃, hguard₄, hpack',
      bind_eq_bind, bind_some, ← hlog2mlogEq, hinverse, htokens]
    rfl

/-- No node gets several infinite replicas. -/
def Spread (numExperts numReplicas numNodes groupSize : ℕ) (load : ℕ → WithTop ℚ) : Prop :=
  ∀ l < numExperts, load l = ⊤ → numReplicas = numExperts ∧ ∀ l' < numExperts, load l' = ⊤ →
    l = l' ∨ (numNodes ≠ 1 ∧ l / groupSize ≠ l' / groupSize)

section

variable (h : Arranged numLayers m c gs weight log2mlog mlog2log)
include h

theorem Arranged.left_inv {layer l : ℕ} (hlayer : layer < numLayers) (hl : l < m * (c * gs)) :
    mlog2log layer (log2mlog layer l) = l := by
  have hmem := (h.places layer hlayer).mapsTo hl
  exact (h.places layer hlayer).injOn ((h.experts layer hlayer).mapsTo hmem) hl
    (h.right_inv layer hlayer _ hmem)

/-- What the nodes get, by the loads of the layer. -/
theorem Arranged.lone_iff (hm : 0 < m) {layer : ℕ} (hlayer : layer < numLayers) :
    (∀ node < m, Lone (c * gs) (r * k) (nodeLoads m (c * gs) weight mlog2log (layer * m + node))) ↔
      Spread (m * (c * gs)) (m * (r * k)) m gs (weight layer) := by
  constructor
  · intro hlone l hl htop
    -- where an expert is
    have hplace : ∀ l < m * (c * gs), weight layer l = ⊤ → log2mlog layer l / (c * gs) < m ∧
        log2mlog layer l % (c * gs) < c * gs ∧ nodeLoads m (c * gs) weight mlog2log
          (layer * m + log2mlog layer l / (c * gs)) (log2mlog layer l % (c * gs)) = ⊤ := by
      intro l hl htop
      obtain ⟨hnode, hi⟩ := div_lt_of_lt_mul' ((h.places layer hlayer).mapsTo hl)
      refine ⟨hnode, hi, ?_⟩
      rw [nodeLoads_node hnode, div_add_mod', h.left_inv hlayer hl, htop]
    obtain ⟨hnode, hi, htokens⟩ := hplace l hl htop
    obtain ⟨hfull, hsingle⟩ := hlone _ hnode _ hi htokens
    refine ⟨by rw [hfull], fun l' hl' htop' => ?_⟩
    by_contra hnot
    push Not at hnot
    obtain ⟨hne, hgroup⟩ := hnot
    have hsame := (h.sameNode layer hlayer l hl l' hl' htop htop').2
      (or_iff_not_imp_left.2 hgroup)
    obtain ⟨-, hi', htokens'⟩ := hplace l' hl' htop'
    rw [← hsame] at htokens'
    have hmod := hsingle _ hi' htokens'
    refine hne ((h.places layer hlayer).injOn hl hl' ?_)
    rw [← div_add_mod' (log2mlog layer l) (c * gs), hsame, hmod, div_add_mod']
  · intro hspread node hnode i hi htop
    rw [nodeLoads_node hnode] at htop
    have hlt := block_lt hnode hi
    obtain ⟨hfull, hgroups⟩ := hspread _ ((h.experts layer hlayer).mapsTo hlt) htop
    refine ⟨Nat.eq_of_mul_eq_mul_left hm hfull, fun i' hi' htop' => ?_⟩
    rw [nodeLoads_node hnode] at htop'
    have hlt' := block_lt hnode hi'
    rcases hgroups _ ((h.experts layer hlayer).mapsTo hlt') htop' with heq | ⟨hone, hgroup⟩
    · exact add_left_cancel ((h.experts layer hlayer).injOn hlt hlt' heq)
    · have hsame := (h.sameNode layer hlayer _ ((h.experts layer hlayer).mapsTo hlt) _
        ((h.experts layer hlayer).mapsTo hlt') htop htop').1
      rw [h.right_inv layer hlayer _ hlt, h.right_inv layer hlayer _ hlt', (block_index hi).1,
        (block_index hi').1] at hsame
      exact ((hsame rfl).elim hone hgroup).elim

variable {replicas : ℕ → Replicas} {pphy2phy : ℕ → ℕ → ℕ}

theorem gatherSlots_eq (hnumbers : ∀ row, Numbers (Iio (r * k)) (Iio (c * gs)) (replicas row).phy2log
      (replicas row).replicaIdx (replicas row).logcnt)
    (hmem : ∀ row < numLayers * m, ∀ p < r * k, pphy2phy row p < r * k) :
    gatherSlots numLayers (m * (c * gs)) (m * (r * k)) m (c * gs) (r * k) log2mlog mlog2log replicas
        pphy2phy =
      some (fun layer p => mlog2log layer (p / (r * k) * (c * gs) +
          (replicas (layer * m + p / (r * k))).phy2log (pphy2phy (layer * m + p / (r * k)) (p % (r * k)))),
        fun layer p => (replicas (layer * m + p / (r * k))).replicaIdx
          (pphy2phy (layer * m + p / (r * k)) (p % (r * k))),
        fun layer l => (replicas (layer * m + log2mlog layer l / (c * gs))).logcnt
          (log2mlog layer l % (c * gs))) := by
  have hphy2log := @takeAlongAxis_eq ℕ _ _ _ (fun row => (replicas row).phy2log) pphy2phy hmem
  have hreplicaIdx := @takeAlongAxis_eq ℕ _ _ _ (fun row => (replicas row).replicaIdx) pphy2phy hmem
  have hpphy2log := @takeAlongAxis_eq ℕ numLayers (m * (c * gs)) (m * (r * k)) mlog2log
    (fun layer p => p / (r * k) * (c * gs) +
      (replicas (layer * m + p / (r * k))).phy2log (pphy2phy (layer * m + p / (r * k)) (p % (r * k))))
    fun layer hlayer p hp => by
      obtain ⟨hnode, hi⟩ := div_lt_of_lt_mul' hp
      exact block_lt hnode ((hnumbers _).mem _ (hmem _ (block_lt hlayer hnode) _ hi))
  have hlogcnt := @takeAlongAxis_eq ℕ _ _ _
    (fun layer l => (replicas (layer * m + l / (c * gs))).logcnt (l % (c * gs))) log2mlog
    fun layer hlayer l hl => (h.places layer hlayer).mapsTo hl
  unfold gatherSlots
  simp only [hphy2log, hpphy2log, hreplicaIdx, hlogcnt, bind_eq_bind, bind_some]

end

/-- The slots of all experts, on `m` nodes of `r` GPUs with `k` slots and `c` groups of `gs` experts. -/
theorem rebalanceExpertsHierarchical_numbers (hlayers : 0 < numLayers) (hm : 0 < m) (hc : 0 < c)
    (hgs : 0 < gs) (hr : 0 < r) (hle : c * gs ≤ r * k)
    (hweight : ∀ layer < numLayers, c = 1 ∨ m = 1 ∨ ∀ g < m * c, ∀ h < m * c,
      tokensPerGroup np gs weight layer g = ⊤ → tokensPerGroup np gs weight layer h = ⊤ → g = h)
    (hspread : k = 1 ∨ r = 1 ∨ ∀ layer < numLayers,
      Spread (m * (c * gs)) (m * (r * k)) m gs (weight layer)) :
    ∃ phy2log replicasIdx logcnt, (∀ empty, rebalanceExpertsHierarchical { np with empty := empty }
        numLayers (m * (c * gs)) weight (m * (r * k)) (m * c) m (m * r) =
          some (phy2log, replicasIdx, logcnt)) ∧
      ∀ layer < numLayers, Numbers (Iio (m * (r * k))) (Iio (m * (c * gs))) (phy2log layer)
        (replicasIdx layer) (logcnt layer) ∧ ∀ l < m * (c * gs), 0 < logcnt layer l := by
  obtain ⟨log2mlog, mlog2log, harranged, heq⟩ := rebalanceExpertsHierarchical_eq (k := k) hlayers hm hc
    hgs hr hweight
  have hlog : 0 < c * gs := mul_pos hc hgs
  have hnumbers := fun row =>
    @replicateRow_numbers np _ _ hlog hle (nodeLoads m (c * gs) weight mlog2log row)
  obtain ⟨pphy2phy, hpack, hpphy2phy⟩ := @packReplicas_spec np (numLayers * m) (c * gs) r k
    (nodeLoads m (c * gs) weight mlog2log) hlog hr hle fun row hrow => by
      refine hspread.imp_right (Or.imp_right fun h => ?_)
      obtain ⟨hlayer, hnode⟩ := div_lt_of_lt_mul' hrow
      rw [← div_add_mod' row m]
      exact (harranged.lone_iff hm hlayer).2 (h _ hlayer) _ hnode
  -- the nodes together
  have hblocks := fun layer (hlayer : layer < numLayers) => Numbers.blocks fun node (hnode : node < m) =>
    (hnumbers (layer * m + node)).1.comp (hpphy2phy _ (block_lt hlayer hnode))
  refine ⟨_, _, fun layer l => (replicateRow np (c * gs) (r * k) (nodeLoads m (c * gs) weight mlog2log
      (layer * m + log2mlog layer l / (c * gs)))).logcnt (log2mlog layer l % (c * gs)), fun empty => ?_,
    fun layer hlayer => ⟨(hblocks layer hlayer).rename (harranged.experts layer hlayer) fun l hl => ?_,
      fun l hl => ?_⟩⟩
  · rw [heq, hpack, bind_some, gatherSlots_eq harranged (fun row => (hnumbers row).1)
      fun row hrow p hp => (hpphy2phy row hrow).mapsTo hp]
  · simp [harranged.right_inv layer hlayer l hl]
  · exact (hnumbers _).2 _ (div_lt_of_lt_mul' ((harranged.places layer hlayer).mapsTo hl)).2

end

/-! ### Groups and replicas at one place -/

/-- An expert that is counted has a number that no slot has. -/
def Misses (numExperts numReplicas : ℕ) (phy2log replicasIdx logcnt : ℕ → ℕ) : Prop :=
  ∃ e < numExperts, 0 < logcnt e → ∃ j < logcnt e, ∀ p < numReplicas, phy2log p = e → replicasIdx p ≠ j

section

variable {numLayers m c gs r k layer : ℕ} {weight : ℕ → ℕ → WithTop ℚ}

/-- The experts of the slots are entries of the inverse of the places. -/
theorem exists_phy2log_eq {numExperts numPhy numGroups numNodes numGpus : ℕ}
    {phy2log replicasIdx logcnt : ℕ → ℕ → ℕ}
    (h : rebalanceExpertsHierarchical np numLayers numExperts weight numPhy numGroups numNodes numGpus =
      some (phy2log, replicasIdx, logcnt)) : ∃ packs mlog2log,
      balancedPacking np numGroups (tokensPerGroup np (numExperts / numGroups) weight) numNodes =
        some packs ∧
      inverse np numLayers numExperts (fun layer l =>
        (packs.1 layer (l / (numExperts / numGroups)) * (numGroups / numNodes) +
          packs.2 layer (l / (numExperts / numGroups))) * (numExperts / numGroups) +
            l % (numExperts / numGroups)) = some mlog2log ∧
      ∀ layer < numLayers, ∀ p < numPhy, ∃ i < numExperts, phy2log layer p = mlog2log layer i := by
  unfold rebalanceExpertsHierarchical gatherSlots at h
  simp only [bind_eq_bind, bind_eq_some_iff] at h
  obtain ⟨_, -, _, -, _, -, _, -, packs, hpacks, mlog2log, hinverse, _, -, _, -, _, -, _, -, phy2log',
    hphy2log, _, -, _, -, hresult⟩ := h
  unfold takeAlongAxis at hphy2log
  split_ifs at hphy2log with hmem
  obtain rfl := some.inj hphy2log
  obtain ⟨rfl, -⟩ := Prod.mk.inj (some.inj hresult)
  exact ⟨packs, mlog2log, hpacks, hinverse, fun layer hlayer p hp => ⟨_, hmem layer hlayer p hp, rfl⟩⟩

/-- If two groups have infinite loads, an expert has no slot, depending on what is in the memory. -/
theorem exists_missing {g h : ℕ} (hlayer : layer < numLayers) (hm : 2 ≤ m) (hc : 2 ≤ c) (hgs : 0 < gs)
    (hg : g < m * c) (hh : h < m * c) (hne : g ≠ h) (hgtop : tokensPerGroup np gs weight layer g = ⊤)
    (hhtop : tokensPerGroup np gs weight layer h = ⊤) :
    ∃ empty, ∀ {numPhy numGpus : ℕ} {phy2log replicasIdx logcnt : ℕ → ℕ → ℕ},
      rebalanceExpertsHierarchical { np with empty := empty } numLayers (m * (c * gs)) weight
        numPhy (m * c) m numGpus = some (phy2log, replicasIdx, logcnt) →
      Misses (m * (c * gs)) numPhy (phy2log layer) (replicasIdx layer) (logcnt layer) := by
  obtain ⟨a, ha, b, hb, hab, hcollision⟩ :=
    @packRow_collision np m c (tokensPerGroup np gs weight layer) g hm hc h hg hh hne hgtop hhtop
  have hfirst : ∀ k < m * c, k * gs < m * (c * gs) := by
    intro k hk
    rw [← mul_assoc]
    exact mul_lt_mul_of_pos_right hk hgs
  -- the first experts of the groups `a` and `b` have one place, and one of them is lost
  obtain ⟨lost, hlost, empty, hloses⟩ := @inverse_loses np numLayers (m * (c * gs)) layer
    (fun layer l => ((packRow np (m * c) m c (tokensPerGroup np gs weight layer)).packIndex (l / gs) * c +
      (packRow np (m * c) m c (tokensPerGroup np gs weight layer)).rankInPack (l / gs)) * gs + l % gs)
    (a * gs) (b * gs) (hfirst a ha) (fun h => hab (eq_of_mul_eq_mul_right hgs h))
    (by simp [Nat.mul_div_cancel _ hgs, mul_mod_left, hcollision])
  refine ⟨empty, fun {numPhy numGpus phy2log replicasIdx logcnt} hresult => ⟨lost, ?_, fun hpos =>
    ⟨0, hpos, fun p hp hexpert => ?_⟩⟩⟩
  · rcases hlost with rfl | rfl
    · exact hfirst a ha
    · exact hfirst b hb
  obtain ⟨packs, mlog2log, hpacks, hinverse, heq⟩ := exists_phy2log_eq hresult
  have hgroupSize : m * (c * gs) / (m * c) = gs := by
    rw [← mul_assoc]
    exact Nat.mul_div_cancel_left _ (mul_pos (by omega) (by omega))
  rw [hgroupSize, balancedPacking_eq _ (by omega) (by omega)] at hpacks
  obtain rfl := some.inj hpacks
  rw [hgroupSize, Nat.mul_div_cancel_left _ (by omega)] at hinverse
  obtain ⟨i, hi, hvalue⟩ := heq layer hlayer p hp
  exact (hloses mlog2log hinverse hlayer i hi (hvalue.symm.trans hexpert)).elim

/-- If a node gets several infinite replicas, one has no slot, depending on what is in the memory. -/
theorem exists_missing_replica (hlayer : layer < numLayers) (hm : 0 < m) (hc : 0 < c) (hgs : 0 < gs)
    (hr : 2 ≤ r) (hk : 2 ≤ k) (hle : c * gs ≤ r * k)
    (hweight : ∀ layer < numLayers, c = 1 ∨ m = 1 ∨ ∀ g < m * c, ∀ h < m * c,
      tokensPerGroup np gs weight layer g = ⊤ → tokensPerGroup np gs weight layer h = ⊤ → g = h)
    (hspread : ¬Spread (m * (c * gs)) (m * (r * k)) m gs (weight layer)) :
    ∃ empty, ∀ {phy2log replicasIdx logcnt : ℕ → ℕ → ℕ},
      rebalanceExpertsHierarchical { np with empty := empty } numLayers (m * (c * gs)) weight
        (m * (r * k)) (m * c) m (m * r) = some (phy2log, replicasIdx, logcnt) →
      Misses (m * (c * gs)) (m * (r * k)) (phy2log layer) (replicasIdx layer) (logcnt layer) := by
  obtain ⟨log2mlog, mlog2log, harranged, heq⟩ := rebalanceExpertsHierarchical_eq (k := k)
    (zero_lt_of_lt hlayer) hm hc hgs (by omega : 0 < r) hweight
  have hlog : 0 < c * gs := mul_pos hc hgs
  have hnumbers := fun row =>
    (@replicateRow_numbers np _ _ hlog hle (nodeLoads m (c * gs) weight mlog2log row)).1
  rw [← harranged.lone_iff hm hlayer] at hspread
  push Not at hspread
  obtain ⟨node, hnode, hlone⟩ := hspread
  obtain ⟨lost, hlost, empty, hloses⟩ := packReplicas_loses hlog hr hk hle (block_lt hlayer hnode) hlone
  refine ⟨empty, fun {phy2log replicasIdx logcnt} hresult => ?_⟩
  rw [heq] at hresult
  obtain ⟨⟨replicas, pphy2phy⟩, hpack, hgather⟩ := bind_eq_some_iff.1 hresult
  obtain ⟨rfl, hnot⟩ := hloses _ hpack
  have hmem : ∀ row < numLayers * m, ∀ p < r * k, pphy2phy row p < r * k := by
    obtain ⟨_, hfirst, -⟩ := bind_eq_some_iff.1 hgather
    unfold takeAlongAxis at hfirst
    split_ifs at hfirst with hmem
    exact hmem
  rw [gatherSlots_eq harranged hnumbers hmem, some.injEq, Prod.mk.injEq, Prod.mk.injEq] at hgather
  obtain ⟨rfl, rfl, rfl⟩ := hgather
  have hexpert := (hnumbers (layer * m + node)).mem lost hlost
  have hplace := block_lt hnode hexpert
  refine ⟨_, (harranged.experts layer hlayer).mapsTo hplace, fun _ => ⟨(replicateRow np (c * gs) (r * k)
    (nodeLoads m (c * gs) weight mlog2log (layer * m + node))).replicaIdx lost, ?_,
      fun p hp hsame hidx => ?_⟩⟩
  · simp only
    rw [harranged.right_inv layer hlayer _ hplace, (block_index hexpert).1, (block_index hexpert).2]
    exact (hnumbers _).rank_lt lost hlost
  · -- a slot with this number is one of the node, and then it is the replica that is lost
    obtain ⟨hnode', hi⟩ := div_lt_of_lt_mul' hp
    have hmem' := hmem _ (block_lt hlayer hnode') _ hi
    have hexpert' := (hnumbers (layer * m + p / (r * k))).mem _ hmem'
    have hplaces := (harranged.experts layer hlayer).injOn (block_lt hnode' hexpert') hplace hsame
    have hdiv := congrArg (· / (c * gs)) hplaces
    have hmod := congrArg (· % (c * gs)) hplaces
    simp only [(block_index hexpert').1, (block_index hexpert).1] at hdiv
    simp only [(block_index hexpert').2, (block_index hexpert).2] at hmod
    simp only [hdiv] at hmod hidx hmem'
    exact hnot _ hi ((hnumbers _).inj _ hmem' lost hlost hmod hidx)

end

end LoptVllm.Eplb
