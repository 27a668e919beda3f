import LoptVllm.Eplb.Policy
import LoptVllm.Lib.Numbering

/-!
# Slots that stay

`preserve_intragpu_slots` permutes the slots of each rank.
-/

namespace LoptVllm.Eplb

open List Function Prod Or Nat Slots

open Lib

variable {slots : ℕ} {old : ℕ → ℤ} {new newIdx : ℕ → ℕ}

/-- The pairs of an old and a new slot after the first pass over `k` slots. -/
structure Slots.Preserved (slots : ℕ) (old : ℕ → ℤ) (new newIdx : ℕ → ℕ) (k : ℕ) (pairs : List (ℕ × ℕ))
    (s : Slots) : Prop where
  nodup_fst : (pairs.map fst).Nodup
  nodup_snd : (pairs.map snd).Nodup
  used : ∀ i, s.usedNewIndices i = true ↔ i ∈ pairs.map snd
  preserved : ∀ j, s.preservedPositions j = true ↔ j ∈ pairs.map fst
  lt : ∀ p ∈ pairs, p.1 < k ∧ p.2 < slots
  same : ∀ p ∈ pairs, (new p.2 : ℤ) = old p.1
  post : ∀ p ∈ pairs, s.postPhy2log p.1 = new p.2 ∧ s.postReplicasIdx p.1 = newIdx p.2
  kept : ∀ j < k, ((Finset.range j).filter fun i => old i = old j).card <
    ((Finset.range slots).filter fun i => (new i : ℤ) = old j).card → j ∈ pairs.map fst

/-- While there are more new slots with an expert than old ones before, one is unused. -/
theorem Slots.Preserved.exists_unused {k : ℕ} {pairs : List (ℕ × ℕ)} {s : Slots}
    (hs : s.Preserved slots old new newIdx k pairs) {e : ℤ}
    (hcard : ((Finset.range k).filter fun j => old j = e).card <
      ((Finset.range slots).filter fun i => (new i : ℤ) = e).card) :
    ∃ i < slots, (new i : ℤ) = e ∧ s.usedNewIndices i = false := by
  set same := pairs.filter fun p => decide (old p.1 = e)
  by_contra hnone
  push Not at hnone
  refine absurd hcard (not_lt.2 ?_)
  -- all of them are used, by different old slots
  have hsub : ((Finset.range slots).filter fun i => (new i : ℤ) = e) ⊆ (same.map snd).toFinset := by
    intro i hi
    obtain ⟨hlt, he⟩ := Finset.mem_filter.1 hi
    have hused := hnone i (Finset.mem_range.1 hlt) he
    rw [ne_eq, Bool.not_eq_false, hs.used] at hused
    obtain ⟨p, hp, rfl⟩ := mem_map.1 hused
    rw [hs.same p hp] at he
    exact mem_toFinset.2 (mem_map_of_mem (mem_filter.2 ⟨hp, decide_eq_true he⟩))
  have hsub' : (same.map fst).toFinset ⊆ (Finset.range k).filter fun j => old j = e := by
    intro j hj
    obtain ⟨p, hp, rfl⟩ := mem_map.1 (mem_toFinset.1 hj)
    obtain ⟨hmem, he⟩ := mem_filter.1 hp
    exact Finset.mem_filter.2 ⟨Finset.mem_range.2 (hs.lt p hmem).1, of_decide_eq_true he⟩
  have hnodup : (same.map fst).Nodup := hs.nodup_fst.sublist (filter_sublist.map _)
  calc ((Finset.range slots).filter fun i => (new i : ℤ) = e).card
      ≤ (same.map snd).toFinset.card := Finset.card_le_card hsub
    _ ≤ (same.map snd).length := toFinset_card_le _
    _ = (same.map fst).length := by
        rw [length_map, length_map]
    _ = (same.map fst).toFinset.card := (toFinset_card_of_nodup hnodup).symm
    _ ≤ ((Finset.range k).filter fun j => old j = e).card := Finset.card_le_card hsub'

theorem Slots.Preserved.step {k : ℕ} {pairs : List (ℕ × ℕ)} {s : Slots}
    (hs : s.Preserved slots old new newIdx k pairs) : ∃ pairs',
      (preserve slots old new newIdx s k).Preserved slots old new newIdx (k + 1) pairs' := by
  have hk : k ∉ pairs.map fst := by
    intro h
    obtain ⟨p, hp, rfl⟩ := mem_map.1 h
    exact lt_irrefl _ (hs.lt p hp).1
  unfold preserve
  -- a slot of the new map with this expert is taken, if one is left
  cases hfind : (range slots).find? fun i => decide ((new i : ℤ) = old k) && !s.usedNewIndices i with
  | none =>
    refine ⟨pairs, hs.nodup_fst, hs.nodup_snd, hs.used, hs.preserved, fun p hp => ?_, hs.same, hs.post,
      fun j hj hcard => ?_⟩
    · exact ⟨(hs.lt p hp).1.trans (lt_succ_self k), (hs.lt p hp).2⟩
    · rcases Nat.lt_succ_iff_lt_or_eq.1 hj with hj | rfl
      · exact hs.kept j hj hcard
      · obtain ⟨i, hi, hei, hunused⟩ := hs.exists_unused hcard
        have := find?_eq_none.1 hfind i (mem_range.2 hi)
        simp [hei, hunused] at this
  | some i =>
    have hi := mem_range.1 (mem_of_find?_eq_some hfind)
    have hmatch := find?_some hfind
    rw [Bool.and_eq_true, decide_eq_true_eq, Bool.not_eq_true'] at hmatch
    have hunused : i ∉ pairs.map snd := by
      rw [← hs.used, hmatch.2]
      decide
    refine ⟨(k, i) :: pairs, nodup_cons.2 ⟨hk, hs.nodup_fst⟩,
      nodup_cons.2 ⟨hunused, hs.nodup_snd⟩, fun i' => ?_, fun j => ?_, fun p hp => ?_, fun p hp => ?_,
      fun p hp => ?_, fun j hj hcard => ?_⟩
    · simp only [update_apply, map_cons, mem_cons, ← hs.used]
      split_ifs with h <;> simp [h]
    · simp only [update_apply, map_cons, mem_cons, ← hs.preserved]
      split_ifs with h <;> simp [h]
    · rcases mem_cons.1 hp with rfl | hp
      · exact ⟨lt_succ_self k, hi⟩
      · exact ⟨(hs.lt p hp).1.trans (lt_succ_self k), (hs.lt p hp).2⟩
    · rcases mem_cons.1 hp with rfl | hp
      · exact hmatch.1
      · exact hs.same p hp
    · simp only [assign]
      rcases mem_cons.1 hp with rfl | hp
      · exact ⟨update_self .., update_self ..⟩
      · have hne : p.1 ≠ k := (hs.lt p hp).1.ne
        rw [update_of_ne hne, update_of_ne hne]
        exact hs.post p hp
    · rw [map_cons, mem_cons]
      rcases Nat.lt_succ_iff_lt_or_eq.1 hj with hj | rfl
      · exact inr (hs.kept j hj hcard)
      · exact inl rfl

theorem Slots.Preserved.foldl (slots : ℕ) (old : ℕ → ℤ) (new newIdx : ℕ → ℕ) (k : ℕ) : ∃ pairs,
    ((range k).foldl (preserve slots old new newIdx)
      { postPhy2log := new
        postReplicasIdx := newIdx
        usedNewIndices := fun _ => false
        preservedPositions := fun _ => false }).Preserved slots old new newIdx k pairs := by
  induction k with
  | zero =>
    refine ⟨[], nodup_nil, nodup_nil, fun i => ?_, fun j => ?_, ?_, ?_, ?_, fun j hj => ?_⟩
    · simp
    · simp
    · exact nofun
    · exact nofun
    · exact nofun
    · cases hj
  | succ k ih =>
    obtain ⟨pairs, hs⟩ := ih
    rw [range_succ, foldl_append]
    exact hs.step

/-- What assignments leave in a slot. -/
theorem Slots.foldl_assign : ∀ {pairs : List (ℕ × ℕ)} (s : Slots), (pairs.map fst).Nodup →
    (∀ p ∈ pairs,
      (pairs.foldl (fun s p => s.assign new newIdx p.1 p.2) s).postPhy2log p.1 = new p.2 ∧
      (pairs.foldl (fun s p => s.assign new newIdx p.1 p.2) s).postReplicasIdx p.1 = newIdx p.2) ∧
    ∀ j, j ∉ pairs.map fst →
      (pairs.foldl (fun s p => s.assign new newIdx p.1 p.2) s).postPhy2log j = s.postPhy2log j ∧
      (pairs.foldl (fun s p => s.assign new newIdx p.1 p.2) s).postReplicasIdx j = s.postReplicasIdx j
  | [], s, _ => ⟨nofun, fun _ _ => ⟨rfl, rfl⟩⟩
  | q :: pairs, s, hnodup => by
    obtain ⟨hq, hnodup⟩ := nodup_cons.1 hnodup
    obtain ⟨hmem, hother⟩ := foldl_assign (s.assign new newIdx q.1 q.2) hnodup
    rw [foldl_cons]
    refine ⟨fun p hp => ?_, fun j hj => ?_⟩
    · rcases mem_cons.1 hp with rfl | hp
      · rw [(hother p.1 hq).1, (hother p.1 hq).2]
        exact ⟨update_self .., update_self ..⟩
      · exact hmem p hp
    · rw [map_cons, mem_cons, not_or] at hj
      rw [(hother j hj.2).1, (hother j hj.2).2]
      exact ⟨update_of_ne hj.1 .., update_of_ne hj.1 ..⟩

/-- Some indices and the others. -/
theorem perm_append_filter_not {n : ℕ} {l : List ℕ} {p : ℕ → Bool} (hl : l.Nodup) (hlt : ∀ j ∈ l, j < n)
    (hp : ∀ j, p j = true ↔ j ∈ l) : (l ++ (range n).filter fun j => !p j).Perm (range n) := by
  have hmem : ∀ j, j ∈ (range n).filter (fun j => !p j) ↔ j < n ∧ j ∉ l := by
    intro j
    rw [mem_filter, mem_range, Bool.not_eq_true', ← hp, Bool.not_eq_true]
  refine (perm_ext_iff_of_nodup (nodup_append.2 ⟨hl, nodup_range.filter _, ?_⟩)
    nodup_range).2 fun j => ?_
  · rintro a ha b hb rfl
    exact ((hmem a).1 hb).2 ha
  · rw [mem_append, hmem, mem_range]
    constructor
    · rintro (h | h)
      · exact hlt j h
      · exact h.1
    · intro h
      by_cases hj : j ∈ l
      · exact inl hj
      · exact inr ⟨h, hj⟩

/-- Pairs of all indices are a permutation. -/
theorem exists_bijOn_of_pairs {n : ℕ} {pairs : List (ℕ × ℕ)} (hfst : (pairs.map fst).Perm (range n))
    (hsnd : (pairs.map snd).Perm (range n)) :
    ∃ σ, Set.BijOn σ (Set.Iio n) (Set.Iio n) ∧ ∀ p ∈ pairs, σ p.1 = p.2 := by
  have hnodup := hfst.nodup_iff.2 nodup_range
  have hnodup' := hsnd.nodup_iff.2 nodup_range
  have hex : ∀ j, ∃ i, j < n → (j, i) ∈ pairs := by
    intro j
    by_cases hj : j < n
    · obtain ⟨p, hp, rfl⟩ := mem_map.1 (hfst.mem_iff.2 (mem_range.2 hj))
      exact ⟨p.2, fun _ => hp⟩
    · exact ⟨0, fun h => absurd h hj⟩
  choose σ hσ using hex
  have hlt : ∀ p ∈ pairs, p.1 < n ∧ p.2 < n := fun p hp =>
    ⟨mem_range.1 (hfst.mem_iff.1 (mem_map_of_mem hp)),
      mem_range.1 (hsnd.mem_iff.1 (mem_map_of_mem hp))⟩
  have heq : ∀ p ∈ pairs, σ p.1 = p.2 := fun p hp =>
    congrArg snd (inj_on_of_nodup_map hnodup (hσ p.1 (hlt p hp).1) hp rfl)
  refine ⟨σ, ⟨fun j hj => (hlt _ (hσ j hj)).2, fun j hj j' hj' h => ?_, fun i hi => ?_⟩, heq⟩
  · exact congrArg fst (inj_on_of_nodup_map hnodup' (hσ j hj) (hσ j' hj') h)
  · obtain ⟨p, hp, rfl⟩ := mem_map.1 (hsnd.mem_iff.2 (mem_range.2 hi))
    exact ⟨p.1, (hlt p hp).1, heq p hp⟩

/-- The slots of a rank are permuted, and a slot keeps its expert if there are enough of it. -/
theorem preserveSlots_spec (slots : ℕ) (old : ℕ → ℤ) (new newIdx : ℕ → ℕ) : ∃ σ,
    Set.BijOn σ (Set.Iio slots) (Set.Iio slots) ∧ ∀ j < slots,
      (preserveSlots slots old new newIdx).postPhy2log j = new (σ j) ∧
      (preserveSlots slots old new newIdx).postReplicasIdx j = newIdx (σ j) ∧
      (((Finset.range j).filter fun i => old i = old j).card <
        ((Finset.range slots).filter fun i => (new i : ℤ) = old j).card →
        ((preserveSlots slots old new newIdx).postPhy2log j : ℤ) = old j) := by
  obtain ⟨pairs, hs⟩ := Preserved.foldl slots old new newIdx slots
  unfold preserveSlots
  simp only
  generalize (range slots).foldl (preserve slots old new newIdx)
    { postPhy2log := new
      postReplicasIdx := newIdx
      usedNewIndices := fun _ => false
      preservedPositions := fun _ => false } = s at hs ⊢
  have hfst := perm_append_filter_not hs.nodup_fst (fun j hj => by
    obtain ⟨p, hp, rfl⟩ := mem_map.1 hj
    exact (hs.lt p hp).1) hs.preserved
  have hsnd := perm_append_filter_not hs.nodup_snd (fun i hi => by
    obtain ⟨p, hp, rfl⟩ := mem_map.1 hi
    exact (hs.lt p hp).2) hs.used
  obtain ⟨fill, hfill⟩ : ∃ fill, fill = (range slots).filter fun j => !s.preservedPositions j :=
    ⟨_, rfl⟩
  obtain ⟨remaining, hremaining⟩ : ∃ remaining,
    remaining = (range slots).filter fun i => !s.usedNewIndices i := ⟨_, rfl⟩
  rw [← hfill] at hfst ⊢
  rw [← hremaining] at hsnd ⊢
  -- as many positions are left as new slots
  have hlength : fill.length = remaining.length := by
    have h := hfst.length_eq.trans hsnd.length_eq.symm
    rw [length_append, length_append, length_map, length_map] at h
    exact add_left_cancel h
  have hzipFst : (fill.zip remaining).map fst = fill := map_fst_zip hlength.le
  have hzipSnd : (fill.zip remaining).map snd = remaining := map_snd_zip hlength.ge
  have hnodup := nodup_append.1 (hfst.nodup_iff.2 nodup_range)
  obtain ⟨hassigned, hother⟩ := @Slots.foldl_assign new newIdx (fill.zip remaining) s (by
    rw [hzipFst]
    exact hnodup.2.1)
  obtain ⟨σ, hσ, hpairs⟩ := @exists_bijOn_of_pairs slots (pairs ++ fill.zip remaining) (by
    rw [map_append, hzipFst]
    exact hfst) (by
    rw [map_append, hzipSnd]
    exact hsnd)
  generalize (fill.zip remaining).foldl (fun s p => s.assign new newIdx p.1 p.2) s =
    s' at hassigned hother ⊢
  have hfirst : ∀ p ∈ pairs, s'.postPhy2log p.1 = new p.2 ∧ s'.postReplicasIdx p.1 = newIdx p.2 := by
    intro p hp
    have hnot : p.1 ∉ (fill.zip remaining).map fst := by
      rw [hzipFst]
      exact fun h => hnodup.2.2 p.1 (mem_map_of_mem hp) p.1 h rfl
    rw [(hother p.1 hnot).1, (hother p.1 hnot).2]
    exact hs.post p hp
  refine ⟨σ, hσ, fun j hj => ?_⟩
  obtain ⟨p, hp, rfl⟩ : ∃ p ∈ pairs ++ fill.zip remaining, p.1 = j := by
    have hmem := hfst.mem_iff.2 (mem_range.2 hj)
    rw [← hzipFst, ← map_append] at hmem
    exact mem_map.1 hmem
  have hvalue : s'.postPhy2log p.1 = new p.2 ∧ s'.postReplicasIdx p.1 = newIdx p.2 := by
    rcases mem_append.1 hp with hp | hp
    · exact hfirst p hp
    · exact hassigned p hp
  refine ⟨hvalue.1.trans (congrArg new (hpairs p hp).symm),
    hvalue.2.trans (congrArg newIdx (hpairs p hp).symm), fun hcard => ?_⟩
  obtain ⟨q, hq, hqp⟩ := mem_map.1 (hs.kept p.1 hj hcard)
  rw [← hqp, (hfirst q hq).1]
  exact hs.same q hq

/-- The slots of all ranks are permuted within their ranks, if the old map has enough of them. -/
theorem preserveIntragpuSlots_spec {numRanks : ℕ} (hranks : 0 < numRanks)
    (phy2log phyReplicasIdx : ℕ → ℕ → ℕ)
    {oldMap : OldMap} (hold : numRanks * slots ≤ oldMap.numSlots) : ∃ post,
      preserveIntragpuSlots (numRanks * slots) phy2log phyReplicasIdx numRanks oldMap = some post ∧
      ∀ layer, ∃ σ : ℕ → ℕ → ℕ, (∀ k, Set.BijOn (σ k) (Set.Iio slots) (Set.Iio slots)) ∧
        ∀ p < numRanks * slots,
          post.1 layer p = phy2log layer (p / slots * slots + σ (p / slots) (p % slots)) ∧
          post.2 layer p = phyReplicasIdx layer (p / slots * slots + σ (p / slots) (p % slots)) ∧
          (((Finset.range (p % slots)).filter fun i =>
              oldMap.phy2log layer (p / slots * slots + i) = oldMap.phy2log layer p).card <
            ((Finset.range slots).filter fun i =>
              (phy2log layer (p / slots * slots + i) : ℤ) = oldMap.phy2log layer p).card →
            (post.1 layer p : ℤ) = oldMap.phy2log layer p) := by
  have hdiv : numRanks * slots / numRanks = slots := Nat.mul_div_cancel_left _ hranks
  unfold preserveIntragpuSlots
  rw [if_neg (not_or.2 ⟨hranks.ne', by rw [mul_mod_right]; simp⟩), if_neg (not_lt.2 hold)]
  simp only [hdiv]
  refine ⟨_, rfl, fun layer => ?_⟩
  have hspec := fun k => preserveSlots_spec slots (fun i => oldMap.phy2log layer (k * slots + i))
    (fun i => phy2log layer (k * slots + i)) fun i => phyReplicasIdx layer (k * slots + i)
  choose σ hσ hslots using hspec
  refine ⟨σ, hσ, fun p hp => ?_⟩
  obtain ⟨-, hmod⟩ := div_lt_of_lt_mul' hp
  obtain ⟨hlog, hidx, hkeep⟩ := hslots (p / slots) (p % slots) hmod
  simp only [div_add_mod'] at hkeep
  exact ⟨hlog, hidx, hkeep⟩

/-- With fewer slots in the old map there is an `IndexError`. -/
theorem preserveIntragpuSlots_eq_none {numRanks : ℕ} (hranks : 0 < numRanks) {oldMap : OldMap}
    (hold : oldMap.numSlots < numRanks * slots) (phy2log phyReplicasIdx : ℕ → ℕ → ℕ) :
    preserveIntragpuSlots (numRanks * slots) phy2log phyReplicasIdx numRanks oldMap = none := by
  unfold preserveIntragpuSlots
  rw [if_neg (not_or.2 ⟨hranks.ne', by rw [mul_mod_right]; simp⟩), if_pos hold]

end LoptVllm.Eplb
