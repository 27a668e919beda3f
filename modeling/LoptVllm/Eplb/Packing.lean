import LoptVllm.Eplb.Policy
import LoptVllm.Lib.Numbering
import Mathlib.Algebra.BigOperators.Intervals
import Mathlib.Tactic.Linarith

/-!
# Packing and replication

A packed row numbers the groups of each pack, and a replicated row numbers the slots of each expert.
-/

namespace LoptVllm.Eplb

open List Function Nat WithTop Packs

open Lib

variable (np : Numpy)

@[simp] theorem Numpy.add_top (a : WithTop ℚ) : np.add a ⊤ = ⊤ := map₂_top_right _ _

@[simp] theorem Numpy.top_add (a : WithTop ℚ) : np.add ⊤ a = ⊤ := map₂_top_left _ _

@[simp] theorem Numpy.div_eq_top {load : WithTop ℚ} {n : ℕ} : np.div load n = ⊤ ↔ load = ⊤ :=
  WithTop.map_eq_top_iff

theorem Numpy.add_eq_top {a b : WithTop ℚ} : np.add a b = ⊤ ↔ a = ⊤ ∨ b = ⊤ := map₂_eq_top_iff

variable {np} {m c n : ℕ} {weight : ℕ → WithTop ℚ}

/-! ### The groups of a pack -/

theorem Packs.add_packItems (s : Packs) (g j : ℕ) : (Packs.add np m c weight s g).packItems j =
    if j = argmin m s.packWeights then s.packItems j + 1 else s.packItems j := by
  unfold Packs.add
  simp only
  rw [update_apply]
  split_ifs with h
  · rw [h]
  · rfl

theorem Packs.add_packWeights (s : Packs) (g j : ℕ) : (Packs.add np m c weight s g).packWeights j =
    if j = argmin m s.packWeights then
      if s.packItems j + 1 = c then ⊤ else np.add (s.packWeights j) (weight g)
    else s.packWeights j := by
  unfold Packs.add
  simp only
  rw [update_apply]
  by_cases h : j = argmin m s.packWeights
  · rw [if_pos h, if_pos h, h]
  · rw [if_neg h, if_neg h]

/-- The row before the packing. -/
def Packs.empty : Packs where
  packIndex _ := 0
  rankInPack _ := 0
  packWeights _ := 0
  packItems _ := 0

/-- The packed groups are numbered in each pack. -/
def Packs.Numbered (m : ℕ) (l : List ℕ) (s : Packs) : Prop :=
  Numbers (l.toFinset : Set ℕ) (Set.Iio m) s.packIndex s.rankInPack s.packItems

theorem Packs.Numbered.empty : empty.Numbered m [] where
  mem _ h := absurd h (by simp)
  rank_lt _ h := absurd h (by simp)
  inj _ h := absurd h (by simp)
  surj _ _ _ h := absurd h (not_lt_zero _)

variable {s : Packs} {g : ℕ}

theorem Packs.Numbered.add {l : List ℕ} (hs : s.Numbered m l) (hm : 0 < m) (hg : g ∉ l) :
    (Packs.add np m c weight s g).Numbered m (l ++ [g]) := by
  have hset : ((l ++ [g]).toFinset : Set ℕ) = insert g (l.toFinset : Set ℕ) := by
    simp
  unfold Numbered
  rw [hset]
  exact hs.insert (by simpa using hg) (argmin_lt hm)

/-- The groups are distributed over the packs. -/
theorem Packs.Numbered.sum_packItems {l : List ℕ} (hs : s.Numbered m l) (hl : l.Nodup) :
    ∑ j ∈ Finset.range m, s.packItems j = l.length := by
  rw [← toFinset_card_of_nodup hl]
  have h : Numbers (l.toFinset : Set ℕ) (Finset.range m : Set ℕ) s.packIndex s.rankInPack s.packItems := by
    rw [Finset.coe_range]
    exact hs
  exact h.sum_count

/-- What a row of groups keeps, one group after the other. -/
theorem packs_induction {I : List ℕ → Packs → Prop} (hempty : I [] empty)
    (hadd : ∀ l g s, (l ++ [g]).Nodup → (∀ h ∈ l ++ [g], h < n) → (∀ h ∈ l, weight g ≤ weight h) →
      s.Numbered m l → I l s → I (l ++ [g]) (Packs.add np m c weight s g)) (hm : 0 < m) :
    I (np.argsort n weight) (packRow np n m c weight) ∧
      (packRow np n m c weight).Numbered m (np.argsort n weight) := by
  have hperm := np.argsort_perm n weight
  have hnodup : (np.argsort n weight).Nodup := hperm.nodup_iff.2 nodup_range
  have hfold : ∀ (rest l : List ℕ) (s : Packs), l ++ rest = np.argsort n weight → s.Numbered m l → I l s →
      I (np.argsort n weight) (rest.foldl (Packs.add np m c weight) s) ∧
        (rest.foldl (Packs.add np m c weight) s).Numbered m (np.argsort n weight) := by
    intro rest
    induction rest with
    | nil =>
      intro l s hl hs hI
      rw [← hl, append_nil]
      exact ⟨hI, hs⟩
    | cons g rest ih =>
      intro l s hl hs hI
      have hl' : l ++ [g] ++ rest = np.argsort n weight := by rw [append_assoc]; exact hl
      have hnodup' : (l ++ [g]).Nodup := (nodup_append.1 (hl' ▸ hnodup)).1
      have hg : g ∉ l := fun h => (nodup_append.1 hnodup').2.2 g h g (.head _) rfl
      refine ih _ _ hl' (hs.add hm hg) (hadd l g s hnodup' (fun h hh => ?_) (fun h hh => ?_) hs hI)
      · refine mem_range.1 (hperm.mem_iff.1 ?_)
        rw [← hl']
        exact mem_append_left _ hh
      · have hsorted := np.argsort_sorted n weight
        rw [← hl, pairwise_append] at hsorted
        exact hsorted.2.2 h hh g (.head _)
  exact hfold _ [] empty rfl Numbered.empty hempty

theorem packRow_numbers (hm : 0 < m) : Numbers (Set.Iio n) (Set.Iio m) (packRow np n m c weight).packIndex
    (packRow np n m c weight).rankInPack (packRow np n m c weight).packItems := by
  have h := (packs_induction (I := fun _ _ => True) trivial (fun _ _ _ _ _ _ _ _ => trivial) hm :
    True ∧ (packRow np n m c weight).Numbered m (np.argsort n weight)).2
  have hset : ((np.argsort n weight).toFinset : Set ℕ) = Set.Iio n := by
    ext a
    simp [(np.argsort_perm n weight).mem_iff]
  rw [← hset]
  exact h

theorem sum_packItems (hm : 0 < m) :
    ∑ j ∈ Finset.range m, (packRow np n m c weight).packItems j = n := by
  have h := (packs_induction (I := fun _ _ => True) trivial (fun _ _ _ _ _ _ _ _ => trivial) hm :
    True ∧ (packRow np n m c weight).Numbered m (np.argsort n weight)).2
  have hperm := np.argsort_perm n weight
  rw [h.sum_packItems (hperm.nodup_iff.2 nodup_range), hperm.length_eq, length_range]

/-! ### The capacity of a pack -/

/-- Full packs are masked out, and only they, except that pack 0 may have an infinite group. -/
structure Packs.Masked (m c : ℕ) (s : Packs) : Prop where
  le : ∀ j < m, s.packItems j ≤ c
  full : ∀ j < m, s.packItems j = c → s.packWeights j = ⊤
  masked : ∀ j < m, s.packWeights j = ⊤ → s.packItems j = c ∨ j = 0

theorem Packs.Masked.empty (hc : 0 < c) : empty.Masked m c where
  le _ _ := zero_le _
  full _ _ h := absurd h hc.ne
  masked _ _ h := absurd h zero_ne_top

theorem argmin_packWeights_empty (m : ℕ) : argmin m empty.packWeights = 0 := by
  by_contra hne
  have hfirst : empty.packWeights (argmin m empty.packWeights) < empty.packWeights 0 :=
    argmin_first (pos_of_ne_zero hne)
  exact lt_irrefl _ hfirst

/-- The lightest pack is not full. -/
theorem Packs.Masked.lt (hs : s.Masked m c) (hm : 0 < m)
    (htotal : ∑ j ∈ Finset.range m, s.packItems j < m * c) :
    s.packItems (argmin m s.packWeights) < c := by
  have hlt := argmin_lt (f := s.packWeights) hm
  refine lt_of_le_of_ne (hs.le _ hlt) fun hfull => ?_
  have htop := hs.full _ hlt hfull
  -- then no pack is open, which leaves pack 0
  have hall : ∀ j < m, s.packWeights j = ⊤ := by
    intro j hj
    have hle := argmin_le (f := s.packWeights) hj
    rw [htop] at hle
    exact top_le_iff.1 hle
  have hzero : argmin m s.packWeights = 0 := by
    by_contra hne
    have hfirst := argmin_first (pos_of_ne_zero hne)
    rw [htop, hall 0 hm] at hfirst
    exact lt_irrefl _ hfirst
  rw [hzero] at hfull
  have hsum : ∑ j ∈ Finset.range m, s.packItems j = ∑ j ∈ Finset.range m, c := by
    refine Finset.sum_congr rfl fun j hj => ?_
    have hj := Finset.mem_range.1 hj
    rcases hs.masked j hj (hall j hj) with h | rfl
    · exact h
    · exact hfull
  rw [hsum, Finset.sum_const, Finset.card_range] at htotal
  exact lt_irrefl _ htotal

theorem Packs.Masked.add (hs : s.Masked m c) (hlt : s.packItems (argmin m s.packWeights) < c)
    (hinfinite : weight g = ⊤ → argmin m s.packWeights = 0) :
    (Packs.add np m c weight s g).Masked m c := by
  constructor
  · intro j hj
    rw [add_packItems]
    by_cases hpack : j = argmin m s.packWeights
    · rw [if_pos hpack, hpack]
      exact hlt
    · rw [if_neg hpack]
      exact hs.le j hj
  · intro j hj hfull
    rw [add_packItems] at hfull
    rw [add_packWeights]
    by_cases hpack : j = argmin m s.packWeights
    · rw [if_pos hpack] at hfull ⊢
      exact if_pos hfull
    · rw [if_neg hpack] at hfull ⊢
      exact hs.full j hj hfull
  · intro j hj htop
    rw [add_packWeights] at htop
    rw [add_packItems]
    by_cases hpack : j = argmin m s.packWeights
    · rw [if_pos hpack] at htop ⊢
      rw [← hpack] at hlt
      by_cases hfull : s.packItems j + 1 = c
      · exact Or.inl hfull
      · rw [if_neg hfull, np.add_eq_top] at htop
        rcases htop with htop | htop
        · exact Or.inr ((hs.masked j hj htop).resolve_left hlt.ne)
        · exact Or.inr (hpack.trans (hinfinite htop))
    · rw [if_neg hpack] at htop ⊢
      exact hs.masked j hj htop

/-- No pack has more groups than it can hold, if at most one load is infinite. -/
theorem packItems_le (hm : 0 < m) (hc : 0 < c)
    (hweight : m = 1 ∨ ∀ g < m * c, ∀ h < m * c, weight g = ⊤ → weight h = ⊤ → g = h) {j : ℕ} (hj : j < m) :
    (packRow np (m * c) m c weight).packItems j ≤ c := by
  rcases hweight with rfl | hweight
  · have hsum := @sum_packItems np 1 c (1 * c) weight hm
    rw [Finset.sum_range_one, one_mul] at hsum
    rw [lt_one_iff.1 hj, one_mul, hsum]
  · refine (packs_induction (I := fun l s => (l = [] → s = empty) ∧ s.Masked m c)
      ⟨fun _ => rfl, .empty hc⟩ ?_ hm).1.2.le j hj
    rintro l g s hnodup hmem hsorted hnumbered ⟨hempty, hs⟩
    refine ⟨fun h => absurd h (by simp), hs.add (hs.lt hm ?_) fun htop => ?_⟩
    · -- there is a group left, so not all packs are full
      rw [hnumbered.sum_packItems (nodup_append.1 hnodup).1]
      have hle := (subperm_of_subset hnodup fun h hh => mem_range.2 (hmem h hh)).length_le
      rw [length_append, length_range, length_singleton] at hle
      exact hle
    · -- the infinite group is the first one
      have hl : l = [] := by
        refine eq_nil_iff_forall_not_mem.2 fun h hh => ?_
        have hge := hsorted h hh
        rw [htop, top_le_iff] at hge
        have hgh := hweight g (hmem g (by simp)) h (hmem h (mem_append_left _ hh)) htop hge
        exact (nodup_append.1 hnodup).2.2 h hh g (.head _) hgh.symm
      rw [hempty hl]
      exact argmin_packWeights_empty m

/-- The places of the groups, if no pack has more than it can hold. -/
theorem bijOn_place {packIndex rankInPack packItems : ℕ → ℕ}
    (h : Numbers (Set.Iio (m * c)) (Set.Iio m) packIndex rankInPack packItems)
    (hsum : ∑ j ∈ Finset.range m, packItems j = m * c) (hle : ∀ j < m, packItems j ≤ c) :
    Set.BijOn (fun g => packIndex g * c + rankInPack g) (Set.Iio (m * c)) (Set.Iio (m * c)) := by
  -- all packs are full
  have hfull : ∀ j < m, packItems j = c := by
    have hconst : ∑ j ∈ Finset.range m, packItems j = ∑ j ∈ Finset.range m, c := by
      rw [hsum, Finset.sum_const, Finset.card_range]
      rfl
    have hall := (Finset.sum_eq_sum_iff_of_le fun j hj => hle j (Finset.mem_range.1 hj)).1 hconst
    exact fun j hj => hall j (Finset.mem_range.2 hj)
  have hrank : ∀ g ∈ Set.Iio (m * c), rankInPack g < c := fun g hg =>
    (h.rank_lt g hg).trans_le (hle _ (h.mem g hg))
  refine ⟨fun g hg => block_lt (h.mem g hg) (hrank g hg), fun g hg g' hg' heq => ?_, fun p hp => ?_⟩
  · obtain ⟨hdiv, hmod⟩ := block_index (hrank g hg)
    obtain ⟨hdiv', hmod'⟩ := block_index (hrank g' hg')
    simp only at heq
    rw [heq] at hdiv hmod
    exact h.inj g hg g' hg' (hdiv.symm.trans hdiv') (hmod.symm.trans hmod')
  · obtain ⟨hk, hi⟩ := div_lt_of_lt_mul' hp
    obtain ⟨g, hg, hpack, hrankg⟩ := h.surj (p / c) hk (p % c) (by rwa [hfull _ hk])
    refine ⟨g, hg, ?_⟩
    simp only [hpack, hrankg]
    exact div_add_mod' p c

/-! ### Two infinite loads -/

/-- Packs 0 and 1 have an infinite group each, and pack 0 gets what does not fit elsewhere. -/
structure Packs.Overfull (m c : ℕ) (s : Packs) : Prop where
  zero : s.packWeights 0 = ⊤
  one : s.packWeights 1 = ⊤ ∧ s.packItems 1 = 1
  le : ∀ j < m, 2 ≤ j → s.packItems j ≤ c ∧ (s.packItems j = c → s.packWeights j = ⊤)

theorem Packs.Overfull.add (hs : s.Overfull m c) (g : ℕ) :
    (Packs.add np m c weight s g).Overfull m c := by
  -- pack 0 comes before all masked packs
  have hopen : 0 < argmin m s.packWeights → s.packWeights (argmin m s.packWeights) < ⊤ := by
    intro hpos
    have hlt := argmin_first hpos
    rwa [hs.zero] at hlt
  constructor
  · rw [add_packWeights, hs.zero, np.top_add, ite_self, ite_self]
  · have hne : 1 ≠ argmin m s.packWeights := by
      intro hone
      have hlt := hopen (hone ▸ one_pos)
      rw [← hone, hs.one.1] at hlt
      exact lt_irrefl _ hlt
    rw [add_packWeights, add_packItems, if_neg hne, if_neg hne]
    exact hs.one
  · intro j hj hge
    obtain ⟨hle, hfull⟩ := hs.le j hj hge
    rw [add_packWeights, add_packItems]
    by_cases hpack : j = argmin m s.packWeights
    · rw [if_pos hpack, if_pos hpack]
      refine ⟨lt_of_le_of_ne hle fun h => ?_, fun h => if_pos h⟩
      have hlt := hopen (by omega)
      rw [← hpack, hfull h] at hlt
      exact lt_irrefl _ hlt
    · rw [if_neg hpack, if_neg hpack]
      exact ⟨hle, hfull⟩

/-- The first two groups are infinite. -/
theorem Packs.Overfull.start (hm : 2 ≤ m) (hc : 2 ≤ c) {a b : ℕ} (ha : weight a = ⊤) (hb : weight b = ⊤) :
    (Packs.add np m c weight (Packs.add np m c weight empty a) b).Overfull m c := by
  obtain ⟨s, hs⟩ : ∃ s, s = Packs.add np m c weight empty a := ⟨_, rfl⟩
  have hweights : ∀ j, s.packWeights j = if j = 0 then ⊤ else 0 := by
    intro j
    rw [hs, add_packWeights, argmin_packWeights_empty, ha, np.add_top, ite_self]
    rfl
  have hitems : ∀ j, s.packItems j = if j = 0 then 1 else 0 := by
    intro j
    rw [hs, add_packItems, argmin_packWeights_empty]
    rfl
  have hpack : argmin m s.packWeights = 1 := by
    have hle : s.packWeights (argmin m s.packWeights) ≤ s.packWeights 1 := argmin_le (by omega)
    rw [hweights 1, if_neg one_ne_zero] at hle
    have hpos : argmin m s.packWeights ≠ 0 := by
      intro hzero
      rw [hzero, hweights, if_pos rfl] at hle
      exact zero_ne_top (top_le_iff.1 hle)
    by_contra hone
    have hlt : s.packWeights (argmin m s.packWeights) < s.packWeights 1 := argmin_first (by omega)
    rw [hweights, hweights, if_neg hpos, if_neg one_ne_zero] at hlt
    exact lt_irrefl _ hlt
  rw [← hs]
  constructor
  · rw [add_packWeights, hpack, if_neg zero_ne_one, hweights, if_pos rfl]
  · rw [add_packWeights, add_packItems, hpack, if_pos rfl, if_pos rfl, hb, np.add_top, ite_self,
      hitems, if_neg one_ne_zero]
    exact ⟨rfl, rfl⟩
  · intro j hj hge
    rw [add_packItems, hpack, if_neg (by omega), hitems, if_neg (by omega)]
    exact ⟨zero_le _, fun h => by omega⟩

/-- The heaviest groups come first. -/
theorem argsort_eq_cons {h : ℕ} (hg : g < n) (hh : h < n) (hne : g ≠ h) (hgtop : weight g = ⊤)
    (hhtop : weight h = ⊤) : ∃ a b rest, np.argsort n weight = a :: b :: rest ∧ weight a = ⊤ ∧
      weight b = ⊤ := by
  have hperm := np.argsort_perm n weight
  have hsorted := np.argsort_sorted n weight
  have hmem : ∀ g, g < n → g ∈ np.argsort n weight := fun g hg => hperm.mem_iff.2 (mem_range.2 hg)
  cases hlist : np.argsort n weight with
  | nil => exact absurd (hmem g hg) (by simp [hlist])
  | cons a rest =>
    cases rest with
    | nil =>
      have hga := hmem g hg
      have hha := hmem h hh
      rw [hlist, mem_singleton] at hga hha
      exact absurd (hga.trans hha.symm) hne
    | cons b rest =>
      rw [hlist] at hsorted hmem
      obtain ⟨hfirst, hrest⟩ := pairwise_cons.1 hsorted
      have hsecond := (pairwise_cons.1 hrest).1
      -- an entry is at least each one that comes after it
      have hatop : weight a = ⊤ := by
        rcases mem_cons.1 (hmem g hg) with rfl | hga
        · exact hgtop
        · exact top_le_iff.1 (hgtop ▸ hfirst g hga)
      have hbtop : ∀ x, x ∈ b :: rest → weight x = ⊤ → weight b = ⊤ := by
        intro x hx hxtop
        rcases mem_cons.1 hx with rfl | hx
        · exact hxtop
        · exact top_le_iff.1 (hxtop ▸ hsecond x hx)
      refine ⟨a, b, rest, rfl, hatop, ?_⟩
      rcases mem_cons.1 (hmem g hg) with rfl | hga
      · exact hbtop h ((mem_cons.1 (hmem h hh)).resolve_left (Ne.symm hne)) hhtop
      · exact hbtop g hga hgtop

/-- With two infinite loads there are two groups at one place. -/
theorem packRow_collision (hm : 2 ≤ m) (hc : 2 ≤ c) {h : ℕ} (hg : g < m * c) (hh : h < m * c)
    (hne : g ≠ h) (hgtop : weight g = ⊤) (hhtop : weight h = ⊤) : ∃ a < m * c, ∃ b < m * c, a ≠ b ∧
      (packRow np (m * c) m c weight).packIndex a * c + (packRow np (m * c) m c weight).rankInPack a =
        (packRow np (m * c) m c weight).packIndex b * c + (packRow np (m * c) m c weight).rankInPack b := by
  have hpos : 0 < m := by omega
  have hnumbers := @packRow_numbers np m c (m * c) weight hpos
  have hover : (packRow np (m * c) m c weight).Overfull m c := by
    obtain ⟨a, b, rest, hlist, ha, hb⟩ := @argsort_eq_cons np (m * c) weight g h hg hh hne hgtop hhtop
    have hfold : ∀ (rest : List ℕ) (s : Packs), s.Overfull m c →
        (rest.foldl (Packs.add np m c weight) s).Overfull m c := by
      intro rest
      induction rest with
      | nil => exact fun s hs => hs
      | cons g rest ih => exact fun s hs => ih _ (hs.add g)
    unfold packRow
    rw [hlist]
    exact hfold rest _ (.start hm hc ha hb)
  have hsum := @sum_packItems np m c (m * c) weight hpos
  have hzero : c < (packRow np (m * c) m c weight).packItems 0 := by
    have hbound : ∑ j ∈ Finset.range m, (packRow np (m * c) m c weight).packItems j ≤
        ∑ j ∈ Finset.range m, if j = 0 then (packRow np (m * c) m c weight).packItems 0
          else if j = 1 then 1 else c := by
      refine Finset.sum_le_sum fun j hj => ?_
      have hj := Finset.mem_range.1 hj
      split_ifs with h0 h1
      · rw [h0]
      · rw [h1, hover.one.2]
      · exact (hover.le j hj (by omega)).1
    obtain ⟨k, rfl⟩ : ∃ k, m = k + 2 := ⟨m - 2, by omega⟩
    rw [hsum, Finset.sum_range_succ', Finset.sum_range_succ'] at hbound
    simp at hbound
    nlinarith
  obtain ⟨a, ha, hpa, hra⟩ := hnumbers.surj 0 hpos c hzero
  obtain ⟨b, hb, hpb, hrb⟩ := hnumbers.surj 1 (by exact hm) 0 (by rw [hover.one.2]; exact one_pos)
  refine ⟨a, ha, b, hb, fun hab => ?_, ?_⟩
  · rw [hab, hpb] at hpa
    cases hpa
  · rw [hpa, hra, hpb, hrb, zero_mul, zero_add, one_mul, add_zero]

/-! ### Replication -/

/-- The slots of the experts are numbered. -/
theorem replicateRow_numbers {numLog numPhy : ℕ} (hlog : 0 < numLog) (hle : numLog ≤ numPhy)
    (load : ℕ → WithTop ℚ) :
    Numbers (Set.Iio numPhy) (Set.Iio numLog) (replicateRow np numLog numPhy load).phy2log
      (replicateRow np numLog numPhy load).replicaIdx (replicateRow np numLog numPhy load).logcnt ∧
    ∀ l < numLog, 0 < (replicateRow np numLog numPhy load).logcnt l := by
  -- the slots below `numLog + k` are assigned
  have hfold : ∀ k, ∀ s, s = (List.range' numLog k).foldl (Replicas.add np numLog load)
      { phy2log := id, replicaIdx := fun _ => 0, logcnt := fun _ => 1 } →
      Numbers (Set.Iio (numLog + k)) (Set.Iio numLog) s.phy2log s.replicaIdx s.logcnt ∧
        ∀ l, 0 < s.logcnt l := by
    intro k
    induction k with
    | zero =>
      rintro s rfl
      refine ⟨⟨fun p hp => hp, fun _ _ => one_pos, fun p _ q _ h _ => h, fun l hl j hj => ?_⟩,
        fun _ => one_pos⟩
      exact ⟨l, hl, rfl, (lt_one_iff.1 hj).symm⟩
    | succ k ih =>
      rintro s rfl
      rw [range'_concat, foldl_append, one_mul]
      obtain ⟨hnumbers, hpos⟩ := ih _ rfl
      refine ⟨?_, fun l => ?_⟩
      · have hset : Set.Iio (numLog + (k + 1)) = insert (numLog + k) (Set.Iio (numLog + k)) := by
          ext p
          simp only [Set.mem_Iio, Set.mem_insert_iff]
          omega
        rw [hset]
        exact hnumbers.insert (lt_irrefl (numLog + k)) (argmax_lt hlog)
      · simp only [foldl_cons, foldl_nil, Replicas.add, update_apply]
        split_ifs
        · exact succ_pos _
        · exact hpos l
  obtain ⟨hnumbers, hpos⟩ := hfold (numPhy - numLog) _ rfl
  rw [Nat.add_sub_cancel' hle] at hnumbers
  exact ⟨hnumbers, fun l _ => hpos l⟩

/-- At most one replica has an infinite load: no expert has one, or a single expert, and there are no
further replicas. -/
def Lone (numLog numPhy : ℕ) (load : ℕ → WithTop ℚ) : Prop :=
  ∀ l < numLog, load l = ⊤ → numPhy = numLog ∧ ∀ l' < numLog, load l' = ⊤ → l = l'

variable {numLog numPhy : ℕ} {load : ℕ → WithTop ℚ}

/-- A slot that is not assigned keeps its expert. -/
theorem foldl_add_phy2log {p : ℕ} : ∀ {l : List ℕ} {s : Replicas}, p ∉ l →
    (l.foldl (Replicas.add np numLog load) s).phy2log p = s.phy2log p
  | [], _, _ => rfl
  | i :: l, s, h => by
    obtain ⟨hne, hl⟩ := not_or.1 (mt mem_cons.2 h)
    rw [foldl_cons, foldl_add_phy2log hl]
    exact update_of_ne hne ..

theorem replicateRow_phy2log {p : ℕ} (hp : p < numLog) :
    (replicateRow np numLog numPhy load).phy2log p = p :=
  foldl_add_phy2log fun h => absurd (mem_range'_1.1 h).1 (not_le.2 hp)

/-- The first further replica is one of an expert with an infinite load, if there is one. -/
theorem load_first_replica (hlt : numLog < numPhy) {l : ℕ} (hl : l < numLog) (htop : load l = ⊤) :
    load ((replicateRow np numLog numPhy load).phy2log numLog) = ⊤ := by
  obtain ⟨k, rfl⟩ : ∃ k, numPhy = numLog + (k + 1) := ⟨numPhy - numLog - 1, by omega⟩
  unfold replicateRow
  rw [Nat.add_sub_cancel_left, range'_succ, foldl_cons,
    foldl_add_phy2log fun h => absurd (mem_range'_1.1 h).1 (not_le.2 (lt_succ_self _))]
  simp only [Replicas.add, update_self]
  refine np.div_eq_top.1 (top_le_iff.1 ?_ : np.div _ 1 = ⊤)
  rw [← np.div_eq_top.2 htop]
  exact le_argmax (f := fun l => np.div (load l) 1) hl

/-- With several infinite loads there are two replicas with one. -/
theorem exists_two_replicas (hle : numLog ≤ numPhy) (h : ¬Lone numLog numPhy load) :
    ∃ p < numPhy, ∃ q < numPhy, p ≠ q ∧ load ((replicateRow np numLog numPhy load).phy2log p) = ⊤ ∧
      load ((replicateRow np numLog numPhy load).phy2log q) = ⊤ := by
  unfold Lone at h
  push Not at h
  obtain ⟨l, hl, htop, h⟩ := h
  rcases hle.eq_or_lt with rfl | hlt
  · obtain ⟨l', hl', htop', hne⟩ := h rfl
    exact ⟨l, hl, l', hl', hne, by rwa [replicateRow_phy2log hl], by rwa [replicateRow_phy2log hl']⟩
  · exact ⟨l, hl.trans hlt, numLog, hlt, hl.ne, by rwa [replicateRow_phy2log hl],
      load_first_replica hlt hl htop⟩

theorem Lone.eq_of_top (h : Lone numLog numPhy load) (hlog : 0 < numLog) (hle : numLog ≤ numPhy) {p q : ℕ}
    (hp : p < numPhy) (hq : q < numPhy) (hptop : load ((replicateRow np numLog numPhy load).phy2log p) = ⊤)
    (hqtop : load ((replicateRow np numLog numPhy load).phy2log q) = ⊤) : p = q := by
  have hmem := (@replicateRow_numbers np numLog numPhy hlog hle load).1.mem
  obtain ⟨rfl, hone⟩ := h _ (hmem p hp) hptop
  have heq := hone _ (hmem q hq) hqtop
  rwa [replicateRow_phy2log hp, replicateRow_phy2log hq] at heq

end LoptVllm.Eplb
