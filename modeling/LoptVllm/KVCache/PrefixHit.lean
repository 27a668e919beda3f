import LoptVllm.KVCache.Hybrid
import LoptVllm.KVCache.Manager

/-!
# Prefix hits

Whatever the flags, the lists that a cache lookup returns have one form: in the list of a group, a
block is either the null block or the one that is cached under the hash at its place, and the blocks
that the attention window has not passed are not null.
-/

namespace LoptVllm.KVCache

open List Option Except Nat AttentionKind

variable {δ : Type}

/-- `blocks` is a hit of `L` tokens for a group: its blocks are cached under the hashes at their
places, or null blocks in front of the attention window. Chunks that are no whole number of blocks
have no window that starts with a block. -/
structure PrefixHit (lookup : BlockHash δ → ℕ → Option ℕ) (nullBlock : ℕ)
    (hashes : List (BlockHash δ)) (groupId blockSize : ℕ) (kind : AttentionKind) (L : ℕ)
    (blocks : List ℕ) : Prop where
  length : blocks.length * blockSize = L
  block : ∀ i b : ℕ, blocks[i]? = some b →
    b = nullBlock ∨ ∃ h, hashes[i]? = some h ∧ lookup h groupId = some b
  window : (∀ c, kind = .chunkedLocal c → blockSize ∣ c) →
    ∀ i b : ℕ, blocks[i]? = some b → kind.getNumSkippedTokens L / blockSize ≤ i →
      ∃ h, hashes[i]? = some h ∧ lookup h groupId = some b
  cross : kind = .cross → blocks = []

/-- The first `n` cells where `p` holds are a hit: they are cached, and `p` holds in the attention
window. -/
structure Covers (lookup : BlockHash δ → ℕ → Option ℕ) (hashes : List (BlockHash δ))
    (gids : List ℕ) (blockSize : ℕ) (kind : AttentionKind) (p : ℕ → Prop) (n : ℕ) : Prop where
  hit : ∀ i < n, p i → Hit lookup hashes gids i
  window : (∀ c, kind = .chunkedLocal c → blockSize ∣ c) →
    ∀ i < n, kind.getNumSkippedTokens (n * blockSize) / blockSize ≤ i → p i
  ne_cross : kind ≠ .cross

variable {lookup : BlockHash δ → ℕ → Option ℕ} {nullBlock : ℕ} {hashes : List (BlockHash δ)}
  {gids : List ℕ} {blockSize : ℕ} {kind : AttentionKind} {p : ℕ → Prop} [DecidablePred p] {n : ℕ}

theorem Covers.prefixHit (h : Covers lookup hashes gids blockSize kind p n) {g : ℕ}
    (hg : g ∈ gids) : PrefixHit lookup nullBlock hashes g blockSize kind (n * blockSize)
      (cells lookup nullBlock hashes p n g) := by
  have hget : ∀ i b, (cells lookup nullBlock hashes p n g)[i]? = some b →
      i < n ∧ b = if p i then cell lookup nullBlock hashes i g else nullBlock := by
    intro i b hb
    have hi : i < n := by
      have := (List.getElem?_eq_some_iff.1 hb).1
      rwa [length_cells] at this
    rw [cells, getElem?_map, getElem?_range hi, map_some] at hb
    exact ⟨hi, (some.inj hb).symm⟩
  have hcell : ∀ i < n, p i → ∃ h, hashes[i]? = some h ∧
      lookup h g = some (cell lookup nullBlock hashes i g) :=
    fun i hi hp => (h.hit i hi hp).cell hg
  refine ⟨by rw [length_cells], fun i b hb => ?_, fun hc i b hb hi => ?_,
    fun hcross => absurd hcross h.ne_cross⟩
  · obtain ⟨hi, rfl⟩ := hget i b hb
    split_ifs with hp
    · exact .inr (hcell i hi hp)
    · exact .inl rfl
  · obtain ⟨hin, rfl⟩ := hget i b hb
    have hp := h.window hc i hin hi
    rw [if_pos hp]
    exact hcell i hin hp

/-- The blocks of the sliding window manager: `n` of `m` blocks are left, and `need` were looked
for. -/
theorem covers_slidingWindow {w need m : ℕ} (hbs : 0 < blockSize) (hnm : n ≤ m)
    (hneed : m + cdiv (w - 1) blockSize ≤ n + need) (hhit : SlidingHit lookup hashes gids need m) :
    Covers lookup hashes gids blockSize (.slidingWindow w) (fun i => m ≤ i + need) n := by
  refine ⟨fun i hi hp => hhit i (hi.trans_le hnm) hp, fun _ i hi hskip => ?_, nofun⟩
  obtain ⟨k, rfl⟩ := Nat.exists_eq_add_of_lt hi
  have hlt : (slidingWindow w).getNumSkippedTokens ((i + k + 1) * blockSize) <
      (i + 1) * blockSize := by
    rw [← div_lt_iff_lt_mul hbs]
    exact lt_succ_of_le hskip
  -- the window reaches back over `cdiv (w - 1) blockSize` blocks
  have hk : k < cdiv (w - 1) blockSize := by
    have hcdiv := le_cdiv_mul (a := w - 1) hbs
    have hsum : (i + k + 1) * blockSize = (i + 1) * blockSize + k * blockSize := by
      rw [add_right_comm, Nat.add_mul]
    simp only [getNumSkippedTokens] at hlt
    by_contra hge
    have := mul_le_mul_right blockSize (not_lt.1 hge)
    omega
  omega

theorem covers_chunkedLocal {c maxLength : ℕ} (hbs : 0 < blockSize) (hc : 0 < c)
    (hs : maxLength / c * c / blockSize ≤ n) (hn : n ≤ maxLength / blockSize)
    (hhit : ∀ j, maxLength / c * c / blockSize ≤ j → j < n → Hit lookup hashes gids j) :
    Covers lookup hashes gids blockSize (.chunkedLocal c)
      (fun j => maxLength / c * c / blockSize ≤ j) n := by
  refine ⟨fun i hi hp => hhit i hp hi, fun hdvd i _ hskip => ?_, nofun⟩
  rwa [getNumSkippedTokens, chunk_start_eq hbs hc (hdvd c rfl) maxLength n hs hn] at hskip

theorem covers_mamba {k : ℕ} (hbs : 0 < blockSize)
    (hhit : ∀ j, j + 1 = n → Hit lookup hashes gids j) :
    Covers lookup hashes gids blockSize (.mamba k) (fun j => j + 1 = n) n := by
  refine ⟨fun i _ hp => hhit i hp, fun _ i hi hskip => ?_, nofun⟩
  have hlt : n * blockSize - 1 < (i + 1) * blockSize := by
    rw [← div_lt_iff_lt_mul hbs]
    exact lt_succ_of_le hskip
  have : n ≤ i + 1 := by
    by_contra hgt
    have := mul_le_mul_right blockSize (not_le.1 hgt)
    rw [add_one_mul] at this
    omega
  omega

/-- **What the managers find.** All groups get the same number of cells of a hit, and once a cell is
a cached block, so are those after it. -/
theorem findLongestCacheHit_cells {spec : KVCacheSpec} {maxLength alignment worldSize : ℕ}
    {useEagle : Bool} {found : List (List ℕ)} (hworld : 0 < worldSize) (hg : gids ≠ [])
    (hlen : maxLength / (spec.blockSize * worldSize) ≤ hashes.length)
    (hfind : findLongestCacheHit lookup nullBlock hashes maxLength gids spec useEagle alignment
      worldSize = .ok found) :
    ∃ n p, ∃ _ : DecidablePred p, found = gids.map (cells lookup nullBlock hashes p n) ∧
      n * (spec.blockSize * worldSize) ≤ maxLength ∧
      Aligned (spec.blockSize * worldSize) alignment n ∧
      Covers lookup hashes gids (spec.blockSize * worldSize) spec.kind p n ∧
      ∀ i j, i ≤ j → j < n → p i → p j := by
  have hbs := spec.blockSize_pos
  have hbsw := Nat.mul_pos hbs hworld
  -- a full attention manager finds the whole run of hits
  by_cases hfull : spec.kind ≠ .cross ∧
      findFull lookup hashes maxLength gids (spec.blockSize * worldSize) useEagle alignment = found
  · obtain ⟨hcross, rfl⟩ := hfull
    obtain ⟨n, hcells, hn, halign, hhit, -⟩ := findFull_cells lookup nullBlock hashes
      (spec.blockSize * worldSize) alignment hg maxLength useEagle
    exact ⟨n, fun _ => True, inferInstance, hcells, (le_div_iff_mul_le hbsw).1 hn, halign,
      ⟨fun i hi _ => hhit i hi, fun _ _ _ _ => trivial, hcross⟩, fun _ _ _ _ _ => trivial⟩
  unfold findLongestCacheHit at hfind
  cases hk : spec.kind with
  | full =>
    simp only [hk] at hfind hfull
    exact absurd ⟨by rintro ⟨⟩, ok.inj hfind⟩ hfull
  | sinkFull k =>
    simp only [hk] at hfind hfull
    exact absurd ⟨by rintro ⟨⟩, ok.inj hfind⟩ hfull
  | cross =>
    simp only [hk] at hfind
    cases hfind
  | slidingWindow w =>
    simp only [hk] at hfind
    split_ifs at hfind with hone
    rw [not_not] at hone
    subst hone
    rw [mul_one] at hlen ⊢
    obtain ⟨n, hn, halign, hhit, -, heq⟩ := findSliding_cells lookup nullBlock w alignment hg
      useEagle hlen
    rw [heq] at hfind
    rw [le_div_iff_mul_le hbs] at hn
    split_ifs at hfind with heagle halignment
    · -- with EAGLE the last block is dropped again
      obtain ⟨he, hne⟩ := heagle
      rw [not_not] at halignment
      subst halignment he
      refine ⟨n - 1, _, inferInstance, (ok.inj hfind).symm,
        (mul_le_mul_right _ (sub_le n 1)).trans hn, ⟨n - 1, mul_comm _ _⟩,
        covers_slidingWindow hbs (sub_le n 1) ?_ hhit, fun i j hij _ hi => by omega⟩
      simp only [slidingNeed, if_true]
      omega
    · refine ⟨n, _, inferInstance, (ok.inj hfind).symm, hn, halign,
        covers_slidingWindow hbs le_rfl ?_ hhit, fun i j hij _ hi => by omega⟩
      simp only [slidingNeed]
      split_ifs <;> omega
  | chunkedLocal c =>
    simp only [hk] at hfind
    have hcond : useEagle = false ∧ worldSize = 1 ∧ spec.blockSize = alignment := by
      unfold findChunked at hfind
      split_ifs at hfind with he hone hal
      rw [not_not] at hone hal
      exact ⟨by simpa using he, hone, hal⟩
    obtain ⟨rfl, rfl, rfl⟩ := hcond
    rw [mul_one] at hlen ⊢
    obtain ⟨n, hs, hn, heq, hhit, -⟩ := findChunked_cells lookup nullBlock gids spec.blockSize c
      hlen
    rw [heq] at hfind
    exact ⟨n, _, inferInstance, (ok.inj hfind).symm, (le_div_iff_mul_le hbs).1 hn,
      ⟨n, mul_comm _ _⟩, covers_chunkedLocal hbs (spec.chunkSize_pos c hk) hs hn hhit,
      fun i j hij _ hi => hi.trans hij⟩
  | mamba k =>
    simp only [hk] at hfind
    split_ifs at hfind with hone
    rw [not_not] at hone
    subst hone
    rw [mul_one] at hlen ⊢
    obtain ⟨n, hn, heq, halign, hhit, -⟩ := mambaLoop_cells lookup nullBlock gids spec.blockSize
      alignment _ hlen
    rw [heq] at hfind
    exact ⟨n, _, inferInstance, (ok.inj hfind).symm, (le_div_iff_mul_le hbs).1 hn,
      halign, covers_mamba hbs hhit, fun i j hij hj hi => by omega⟩

/-! ### The hybrid coordinator -/

theorem getNumSkippedTokens_of_isFullAttention {spec : KVCacheSpec} (h : spec.isFullAttention)
    (m : ℕ) : spec.kind.getNumSkippedTokens m = 0 := by
  unfold KVCacheSpec.isFullAttention at h
  unfold getNumSkippedTokens
  split at h <;> simp_all

namespace HybridKVCacheCoordinator

variable {c : HybridKVCacheCoordinator} {hashes : List δ} {hitBlocks hitBlocks' : HitBlocks}
  {a : AttentionGroup} {L m : ℕ}

section

variable (c) (lookup) (nullBlock) (hashes)

/-- The lists of an attention type are those of a hit of `L` tokens; once a cell is a cached block, so
are those after it. -/
def HoldsHit (hitBlocks : HitBlocks) (a : AttentionGroup) (L : ℕ) : Prop :=
  ∃ n p, ∃ _ : DecidablePred p, n * a.spec.blockSize = L ∧ (∀ g ∈ a.groupIds, hitBlocks g =
      some (cells lookup nullBlock (c.getBlockHashes hashes a.spec) p n g)) ∧
    Covers lookup (c.getBlockHashes hashes a.spec) a.groupIds a.spec.blockSize a.spec.kind p n ∧
    ∀ i j, i ≤ j → j < n → p i → p j

/-- If a full attention group has lists, they are those of a hit that is at least as long. -/
def ReadyHit (hitBlocks : HitBlocks) (a : AttentionGroup) (currHitLength : ℕ) : Prop :=
  a.spec.isFullAttention → (hitBlocks (a.groupIds.headD 0)).isSome →
    ∃ L, currHitLength ≤ L ∧ c.HoldsHit lookup nullBlock hashes hitBlocks a L

end

/-- One step, if it does not fail. -/
theorem groupStep_holdsHit (ha : a ∈ c.attentionGroups)
    (hready : c.ReadyHit lookup nullBlock hashes hitBlocks a m)
    (hlen : m / c.hashBlockSize ≤ hashes.length)
    (hstep : c.groupStep lookup nullBlock hashes a hitBlocks m = .ok (hitBlocks', L)) :
    L ≤ m ∧ c.HoldsHit lookup nullBlock hashes hitBlocks' a L ∧
      ∀ g, g ∉ a.groupIds → hitBlocks' g = hitBlocks g := by
  have hbs := a.spec.blockSize_pos
  unfold groupStep at hstep
  split_ifs at hstep with hcached
  · -- the lists of the first round are truncated
    obtain ⟨hfull, hsome⟩ := Bool.and_eq_true_iff.1 hcached
    obtain ⟨-, hm, n, p, _, rfl, hholds, hcovers, hup⟩ := hready hfull hsome
    have hskip := getNumSkippedTokens_of_isFullAttention hfull
    have hnum : m / a.spec.blockSize ≤ n := by
      rw [← Nat.mul_div_cancel n hbs]
      exact Nat.div_le_div_right hm
    simp only [truncateBlocks_of_forall hholds, pure] at hstep
    cases hstep
    refine ⟨div_mul_le_self _ _, ⟨_, p, inferInstance, rfl, fun g hg => ?_,
      ⟨?_, ?_, hcovers.ne_cross⟩, fun i j hij hj => hup i j hij (hj.trans_le hnum)⟩,
      fun g hg => if_neg hg⟩
    · refine (if_pos hg).trans ?_
      rw [take_cells hnum]
    · exact fun i hi hp => hcovers.hit i (hi.trans_le hnum) hp
    · intro hc i hi _
      refine hcovers.window hc i (hi.trans_le hnum) ?_
      rw [hskip, Nat.zero_div]
      exact zero_le i
  · obtain ⟨found, hfind, hstep⟩ := bind_ok.1 hstep
    have hne := c.splits.ne_nil a ha
    have hhashes := length_getBlockHashes (spec_mem ha) hlen
    rw [← mul_one a.spec.blockSize] at hhashes
    obtain ⟨n, p, _, rfl, hn, -, hcovers, hup⟩ :=
      findLongestCacheHit_cells one_pos hne hhashes hfind
    rw [mul_one] at hn hcovers
    simp only [setBlocks_map, headD_map_cells hne] at hstep
    cases hstep
    exact ⟨hn, ⟨n, p, inferInstance, rfl, fun g hg => if_pos hg, hcovers, hup⟩,
      fun g hg => if_neg hg⟩

theorem HoldsHit.of_eq (h : c.HoldsHit lookup nullBlock hashes hitBlocks a L)
    (heq : ∀ g ∈ a.groupIds, hitBlocks' g = hitBlocks g) :
    c.HoldsHit lookup nullBlock hashes hitBlocks' a L := by
  obtain ⟨n, p, hp, hn, hholds, hcovers, hup⟩ := h
  exact ⟨n, p, hp, hn, fun g hg => (heq g hg).trans (hholds g hg), hcovers, hup⟩

theorem ReadyHit.of_eq {m' : ℕ} (h : c.ReadyHit lookup nullBlock hashes hitBlocks a m)
    (hne : a.groupIds ≠ []) (heq : ∀ g ∈ a.groupIds, hitBlocks' g = hitBlocks g) (hm : m' ≤ m) :
    c.ReadyHit lookup nullBlock hashes hitBlocks' a m' := by
  intro hfull hsome
  rw [heq _ (headD_mem hne)] at hsome
  obtain ⟨L, hL, hholds⟩ := h hfull hsome
  exact ⟨L, hm.trans hL, hholds.of_eq heq⟩

/-- A round; afterwards each group holds a hit between the two ends of the round. -/
theorem roundStep_holdsHit (groups : List AttentionGroup)
    (hsub : ∀ a ∈ groups, a ∈ c.attentionGroups) (hnodup : (groups.map AttentionGroup.spec).Nodup)
    (hready : ∀ a ∈ groups, c.ReadyHit lookup nullBlock hashes hitBlocks a m)
    (hlen : m / c.hashBlockSize ≤ hashes.length)
    (hround : c.roundStep lookup nullBlock hashes groups hitBlocks m = .ok (hitBlocks', L)) :
    L ≤ m ∧ (∀ a ∈ groups, ∃ k, L ≤ k ∧ k ≤ m ∧ c.HoldsHit lookup nullBlock hashes hitBlocks' a k) ∧
      ∀ g, (∀ a ∈ groups, g ∉ a.groupIds) → hitBlocks' g = hitBlocks g := by
  induction groups generalizing hitBlocks m with
  | nil =>
    cases hround
    exact ⟨le_rfl, nofun, fun _ _ => rfl⟩
  | cons a groups ih =>
    obtain ⟨ha, hgroups⟩ := forall_mem_cons.1 hsub
    obtain ⟨haready, hready⟩ := forall_mem_cons.1 hready
    obtain ⟨hna, hnodup⟩ := nodup_cons.1 hnodup
    have hdisj := notMem_groupIds ha hgroups hna
    obtain ⟨⟨hitBlocks₁, x⟩, hstep, hround⟩ := bind_ok.1 hround
    obtain ⟨hx, hholds, hframe⟩ := groupStep_holdsHit ha haready hlen hstep
    obtain ⟨hL, hall, hframe'⟩ := ih hgroups hnodup
      (fun b hb => (hready b hb).of_eq (c.splits.ne_nil b (hgroups b hb))
        (fun g hg => hframe g (hdisj b hb g hg)) hx)
      ((Nat.div_le_div_right hx).trans hlen) hround
    refine ⟨hL.trans hx, forall_mem_cons.2 ⟨⟨x, hL, hx, hholds.of_eq fun g hg =>
      hframe' g fun b hb hgb => hdisj b hb g hgb hg⟩, fun b hb => ?_⟩, fun g hg => ?_⟩
    · obtain ⟨k, hLk, hkx, hk⟩ := hall b hb
      exact ⟨k, hLk, hkx.trans hx, hk⟩
    · obtain ⟨hga, hgs⟩ := forall_mem_cons.1 hg
      rw [hframe' g hgs, hframe g hga]

/-- In the last round all groups hold the hit that the loop returns. -/
theorem descend_holdsHit
    (hready : ∀ a ∈ c.attentionGroups, c.ReadyHit lookup nullBlock hashes hitBlocks a m)
    (hlen : m / c.hashBlockSize ≤ hashes.length)
    (hloop : c.descend lookup nullBlock hashes hitBlocks m = .ok (hitBlocks', L)) :
    L ≤ m ∧ ∀ a ∈ c.attentionGroups, c.HoldsHit lookup nullBlock hashes hitBlocks' a L := by
  induction m using Nat.strong_induction_on generalizing hitBlocks with
  | _ m ih =>
    rw [descend] at hloop
    split at hloop
    · cases hloop
    · next hitBlocks₁ x hround =>
      obtain ⟨hx, hall, -⟩ := roundStep_holdsHit c.attentionGroups (fun _ h => h) c.splits.nodup
        hready hlen hround
      split_ifs at hloop with hlt
      · obtain ⟨hL, hholds⟩ := ih x hlt (fun a ha _ _ => by
          obtain ⟨k, hxk, -, hk⟩ := hall a ha
          exact ⟨k, hxk, hk⟩) ((Nat.div_le_div_right hx).trans hlen) hloop
        exact ⟨hL.trans hx, hholds⟩
      · cases hloop
        refine ⟨le_rfl, fun a ha => ?_⟩
        obtain ⟨k, hxk, hkm, hk⟩ := hall a ha
        rwa [le_antisymm hkm ((not_lt.1 hlt).trans hxk)] at hk

variable {blocks : List (List ℕ)} {maxCacheHitLength : ℕ}

theorem findLongestCacheHit_holdsHit (hlen : maxCacheHitLength / c.hashBlockSize ≤ hashes.length)
    (hfind : c.findLongestCacheHit lookup nullBlock hashes maxCacheHitLength = .ok (blocks, L)) :
    L ≤ maxCacheHitLength ∧ ∃ hitBlocks,
      blocks = (List.range c.specs.length).map (fun g => (hitBlocks g).getD []) ∧
        ∀ a ∈ c.attentionGroups, c.HoldsHit lookup nullBlock hashes hitBlocks a L := by
  obtain ⟨⟨hitBlocks, hitLength⟩, hloop, hret⟩ := bind_ok.1 hfind
  cases hret
  obtain ⟨hL, hholds⟩ := descend_holdsHit (fun a _ _ hsome => by cases hsome) hlen hloop
  exact ⟨hL, hitBlocks, rfl, hholds⟩

/-- **What the hybrid coordinator finds.** If the lookup does not fail, the list of each group is a
hit of the length it returns, with or without EAGLE. -/
theorem findLongestCacheHit_prefixHit (hlen : maxCacheHitLength / c.hashBlockSize ≤ hashes.length)
    (hfind : c.findLongestCacheHit lookup nullBlock hashes maxCacheHitLength = .ok (blocks, L)) :
    L ≤ maxCacheHitLength ∧ blocks.length = c.specs.length ∧
      ∀ g spec, c.specs[g]? = some spec → ∃ l, blocks[g]? = some l ∧
        PrefixHit lookup nullBlock (c.getBlockHashes hashes spec) g spec.blockSize spec.kind L
          l := by
  obtain ⟨hL, hitBlocks, rfl, hholds⟩ := findLongestCacheHit_holdsHit hlen hfind
  refine ⟨hL, by simp, fun g spec hg => ?_⟩
  obtain ⟨a, ha, rfl, hga⟩ := c.splits.exists_mem g spec hg
  obtain ⟨n, p, _, rfl, hcells, hcovers, -⟩ := hholds a ha
  refine ⟨_, ?_, hcovers.prefixHit hga⟩
  rw [getElem?_map, getElem?_range (List.getElem?_eq_some_iff.1 hg).1, map_some,
    hcells g hga, getD_some]

end HybridKVCacheCoordinator

end LoptVllm.KVCache
