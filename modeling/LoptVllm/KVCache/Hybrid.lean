import LoptVllm.KVCache.ValidHit
import Mathlib.Data.List.Induction
import Mathlib.Data.List.Nodup
import Mathlib.Data.List.Perm.Basic
import Mathlib.Algebra.Order.Group.Nat

/-!
# The longest cache hit of a hybrid model

`HybridKVCacheCoordinator.find_longest_cache_hit` asks the manager of each attention type in turn
for its longest hit, with the hit of the one before as the limit, until a round leaves the length
as it is. The lists of full attention groups are computed in the first round and truncated in the
later ones.
-/

namespace LoptVllm.KVCache

open List Function Option Nat

open Descending

/-- An entry of `attention_groups`. -/
structure AttentionGroup where
  spec : KVCacheSpec
  groupIds : List ℕ
  deriving DecidableEq

/-- The inner loop of `verify_and_split_kv_cache_groups`, with its `else` branch. -/
def addGroup (i : ℕ) (spec : KVCacheSpec) : List AttentionGroup → List AttentionGroup
  | [] => [⟨spec, [i]⟩]
  | a :: groups =>
    if a.spec = spec then ⟨a.spec, a.groupIds ++ [i]⟩ :: groups else a :: addGroup i spec groups

/-- The attention groups in the order of their first layers. -/
def splitGroups (specs : List KVCacheSpec) : List AttentionGroup :=
  specs.zipIdx.foldl (fun groups g => addGroup g.2 g.1 groups) []

/-- `sorted(attention_groups, key=lambda x: not isinstance(x[0], FullAttentionSpec))`. -/
def fullFirst (groups : List AttentionGroup) : List AttentionGroup :=
  groups.filter (fun a => a.spec.isFullAttention) ++ groups.filter fun a => !a.spec.isFullAttention

/-- The coordinator, with the conditions its constructor asserts. -/
structure HybridKVCacheCoordinator where
  specs : List KVCacheSpec
  hashBlockSize : ℕ
  useEagle : Bool
  hash_dvd : ∀ spec ∈ specs, hashBlockSize ∣ spec.blockSize
  one_lt : 1 < (splitGroups specs).length

/-- `HybridKVCacheCoordinator.__init__`. -/
def HybridKVCacheCoordinator.new (specs : List KVCacheSpec) (hashBlockSize : ℕ) (useEagle : Bool)
    (dcpWorldSize pcpWorldSize : ℕ) : Except PyErr HybridKVCacheCoordinator :=
  if hdvd : ∀ spec ∈ specs, hashBlockSize ∣ spec.blockSize then
    if dcpWorldSize ≠ 1 then .error (.assertionError "DCP not support hybrid attn now.")
    else if pcpWorldSize ≠ 1 then .error (.assertionError "PCP not support hybrid attn now.")
    else if hlt : 1 < (splitGroups specs).length then
      .ok ⟨specs, hashBlockSize, useEagle, hdvd, hlt⟩
    else
      .error (.assertionError "HybridKVCacheCoordinator requires at least two attention groups.")
  else .error (.assertionError "block_size must be divisible by hash_block_size")

/-- `hit_blocks_by_group`. -/
abbrev HitBlocks := ℕ → Option (List ℕ)

/-- `for group_id, blocks in zip(group_ids, hit_blocks)`. -/
def setBlocks : List ℕ → List (List ℕ) → HitBlocks → HitBlocks
  | g :: gids, blocks :: found, hitBlocks =>
    setBlocks gids found (update hitBlocks g (some blocks))
  | _, _, hitBlocks => hitBlocks

/-- `del blocks[num_blocks:]` for every group. -/
def truncateBlocks (numBlocks : ℕ) : List ℕ → HitBlocks → Except PyErr HitBlocks
  | [], hitBlocks => .ok hitBlocks
  | g :: gids, hitBlocks =>
    match hitBlocks g with
    | some blocks =>
      truncateBlocks numBlocks gids (update hitBlocks g (some (blocks.take numBlocks)))
    | none => .error (.assertionError "")

namespace HybridKVCacheCoordinator

variable {δ : Type*} (c : HybridKVCacheCoordinator)

/-- `self.attention_groups`. -/
def attentionGroups : List AttentionGroup := fullFirst (splitGroups c.specs)

/-- `self.lcm_block_size`. -/
def lcmBlockSize : ℕ := ((splitGroups c.specs).map fun a => a.spec.blockSize).foldr Nat.lcm 1

/-- `_get_block_hashes`. -/
def getBlockHashes (hashes : List δ) (spec : KVCacheSpec) : List (BlockHash δ) :=
  blockHashList hashes (spec.blockSize / c.hashBlockSize)

section

variable (lookup : BlockHash δ → ℕ → Option ℕ) (nullBlock : ℕ) (hashes : List δ)

/-- The body of the `for` loop over the attention groups. -/
def groupStep (a : AttentionGroup) (hitBlocks : HitBlocks) (currHitLength : ℕ) :
    Except PyErr (HitBlocks × ℕ) :=
  if a.spec.isFullAttention && (hitBlocks (a.groupIds.headD 0)).isSome then do
    let numBlocks := currHitLength / a.spec.blockSize
    let hitBlocks ← truncateBlocks numBlocks a.groupIds hitBlocks
    return (hitBlocks, numBlocks * a.spec.blockSize)
  else do
    let found ← KVCache.findLongestCacheHit lookup nullBlock (c.getBlockHashes hashes a.spec)
      currHitLength a.groupIds a.spec c.useEagle c.lcmBlockSize 1
    return (setBlocks a.groupIds found hitBlocks, (found.headD []).length * a.spec.blockSize)

/-- A round over the attention groups. -/
def roundStep : List AttentionGroup → HitBlocks → ℕ → Except PyErr (HitBlocks × ℕ)
  | [], hitBlocks, currHitLength => .ok (hitBlocks, currHitLength)
  | a :: groups, hitBlocks, currHitLength => do
    let (hitBlocks, currHitLength) ← c.groupStep lookup nullBlock hashes a hitBlocks currHitLength
    roundStep groups hitBlocks currHitLength

/-- The `while` loop. -/
def descend (hitBlocks : HitBlocks) (hitLength : ℕ) : Except PyErr (HitBlocks × ℕ) :=
  match c.roundStep lookup nullBlock hashes c.attentionGroups hitBlocks hitLength with
  | .error e => .error e
  | .ok (hitBlocks, currHitLength) =>
    if currHitLength < hitLength then descend hitBlocks currHitLength
    else .ok (hitBlocks, hitLength)
termination_by hitLength

/-- `HybridKVCacheCoordinator.find_longest_cache_hit`. -/
def findLongestCacheHit (maxCacheHitLength : ℕ) : Except PyErr (List (List ℕ) × ℕ) := do
  let (hitBlocks, hitLength) ← c.descend lookup nullBlock hashes (fun _ => none) maxCacheHitLength
  return ((range c.specs.length).map fun g => (hitBlocks g).getD [], hitLength)

end

end HybridKVCacheCoordinator

/-! ### Splitting the groups -/

/-- The entries have distinct specs and hold the group ids with their spec. -/
structure Splits (specs : List KVCacheSpec) (groups : List AttentionGroup) : Prop where
  nodup : (groups.map AttentionGroup.spec).Nodup
  ne_nil : ∀ a ∈ groups, a.groupIds ≠ []
  getElem? : ∀ a ∈ groups, ∀ g ∈ a.groupIds, specs[g]? = some a.spec
  exists_mem : ∀ g s, specs[g]? = some s → ∃ a ∈ groups, a.spec = s ∧ g ∈ a.groupIds

theorem map_spec_addGroup (i : ℕ) (s : KVCacheSpec) (groups : List AttentionGroup) :
    (addGroup i s groups).map AttentionGroup.spec =
      if s ∈ groups.map AttentionGroup.spec then groups.map AttentionGroup.spec
      else groups.map AttentionGroup.spec ++ [s] := by
  induction groups with
  | nil => rfl
  | cons a groups ih =>
    unfold addGroup
    by_cases h : a.spec = s
    · simp [h]
    · simp only [h, if_false, map_cons, ih, mem_cons, Ne.symm h, false_or]
      split_ifs <;> rfl

variable {groups : List AttentionGroup}

/-- An entry after the loop is an entry before it, perhaps with the new id at its end, or new. -/
theorem mem_addGroup {i : ℕ} {s : KVCacheSpec} {a : AttentionGroup} (ha : a ∈ addGroup i s groups) :
    a ∈ groups ∨ (a.spec = s ∧ (a.groupIds = [i] ∨
      ∃ b ∈ groups, b.spec = s ∧ a.groupIds = b.groupIds ++ [i])) := by
  induction groups with
  | nil => exact .inr (by simp_all [addGroup])
  | cons b groups ih =>
    unfold addGroup at ha
    split_ifs at ha with h
    · rcases mem_cons.1 ha with rfl | ha
      · exact .inr ⟨h, .inr ⟨b, .head _, h, rfl⟩⟩
      · exact .inl (.tail _ ha)
    · rcases mem_cons.1 ha with rfl | ha
      · exact .inl (.head _)
      · rcases ih ha with hmem | ⟨hs, hids | ⟨d, hd, hds, hids⟩⟩
        · exact .inl (.tail _ hmem)
        · exact .inr ⟨hs, .inl hids⟩
        · exact .inr ⟨hs, .inr ⟨d, .tail _ hd, hds, hids⟩⟩

theorem exists_mem_addGroup (i : ℕ) (s : KVCacheSpec) (groups : List AttentionGroup) :
    ∃ a ∈ addGroup i s groups, a.spec = s ∧ i ∈ a.groupIds := by
  induction groups with
  | nil => exact ⟨_, mem_singleton_self _, rfl, mem_singleton_self i⟩
  | cons b groups ih =>
    unfold addGroup
    split_ifs with h
    · exact ⟨_, mem_cons_self, h, by simp⟩
    · obtain ⟨a, ha, hs, hi⟩ := ih
      exact ⟨a, .tail _ ha, hs, hi⟩

theorem exists_mem_addGroup_of_mem {i g : ℕ} {s : KVCacheSpec} {a : AttentionGroup}
    (ha : a ∈ groups) (hg : g ∈ a.groupIds) :
    ∃ b ∈ addGroup i s groups, b.spec = a.spec ∧ g ∈ b.groupIds := by
  induction groups with
  | nil => cases ha
  | cons b groups ih =>
    unfold addGroup
    rcases mem_cons.1 ha with rfl | ha
    · split_ifs with h
      · exact ⟨_, .head _, rfl, mem_append_left _ hg⟩
      · exact ⟨a, .head _, rfl, hg⟩
    · split_ifs with h
      · exact ⟨a, .tail _ ha, rfl, hg⟩
      · obtain ⟨d, hd, hs, hgd⟩ := ih ha
        exact ⟨d, .tail _ hd, hs, hgd⟩

theorem Splits.addGroup {specs : List KVCacheSpec} (h : Splits specs groups) (s : KVCacheSpec) :
    Splits (specs ++ [s]) (addGroup specs.length s groups) := by
  have hold : ∀ a ∈ groups, ∀ g ∈ a.groupIds, (specs ++ [s])[g]? = some a.spec := by
    intro a ha g hg
    have hget := h.getElem? a ha g hg
    rwa [getElem?_append_left (List.getElem?_eq_some_iff.1 hget).1]
  have hnew : (specs ++ [s])[specs.length]? = some s := by simp
  constructor
  · rw [map_spec_addGroup]
    split_ifs with hs
    · exact h.nodup
    · rw [← concat_eq_append]
      exact List.Nodup.concat hs h.nodup
  · intro a ha
    rcases mem_addGroup ha with hmem | ⟨-, hids | ⟨b, -, -, hids⟩⟩
    · exact h.ne_nil a hmem
    · simp [hids]
    · simp [hids]
  · intro a ha g hg
    rcases mem_addGroup ha with hmem | ⟨hs, hids | ⟨b, hb, hbs, hids⟩⟩
    · exact hold a hmem g hg
    · rw [hids, mem_singleton] at hg
      rw [hg, hnew, hs]
    · rw [hids, mem_append, mem_singleton] at hg
      rcases hg with hg | rfl
      · rw [hold b hb g hg, hs, hbs]
      · rw [hnew, hs]
  · intro g t ht
    rcases lt_or_ge g specs.length with hlt | hge
    · rw [getElem?_append_left hlt] at ht
      obtain ⟨a, ha, rfl, hg⟩ := h.exists_mem g t ht
      exact exists_mem_addGroup_of_mem ha hg
    · have hlen := (List.getElem?_eq_some_iff.1 ht).1
      obtain rfl : g = specs.length := by simp at hlen; omega
      obtain rfl : s = t := by rw [hnew] at ht; exact some.inj ht
      exact exists_mem_addGroup _ _ _

theorem splits_splitGroups (specs : List KVCacheSpec) : Splits specs (splitGroups specs) := by
  induction specs using List.reverseRecOn with
  | nil => exact ⟨nodup_nil, nofun, nofun, nofun⟩
  | append_singleton specs s ih =>
    have h := ih.addGroup s
    rw [splitGroups, zipIdx_append, foldl_append, zero_add]
    exact h

theorem fullFirst_perm (groups : List AttentionGroup) : (fullFirst groups).Perm groups :=
  filter_append_perm _ _

/-- The sorted entries are still the groups of the model. -/
theorem HybridKVCacheCoordinator.splits (c : HybridKVCacheCoordinator) :
    Splits c.specs c.attentionGroups := by
  have h := splits_splitGroups c.specs
  have hp := fullFirst_perm (splitGroups c.specs)
  refine ⟨(hp.map _).nodup_iff.2 h.nodup, fun a ha => h.ne_nil a (hp.mem_iff.1 ha),
    fun a ha => h.getElem? a (hp.mem_iff.1 ha), fun g s hs => ?_⟩
  obtain ⟨a, ha, hrest⟩ := h.exists_mem g s hs
  exact ⟨a, hp.mem_iff.2 ha, hrest⟩

/-! ### The descent -/

theorem setBlocks_map (f : ℕ → List ℕ) (gids : List ℕ) (hitBlocks : HitBlocks) :
    setBlocks gids (gids.map f) hitBlocks = fun g => if g ∈ gids then some (f g) else hitBlocks g := by
  induction gids generalizing hitBlocks with
  | nil => funext g; simp [setBlocks]
  | cons g gids ih =>
    rw [map_cons, setBlocks, ih]
    funext g'
    by_cases hg : g' ∈ gids
    · simp [hg]
    · by_cases h : g' = g <;> simp [h]

theorem truncateBlocks_of_forall {f : ℕ → List ℕ} {gids : List ℕ} {hitBlocks : HitBlocks} {n : ℕ}
    (h : ∀ g ∈ gids, hitBlocks g = some (f g)) : truncateBlocks n gids hitBlocks =
      .ok fun g => if g ∈ gids then some ((f g).take n) else hitBlocks g := by
  induction gids generalizing hitBlocks f with
  | nil => simp [truncateBlocks]
  | cons g gids ih =>
    obtain ⟨hg, hgids⟩ := forall_mem_cons.1 h
    have hnext : ∀ g' ∈ gids, update hitBlocks g (some ((f g).take n)) g' =
        some (update f g ((f g).take n) g') := by
      intro g' hg'
      by_cases heq : g' = g
      · subst heq
        simp
      · simp [heq, hgids g' hg']
    simp only [truncateBlocks, hg, ih hnext]
    congr 1
    funext g'
    by_cases heq : g' = g
    · subst heq
      simp [take_take]
    · simp [heq]

theorem dvd_foldr_lcm {x : ℕ} {l : List ℕ} (h : x ∈ l) : x ∣ l.foldr Nat.lcm 1 := by
  induction l with
  | nil => cases h
  | cons y l ih =>
    rcases mem_cons.1 h with rfl | h
    · exact Nat.dvd_lcm_left _ _
    · exact Nat.dvd_trans (ih h) (Nat.dvd_lcm_right _ _)

theorem foldr_lcm_pos {l : List ℕ} (h : ∀ x ∈ l, 0 < x) : 0 < l.foldr Nat.lcm 1 := by
  induction l with
  | nil => exact one_pos
  | cons y l ih =>
    obtain ⟨hy, hl⟩ := forall_mem_cons.1 h
    exact lcm_pos hy (ih hl)

namespace HybridKVCacheCoordinator

variable {δ : Type*} {c : HybridKVCacheCoordinator}

theorem lcmBlockSize_pos (c : HybridKVCacheCoordinator) : 0 < c.lcmBlockSize := by
  refine foldr_lcm_pos fun x hx => ?_
  obtain ⟨a, -, rfl⟩ := mem_map.1 hx
  exact a.spec.blockSize_pos

variable {a : AttentionGroup}

section

variable (ha : a ∈ c.attentionGroups)
include ha

theorem spec_mem : a.spec ∈ c.specs := by
  obtain ⟨g, hg⟩ := exists_mem_of_ne_nil _ (c.splits.ne_nil a ha)
  exact mem_of_getElem? (c.splits.getElem? a ha g hg)

theorem blockSize_dvd_lcm : a.spec.blockSize ∣ c.lcmBlockSize := by
  have ha' := (fullFirst_perm _).mem_iff.1 ha
  exact dvd_foldr_lcm (mem_map.2 ⟨a, ha', rfl⟩)

/-- Entries with a common id are equal. -/
theorem eq_of_mem_groupIds {b : AttentionGroup}
    (hb : b ∈ c.attentionGroups) {g : ℕ} (hga : g ∈ a.groupIds) (hgb : g ∈ b.groupIds) :
    a.spec = b.spec := by
  have := (c.splits.getElem? a ha g hga).symm.trans (c.splits.getElem? b hb g hgb)
  exact some.inj this

end

variable {spec : KVCacheSpec}

theorem hashBlockSize_pos (hspec : spec ∈ c.specs) : 0 < c.hashBlockSize :=
  pos_of_dvd_of_pos (c.hash_dvd spec hspec) spec.blockSize_pos

variable {n : ℕ}

/-- A length is covered by the hashes of blocks when it is covered by the hashes of parts. -/
theorem le_length_getBlockHashes_iff {hashes : List δ} (hspec : spec ∈ c.specs)
    : n ≤ (c.getBlockHashes hashes spec).length ↔
      n * spec.blockSize / c.hashBlockSize ≤ hashes.length := by
  have hpos := hashBlockSize_pos hspec
  obtain ⟨k, hk⟩ := c.hash_dvd spec hspec
  have hkpos : 0 < k := by
    have := spec.blockSize_pos
    rw [hk] at this
    exact Nat.pos_of_mul_pos_left this
  rw [getBlockHashes, length_blockHashList, hk, Nat.mul_div_cancel_left _ hpos,
    le_div_iff_mul_le hkpos, mul_left_comm, Nat.mul_div_cancel_left _ hpos]

/-- The list of hashes covers `maxLength` tokens. -/
theorem length_getBlockHashes {hashes : List δ} (hspec : spec ∈ c.specs) {maxLength : ℕ}
    (hlen : maxLength / c.hashBlockSize ≤ hashes.length) :
    maxLength / spec.blockSize ≤ (c.getBlockHashes hashes spec).length :=
  (le_length_getBlockHashes_iff hspec).2 ((Nat.div_le_div_right (div_mul_le_self _ _)).trans hlen)

variable (c) in
/-- What the descent needs of the groups and the hashes: no EAGLE, no cross attention, chunked
groups with the common block size, and enough hashes. -/
structure Supports (hashes : List δ) (maxLength : ℕ) : Prop where
  eagle : c.useEagle = false
  cross : ∀ spec ∈ c.specs, spec.kind ≠ .cross
  chunked : ∀ spec ∈ c.specs, ∀ k, spec.kind = .chunkedLocal k →
    spec.blockSize ∣ k ∧ spec.blockSize = c.lcmBlockSize
  length : maxLength / c.hashBlockSize ≤ hashes.length

section

variable (c) (lookup : BlockHash δ → ℕ → Option ℕ) (nullBlock : ℕ) (hashes : List δ)

/-- The aligned lengths that are valid hits of a group. -/
def validHits (a : AttentionGroup) : Set ℕ :=
  {L | c.lcmBlockSize ∣ L ∧ ValidHit lookup (c.getBlockHashes hashes a.spec) a.groupIds a.spec L}

/-- The lists of a group hold its hit of length `L`. -/
def Holds (hitBlocks : HitBlocks) (a : AttentionGroup) (L : ℕ) : Prop :=
  ∀ g ∈ a.groupIds, hitBlocks g = some (cells lookup nullBlock (c.getBlockHashes hashes a.spec)
    (Needed a.spec L) (L / a.spec.blockSize) g)

/-- If a full attention group has lists, they hold a hit that is at least as long. -/
def Ready (hitBlocks : HitBlocks) (a : AttentionGroup) (currHitLength : ℕ) : Prop :=
  a.spec.isFullAttention → (hitBlocks (a.groupIds.headD 0)).isSome →
    c.lcmBlockSize ∣ currHitLength ∧ ∃ L, currHitLength ≤ L ∧ L ∈ validHits c lookup hashes a ∧
      Holds c lookup nullBlock hashes hitBlocks a L

end

variable {lookup : BlockHash δ → ℕ → Option ℕ} {nullBlock : ℕ} {hashes : List δ}

theorem attends_of_isFullAttention (h : spec.isFullAttention) (L t : ℕ) :
    Attends spec.kind L t := by
  unfold KVCacheSpec.isFullAttention at h
  unfold Attends
  split at h <;> simp_all

variable {hitBlocks : HitBlocks}

theorem groupStep_spec (ha : a ∈ c.attentionGroups) {currHitLength : ℕ}
    (hc : c.Supports hashes currHitLength)
    (hready : Ready c lookup nullBlock hashes hitBlocks a currHitLength) :
    ∃ hitBlocks' L, c.groupStep lookup nullBlock hashes a hitBlocks currHitLength =
        .ok (hitBlocks', L) ∧ IsFloor (validHits c lookup hashes a) currHitLength L ∧
      Holds c lookup nullBlock hashes hitBlocks' a L ∧
      ∀ g, g ∉ a.groupIds → hitBlocks' g = hitBlocks g := by
  have hdvd := blockSize_dvd_lcm ha
  have hbs := a.spec.blockSize_pos
  unfold groupStep
  split_ifs with hcached
  · -- the lists of the first round are truncated
    obtain ⟨hfull, hsome⟩ := Bool.and_eq_true_iff.1 hcached
    obtain ⟨halign, L, hL, hvalid, hholds⟩ := hready hfull hsome
    obtain ⟨n, rfl⟩ := Nat.dvd_trans hdvd halign
    rw [mul_comm] at hL halign ⊢
    obtain ⟨k, rfl⟩ := hvalid.2.1
    rw [mul_comm a.spec.blockSize] at hL hvalid hholds
    have hnk : n ≤ k := Nat.le_of_mul_le_mul_right hL hbs
    have hatt := attends_of_isFullAttention hfull
    simp only [Nat.mul_div_cancel _ hbs, truncateBlocks_of_forall hholds, pure]
    refine ⟨_, _, rfl, isFloor_self ⟨halign, ⟨n, mul_comm _ _⟩, fun i hi => ?_⟩, ?_, ?_⟩
    · rw [needed_full hatt] at hi
      exact hvalid.2.2 i ((needed_full hatt).2 (hi.trans_le hnk))
    · intro g hg
      refine (if_pos hg).trans ?_
      rw [take_cells hnk, Nat.mul_div_cancel _ hbs]
      refine congrArg some (cells_congr (fun i hi => ?_) g)
      rw [needed_full hatt, needed_full hatt]
      exact iff_of_true (hi.trans_le hnk) hi
    · exact fun g hg => if_neg hg
  · have hspec := spec_mem ha
    obtain ⟨L, hfind, hfloor⟩ := findLongestCacheHit_isFloor lookup nullBlock
      (c.splits.ne_nil a ha) (hc.cross _ hspec) hdvd (hc.chunked _ hspec)
      (length_getBlockHashes hspec hc.length)
    have hL : L / a.spec.blockSize * a.spec.blockSize = L := Nat.div_mul_cancel hfloor.mem.2.1
    simp only [hc.eagle, hfind, ok_bind, setBlocks_map, headD_map_cells (c.splits.ne_nil a ha), hL]
    exact ⟨_, _, rfl, hfloor, fun g hg => if_pos hg, fun g hg => if_neg hg⟩

variable {hitBlocks' : HitBlocks} {m : ℕ}

section

variable (h : c.roundStep lookup nullBlock hashes c.attentionGroups hitBlocks n = .ok (hitBlocks', m))

include h

/-- A round that lowers the length is followed by another one. -/
theorem descend_of_lt (hmn : m < n) : c.descend lookup nullBlock hashes hitBlocks n =
      c.descend lookup nullBlock hashes hitBlocks' m := by
  rw [descend]
  simp [h, if_pos hmn]

/-- A round that does not lower the length is the last one. -/
theorem descend_of_le
    (hnm : n ≤ m) : c.descend lookup nullBlock hashes hitBlocks n = .ok (hitBlocks', n) := by
  rw [descend]
  simp [h, if_neg (not_lt.2 hnm)]

end

theorem Supports.mono (h : c.Supports hashes n) (hmn : m ≤ n) : c.Supports hashes m :=
  ⟨h.eagle, h.cross, h.chunked, (Nat.div_le_div_right hmn).trans h.length⟩

theorem notMem_groupIds {groups : List AttentionGroup} (ha : a ∈ c.attentionGroups)
    (hgroups : ∀ b ∈ groups, b ∈ c.attentionGroups)
    (hna : a.spec ∉ groups.map AttentionGroup.spec) :
    ∀ b ∈ groups, ∀ g ∈ b.groupIds, g ∉ a.groupIds := by
  intro b hb g hgb hga
  exact hna (mem_map.2 ⟨b, hb, eq_of_mem_groupIds (hgroups b hb) ha hgb hga⟩)

theorem headD_mem (hne : a.groupIds ≠ []) : a.groupIds.headD 0 ∈ a.groupIds := by
  cases hids : a.groupIds with
  | nil => exact absurd hids hne
  | cons g gids => exact .head _

/-- A step of another group keeps a group ready for a shorter length. -/
theorem Ready.of_eq (h : c.Ready lookup nullBlock hashes hitBlocks a n) (hne : a.groupIds ≠ [])
    (heq : ∀ g ∈ a.groupIds, hitBlocks' g = hitBlocks g) (hm : c.lcmBlockSize ∣ m) (hmn : m ≤ n) :
    c.Ready lookup nullBlock hashes hitBlocks' a m := by
  intro hfull hsome
  rw [heq _ (headD_mem hne)] at hsome
  obtain ⟨-, L, hL, hvalid, hholds⟩ := h hfull hsome
  exact ⟨hm, L, hmn.trans hL, hvalid, fun g hg => (heq g hg).trans (hholds g hg)⟩

/-- A round is a round of roundings; afterwards each group holds a hit between its two ends. -/
theorem roundStep_spec (groups : List AttentionGroup) (hsub : ∀ a ∈ groups, a ∈ c.attentionGroups)
    (hnodup : (groups.map AttentionGroup.spec).Nodup) {currHitLength : ℕ}
    (hc : c.Supports hashes currHitLength)
    (hready : ∀ a ∈ groups, c.Ready lookup nullBlock hashes hitBlocks a currHitLength) :
    ∃ hitBlocks' L, c.roundStep lookup nullBlock hashes groups hitBlocks currHitLength =
        .ok (hitBlocks', L) ∧ Round (groups.map (c.validHits lookup hashes)) currHitLength L ∧
      (∀ a ∈ groups, ∃ k, L ≤ k ∧ k ≤ currHitLength ∧ k ∈ c.validHits lookup hashes a ∧
        c.Holds lookup nullBlock hashes hitBlocks' a k) ∧
      ∀ g, (∀ a ∈ groups, g ∉ a.groupIds) → hitBlocks' g = hitBlocks g := by
  induction groups generalizing hitBlocks currHitLength with
  | nil => exact ⟨hitBlocks, currHitLength, rfl, .nil _, nofun, fun _ _ => rfl⟩
  | cons a groups ih =>
    obtain ⟨ha, hgroups⟩ := forall_mem_cons.1 hsub
    obtain ⟨haready, hready⟩ := forall_mem_cons.1 hready
    obtain ⟨hna, hnodup⟩ := nodup_cons.1 hnodup
    have hdisj := notMem_groupIds ha hgroups hna
    obtain ⟨hitBlocks', x, hstep, hfloor, hholds, hframe⟩ := groupStep_spec ha hc haready
    have hready' : ∀ b ∈ groups, c.Ready lookup nullBlock hashes hitBlocks' b x := by
      intro b hb
      exact (hready b hb).of_eq (c.splits.ne_nil b (hgroups b hb))
        (fun g hg => hframe g (hdisj b hb g hg)) hfloor.mem.1 hfloor.le
    obtain ⟨hitBlocks'', L, hround, hrounds, hall, hframe'⟩ :=
      ih hgroups hnodup (hc.mono hfloor.le) hready'
    refine ⟨hitBlocks'', L, ?_, .cons hfloor hrounds, forall_mem_cons.2 ⟨?_, ?_⟩, ?_⟩
    · simp [roundStep, hstep, hround]
    · refine ⟨x, hrounds.le, hfloor.le, hfloor.mem, fun g hg => ?_⟩
      rw [hframe' g fun b hb hgb => hdisj b hb g hgb hg]
      exact hholds g hg
    · intro b hb
      obtain ⟨k, hLk, hkx, hk⟩ := hall b hb
      exact ⟨k, hLk, hkx.trans hfloor.le, hk⟩
    · intro g hg
      obtain ⟨hga, hgs⟩ := forall_mem_cons.1 hg
      rw [hframe' g hgs, hframe g hga]

/-- **The loop is a descent through the valid hits of the groups**, and its lists hold the hit that
it ends in. -/
theorem descend_spec (nullBlock : ℕ) (hitBlocks : HitBlocks) {hitLength : ℕ}
    (hc : c.Supports hashes hitLength)
    (hready : ∀ a ∈ c.attentionGroups, c.Ready lookup nullBlock hashes hitBlocks a hitLength) :
    ∃ hitBlocks' L, c.descend lookup nullBlock hashes hitBlocks hitLength = .ok (hitBlocks', L) ∧
      Descent (c.attentionGroups.map (c.validHits lookup hashes)) hitLength L ∧
      ∀ a ∈ c.attentionGroups, c.Holds lookup nullBlock hashes hitBlocks' a L := by
  induction hitLength using Nat.strong_induction_on generalizing hitBlocks with
  | _ hitLength ih =>
    obtain ⟨hitBlocks', x, hround, hrounds, hall, -⟩ :=
      roundStep_spec c.attentionGroups (fun _ h => h) c.splits.nodup hc hready
    rcases lt_or_ge x hitLength with hlt | hge
    · have hx : ∀ a ∈ c.attentionGroups, c.Ready lookup nullBlock hashes hitBlocks' a x := by
        intro a ha _ _
        obtain ⟨k, hxk, -, hvalid, hholds⟩ := hall a ha
        have hdvd : x ∈ {L | c.lcmBlockSize ∣ L} := by
          refine hrounds.mem (ne_nil_of_mem (mem_map_of_mem ha)) fun V hV L hL => ?_
          obtain ⟨b, -, rfl⟩ := mem_map.1 hV
          exact hL.1
        exact ⟨hdvd, k, hxk, hvalid, hholds⟩
      obtain ⟨hitBlocks'', L, hloop, hdescent, hholds⟩ := ih x hlt hitBlocks' (hc.mono hlt.le) hx
      exact ⟨hitBlocks'', L, (descend_of_lt hround hlt).trans hloop, .step hrounds hlt hdescent,
        hholds⟩
    · obtain rfl := le_antisymm hrounds.le hge
      refine ⟨hitBlocks', x, descend_of_le hround le_rfl, .stop hrounds, fun a ha => ?_⟩
      obtain ⟨k, hxk, hkx, -, hholds⟩ := hall a ha
      rwa [le_antisymm hkx hxk] at hholds

section

variable (c) (lookup : BlockHash δ → ℕ → Option ℕ) (nullBlock : ℕ) (hashes : List δ)

/-- A multiple of the common block size that is a valid hit for every group. -/
def CommonHit (L : ℕ) : Prop := c.lcmBlockSize ∣ L ∧ ∀ g spec, c.specs[g]? = some spec →
    ValidHit lookup (c.getBlockHashes hashes spec) [g] spec L

/-- `blocks` is the hit of length `L` of group `g`: a cached block in each place that is needed,
and the null block elsewhere. -/
structure IsHitList (g : ℕ) (spec : KVCacheSpec) (L : ℕ) (blocks : List ℕ) : Prop where
  length : blocks.length = L / spec.blockSize
  cached : ∀ i, Needed spec L i → i < L / spec.blockSize ∧
    ∃ h, (c.getBlockHashes hashes spec)[i]? = some h ∧ lookup h g = blocks[i]?
  null : ∀ i < L / spec.blockSize, ¬ Needed spec L i → blocks[i]? = some nullBlock

end

theorem mem_validHits_iff (ha : a ∈ c.attentionGroups) {L : ℕ} :
    L ∈ c.validHits lookup hashes a ↔ c.lcmBlockSize ∣ L ∧ ∀ g ∈ a.groupIds,
      ValidHit lookup (c.getBlockHashes hashes a.spec) [g] a.spec L := by
  refine and_congr_right fun hL => ?_
  constructor
  · intro h g hg
    refine ⟨h.1, fun i hi => ?_⟩
    obtain ⟨b, hb, hall⟩ := h.2 i hi
    exact ⟨b, hb, forall_mem_singleton.2 (hall g hg)⟩
  · intro h
    refine ⟨Nat.dvd_trans (blockSize_dvd_lcm ha) hL, fun i hi => ?_⟩
    obtain ⟨g₀, hg₀⟩ := exists_mem_of_ne_nil _ (c.splits.ne_nil a ha)
    obtain ⟨b, hb, -⟩ := (h g₀ hg₀).2 i hi
    refine ⟨b, hb, fun g hg => ?_⟩
    obtain ⟨b', hb', hall⟩ := (h g hg).2 i hi
    obtain rfl := some.inj ((mem_def.1 hb).symm.trans hb')
    exact hall g (mem_singleton_self g)

/-- The common hits are those of all entries. -/
theorem commonHit_iff {L : ℕ} : c.CommonHit lookup hashes L ↔
    ∀ V ∈ c.attentionGroups.map (c.validHits lookup hashes), L ∈ V := by
  constructor
  · rintro ⟨hL, h⟩ V hV
    obtain ⟨a, ha, rfl⟩ := mem_map.1 hV
    exact (mem_validHits_iff ha).2 ⟨hL, fun g hg => h g _ (c.splits.getElem? a ha g hg)⟩
  · intro h
    have hall : ∀ a ∈ c.attentionGroups, L ∈ c.validHits lookup hashes a :=
      fun a ha => h _ (mem_map_of_mem ha)
    refine ⟨?_, fun g spec hg => ?_⟩
    · have hne : c.attentionGroups ≠ [] := by
        intro hnil
        have := (fullFirst_perm (splitGroups c.specs)).length_eq
        rw [← attentionGroups, hnil] at this
        exact absurd c.one_lt (by simp [← this])
      obtain ⟨a, ha⟩ := exists_mem_of_ne_nil _ hne
      exact (hall a ha).1
    · obtain ⟨a, ha, rfl, hga⟩ := c.splits.exists_mem g spec hg
      exact ((mem_validHits_iff ha).1 (hall a ha)).2 g hga

theorem isHitList_cells {g L : ℕ} (h : ValidHit lookup (c.getBlockHashes hashes spec) [g] spec L) :
    c.IsHitList lookup nullBlock hashes g spec L
      (cells lookup nullBlock (c.getBlockHashes hashes spec) (Needed spec L)
        (L / spec.blockSize) g) := by
  have hget : ∀ i < L / spec.blockSize, (cells lookup nullBlock (c.getBlockHashes hashes spec)
      (Needed spec L) (L / spec.blockSize) g)[i]? = some (if Needed spec L i then
        cell lookup nullBlock (c.getBlockHashes hashes spec) i g else nullBlock) := by
    intro i hi
    rw [cells, getElem?_map, getElem?_range hi, map_some]
  refine ⟨length_cells _ _, fun i hi => ?_, fun i hi hn => by rw [hget i hi, if_neg hn]⟩
  have hlt : i < L / spec.blockSize := by
    obtain ⟨t, ht, rfl, -⟩ := hi
    exact div_lt_div_of_lt_of_dvd h.1 ht
  obtain ⟨b, hb, hlook⟩ := (h.2 i hi).cell (mem_singleton_self g)
  exact ⟨hlt, b, hb, by rw [hget i hlt, if_pos hi]; exact hlook⟩

/-- **The hybrid prefix hit is the longest one.** Without EAGLE, the loop ends and returns the
greatest common hit of all groups up to the given length, with the list of each group. -/
theorem findLongestCacheHit_isGreatest (c : HybridKVCacheCoordinator)
    (lookup : BlockHash δ → ℕ → Option ℕ) (nullBlock : ℕ) (hashes : List δ)
    (maxCacheHitLength : ℕ) (hc : c.Supports hashes maxCacheHitLength) :
    ∃ blocks L, c.findLongestCacheHit lookup nullBlock hashes maxCacheHitLength = .ok (blocks, L) ∧
      IsGreatest {L | c.CommonHit lookup hashes L ∧ L ≤ maxCacheHitLength} L ∧
      blocks.length = c.specs.length ∧
      ∀ g spec, c.specs[g]? = some spec → ∃ bs, blocks[g]? = some bs ∧
        c.IsHitList lookup nullBlock hashes g spec L bs := by
  obtain ⟨hitBlocks, L, hloop, hdescent, hholds⟩ := descend_spec nullBlock (fun _ => none) hc
    fun a _ _ hsome => by cases hsome
  have hgreatest := hdescent.isGreatest
  simp only [← commonHit_iff] at hgreatest
  refine ⟨(range c.specs.length).map fun g => (hitBlocks g).getD [], L, ?_, hgreatest,
    by simp, fun g spec hg => ?_⟩
  · simp [findLongestCacheHit, hloop]
  · obtain ⟨a, ha, rfl, hga⟩ := c.splits.exists_mem g spec hg
    have hlt := (List.getElem?_eq_some_iff.1 hg).1
    refine ⟨_, ?_, isHitList_cells (hgreatest.1.1.2 g _ hg)⟩
    rw [getElem?_map, getElem?_range hlt, map_some, hholds a ha g hga, getD_some]

/-- Groups of four kinds. -/
def fourKinds : HybridKVCacheCoordinator where
  specs := [⟨.full, 2, 0, Nat.two_pos, chunkSize_pos_full⟩,
    ⟨.slidingWindow 3, 1, 0, Nat.one_pos, nofun⟩,
    ⟨.chunkedLocal 4, 2, 0, Nat.two_pos, by rintro _ ⟨⟩; decide⟩,
    ⟨.mamba 0, 1, 0, Nat.one_pos, nofun⟩]
  hashBlockSize := 1
  useEagle := false
  hash_dvd := by decide
  one_lt := by decide

theorem findLongestCacheHit_isGreatest_four_kinds : ∃ blocks L, fourKinds.findLongestCacheHit
        (fun h g => if h.length ≤ 2 then some (g + 1) else none) 0 [5, 6, 7, 8] 4 =
        .ok (blocks, L) ∧
      IsGreatest {L | fourKinds.CommonHit
        (fun h g => if h.length ≤ 2 then some (g + 1) else none) [5, 6, 7, 8] L ∧ L ≤ 4} L := by
  refine Exists.imp (fun blocks => Exists.imp fun L h => ⟨h.1, h.2.1⟩)
    (findLongestCacheHit_isGreatest _ _ _ _ _ ⟨rfl, by decide, fun spec hspec k hk => ?_, by decide⟩)
  have : spec.kind = .chunkedLocal k → spec.blockSize = 2 ∧ k = 4 := by
    simp only [fourKinds, mem_cons, not_mem_nil, or_false] at hspec
    rcases hspec with rfl | rfl | rfl | rfl <;> simp [eq_comm]
  obtain ⟨hbs, rfl⟩ := this hk
  rw [hbs]
  exact ⟨by decide, by decide⟩

/-- A chunked local group whose block size is not the common one makes the lookup fail, and a
sliding window of one token still asks for a cached block. -/
theorem findLongestCacheHit_chunked_error_and_window_one : findLongestCacheHit
        ⟨[⟨.full, 2, 0, by decide, chunkSize_pos_full⟩,
          ⟨.chunkedLocal 2, 1, 0, by decide, by rintro _ ⟨⟩; decide⟩], 1, false, by decide,
            by decide⟩ (fun _ _ => none) 0 [5, 6] 2 =
      .error (.assertionError
        "KV cache groups with different block sizes are not compatible with chunked local attention now") ∧
    findLongestCacheHit
        ⟨[⟨.full, 1, 0, by decide, chunkSize_pos_full⟩,
          ⟨.slidingWindow 1, 1, 0, by decide, by rintro _ ⟨⟩⟩], 1, false, by decide,
            by decide⟩ (fun _ g => if g = 0 then some 1 else none) 0 [5] 1 =
      .ok ([[], []], 0) := by
  constructor
  · unfold findLongestCacheHit
    rw [descend]
    rfl
  · unfold findLongestCacheHit
    rw [descend_of_lt rfl zero_lt_one, descend_of_le rfl le_rfl]
    rfl

end HybridKVCacheCoordinator

end LoptVllm.KVCache
