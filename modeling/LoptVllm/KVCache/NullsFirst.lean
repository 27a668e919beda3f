import LoptVllm.KVCache.KVInvariant

/-!
# Null blocks come first

`remove_skipped_blocks` walks backwards and stops at the first null block, since the blocks before
it are null blocks as well. This is so from the start: in the lists that the lookups return, null
blocks are followed by cached ones only.
-/

namespace LoptVllm.KVCache

open List Option Nat

open BlockPool SingleTypeKVCacheManager

/-- The blocks before a null block are null blocks. -/
def NullsFirst (nullBlock : ℕ) (blocks : List ℕ) : Prop :=
  ∀ i j : ℕ, i ≤ j → blocks[j]? = some nullBlock → blocks[i]? = some nullBlock

variable {nullBlock : ℕ} {blocks : List ℕ}

@[simp] theorem nullsFirst_nil (nullBlock : ℕ) : NullsFirst nullBlock [] := by
  simp [NullsFirst]

/-- New blocks at the end are not null blocks. -/
theorem NullsFirst.append_new (h : NullsFirst nullBlock blocks) {new : List ℕ}
    (hnew : ∀ b ∈ new, b ≠ nullBlock) : NullsFirst nullBlock (blocks ++ new) := by
  intro i j hij hj
  rcases lt_or_ge j blocks.length with hlt | hge
  · rw [getElem?_append_left hlt] at hj
    rw [getElem?_append_left (hij.trans_lt hlt)]
    exact h i j hij hj
  · rw [getElem?_append_right hge] at hj
    exact absurd rfl (hnew _ (mem_of_getElem? hj))

theorem getElem?_replicate_append_drop (s : ℕ) (hits : List ℕ) (i : ℕ) :
    (replicate s nullBlock ++ hits.drop s)[i]? = if i < s then some nullBlock else hits[i]? := by
  rcases lt_or_ge i s with hi | hi
  · simp [getElem?_append_left, hi]
  · rw [getElem?_append_right (by simpa using hi), length_replicate, getElem?_drop,
      if_neg (not_lt.2 hi), Nat.add_sub_cancel' hi]

theorem NullsFirst.pad {hits : List ℕ} (h : NullsFirst nullBlock hits) (s : ℕ) :
    NullsFirst nullBlock (replicate s nullBlock ++ hits.drop s) := by
  intro i j hij hj
  rw [getElem?_replicate_append_drop] at hj ⊢
  split_ifs with hi
  · rfl
  · rw [if_neg (by omega)] at hj
    exact h i j hij hj

/-! ### The loop of `remove_skipped_blocks` -/

theorem getD_eq_of_lt {n : ℕ} (hn : n < blocks.length) : blocks.getD n nullBlock = blocks[n] := by
  simp [hn]

/-- The loop frees all blocks below `n` that are not null blocks, the last one first. It is enough
that null blocks come first below `n`, which the loop keeps while it goes down. -/
theorem removeLoop_of_nullsFirst (n : ℕ) (blocks : List ℕ) (hn : n ≤ blocks.length)
    (h : ∀ i j : ℕ, i ≤ j → j < n → blocks[j]? = some nullBlock → blocks[i]? = some nullBlock) :
    (removeLoop nullBlock n blocks).1 = ((blocks.take n).filter fun b => b ≠ nullBlock).reverse ∧
      ∀ i, (removeLoop nullBlock n blocks).2[i]? =
        if i < n then some nullBlock else blocks[i]? := by
  induction n generalizing blocks with
  | zero => simp [removeLoop]
  | succ n ih =>
    have hlt : n < blocks.length := hn
    have hget : blocks[n]? = some (blocks.getD n nullBlock) := by
      rw [getD_eq_of_lt hlt, getElem?_eq_getElem]
    have htake : blocks.take (n + 1) = blocks.take n ++ [blocks.getD n nullBlock] := by
      rw [take_add_one, hget, toList_some]
    simp only [removeLoop]
    generalize blocks.getD n nullBlock = b at hget htake ⊢
    rw [htake]
    by_cases hnull : b = nullBlock
    · -- the loop stops, since all blocks below are null blocks
      rw [hnull] at hget
      have hbelow : ∀ i ≤ n, blocks[i]? = some nullBlock :=
        fun i hi => h i n hi (lt_succ_self n) hget
      have hall : ∀ b ∈ blocks.take n, b = nullBlock := by
        intro b hb
        obtain ⟨i, hi, rfl⟩ := mem_take_iff_getElem.1 hb
        have := hbelow i (by omega)
        rwa [getElem?_eq_getElem, some_inj] at this
      have hnone : (blocks.take n).filter (fun b => b ≠ nullBlock) = [] := by
        simpa using hall
      simp only [hnull, if_true, filter_append, hnone]
      refine ⟨by simp, fun i => ?_⟩
      split_ifs with hi
      · exact hbelow i (Nat.lt_succ_iff.1 hi)
      · rfl
    · obtain ⟨hfreed, hleft⟩ := ih (blocks.set n nullBlock) (by rw [length_set]; omega)
        fun i j hij hj hnullj => by
          rw [getElem?_set_ne (by omega)] at hnullj ⊢
          exact h i j hij (by omega) hnullj
      simp only [if_neg hnull]
      refine ⟨?_, fun i => ?_⟩
      · rw [hfreed, take_set_of_le le_rfl]
        simp [hnull]
      · rw [hleft]
        by_cases hin : i = n
        · subst hin
          rw [if_neg (lt_irrefl i), getElem?_set_self hlt, if_pos (lt_succ_self i)]
        · rw [getElem?_set_ne (Ne.symm hin)]
          split_ifs <;> first | rfl | omega

/-! ### The lists of the lookups -/

section

variable {δ : Type} {lookup : BlockHash δ → ℕ → Option ℕ} {hashes : List (BlockHash δ)}
  {gids : List ℕ}

/-- Cached blocks are no null blocks, and cells after a cached block are cached blocks. -/
theorem nullsFirst_cells {p : ℕ → Prop} [DecidablePred p] {n g : ℕ}
    (hlookup : ∀ h g, lookup h g ≠ some nullBlock)
    (hhit : ∀ i < n, p i → Hit lookup hashes gids i) (hup : ∀ i j, i ≤ j → j < n → p i → p j)
    (hg : g ∈ gids) : NullsFirst nullBlock (cells lookup nullBlock hashes p n g) := by
  intro i j hij hj
  have hjn : j < n := by
    have := (List.getElem?_eq_some_iff.1 hj).1
    rwa [length_cells] at this
  have hget : ∀ k < n, (cells lookup nullBlock hashes p n g)[k]? =
      some (if p k then cell lookup nullBlock hashes k g else nullBlock) := by
    intro k hk
    simp [cells, hk]
  rw [hget j hjn, some_inj] at hj
  rw [hget i (by omega), some_inj]
  have hpj : ¬ p j := by
    intro hp
    rw [if_pos hp] at hj
    obtain ⟨h, -, hcell⟩ := @Hit.cell _ _ nullBlock _ _ _ _ (hhit j hjn hp) hg
    rw [hj] at hcell
    exact hlookup h g hcell
  exact if_neg fun hp => hpj (hup i j hij hjn hp)

end

namespace KVCacheManager

variable {δ : Type} {hasher : BlockHasher δ} {kv : KVCacheManager δ}
  {request : SchedulerRequest hasher} {first : ℕ}

theorem Sound.lookup_ne_nullBlock (h : Sound hasher first kv) (blockHash : BlockHash δ) (g : ℕ) :
    kv.blockPool.lookup blockHash g ≠ some kv.blockPool.nullBlock := by
  intro hlookup
  refine h.ne_nullBlock (h.indexed.usable _ ?_) rfl
  rw [blockHash_of_lookup h.indexed hlookup, isSome_some]

/-- **The hits of a request** start with the null blocks. -/
theorem getComputedBlocks_nullsFirst (h : Sound hasher first kv) {blocks : List (List ℕ)} {L : ℕ}
    (hget : kv.getComputedBlocks request = .ok (blocks, L)) :
    ∀ l ∈ blocks, NullsFirst kv.blockPool.nullBlock l := by
  have hlookup := h.lookup_ne_nullBlock
  have hfits := h.ready.fits
  unfold getComputedBlocks at hget
  split_ifs at hget
  · cases hget
    simp [emptyKVCacheBlocks]
  cases hco : kv.coordinator with
  | noPrefixCache n =>
    rw [hco] at hget
    cases hget
    intro l hl
    rw [eq_of_mem_replicate hl]
    exact nullsFirst_nil _
  | unitary spec worldSize useEagle =>
    rw [hco] at hget hfits
    obtain ⟨hworld, c, hconfigs, rfl, hblock, hsize⟩ := hfits
    obtain ⟨found, hfind, hret⟩ := bind_ok.1 hget
    cases hret
    have hlen := le_length_blockHashes request (hblock.symm.trans hsize)
    rw [← Nat.div_one request.blockHashes.length, ← length_blockHashList] at hlen
    obtain ⟨n, p, _, rfl, -, -, hcovers, hup⟩ :=
      findLongestCacheHit_cells hworld (cons_ne_nil 0 []) hlen hfind
    intro l hl
    obtain ⟨g, hg, rfl⟩ := List.mem_map.1 hl
    exact nullsFirst_cells hlookup hcovers.hit hup hg
  | hybrid coordinator =>
    rw [hco] at hget hfits
    obtain ⟨hspecs, hsize, hblock⟩ := hfits
    have hlen := le_length_blockHashes request hsize
    obtain ⟨-, hitBlocks, rfl, hholds⟩ :=
      HybridKVCacheCoordinator.findLongestCacheHit_holdsHit hlen hget
    intro l hl
    obtain ⟨g, hg, rfl⟩ := List.mem_map.1 hl
    obtain ⟨a, ha, -, hga⟩ := coordinator.splits.exists_mem g _
      (getElem?_eq_getElem (mem_range.1 hg))
    obtain ⟨n, p, _, -, hcells, hcovers, hup⟩ := hholds a ha
    rw [hcells g hga, getD_some]
    exact nullsFirst_cells hlookup hcovers.hit hup hga

end KVCacheManager

end LoptVllm.KVCache
