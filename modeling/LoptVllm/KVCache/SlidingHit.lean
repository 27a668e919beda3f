import LoptVllm.KVCache.ValidHit

/-!
# The prefix hit of a sliding window group

The general result about valid hits, in the words of the sliding window manager: the last
`sliding_window - 1` tokens before the hit's end have to be cached, and the rest of the list is null.
-/

namespace LoptVllm.KVCache

variable {δ : Type*}

/-- Block `i` holds one of the last `slidingWindow - 1` tokens before the end of `n` blocks. -/
def OverlapsWindow (blockSize slidingWindow n i : ℕ) : Prop :=
  ∃ t < n * blockSize, n * blockSize < t + slidingWindow ∧ t / blockSize = i

section

variable (lookup : BlockHash δ → ℕ → Option ℕ) (hashes : List (BlockHash δ)) (gids : List ℕ)
  (blockSize slidingWindow : ℕ)

/-- The lengths, in blocks, at which a prefix hit may end. -/
def windowHits (maxLength alignment : ℕ) : Set ℕ :=
  {n | alignment ∣ n * blockSize ∧ n * blockSize ≤ maxLength ∧
    ∀ i, OverlapsWindow blockSize slidingWindow n i → Hit lookup hashes gids i}

/-- The list of group `g` for a hit of `n` blocks: the cached blocks in the window, and the null
block before it. -/
structure WindowBlocks (nullBlock n g : ℕ) (blocks : List ℕ) : Prop where
  length : blocks.length = n
  cached : ∀ i, OverlapsWindow blockSize slidingWindow n i →
    ∃ h b, hashes[i]? = some h ∧ lookup h g = some b ∧ blocks[i]? = some b
  null : ∀ i < n, ¬ OverlapsWindow blockSize slidingWindow n i → blocks[i]? = some nullBlock

/-- The lookup returns the longest hit, with one list for each group. -/
def LongestWindow (nullBlock maxLength alignment : ℕ) : Prop := ∃ n found,
    IsGreatest (windowHits lookup hashes gids blockSize slidingWindow maxLength alignment) n ∧
    findSliding lookup nullBlock hashes maxLength gids blockSize slidingWindow false alignment =
      .ok found ∧
    List.Forall₂ (WindowBlocks lookup hashes blockSize slidingWindow nullBlock n) gids found

end

variable {lookup : BlockHash δ → ℕ → Option ℕ} {hashes : List (BlockHash δ)} {gids : List ℕ}
  {blockSize slidingWindow maxLength alignment nullBlock n i : ℕ}

/-- From two tokens on, the window of the manager is the one of the attention. -/
theorem needed_iff_overlapsWindow {spec : KVCacheSpec}
    (hkind : spec.kind = .slidingWindow slidingWindow) (hw : 2 ≤ slidingWindow) :
    Needed spec (n * spec.blockSize) i ↔ OverlapsWindow spec.blockSize slidingWindow n i := by
  simp only [Needed, hkind, Attends]
  refine exists_congr fun t => and_congr_right fun _ => ?_
  rw [and_comm]
  exact and_congr_left fun _ => by omega

theorem OverlapsWindow.lt (hbs : 0 < blockSize) (h : OverlapsWindow blockSize slidingWindow n i) :
    i < n := by
  obtain ⟨t, ht, -, rfl⟩ := h
  exact (Nat.div_lt_iff_lt_mul hbs).2 ht

theorem windowBlocks_cells (hbs : 0 < blockSize) {p : ℕ → Prop} [DecidablePred p]
    (hp : ∀ i < n, p i ↔ OverlapsWindow blockSize slidingWindow n i)
    (hhit : ∀ i, OverlapsWindow blockSize slidingWindow n i → Hit lookup hashes gids i) {g : ℕ}
    (hg : g ∈ gids) : WindowBlocks lookup hashes blockSize slidingWindow nullBlock n g
      (cells lookup nullBlock hashes p n g) := by
  have hget : ∀ i < n, (cells lookup nullBlock hashes p n g)[i]? =
      some (if p i then cell lookup nullBlock hashes i g else nullBlock) := by
    intro i hi
    simp [cells, hi]
  refine ⟨length_cells n g, fun i hi => ?_, fun i hi hnot => ?_⟩
  · have hin := hi.lt hbs
    obtain ⟨h, hhash, hlookup⟩ := @Hit.cell _ _ nullBlock _ _ _ _ (hhit i hi) hg
    refine ⟨h, _, hhash, hlookup, ?_⟩
    rw [hget i hin, if_pos ((hp i hin).2 hi)]
  · rw [hget i hi, if_neg (mt (hp i hi).1 hnot)]

/-- **The sliding window manager finds the longest hit**, when `max_length` is covered by the hash
list. -/
theorem findSliding_longestWindow (lookup : BlockHash δ → ℕ → Option ℕ) (nullBlock : ℕ)
    (hbs : 0 < blockSize) (hw : 2 ≤ slidingWindow)
    (halign : ∃ k, 0 < k ∧ alignment = blockSize * k) (hg : gids ≠ [])
    (hlen : maxLength / blockSize ≤ hashes.length) :
    LongestWindow lookup hashes gids blockSize slidingWindow nullBlock maxLength alignment := by
  obtain ⟨k, -, rfl⟩ := halign
  let spec : KVCacheSpec := ⟨.slidingWindow slidingWindow, blockSize, 0, hbs, by simp⟩
  have hneed : ∀ {n i : ℕ}, Needed spec (n * blockSize) i ↔
      OverlapsWindow blockSize slidingWindow n i :=
    fun {n i} => @needed_iff_overlapsWindow _ n i spec rfl hw
  obtain ⟨L, hfind, hfloor⟩ := @findLongestCacheHit_isFloor _ lookup _ _ spec _ _ nullBlock hg nofun
      (Nat.dvd_mul_right _ _) nofun hlen
  -- a valid hit is a whole number of blocks
  obtain ⟨n, rfl⟩ : ∃ n, L = n * blockSize := by
    obtain ⟨n, rfl⟩ := hfloor.mem.2.1
    exact ⟨n, Nat.mul_comm _ _⟩
  have hhit : ∀ i, OverlapsWindow blockSize slidingWindow n i → Hit lookup hashes gids i :=
    fun i hi => hfloor.mem.2.2 i (hneed.2 hi)
  refine ⟨n, _, ⟨⟨hfloor.mem.1, hfloor.le, hhit⟩, ?_⟩, hfind, ?_⟩
  · rintro m ⟨halign, hm, hmhit⟩
    refine Nat.le_of_mul_le_mul_right (hfloor.le_of_mem ⟨halign, ⟨m, Nat.mul_comm _ _⟩, ?_⟩ hm) hbs
    exact fun i hi => hmhit i (hneed.1 hi)
  · rw [List.forall₂_map_right_iff, List.forall₂_same]
    intro g hmem
    have hdiv : n * blockSize / spec.blockSize = n := Nat.mul_div_cancel n hbs
    rw [hdiv]
    exact windowBlocks_cells hbs (fun i _ => hneed) hhit hmem

/-- Blocks 1, 2 and 3 of four are cached, and the window needs two blocks. -/
theorem findSliding_longestWindow_four :
    LongestWindow (fun h _ => if h = [7] then none else some 5) [[7], [8], [9], [10]] [0] 2 4 0 8
      2 :=
  findSliding_longestWindow _ 0 (by decide) (by decide) ⟨1, by decide⟩ (by decide) (by decide)

/-- The lookup reads the hash list up to `max_length`. -/
theorem not_longestWindow_short :
    ¬ LongestWindow (fun (_ : BlockHash ℕ) _ => none) [] [0] 1 2 0 1 1 := by
  rintro ⟨n, found, -, hfind, -⟩
  cases hfind

end LoptVllm.KVCache
