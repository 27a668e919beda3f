import LoptVllm.KVCache.Spec
import LoptVllm.Python

/-!
# The longest cache hit of one attention type

`find_longest_cache_hit` of the single-type managers. What is cached is a function `lookup` from
hashes and group ids to blocks. The groups `gids` of one attention type are looked up together: a
block counts as cached when all of them have it.
-/

namespace LoptVllm.KVCache

open List Function Nat

variable {δ : Type*}

/-- `BlockPool.get_cached_block`. -/
def getCachedBlock (lookup : BlockHash δ → ℕ → Option ℕ) (blockHash : BlockHash δ)
    (gids : List ℕ) : Option (List ℕ) :=
  gids.mapM fun g => lookup blockHash g

/-- `while block_size != alignment_tokens and len(computed_blocks[0]) * block_size %
alignment_tokens != 0`, dropping a block of every group in a round. -/
def popUnaligned (blockSize alignment : ℕ) : ℕ → List (List ℕ) → List (List ℕ)
  | 0, computed => computed
  | fuel + 1, computed =>
    if blockSize ≠ alignment ∧ (computed.headD []).length * blockSize % alignment ≠ 0 then
      popUnaligned blockSize alignment fuel (computed.map dropLast)
    else computed

/-- The loop of the full attention manager over the block hashes. -/
def fullLoop (lookup : BlockHash δ → ℕ → Option ℕ) (gids : List ℕ) :
    List (BlockHash δ) → List (List ℕ) → List (List ℕ)
  | [], computed => computed
  | blockHash :: hashes, computed =>
    match getCachedBlock lookup blockHash gids with
    | some cached =>
      fullLoop lookup gids hashes (computed.zipWith (fun blocks b => blocks ++ [b]) cached)
    | none => computed

/-- `FullAttentionManager.find_longest_cache_hit`. -/
def findFull (lookup : BlockHash δ → ℕ → Option ℕ) (hashes : List (BlockHash δ)) (maxLength : ℕ)
    (gids : List ℕ) (blockSize : ℕ) (useEagle : Bool) (alignment : ℕ) : List (List ℕ) :=
  let maxNumBlocks := maxLength / blockSize
  let computed := fullLoop lookup gids (hashes.take maxNumBlocks) (gids.map fun _ => [])
  let computed :=
    if useEagle && !(computed.headD []).isEmpty then computed.map dropLast else computed
  popUnaligned blockSize alignment (computed.headD []).length computed

/-- The loop of the sliding window manager, with the blocks below `i` still to be looked at. It
returns the number of contiguous blocks, the lists, and whether a match was found. -/
def slidingLoop (lookup : BlockHash δ → ℕ → Option ℕ) (hashes : List (BlockHash δ))
    (gids : List ℕ) (blockSize alignment slidingWindowContiguousBlocks : ℕ) :
    ℕ → ℕ → List (List ℕ) → Except PyErr (ℕ × List (List ℕ) × Bool)
  | 0, numContiguousBlocks, computed => .ok (numContiguousBlocks, computed, false)
  | i + 1, numContiguousBlocks, computed =>
    match hashes[i]? with
    | none => .error (.indexError "list index out of range")
    | some blockHash =>
      match getCachedBlock lookup blockHash gids with
      | some cached =>
        if numContiguousBlocks = 0 ∧ blockSize ≠ alignment ∧ (i + 1) * blockSize % alignment ≠ 0
        then slidingLoop lookup hashes gids blockSize alignment slidingWindowContiguousBlocks i
          numContiguousBlocks computed
        else
          let computed := computed.zipWith (fun blocks b => blocks.set i b) cached
          if numContiguousBlocks + 1 ≥ slidingWindowContiguousBlocks then
            .ok (numContiguousBlocks + 1, computed.map (take (i + (numContiguousBlocks + 1))), true)
          else slidingLoop lookup hashes gids blockSize alignment slidingWindowContiguousBlocks i
            (numContiguousBlocks + 1) computed
      | none =>
        slidingLoop lookup hashes gids blockSize alignment slidingWindowContiguousBlocks i 0 computed

/-- `SlidingWindowManager.find_longest_cache_hit`. -/
def findSliding (lookup : BlockHash δ → ℕ → Option ℕ) (nullBlock : ℕ)
    (hashes : List (BlockHash δ)) (maxLength : ℕ) (gids : List ℕ) (blockSize slidingWindow : ℕ)
    (useEagle : Bool) (alignment : ℕ) : Except PyErr (List (List ℕ)) := do
  let contiguous := cdiv (slidingWindow - 1) blockSize + if useEagle then 1 else 0
  let maxNumBlocks := maxLength / blockSize
  let computed := gids.map fun _ => replicate maxNumBlocks nullBlock
  let (numContiguousBlocks, computed, matchFound) ←
    slidingLoop lookup hashes gids blockSize alignment contiguous maxNumBlocks 0 computed
  let computed := if matchFound then computed
    else
      let computed := computed.map (take numContiguousBlocks)
      popUnaligned blockSize alignment (computed.headD []).length computed
  if useEagle && !(computed.headD []).isEmpty then
    if blockSize ≠ alignment then
      .error (.assertionError "aligned_length is not compatible with eagle now")
    else return computed.map dropLast
  else return computed

/-- The loop of the chunked local attention manager, from block `i` on. -/
def chunkedLoop (lookup : BlockHash δ → ℕ → Option ℕ) (hashes : List (BlockHash δ))
    (gids : List ℕ) : ℕ → ℕ → List (List ℕ) → Except PyErr (List (List ℕ))
  | 0, _, computed => .ok computed
  | n + 1, i, computed =>
    match hashes[i]? with
    | none => .error (.indexError "list index out of range")
    | some blockHash =>
      match getCachedBlock lookup blockHash gids with
      | some cached =>
        chunkedLoop lookup hashes gids n (i + 1)
          (computed.zipWith (fun blocks b => blocks ++ [b]) cached)
      | none => .ok computed

/-- `ChunkedLocalAttentionManager.find_longest_cache_hit`. -/
def findChunked (lookup : BlockHash δ → ℕ → Option ℕ) (nullBlock : ℕ)
    (hashes : List (BlockHash δ)) (maxLength : ℕ) (gids : List ℕ)
    (blockSize attentionChunkSize : ℕ) (useEagle : Bool) (alignment worldSize : ℕ) :
    Except PyErr (List (List ℕ)) :=
  if useEagle then
    .error (.assertionError "Hybrid KV cache is not supported for eagle + chunked local attention.")
  else if worldSize ≠ 1 then .error (.assertionError "DCP not support chunked local attn now.")
  else if blockSize ≠ alignment then
    .error (.assertionError
      "KV cache groups with different block sizes are not compatible with chunked local attention now")
  else
    let maxNumBlocks := maxLength / blockSize
    let localAttentionStartIdx := maxLength / attentionChunkSize * attentionChunkSize
    let startBlockIdx := localAttentionStartIdx / blockSize
    chunkedLoop lookup hashes gids (maxNumBlocks - startBlockIdx) startBlockIdx
      (gids.map fun _ => replicate startBlockIdx nullBlock)

/-- The loop of the mamba manager, with the blocks below `i` still to be looked at. -/
def mambaLoop (lookup : BlockHash δ → ℕ → Option ℕ) (nullBlock : ℕ) (hashes : List (BlockHash δ))
    (gids : List ℕ) (blockSize alignment : ℕ) : ℕ → Except PyErr (List (List ℕ))
  | 0 => .ok (gids.map fun _ => [])
  | i + 1 =>
    match hashes[i]? with
    | none => .error (.indexError "list index out of range")
    | some blockHash =>
      match getCachedBlock lookup blockHash gids with
      | some cached =>
        if blockSize ≠ alignment ∧ (i + 1) * blockSize % alignment ≠ 0 then
          mambaLoop lookup nullBlock hashes gids blockSize alignment i
        else .ok (cached.map fun b => replicate i nullBlock ++ [b])
      | none => mambaLoop lookup nullBlock hashes gids blockSize alignment i

/-- `find_longest_cache_hit` of the manager of a spec; only the full attention manager supports
context parallelism, which multiplies its block size by `worldSize`. -/
def findLongestCacheHit (lookup : BlockHash δ → ℕ → Option ℕ) (nullBlock : ℕ)
    (hashes : List (BlockHash δ)) (maxLength : ℕ) (gids : List ℕ) (spec : KVCacheSpec)
    (useEagle : Bool) (alignment worldSize : ℕ) : Except PyErr (List (List ℕ)) :=
  match spec.kind with
  | .full | .sinkFull _ =>
    .ok (findFull lookup hashes maxLength gids (spec.blockSize * worldSize) useEagle alignment)
  | .slidingWindow w =>
    if worldSize ≠ 1 then .error (.assertionError "DCP not support sliding window attn now.")
    else findSliding lookup nullBlock hashes maxLength gids spec.blockSize w useEagle alignment
  | .chunkedLocal c =>
    findChunked lookup nullBlock hashes maxLength gids spec.blockSize c useEagle alignment worldSize
  | .mamba _ =>
    if worldSize ≠ 1 then .error (.assertionError "DCP not support mamba now.")
    else mambaLoop lookup nullBlock hashes gids spec.blockSize alignment
      (maxLength / spec.blockSize)
  | .cross => .error .notImplementedError

/-! ### Cells

All lists the loops build have the same shape: in the list of group `g`, cell `i` is the block
cached under the `i`-th hash where a predicate says so, and the null block elsewhere. -/

section

variable (lookup : BlockHash δ → ℕ → Option ℕ) (nullBlock : ℕ) (hashes : List (BlockHash δ))
  (gids : List ℕ)

/-- Block `i` is cached for all groups. -/
def Hit (i : ℕ) : Prop := ∃ h ∈ hashes[i]?, ∀ g ∈ gids, (lookup h g).isSome

instance : DecidablePred (Hit lookup hashes gids) := fun i =>
  inferInstanceAs (Decidable (∃ h ∈ hashes[i]?, ∀ g ∈ gids, (lookup h g).isSome))

/-- The block of group `g` under the `i`-th hash. -/
def cell (i g : ℕ) : ℕ := (hashes[i]?.bind fun h => lookup h g).getD nullBlock

/-- The first `n` cells of group `g`, with the null block where `p` fails. -/
def cells (p : ℕ → Prop) [DecidablePred p] (n g : ℕ) : List ℕ :=
  (List.range n).map fun i => if p i then cell lookup nullBlock hashes i g else nullBlock

end

variable {lookup : BlockHash δ → ℕ → Option ℕ} {nullBlock : ℕ} {hashes : List (BlockHash δ)}
  {gids : List ℕ} {p : ℕ → Prop} [DecidablePred p]

@[simp] theorem length_cells (n g : ℕ) : (cells lookup nullBlock hashes p n g).length = n := by
  simp [cells]

theorem cells_succ (n g : ℕ) :
    cells lookup nullBlock hashes p (n + 1) g = cells lookup nullBlock hashes p n g ++
      [if p n then cell lookup nullBlock hashes n g else nullBlock] := by
  simp [cells, range_succ]

@[simp] theorem dropLast_cells (n g : ℕ) :
    (cells lookup nullBlock hashes p n g).dropLast = cells lookup nullBlock hashes p (n - 1) g := by
  cases n with
  | zero => rfl
  | succ n => rw [cells_succ, dropLast_concat, Nat.add_sub_cancel]

variable {n : ℕ}

theorem take_cells {m : ℕ} (h : m ≤ n) (g : ℕ) :
    (cells lookup nullBlock hashes p n g).take m = cells lookup nullBlock hashes p m g := by
  rw [cells, ← map_take, take_range, min_eq_left h]
  rfl

theorem cells_congr {q : ℕ → Prop} [DecidablePred q] (h : ∀ i < n, p i ↔ q i) (g : ℕ) :
    cells lookup nullBlock hashes p n g = cells lookup nullBlock hashes q n g := by
  refine map_congr_left fun i hi => ?_
  simp [h i (mem_range.1 hi)]

theorem cells_eq_replicate (h : ∀ i < n, ¬ p i) (g : ℕ) :
    cells lookup nullBlock hashes p n g = replicate n nullBlock := by
  refine eq_replicate_iff.2 ⟨length_cells n g, fun b hb => ?_⟩
  obtain ⟨i, hi, rfl⟩ := mem_map.1 hb
  exact if_neg (h i (mem_range.1 hi))

variable (lookup nullBlock gids) in
/-- A lookup finds the cells of all groups, or misses. -/
theorem getCachedBlock_cases {i : ℕ} {h : BlockHash δ} (hi : hashes[i]? = some h) :
    (Hit lookup hashes gids i ∧
      getCachedBlock lookup h gids = some (gids.map (cell lookup nullBlock hashes i))) ∨
    (¬ Hit lookup hashes gids i ∧ getCachedBlock lookup h gids = none) := by
  have hhit : Hit lookup hashes gids i ↔ ∀ g ∈ gids, (lookup h g).isSome := by
    simp [Hit, hi]
  have hcell : ∀ g, cell lookup nullBlock hashes i g = (lookup h g).getD nullBlock := by
    simp [cell, hi]
  rw [hhit]
  unfold getCachedBlock
  clear hhit
  induction gids with
  | nil => exact .inl ⟨nofun, rfl⟩
  | cons g gids ih =>
    cases hg : lookup h g with
    | none => exact .inr ⟨fun hall => by simpa [hg] using hall g, by simp [hg]⟩
    | some b =>
      rcases ih with ⟨hall, heq⟩ | ⟨hall, heq⟩
      · refine .inl ⟨forall_mem_cons.2 ⟨by simp [hg], hall⟩, ?_⟩
        simp [hg, heq, hcell]
      · exact .inr ⟨fun h' => hall (forall_mem_cons.1 h').2, by simp [heq]⟩

theorem Hit.lt_length {i : ℕ} (h : Hit lookup hashes gids i) : i < hashes.length := by
  obtain ⟨b, hb, -⟩ := h
  exact (List.getElem?_eq_some_iff.1 hb).1

variable {g : ℕ}

theorem Hit.cell {i : ℕ} (h : Hit lookup hashes gids i) (hg : g ∈ gids) :
    ∃ b, hashes[i]? = some b ∧ lookup b g = some (cell lookup nullBlock hashes i g) := by
  obtain ⟨b, hb, hall⟩ := h
  obtain ⟨c, hc⟩ := Option.isSome_iff_exists.1 (hall g hg)
  refine ⟨b, hb, ?_⟩
  simp [KVCache.cell, Option.mem_def.1 hb, Option.bind_some, hc, Option.getD_some]

theorem zipWith_map_self {β γ ε : Type*} (f : β → γ → ε) (u : ℕ → β) (v : ℕ → γ) (l : List ℕ) :
    (l.map u).zipWith f (l.map v) = l.map fun g => f (u g) (v g) := by
  rw [zipWith_map, zipWith_self]

/-! ### Dropping unaligned blocks -/

/-- `m` blocks end at a multiple of the alignment. -/
def Aligned (blockSize alignment m : ℕ) : Prop := alignment ∣ m * blockSize

variable (lookup nullBlock hashes p) in
theorem popUnaligned_cells (blockSize alignment : ℕ) (hg : gids ≠ []) (n : ℕ) :
    ∃ m ≤ n, popUnaligned blockSize alignment n (gids.map (cells lookup nullBlock hashes p n)) =
        gids.map (cells lookup nullBlock hashes p m) ∧
      Aligned blockSize alignment m ∧ ∀ m' ≤ n, Aligned blockSize alignment m' → m' ≤ m := by
  induction n with
  | zero => exact ⟨0, le_rfl, rfl, ⟨0, by simp⟩, fun m' h _ => h⟩
  | succ n ih =>
    have hlen : ((gids.map (cells lookup nullBlock hashes p (n + 1))).headD []).length = n + 1 := by
      cases gids with
      | nil => exact absurd rfl hg
      | cons g gids => simp
    simp only [popUnaligned, hlen]
    split_ifs with h
    · obtain ⟨m, hm, heq, halign, hmax⟩ := ih
      refine ⟨m, hm.trans (le_succ n), ?_, halign, fun m' hm' h' => ?_⟩
      · rw [← heq, map_map]
        congr 1
        exact map_congr_left fun g _ => dropLast_cells (n + 1) g
      · rcases lt_or_ge m' (n + 1) with hlt | hge
        · exact hmax m' (Nat.lt_succ_iff.1 hlt) h'
        · obtain rfl : m' = n + 1 := le_antisymm hm' hge
          exact absurd (mod_eq_zero_of_dvd h') h.2
    · refine ⟨n + 1, le_rfl, rfl, ?_, fun m' hm' _ => hm'⟩
      rw [not_and_or, not_not, not_not] at h
      rcases h with rfl | h
      · exact ⟨n + 1, Nat.mul_comm _ _⟩
      · exact dvd_of_mod_eq_zero h

/-! ### Full attention -/

variable (lookup nullBlock gids) in
/-- The run of hits that the full attention manager finds among the first `M` blocks. -/
theorem fullLoop_cells {M : ℕ} (hs : List (BlockHash δ)) (k : ℕ)
    (hk : (hashes.take M).drop k = hs) (hkM : k ≤ M) (hhit : ∀ i < k, Hit lookup hashes gids i) :
    ∃ n, k ≤ n ∧ n ≤ M ∧ fullLoop lookup gids hs
        (gids.map (cells lookup nullBlock hashes (fun _ => True) k)) =
          gids.map (cells lookup nullBlock hashes (fun _ => True) n) ∧
      (∀ i < n, Hit lookup hashes gids i) ∧ (n < M → ¬ Hit lookup hashes gids n) := by
  induction hs generalizing k with
  | nil =>
    refine ⟨k, le_rfl, hkM, rfl, hhit, fun hlt h => ?_⟩
    have hlen := congrArg List.length hk
    have := h.lt_length
    simp only [length_drop, length_take, length_nil] at hlen
    omega
  | cons h hs ih =>
    have hget : (hashes.take M)[k]? = some h := by
      have := congrArg List.head? hk
      rwa [head?_drop, head?_cons] at this
    have hkM' : k < M := by
      have hlt := (List.getElem?_eq_some_iff.1 hget).1
      rw [length_take] at hlt
      omega
    rw [getElem?_take_of_lt hkM'] at hget
    rcases getCachedBlock_cases lookup nullBlock gids hget with ⟨hit, heq⟩ | ⟨hit, heq⟩
    · have hnext : (hashes.take M).drop (k + 1) = hs := by
        rw [← tail_drop, hk, tail_cons]
      have hhit' : ∀ i < k + 1, Hit lookup hashes gids i := by
        intro i hi
        rcases Nat.lt_succ_iff_lt_or_eq.1 hi with hlt | rfl
        · exact hhit i hlt
        · exact hit
      obtain ⟨n, hn, hnM, hloop, hall, hmax⟩ := ih (k + 1) hnext hkM' hhit'
      refine ⟨n, le_of_succ_le hn, hnM, ?_, hall, hmax⟩
      rw [← hloop]
      simp only [fullLoop, heq, zipWith_map_self]
      congr 1
      exact map_congr_left fun g _ => by rw [cells_succ, if_pos trivial]
    · exact ⟨k, le_rfl, hkM, by simp only [fullLoop, heq], hhit, fun _ => hit⟩

variable (lookup nullBlock hashes) in
/-- The full attention manager returns the longest aligned run of hits; with EAGLE, of the run
without its last block. -/
theorem findFull_cells (blockSize alignment : ℕ) (hg : gids ≠ []) (maxLength : ℕ)
    (useEagle : Bool) : ∃ n, findFull lookup hashes maxLength gids blockSize useEagle alignment =
        gids.map (cells lookup nullBlock hashes (fun _ => True) n) ∧
      n ≤ maxLength / blockSize ∧ Aligned blockSize alignment n ∧
      (∀ i < n, Hit lookup hashes gids i) ∧
      ∃ run ≤ maxLength / blockSize, (∀ i < run, Hit lookup hashes gids i) ∧
        (run < maxLength / blockSize → ¬ Hit lookup hashes gids run) ∧
        n ≤ run - (if useEagle then 1 else 0) ∧
        ∀ m ≤ run - (if useEagle then 1 else 0), Aligned blockSize alignment m → m ≤ n := by
  obtain ⟨run, -, hrunM, hloop, hall, hmiss⟩ := fullLoop_cells lookup nullBlock gids
    ((hashes.take (maxLength / blockSize)).drop 0) 0 rfl
    (zero_le _) nofun
  set rows := fun n => gids.map (cells lookup nullBlock hashes (fun _ => True) n)
  set kept := run - (if useEagle then 1 else 0) with hkept
  have hhead : ∀ n, ((rows n).headD []).length = n := by
    cases gids with
    | nil => exact absurd rfl hg
    | cons g gids => simp [rows]
  -- the lists after the EAGLE drop
  have hdrop : ∃ computed, findFull lookup hashes maxLength gids blockSize useEagle alignment =
        popUnaligned blockSize alignment (computed.headD []).length computed ∧
      computed = rows kept := by
    refine ⟨_, rfl, ?_⟩
    have hloop : fullLoop lookup gids (hashes.take (maxLength / blockSize)) (gids.map fun _ => []) =
        rows run := hloop
    simp only [hloop]
    cases useEagle with
    | false => simp [kept]
    | true =>
      cases run with
      | zero => cases gids <;> simp [rows, kept, cells]
      | succ run =>
        have hne : ((rows (run + 1)).headD []).isEmpty = false := by
          have := hhead (run + 1)
          cases hd : (rows (run + 1)).headD [] with
          | nil => rw [hd] at this; cases this
          | cons _ _ => rfl
        simp only [hne, rows, map_map]
        exact map_congr_left fun g _ => dropLast_cells (run + 1) g
  obtain ⟨computed, hfind, rfl⟩ := hdrop
  rw [hhead] at hfind
  obtain ⟨n, hn, hpop, halign, hmax⟩ := popUnaligned_cells lookup nullBlock hashes
    (fun _ => True) blockSize alignment hg kept
  exact ⟨n, hfind.trans hpop, by omega, halign, fun i hi => hall i (by omega), run, hrunM, hall,
    hmiss, hn, hmax⟩

/-! ### Sliding window attention -/

/-- The last `need` blocks before the end of block `m` are hits. -/
def SlidingHit (lookup : BlockHash δ → ℕ → Option ℕ) (hashes : List (BlockHash δ))
    (gids : List ℕ) (need m : ℕ) : Prop :=
  ∀ i < m, m ≤ i + need → Hit lookup hashes gids i

/-- A list of the sliding window loop: nothing is filled in below `j`, and the `n` cells from `j`
on are. -/
structure Window (lookup : BlockHash δ → ℕ → Option ℕ) (nullBlock : ℕ)
    (hashes : List (BlockHash δ)) (N j n g : ℕ) (blocks : List ℕ) : Prop where
  length : blocks.length = N
  null : ∀ i < j, blocks[i]? = some nullBlock
  filled : ∀ i, j ≤ i → i < j + n → blocks[i]? = some (cell lookup nullBlock hashes i g)

variable {N : ℕ} {blocks : List ℕ}

theorem Window.set {j : ℕ} (h : Window lookup nullBlock hashes N (j + 1) n g blocks) :
    Window lookup nullBlock hashes N j (n + 1) g
      (blocks.set j (cell lookup nullBlock hashes j g)) := by
  refine ⟨by rw [length_set, h.length], fun i hi => ?_, fun i hj hi => ?_⟩
  · rw [getElem?_set_ne (by omega)]
    exact h.null i (by omega)
  · rcases eq_or_lt_of_le hj with rfl | hlt
    · have hlen := (List.getElem?_eq_some_iff.1 (h.null j (lt_succ_self j))).1
      rw [getElem?_set_self hlen]
    · rw [getElem?_set_ne (by omega)]
      exact h.filled i (by omega) (by omega)

/-- After a miss, or at an unaligned block, the run is empty. -/
theorem Window.restart {j : ℕ} (h : Window lookup nullBlock hashes N (j + 1) n g blocks) :
    Window lookup nullBlock hashes N j 0 g blocks :=
  ⟨h.length, fun i hi => h.null i (by omega), fun i hj hi => by omega⟩

theorem Window.take {j : ℕ} (h : Window lookup nullBlock hashes N j n g blocks) (hN : j + n ≤ N) :
    blocks.take (j + n) = cells lookup nullBlock hashes (fun i => j ≤ i) (j + n) g := by
  refine ext_getElem? fun i => ?_
  rcases lt_or_ge i (j + n) with hi | hi
  · rw [getElem?_take_of_lt hi, cells, getElem?_map, getElem?_range hi]
    rcases lt_or_ge i j with hij | hij
    · rw [h.null i hij, Option.map_some, if_neg (by omega)]
    · rw [h.filled i hij hi, Option.map_some, if_pos hij]
  · rw [getElem?_eq_none (by rw [length_take, h.length]; omega),
      getElem?_eq_none (by simpa using hi)]

variable (lookup nullBlock hashes gids) in
/-- What the sliding window loop returns: either the rightmost aligned run of `need` hits, or the
run at the left end, which is too short. In both cases no longer hit exists. -/
theorem slidingLoop_spec (blockSize alignment need : ℕ) (hlen : N ≤ hashes.length) (j n : ℕ)
    (c : ℕ → List ℕ) (hN : j + n ≤ N) (hn : n < max 1 need)
    (hw : ∀ g, Window lookup nullBlock hashes N j n g (c g))
    (hhit : ∀ i, j ≤ i → i < j + n → Hit lookup hashes gids i)
    (halign : 0 < n → Aligned blockSize alignment (j + n))
    (hmax : ∀ m, j + n < m → m ≤ N → Aligned blockSize alignment m →
      ¬ SlidingHit lookup hashes gids (max 1 need) m) :
    (∃ j', slidingLoop lookup hashes gids blockSize alignment need j n (gids.map c) =
        .ok (max 1 need,
          gids.map (cells lookup nullBlock hashes (fun i => j' ≤ i) (j' + max 1 need)), true) ∧
      j' + max 1 need ≤ N ∧ Aligned blockSize alignment (j' + max 1 need) ∧
      (∀ i, j' ≤ i → i < j' + max 1 need → Hit lookup hashes gids i) ∧
      ∀ m, j' + max 1 need < m → m ≤ N → Aligned blockSize alignment m →
        ¬ SlidingHit lookup hashes gids (max 1 need) m) ∨
    (∃ n' c', slidingLoop lookup hashes gids blockSize alignment need j n (gids.map c) =
        .ok (n', gids.map c', false) ∧
      (∀ g, Window lookup nullBlock hashes N 0 n' g (c' g)) ∧ n' < max 1 need ∧ n' ≤ N ∧
      Aligned blockSize alignment n' ∧ (∀ i < n', Hit lookup hashes gids i) ∧
      ∀ m, n' < m → m ≤ N → Aligned blockSize alignment m →
        ¬ SlidingHit lookup hashes gids (max 1 need) m) := by
  induction j generalizing n c with
  | zero =>
    right
    simp only [Nat.zero_add] at hN hhit halign hmax
    refine ⟨n, c, rfl, hw, hn, hN, ?_, fun i hi => hhit i (zero_le i) hi, hmax⟩
    rcases Nat.eq_zero_or_pos n with rfl | hpos
    · exact ⟨0, by simp⟩
    · exact halign hpos
  | succ j ih =>
    have hj : j < hashes.length := by omega
    simp only [slidingLoop, getElem?_eq_getElem hj]
    rcases getCachedBlock_cases lookup nullBlock gids (getElem?_eq_getElem hj) with
      ⟨hit, heq⟩ | ⟨hit, heq⟩
    · -- the run grows to the left
      have hali : ¬ (n = 0 ∧ blockSize ≠ alignment ∧ (j + 1) * blockSize % alignment ≠ 0) →
          Aligned blockSize alignment (j + (n + 1)) := by
        intro hskip
        rw [show j + (n + 1) = j + 1 + n by omega]
        rcases Nat.eq_zero_or_pos n with rfl | hpos
        · rw [not_and_or, not_and_or, not_not, not_not] at hskip
          rcases hskip with h | rfl | h
          · exact absurd rfl h
          · exact ⟨j + 1, Nat.mul_comm _ _⟩
          · exact dvd_of_mod_eq_zero h
        · exact halign hpos
      have hhit' : ∀ {k}, k ≤ n + 1 → ∀ i, j ≤ i → i < j + k → Hit lookup hashes gids i := by
        intro k hk i hij hi
        rcases eq_or_lt_of_le hij with rfl | hlt
        · exact hit
        · exact hhit i (by omega) (by omega)
      simp only [heq, zipWith_map_self]
      split_ifs with hskip hfound
      · -- the run is empty and would end at an unaligned block
        obtain ⟨rfl, hne, hmod⟩ := hskip
        refine ih 0 c (by omega) (by omega) (fun g => (hw g).restart) (fun i _ _ => by omega)
          (fun h => absurd h (lt_irrefl 0)) fun m hm hmN hm' => ?_
        rcases eq_or_lt_of_le (succ_le_of_lt hm) with rfl | hlt
        · exact absurd (mod_eq_zero_of_dvd hm') hmod
        · exact hmax m (by omega) hmN hm'
      · left
        have hneed : n + 1 = max 1 need := by omega
        refine ⟨j, ?_, by omega, hneed ▸ hali hskip, hhit' (by omega), fun m hm => hmax m (by omega)⟩
        rw [← hneed, map_map]
        congr 3
        exact map_congr_left fun g _ => (hw g).set.take (by omega)
      · exact ih (n + 1) _ (by omega) (by omega) (fun g => (hw g).set) (hhit' le_rfl)
          (fun _ => hali hskip) fun m hm => hmax m (by omega)
    · -- a miss: no hit can end within the run
      simp only [heq]
      refine ih 0 c (by omega) (by omega) (fun g => (hw g).restart) (fun i _ _ => by omega)
        (fun h => absurd h (lt_irrefl 0)) fun m hm hmN hm' hs => ?_
      rcases lt_or_ge (j + 1 + n) m with hlt | hge
      · exact hmax m hlt hmN hm' hs
      · exact hit (hs j (by omega) (by omega))

/-- The blocks the sliding window manager looks for before a hit. -/
def slidingNeed (slidingWindow blockSize : ℕ) (useEagle : Bool) : ℕ :=
  max 1 (cdiv (slidingWindow - 1) blockSize + if useEagle then 1 else 0)

theorem headD_map_cells (hg : gids ≠ []) (n : ℕ) :
    ((gids.map (cells lookup nullBlock hashes p n)).headD []).length = n := by
  cases gids with
  | nil => exact absurd rfl hg
  | cons g gids => simp

theorem isEmpty_headD_map_cells (hg : gids ≠ []) (n : ℕ) :
    ((gids.map (cells lookup nullBlock hashes p n)).headD []).isEmpty = decide (n = 0) := by
  rw [← Bool.coe_iff_coe, List.isEmpty_iff, ← length_eq_zero_iff, headD_map_cells hg,
    decide_eq_true_iff]

theorem map_dropLast_cells (n : ℕ) : (gids.map (cells lookup nullBlock hashes p n)).map dropLast =
      gids.map (cells lookup nullBlock hashes p (n - 1)) := by
  rw [map_map]
  exact map_congr_left fun g _ => dropLast_cells n g

variable (lookup nullBlock) in
/-- The sliding window manager finds the longest aligned hit. With EAGLE it looks for one more
block and drops the last one, which it only does when its block size is the alignment. -/
theorem findSliding_cells {maxLength blockSize : ℕ} (slidingWindow alignment : ℕ) (hg : gids ≠ [])
    (useEagle : Bool) (hlen : maxLength / blockSize ≤ hashes.length) :
    ∃ n ≤ maxLength / blockSize, Aligned blockSize alignment n ∧
      SlidingHit lookup hashes gids (slidingNeed slidingWindow blockSize useEagle) n ∧
      (∀ m ≤ maxLength / blockSize, Aligned blockSize alignment m →
        SlidingHit lookup hashes gids (slidingNeed slidingWindow blockSize useEagle) m → m ≤ n) ∧
      findSliding lookup nullBlock hashes maxLength gids blockSize slidingWindow useEagle
          alignment = if useEagle ∧ n ≠ 0 then if blockSize ≠ alignment then
            .error (.assertionError "aligned_length is not compatible with eagle now")
          else .ok (gids.map (cells lookup nullBlock hashes
            (fun i => n ≤ i + slidingNeed slidingWindow blockSize useEagle) (n - 1)))
        else .ok (gids.map (cells lookup nullBlock hashes
          (fun i => n ≤ i + slidingNeed slidingWindow blockSize useEagle) n)) := by
  set need := slidingNeed slidingWindow blockSize useEagle with hneed
  rw [slidingNeed] at hneed
  -- it suffices to give the result of the loop
  suffices ∃ n k computed found, slidingLoop lookup hashes gids blockSize alignment
      (cdiv (slidingWindow - 1) blockSize + if useEagle then 1 else 0) (maxLength / blockSize) 0
      (gids.map fun _ => replicate (maxLength / blockSize) nullBlock) = .ok (k, computed, found) ∧
      (if found then computed
        else popUnaligned blockSize alignment ((computed.map (take k)).headD []).length
          (computed.map (take k))) =
        gids.map (cells lookup nullBlock hashes (fun i => n ≤ i + need) n) ∧
      n ≤ maxLength / blockSize ∧ Aligned blockSize alignment n ∧
      SlidingHit lookup hashes gids need n ∧ ∀ m ≤ maxLength / blockSize,
        Aligned blockSize alignment m → SlidingHit lookup hashes gids need m → m ≤ n by
    obtain ⟨n, k, computed, found, hloop, hcomputed, hn, halign, hhit, hmax⟩ := this
    refine ⟨n, hn, halign, hhit, hmax, ?_⟩
    simp only [findSliding, hloop, ok_bind]
    rw [hcomputed, isEmpty_headD_map_cells hg, map_dropLast_cells]
    cases useEagle <;> simp <;> rfl
  rcases slidingLoop_spec lookup nullBlock hashes gids blockSize alignment
      (cdiv (slidingWindow - 1) blockSize + if useEagle then 1 else 0) hlen
      (maxLength / blockSize) 0 (fun _ => replicate (maxLength / blockSize) nullBlock) le_rfl
      (by omega) (fun g => ⟨by simp, fun i hi => by simp [hi], fun i _ _ => by omega⟩)
      (fun i _ _ => by omega) (fun h => absurd h (lt_irrefl 0)) (fun m _ _ => by omega) with
    ⟨j, hloop, hN, halign, hhit, hmax⟩ | ⟨n, c, hloop, hw, hn, hN, halign, hhit, hmax⟩
  · refine ⟨j + need, _, _, _, hloop, ?_, hN, halign, fun i hi hin => hhit i (by omega) hi,
      fun m hm hm' hs => not_lt.1 fun hlt => hmax m hlt hm hm' hs⟩
    rw [if_pos rfl]
    exact map_congr_left fun g _ => cells_congr (fun i _ => by omega) g
  · refine ⟨n, _, _, _, hloop, ?_, hN, halign, fun i hi _ => hhit i hi,
      fun m hm hm' hs => not_lt.1 fun hlt => hmax m hlt hm hm' hs⟩
    have htake : (gids.map c).map (take n) =
        gids.map (cells lookup nullBlock hashes (fun i => n ≤ i + need) n) := by
      rw [map_map]
      refine map_congr_left fun g _ => ?_
      have := (hw g).take (by omega)
      rw [Nat.zero_add] at this
      rw [comp_apply, this]
      exact cells_congr (fun i _ => by omega) g
    obtain ⟨m, hm, hpop, -, hmax'⟩ := popUnaligned_cells lookup nullBlock hashes
      (fun i => n ≤ i + need) blockSize alignment hg n
    obtain rfl := le_antisymm hm (hmax' n le_rfl halign)
    rw [if_neg Bool.false_ne_true, htake, headD_map_cells hg, hpop]

/-! ### Chunked local attention -/

variable (lookup nullBlock gids) in
/-- The run of hits that the chunked local attention manager finds from block `s` on. -/
theorem chunkedLoop_cells (s r i : ℕ) (hsi : s ≤ i) (hlen : i + r ≤ hashes.length)
    (hhit : ∀ j, s ≤ j → j < i → Hit lookup hashes gids j) :
    ∃ n, i ≤ n ∧ n ≤ i + r ∧ chunkedLoop lookup hashes gids r i
        (gids.map (cells lookup nullBlock hashes (fun j => s ≤ j) i)) =
          .ok (gids.map (cells lookup nullBlock hashes (fun j => s ≤ j) n)) ∧
      (∀ j, s ≤ j → j < n → Hit lookup hashes gids j) ∧
      (n < i + r → ¬ Hit lookup hashes gids n) := by
  induction r generalizing i with
  | zero => exact ⟨i, le_rfl, le_rfl, rfl, hhit, fun h => absurd h (lt_irrefl i)⟩
  | succ r ih =>
    obtain ⟨h, hi⟩ : ∃ h, hashes[i]? = some h := ⟨_, getElem?_eq_getElem (by omega)⟩
    rw [chunkedLoop, hi]
    rcases getCachedBlock_cases lookup nullBlock gids hi with ⟨hit, heq⟩ | ⟨hit, heq⟩
    · have hhit' : ∀ j, s ≤ j → j < i + 1 → Hit lookup hashes gids j := by
        intro j hsj hj
        rcases Nat.lt_succ_iff_lt_or_eq.1 hj with hlt | rfl
        · exact hhit j hsj hlt
        · exact hit
      obtain ⟨n, hn, hnr, hloop, hall, hmiss⟩ := ih (i + 1) (by omega) (by omega) hhit'
      refine ⟨n, by omega, by omega, ?_, hall, fun h => hmiss (by omega)⟩
      rw [← hloop]
      simp only [heq, zipWith_map_self]
      congr 1
      exact map_congr_left fun g _ => by rw [cells_succ, if_pos hsi]
    · exact ⟨i, le_rfl, le_add_right _ _, by simp only [heq], hhit, fun _ => hit⟩

variable (lookup nullBlock gids) in
/-- The chunked local attention manager takes the blocks before the chunk of `maxLength` for
granted and returns the run of hits after them. -/
theorem findChunked_cells {maxLength : ℕ} (blockSize attentionChunkSize : ℕ)
    (hlen : maxLength / blockSize ≤ hashes.length) :
    ∃ n, maxLength / attentionChunkSize * attentionChunkSize / blockSize ≤ n ∧
      n ≤ maxLength / blockSize ∧
      findChunked lookup nullBlock hashes maxLength gids blockSize attentionChunkSize false
        blockSize 1 = .ok (gids.map (cells lookup nullBlock hashes (fun j =>
          maxLength / attentionChunkSize * attentionChunkSize / blockSize ≤ j) n)) ∧
      (∀ j, maxLength / attentionChunkSize * attentionChunkSize / blockSize ≤ j → j < n →
        Hit lookup hashes gids j) ∧ (n < maxLength / blockSize → ¬ Hit lookup hashes gids n) := by
  set s := maxLength / attentionChunkSize * attentionChunkSize / blockSize with hs
  have hsM : s ≤ maxLength / blockSize := Nat.div_le_div_right (div_mul_le_self _ _)
  have hsum : s + (maxLength / blockSize - s) = maxLength / blockSize := Nat.add_sub_cancel' hsM
  obtain ⟨n, hn, hnM, hloop, hall, hmiss⟩ := chunkedLoop_cells lookup nullBlock gids s
    (maxLength / blockSize - s) s le_rfl (hsum.trans_le hlen)
    fun j hj hjs => absurd hjs (not_lt.2 hj)
  rw [hsum] at hnM hmiss
  refine ⟨n, hn, hnM, ?_, hall, hmiss⟩
  rw [← hloop]
  simp only [findChunked, Bool.false_eq_true, if_false, ne_eq, not_true_eq_false]
  congr 1
  refine map_congr_left fun g _ => ?_
  exact (cells_eq_replicate (fun j hj => not_le.2 hj) g).symm

/-! ### Mamba -/

variable (lookup nullBlock gids) in
/-- The mamba manager finds the last aligned hit. -/
theorem mambaLoop_cells (blockSize alignment i : ℕ) (hlen : i ≤ hashes.length) :
    ∃ n ≤ i, mambaLoop lookup nullBlock hashes gids blockSize alignment i =
        .ok (gids.map (cells lookup nullBlock hashes (fun j => j + 1 = n) n)) ∧
      Aligned blockSize alignment n ∧ (∀ j, j + 1 = n → Hit lookup hashes gids j) ∧
      ∀ m ≤ i, Aligned blockSize alignment m → (∀ j, j + 1 = m → Hit lookup hashes gids j) →
        m ≤ n := by
  induction i with
  | zero => exact ⟨0, le_rfl, rfl, ⟨0, by simp⟩, fun j hj => by omega, fun m hm _ _ => hm⟩
  | succ i ih =>
    obtain ⟨h, hi⟩ : ∃ h, hashes[i]? = some h := ⟨_, getElem?_eq_getElem (by omega)⟩
    -- when block `i` does not end the hit, the hit is shorter
    have hskip : (Aligned blockSize alignment (i + 1) → ¬ Hit lookup hashes gids i) →
        ∃ n ≤ i + 1, mambaLoop lookup nullBlock hashes gids blockSize alignment i =
          .ok (gids.map (cells lookup nullBlock hashes (fun j => j + 1 = n) n)) ∧
        Aligned blockSize alignment n ∧ (∀ j, j + 1 = n → Hit lookup hashes gids j) ∧
        ∀ m ≤ i + 1, Aligned blockSize alignment m →
          (∀ j, j + 1 = m → Hit lookup hashes gids j) → m ≤ n := by
      intro hno
      obtain ⟨n, hn, hloop, halign, hhit, hmax⟩ := ih (by omega)
      refine ⟨n, hn.trans (le_succ i), hloop, halign, hhit, fun m hm hm' hmhit => ?_⟩
      rcases lt_or_ge m (i + 1) with hlt | hge
      · exact hmax m (Nat.lt_succ_iff.1 hlt) hm' hmhit
      · obtain rfl := le_antisymm hm hge
        exact absurd (hmhit i rfl) (hno hm')
    rw [mambaLoop, hi]
    rcases getCachedBlock_cases lookup nullBlock gids hi with ⟨hit, heq⟩ | ⟨hit, heq⟩
    · simp only [heq]
      split_ifs with hal
      · exact hskip fun h => absurd (mod_eq_zero_of_dvd h) hal.2
      · refine ⟨i + 1, le_rfl, ?_, ?_, fun j hj => ?_, fun m hm _ _ => hm⟩
        · rw [map_map]
          congr 1
          refine map_congr_left fun g _ => ?_
          rw [comp_apply, cells_succ, if_pos rfl, cells_eq_replicate (by omega)]
        · rw [not_and_or, not_not, not_not] at hal
          rcases hal with rfl | h
          · exact ⟨i + 1, Nat.mul_comm _ _⟩
          · exact dvd_of_mod_eq_zero h
        · obtain rfl := Nat.succ.inj hj
          exact hit
    · simp only [heq]
      exact hskip fun _ => hit

end LoptVllm.KVCache
