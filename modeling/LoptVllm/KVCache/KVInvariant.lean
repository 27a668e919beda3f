import LoptVllm.KVCache.HashSeparation
import LoptVllm.KVCache.KVCacheManager
import LoptVllm.KVCache.ManagerInvariant
import LoptVllm.KVCache.PrefixHit
import Mathlib.Data.List.NodupEquivFin

/-!
# The invariant of the KV cache manager

The block pool and the lists of the managers fit together: reference counts are occurrences in the
lists, the prefix cache is an index of the blocks with a key, and every key is a hash of the request
that the block was last filled by.
-/

namespace LoptVllm.KVCache

open List Nat HybridKVCacheCoordinator

open BlockPool SingleTypeKVCacheManager

variable {δ : Type}

/-! ### The managers one after another -/

/-- How often each block occurs in the lists of all managers. -/
def totalOcc (managers : List SingleTypeKVCacheManager) : ℕ → ℕ := (managers.map occ).sum

theorem totalOcc_cons (m : SingleTypeKVCacheManager) (ms : List SingleTypeKVCacheManager) :
    totalOcc (m :: ms) = m.occ + totalOcc ms :=
  sum_cons

section

variable {ρ : Type} {f : SingleTypeKVCacheManager → BlockPool δ → Except PyErr (ρ × BlockPool δ)}
  {R : SingleTypeKVCacheManager → ρ → Prop} {first : ℕ} {ms : List SingleTypeKVCacheManager}
  {pool pool' : BlockPool δ} {others : ℕ → ℕ} {rs : List ρ} (mgr : ρ → SingleTypeKVCacheManager)
  (Q : BlockPool δ → Prop)

/-- What each call keeps, whatever the other managers hold, is kept by all. -/
theorem forManagers_spec (hf : ∀ m ∈ ms, ∀ pool others r pool', Q pool →
    pool.Counted first (others + m.occ) →
      f m pool = .ok (r, pool') → Q pool' ∧ pool'.Counted first (others + (mgr r).occ) ∧ R m r)
    (hQ : Q pool) (h : pool.Counted first (others + totalOcc ms))
    (hok : forManagers f ms pool = .ok (rs, pool')) :
    Q pool' ∧ pool'.Counted first (others + totalOcc (rs.map mgr)) ∧ Forall₂ R ms rs := by
  induction ms generalizing pool others rs with
  | nil =>
    cases hok
    exact ⟨hQ, h, .nil⟩
  | cons m ms ih =>
    obtain ⟨hm, hms⟩ := forall_mem_cons.1 hf
    obtain ⟨⟨r, pool₁⟩, hcall, hrest⟩ := bind_ok.1 hok
    obtain ⟨⟨rs', pool₂⟩, hrest, hret⟩ := bind_ok.1 hrest
    cases hret
    rw [totalOcc_cons, add_left_comm, add_comm] at h
    obtain ⟨hQ₁, h₁, hR⟩ := hm _ _ _ _ hQ h hcall
    rw [add_right_comm] at h₁
    obtain ⟨hQ₂, h₂, hRs⟩ := ih hms hQ₁ h₁ hrest
    refine ⟨hQ₂, ?_, .cons hR hRs⟩
    rwa [map_cons, totalOcc_cons, ← add_assoc]

/-- When each call succeeds with as many free blocks as it costs, so do all. -/
theorem forManagers_ok (cost : SingleTypeKVCacheManager → ℕ)
    (hf : ∀ m ∈ ms, ∀ pool others, Q pool → pool.Counted first (others + m.occ) →
      (cost m : ℤ) ≤ pool.getNumFreeBlocks → ∃ r pool', f m pool = .ok (r, pool') ∧ Q pool' ∧
        pool'.Counted first (others + (mgr r).occ) ∧
        pool.getNumFreeBlocks ≤ pool'.getNumFreeBlocks + cost m)
    (hQ : Q pool) (h : pool.Counted first (others + totalOcc ms))
    (hcost : ((ms.map cost).sum : ℕ) ≤ pool.getNumFreeBlocks) :
    ∃ rs pool', forManagers f ms pool = .ok (rs, pool') ∧
      pool.getNumFreeBlocks ≤ pool'.getNumFreeBlocks + (ms.map cost).sum := by
  induction ms generalizing pool others with
  | nil => exact ⟨[], pool, rfl, by simp⟩
  | cons m ms ih =>
    obtain ⟨hm, hms⟩ := forall_mem_cons.1 hf
    rw [map_cons, sum_cons] at hcost ⊢
    rw [totalOcc_cons, add_left_comm, add_comm] at h
    obtain ⟨r, pool₁, hcall, hQ₁, h₁, hfree⟩ := hm _ _ hQ h (by omega)
    rw [add_right_comm] at h₁
    obtain ⟨rs, pool₂, hrest, hfree'⟩ := ih hms hQ₁ h₁ (by omega)
    refine ⟨r :: rs, pool₂, ?_, by omega⟩
    simp [forManagers, hcall, hrest]

end

namespace KVCacheManager

variable {hasher : BlockHasher δ} {kv kv' : KVCacheManager δ} {request : SchedulerRequest hasher}
  {first rid : ℕ}

/-! ### Prefix hits -/

/-- What the constructors of the managers have fixed. -/
def configs (kv : KVCacheManager δ) : List ManagerConfig :=
  kv.singleTypeManagers.map toManagerConfig

/-- The coordinator looks up the blocks of the groups of the managers. -/
def Fits (configs : List ManagerConfig) (hashBlockSize : ℕ) : KVCacheCoordinator → Prop
  | .noPrefixCache n => n = configs.length
  | .unitary spec worldSize _ => 0 < worldSize ∧ ∃ c, configs = [c] ∧ c.spec = spec ∧
      c.blockSize = spec.blockSize * worldSize ∧ c.blockSize = hashBlockSize
  | .hybrid coordinator => coordinator.specs = configs.map ManagerConfig.spec ∧
      coordinator.hashBlockSize = hashBlockSize ∧ ∀ c ∈ configs, c.blockSize = c.spec.blockSize

/-- What the constructors have set up. -/
structure Ready (hasher : BlockHasher δ) (kv : KVCacheManager δ) : Prop where
  groupId : ∀ (i : ℕ) c, kv.configs[i]? = some c → c.groupId = i
  enableCaching : ∀ c ∈ kv.configs, c.enableCaching = kv.enableCaching
  pool : kv.blockPool.enableCaching = kv.enableCaching
  hashBlockSize : kv.blockPool.hashBlockSize = hasher.blockSize
  nullBlock : kv.blockPool.nullBlock = 0
  fits : Fits kv.configs hasher.blockSize kv.coordinator
  dvd : kv.enableCaching = true → ∀ c ∈ kv.configs, hasher.blockSize ∣ c.blockSize

/-- Nothing that the constructors have set up changes. -/
structure SameSetup (kv kv' : KVCacheManager δ) : Prop where
  maxModelLen : kv'.maxModelLen = kv.maxModelLen
  enableCaching : kv'.enableCaching = kv.enableCaching
  coordinator : kv'.coordinator = kv.coordinator
  configs : kv'.configs = kv.configs
  pool : kv'.blockPool.toBlockPoolConfig = kv.blockPool.toBlockPoolConfig

theorem SameSetup.refl (kv : KVCacheManager δ) : SameSetup kv kv := ⟨rfl, rfl, rfl, rfl, rfl⟩

variable {kv'' : KVCacheManager δ}

theorem SameSetup.trans (h : SameSetup kv kv') (h' : SameSetup kv' kv'') : SameSetup kv kv'' :=
  ⟨h'.maxModelLen.trans h.maxModelLen, h'.enableCaching.trans h.enableCaching,
    h'.coordinator.trans h.coordinator, h'.configs.trans h.configs, h'.pool.trans h.pool⟩

theorem SameSetup.ready (hs : SameSetup kv kv') (h : Ready hasher kv) : Ready hasher kv' := by
  have hpool : ∀ {α : Type} (f : BlockPoolConfig → α),
      f kv'.blockPool.toBlockPoolConfig = f kv.blockPool.toBlockPoolConfig :=
    fun f => congrArg f hs.pool
  refine ⟨?_, ?_, ?_, ?_, ?_, ?_, ?_⟩
  · rw [hs.configs]
    exact h.groupId
  · rw [hs.configs, hs.enableCaching]
    exact h.enableCaching
  · rw [hs.enableCaching, ← h.pool]
    exact hpool (·.enableCaching)
  · rw [← h.hashBlockSize]
    exact hpool (·.hashBlockSize)
  · rw [← h.nullBlock]
    exact hpool (·.nullBlock)
  · rw [hs.configs, hs.coordinator]
    exact h.fits
  · rw [hs.configs, hs.enableCaching]
    exact h.dvd

/-- The hashes under which the blocks of a request are cached in a group. -/
def groupHashes (hasher : BlockHasher δ) (c : ManagerConfig) (hashes : List δ) :
    List (BlockHash δ) :=
  blockHashList hashes (c.blockSize / hasher.blockSize)

/-- What `get_computed_blocks` returns: a hit of `L` tokens for each group. -/
structure KVHit (kv : KVCacheManager δ) {hasher : BlockHasher δ}
    (request : SchedulerRequest hasher) (blocks : List (List ℕ)) (L : ℕ) : Prop where
  le : L ≤ request.numTokens - 1
  length : blocks.length = kv.singleTypeManagers.length
  group : ∀ c ∈ kv.configs, ∃ l, blocks[c.groupId]? = some l ∧
    PrefixHit kv.blockPool.lookup kv.blockPool.nullBlock
      (groupHashes hasher c request.blockHashes) c.groupId c.blockSize c.spec.kind L l
  off : kv.enableCaching = false → ∀ l ∈ blocks, l = []

variable {c : ManagerConfig}

theorem Ready.groupId_lt (h : Ready hasher kv) (hc : c ∈ kv.configs) :
    c.groupId < kv.singleTypeManagers.length := by
  obtain ⟨i, hi⟩ := mem_iff_getElem?.1 hc
  rw [h.groupId i c hi]
  simpa [configs] using (List.getElem?_eq_some_iff.1 hi).1

theorem prefixHit_nil (lookup : BlockHash δ → ℕ → Option ℕ) (nullBlock : ℕ)
    (hashes : List (BlockHash δ)) (groupId blockSize : ℕ) (kind : AttentionKind) :
    PrefixHit lookup nullBlock hashes groupId blockSize kind 0 [] :=
  ⟨zero_mul _, nofun, nofun, fun _ => rfl⟩

/-- No hit at all is a hit of 0 tokens. -/
theorem kvHit_replicate (h : Ready hasher kv) (request : SchedulerRequest hasher) {n : ℕ}
    (hn : n = kv.singleTypeManagers.length) : KVHit kv request (List.replicate n []) 0 := by
  refine ⟨zero_le _, ?_, fun c hc => ⟨[], ?_, prefixHit_nil ..⟩, fun _ l hl => ?_⟩
  · rw [length_replicate, hn]
  · rw [getElem?_replicate, if_pos (hn ▸ h.groupId_lt hc)]
  · exact eq_of_mem_replicate hl

theorem kvHit_empty (h : Ready hasher kv) (request : SchedulerRequest hasher) :
    KVHit kv request kv.emptyKVCacheBlocks 0 := by
  rw [emptyKVCacheBlocks, map_const']
  exact kvHit_replicate h request rfl

theorem le_length_blockHashes (request : SchedulerRequest hasher) {n : ℕ} (hn : n = hasher.blockSize) :
    (request.numTokens - 1) / n ≤ request.blockHashes.length := by
  rw [hn, SchedulerRequest.blockHashes, RequestInput.build_eq_chain request.built,
    HashChain.length_chain, length_map, length_range]
  exact Nat.div_le_div_right (sub_le _ _)

variable {blocks : List (List ℕ)} {L : ℕ}

/-- **What `get_computed_blocks` returns** is a hit. -/
theorem getComputedBlocks_hit (h : Ready hasher kv)
    (hget : kv.getComputedBlocks request = .ok (blocks, L)) : KVHit kv request blocks L := by
  unfold getComputedBlocks at hget
  split_ifs at hget with hoff
  · cases hget
    exact kvHit_empty h request
  have hon : kv.enableCaching = true := by
    cases hcache : kv.enableCaching with
    | true => rfl
    | false => simp [hcache] at hoff
  have hfits := h.fits
  cases hco : kv.coordinator with
  | noPrefixCache n =>
    rw [hco] at hget hfits
    cases hget
    exact kvHit_replicate h request (hfits.trans (length_map _))
  | unitary spec worldSize useEagle =>
    rw [hco] at hget hfits
    obtain ⟨hworld, c, hconfigs, rfl, hblock, hsize⟩ := hfits
    obtain ⟨found, hfind, hret⟩ := bind_ok.1 hget
    have hlen := le_length_blockHashes request (hblock.symm.trans hsize)
    rw [← Nat.div_one request.blockHashes.length, ← length_blockHashList] at hlen
    obtain ⟨n, p, _, rfl, hn, -, hcovers, -⟩ :=
      findLongestCacheHit_cells hworld (cons_ne_nil 0 []) hlen hfind
    cases hret
    rw [← hblock] at hn hcovers
    have hL : (cells kv.blockPool.lookup kv.blockPool.nullBlock
        (blockHashList request.blockHashes 1) p n 0).length * (c.spec.blockSize * worldSize) =
          n * c.blockSize := by
      rw [length_cells, hblock]
    have hone : kv.singleTypeManagers.length = 1 := by
      have hlength := congrArg List.length hconfigs
      rwa [configs, length_map] at hlength
    refine ⟨hL.trans_le hn, hone.symm, fun c' hc' => ?_, fun hcache => ?_⟩
    · rw [hconfigs, mem_singleton] at hc'
      subst hc'
      have hid : c'.groupId = 0 := h.groupId 0 c' (by rw [hconfigs, getElem?_cons_zero])
      have hone : c'.blockSize / hasher.blockSize = 1 := by
        rw [hsize]
        exact Nat.div_self hasher.blockSize_pos
      rw [hid, groupHashes, hone]
      refine ⟨_, rfl, ?_⟩
      simp only [map_cons, headD_cons, hL]
      exact hcovers.prefixHit (mem_singleton_self 0)
    · rw [hon] at hcache
      cases hcache
  | hybrid coordinator =>
    rw [hco] at hget hfits
    obtain ⟨hspecs, hsize, hblock⟩ := hfits
    have hlen := le_length_blockHashes request hsize
    obtain ⟨hL, hlength, hhit⟩ := findLongestCacheHit_prefixHit hlen hget
    refine ⟨hL, ?_, fun c hc => ?_, fun hcache => ?_⟩
    · rw [hlength, hspecs, length_map, configs, length_map]
    · obtain ⟨i, hi⟩ := mem_iff_getElem?.1 hc
      obtain rfl := h.groupId i c hi
      obtain ⟨l, hl, hprefix⟩ := hhit c.groupId c.spec (by
        rw [hspecs, getElem?_map, hi, Option.map_some])
      refine ⟨l, hl, ?_⟩
      rwa [getBlockHashes, hsize, ← hblock c hc] at hprefix
    · rw [hon] at hcache
      cases hcache

/-! ### The hash function -/

/-- The hash function has no collisions, and the root of the chains is no hash. -/
structure CollisionFree (hasher : BlockHasher δ) : Prop where
  injective : Function.Injective2 hasher.hashFunction
  ne_noneHash : ∀ p c, hasher.hashFunction p c ≠ hasher.noneHash

/-- The hashes of a request are different from each other, for blocks of any size. -/
theorem nodup_groupHashes (hfree : CollisionFree hasher) (c : ManagerConfig)
    (request : SchedulerRequest hasher) : (groupHashes hasher c request.blockHashes).Nodup := by
  have hchain := RequestInput.build_eq_chain request.built
  set k := c.blockSize / hasher.blockSize with hk
  rw [groupHashes, ← hk, blockHashList]
  refine Nodup.map_on (fun i hi j hj heq => ?_) nodup_range
  have hpos : ∀ x ∈ List.range (request.blockHashes.length / k), 0 < k ∧
      x * k < request.blockHashes.length := by
    intro x hx
    rw [mem_range] at hx
    have hk0 : 0 < k := pos_of_ne_zero fun h0 => by simp [h0] at hx
    refine ⟨hk0, (Nat.mul_lt_mul_of_pos_right hx hk0).trans_le (div_mul_le_self _ _)⟩
  obtain ⟨hk0, hik⟩ := hpos i hi
  obtain ⟨-, hjk⟩ := hpos j hj
  -- the first hashes of the two slices are equal
  have hfirst : request.blockHashes[i * k]? = request.blockHashes[j * k]? := by
    have hget := congrArg (fun l : List δ => l[0]?) heq
    simpa [hk0] using hget
  simp only [SchedulerRequest.blockHashes] at hfirst hik hjk
  rw [hchain] at hfirst hik hjk
  rw [HashChain.length_chain] at hik hjk
  have := ((HashChain.getElem?_chain_eq_iff hfree.injective hfree.ne_noneHash hik hjk).1 hfirst).1
  exact eq_of_mul_eq_mul_right hk0 this

variable {pool : BlockPool δ}

section

variable (h : pool.Indexed first)
include h

/-- A block that is looked up has the key it was looked up with. -/
theorem blockHash_of_lookup {blockHash : BlockHash δ} {g b : ℕ}
    (hlookup : pool.lookup blockHash g = some b) : pool.blockHash b = some (blockHash, g) :=
  (h.mem_iff b _).2 (mem_of_mem_head? hlookup)

variable {hashes : List (BlockHash δ)} {kind : AttentionKind}

/-- No block occurs twice in a hit. -/
theorem distinct_of_prefixHit {nullBlock : ℕ} (hnodup : hashes.Nodup) {g blockSize : ℕ} {l : List ℕ}
    (hhit : PrefixHit pool.lookup nullBlock hashes g blockSize kind L l) :
    Distinct nullBlock l := by
  intro b hb
  by_contra hlt
  have hdup : l.Duplicate b := duplicate_iff_two_le_count.2 (not_le.1 hlt)
  obtain ⟨i, j, hij, hi, hj⟩ := duplicate_iff_exists_distinct_get.1 hdup
  have hkey : ∀ x : Fin l.length, b = l.get x → ∃ blockHash, hashes[x.1]? = some blockHash ∧
      pool.blockHash b = some (blockHash, g) := by
    intro x hx
    have hget : l[x.1]? = some b := by
      rw [hx]
      exact getElem?_eq_getElem x.2
    obtain hnull | ⟨blockHash, hat, hlookup⟩ := hhit.block x.1 b hget
    · exact absurd hnull hb
    · exact ⟨blockHash, hat, blockHash_of_lookup h hlookup⟩
  obtain ⟨hash, hati, hbi⟩ := hkey i hi
  obtain ⟨hash', hatj, hbj⟩ := hkey j hj
  have heq : hash = hash' := congrArg Prod.fst (Option.some.inj (hbi.symm.trans hbj))
  subst heq
  obtain ⟨hlt, hgeti⟩ := List.getElem?_eq_some_iff.1 hati
  obtain ⟨hlt', hgetj⟩ := List.getElem?_eq_some_iff.1 hatj
  have := (Nodup.getElem_inj_iff hnodup).1 (hgeti.trans hgetj.symm)
  exact hij.ne (Fin.ext this)

theorem usable_of_prefixHit {nullBlock : ℕ} {g blockSize : ℕ} {l : List ℕ}
    (hhit : PrefixHit pool.lookup nullBlock hashes g blockSize kind L l) :
    ∀ b ∈ l, b ≠ nullBlock → pool.Usable first b := by
  intro b hb hnull
  obtain ⟨i, hi⟩ := mem_iff_getElem?.1 hb
  obtain hb | ⟨blockHash, -, hlookup⟩ := hhit.block i b hi
  · exact absurd hb hnull
  · exact h.usable b (by rw [blockHash_of_lookup h hlookup, Option.isSome_some])

end

/-! ### The invariant -/

/-- Every key is a hash of the request that the block was last filled by, for the group of one of
the managers. -/
def Filled (hasher : BlockHasher δ) (configs : List ManagerConfig) (pool : BlockPool δ) : Prop :=
  ∀ b blockHash g, pool.blockHash b = some (blockHash, g) →
    ∃ r : SchedulerRequest hasher, ∃ c ∈ configs, pool.filledBy b = some r.input ∧ c.groupId = g ∧
      blockHash ∈ groupHashes hasher c r.blockHashes

variable {configs : List ManagerConfig} {pool' : BlockPool δ}

theorem Filled.of_keeps (h : Filled hasher configs pool)
    (hkeeps : Keeps pool pool') : Filled hasher configs pool' := by
  intro b blockHash g hkey
  obtain ⟨hkey', hfilled⟩ := hkeeps b _ hkey
  rw [hfilled]
  exact h b blockHash g hkey'

theorem Filled.of_caches (h : Filled hasher configs pool) (hc : c ∈ configs)
    (hcaches : Caches pool request.input c.groupId (groupHashes hasher c request.blockHashes)
      pool') : Filled hasher configs pool' := by
  intro b blockHash g hkey
  obtain ⟨hsame, hfilled⟩ | ⟨h', hmem, hset, hfilled⟩ := hcaches.block b
  · rw [hfilled]
    exact h b blockHash g (hsame ▸ hkey)
  · obtain ⟨rfl, rfl⟩ := Prod.mk.inj (Option.some.inj (hset.symm.trans hkey))
    exact ⟨request, c, hc, hfilled, rfl, hmem⟩

/-- The pool of a manager: set up as before, with an index that is filled by requests. -/
structure GoodPool (hasher : BlockHasher δ) (first : ℕ) (configs : List ManagerConfig)
    (config : BlockPoolConfig) (pool : BlockPool δ) : Prop where
  config : pool.toBlockPoolConfig = config
  indexed : pool.Indexed first
  filled : Filled hasher configs pool

theorem GoodPool.nullBlock {hasher : BlockHasher δ} {configs : List ManagerConfig}
    {config : BlockPoolConfig} {pool : BlockPool δ} (h : GoodPool hasher first configs config pool) :
    pool.nullBlock = config.nullBlock :=
  congrArg (·.nullBlock) h.config

/-- **The invariant.** The blocks from `first` on are handed out. -/
structure Sound (hasher : BlockHasher δ) (first : ℕ) (kv : KVCacheManager δ) : Prop where
  ready : Ready hasher kv
  counted : kv.blockPool.Counted first (totalOcc kv.singleTypeManagers)
  indexed : kv.blockPool.Indexed first
  distinct : ∀ m ∈ kv.singleTypeManagers, ∀ r, Distinct kv.blockPool.nullBlock (m.blocks r)
  filled : Filled hasher kv.configs kv.blockPool

theorem Sound.goodPool (h : Sound hasher first kv) :
    GoodPool hasher first kv.configs kv.blockPool.toBlockPoolConfig kv.blockPool :=
  ⟨rfl, h.indexed, h.filled⟩

/-- A hit for a group, as far as allocation depends on it. -/
structure HitList (first : ℕ) (c : ManagerConfig) (config : BlockPoolConfig) (L : ℕ) (l : List ℕ) :
    Prop where
  length : l.length * c.blockSize = L
  range : ∀ b ∈ l, b ≠ config.nullBlock → first ≤ b ∧ b < config.numGpuBlocks
  distinct : Distinct config.nullBlock l
  off : c.enableCaching = false → l = []
  window : (∀ n, c.spec.kind = .chunkedLocal n → c.blockSize ∣ n) →
    ∀ i b : ℕ, l[i]? = some b → c.spec.kind.getNumSkippedTokens L / c.blockSize ≤ i →
      b ≠ config.nullBlock
  cross : c.spec.kind = .cross → l = []

theorem Sound.ne_nullBlock (h : Sound hasher first kv) {b : ℕ} (hb : kv.blockPool.Usable first b) :
    b ≠ kv.blockPool.nullBlock :=
  h.counted.ne_nullBlock hb

theorem KVHit.hitList (h : Sound hasher first kv) (hfree : CollisionFree hasher)
    (hhit : KVHit kv request blocks L) (hc : c ∈ kv.configs) : ∃ l, blocks[c.groupId]? = some l ∧
      HitList first c kv.blockPool.toBlockPoolConfig L l := by
  obtain ⟨l, hl, hprefix⟩ := hhit.group c hc
  refine ⟨l, hl, hprefix.length, usable_of_prefixHit h.indexed hprefix,
    distinct_of_prefixHit h.indexed (nodup_groupHashes hfree c request) hprefix, fun hoff => ?_,
    fun hdvd i b hb hi => ?_, hprefix.cross⟩
  · exact hhit.off ((h.ready.enableCaching c hc).symm.trans hoff) l (mem_of_getElem? hl)
  · obtain ⟨blockHash, -, hlookup⟩ := hprefix.window hdvd i b hb hi
    refine h.ne_nullBlock (h.indexed.usable b ?_)
    rw [blockHash_of_lookup h.indexed hlookup, Option.isSome_some]

/-! ### What a call keeps -/

/-- What the managers hold for a request. -/
def view (kv : KVCacheManager δ) (r : ℕ) : List (ManagerConfig × List ℕ × Option ℕ) :=
  kv.singleTypeManagers.map fun m => (m.toManagerConfig, m.blocks r, m.numCachedBlock.lookup r)

theorem getBlocks_eq_view (kv : KVCacheManager δ) (r : ℕ) :
    kv.getBlocks r = (kv.view r).map fun v => v.2.1 := by
  rw [view, map_map]
  rfl

/-- Only what a manager holds for one request changes, and its blocks stay distinct. -/
structure Local (nullBlock rid : ℕ) (m m' : SingleTypeKVCacheManager) : Prop where
  setsBlocks : SetsBlocks m rid (m'.blocks rid) m'
  distinct : Distinct nullBlock (m'.blocks rid)
  numCachedBlock : ∀ r, r ≠ rid → m'.numCachedBlock.lookup r = m.numCachedBlock.lookup r

/-- Only what the managers hold for one request changes. -/
structure Touches (rid : ℕ) (kv kv' : KVCacheManager δ) : Prop where
  setup : SameSetup kv kv'
  other : ∀ r, r ≠ rid → kv'.view r = kv.view r

theorem Touches.trans (h : Touches rid kv kv') (h' : Touches rid kv' kv'') : Touches rid kv kv'' :=
  ⟨h.setup.trans h'.setup, fun r hr => (h'.other r hr).trans (h.other r hr)⟩

theorem map_eq_of_forall₂ {α β γ : Type} {R : α → β → Prop} {f : α → γ} {g : β → γ} {l : List α}
    {l' : List β} (h : Forall₂ R l l') (hfg : ∀ a b, R a b → g b = f a) :
    l'.map g = l.map f := by
  induction h with
  | nil => rfl
  | cons hab _ ih => rw [map_cons, map_cons, hfg _ _ hab, ih]

section

variable {ρ : Type} {f : SingleTypeKVCacheManager → BlockPool δ → Except PyErr (ρ × BlockPool δ)}
  {R : SingleTypeKVCacheManager → ρ → Prop} {rs : List ρ} {pool' : BlockPool δ}

theorem exists_of_mem_right {α β : Type} {R : α → β → Prop} {l : List α} {l' : List β}
    (h : Forall₂ R l l') {b : β} (hb : b ∈ l') : ∃ a ∈ l, R a b := by
  induction h with
  | nil => cases hb
  | cons hab _ ih =>
    rcases mem_cons.1 hb with rfl | hb
    · exact ⟨_, .head _, hab⟩
    · obtain ⟨a, ha, hR⟩ := ih hb
      exact ⟨a, .tail _ ha, hR⟩

/-- A method of the managers that keeps the pool and changes the blocks of one request only. -/
theorem forManagers_sound (mgr : ρ → SingleTypeKVCacheManager) (h : Sound hasher first kv)
    (hf : ∀ m ∈ kv.singleTypeManagers, ∀ pool others r pool',
      GoodPool hasher first kv.configs kv.blockPool.toBlockPoolConfig pool →
      pool.Counted first (others + m.occ) → f m pool = .ok (r, pool') →
      GoodPool hasher first kv.configs kv.blockPool.toBlockPoolConfig pool' ∧
        pool'.Counted first (others + (mgr r).occ) ∧
        Local kv.blockPool.nullBlock rid m (mgr r) ∧ R m r)
    (hok : forManagers f kv.singleTypeManagers kv.blockPool = .ok (rs, pool')) :
    Sound hasher first { kv with singleTypeManagers := rs.map mgr, blockPool := pool' } ∧
      Touches rid kv { kv with singleTypeManagers := rs.map mgr, blockPool := pool' } ∧
      Forall₂ R kv.singleTypeManagers rs := by
  have hcounted : kv.blockPool.Counted first (0 + totalOcc kv.singleTypeManagers) := by
    rw [zero_add]
    exact h.counted
  obtain ⟨hgood, hcounted', hR⟩ := forManagers_spec mgr _ hf h.goodPool hcounted hok
  rw [zero_add] at hcounted'
  have hconfigs : (rs.map mgr).map toManagerConfig = kv.configs := by
    rw [map_map]
    exact map_eq_of_forall₂ hR fun m r hr => hr.1.setsBlocks.config
  have hsetup : SameSetup kv { kv with singleTypeManagers := rs.map mgr, blockPool := pool' } :=
    ⟨rfl, rfl, rfl, hconfigs, hgood.config⟩
  have hnull := hgood.nullBlock
  refine ⟨⟨hsetup.ready h.ready, hcounted', hgood.indexed, ?_, ?_⟩, ⟨hsetup, fun r hr => ?_⟩,
    hR.imp fun _ _ hr => hr.2⟩
  · intro m' hm' r
    obtain ⟨x, hx, rfl⟩ := mem_map.1 hm'
    obtain ⟨m, hm, hlocal, -⟩ := exists_of_mem_right hR hx
    rw [hnull]
    by_cases hr : r = rid
    · subst hr
      exact hlocal.distinct
    · rw [hlocal.setsBlocks.other r hr]
      exact h.distinct m hm r
  · show Filled hasher ((rs.map mgr).map _) pool'
    rw [hconfigs]
    exact hgood.filled
  · show (rs.map mgr).map _ = _
    rw [map_map]
    refine map_eq_of_forall₂ hR fun m x hx => ?_
    show ((mgr x).toManagerConfig, (mgr x).blocks r, (mgr x).numCachedBlock.lookup r) = _
    rw [hx.1.setsBlocks.config, hx.1.setsBlocks.other r hr, hx.1.numCachedBlock r hr]

end

variable {config : BlockPoolConfig}

theorem GoodPool.of_sameIndex (h : GoodPool hasher first configs config pool)
    (hsame : SameIndex pool pool') : GoodPool hasher first configs config pool' :=
  ⟨hsame.config.trans h.config, hsame.indexed h.indexed, h.filled.of_keeps hsame.keeps⟩

section

variable (h : Sound hasher first kv)

include h

theorem Sound.distinct_pool {m : SingleTypeKVCacheManager} (hm : m ∈ kv.singleTypeManagers)
    (hgood : GoodPool hasher first kv.configs kv.blockPool.toBlockPoolConfig pool) (r : ℕ) :
    Distinct pool.nullBlock (m.blocks r) := by
  have hnull := hgood.nullBlock
  rw [hnull]
  exact h.distinct m hm r

/-- The same for a method without a result. -/
theorem forEach_sound {f : SingleTypeKVCacheManager → BlockPool δ →
      Except PyErr (SingleTypeKVCacheManager × BlockPool δ)}
    {R : SingleTypeKVCacheManager → SingleTypeKVCacheManager → Prop}
    (hf : ∀ m ∈ kv.singleTypeManagers, ∀ pool others m' pool',
      GoodPool hasher first kv.configs kv.blockPool.toBlockPoolConfig pool →
      pool.Counted first (others + m.occ) → f m pool = .ok (m', pool') →
      GoodPool hasher first kv.configs kv.blockPool.toBlockPoolConfig pool' ∧
        pool'.Counted first (others + m'.occ) ∧ Local kv.blockPool.nullBlock rid m m' ∧ R m m')
    (hok : kv.forEach f = .ok kv') : Sound hasher first kv' ∧ Touches rid kv kv' ∧
      Forall₂ R kv.singleTypeManagers kv'.singleTypeManagers := by
  obtain ⟨⟨ms, pool'⟩, hms, hret⟩ := bind_ok.1 hok
  cases hret
  have := forManagers_sound id h hf hms
  rwa [List.map_id] at this

theorem removeSkippedBlocks_sound {total : ℕ}
    (hok : kv.removeSkippedBlocks rid total = .ok kv') : Sound hasher first kv' ∧ Touches rid kv kv' ∧
      Forall₂ (fun m m' => Removes kv.blockPool.nullBlock m rid (m.numSkippedBlocks total) m')
        kv.singleTypeManagers kv'.singleTypeManagers := by
  refine forEach_sound h (fun m hm pool others m' pool' hgood hcounted hcall => ?_) hok
  have hnull := hgood.nullBlock
  obtain ⟨m₁, pool₁, hcall₁, hcounted₁, hsame, -, hrem⟩ :=
    removeSkippedBlocks_spec hcounted (h.distinct_pool hm hgood rid) total
  cases hcall.symm.trans hcall₁
  rw [hnull] at hrem
  exact ⟨hgood.of_sameIndex hsame, hcounted₁,
    ⟨hrem.setsBlocks, hrem.distinct, fun r _ => by rw [hrem.numCachedBlock]⟩, hrem⟩

theorem free_sound (hok : kv.free rid = .ok kv') : Sound hasher first kv' ∧ Touches rid kv kv' ∧
      Forall₂ (fun m m' => Forgets m rid m') kv.singleTypeManagers kv'.singleTypeManagers := by
  refine forEach_sound h (fun m hm pool others m' pool' hgood hcounted hcall => ?_) hok
  obtain ⟨m₁, pool₁, hcall₁, hcounted₁, hsame, -, hforget⟩ :=
    free_spec hcounted (h.distinct_pool hm hgood rid)
  cases hcall.symm.trans hcall₁
  refine ⟨hgood.of_sameIndex hsame, hcounted₁, ⟨?_, ?_, hforget.other⟩, hforget⟩
  · exact hforget.setsBlocks.self.symm ▸ hforget.setsBlocks
  · rw [hforget.setsBlocks.self]
    exact distinct_nil _

end

theorem GoodPool.of_grows (h : GoodPool hasher first configs config pool)
    (hgrows : Grows pool pool')
    (hindexed : pool'.Indexed first) : GoodPool hasher first configs config pool' :=
  ⟨hgrows.config.trans h.config, hindexed, h.filled.of_keeps hgrows.keeps⟩

variable [DecidableEq δ]

/-- What starting a request does to a manager: nothing if the request was there before, or if there
is no prefix cache for the group. -/
def StartsOrKeeps (nullBlock : ℕ) (m : SingleTypeKVCacheManager) (rid numLocal numExternal : ℕ)
    (hits : List ℕ) (m' : SingleTypeKVCacheManager) : Prop :=
  (m.isCrossAttention = true ∨ rid ∈ m.numCachedBlock) ∧ hits = [] ∧ m' = m ∨
    (m.isCrossAttention = false ∧ rid ∉ m.numCachedBlock) ∧ m.blocks rid = [] ∧
      ∃ ret, ret.length = m.numExternalBlocks hits.length numLocal numExternal ∧
        Starts nullBlock m rid (m.numSkippedBlocks (numLocal + numExternal)) hits ret m'

theorem allocateNewComputedBlocks_sound (h : Sound hasher first kv)
    (hhit : ∀ c ∈ kv.configs, ∃ l, blocks[c.groupId]? = some l ∧
      HitList first c kv.blockPool.toBlockPoolConfig L l) {numLocal numExternal : ℕ}
    (hL : L ≤ numLocal)
    (hok : kv.allocateNewComputedBlocks rid blocks numLocal numExternal = .ok kv') :
    Sound hasher first kv' ∧ Touches rid kv kv' ∧
      Forall₂ (fun m m' => ∃ l, blocks[m.groupId]? = some l ∧
        StartsOrKeeps kv.blockPool.nullBlock m rid numLocal numExternal l m')
        kv.singleTypeManagers kv'.singleTypeManagers := by
  refine forEach_sound h (fun m hm pool others m' pool' hgood hcounted hcall => ?_) hok
  have hnull := hgood.nullBlock
  have hnum : pool.numGpuBlocks = kv.blockPool.numGpuBlocks :=
    congrArg (·.numGpuBlocks) hgood.config
  obtain ⟨l, hl, hlist⟩ := hhit m.toManagerConfig (mem_map_of_mem hm)
  obtain ⟨hits, hhits, hstart⟩ := bind_ok.1 hcall
  have hgroup : groupBlocks blocks m = .ok l := by
    unfold groupBlocks
    rw [hl]
  cases hgroup.symm.trans hhits
  by_cases hskip : m.isCrossAttention ∨ rid ∈ m.numCachedBlock
  · -- the request is running, or its group has no prefix cache
    unfold SingleTypeKVCacheManager.allocateNewComputedBlocks at hstart
    split_ifs at hstart with hne
    cases hstart
    exact ⟨hgood, hcounted, ⟨.refl m rid, h.distinct m hm rid, fun _ _ => rfl⟩, l, hl,
      .inl ⟨hskip, not_not.1 hne, rfl⟩⟩
  · obtain ⟨hcross, hmem⟩ := not_or.1 hskip
    rw [Bool.not_eq_true] at hcross
    have hnil : m.blocks rid = [] := by
      by_contra hne
      unfold SingleTypeKVCacheManager.allocateNewComputedBlocks at hstart
      rw [if_neg hskip, if_pos hne] at hstart
      cases hstart
    have hus : ∀ b ∈ l, b ≠ pool.nullBlock → pool.Usable first b := by
      intro b hb hne
      rw [hnull] at hne
      rw [Usable, hnum]
      exact hlist.range b hb hne
    have hdist : Distinct pool.nullBlock l := by
      rw [hnull]
      exact hlist.distinct
    obtain ⟨ret, m₁, pool₁, hcall₁, hcounted₁, hindexed₁, hret, hgrows, -, hstarts⟩ | ⟨⟨e, he⟩, -⟩ :=
      allocateNewComputedBlocks_spec hcounted hgood.indexed hcross hmem hnil hus hdist
        (hlist.length.trans_le hL) hlist.off numExternal
    · cases hstart.symm.trans hcall₁
      rw [hnull] at hstarts
      refine ⟨hgood.of_grows hgrows hindexed₁, hcounted₁, ⟨?_, ?_, fun r hr => ?_⟩, l, hl,
        .inr ⟨⟨hcross, hmem⟩, hnil, ret, hret, hstarts⟩⟩
      · exact hstarts.setsBlocks.self.symm ▸ hstarts.setsBlocks
      · rw [hstarts.setsBlocks.self]
        exact hstarts.distinct
      · rw [hstarts.numCachedBlock, AList.lookup_insert_ne hr]
    · cases hstart.symm.trans he

variable {numTokens : ℕ} {newBlocks : List (List ℕ)}

theorem allocateNewBlocks_sound (h : Sound hasher first kv) {numEncoderTokens : ℕ}
    (hok : kv.allocateNewBlocks rid numTokens numEncoderTokens = .ok (newBlocks, kv')) :
    Sound hasher first kv' ∧ Touches rid kv kv' ∧
      Forall₂ (fun m m' => ∃ new, Extends kv.blockPool.nullBlock m rid new m' ∧
        new.length = cdiv (m.addSpeculativeTokens
          (if m.isCrossAttention then numEncoderTokens else numTokens)) m.blockSize -
            (m.blocks rid).length) kv.singleTypeManagers kv'.singleTypeManagers := by
  obtain ⟨⟨rs, pool'⟩, hrs, hret⟩ := bind_ok.1 hok
  cases hret
  rw [forall₂_map_right_iff]
  refine forManagers_sound Prod.snd h (fun m hm pool others r pool' hgood hcounted hcall => ?_) hrs
  have hnull := hgood.nullBlock
  obtain ⟨new, m₁, pool₁, hcall₁, hcounted₁, hindexed₁, hlen, hgrows, -, hext⟩ | ⟨⟨e, he⟩, -⟩ :=
    allocateNewBlocks_spec hcounted hgood.indexed (h.distinct_pool hm hgood rid)
      (if m.isCrossAttention then numEncoderTokens else numTokens)
  · cases hcall.symm.trans hcall₁
    rw [hnull] at hext
    refine ⟨hgood.of_grows hgrows hindexed₁, hcounted₁,
      ⟨?_, ?_, fun r _ => by rw [hext.numCachedBlock]⟩, new, hext, hlen⟩
    · exact hext.setsBlocks.self.symm ▸ hext.setsBlocks
    · show Distinct _ (m₁.blocks rid)
      rw [hext.setsBlocks.self]
      exact hext.distinct
  · cases hcall.symm.trans he

theorem coordinatorCacheBlocks_sound (h : Sound hasher first kv) (hon : kv.enableCaching = true)
    (hok : kv.coordinatorCacheBlocks request numTokens = .ok kv') :
    Sound hasher first kv' ∧ Touches request.requestId kv kv' ∧
      Forall₂ (fun m m' => m'.toManagerConfig = m.toManagerConfig ∧
        m'.reqToBlocks = m.reqToBlocks) kv.singleTypeManagers kv'.singleTypeManagers := by
  refine forEach_sound h (fun m hm pool others m' pool' hgood hcounted hcall => ?_) hok
  have hcaching : pool.enableCaching = true :=
    (congrArg (·.enableCaching) hgood.config).trans (h.ready.pool.trans hon)
  have hsize : pool.hashBlockSize = hasher.blockSize :=
    (congrArg (·.hashBlockSize) hgood.config).trans h.ready.hashBlockSize
  obtain ⟨hcounted₁, hindexed₁, hcaches, hconfig, hblocks, hother⟩ :=
    cacheBlocks_spec hcounted hgood.indexed hcaching hcall
  rw [hsize] at hcaches
  have hsame : ∀ r, m'.blocks r = m.blocks r := by
    intro r
    unfold blocks
    rw [hblocks]
  have hocc : m'.occ = m.occ := by
    unfold occ
    rw [hblocks]
  refine ⟨⟨hcaches.config.trans hgood.config, hindexed₁,
    hgood.filled.of_caches (mem_map_of_mem hm) hcaches⟩, hcounted₁,
    ⟨⟨hconfig, rfl, fun r _ => hsame r, ?_⟩, ?_, hother⟩, hconfig, hblocks⟩
  · rw [hocc, hsame]
  · rw [hsame]
    exact h.distinct m hm _

/-! ### The calls -/

theorem allocateBlocks_sound (h : Sound hasher first kv)
    (hhit : ∀ c ∈ kv.configs, ∃ l, blocks[c.groupId]? = some l ∧
      HitList first c kv.blockPool.toBlockPoolConfig L l)
    {numLocal numExternal numEncoderTokens : ℕ} (hL : L ≤ numLocal)
    (hok : kv.allocateBlocks rid blocks numLocal numExternal numTokens numEncoderTokens =
      .ok (newBlocks, kv')) : Sound hasher first kv' ∧ Touches rid kv kv' := by
  unfold allocateBlocks at hok
  split_ifs at hok
  · obtain ⟨hsound, htouches, -⟩ := allocateNewBlocks_sound h hok
    exact ⟨hsound, htouches⟩
  · obtain ⟨kv₁, hstart, hok⟩ := bind_ok.1 hok
    obtain ⟨hsound₁, htouches₁, -⟩ := allocateNewComputedBlocks_sound h hhit hL hstart
    obtain ⟨hsound, htouches, -⟩ := allocateNewBlocks_sound hsound₁ hok
    exact ⟨hsound, htouches₁.trans htouches⟩

variable {res : Option (List (List ℕ))} {args : SlotArgs hasher}

/-- **The course of `allocate_slots`**: skipped blocks are removed, and when the estimate is not
above the number of free blocks, blocks are allocated and perhaps cached. -/
theorem allocateSlots_cases (hok : kv.allocateSlots args = .ok (kv', res)) :
    ∃ kv₁ n, kv.removeSkippedBlocks args.request.requestId
        (args.totalComputedTokens kv.maxModelLen) = .ok kv₁ ∧
      kv₁.getNumBlocksToAllocate args.request.requestId (args.numTokensNeedSlot kv.maxModelLen)
        (args.newComputedBlocks.getD kv.emptyKVCacheBlocks) args.numEncoderTokens
        args.computedTokens = .ok n ∧ (kv₁.getNumFreeBlocks < n ∧ res = none ∧ kv' = kv₁ ∨
        n ≤ kv₁.getNumFreeBlocks ∧ ∃ newBlocks kv₂, res = some newBlocks ∧
          kv₁.allocateBlocks args.request.requestId
            (args.newComputedBlocks.getD kv.emptyKVCacheBlocks) args.numLocalComputedTokens
            args.numExternalComputedTokens (args.numTokensNeedSlot kv.maxModelLen)
            args.numEncoderTokens = .ok (newBlocks, kv₂) ∧ (kv' = kv₂ ∨ kv₂.enableCaching = true ∧
            kv₂.coordinatorCacheBlocks args.request (args.numTokensToCache kv₂.maxModelLen) =
              .ok kv')) := by
  unfold allocateSlots at hok
  split_ifs at hok
  obtain ⟨kv₁, hremove, hok⟩ := bind_ok.1 hok
  obtain ⟨n, hn, hok⟩ := bind_ok.1 hok
  refine ⟨kv₁, n, hremove, hn, ?_⟩
  split_ifs at hok with hroom
  · cases hok
    exact .inl ⟨hroom, rfl, rfl⟩
  · obtain ⟨⟨newBlocks, kv₂⟩, halloc, hok⟩ := bind_ok.1 hok
    refine .inr ⟨not_lt.1 hroom, newBlocks, kv₂, ?_⟩
    dsimp only at hok
    split_ifs at hok with hdelay
    · cases hok
      exact ⟨rfl, halloc, .inl rfl⟩
    · obtain ⟨kv₃, hcache, hok⟩ := bind_ok.1 hok
      cases hok
      have hon : kv₂.enableCaching = true := by
        cases hcaching : kv₂.enableCaching with
        | true => rfl
        | false => simp [hcaching] at hdelay
      exact ⟨rfl, halloc, .inr ⟨hon, hcache⟩⟩

theorem allocateSlots_sound (h : Sound hasher first kv) (hhit : ∀ c ∈ kv.configs, ∃ l,
      (args.newComputedBlocks.getD kv.emptyKVCacheBlocks)[c.groupId]? = some l ∧
        HitList first c kv.blockPool.toBlockPoolConfig args.numNewComputedTokens l)
    (hok : kv.allocateSlots args = .ok (kv', res)) :
    Sound hasher first kv' ∧ Touches args.request.requestId kv kv' := by
  obtain ⟨kv₁, n, hremove, -, ⟨-, -, rfl⟩ | ⟨-, newBlocks, kv₂, -, halloc, hcaching⟩⟩ :=
    allocateSlots_cases hok
  · -- no room: only skipped blocks were removed
    obtain ⟨h₁, htouches₁, -⟩ := removeSkippedBlocks_sound h hremove
    exact ⟨h₁, htouches₁⟩
  · obtain ⟨h₁, htouches₁, -⟩ := removeSkippedBlocks_sound h hremove
    rw [← htouches₁.setup.configs, ← htouches₁.setup.pool] at hhit
    obtain ⟨h₂, htouches₂⟩ := allocateBlocks_sound h₁ hhit (le_add_left _ _) halloc
    obtain rfl | ⟨hon, hcache⟩ := hcaching
    · exact ⟨h₂, htouches₁.trans htouches₂⟩
    · obtain ⟨h₃, htouches₃, -⟩ := coordinatorCacheBlocks_sound h₂ hon hcache
      exact ⟨h₃, (htouches₁.trans htouches₂).trans htouches₃⟩

omit [DecidableEq δ] in
theorem passedHit_hit (h : Ready hasher kv) {withHit : Bool} {hit : Option (List (List ℕ)) × ℕ}
    (hpassed : kv.passedHit request withHit = .ok hit) :
    KVHit kv request (hit.1.getD kv.emptyKVCacheBlocks) hit.2 := by
  unfold passedHit at hpassed
  split_ifs at hpassed
  · obtain ⟨⟨blocks, L⟩, hget, rfl⟩ := map_eq_ok.1 hpassed
    exact getComputedBlocks_hit h hget
  · cases hpassed
    exact kvHit_empty h request

omit [DecidableEq δ] in
theorem Sound.of_evicts (h : Sound hasher first kv) (hev : Evicts kv.blockPool pool')
    (hindexed : pool'.Indexed first) :
    Sound hasher first { kv with blockPool := pool' } ∧
      SameSetup kv { kv with blockPool := pool' } := by
  have hsetup : SameSetup kv { kv with blockPool := pool' } := ⟨rfl, rfl, rfl, rfl, hev.config⟩
  have hnull : pool'.nullBlock = kv.blockPool.nullBlock := congrArg (·.nullBlock) hev.config
  refine ⟨⟨hsetup.ready h.ready, ?_, hindexed, ?_, h.filled.of_keeps hev.keeps⟩, hsetup⟩
  · exact h.counted.of_eq hev.config hev.freeBlockQueue hev.refCnt
  · show ∀ m ∈ kv.singleTypeManagers, ∀ r, Distinct pool'.nullBlock _
    rw [hnull]
    exact h.distinct

/-- The request that a call gives blocks to. -/
def KVCall.allocates : KVCall hasher → Option ℕ
  | .allocateSlots request .. => some request.requestId
  | _ => none

/-- **A call** keeps the invariant, and a request gets blocks by `allocate_slots` only. -/
theorem step_sound (hfree : CollisionFree hasher) (h : Sound hasher first kv) {call : KVCall hasher}
    (hok : kv.step call = .ok kv') : Sound hasher first kv' ∧ SameSetup kv kv' ∧
      ∀ r, call.allocates ≠ some r → (∀ l ∈ kv.getBlocks r, l = []) →
        ∀ l ∈ kv'.getBlocks r, l = [] := by
  have hkeep : ∀ {r rid : ℕ}, Touches rid kv kv' → r ≠ rid → (∀ l ∈ kv.getBlocks r, l = []) →
      ∀ l ∈ kv'.getBlocks r, l = [] := by
    intro r rid htouches hr hnil
    rw [getBlocks_eq_view, htouches.other r hr, ← getBlocks_eq_view]
    exact hnil
  -- a request without blocks stays so when the lists do not grow
  have hlists : ∀ {R : SingleTypeKVCacheManager → SingleTypeKVCacheManager → Prop} {r : ℕ},
      Forall₂ R kv.singleTypeManagers kv'.singleTypeManagers →
      (∀ m m', R m m' → m.blocks r = [] → m'.blocks r = []) → (∀ l ∈ kv.getBlocks r, l = []) →
      ∀ l ∈ kv'.getBlocks r, l = [] := by
    intro R r hR hnil hkv l hl
    obtain ⟨m', hm', rfl⟩ := mem_map.1 hl
    obtain ⟨m, hm, hmm'⟩ := exists_of_mem_right hR hm'
    exact hnil m m' hmm' (hkv _ (mem_map_of_mem hm))
  cases call with
  | getComputedBlocks request =>
    obtain ⟨hit, -, rfl⟩ := map_eq_ok.1 hok
    exact ⟨h, .refl kv, fun r _ hnil => hnil⟩
  | allocateSlots request withHit numNew numLookahead numExternal delay numEncoder =>
    obtain ⟨⟨blocks, L⟩, hpassed, hok⟩ := bind_ok.1 hok
    obtain ⟨⟨kv₁, res⟩, hslots, hret⟩ := bind_ok.1 hok
    cases hret
    obtain ⟨hsound, htouches⟩ := allocateSlots_sound h
      (fun c hc => (passedHit_hit h.ready hpassed).hitList h hfree hc) hslots
    exact ⟨hsound, htouches.setup, fun r hr => hkeep htouches fun hrid => hr (congrArg some hrid.symm)⟩
  | cacheBlocks request numComputed =>
    have hok : kv.cacheBlocks request numComputed = .ok kv' := hok
    unfold cacheBlocks at hok
    split_ifs at hok with hon
    · obtain ⟨hsound, htouches, hR⟩ := coordinatorCacheBlocks_sound h hon hok
      refine ⟨hsound, htouches.setup, fun r _ => hlists hR fun m m' hmm' hnil => ?_⟩
      unfold blocks at hnil ⊢
      rw [hmm'.2, hnil]
    · cases hok
      exact ⟨h, .refl kv, fun r _ hnil => hnil⟩
  | removeSkippedBlocks rid total =>
    obtain ⟨hsound, htouches, hR⟩ := removeSkippedBlocks_sound h hok
    refine ⟨hsound, htouches.setup, fun r _ => ?_⟩
    by_cases hr : r = rid
    · subst hr
      refine hlists hR fun m m' hmm' hnil => eq_nil_of_length_eq_zero ?_
      rw [hmm'.length, hnil, length_nil]
    · exact hkeep htouches hr
  | free rid =>
    obtain ⟨hsound, htouches, hR⟩ := free_sound h hok
    refine ⟨hsound, htouches.setup, fun r _ => ?_⟩
    by_cases hr : r = rid
    · subst hr
      exact hlists hR fun m m' hmm' _ => hmm'.setsBlocks.self
    · exact hkeep htouches hr
  | evictBlocks blockIds =>
    obtain ⟨pool', hevict, hret⟩ := bind_ok.1 hok
    cases hret
    obtain ⟨hev, hindexed⟩ := evictBlocks_indexed h.indexed hevict
    obtain ⟨hsound, hsetup⟩ := h.of_evicts hev hindexed
    exact ⟨hsound, hsetup, fun r _ hnil => hnil⟩
  | resetPrefixCache =>
    cases hok
    obtain ⟨hev, hindexed⟩ := resetPrefixCache_indexed h.indexed
    obtain ⟨hsound, hsetup⟩ := h.of_evicts hev hindexed
    exact ⟨hsound, hsetup, fun r _ hnil => hnil⟩

end KVCacheManager

end LoptVllm.KVCache
