import LoptVllm.KVCache.Allocation
import LoptVllm.KVCache.NullsFirst

/-!
# The blocks that a request loses to the attention window

The life of one request in the manager of a sliding window or chunked local group, among whatever
else happens to the manager and the pool.
-/

namespace LoptVllm.KVCache

open List Option

open BlockPool SingleTypeKVCacheManager KVCacheManager

/-- The kinds of attention that look back over a part of the tokens. -/
def AttentionKind.IsLocal : AttentionKind → Prop
  | .slidingWindow _ | .chunkedLocal _ => True
  | _ => False

/-- The attention of the token at `p` looks at the token at `j`: one of the last `w - 1` before it,
or one in its chunk, or itself. -/
def ReadBy (kind : AttentionKind) (p j : ℕ) : Prop := match kind with
  | .slidingWindow w => j ≤ p ∧ p < j + w
  | .chunkedLocal c => j ≤ p ∧ j / c = p / c
  | _ => j ≤ p

/-- What the next token skips is read by no later token. -/
theorem getNumSkippedTokens_le_of_readBy {kind : AttentionKind} (hkind : kind.IsLocal) {t p j : ℕ}
    (ht : t ≤ p) (hread : ReadBy kind p j) : kind.getNumSkippedTokens t ≤ j := by
  refine (kind.getNumSkippedTokens_mono ht).trans ?_
  cases kind with
  | slidingWindow w =>
    obtain ⟨hj, hp⟩ := hread
    simp only [AttentionKind.getNumSkippedTokens]
    omega
  | chunkedLocal c =>
    simp only [AttentionKind.getNumSkippedTokens, ← hread.2]
    exact Nat.div_mul_le_self j c
  | _ => exact hkind.elim

namespace SingleTypeKVCacheManager

variable {δ : Type} {m m' : SingleTypeKVCacheManager} {pool pool' : BlockPool δ} {rid total : ℕ}

/-- The loop in `remove_skipped_blocks`: the blocks that are freed, and the list that is left. -/
def skipLoop (m : SingleTypeKVCacheManager) (requestId totalComputedTokens nullBlock : ℕ) :
    List ℕ × List ℕ :=
  removeLoop nullBlock
    (min (m.numSkippedBlocks totalComputedTokens) (m.blocks requestId).length)
    (m.blocks requestId)

/-- `remove_skipped_blocks` passes the first list to `free_blocks` and keeps the second one. -/
theorem removeSkippedBlocks_eq_skipLoop
    (hok : m.removeSkippedBlocks rid total pool = .ok (m', pool')) :
    m'.blocks rid = (m.skipLoop rid total pool.nullBlock).2 ∧
      (pool.freeBlocks (m.skipLoop rid total pool.nullBlock).1 = .ok pool' ∨
        (m.skipLoop rid total pool.nullBlock).1 = [] ∧ pool' = pool) := by
  unfold removeSkippedBlocks at hok
  split_ifs at hok with hzero
  · cases hok
    have hloop : m.skipLoop rid total pool.nullBlock = ([], m.blocks rid) := by
      rw [skipLoop, numSkippedBlocks, hzero, Nat.zero_div, Nat.zero_min]
      rfl
    rw [hloop]
    exact ⟨rfl, .inr ⟨rfl, rfl⟩⟩
  · obtain ⟨pool₁, hfree, hret⟩ := bind_ok.1 hok
    cases hret
    exact ⟨(setsBlocks_setBlocks m rid _).self, .inl hfree⟩

/-- The index and the counts of the pool are right, whatever the other managers hold. -/
def Books (first : ℕ) (m : SingleTypeKVCacheManager) (pool : BlockPool δ) : Prop :=
  pool.Indexed first ∧ ∃ others, pool.Counted first (others + m.occ)

/-- Blocks that a request has cannot be handed out. -/
theorem Books.refCnt_pos {first : ℕ} (h : Books first m pool) {b : ℕ} (hb : b ∈ m.blocks rid)
    (hnull : b ≠ pool.nullBlock) : 0 < pool.refCnt b := by
  obtain ⟨-, others, hcounted⟩ := h
  have hpos := tally_pos_iff.2 hb
  have hle := tally_blocks_le m rid b
  rw [hcounted.refCnt b hnull, Pi.add_apply]
  omega

end SingleTypeKVCacheManager

/-! ### The life of a request -/

/-- A manager and the pool, with the record of one request: the tokens that blocks were removed for,
the list of the request as if none had been, and all blocks that it was given and that were passed
to `free_blocks` for it. -/
structure Life (δ : Type) where
  manager : SingleTypeKVCacheManager
  pool : BlockPool δ
  total : ℕ
  entries : List ℕ
  given : List ℕ
  freed : List ℕ

/-- The calls for the request. -/
inductive LifeCall
  | allocateNewComputedBlocks (newComputedBlocks : List ℕ)
      (numLocalComputedTokens numExternalComputedTokens : ℕ)
  | allocateNewBlocks (numTokens : ℕ)
  | removeSkippedBlocks (totalComputedTokens : ℕ)
  | free

namespace Life

variable {δ : Type}

/-- The state when the blocks at the end of the list are new. -/
def gives (s : Life δ) (rid : ℕ) (manager : SingleTypeKVCacheManager) (pool : BlockPool δ) :
    Life δ :=
  let new := (manager.blocks rid).drop (s.manager.blocks rid).length
  { s with
    manager := manager
    pool := pool
    entries := s.entries ++ new
    given := s.given ++ new }

/-- The configurations stay. -/
def KeepsConfig (s : Life δ) (manager : SingleTypeKVCacheManager) (pool : BlockPool δ) : Prop :=
  manager.toManagerConfig = s.manager.toManagerConfig ∧
    pool.toBlockPoolConfig = s.pool.toBlockPoolConfig

/-- The state after a call. -/
def call [DecidableEq δ] (s : Life δ) (rid : ℕ) : LifeCall → Except PyErr (Life δ)
  | .allocateNewComputedBlocks newComputedBlocks numLocal numExternal => do
    let (manager, pool) ← s.manager.allocateNewComputedBlocks rid newComputedBlocks numLocal
      numExternal s.pool
    return s.gives rid manager pool
  | .allocateNewBlocks numTokens => do
    let ((_, manager), pool) ← s.manager.allocateNewBlocks rid numTokens s.pool
    return s.gives rid manager pool
  | .removeSkippedBlocks total => do
    let (manager, pool) ← s.manager.removeSkippedBlocks rid total s.pool
    return { s with
      manager := manager
      pool := pool
      total := total
      freed := s.freed ++ (s.manager.skipLoop rid total s.pool.nullBlock).1 }
  | .free => do
    let (manager, pool) ← s.manager.free rid s.pool
    return { s with
      manager := manager
      pool := pool
      total := 0
      entries := []
      freed := s.freed ++ (s.manager.blocks rid).reverse }

/-- What the callers promise: the hit is one of the lookup, and the computed tokens do not get
fewer. -/
def Allowed (first : ℕ) (s : Life δ) : LifeCall → Prop
  | .allocateNewComputedBlocks newComputedBlocks numLocal _ =>
    NullsFirst s.pool.nullBlock newComputedBlocks ∧
      ∃ L ≤ numLocal, HitList first s.manager.toManagerConfig s.pool.toBlockPoolConfig L
        newComputedBlocks
  | .removeSkippedBlocks total => s.total ≤ total
  | _ => True

/-- A call for the request, or anything else that leaves its list alone and keeps the books. -/
inductive Step [DecidableEq δ] (first rid : ℕ) (s : Life δ) : Life δ → Prop
  | call {s' : Life δ} (c : LifeCall) (hallowed : s.Allowed first c) (hok : s.call rid c = .ok s') :
      Step first rid s s'
  | others (manager : SingleTypeKVCacheManager) (pool : BlockPool δ)
      (hbooks : Books first manager pool)
      (hconfig : manager.toManagerConfig = s.manager.toManagerConfig)
      (hpool : pool.toBlockPoolConfig = s.pool.toBlockPoolConfig)
      (hblocks : manager.blocks rid = s.manager.blocks rid) :
      Step first rid s { s with manager := manager, pool := pool }

/-- The request has no blocks yet. -/
structure Starts (first rid : ℕ) (s : Life δ) : Prop where
  books : Books first s.manager s.pool
  blocks : s.manager.blocks rid = []
  total : s.total = 0
  entries : s.entries = []
  given : s.given = []
  freed : s.freed = []

/-! ### The invariant -/

/-- **The invariant.** Every entry of the list is the one that the request was given, or a null
block before the window. -/
structure Tracked (first rid : ℕ) (s : Life δ) : Prop where
  books : Books first s.manager s.pool
  distinct : Distinct s.pool.nullBlock (s.manager.blocks rid)
  nullsFirst : NullsFirst s.pool.nullBlock (s.manager.blocks rid)
  length : s.entries.length = (s.manager.blocks rid).length
  entry : ∀ i : ℕ, (s.manager.blocks rid)[i]? = s.entries[i]? ∨
    i < s.manager.numSkippedBlocks s.total ∧ (s.manager.blocks rid)[i]? = some s.pool.nullBlock
  ledger : ∀ b, b ≠ s.pool.nullBlock →
    tally s.given b = tally s.freed b + tally (s.manager.blocks rid) b

variable {first rid : ℕ} {s s₀ s' : Life δ} {manager : SingleTypeKVCacheManager} {pool : BlockPool δ}

theorem Starts.tracked (h : Starts first rid s) : Tracked first rid s := by
  refine ⟨h.books, ?_, ?_, ?_, fun i => .inl ?_, fun b _ => ?_⟩
  · rw [h.blocks]
    exact distinct_nil _
  · rw [h.blocks]
    exact nullsFirst_nil _
  · rw [h.blocks, h.entries]
  · rw [h.blocks, h.entries]
  · rw [h.blocks, h.given, h.freed]
    rfl

section

variable (h : Tracked first rid s)
include h

/-- New blocks at the end of the list. -/
theorem Tracked.gives {new : List ℕ}
    (hsets : SetsBlocks s.manager rid (s.manager.blocks rid ++ new) manager)
    (hbooks : Books first manager pool) (hpool : pool.toBlockPoolConfig = s.pool.toBlockPoolConfig)
    (hdistinct : Distinct s.pool.nullBlock (s.manager.blocks rid ++ new))
    (hnulls : NullsFirst s.pool.nullBlock (s.manager.blocks rid ++ new)) :
    Tracked first rid (s.gives rid manager pool) := by
  have hnull : pool.nullBlock = s.pool.nullBlock := congrArg (·.nullBlock) hpool
  have hskip : manager.numSkippedBlocks s.total = s.manager.numSkippedBlocks s.total := by
    simp [numSkippedBlocks, hsets.config]
  refine ⟨hbooks, ?_, ?_, ?_, fun i => ?_, fun b hb => ?_⟩ <;>
    simp only [Life.gives, hsets.self, drop_left, hnull] at *
  · exact hdistinct
  · exact hnulls
  · simp [h.length]
  · rw [hskip]
    rcases lt_or_ge i (s.manager.blocks rid).length with hi | hi
    · rw [getElem?_append_left hi, getElem?_append_left (h.length ▸ hi)]
      exact h.entry i
    · left
      rw [getElem?_append_right hi, getElem?_append_right (h.length ▸ hi), h.length]
  · have := h.ledger b hb
    simp only [tally_append, Pi.add_apply]
    omega

/-- Blocks before the window become null blocks. -/
theorem Tracked.removeSkippedBlocks {total : ℕ} (hle : s.total ≤ total)
    (hok : s.manager.removeSkippedBlocks rid total s.pool = .ok (manager, pool)) :
    Tracked first rid { s with
      manager := manager
      pool := pool
      total := total
      freed := s.freed ++ (s.manager.skipLoop rid total s.pool.nullBlock).1 } ∧
      s.KeepsConfig manager pool := by
  obtain ⟨hindexed, others, hcounted⟩ := h.books
  obtain ⟨m', pool', hspec, hcounted', hsame, -, hremoves⟩ :=
    removeSkippedBlocks_spec hcounted h.distinct total
  cases hok.symm.trans hspec
  have hnull : pool.nullBlock = s.pool.nullBlock := congrArg (·.nullBlock) hsame.config
  have hlist := (removeSkippedBlocks_eq_skipLoop hok).1
  set n := min (s.manager.numSkippedBlocks total) (s.manager.blocks rid).length with hn
  obtain ⟨-, htally, -⟩ := removeLoop_spec s.pool.nullBlock n (s.manager.blocks rid)
    (min_le_right _ _)
  obtain ⟨-, hleft⟩ := removeLoop_of_nullsFirst n (s.manager.blocks rid) (min_le_right _ _)
    fun i j hij _ => h.nullsFirst i j hij
  have hget : ∀ i : ℕ, (manager.blocks rid)[i]? =
      if i < n then some s.pool.nullBlock else (s.manager.blocks rid)[i]? := by
    intro i
    rw [hlist]
    exact hleft i
  have hskip : manager.numSkippedBlocks total = s.manager.numSkippedBlocks total := by
    simp [numSkippedBlocks, hremoves.setsBlocks.config]
  refine ⟨⟨⟨hsame.indexed hindexed, others, hcounted'⟩, ?_, fun i j hij hj => ?_, ?_, fun i => ?_,
    fun b hb => ?_⟩, hremoves.setsBlocks.config, hsame.config⟩ <;> simp only [hnull] at *
  · exact hremoves.distinct
  · rw [hget] at hj ⊢
    split_ifs with hi
    · rfl
    · rw [if_neg (by omega)] at hj
      exact h.nullsFirst i j hij hj
  · rw [h.length, hremoves.length]
  · rw [hget, hskip]
    split_ifs with hi
    · exact .inr ⟨hi.trans_le (min_le_left _ _), rfl⟩
    · refine (h.entry i).imp_right (And.imp_left fun hlt => hlt.trans_le ?_)
      exact s.manager.numSkippedBlocks_mono hle
  · have hbefore := h.ledger b hb
    have hloop : tally (s.manager.blocks rid) b = tally (manager.blocks rid) b +
        tally (s.manager.skipLoop rid total s.pool.nullBlock).1 b := by
      rw [hlist]
      exact htally b hb
    rw [tally_append, Pi.add_apply]
    omega

theorem Tracked.free (hok : s.manager.free rid s.pool = .ok (manager, pool)) :
    Tracked first rid { s with
      manager := manager
      pool := pool
      total := 0
      entries := []
      freed := s.freed ++ (s.manager.blocks rid).reverse } ∧
      s.KeepsConfig manager pool := by
  obtain ⟨hindexed, others, hcounted⟩ := h.books
  obtain ⟨m', pool', hspec, hcounted', hsame, -, hforgets⟩ := free_spec hcounted h.distinct
  cases hok.symm.trans hspec
  have hnull : pool.nullBlock = s.pool.nullBlock := congrArg (·.nullBlock) hsame.config
  have hnil := hforgets.setsBlocks.self
  refine ⟨⟨⟨hsame.indexed hindexed, others, hcounted'⟩, ?_, ?_, ?_, fun i => .inl ?_, fun b hb => ?_⟩,
    hforgets.setsBlocks.config, hsame.config⟩ <;> simp only [hnil, hnull] at *
  · exact distinct_nil _
  · exact nullsFirst_nil _
  · have := h.ledger b hb
    simp only [tally_append, tally_reverse, tally_nil, Pi.add_apply]
    omega

end

variable [DecidableEq δ]

/-- A request starts on the hit of a lookup, or goes on as before. -/
theorem Tracked.allocateNewComputedBlocks (h : Tracked first rid s) {hits : List ℕ}
    {numLocal numExternal : ℕ}
    (hallowed : s.Allowed first (.allocateNewComputedBlocks hits numLocal numExternal))
    (hok : s.manager.allocateNewComputedBlocks rid hits numLocal numExternal s.pool =
      .ok (manager, pool)) : Tracked first rid (s.gives rid manager pool) ∧
      s.KeepsConfig manager pool := by
  obtain ⟨hnulls, L, hL, hlist⟩ := hallowed
  obtain ⟨hindexed, others, hcounted⟩ := h.books
  by_cases hskip : s.manager.isCrossAttention ∨ rid ∈ s.manager.numCachedBlock
  · -- nothing is added to a running request
    unfold SingleTypeKVCacheManager.allocateNewComputedBlocks at hok
    split_ifs at hok
    cases hok
    have hkeep := SetsBlocks.refl s.manager rid
    rw [← append_nil (s.manager.blocks rid)] at hkeep
    refine ⟨h.gives hkeep h.books rfl ?_ ?_, rfl, rfl⟩
    · simpa using h.distinct
    · simpa using h.nullsFirst
  · have hnil : s.manager.blocks rid = [] := by
      by_contra hne
      unfold SingleTypeKVCacheManager.allocateNewComputedBlocks at hok
      rw [if_neg hskip, if_pos hne] at hok
      cases hok
    obtain ⟨hcross, hmem⟩ := not_or.1 hskip
    rw [Bool.not_eq_true] at hcross
    obtain ⟨ret, m', pool', hspec, hcounted', hindexed', -, hgrows, -, hstarts⟩ | ⟨⟨e, he⟩, -⟩ :=
      allocateNewComputedBlocks_spec hcounted hindexed hcross hmem hnil hlist.range hlist.distinct
        (hlist.length.trans_le hL) hlist.off numExternal
    · cases hok.symm.trans hspec
      have hsets := hstarts.setsBlocks
      rw [← nil_append (startBlocks _ _ _ _), ← hnil] at hsets
      refine ⟨h.gives hsets ⟨hindexed', others, hcounted'⟩ hgrows.config ?_ ?_, hsets.config,
        hgrows.config⟩
      · rw [hnil]
        exact hstarts.distinct
      · rw [hnil]
        exact (hnulls.pad _).append_new hstarts.ne_nullBlock
    · cases hok.symm.trans he

theorem Tracked.allocateNewBlocks (h : Tracked first rid s) {numTokens : ℕ} {new : List ℕ}
    (hok : s.manager.allocateNewBlocks rid numTokens s.pool = .ok ((new, manager), pool)) :
    Tracked first rid (s.gives rid manager pool) ∧
      s.KeepsConfig manager pool := by
  obtain ⟨hindexed, others, hcounted⟩ := h.books
  obtain ⟨new, m', pool', hspec, hcounted', hindexed', -, hgrows, -, hext⟩ | ⟨⟨e, he⟩, -⟩ :=
    allocateNewBlocks_spec hcounted hindexed h.distinct numTokens
  · cases hok.symm.trans hspec
    exact ⟨h.gives hext.setsBlocks ⟨hindexed', others, hcounted'⟩ hgrows.config hext.distinct
      (h.nullsFirst.append_new hext.ne_nullBlock), hext.setsBlocks.config, hgrows.config⟩
  · cases hok.symm.trans he

/-- **A step** keeps the invariant and the configuration. -/
theorem Step.tracked (hstep : Step first rid s s') (h : Tracked first rid s) :
    Tracked first rid s' ∧ s.KeepsConfig s'.manager s'.pool := by
  cases hstep with
  | call c hallowed hok =>
    cases c with
    | allocateNewComputedBlocks hits numLocal numExternal =>
      obtain ⟨⟨manager, pool⟩, hcall, hret⟩ := bind_ok.1 hok
      cases hret
      exact h.allocateNewComputedBlocks hallowed hcall
    | allocateNewBlocks numTokens =>
      obtain ⟨⟨⟨new, manager⟩, pool⟩, hcall, hret⟩ := bind_ok.1 hok
      cases hret
      exact h.allocateNewBlocks hcall
    | removeSkippedBlocks total =>
      obtain ⟨⟨manager, pool⟩, hcall, hret⟩ := bind_ok.1 hok
      cases hret
      exact h.removeSkippedBlocks hallowed hcall
    | free =>
      obtain ⟨⟨manager, pool⟩, hcall, hret⟩ := bind_ok.1 hok
      cases hret
      exact h.free hcall
  | others manager pool hbooks hconfig hpool hblocks =>
    have hnull : pool.nullBlock = s.pool.nullBlock := congrArg (·.nullBlock) hpool
    have hskip : manager.numSkippedBlocks s.total = s.manager.numSkippedBlocks s.total := by
      simp [numSkippedBlocks, hconfig]
    refine ⟨⟨hbooks, ?_, ?_, ?_, ?_, ?_⟩, hconfig, hpool⟩ <;> simp only [hblocks, hnull, hskip]
    · exact h.distinct
    · exact h.nullsFirst
    · exact h.length
    · exact h.entry
    · exact h.ledger

/-- **A run** keeps them too. -/
theorem run_tracked (h : Tracked first rid s₀) (hrun : Relation.ReflTransGen (Step first rid) s₀ s) :
    Tracked first rid s ∧ s.manager.toManagerConfig = s₀.manager.toManagerConfig := by
  induction hrun with
  | refl => exact ⟨h, rfl⟩
  | tail _ hstep ih =>
    obtain ⟨htracked, hconfig, -⟩ := hstep.tracked ih.1
    exact ⟨htracked, hconfig.trans ih.2⟩

/-! ### The calls of the KV cache manager -/

omit [DecidableEq δ] in
/-- The books are right for every manager in every reachable state of the KV cache manager. -/
theorem books_of_sound {hasher : BlockHasher δ} {kv : KVCacheManager δ} (h : Sound hasher first kv)
    {m : SingleTypeKVCacheManager} (hm : m ∈ kv.singleTypeManagers) :
    Books first m kv.blockPool := by
  obtain ⟨before, after, hsplit⟩ := mem_iff_append.1 hm
  have hcounted := h.counted
  rw [hsplit, totalOcc, map_append, sum_append, map_cons, sum_cons,
    add_left_comm, add_comm] at hcounted
  exact ⟨h.indexed, _, hcounted⟩

omit [DecidableEq δ] in
/-- The hit that `get_computed_blocks` returns may be passed on to each manager. -/
theorem allowed_of_getComputedBlocks {hasher : BlockHasher δ} {kv : KVCacheManager δ}
    {request : SchedulerRequest hasher} (hfree : CollisionFree hasher) (h : Sound hasher first kv)
    (hm : s.manager ∈ kv.singleTypeManagers) (hpool : s.pool = kv.blockPool)
    {blocks : List (List ℕ)} {L numLocal : ℕ}
    (hget : kv.getComputedBlocks request = .ok (blocks, L)) (hL : L ≤ numLocal)
    (numExternal : ℕ) : ∃ l, blocks[s.manager.groupId]? = some l ∧
      s.Allowed first (.allocateNewComputedBlocks l numLocal numExternal) := by
  obtain ⟨l, hl, hlist⟩ := (getComputedBlocks_hit h.ready hget).hitList h hfree
    (List.mem_map_of_mem hm : s.manager.toManagerConfig ∈ kv.configs)
  have hnulls := getComputedBlocks_nullsFirst h hget l (mem_of_getElem? hl)
  rw [← hpool] at hlist hnulls
  exact ⟨l, hl, hnulls, L, hL, hlist⟩

/-- The calls, one after another. -/
def calls (s : Life δ) (rid : ℕ) (cs : List LifeCall) : Except PyErr (Life δ) :=
  cs.foldlM (fun s c => s.call rid c) s

/-- The calls of a request without a prefix hit, with removals for no fewer tokens each time. -/
def Ordered : ℕ → List LifeCall → Prop
  | _, [] => True
  | _, .allocateNewComputedBlocks .. :: _ => False
  | t, .allocateNewBlocks _ :: cs => Ordered t cs
  | t, .removeSkippedBlocks total :: cs => t ≤ total ∧ Ordered total cs
  | _, .free :: cs => Ordered 0 cs

theorem reaches_of_calls {cs : List LifeCall} (hordered : Ordered s.total cs)
    (hok : s.calls rid cs = .ok s') : Relation.ReflTransGen (Step first rid) s s' := by
  induction cs generalizing s with
  | nil =>
    cases hok
    exact .refl
  | cons c cs ih =>
    obtain ⟨s₁, hcall, hrest⟩ := bind_ok.1 hok
    cases c with
    | allocateNewComputedBlocks => exact hordered.elim
    | allocateNewBlocks numTokens =>
      obtain ⟨x, -, hret⟩ := bind_ok.1 hcall
      cases hret
      exact .head (.call (.allocateNewBlocks numTokens) trivial hcall) (ih hordered hrest)
    | removeSkippedBlocks total =>
      obtain ⟨x, -, hret⟩ := bind_ok.1 hcall
      cases hret
      exact .head (.call (.removeSkippedBlocks total) hordered.1 hcall) (ih hordered.2 hrest)
    | free =>
      obtain ⟨x, -, hret⟩ := bind_ok.1 hcall
      cases hret
      exact .head (.call .free trivial hcall) (ih hordered hrest)

/-! ### What no request loses -/

/-- Null blocks come first; the entries of tokens that the next token or a later one reads are those
that the request was given, their blocks are in use, and no removal for more tokens frees one; every
block was freed once for each time that it was given, except where the request has it. -/
structure Safe (rid : ℕ) (s : Life δ) : Prop where
  nullsFirst : NullsFirst s.pool.nullBlock (s.manager.blocks rid)
  kept : ∀ p j, s.total ≤ p → ReadBy s.manager.spec.kind p j →
    (s.manager.blocks rid)[j / s.manager.blockSize]? = s.entries[j / s.manager.blockSize]?
  held : ∀ b ∈ s.manager.blocks rid, b ≠ s.pool.nullBlock → 0 < s.pool.refCnt b
  notFreed : ∀ total p j b, total ≤ p → ReadBy s.manager.spec.kind p j →
    (s.manager.blocks rid)[j / s.manager.blockSize]? = some b → b ≠ s.pool.nullBlock →
    b ∉ (s.manager.skipLoop rid total s.pool.nullBlock).1
  once : ∀ b, b ≠ s.pool.nullBlock → s.given.count b =
    s.freed.count b + if b ∈ s.manager.blocks rid then 1 else 0

omit [DecidableEq δ] in
/-- A block in the window is not among those before it. -/
theorem Tracked.not_mem_skipLoop (h : Tracked first rid s) {total i b : ℕ}
    (hi : s.manager.numSkippedBlocks total ≤ i) (hb : (s.manager.blocks rid)[i]? = some b)
    (hnull : b ≠ s.pool.nullBlock) : b ∉ (s.manager.skipLoop rid total s.pool.nullBlock).1 := by
  set n := min (s.manager.numSkippedBlocks total) (s.manager.blocks rid).length with hn
  obtain ⟨hfreed, -⟩ := removeLoop_of_nullsFirst n (s.manager.blocks rid) (min_le_right _ _)
    fun i j hij _ => h.nullsFirst i j hij
  have hloop : (s.manager.skipLoop rid total s.pool.nullBlock).1 =
      (((s.manager.blocks rid).take n).filter fun b => b ≠ s.pool.nullBlock).reverse := hfreed
  rw [hloop, mem_reverse, mem_filter]
  rintro ⟨htake, -⟩
  -- else it would occur twice
  obtain ⟨k, hk, hget⟩ := mem_take_iff_getElem.1 htake
  obtain ⟨hlt, hgeti⟩ := List.getElem?_eq_some_iff.1 hb
  have hdup : (s.manager.blocks rid).Duplicate b := duplicate_iff_exists_distinct_get.2
      ⟨⟨k, by omega⟩, ⟨i, hlt⟩, Fin.mk_lt_mk.2 (by omega), hget.symm, hgeti.symm⟩
  have htwo := duplicate_iff_two_le_count.1 hdup
  have hone := h.distinct b hnull
  rw [tally] at hone
  omega

omit [DecidableEq δ] in
theorem Tracked.isSafe (h : Tracked first rid s) (hkind : s.manager.spec.kind.IsLocal) :
    Safe rid s := by
  have hskip : ∀ total p j, total ≤ p → ReadBy s.manager.spec.kind p j →
      s.manager.numSkippedBlocks total ≤ j / s.manager.blockSize :=
    fun total p j hp hread =>
      Nat.div_le_div_right (getNumSkippedTokens_le_of_readBy hkind hp hread)
  refine ⟨h.nullsFirst, fun p j hp hread => ?_, fun b hb hnull => h.books.refCnt_pos hb hnull,
    fun total p j b hp hread hb hnull => h.not_mem_skipLoop (hskip total p j hp hread) hb hnull,
    fun b hb => ?_⟩
  · have := hskip s.total p j hp hread
    exact (h.entry _).resolve_right fun hlt => by omega
  · have hledger := h.ledger b hb
    have hone := h.distinct b hb
    simp only [tally] at hledger hone
    rw [hledger]
    split_ifs with hmem
    · have := count_pos_iff.2 hmem
      omega
    · rw [count_eq_zero.2 hmem]

omit [DecidableEq δ] in
/-- A request of the KV cache manager that starts with its prefix hit. -/
theorem starts_of_sound {hasher : BlockHasher δ} {kv : KVCacheManager δ} (h : Sound hasher first kv)
    {m : SingleTypeKVCacheManager} (hm : m ∈ kv.singleTypeManagers) (hnil : m.blocks rid = []) :
    Starts first rid (⟨m, kv.blockPool, 0, [], [], []⟩ : Life δ) :=
  ⟨books_of_sound h hm, hnil, rfl, rfl, rfl, rfl⟩

/-- **In every run that starts with the hit that `get_computed_blocks` returned**, from any state of the
KV cache manager that the calls lead to, no block is lost. -/
theorem safe_after_hit {hasher : BlockHasher δ} {kv : KVCacheManager δ} {request : SchedulerRequest hasher}
    (hfree : CollisionFree hasher) (h : Sound hasher first kv) {m : SingleTypeKVCacheManager}
    (hm : m ∈ kv.singleTypeManagers) (hkind : m.spec.kind.IsLocal) (hnil : m.blocks rid = [])
    {blocks : List (List ℕ)} {L numLocal : ℕ} (hget : kv.getComputedBlocks request = .ok (blocks, L))
    (hL : L ≤ numLocal) (numExternal : ℕ) : ∃ l, blocks[m.groupId]? = some l ∧ ∀ s s' : Life δ,
      (⟨m, kv.blockPool, 0, [], [], []⟩ : Life δ).call rid
        (.allocateNewComputedBlocks l numLocal numExternal) = .ok s →
      Relation.ReflTransGen (Step first rid) s s' → Safe rid s' := by
  obtain ⟨l, hl, hallowed⟩ := allowed_of_getComputedBlocks (s := ⟨m, kv.blockPool, 0, [], [], []⟩) hfree h
    hm rfl hget hL numExternal
  refine ⟨l, hl, fun s s' hcall hrun => ?_⟩
  obtain ⟨htracked, hconfig⟩ :=
    run_tracked (starts_of_sound h hm hnil).tracked (.head (.call _ hallowed hcall) hrun)
  have hspec : s'.manager.spec = m.spec := congrArg (·.spec) hconfig
  exact htracked.isSafe (hspec ▸ hkind)

/-- **No request loses a block that is still read**, and each time that a block was given to it, it
is freed once: when its last block is gone, as after `free`, exactly as often as it was given. -/
theorem life_safe (hkind : s₀.manager.spec.kind.IsLocal) (hstart : Starts first rid s₀)
    (hrun : Relation.ReflTransGen (Step first rid) s₀ s) : Safe rid s ∧ (s.manager.blocks rid = [] →
      ∀ b, b ≠ s.pool.nullBlock → s.freed.count b = s.given.count b) := by
  obtain ⟨htracked, hconfig⟩ := run_tracked hstart.tracked hrun
  have hspec : s.manager.spec = s₀.manager.spec := congrArg (·.spec) hconfig
  have hsafe := htracked.isSafe (hspec ▸ hkind)
  refine ⟨hsafe, fun hnil b hb => ?_⟩
  rw [hsafe.once b hb, hnil, if_neg not_mem_nil, add_zero]

/-! ### A small pool -/

/-- The manager of a sliding window group of two tokens, with blocks of one token. -/
def windowTwo : SingleTypeKVCacheManager :=
  ⟨⟨⟨.slidingWindow 2, 1, 0, by decide, by simp⟩, 1, by decide, true, 0⟩, ∅, ∅⟩

/-- Three tokens, with a removal after the second and the third. -/
def threeTokens : List LifeCall :=
  [.allocateNewBlocks 2, .removeSkippedBlocks 2, .allocateNewBlocks 3, .removeSkippedBlocks 3,
    .free]

/-- With two blocks besides the null block, the third token gets the block of the first one. -/
theorem threeTokens_calls : ((new (δ := ℕ) 3 true 1).toOption.bind fun pool =>
      (calls ⟨windowTwo, pool, 0, [], [], []⟩ 0 threeTokens).toOption.map fun s =>
        (s.manager.blocks 0, s.pool.nullBlock, s.given, s.freed.count 1)) =
      some ([], 0, [1, 2, 1], 2) := by
  decide +kernel

theorem threeTokens_reaches : ∃ s₀ s : Life ℕ, s₀.manager = windowTwo ∧ Starts 1 0 s₀ ∧
    Relation.ReflTransGen (Step 1 0) s₀ s ∧ s.manager.blocks 0 = [] ∧ s.pool.nullBlock = 0 ∧
    s.given = [1, 2, 1] ∧ s.freed.count 1 = 2 := by
  have hcalls := threeTokens_calls
  cases hnew : new (δ := ℕ) 3 true 1 with
  | error e => simp [hnew, Except.toOption] at hcalls
  | ok pool =>
    obtain ⟨-, hfresh⟩ := new_fresh hnew
    cases hok : calls ⟨windowTwo, pool, 0, [], [], []⟩ 0 threeTokens with
    | error e => simp [hnew, hok, Except.toOption] at hcalls
    | ok s =>
      simp only [hnew, hok, Except.toOption, bind_some, map_some, some_inj, Prod.mk.injEq] at hcalls
      refine ⟨_, s, rfl, ⟨⟨hfresh.indexed, 0, hfresh.counted⟩, rfl, rfl, rfl, rfl, rfl⟩,
        reaches_of_calls ?_ hok, hcalls⟩
      exact ⟨Nat.zero_le 2, Nat.le_succ 2, trivial⟩

theorem life_safe_windowTwo : ∃ s₀ s : Life ℕ, s₀.manager.spec.kind.IsLocal ∧ Starts 1 0 s₀ ∧
    Relation.ReflTransGen (Step 1 0) s₀ s ∧ s.given = [1, 2, 1] ∧ Safe 0 s ∧
    (s.manager.blocks 0 = [] → ∀ b, b ≠ s.pool.nullBlock → s.freed.count b = s.given.count b) := by
  obtain ⟨s₀, s, hmanager, hstart, hrun, -, -, hgiven, -⟩ := threeTokens_reaches
  have hkind : s₀.manager.spec.kind.IsLocal := hmanager ▸ trivial
  exact ⟨s₀, s, hkind, hstart, hrun, hgiven, life_safe hkind hstart hrun⟩

/-- A block that is given twice is freed twice. -/
theorem not_freed_at_most_once : ¬ ∀ s₀ s : Life ℕ, s₀.manager.spec.kind.IsLocal → Starts 1 0 s₀ →
    Relation.ReflTransGen (Step 1 0) s₀ s → ∀ b, b ≠ s.pool.nullBlock → s.freed.count b ≤ 1 := by
  intro h
  obtain ⟨s₀, s, hmanager, hstart, hrun, -, hnull, -, htwo⟩ := threeTokens_reaches
  have hone := h s₀ s (hmanager ▸ trivial) hstart hrun 1 (hnull ▸ Nat.one_ne_zero)
  rw [htwo] at hone
  exact absurd hone (by decide)

end Life

end LoptVllm.KVCache
