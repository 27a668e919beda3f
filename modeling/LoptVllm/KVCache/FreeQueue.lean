import LoptVllm.Lib.DoublyLinked
import LoptVllm.Python

/-!
# The free block queue

`FreeKVCacheBlockQueue` keeps the free blocks in eviction order. Its links are attributes of the
blocks; a fake head and a fake tail save the branches at the ends. A block is its id.
-/

namespace LoptVllm.KVCache

open List Option Function Nat

open DoublyLinked

/-- The nodes of the queue: its two fake blocks and the blocks. -/
inductive FreeNode
  | fakeFreeListHead
  | fakeFreeListTail
  | block (blockId : ℕ)
  deriving DecidableEq

open FreeNode

/-- `FreeKVCacheBlockQueue`. -/
structure FreeKVCacheBlockQueue where
  numFreeBlocks : ℤ
  links : Links FreeNode

namespace FreeKVCacheBlockQueue

variable (q : FreeKVCacheBlockQueue)

/-- `FreeKVCacheBlockQueue.__init__`; `links` are the attributes that the blocks have before. The
fake blocks are new. -/
def init (blocks : List ℕ) (links : Links FreeNode) : FreeKVCacheBlockQueue :=
  ⟨blocks.length, ((links.clear fakeFreeListHead).clear fakeFreeListTail).linkAll fakeFreeListHead
    (blocks.map block ++ [fakeFreeListTail])⟩

/-- `FreeKVCacheBlockQueue.__init__` for the blocks with the ids below `n`. -/
def new (n : ℕ) : FreeKVCacheBlockQueue :=
  ⟨n, Links.linkAll fakeFreeListHead ((range n).map block ++ [fakeFreeListTail])
    ⟨fun _ => none, fun _ => none⟩⟩

/-- `popleft`. -/
def popleft : Except PyErr (ℕ × FreeKVCacheBlockQueue) := match q.links.next fakeFreeListHead with
  | some (block firstBlock) =>
    match q.links.next (block firstBlock) with
    | none => .error (.runtimeError
        "Invalid block found in popleft() which doesn't have a valid next_free_block")
    | some nextBlock => .ok (firstBlock, ⟨q.numFreeBlocks - 1,
          (q.links.link fakeFreeListHead nextBlock).clear (block firstBlock)⟩)
  | _ =>
    if q.numFreeBlocks = 0 then .error (.valueError "No free blocks available")
    else .error (.assertionError s!"num_free_blocks ({q.numFreeBlocks}) is out of sync with the free list.")

/-- The loop of `popleft_n`. Where it would take the fake tail for a block, which the counter
rules out, it fails here. -/
def popLoop : ℕ → Option FreeNode → Links FreeNode →
    Except PyErr (List ℕ × Option FreeNode × Links FreeNode)
  | 0, currBlock, links => .ok ([], currBlock, links)
  | n + 1, some (block b), links => do
    let (ret, currBlock, links) ← popLoop n (links.next (block b)) (links.clear (block b))
    return (b :: ret, currBlock, links)
  | _ + 1, _, _ => .error (.assertionError "")

/-- `popleft_n`. -/
def popleftN (n : ℤ) : Except PyErr (List ℕ × FreeKVCacheBlockQueue) := if n = 0 then .ok ([], q)
  else if q.numFreeBlocks < n then .error (.assertionError "")
  else do
    let (ret, currBlock, links) ← popLoop n.toNat (q.links.next fakeFreeListHead) q.links
    let links := match currBlock with
      | some currBlock => links.link fakeFreeListHead currBlock
      | none => links
    return (ret, ⟨q.numFreeBlocks - n, links⟩)

/-- `remove`. -/
def remove (b : ℕ) : Except PyErr FreeKVCacheBlockQueue :=
  match q.links.prev (block b), q.links.next (block b) with
  | some prevBlock, some nextBlock =>
    .ok ⟨q.numFreeBlocks - 1, (q.links.link prevBlock nextBlock).clear (block b)⟩
  | _, _ => .error (.runtimeError "remove() called on an invalid block")

/-- `append`. -/
def append (b : ℕ) : Except PyErr FreeKVCacheBlockQueue := match q.links.prev fakeFreeListTail with
  | none => .error (.runtimeError "prev_free_block of fake_free_list_tail should always exist")
  | some lastBlock => .ok ⟨q.numFreeBlocks + 1,
      (q.links.link lastBlock (block b)).link (block b) fakeFreeListTail⟩

/-- `append_n`. -/
def appendN (blocks : List ℕ) : Except PyErr FreeKVCacheBlockQueue := if blocks = [] then .ok q
  else match q.links.prev fakeFreeListTail with
    | none => .error (.assertionError "prev_free_block of fake_free_list_tail should always exist")
    | some lastBlock => .ok ⟨q.numFreeBlocks + blocks.length,
        q.links.linkAll lastBlock (blocks.map block ++ [fakeFreeListTail])⟩

/-- The loop of `get_all_free_blocks`, for at most `fuel` rounds. -/
def walk (links : Links FreeNode) : ℕ → FreeNode → Option (List FreeNode)
  | 0, _ => none
  | fuel + 1, currBlock =>
    match links.next currBlock with
    | none => some []
    | some nextBlock => (walk links fuel nextBlock).map (currBlock :: ·)

/-- `get_all_free_blocks`; without a first node it raises. -/
def getAllFreeBlocks (fuel : ℕ) : Option (List FreeNode) :=
  (q.links.next fakeFreeListHead).bind (walk q.links fuel)

/-! ### The blocks in the queue -/

/-- The nodes from the fake head to the fake tail. -/
def nodes (l : List ℕ) : List FreeNode := fakeFreeListHead :: (l.map block ++ [fakeFreeListTail])

/-- The queue holds the blocks `l`, in this order. -/
structure Holds (l : List ℕ) : Prop where
  chained : q.links.Chained (nodes l)
  nodup : l.Nodup
  last : q.links.next fakeFreeListTail = none
  numFreeBlocks : q.numFreeBlocks = l.length

/-- Outside of `l` the links are as in `links`, except that the blocks `gone` have none. -/
structure Outside (links : Links FreeNode) (l gone : List ℕ) : Prop where
  first : q.links.prev fakeFreeListHead = links.prev fakeFreeListHead
  prev_eq : ∀ b ∉ l, q.links.prev (block b) = if b ∈ gone then none else links.prev (block b)
  next_eq : ∀ b ∉ l, q.links.next (block b) = if b ∈ gone then none else links.next (block b)

variable {q} {l l' : List ℕ} {b : ℕ}

theorem nodup_nodes (h : l.Nodup) : (nodes l).Nodup := by
  have hmap : (l.map block).Nodup := h.map fun _ _ => FreeNode.block.inj
  simp [nodes, nodup_append', hmap]

theorem init_holds (hnodup : l.Nodup) (links : Links FreeNode) : (init l links).Holds l := by
  refine ⟨Links.Chained.linkAll (l := []) (Links.Chained.singleton _ _) (nodup_nodes hnodup),
    hnodup, (next_linkAll ?_).trans (by simp), rfl⟩
  rw [← cons_append, dropLast_concat]
  simp

theorem new_eq_init (n : ℕ) : new n = init (range n) ⟨fun _ => none, fun _ => none⟩ := by
  have hnone : ∀ a : FreeNode, Links.clear a ⟨fun _ => none, fun _ => none⟩ = _ := fun a =>
    congrArg₂ Links.mk (update_eq_self a _) (update_eq_self a _)
  rw [init, hnone, hnone, length_range]
  rfl

theorem new_holds (n : ℕ) : (new n).Holds (range n) := new_eq_init n ▸ init_holds nodup_range _

/-- A block in the middle is taken out by linking its neighbours. -/
theorem Holds.unlink (h : q.Holds (l ++ b :: l')) : ∃ prevBlock nextBlock,
    q.links.prev (block b) = some prevBlock ∧ q.links.next (block b) = some nextBlock ∧
      Holds ⟨q.numFreeBlocks - 1, (q.links.link prevBlock nextBlock).clear (block b)⟩ (l ++ l') ∧
      Outside ⟨q.numFreeBlocks - 1, (q.links.link prevBlock nextBlock).clear (block b)⟩
        q.links (l ++ l') [b] := by
  have hnodup : (l ++ l').Nodup :=
    List.Nodup.sublist ((sublist_cons_self b l').append_left l) h.nodup
  have hb : b ∉ l ++ l' := by
    have := (perm_middle.nodup_iff.1 h.nodup)
    exact (nodup_cons.1 this).1
  -- the nodes before and after the block
  obtain ⟨front, p, hfront⟩ : ∃ front p, fakeFreeListHead :: l.map block = front ++ [p] :=
    ⟨_, _, (dropLast_append_getLast (cons_ne_nil _ _)).symm⟩
  obtain ⟨n, back, hback⟩ : ∃ n back, l'.map block ++ [fakeFreeListTail] = n :: back := by
    cases l' <;> exact ⟨_, _, rfl⟩
  have hnodes : nodes (l ++ l') = (front ++ [p]) ++ n :: back := by
    rw [← hfront, ← hback]
    simp [nodes]
  have hchained : q.links.Chained ((front ++ [p]) ++ block b :: n :: back) := by
    rw [← hfront, ← hback]
    have := h.chained
    simpa [nodes] using this
  have hprev : q.links.prev (block b) = some p := Links.Chained.prev_eq (by simpa using hchained)
  have hnext : q.links.next (block b) = some n := hchained.next_eq
  have hp : p ∈ fakeFreeListHead :: l.map block := by simp [hfront]
  have hn : n ∈ l'.map block ++ [fakeFreeListTail] := by simp [hback]
  refine ⟨p, n, hprev, hnext, ⟨?_, hnodup, ?_, ?_⟩, ?_, fun c hc => ?_, fun c hc => ?_⟩
  · have hnd : ((front ++ [p]) ++ n :: back).Nodup := hnodes ▸ nodup_nodes hnodup
    have hright : q.links.Chained (n :: back) := Links.Chained.right (l := [block b]) hchained.right
    rw [hnodes]
    refine (hchained.left.link hright hnd).clear ?_
    rw [← hnodes]
    simpa [nodes] using hb
  · rw [next_clear, if_neg (by simp), next_link, if_neg, h.last]
    rintro rfl
    have : fakeFreeListTail ∈ front ++ [fakeFreeListTail] := by simp
    rw [← hfront] at this
    simp at this
  · show q.numFreeBlocks - 1 = _
    rw [h.numFreeBlocks]
    simp only [length_append, length_cons]
    omega
  · rw [prev_clear, if_neg (by simp), prev_link, if_neg]
    rintro rfl
    simp at hn
  · have hne : block c ≠ n := fun h => hc (mem_append_right l (by simpa [← h] using hn))
    simp [hne]
  · have hne : block c ≠ p := fun h => hc (mem_append_left l' (by simpa [← h] using hp))
    simp [hne]

theorem remove_holds (h : q.Holds (l ++ b :: l')) :
    ∃ q', q.remove b = .ok q' ∧ q'.Holds (l ++ l') ∧ q'.Outside q.links (l ++ l') [b] := by
  obtain ⟨p, n, hp, hn, hq⟩ := h.unlink
  exact ⟨_, by rw [remove, hp, hn], hq⟩

theorem popleft_holds (h : q.Holds (b :: l)) :
    ∃ q', q.popleft = .ok (b, q') ∧ q'.Holds l ∧ q'.Outside q.links l [b] := by
  obtain ⟨p, n, hp, hn, hq⟩ := Holds.unlink (l := []) h
  have hhead : q.links.next fakeFreeListHead = some (block b) :=
    Links.Chained.next_eq (l := []) h.chained
  have hprev : q.links.prev (block b) = some fakeFreeListHead :=
    Links.Chained.prev_eq (l := []) h.chained
  obtain rfl := Option.some.inj (hp.symm.trans hprev)
  refine ⟨_, ?_, hq⟩
  rw [popleft, hhead]
  simp [hn]

variable {links : Links FreeNode}

/-- The loop takes the blocks at the front and leaves the rest of the chain as it is. -/
theorem popLoop_chained (l : List ℕ) {c : FreeNode} {rest : List FreeNode}
    (h : links.Chained (l.map block ++ c :: rest)) (hnodup : (l.map block ++ c :: rest).Nodup) :
    ∃ links', popLoop l.length (some ((l.map block ++ c :: rest).headD c)) links =
        .ok (l, some c, links') ∧ links'.Chained (c :: rest) ∧
      (∀ a, links'.prev a = if a ∈ l.map block then none else links.prev a) ∧
      ∀ a, links'.next a = if a ∈ l.map block then none else links.next a := by
  induction l generalizing links with
  | nil => exact ⟨links, rfl, h, by simp, by simp⟩
  | cons b l ih =>
    obtain ⟨hb, hnodup⟩ := nodup_cons.1 hnodup
    have hrest : links.Chained (l.map block ++ c :: rest) := Links.Chained.right (l := [block b]) h
    have hnext : links.next (block b) = some ((l.map block ++ c :: rest).headD c) := by
      cases l <;> exact Links.Chained.next_eq (l := []) h
    obtain ⟨links', hloop, hchained, hp, hn⟩ := ih (hrest.clear hb) hnodup
    refine ⟨links', ?_, hchained, fun a => ?_, fun a => ?_⟩
    · simp only [length_cons, map_cons, cons_append, headD_cons, popLoop, hnext,
        hloop, ok_bind, pure, Except.pure]
    · by_cases ha : a = block b <;> simp [hp, ha]
    · by_cases ha : a = block b <;> simp [hn, ha]

theorem popleftN_holds (h : q.Holds (l ++ l')) :
    ∃ q', q.popleftN l.length = .ok (l, q') ∧ q'.Holds l' ∧ q'.Outside q.links l' l := by
  unfold popleftN
  cases l with
  | nil => exact ⟨q, if_pos rfl, h, by simp, by simp, by simp⟩
  | cons b l =>
    have hnodup := nodup_nodes h.nodup
    obtain ⟨c, rest, hrest⟩ : ∃ c rest, l'.map block ++ [fakeFreeListTail] = c :: rest := by
      cases l' <;> exact ⟨_, _, rfl⟩
    have hnodes : nodes ((b :: l) ++ l') =
        [fakeFreeListHead] ++ ((b :: l).map block ++ c :: rest) := by
      simp [nodes, ← hrest]
    rw [hnodes] at hnodup
    have hchained := h.chained
    rw [hnodes] at hchained
    have hhead : q.links.next fakeFreeListHead = some (block b) :=
      Links.Chained.next_eq (l := []) hchained
    -- the loop takes `b :: l` and stops before the rest
    obtain ⟨links', hloop, hchained', hp, hn⟩ :=
      popLoop_chained (b :: l) hchained.right hnodup.of_append_right
    have hnd : (([] ++ [fakeFreeListHead]) ++ c :: rest).Nodup :=
      hnodup.sublist ((sublist_append_right _ _).append_left _)
    have hc : c ∈ l'.map block ++ [fakeFreeListTail] := by simp [hrest]
    refine ⟨⟨q.numFreeBlocks - (b :: l).length, links'.link fakeFreeListHead c⟩, ?_, ⟨?_, ?_, ?_, ?_⟩,
      ?_, fun a ha => ?_, fun a ha => ?_⟩
    · have hcount : ¬ q.numFreeBlocks < ((b :: l).length : ℤ) := by
        rw [h.numFreeBlocks, length_append]
        omega
      rw [if_neg (by simp; omega), if_neg hcount, hhead, Int.toNat_natCast]
      simp only [map_cons, cons_append, headD_cons] at hloop
      simp only [hloop, ok_bind, pure, Except.pure]
    · have := Links.Chained.link (Links.Chained.singleton links' fakeFreeListHead) hchained' hnd
      rwa [nodes, hrest]
    · exact h.nodup.of_append_right
    · show (links'.link fakeFreeListHead c).next fakeFreeListTail = none
      rw [next_link, if_neg (by simp), hn, if_neg (by simp), h.last]
    · show q.numFreeBlocks - _ = _
      rw [h.numFreeBlocks, length_append]
      omega
    · show (links'.link fakeFreeListHead c).prev fakeFreeListHead = _
      rw [prev_link, if_neg, hp, if_neg (by simp)]
      rintro rfl
      simp at hc
    · show (links'.link fakeFreeListHead c).prev (block a) = _
      rw [prev_link, if_neg fun h => ha (by simpa [← h] using hc), hp]
      simp
    · show (links'.link fakeFreeListHead c).next (block a) = _
      rw [next_link, if_neg (by simp), hn]
      simp

variable {blocks : List ℕ}

theorem appendN_holds (h : q.Holds l) (hnodup : (l ++ blocks).Nodup) :
    ∃ q', q.appendN blocks = .ok q' ∧ q'.Holds (l ++ blocks) ∧
      q'.Outside q.links (l ++ blocks) [] := by
  unfold appendN
  by_cases hnil : blocks = []
  · subst hnil
    exact ⟨q, if_pos rfl, by simpa using h, by simp, by simp, by simp⟩
  · obtain ⟨front, p, hfront⟩ : ∃ front p, fakeFreeListHead :: l.map block = front ++ [p] :=
      ⟨_, _, (dropLast_append_getLast (cons_ne_nil _ _)).symm⟩
    have hnodes : nodes l = (front ++ [p]) ++ [fakeFreeListTail] := by
      rw [← hfront]
      rfl
    have hnodes' : nodes (l ++ blocks) =
        front ++ p :: (blocks.map block ++ [fakeFreeListTail]) := by
      rw [← singleton_append, ← append_assoc, ← hfront]
      simp [nodes]
    have hchained := h.chained
    rw [hnodes] at hchained
    have hprev : q.links.prev fakeFreeListTail = some p :=
      Links.Chained.prev_eq (by simpa using hchained)
    refine ⟨_, by rw [if_neg hnil, hprev], ⟨?_, hnodup, ?_, ?_⟩, ?_, fun c hc => ?_, fun c hc => ?_⟩
    · rw [hnodes']
      exact hchained.left.linkAll (hnodes' ▸ nodup_nodes hnodup)
    · refine (next_linkAll ?_).trans h.last
      rw [← cons_append, dropLast_concat]
      have htail : fakeFreeListTail ∉ front ++ [p] := by
        rw [← hfront]
        simp
      simpa using fun hp => htail (by simp [hp])
    · show q.numFreeBlocks + _ = _
      rw [h.numFreeBlocks]
      simp
    · exact prev_linkAll (by simp)
    · refine (prev_linkAll ?_).trans (by simp)
      simpa using fun h => hc (mem_append_right l h)
    · have hp : p ∈ fakeFreeListHead :: l.map block := by simp [hfront]
      have hne : block c ≠ p := fun h => hc (mem_append_left blocks (by simpa [← h] using hp))
      refine (next_linkAll ?_).trans (by simp)
      rw [← cons_append, dropLast_concat]
      simpa [hne] using fun h => hc (mem_append_right l h)

variable {fuel : ℕ}

theorem walk_chained {start stop : FreeNode} (hstop : links.next stop = none)
    (h : links.Chained (start :: (l.map block ++ [stop]))) (hfuel : l.length < fuel) :
    (links.next start).bind (walk links fuel) = some (l.map block) := by
  induction l generalizing fuel start with
  | nil =>
    obtain ⟨fuel, rfl⟩ := exists_eq_add_one.2 hfuel
    rw [Links.Chained.next_eq (l := []) h, bind_some, walk, hstop, map_nil]
  | cons b l ih =>
    obtain ⟨fuel, rfl⟩ := exists_eq_add_one.2 (zero_lt_of_lt hfuel)
    have hrest := ih (Links.Chained.right (l := [start]) h) (lt_of_succ_lt_succ hfuel)
    have hnext : links.next start = some (block b) := Links.Chained.next_eq (l := []) h
    cases hb : links.next (block b) with
    | none => simp [hb] at hrest
    | some c =>
      rw [hb, bind_some] at hrest
      simp [hnext, walk, hb, hrest]

theorem getAllFreeBlocks_holds (h : q.Holds l) (hfuel : l.length < fuel) :
    q.getAllFreeBlocks fuel = some (l.map block) :=
  walk_chained h.last h.chained hfuel

/-! ### The batched calls -/

variable {q₁ q₂ : FreeKVCacheBlockQueue}

theorem Outside.trans {gone gone' : List ℕ}
    (h₁ : q₁.Outside links l gone) (h₂ : q₂.Outside q₁.links l' gone')
    (hsub : ∀ b ∈ l, b ∈ gone' ∨ b ∈ l') : q₂.Outside links l' (gone ++ gone') := by
  refine ⟨h₂.first.trans h₁.first, fun b hb => ?_, fun b hb => ?_⟩
  · rw [h₂.prev_eq b hb]
    by_cases hgone : b ∈ gone'
    · simp [hgone]
    · simp [hgone, h₁.prev_eq b fun h => (hsub b h).elim hgone hb]
  · rw [h₂.next_eq b hb]
    by_cases hgone : b ∈ gone'
    · simp [hgone]
    · simp [hgone, h₁.next_eq b fun h => (hsub b h).elim hgone hb]

/-- The blocks in the queue and the links outside of it determine the queue. -/
theorem Holds.unique {gone : List ℕ}
    (h₁ : q₁.Holds l) (h₂ : q₂.Holds l) (hout₁ : q₁.Outside links l gone)
    (hout₂ : q₂.Outside links l gone) : q₁ = q₂ := by
  obtain ⟨hprev, hnext⟩ := h₁.chained.agree h₂.chained
  rw [nodes, ← cons_append, dropLast_concat] at hnext
  have hlinks : q₁.links = q₂.links := by
    refine congrArg₂ Links.mk (funext fun a => ?_) (funext fun a => ?_)
    · cases a with
      | fakeFreeListHead => rw [hout₁.first, hout₂.first]
      | fakeFreeListTail => exact hprev _ (by simp [nodes])
      | block b =>
        by_cases hb : b ∈ l
        · exact hprev _ (by simp [nodes, hb])
        · rw [hout₁.prev_eq b hb, hout₂.prev_eq b hb]
    · cases a with
      | fakeFreeListHead => exact hnext _ (.head _)
      | fakeFreeListTail => rw [h₁.last, h₂.last]
      | block b =>
        by_cases hb : b ∈ l
        · exact hnext _ (by simp [hb])
        · rw [hout₁.next_eq b hb, hout₂.next_eq b hb]
  exact congrArg₂ FreeKVCacheBlockQueue.mk (h₁.numFreeBlocks.trans h₂.numFreeBlocks.symm) hlinks

theorem popleft_nil (h : q.Holds []) : q.popleft = .error (.valueError "No free blocks available") := by
  have hhead : q.links.next fakeFreeListHead = some fakeFreeListTail :=
    Links.Chained.next_eq (l := []) h.chained
  simp [popleft, hhead, h.numFreeBlocks]

theorem append_holds (h : q.Holds l) (hb : b ∉ l) : ∃ q', q.append b = .ok q' ∧
    q'.Holds (l ++ [b]) ∧ q'.Outside q.links (l ++ [b]) [] := by
  have hnodup : (l ++ [b]).Nodup := by simp [nodup_append', h.nodup, hb]
  obtain ⟨q', hq', hholds⟩ := appendN_holds h hnodup
  refine ⟨q', ?_, hholds⟩
  rw [← hq', append, appendN, if_neg (cons_ne_nil _ _)]
  cases hprev : q.links.prev fakeFreeListTail with
  | none => simp [appendN, hprev] at hq'
  | some p => rfl

/-- `n` calls of `popleft`. -/
def poplefts : ℕ → FreeKVCacheBlockQueue → Except PyErr (List ℕ × FreeKVCacheBlockQueue)
  | 0, q => .ok ([], q)
  | n + 1, q => do
    let (b, q) ← q.popleft
    let (ret, q) ← poplefts n q
    return (b :: ret, q)

theorem poplefts_holds (h : q.Holds (l ++ l')) :
    ∃ q', poplefts l.length q = .ok (l, q') ∧ q'.Holds l' ∧ q'.Outside q.links l' l := by
  induction l generalizing q with
  | nil => exact ⟨q, rfl, h, by simp, by simp, by simp⟩
  | cons b l ih =>
    obtain ⟨q₁, hq₁, h₁, hout₁⟩ := popleft_holds h
    obtain ⟨q₂, hq₂, h₂, hout₂⟩ := ih h₁
    refine ⟨q₂, ?_, h₂, hout₁.trans hout₂ fun c hc => mem_append.1 hc⟩
    simp [poplefts, hq₁, hq₂]

section

variable (h : q.Holds l)
include h

theorem popleftN_error {n : ℕ} (hn : l.length < n) :
    q.popleftN n = .error (.assertionError "") := by
  have hnum := h.numFreeBlocks
  rw [popleftN, if_neg (by omega), if_pos (by omega)]

theorem poplefts_error {n : ℕ} (hn : l.length < n) : ∃ e, poplefts n q = .error e := by
  obtain ⟨n, rfl⟩ := exists_eq_add_one.2 (zero_lt_of_lt hn)
  induction l generalizing q n with
  | nil =>
    rw [poplefts, popleft_nil h]
    exact ⟨_, rfl⟩
  | cons b l ih =>
    obtain ⟨q₁, hq₁, h₁, -⟩ := popleft_holds h
    rw [length_cons, Nat.add_lt_add_iff_right] at hn
    obtain ⟨n, rfl⟩ := exists_eq_add_one.2 (zero_lt_of_lt hn)
    obtain ⟨e, he⟩ := ih h₁ n hn
    refine ⟨e, ?_⟩
    rw [poplefts, hq₁]
    show (poplefts (n + 1) q₁ >>= _) = _
    rw [he]
    rfl

/-- **`popleft_n(n)` is `n` calls of `popleft`.** -/
theorem popleftN_eq_poplefts (n : ℕ) : (q.popleftN n).toOption = (poplefts n q).toOption := by
  by_cases hn : n ≤ l.length
  · rw [← take_append_drop n l] at h
    obtain ⟨q₁, hq₁, h₁, hout₁⟩ := popleftN_holds h
    obtain ⟨q₂, hq₂, h₂, hout₂⟩ := poplefts_holds h
    rw [length_take_of_le hn] at hq₁ hq₂
    rw [hq₁, hq₂, h₁.unique h₂ hout₁ hout₂]
  · obtain ⟨e, he⟩ := poplefts_error h (not_le.1 hn)
    rw [popleftN_error h (not_le.1 hn), he]
    rfl

theorem appends_holds (hnodup : (l ++ blocks).Nodup) :
    ∃ q', blocks.foldlM append q = .ok q' ∧ q'.Holds (l ++ blocks) ∧
      q'.Outside q.links (l ++ blocks) [] := by
  induction blocks generalizing q l with
  | nil => exact ⟨q, rfl, by simpa using h, rfl, by simp, by simp⟩
  | cons b blocks ih =>
    have hb : b ∉ l := fun hb => (nodup_append'.1 hnodup).2.2 hb (.head _)
    rw [append_cons] at hnodup ⊢
    obtain ⟨q₁, hq₁, h₁, hout₁⟩ := append_holds h hb
    obtain ⟨q₂, hq₂, h₂, hout₂⟩ := ih h₁ hnodup
    refine ⟨q₂, ?_, h₂, hout₁.trans hout₂ fun c hc => .inr (mem_append_left _ hc)⟩
    rw [foldlM_cons, hq₁]
    exact hq₂

/-- **`append_n` is iterated `append`.** -/
theorem appendN_eq_appends (hnodup : (l ++ blocks).Nodup) :
    q.appendN blocks = blocks.foldlM append q := by
  obtain ⟨q₁, hq₁, h₁, hout₁⟩ := appendN_holds h hnodup
  obtain ⟨q₂, hq₂, h₂, hout₂⟩ := appends_holds h hnodup
  rw [hq₁, hq₂, h₁.unique h₂ hout₁ hout₂]

end

/-! ### Runs -/

/-- A call of the queue. -/
inductive Call
  | popleft
  | popleftN (n : ℕ)
  | append (b : ℕ)
  | appendN (blocks : List ℕ)
  | remove (b : ℕ)

namespace Call

/-- The blocks that a call returns, and the queue after it. -/
def run (q : FreeKVCacheBlockQueue) : Call → Except PyErr (List ℕ × FreeKVCacheBlockQueue)
  | popleft => q.popleft.map fun r => ([r.1], r.2)
  | popleftN n => q.popleftN n
  | append b => (q.append b).map ([], ·)
  | appendN blocks => (q.appendN blocks).map ([], ·)
  | remove b => (q.remove b).map ([], ·)

/-- The same call of a list; without enough blocks it fails. -/
def runList (l : List ℕ) : Call → Option (List ℕ × List ℕ)
  | popleft => l.head?.map fun b => ([b], l.tail)
  | popleftN n => if n ≤ l.length then some (l.take n, l.drop n) else none
  | append b => some ([], l ++ [b])
  | appendN blocks => some ([], l ++ blocks)
  | remove b => some ([], l.erase b)

/-- The blocks that a call appends. -/
def enters : Call → List ℕ
  | append b => [b]
  | appendN blocks => blocks
  | _ => []

/-- A block that is removed is in the queue, blocks that are appended are distinct and not in it. -/
def Proper (l : List ℕ) : Call → Prop
  | append b => b ∉ l
  | appendN blocks => (l ++ blocks).Nodup
  | remove b => b ∈ l
  | _ => True

/-- The queue after a call. A call that raises does so before it changes anything. -/
def after (q : FreeKVCacheBlockQueue) (c : Call) : FreeKVCacheBlockQueue :=
  match c.run q with
  | .ok (_, q) => q
  | .error _ => q

/-- The list after a call. -/
def afterList (l : List ℕ) (c : Call) : List ℕ := ((c.runList l).map Prod.snd).getD l

/-- A run of proper calls from the list `l`. -/
def ProperRun : List ℕ → List Call → Prop
  | _, [] => True
  | l, c :: calls => c.Proper l ∧ ProperRun (c.afterList l) calls

/-- **One call does the same to the queue and to the list.** -/
theorem run_spec {c : Call} (h : q.Holds l) (hc : c.Proper l) :
    (c.runList l = none ∧ c.enters = [] ∧ ∃ e, c.run q = .error e) ∨
      ∃ ret l' q' gone, c.runList l = some (ret, l') ∧ c.run q = .ok (ret, q') ∧ q'.Holds l' ∧
        q'.Outside q.links l' gone ∧ (∀ b ∈ l, b ∈ gone ∨ b ∈ l') ∧ ∀ b ∈ c.enters, b ∈ l' := by
  cases c with
  | popleft =>
    cases l with
    | nil => exact .inl ⟨rfl, rfl, _, by rw [run, popleft_nil h]; rfl⟩
    | cons b l =>
      obtain ⟨q', hq', h', hout⟩ := popleft_holds h
      exact .inr ⟨_, _, q', _, rfl, by rw [run, hq']; rfl, h', hout, by simp, by simp [enters]⟩
  | popleftN n =>
    by_cases hn : n ≤ l.length
    · have hsplit := take_append_drop n l
      obtain ⟨q', hq', h', hout⟩ := popleftN_holds (hsplit.symm ▸ h)
      rw [length_take_of_le hn] at hq'
      exact .inr ⟨_, _, q', _, if_pos hn, hq', h', hout, fun b hb => mem_append.1 (hsplit.symm ▸ hb),
        by simp [enters]⟩
    · exact .inl ⟨if_neg hn, rfl, _, popleftN_error h (not_le.1 hn)⟩
  | append b =>
    obtain ⟨q', hq', h', hout⟩ := append_holds h hc
    exact .inr ⟨_, _, q', _, rfl, by rw [run, hq']; rfl, h', hout, by simp +contextual,
      by simp [enters]⟩
  | appendN blocks =>
    obtain ⟨q', hq', h', hout⟩ := appendN_holds h hc
    exact .inr ⟨_, _, q', _, rfl, by rw [run, hq']; rfl, h', hout, by simp +contextual,
      by simp +contextual [enters]⟩
  | remove b =>
    obtain ⟨front, back, rfl⟩ := append_of_mem hc
    have hb : b ∉ front := fun hb => (nodup_append'.1 h.nodup).2.2 hb (.head _)
    obtain ⟨q', hq', h', hout⟩ := remove_holds h
    exact .inr ⟨[], front ++ back, q', _, by rw [runList, erase_append_right _ hb, erase_cons_head],
      by rw [run, hq']; rfl, h', hout, fun b hb => by simp at hb ⊢; tauto, by simp [enters]⟩

end Call

/-- The queue holds the blocks `l`; the blocks of `seen` that are not in it have no links. -/
structure Tracks (q : FreeKVCacheBlockQueue) (seen l : List ℕ) : Prop extends q.Holds l where
  first : q.links.prev fakeFreeListHead = none
  removed : ∀ b ∈ seen, b ∉ l → q.links.prev (block b) = none ∧ q.links.next (block b) = none

variable {seen : List ℕ}

theorem Tracks.call {c : Call} (h : q.Tracks seen l) (hc : c.Proper l) :
    (c.after q).Tracks (seen ++ c.enters) (c.afterList l) := by
  rcases Call.run_spec h.toHolds hc with
    ⟨hlist, henters, e, he⟩ | ⟨ret, l', q', gone, hlist, hrun, h', hout, hsub, henters⟩
  · rw [Call.after, he, Call.afterList, hlist, henters, append_nil]
    exact h
  · rw [Call.after, hrun, Call.afterList, hlist]
    refine ⟨h', hout.first.trans h.first, fun b hb hbl => ?_⟩
    rw [hout.prev_eq b hbl, hout.next_eq b hbl]
    by_cases hgone : b ∈ gone
    · simp [hgone]
    · have hseen := (mem_append.1 hb).resolve_right fun h => hbl (henters b h)
      rw [if_neg hgone, if_neg hgone]
      exact h.removed b hseen fun hb => (hsub b hb).elim hgone hbl

theorem Tracks.calls {calls : List Call} (h : q.Tracks seen l) (hproper : Call.ProperRun l calls) :
    (calls.foldl Call.after q).Tracks (seen ++ calls.flatMap Call.enters)
      (calls.foldl Call.afterList l) := by
  induction calls generalizing q l seen with
  | nil => simpa using h
  | cons c calls ih =>
    rw [flatMap_cons, ← append_assoc]
    exact ih (h.call hproper.1) hproper.2

/-- The blocks that are met from the fake tail back to the node without a previous one. -/
def backward (q : FreeKVCacheBlockQueue) (fuel : ℕ) : Option (List FreeNode) :=
  (q.links.prev fakeFreeListTail).bind (walk q.links.mirror fuel)

theorem Tracks.backward_eq (h : q.Tracks seen l) (hfuel : l.length < fuel) :
    q.backward fuel = some (l.reverse.map block) := by
  have hchained := h.chained.mirror
  rw [nodes, reverse_cons, reverse_append, ← map_reverse] at hchained
  refine walk_chained ?_ hchained (by rwa [length_reverse])
  exact h.first

/-- **The queue is a list.**  In every run, the two traversals, the counter and what the calls return
are those of the list; a block that is not in the queue any more has no links. -/
theorem refines_list (links : Links FreeNode) (calls : List Call)
    (hnodup : blocks.Nodup) (hproper : Call.ProperRun blocks calls) :
    let q := calls.foldl Call.after (init blocks links)
    let l := calls.foldl Call.afterList blocks
    (∀ fuel, l.length < fuel → q.getAllFreeBlocks fuel = some (l.map block) ∧
        q.backward fuel = some (l.reverse.map block)) ∧
      q.numFreeBlocks = l.length ∧
      (∀ b ∈ blocks ++ calls.flatMap Call.enters, b ∉ l →
        q.links.prev (block b) = none ∧ q.links.next (block b) = none) ∧
      (∀ n : ℕ, (q.popleftN n).toOption = (poplefts n q).toOption) ∧
      (∀ bs, (l ++ bs).Nodup → q.appendN bs = bs.foldlM append q) ∧
      ∀ c : Call, c.Proper l → (c.run q).toOption.map Prod.fst = (c.runList l).map Prod.fst := by
  intro q l
  have hinit : (init blocks links).Tracks blocks blocks :=
    ⟨init_holds hnodup links, (prev_linkAll (by simp)).trans (by simp), fun b hb h => absurd hb h⟩
  have h : q.Tracks _ l := hinit.calls hproper
  refine ⟨fun fuel hfuel => ⟨getAllFreeBlocks_holds h.toHolds hfuel, h.backward_eq hfuel⟩,
    h.numFreeBlocks, h.removed, popleftN_eq_poplefts h.toHolds,
    fun bs => appendN_eq_appends h.toHolds, fun c hc => ?_⟩
  rcases Call.run_spec h.toHolds hc with ⟨hlist, -, e, he⟩ | ⟨_, _, _, _, hlist, hrun, -⟩
  · rw [hlist, he]
    rfl
  · rw [hlist, hrun]
    rfl

/-- A block is taken, appended again, and the one before it removed. -/
theorem refines_list_reuse :
    let calls : List Call := [.popleft, .append 3, .remove 5, .appendN [5, 8], .popleftN 2]
    let q := calls.foldl Call.after (init [3, 5] ⟨fun _ => none, fun _ => none⟩)
    q.getAllFreeBlocks 2 = some [block 8] ∧ q.backward 2 = some [block 8] :=
  (refines_list _ [.popleft, .append 3, .remove 5, .appendN [5, 8], .popleftN 2]
    (show [3, 5].Nodup by decide)
    (by simp [Call.ProperRun, Call.Proper, Call.afterList, Call.runList])).1 2 (by decide)

end FreeKVCacheBlockQueue

end LoptVllm.KVCache
