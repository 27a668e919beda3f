import LoptVllm.KVCache.HashSeparation

/-!
# Hashing block by block

The blocks of a request that are full when it is created are hashed in one call, and the later ones
in the call in which they become full. A call that does not start with the first block looks at the
last multimodal item only. So a block that is hashed in such a call gets other keys than in a call
that starts with the first block if another item reaches into it, or if the last item ends exactly
where the call starts.
-/

namespace LoptVllm.KVCache

open List Option MultiModalFeature RequestInput

open HashChain

variable {δ : Type} {fs : List MultiModalFeature} {last f : MultiModalFeature}
  {bs firstBlock b start stop : ℕ}

/-! ### The items of a block -/

/-- The items that a walk from the first item finds on the block `[start, stop)`: those that were
passed before the block are left behind. -/
def walked (fs : List MultiModalFeature) (start stop : ℕ) : List MultiModalFeature :=
  touched start stop (fs.dropWhile fun f => f.Passed start)

/-- A call that starts with block `firstBlock` takes the last item for one of block `b`, which
starts at `start` and ends at `stop`. -/
def MultiModalFeature.TakenFor (firstBlock b start stop : ℕ) (f : MultiModalFeature) : Prop :=
  f.offset < stop ∧ (b = firstBlock ∨ ¬ f.Passed start)

instance : DecidablePred (TakenFor firstBlock b start stop) := fun f =>
  inferInstanceAs (Decidable (f.offset < stop ∧ (b = firstBlock ∨ ¬ f.Passed start)))

/-- On block `b`, unless it lies behind all items, a walk from the first item finds the last item if
a call that starts with block `firstBlock` takes it for one of the block, and nothing else. -/
def LastSuffices (fs : List MultiModalFeature) (blockSize firstBlock b : ℕ) : Prop :=
  ∀ last ∈ fs.getLast?, b * blockSize ≤ last.stop →
    (walked fs (b * blockSize) ((b + 1) * blockSize)).map identifier =
      if last.TakenFor firstBlock b (b * blockSize) ((b + 1) * blockSize) then [last.identifier]
      else []

theorem tracked_of_pos (hlast : fs.getLast? = some last) (hpos : 0 < firstBlock) :
    tracked fs firstBlock = [last] := by
  obtain ⟨front, rfl⟩ := getLast?_eq_some_iff.1 hlast
  simp [tracked, hpos.ne']

theorem touched_single (h : start ≤ f.stop) :
    touched start stop [f] = if f.offset < stop then [f] else [] := by
  by_cases hp : f.Passed stop
  · have hlt : f.offset < stop := hp.1
    simp [touched, hp, h, hlt]
  · by_cases hlt : f.offset < stop <;> simp [touched, hp, hlt]

/-- The items of a block in a call that starts with a later block. -/
theorem visited_of_pos (hlast : fs.getLast? = some last) (hpos : 0 < firstBlock) :
    visited fs bs firstBlock b = if last.stop < b * bs then []
      else if last.TakenFor firstBlock b (b * bs) ((b + 1) * bs) then [last] else [] := by
  simp only [visited, hlast, tracked_of_pos hlast hpos]
  by_cases hearly : last.stop < b * bs
  · simp [hearly]
  · have hlate : b * bs ≤ last.stop := not_lt.1 hearly
    by_cases hb : b = firstBlock
    · simp [hb, ← touched_single (hb ▸ hlate), TakenFor]
    · by_cases hp : last.Passed (b * bs)
      · simp [hb, hp, TakenFor, touched]
      · simp [hp, touched_single hlate, TakenFor]

/-- The items of a block in a call that starts with the first block. -/
theorem visited_zero (hlast : fs.getLast? = some last) (hb : 0 < b) :
    visited fs bs 0 b = if last.stop < b * bs then [] else walked fs (b * bs) ((b + 1) * bs) := by
  simp [visited, hlast, hb.ne', tracked, walked]

/-- A later call finds the same items as one that starts with the first block. -/
theorem visited_eq_iff (hpos : 0 < firstBlock) (hb : firstBlock ≤ b) :
    (visited fs bs firstBlock b).map identifier =
        (visited fs bs 0 b).map identifier ↔ LastSuffices fs bs firstBlock b := by
  cases hlast : fs.getLast? with
  | none => simp [visited, LastSuffices, hlast]
  | some last =>
    rw [visited_of_pos hlast hpos, visited_zero hlast (hpos.trans_le hb)]
    simp only [LastSuffices, hlast, mem_some_iff, forall_eq']
    by_cases hearly : last.stop < b * bs
    · simp [hearly, not_le.2 hearly]
    · rw [if_neg hearly, if_neg hearly, forall_prop_of_true (not_lt.1 hearly),
        apply_ite (List.map identifier)]
      exact eq_comm

/-! ### Layouts without overlaps -/

/-- The items are not empty, and each starts where the one before it ends or later. -/
structure Separate (fs : List MultiModalFeature) : Prop where
  ordered : fs.Pairwise fun f g => f.stop ≤ g.offset
  nonempty : ∀ f ∈ fs, 0 < f.length

/-- The item has a token in the block `[start, stop)`. -/
def MultiModalFeature.Overlaps (start stop : ℕ) (f : MultiModalFeature) : Prop :=
  f.offset < stop ∧ start < f.stop

instance : DecidablePred (Overlaps start stop) := fun f =>
  inferInstanceAs (Decidable (f.offset < stop ∧ start < f.stop))

theorem passed_iff (h : 0 < f.length) : f.Passed stop ↔ f.stop ≤ stop := by
  simp only [Passed, MultiModalFeature.stop]
  omega

theorem Separate.tail (h : Separate (f :: fs)) : Separate fs :=
  ⟨(pairwise_cons.1 h.ordered).2, fun g hg => h.nonempty g (.tail _ hg)⟩

/-- No item behind one that reaches beyond the block starts in it. -/
theorem Separate.behind (h : Separate (f :: fs)) (hf : stop ≤ f.stop) :
    fs.filter (fun g => g.offset < stop) = [] := by
  refine filter_eq_nil_iff.2 fun g hg => ?_
  have := (pairwise_cons.1 h.ordered).1 g hg
  simp only [decide_eq_true_eq]
  omega

section

variable (h : Separate fs)
include h

theorem Separate.touched_eq (hlate : ∀ f ∈ fs, start ≤ f.stop) :
    touched start stop fs = fs.filter fun f => f.offset < stop := by
  induction fs with
  | nil => rfl
  | cons f fs ih =>
    have ih := ih h.tail fun g hg => hlate g (.tail _ hg)
    have hpassed := @passed_iff f stop (h.nonempty f (.head _))
    by_cases hp : f.Passed stop
    · have hlt : f.offset < stop := hp.1
      have hstart := hlate f (.head _)
      simp only [touched] at ih ⊢
      simp [hp, hlt, hstart, ← ih]
    · -- the walk ends at an item that reaches beyond the block
      have hbehind := h.behind (not_le.1 (hpassed.not.1 hp)).le
      by_cases hlt : f.offset < stop <;> simp [touched, hp, hlt, hbehind]

/-- The items that are passed before a position stand in front of the others. -/
theorem Separate.dropWhile_eq :
    fs.dropWhile (fun f => f.Passed start) = fs.filter fun f => start < f.stop := by
  induction fs with
  | nil => rfl
  | cons f fs ih =>
    have hpassed := @passed_iff f start (h.nonempty f (.head _))
    by_cases hp : f.Passed start
    · simp [hp, ih h.tail, not_lt.2 (hpassed.1 hp)]
    · have hlt := not_le.1 (hpassed.not.1 hp)
      have hall : ∀ g ∈ fs, start < g.stop := fun g hg => by
        have := (pairwise_cons.1 h.ordered).1 g hg
        simp only [MultiModalFeature.stop] at this hlt ⊢
        omega
      simp [hp, hlt, filter_eq_self.2 fun g hg => decide_eq_true (hall g hg)]

/-- If no items overlap, a walk finds the items that have a token in the block. -/
theorem Separate.walked_eq : walked fs start stop = fs.filter fun f => f.Overlaps start stop := by
  have hsep : Separate (fs.filter fun f => start < f.stop) :=
    ⟨h.ordered.sublist filter_sublist, fun f hf => h.nonempty f (mem_of_mem_filter hf)⟩
  rw [walked, h.dropWhile_eq,
    hsep.touched_eq fun f hf => (of_decide_eq_true (mem_filter.1 hf).2).le,
    List.filter_filter]
  exact filter_congr fun f _ => (Bool.decide_and _ _).symm

/-- If no items overlap, the last one suffices when no other item has a token in the block, and it
does not end exactly where the call starts. -/
theorem Separate.lastSuffices_iff : LastSuffices fs bs firstBlock b ↔
      (∀ f ∈ fs.dropLast, ¬ f.Overlaps (b * bs) ((b + 1) * bs)) ∧
        (b = firstBlock → ∀ last ∈ fs.getLast?, last.stop ≠ b * bs) := by
  cases hlast : fs.getLast? with
  | none => simp [LastSuffices, getLast?_eq_none_iff.1 hlast]
  | some last =>
    obtain ⟨front, rfl⟩ := getLast?_eq_some_iff.1 hlast
    have hpos := h.nonempty last (by simp)
    have hbefore : ∀ f ∈ front, f.stop ≤ last.offset := fun f hf =>
      (pairwise_append.1 h.ordered).2.2 f hf last (mem_singleton_self last)
    have hstop : last.offset < last.stop := by
      simp only [MultiModalFeature.stop]
      omega
    have hle : b * bs ≤ (b + 1) * bs := Nat.mul_le_mul_right _ (Nat.le_succ b)
    have hnil : front.filter (fun f => f.Overlaps (b * bs) ((b + 1) * bs)) = [] ↔
        ∀ f ∈ front, ¬ f.Overlaps (b * bs) ((b + 1) * bs) := by
      simp [filter_eq_nil_iff]
    simp only [LastSuffices, hlast, mem_some_iff, forall_eq', h.walked_eq,
      dropLast_concat, filter_append, ← hnil]
    by_cases hend : last.stop ≤ b * bs
    · -- no item has a token in the block
      have hempty : front.filter (fun f => f.Overlaps (b * bs) ((b + 1) * bs)) = [] := by
        refine hnil.2 fun f hf hov => ?_
        have := hbefore f hf
        have := hov.2
        omega
      have hnot : ¬ last.Overlaps (b * bs) ((b + 1) * bs) := fun hov => not_lt.2 hend hov.2
      have hnone : [last].filter (fun f => f.Overlaps (b * bs) ((b + 1) * bs)) = [] := by
        simp [hnot]
      have hlt : last.offset < (b + 1) * bs := by omega
      have hp : last.Passed (b * bs) := (passed_iff hpos).2 hend
      rw [hempty, hnone]
      by_cases hb : b = firstBlock
      · have htaken : last.TakenFor firstBlock b (b * bs) ((b + 1) * bs) := ⟨hlt, .inl hb⟩
        simp only [if_pos htaken, true_and, forall_prop_of_true hb]
        constructor
        · intro hall heq
          cases hall heq.ge
        · intro hne hge
          exact absurd (le_antisymm hend hge) hne
      · have htaken : ¬ last.TakenFor firstBlock b (b * bs) ((b + 1) * bs) := by
          rintro ⟨-, h | h⟩
          · exact hb h
          · exact h hp
        simp [htaken, hb]
    · have hp : ¬ last.Passed (b * bs) := mt (passed_iff hpos).1 hend
      have hne : last.stop ≠ b * bs := by omega
      have hle' : b * bs ≤ last.stop := by omega
      by_cases hlt : last.offset < (b + 1) * bs
      · have hov : last.Overlaps (b * bs) ((b + 1) * bs) := ⟨hlt, not_le.1 hend⟩
        simp [hov, TakenFor, hlt, hp, hne, hle']
      · have hnot : ¬ last.Overlaps (b * bs) ((b + 1) * bs) := fun hov => hlt hov.1
        simp [hnot, TakenFor, hlt, hne, hle']

end

/-! ### The hashes -/

/-- A call starts with the block in which the tokens hashed before end. -/
theorem callStart_le {chunks : List (List ℕ)} : ∀ {n : ℕ}, n / bs ≤ b →
    callStart bs n chunks b ≤ b := by
  induction chunks with
  | nil => exact fun h => h
  | cons chunk chunks ih =>
    intro n h
    rw [callStart]
    split_ifs with hlt
    · exact h
    · exact ih (not_lt.1 hlt)

theorem content_eq_iff (k : KeyFields) (tokens : List ℕ) (hb : firstBlock ≤ b) :
    k.content tokens bs firstBlock b = k.content tokens bs 0 b ↔
      (0 < firstBlock → LastSuffices k.mmFeatures bs firstBlock b) := by
  rcases Nat.eq_zero_or_pos firstBlock with rfl | hpos
  · simp
  · simp [KeyFields.content, Prod.mk.injEq, true_and, packKeys_inj, and_true, KeyFields.texts,
      visited_eq_iff hpos hb, forall_prop_of_true hpos]

variable {hasher : BlockHasher δ} {x : RequestInput} {request : Request δ}

theorem requestBlockHasher_once (k : KeyFields) (tokens : List ℕ) :
    hasher.requestBlockHasher ⟨k, tokens, []⟩ = .ok (chain hasher.hashFunction hasher.noneHash
        ((range (tokens.length / hasher.blockSize)).map
          (k.content tokens hasher.blockSize 0))) := by
  have hchain : ([] : List δ) = chain hasher.hashFunction hasher.noneHash [] := rfl
  rw [hasher.requestBlockHasher_eq ⟨k, tokens, []⟩ hchain (Nat.zero_le _), range_eq_range']
  rfl

section

variable (hinj : ∀ p, Function.Injective (hasher.hashFunction p))
include hinj

/-- The hashes are those of one call if the contents of the blocks are. -/
theorem requestBlockHasher_eq_iff (h : x.build hasher = .ok request) :
    hasher.requestBlockHasher ⟨x.toKeyFields, x.tokens, []⟩ = .ok request.blockHashes ↔
      ∀ b < x.tokens.length / hasher.blockSize, 0 < x.firstBlock hasher.blockSize b →
        LastSuffices x.mmFeatures hasher.blockSize (x.firstBlock hasher.blockSize b) b := by
  rw [requestBlockHasher_once, build_eq_chain h, Except.ok.injEq, chain_inj hinj, map_inj_left]
  refine forall_congr' fun b => ?_
  rw [mem_range]
  refine forall_congr' fun _ => ?_
  rw [eq_comm]
  exact content_eq_iff _ _ (callStart_le (by simp))

/-- **Hashing call by call and in one call.**  However the tokens of a request grow, it has a hash
for every full block. The hashes are those of one call if and only if the last item suffices for
every block that is hashed in a call that starts with a later block. If no items overlap, it does
when no other item has a token in the block, and it does not end exactly where the call starts. -/
theorem blockHashes_eq_iff (h : x.build hasher = .ok request) :
    request.blockHashes.length = x.tokens.length / hasher.blockSize ∧
      (hasher.requestBlockHasher ⟨x.toKeyFields, x.tokens, []⟩ = .ok request.blockHashes ↔
        ∀ b < x.tokens.length / hasher.blockSize, 0 < x.firstBlock hasher.blockSize b →
          LastSuffices x.mmFeatures hasher.blockSize (x.firstBlock hasher.blockSize b) b) ∧
      (Separate x.mmFeatures → ∀ firstBlock b,
        (LastSuffices x.mmFeatures hasher.blockSize firstBlock b ↔ (∀ f ∈ x.mmFeatures.dropLast,
            ¬ f.Overlaps (b * hasher.blockSize) ((b + 1) * hasher.blockSize)) ∧
          (b = firstBlock → ∀ last ∈ x.mmFeatures.getLast?, last.stop ≠ b * hasher.blockSize))) :=
  ⟨by simp [build_eq_chain h], requestBlockHasher_eq_iff hinj h,
    fun hsep _ _ => hsep.lastSuffices_iff⟩

end

/-- A prompt of token ids always becomes a request, and outputs can be appended to it. -/
theorem exists_build (hasher : BlockHasher δ) {k : KeyFields} (hk : k.promptEmbeds = none)
    (ids : List ℕ) (outputs : List (List ℕ)) :
    ∃ request, build hasher ⟨k, some ids, outputs⟩ = .ok request := by
  have hnew : Request.new hasher ⟨k, some ids, outputs⟩ = .ok ⟨k, ids,
      chain hasher.hashFunction hasher.noneHash
        ((range (ids.length / hasher.blockSize)).map (k.content ids hasher.blockSize 0))⟩ := by
    simp [Request.new, lengthFromPromptTokenIdsOrEmbeds, hk, getD_some, bind,
      Except.bind, pure, Except.pure, requestBlockHasher_once]
  have hfold := foldlM_appendOutputTokenIds hasher outputs ⟨k, ids, chain hasher.hashFunction
    hasher.noneHash ((range (ids.length / hasher.blockSize)).map
      (k.content ids hasher.blockSize 0))⟩ rfl (by simp)
  exact ⟨_, bind_ok.2 ⟨_, hnew, hfold⟩⟩

/-- A prompt of one block with an item of one token, and two output tokens. -/
theorem blockHashes_eq_iff_image :
    let x : RequestInput := ⟨⟨none, [⟨"image", 0, 1⟩], none, none⟩, some [1, 2], [[3, 4]]⟩
    ∃ request, x.build transcriptHasher = .ok request ∧
      transcriptHasher.requestBlockHasher ⟨x.toKeyFields, x.tokens, []⟩ =
        .ok request.blockHashes := by
  intro x
  obtain ⟨request, h⟩ := exists_build transcriptHasher (k := x.toKeyFields) rfl [1, 2] [[3, 4]]
  refine ⟨request, h, (blockHashes_eq_iff (fun p c d hcd => (transcriptHasher_injective hcd).2)
    h).2.1.2 ?_⟩
  have hlen : x.tokens.length / transcriptHasher.blockSize = 2 := by decide
  intro b hb hpos
  rw [hlen] at hb
  obtain rfl | rfl : b = 0 ∨ b = 1 := by omega
  · exact absurd hpos (by decide)
  · rintro last hlast hle
    obtain rfl := some.inj hlast
    exact absurd hle (by decide)

/-- The prompt is one block, which is an item; the second block is completed by output tokens and gets
the item as a key. -/
theorem not_hashed_as_once :
    let x : RequestInput := ⟨⟨none, [⟨"image", 0, 2⟩], none, none⟩, some [1, 2], [[3, 4]]⟩
    ∃ request, x.build transcriptHasher = .ok request ∧
      transcriptHasher.requestBlockHasher ⟨x.toKeyFields, x.tokens, []⟩ ≠
        .ok request.blockHashes := by
  intro x
  obtain ⟨request, h⟩ := exists_build transcriptHasher (k := x.toKeyFields) rfl [1, 2] [[3, 4]]
  refine ⟨request, h, ?_⟩
  rw [ne_eq, requestBlockHasher_eq_iff (fun p c d hcd => (transcriptHasher_injective hcd).2) h]
  intro hall
  have hkeys := hall 1 (by decide) (by decide) ⟨"image", 0, 2⟩ rfl (by decide)
  revert hkeys
  decide

end LoptVllm.KVCache
