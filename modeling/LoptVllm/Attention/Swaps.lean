import LoptVllm.Attention.Reorder

/-!
# The calls of `swap_states`
-/

namespace LoptVllm.Attention

open List Worker InputBatch Function

variable {s s' : OrderedDict ℕ ℕ × List ScheduledReq} {calls : List (ℕ × ℕ)}

/-- The requests of the batch after some calls. -/
def afterSwaps (batch : List ScheduledReq) (calls : List (ℕ × ℕ)) : List ScheduledReq :=
  calls.foldl (fun batch c => swapEntries batch c.1 c.2) batch

theorem FollowsCycle.snd_eq {src dst : ℕ} (h : FollowsCycle src dst s calls s') :
    s'.2 = afterSwaps s.2 calls := by
  induction h with
  | done => rfl
  | swap hne hrest ih => exact ih

theorem FollowsCycles.snd_eq {srcs : List ℕ} (h : FollowsCycles srcs s calls s') :
    s'.2 = afterSwaps s.2 calls := by
  induction h with
  | nil => rfl
  | cons hcycle hrest ih =>
    rw [ih, hcycle.snd_eq]
    exact foldl_append.symm

variable {batch : List ScheduledReq}

theorem Reorders.fst_eq {decodeThreshold : ℕ}
    {result : List ScheduledReq × Bool} (h : Reorders decodeThreshold batch calls result) :
    result.1 = afterSwaps batch calls := by
  cases h with
  | same h => rfl
  | swapped h hrun => exact hrun.snd_eq

/-- The rows of a batch of the worker are those of the requests. -/
def RowsOf (b : InputBatch) (batch : List ScheduledReq) : Prop :=
  ∀ i, b.idAt i = batch[i]?.map (·.reqId)

theorem exists_swapStates {b : InputBatch} {i j : ℕ} (hwf : b.WellFormed) (hi : (b.idAt i).isSome)
    (hj : (b.idAt j).isSome) : ∃ b', b.swapStates i j = .ok b' := by
  obtain ⟨id, hi⟩ := Option.isSome_iff_exists.1 hi
  obtain ⟨id', hj⟩ := Option.isSome_iff_exists.1 hj
  have hi' := idAt_eq_some.1 hi
  have hj' := idAt_eq_some.1 hj
  unfold swapStates
  rw [hi', hj']
  simp only [(hwf.inverse id i).2 hi, (hwf.inverse id' j).2 hj]
  exact ⟨_, rfl⟩

/-! ### Rows that are copied over -/

section

variable {α : Type} {f g : ℕ → ℕ}

/-- The second row is copied over the first one, and the result back. -/
def copyOver (m : ℕ → α) (c : ℕ × ℕ) : ℕ → α := copyRow (copyRow m c.2 c.1) c.1 c.2

theorem copyOver_apply (m : ℕ → α) (c : ℕ × ℕ) (k : ℕ) :
    copyOver m c k = m (if k = c.1 then c.2 else k) := by
  unfold copyOver
  rw [copyRow_apply, copyRow_apply]
  split_ifs <;> simp_all

/-- An array after some calls. -/
def overwritten (m : ℕ → α) (calls : List (ℕ × ℕ)) : ℕ → α := calls.foldl copyOver m

/-- A row whose request is at its place is left alone. -/
theorem SwapsAlong.overwritten_of_fixed (h : SwapsAlong f calls g) {k : ℕ} (hk : f k = k)
    (m : ℕ → α) : overwritten m calls k = m k := by
  induction h generalizing m with
  | nil => rfl
  | @swap f g src calls hf hne _ ih =>
    have hsrc : k ≠ src := fun heq => hne (heq ▸ hk).symm
    have hdst : k ≠ f src := fun heq => hsrc (hf (hk.trans heq))
    have hk' : (f ∘ Equiv.swap src (f src)) k = k := by
      rw [comp_apply, Equiv.swap_apply_of_ne_of_ne hsrc hdst, hk]
    exact (ih hk' _).trans ((copyOver_apply _ _ _).trans (congrArg m (if_neg hsrc)))

/-- The rows go with their requests if and only if no request finds another row at its
destination. -/
theorem SwapsAlong.overwritten_iff (h : SwapsAlong f calls g) (hg : ∀ k, g k = k) (m : ℕ → α) :
    (∀ k, overwritten m calls (f k) = m k) ↔ ∀ k, m (f k) = m k := by
  induction h generalizing m with
  | nil => exact Iff.rfl
  | @swap f g src calls hf hne hrest ih =>
    -- a call changes nothing if its two rows are the same
    have hsame : m src = m (f src) → (∀ k, m (Equiv.swap src (f src) k) = m k) ∧
        overwritten m ((src, f src) :: calls) = overwritten m calls := by
      intro heq
      refine ⟨fun k => ?_, congrArg (overwritten · calls) (funext fun k => ?_)⟩
      · rw [Equiv.swap_apply_def]
        split_ifs with hs hd
        · rw [hs, heq]
        · rw [hd, heq]
        · rfl
      · rw [copyOver_apply]
        split_ifs with hs
        · exact heq.symm.trans (congrArg m hs.symm)
        · rfl
    have hstep : m src = m (f src) → ((∀ k, overwritten m ((src, f src) :: calls) (f k) = m k) ↔
        ∀ k, m (f k) = m k) := by
      intro heq
      obtain ⟨hswap, hcalls⟩ := hsame heq
      have hcomp : ∀ m' : ℕ → α, (∀ k, m' (f k) = m k) ↔
          ∀ k, m' ((f ∘ Equiv.swap src (f src)) k) = m k := by
        intro m'
        constructor
        · exact fun hall k => (hall _).trans (hswap k)
        · intro hall k
          have hk := hall (Equiv.swap src (f src) k)
          rwa [comp_apply, Equiv.swap_apply_self, hswap] at hk
      rw [hcalls, hcomp, hcomp, ih hg]
    constructor
    · intro hall
      refine (hstep ?_).1 hall
      -- the request that comes to its place stays there
      have hfix : (f ∘ Equiv.swap src (f src)) (f src) = f src := by
        rw [comp_apply, Equiv.swap_apply_right]
      have hdst : f src ≠ src := Ne.symm hne
      exact (hall src).symm.trans ((hrest.overwritten_of_fixed hfix _).trans
        ((copyOver_apply _ _ _).trans (congrArg m (if_neg hdst))))
    · exact fun hall => (hstep (hall src).symm).2 hall

end

/-- The row of the mask of allowed token ids. A pooling model has none. -/
def maskAt (b : InputBatch) (i : ℕ) : Option (List Bool) :=
  if b.isPoolingModel then none
  else b.allowedTokenIdsMaskCpuTensor.map fun mask => (range b.vocabSize).map (mask i)

theorem maskAt_swapStates {b b' : InputBatch} {i j : ℕ} (h : Swaps b b' i j) :
    maskAt b' = copyOver (maskAt b) (i, j) := by
  refine funext fun k => ?_
  rw [copyOver_apply]
  unfold maskAt
  rw [h.config.isPoolingModel, h.config.vocabSize, h.mask]
  by_cases hpooling : b.isPoolingModel
  · simp only [if_pos hpooling]
  · simp only [if_neg hpooling, Option.map_map]
    exact congrArg (Option.map · _) (funext fun mask =>
      congrArg (fun row => (range b.vocabSize).map row) (copyOver_apply mask (i, j) k))

/-- The calls succeed on the worker's batch, and exchange rows; the mask is copied over, and the flags
of pooling requests stay where they are. -/
structure SwappedTo (b b' : InputBatch) (calls : List (ℕ × ℕ)) (n : ℕ) (σ : Equiv.Perm ℕ) : Prop where
  wellFormed : b'.WellFormed
  row : ∀ k, b'.row k = b.row (σ k)
  idAt : ∀ k, b'.idAt k = b.idAt (σ k)
  embeds : ∀ k, b'.reqPromptEmbeds.lookup k = b.reqPromptEmbeds.lookup (σ k)
  fixed : ∀ k, n ≤ k → σ k = k
  mask : maskAt b' = overwritten (maskAt b) calls
  flags : b'.logitsProcessingNeedsTokenIds = b.logitsProcessingNeedsTokenIds

theorem exists_swaps : ∀ {calls : List (ℕ × ℕ)} {b : InputBatch}, b.WellFormed → RowsOf b batch →
      (∀ c ∈ calls, c.1 < batch.length ∧ c.2 < batch.length) →
      ∃ b' σ, calls.foldlM (fun b c => b.swapStates c.1 c.2) b = Except.ok b' ∧
        RowsOf b' (afterSwaps batch calls) ∧ SwappedTo b b' calls batch.length σ := by
  intro calls
  induction calls generalizing batch with
  | nil =>
    exact fun hwf hrows _ => ⟨_, Equiv.refl ℕ, rfl, hrows, hwf, fun _ => rfl, fun _ => rfl,
      fun _ => rfl, fun _ _ => rfl, rfl, rfl⟩
  | cons c calls ih =>
    intro b hwf hrows hlt
    obtain ⟨hi, hj⟩ := hlt c (.head _)
    have hsome : ∀ {k}, k < batch.length → (b.idAt k).isSome := fun hk => by
      rw [hrows, getElem?_eq_getElem hk]
      rfl
    obtain ⟨b₁, hb₁⟩ := exists_swapStates hwf (hsome hi) (hsome hj)
    obtain ⟨hswaps, -, -⟩ := swapStates_eq hwf hb₁
    have hrows₁ : RowsOf b₁ (swapEntries batch c.1 c.2) := fun k => by
      rw [hswaps.idAt, hrows, getElem?_swapEntries hi hj]
    obtain ⟨b', σ, hb', hrows', hσ⟩ := ih hswaps.wellFormed hrows₁ fun c' hc' => by
      rw [length_swapEntries]
      exact hlt c' (.tail _ hc')
    rw [length_swapEntries] at hσ
    refine ⟨b', σ.trans (Equiv.swap c.1 c.2), ?_, hrows', hσ.wellFormed, fun k => ?_, fun k => ?_,
      fun k => ?_, fun k hk => ?_, ?_, hσ.flags.trans hswaps.flags⟩
    · rw [foldlM_cons, hb₁]
      exact hb'
    · exact (hσ.row k).trans (hswaps.row _)
    · exact (hσ.idAt k).trans (hswaps.idAt _)
    · exact (hσ.embeds k).trans (hswaps.embeds _)
    · rw [Equiv.trans_apply, hσ.fixed k hk]
      exact Equiv.swap_apply_of_ne_of_ne (by omega) (by omega)
    · rw [hσ.mask, maskAt_swapStates hswaps]
      rfl

/-- The rows of `b'` are rows of `b`, each with all that belongs to its request. -/
def Permutes (b b' : InputBatch) : Prop := ∃ σ : Equiv.Perm ℕ, ∀ k,
  b'.idAt k = b.idAt (σ k) ∧ b'.row k = b.row (σ k) ∧
    b'.reqPromptEmbeds.lookup k = b.reqPromptEmbeds.lookup (σ k) ∧ maskAt b' k = maskAt b (σ k) ∧
    b'.logitsProcessingNeedsTokenIds k = b.logitsProcessingNeedsTokenIds (σ k)

/-- The requests that are not in their regions, in the order of their regions, have the same row of
the mask and the same flag as the rows that are to be filled, in the order of the batch. -/
def SameLeftovers (decodeThreshold : ℕ) (batch : List ScheduledReq) (b : InputBatch) : Prop :=
  ∀ e ∈ (srcIndices decodeThreshold batch).zip (origIndices decodeThreshold batch),
    maskAt b e.1 = maskAt b e.2 ∧
      b.logitsProcessingNeedsTokenIds e.1 = b.logitsProcessingNeedsTokenIds e.2

theorem SwappedTo.permutes_iff {b b' : InputBatch} {σ : Equiv.Perm ℕ} {f g : ℕ → ℕ}
    {final : List ScheduledReq} (h : SwappedTo b b' calls batch.length σ) (hwf : b.WellFormed)
    (hrows : RowsOf b batch) (hrows' : RowsOf b' final) (hpending : Pending f batch final)
    (hother : ∀ k, batch.length ≤ k → f k = k) (halong : SwapsAlong f calls g)
    (hg : ∀ k, g k = k) : Permutes b b' ↔ ∀ k, maskAt b (f k) = maskAt b k ∧
      b.logitsProcessingNeedsTokenIds (f k) = b.logitsProcessingNeedsTokenIds k := by
  have hid : ∀ k, b'.idAt (f k) = b.idAt k := fun k => by rw [hrows', hpending, hrows]
  have hmask := halong.overwritten_iff hg (maskAt b)
  rw [← h.mask] at hmask
  rw [forall_and, ← hmask]
  constructor
  · rintro ⟨τ, hτ⟩
    have hplace : ∀ k < batch.length, τ (f k) = k := by
      intro k hk
      have hk' : b.idAt k = some batch[k].reqId := by rw [hrows, getElem?_eq_getElem hk]; rfl
      exact hwf.row_unique ((hτ (f k)).1.symm.trans ((hid k).trans hk')) hk'
    refine ⟨fun k => ?_, fun k => ?_⟩ <;> rcases lt_or_ge k batch.length with hk | hk
    · rw [(hτ (f k)).2.2.2.1, hplace k hk]
    · rw [hother k hk, h.mask, halong.overwritten_of_fixed (hother k hk)]
    · rw [← congrFun h.flags, (hτ (f k)).2.2.2.2, hplace k hk]
    · rw [hother k hk]
  · rintro ⟨hall, hflags⟩
    refine ⟨σ, fun k => ⟨h.idAt k, h.row k, h.embeds k, ?_⟩⟩
    rcases lt_or_ge (σ k) batch.length with hk | hk
    · -- the request that is at `k` now was at `σ k`
      have hk' : b.idAt (σ k) = some batch[σ k].reqId := by rw [hrows, getElem?_eq_getElem hk]; rfl
      have hplace : f (σ k) = k :=
        h.wellFormed.row_unique ((hid _).trans hk') ((h.idAt k).trans hk')
      have hmask' := hall (σ k)
      have hflags' := hflags (σ k)
      rw [hplace] at hmask' hflags'
      exact ⟨hmask', (congrFun h.flags k).trans hflags'⟩
    · have hfixed : σ k = k := σ.injective (h.fixed _ hk)
      rw [hfixed] at hk ⊢
      have hmask' := hall k
      rw [hother k hk] at hmask'
      exact ⟨hmask', congrFun h.flags k⟩

/-- A prefill and a decode are exchanged. -/
theorem swapsOnce :
    Reorders 1 [⟨1, 1, 0⟩, ⟨2, 1, 1⟩] [(1, 0)] ([⟨2, 1, 1⟩, ⟨1, 1, 0⟩], true) := by
  generalize hbatch : [(⟨1, 1, 0⟩ : ScheduledReq), ⟨2, 1, 1⟩] = batch
  have hkeys : (srcDestMap 1 batch).items.map Prod.fst = [1, 0] := by subst hbatch; decide
  have hdst : ((srcDestMap 1 batch).lookup 1).getD 1 = 0 := by subst hbatch; decide
  have hnext : ((srcDestMap 1 batch).lookup 0).getD 0 = 1 := by subst hbatch; decide
  have hswapped : swapEntries batch 1 0 = [⟨2, 1, 1⟩, ⟨1, 1, 0⟩] := by subst hbatch; rfl
  have hdone : (((srcDestMap 1 batch).setItem 0 0).lookup 0).getD 0 = 0 := by subst hbatch; decide
  have hcycle : FollowsCycle 1 0 (srcDestMap 1 batch, batch) [(1, 0)]
      ((srcDestMap 1 batch).setItem 0 0, swapEntries batch 1 0) := by
    refine .swap (by decide) ?_
    rw [hnext]
    exact .done
  have hrun : FollowsCycles [1, 0] (srcDestMap 1 batch, batch) ([(1, 0)] ++ ([] ++ []))
      ((srcDestMap 1 batch).setItem 0 0, swapEntries batch 1 0) := by
    refine .cons (by rw [hdst]; exact hcycle) (.cons ?_ .nil)
    rw [hdone]
    exact .done
  rw [← hkeys] at hrun
  rw [← hswapped]
  exact .swapped (by subst hbatch; decide) hrun

end LoptVllm.Attention
