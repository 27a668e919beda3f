import LoptVllm.Worker.Rows
import Mathlib.Data.Finset.Card

/-!
# Reordering the batch

The requests of a batch are swapped until the decodes come first, then the extends, then the
prefills.
-/

namespace LoptVllm.Attention

open List Function OrderedDict Equiv

open Worker

/-- A request of the batch: its scheduled and its computed tokens. -/
structure ScheduledReq where
  reqId : ℕ
  numScheduledTokens : ℕ
  numComputedTokens : ℕ
  deriving DecidableEq

namespace ScheduledReq

variable (decodeThreshold : ℕ) (r : ScheduledReq)

/-- `is_prefill`: there is no context. -/
def IsPrefill : Prop := r.numComputedTokens = 0

/-- `is_decode`: there is context, and few tokens are scheduled. -/
def IsDecode : Prop := r.numScheduledTokens ≤ decodeThreshold ∧ ¬ r.IsPrefill

/-- `is_extend`: there is context, and more tokens are scheduled. -/
def IsExtend : Prop := decodeThreshold < r.numScheduledTokens ∧ ¬ r.IsPrefill

instance : Decidable r.IsPrefill := inferInstanceAs (Decidable (_ = _))
instance : Decidable (r.IsDecode decodeThreshold) := inferInstanceAs (Decidable (_ ∧ _))
instance : Decidable (r.IsExtend decodeThreshold) := inferInstanceAs (Decidable (_ ∧ _))

/-- `req_regions`: 0 for a decode, 1 for an extend, 2 for a prefill. -/
def region : ℕ := if r.IsPrefill then 2 else if r.IsExtend decodeThreshold then 1 else 0

end ScheduledReq

variable (decodeThreshold : ℕ) (batch : List ScheduledReq)

/-- `num_decodes`. -/
def numDecodes : ℕ := batch.countP fun r => decide (r.IsDecode decodeThreshold)

/-- `num_extends`. -/
def numExtends : ℕ := batch.countP fun r => decide (r.IsExtend decodeThreshold)

/-- `req_regions[i]`. -/
def regionAt (i : ℕ) : ℕ := (batch[i]?.map (·.region decodeThreshold)).getD 0

/-- `target_regions[i]`: the decodes first, then the extends, then the prefills. -/
def targetRegion (i : ℕ) : ℕ := if i < numDecodes decodeThreshold batch then 0
  else if i < numDecodes decodeThreshold batch + numExtends decodeThreshold batch then 1 else 2

/-- `orig_indices`: the indices that need a swap. -/
def origIndices : List ℕ := (range batch.length).filter fun i =>
    decide (regionAt decodeThreshold batch i ≠ targetRegion decodeThreshold batch i)

/-- `src_indices`: the same indices, sorted by region; the sort is stable. -/
def srcIndices : List ℕ := (origIndices decodeThreshold batch).insertionSort fun i j =>
    regionAt decodeThreshold batch i ≤ regionAt decodeThreshold batch j

/-- The `while` loop: the request at `src` is swapped to its destination, then the request that was
there. It ends, as each swap puts one more request at its place. -/
def followCycle (src : ℕ) : ℕ → ℕ → OrderedDict ℕ ℕ × List ScheduledReq →
    OrderedDict ℕ ℕ × List ScheduledReq
  | 0, _, s => s
  | fuel + 1, dst, (srcDestMap, batch) =>
    if src = dst then (srcDestMap, batch)
    else
      let batch := swapEntries batch src dst
      -- the request at `dst` is done
      let nextDst := (srcDestMap.lookup dst).getD dst
      followCycle src fuel nextDst (srcDestMap.setItem dst dst, batch)

/-- `src_dest_map`. -/
def srcDestMap : OrderedDict ℕ ℕ :=
  ((srcIndices decodeThreshold batch).zip (origIndices decodeThreshold batch)).foldl
    (fun d e => d.setItem e.1 e.2) ∅

/-- The `for` loop over the keys of `src_dest_map`. -/
def followCycles (n : ℕ) (srcs : List ℕ) (s : OrderedDict ℕ ℕ × List ScheduledReq) :
    OrderedDict ℕ ℕ × List ScheduledReq :=
  srcs.foldl (fun s src => followCycle src n ((s.1.lookup src).getD src) s) s

/-- The `while` loop as it runs, with the calls of `swap_states` that it makes. -/
inductive FollowsCycle (src : ℕ) : ℕ → OrderedDict ℕ ℕ × List ScheduledReq → List (ℕ × ℕ) →
    OrderedDict ℕ ℕ × List ScheduledReq → Prop
  | done {s : OrderedDict ℕ ℕ × List ScheduledReq} : FollowsCycle src src s [] s
  | swap {dst : ℕ} {d : OrderedDict ℕ ℕ} {batch : List ScheduledReq} {calls : List (ℕ × ℕ)}
      {s' : OrderedDict ℕ ℕ × List ScheduledReq} (hne : src ≠ dst)
      (hrest : FollowsCycle src ((d.lookup dst).getD dst)
        (d.setItem dst dst, swapEntries batch src dst) calls s') :
      FollowsCycle src dst (d, batch) ((src, dst) :: calls) s'

/-- The `for` loop as it runs. -/
inductive FollowsCycles : List ℕ → OrderedDict ℕ ℕ × List ScheduledReq → List (ℕ × ℕ) →
    OrderedDict ℕ ℕ × List ScheduledReq → Prop
  | nil {s : OrderedDict ℕ ℕ × List ScheduledReq} : FollowsCycles [] s [] s
  | cons {src : ℕ} {srcs : List ℕ} {s s₁ s' : OrderedDict ℕ ℕ × List ScheduledReq}
      {calls calls' : List (ℕ × ℕ)}
      (hcycle : FollowsCycle src ((s.1.lookup src).getD src) s calls s₁)
      (hrest : FollowsCycles srcs s₁ calls' s') : FollowsCycles (src :: srcs) s (calls ++ calls') s'

/-- `reorder_batch_to_split_decodes_and_prefills`: the new batch, and whether it was modified. -/
def reorderBatch : List ScheduledReq × Bool :=
  if origIndices decodeThreshold batch = [] then (batch, false)
  else
    let srcDestMap := srcDestMap decodeThreshold batch
    ((followCycles batch.length (srcDestMap.items.map Prod.fst) (srcDestMap, batch)).2, true)

/-- The whole run, with the calls of `swap_states`, the new batch and what is returned. -/
inductive Reorders : List (ℕ × ℕ) → List ScheduledReq × Bool → Prop
  | same (h : origIndices decodeThreshold batch = []) : Reorders [] (batch, false)
  | swapped {calls : List (ℕ × ℕ)} {s : OrderedDict ℕ ℕ × List ScheduledReq}
      (h : origIndices decodeThreshold batch ≠ [])
      (hrun : FollowsCycles ((srcDestMap decodeThreshold batch).items.map Prod.fst)
        (srcDestMap decodeThreshold batch, batch) calls s) : Reorders calls (s.2, true)

/-! ### Cycles of swaps -/

/-- The request at `k` still has to go to `f k` to give the final batch. -/
def Pending (f : ℕ → ℕ) (batch final : List ScheduledReq) : Prop := ∀ k, final[f k]? = batch[k]?

/-- The rest of the destinations: the requests of `done` are at their places, those outside of `keys`
too, and the others go where the dictionary says. -/
structure Destinations (n : ℕ) (done keys : List ℕ) (f : ℕ → ℕ) : Prop where
  injective : Function.Injective f
  lt : ∀ k < n, f k < n
  done : ∀ k ∈ done, f k = k
  others : ∀ k ∉ keys, f k = k

variable {n src : ℕ} {done keys : List ℕ} {f : ℕ → ℕ} {d : OrderedDict ℕ ℕ}
  {batch final : List ScheduledReq}

theorem pending_swap (hi : src < batch.length) (hj : f src < batch.length)
    (h : Pending (f ∘ Equiv.swap src (f src)) (swapEntries batch src (f src)) final) :
    Pending f batch final := by
  intro k
  have hk := h (swap src (f src) k)
  rwa [comp_apply, swap_apply_self, InputBatch.getElem?_swapEntries hi hj, swap_apply_self] at hk

/-- The requests that are not at their places. -/
def unplaced (n : ℕ) (f : ℕ → ℕ) : Finset ℕ := (Finset.range n).filter fun k => f k ≠ k

/-- Each call exchanges a request with the one at its destination; `g` are the destinations after
the calls. -/
inductive SwapsAlong : (ℕ → ℕ) → List (ℕ × ℕ) → (ℕ → ℕ) → Prop
  | nil {f : ℕ → ℕ} : SwapsAlong f [] f
  | swap {f g : ℕ → ℕ} {src : ℕ} {calls : List (ℕ × ℕ)} (hf : Injective f) (hne : src ≠ f src)
      (h : SwapsAlong (f ∘ Equiv.swap src (f src)) calls g) :
      SwapsAlong f ((src, f src) :: calls) g

theorem SwapsAlong.append {g h : ℕ → ℕ} {calls calls' : List (ℕ × ℕ)} (hf : SwapsAlong f calls g)
    (hg : SwapsAlong g calls' h) : SwapsAlong f (calls ++ calls') h := by
  induction hf with
  | nil => exact hg
  | swap hf hne _ ih => exact .swap hf hne (ih hg)

/-- The calls exchange requests that are not at their places. The last one puts two there, and each
other one at least one. -/
structure Places (n : ℕ) (f g : ℕ → ℕ) (calls : List (ℕ × ℕ)) : Prop where
  along : SwapsAlong f calls g
  length : calls.length + ((unplaced n g).card - 1) ≤ (unplaced n f).card - 1
  moved : ∀ c ∈ calls, f c.1 ≠ c.1 ∧ f c.2 ≠ c.2
  fixes : ∀ k, f k = k → g k = k

theorem Places.nil : Places n f f [] := ⟨.nil, (zero_add _).le, nofun, fun _ hk => hk⟩

theorem Places.append {g h : ℕ → ℕ} {calls calls' : List (ℕ × ℕ)} (hf : Places n f g calls)
    (hg : Places n g h calls') : Places n f h (calls ++ calls') := by
  refine ⟨hf.along.append hg.along, ?_, fun c hc => ?_, fun k hk => hg.fixes k (hf.fixes k hk)⟩
  · have := hf.length
    have := hg.length
    rw [length_append]
    omega
  · rcases mem_append.1 hc with hc | hc
    · exact hf.moved c hc
    · exact (hg.moved c hc).imp (mt (hf.fixes _)) (mt (hf.fixes _))

theorem Places.swap (hf : Injective f) (hsrc : src < n) (hdst : f src < n) (hne : src ≠ f src) :
    Places n f (f ∘ Equiv.swap src (f src)) [(src, f src)] := by
  have hdst' : f (f src) ≠ f src := fun h => hne (hf h).symm
  have hfixes : ∀ k, f k = k → (f ∘ Equiv.swap src (f src)) k = k := by
    intro k hk
    have hks : k ≠ src := fun h => hne (h ▸ hk).symm
    have hkd : k ≠ f src := fun h => hdst' (h ▸ hk)
    rw [comp_apply, swap_apply_of_ne_of_ne hks hkd, hk]
  have hsub : unplaced n (f ∘ Equiv.swap src (f src)) ⊆ (unplaced n f).erase (f src) := by
    intro k hk
    obtain ⟨hkn, hk⟩ := Finset.mem_filter.1 hk
    refine Finset.mem_erase.2 ⟨fun h => hk ?_, Finset.mem_filter.2 ⟨hkn, mt (hfixes k) hk⟩⟩
    rw [h, comp_apply, Equiv.swap_apply_right]
  have hcard := Finset.card_le_card hsub
  have hmem : f src ∈ unplaced n f := Finset.mem_filter.2 ⟨Finset.mem_range.2 hdst, hdst'⟩
  have hmem' : src ∈ (unplaced n f).erase (f src) :=
    Finset.mem_erase.2 ⟨hne, Finset.mem_filter.2 ⟨Finset.mem_range.2 hsrc, Ne.symm hne⟩⟩
  have hpos := Finset.card_pos.2 ⟨_, hmem'⟩
  rw [Finset.card_erase_of_mem hmem] at hcard hpos
  refine ⟨.swap hf hne .nil, ?_, ?_, hfixes⟩
  · rw [length_singleton]
    omega
  · intro c hc
    rw [mem_singleton.1 hc]
    exact ⟨Ne.symm hne, hdst'⟩

/-- A swap puts one more request at its place. -/
theorem Destinations.swap (hf : Destinations n done keys f) (hsrc : src < n) (hne : src ≠ f src) :
    Destinations n done keys (f ∘ Equiv.swap src (f src)) := by
  have hfix := (Places.swap hf.injective hsrc (hf.lt src hsrc) hne).fixes
  refine ⟨hf.injective.comp (Equiv.injective _), fun k hk => hf.lt _ ?_,
    fun k hk => hfix k (hf.done k hk), fun k hk => hfix k (hf.others k hk)⟩
  rw [swap_apply_def]
  split_ifs
  · exact hf.lt src hsrc
  · exact hsrc
  · exact hk

/-- A cycle of swaps puts the request at `src` at its place. -/
theorem followCycle_spec (hsrc : src < n) {fuel : ℕ} :
    ∀ {f : ℕ → ℕ} {d : OrderedDict ℕ ℕ} {batch : List ScheduledReq} {S : Finset ℕ},
      Destinations n done keys f → batch.length = n → (∀ k ∉ S, f k = k) → S.card ≤ fuel →
      (∀ k ∉ done, k ≠ src → (d.lookup k).getD k = f k) →
      ∃ g, Destinations n (done ++ [src]) keys g ∧ (∀ k ∉ done ++ [src],
          ((followCycle src fuel (f src) (d, batch)).1.lookup k).getD k = g k) ∧
        (followCycle src fuel (f src) (d, batch)).2.length = n ∧
        (∃ calls, FollowsCycle src (f src) (d, batch) calls (followCycle src fuel (f src) (d, batch)) ∧
          Places n f g calls) ∧
        ∀ final, Pending g (followCycle src fuel (f src) (d, batch)).2 final → Pending f batch final := by
  -- the cycle is closed when the request at `src` stays
  have hend : ∀ {f : ℕ → ℕ} {d : OrderedDict ℕ ℕ}, Destinations n done keys f → f src = src →
      (∀ k ∉ done, k ≠ src → (d.lookup k).getD k = f k) →
      Destinations n (done ++ [src]) keys f ∧ ∀ k ∉ done ++ [src], (d.lookup k).getD k = f k := by
    intro f d hf heq hd
    refine ⟨⟨hf.injective, hf.lt, fun k hk => ?_, hf.others⟩, fun k hk => ?_⟩
    · rcases mem_append.1 hk with hk | hk
      · exact hf.done k hk
      · rw [mem_singleton.1 hk, heq]
    · rw [mem_append, mem_singleton, not_or] at hk
      exact hd k hk.1 hk.2
  induction fuel with
  | zero =>
    intro f d batch S hf hlength hS hcard hd
    have heq : f src = src := hS src (by
      rw [Finset.card_eq_zero.1 (Nat.le_zero.1 hcard)]
      exact Finset.notMem_empty src)
    obtain ⟨hg, hd⟩ := hend hf heq hd
    exact ⟨f, hg, hd, hlength, ⟨[], heq.symm ▸ .done, .nil⟩, fun final h => h⟩
  | succ fuel ih =>
    intro f d batch S hf hlength hS hcard hd
    unfold followCycle
    split_ifs with heq
    · obtain ⟨hg, hd⟩ := hend hf heq.symm hd
      exact ⟨f, hg, hd, hlength, ⟨[], heq ▸ .done, .nil⟩, fun final h => h⟩
    · have hdst : f (f src) ≠ f src := fun h => heq (hf.injective h).symm
      have hmem : f src ∈ S := by
        by_contra h
        exact hdst (hS _ h)
      have hdone : f src ∉ done := fun h => hdst (hf.done _ h)
      have hnext : (d.lookup (f src)).getD (f src) = (f ∘ swap src (f src)) src := by
        rw [hd _ hdone (Ne.symm heq), comp_apply, swap_apply_left]
      have hS' : ∀ k ∉ S.erase (f src), (f ∘ swap src (f src)) k = k := by
        intro k hk
        rw [comp_apply]
        by_cases hkd : k = f src
        · rw [hkd, swap_apply_right]
        · have hkS : k ∉ S := fun h => hk (Finset.mem_erase.2 ⟨hkd, h⟩)
          have hks : k ≠ src := fun h => heq (h ▸ hS k hkS).symm
          rw [swap_apply_of_ne_of_ne hks hkd, hS k hkS]
      have hd' : ∀ k ∉ done, k ≠ src →
          ((d.setItem (f src) (f src)).lookup k).getD k = (f ∘ swap src (f src)) k := by
        intro k hk hks
        rw [lookup_setItem, comp_apply]
        split_ifs with hkd
        · rw [hkd, swap_apply_right]
          rfl
        · rw [swap_apply_of_ne_of_ne hks hkd, hd k hk hks]
      obtain ⟨g, hg, hg', hlength', ⟨calls, hcalls, hplaces⟩, hpending⟩ := ih (hf.swap hsrc heq)
        ((InputBatch.length_swapEntries batch src (f src)).trans hlength) hS'
        (by rw [Finset.card_erase_of_mem hmem]; omega) hd'
      simp only [hnext]
      exact ⟨g, hg, hg', hlength', ⟨_, .swap heq (hnext ▸ hcalls),
        (Places.swap hf.injective hsrc (hf.lt src hsrc) heq).append hplaces⟩, fun final h =>
        pending_swap (hlength.symm ▸ hsrc) (hlength.symm ▸ hf.lt src hsrc) (hpending final h)⟩

/-- The swaps put all requests at their places. -/
theorem followCycles_spec (keys : List ℕ) {srcs : List ℕ} (hlt : ∀ k ∈ srcs, k < n) :
    ∀ (done : List ℕ) {f : ℕ → ℕ} {d : OrderedDict ℕ ℕ} {batch : List ScheduledReq},
      (done ++ srcs).Nodup → Destinations n done keys f → (∀ k ∈ keys, k ∈ done ++ srcs) →
      keys.length ≤ n → batch.length = n → (∀ k ∉ done, (d.lookup k).getD k = f k) →
      Pending f batch (followCycles n srcs (d, batch)).2 ∧
        ∃ calls g, FollowsCycles srcs (d, batch) calls (followCycles n srcs (d, batch)) ∧
          Places n f g calls ∧ ∀ k, g k = k := by
  induction srcs with
  | nil =>
    intro done f d batch _ hf hkeys _ _ _
    have hid : ∀ k, f k = k := by
      intro k
      by_cases hmem : k ∈ keys
      · exact hf.done k (by simpa using hkeys k hmem)
      · exact hf.others k hmem
    refine ⟨fun k => ?_, [], f, .nil, .nil, hid⟩
    rw [hid]
    rfl
  | cons src srcs ih =>
    intro done f d batch hnodup hf hkeys hlength hbatch hd
    have hnew : src ∉ done := fun h =>
      (disjoint_of_nodup_append hnodup) h (.head _)
    have hcard : keys.toFinset.card ≤ n := (toFinset_card_le keys).trans hlength
    obtain ⟨g, hg, hg', hbatch', ⟨calls, hcalls, hplaces⟩, hpending⟩ :=
      followCycle_spec (hlt src (.head _))
      hf hbatch (fun k hk => hf.others k fun h => hk (mem_toFinset.2 h))
      hcard (fun k hk _ => hd k hk)
    have hfirst : followCycles n (src :: srcs) (d, batch) =
        followCycles n srcs (followCycle src n (f src) (d, batch)) := by
      rw [← hd src hnew]
      rfl
    obtain ⟨hrest, calls', g', hcalls', hplaces', hid⟩ := ih
      (fun k hk => hlt k (.tail _ hk)) (done ++ [src]) (by rwa [append_assoc]) hg
      (fun k hk => by rw [append_assoc]; exact hkeys k hk) hlength hbatch' hg'
    have hcycle : FollowsCycle src ((d.lookup src).getD src) (d, batch) calls
        (followCycle src n (f src) (d, batch)) := by
      rw [hd src hnew]
      exact hcalls
    rw [hfirst]
    exact ⟨hpending _ hrest, _, g', .cons hcycle hcalls', hplaces.append hplaces', hid⟩

theorem swapEntries_perm (l : List ScheduledReq) (i j : ℕ) : (swapEntries l i j).Perm l := by
  unfold swapEntries
  split
  · next a b ha hb =>
    obtain ⟨hi, rfl⟩ := List.getElem?_eq_some_iff.1 ha
    obtain ⟨hj, rfl⟩ := List.getElem?_eq_some_iff.1 hb
    exact set_set_perm hi hj
  · exact List.Perm.refl l

theorem followCycle_perm (src : ℕ) (fuel : ℕ) : ∀ (dst : ℕ) (s : OrderedDict ℕ ℕ × List ScheduledReq),
    (followCycle src fuel dst s).2.Perm s.2 := by
  induction fuel with
  | zero => exact fun dst s => List.Perm.refl _
  | succ fuel ih =>
    intro dst s
    unfold followCycle
    split_ifs
    · exact List.Perm.refl _
    · exact (ih _ _).trans (swapEntries_perm s.2 src dst)

/-- The requests stay the same. -/
theorem reorderBatch_perm (decodeThreshold : ℕ) (batch : List ScheduledReq) :
    (reorderBatch decodeThreshold batch).1.Perm batch := by
  have hcycles : ∀ (n : ℕ) (srcs : List ℕ) (s : OrderedDict ℕ ℕ × List ScheduledReq),
      (followCycles n srcs s).2.Perm s.2 := by
    intro n srcs
    induction srcs with
    | nil => exact fun s => List.Perm.refl _
    | cons src srcs ih => exact fun s => (ih _).trans (followCycle_perm src n _ s)
  unfold reorderBatch
  split_ifs
  · exact List.Perm.refl _
  · exact hcycles _ _ _

/-! ### Where the requests go -/

section

variable (decodeThreshold : ℕ) (batch : List ScheduledReq)

theorem mem_origIndices {i : ℕ} : i ∈ origIndices decodeThreshold batch ↔ i < batch.length ∧
    regionAt decodeThreshold batch i ≠ targetRegion decodeThreshold batch i := by
  unfold origIndices
  rw [mem_filter, mem_range, decide_eq_true_eq]

theorem srcIndices_perm :
    (srcIndices decodeThreshold batch).Perm (origIndices decodeThreshold batch) :=
  perm_insertionSort _ _

theorem nodup_origIndices : (origIndices decodeThreshold batch).Nodup := nodup_range.filter _

theorem nodup_srcIndices : (srcIndices decodeThreshold batch).Nodup :=
  (srcIndices_perm decodeThreshold batch).nodup_iff.2 (nodup_origIndices decodeThreshold batch)

variable {r : ScheduledReq}

theorem region_eq_zero : r.region decodeThreshold = 0 ↔ r.IsDecode decodeThreshold := by
  unfold ScheduledReq.region
  by_cases hprefill : r.IsPrefill
  · rw [if_pos hprefill]
    exact iff_of_false (by decide) fun h => h.2 hprefill
  · rw [if_neg hprefill]
    by_cases hextend : r.IsExtend decodeThreshold
    · rw [if_pos hextend]
      exact iff_of_false (by decide) fun h => not_le.2 hextend.1 h.1
    · rw [if_neg hextend]
      exact iff_of_true rfl ⟨not_lt.1 fun h => hextend ⟨h, hprefill⟩, hprefill⟩

theorem region_eq_one : r.region decodeThreshold = 1 ↔ r.IsExtend decodeThreshold := by
  unfold ScheduledReq.region
  split_ifs with hprefill hextend
  · exact iff_of_false (by decide) fun h => h.2 hprefill
  · exact iff_of_true rfl hextend
  · exact iff_of_false (by decide) hextend

theorem region_eq_two: r.region decodeThreshold = 2 ↔ r.IsPrefill := by
  unfold ScheduledReq.region
  split_ifs with hprefill hextend
  · exact iff_of_true rfl hprefill
  · exact iff_of_false (by decide) hprefill
  · exact iff_of_false (by decide) hprefill

theorem regionAt_of_getElem? {i : ℕ} (h : batch[i]? = some r) :
    regionAt decodeThreshold batch i = r.region decodeThreshold := by
  unfold regionAt
  rw [h]
  rfl

/-- The number of prefills. -/
def numPrefills : ℕ := batch.countP fun r => decide r.IsPrefill

theorem length_batch : batch.length = numDecodes decodeThreshold batch +
    numExtends decodeThreshold batch + numPrefills batch := by
  unfold numDecodes numExtends numPrefills
  induction batch with
  | nil => rfl
  | cons r batch ih =>
    rw [length_cons, countP_cons, countP_cons, countP_cons, ih]
    by_cases hprefill : r.IsPrefill
    · have hdecode : ¬ r.IsDecode decodeThreshold := fun h => h.2 hprefill
      have hextend : ¬ r.IsExtend decodeThreshold := fun h => h.2 hprefill
      rw [decide_eq_false hdecode, decide_eq_false hextend, decide_eq_true hprefill]
      simp [add_assoc]
    · by_cases hlt : decodeThreshold < r.numScheduledTokens
      · have hdecode : ¬ r.IsDecode decodeThreshold := fun h => not_le.2 hlt h.1
        have hextend : r.IsExtend decodeThreshold := ⟨hlt, hprefill⟩
        rw [decide_eq_false hdecode, decide_eq_true hextend, decide_eq_false hprefill, if_pos rfl]
        simp only [Bool.false_eq_true, if_false]
        omega
      · have hdecode : r.IsDecode decodeThreshold := ⟨not_lt.1 hlt, hprefill⟩
        have hextend : ¬ r.IsExtend decodeThreshold := fun h => hlt h.1
        rw [decide_eq_true hdecode, decide_eq_false hextend, decide_eq_false hprefill, if_pos rfl]
        simp only [Bool.false_eq_true, if_false]
        omega

theorem map_targetRegion : (range batch.length).map (targetRegion decodeThreshold batch) =
    replicate (numDecodes decodeThreshold batch) 0 ++
      (replicate (numExtends decodeThreshold batch) 1 ++ replicate (numPrefills batch) 2) := by
  rw [length_batch decodeThreshold, add_assoc, range_add, range_add]
  simp only [map_append, map_map]
  refine congrArg₂ _ ?_ (congrArg₂ _ ?_ ?_)
  all_goals
    refine eq_replicate_iff.2 ⟨by simp, fun c hc => ?_⟩
    obtain ⟨i, hi, rfl⟩ := mem_map.1 hc
    rw [mem_range] at hi
    simp only [comp_apply, targetRegion]
    split_ifs <;> omega

theorem map_regionAt : (range batch.length).map (regionAt decodeThreshold batch) =
    batch.map (·.region decodeThreshold) := by
  refine ext_getElem (by simp) fun i hi _ => ?_
  rw [length_map, length_range] at hi
  simp [regionAt, getElem?_eq_getElem hi]

/-- There are as many requests of a region as places for them. -/
theorem map_regionAt_perm : ((range batch.length).map (regionAt decodeThreshold batch)).Perm
    ((range batch.length).map (targetRegion decodeThreshold batch)) := by
  rw [map_regionAt, map_targetRegion]
  refine perm_iff_count.2 fun c => ?_
  have hcount : ∀ (p : ScheduledReq → Prop) [DecidablePred p],
      (∀ r, r.region decodeThreshold = c ↔ p r) →
      List.count c (batch.map (·.region decodeThreshold)) = batch.countP fun r => decide (p r) := by
    intro p _ hp
    rw [count_eq_countP, countP_map]
    refine countP_congr fun r _ => ?_
    simpa using hp r
  rw [count_append, count_append, count_replicate, count_replicate, count_replicate]
  rcases c with _ | _ | _ | c
  · simpa [numDecodes] using hcount _ fun r => region_eq_zero decodeThreshold
  · simpa [numExtends] using hcount _ fun r => region_eq_one decodeThreshold
  · simpa [numPrefills] using hcount _ fun r => region_eq_two decodeThreshold
  · have hnone : ∀ r : ScheduledReq, r.region decodeThreshold = c + 3 ↔ False := fun r => by
      unfold ScheduledReq.region
      split_ifs <;> simp
    rw [hcount (fun _ => False) hnone]
    simp

/-- The regions of the sources are those of their destinations. -/
theorem map_srcIndices : (srcIndices decodeThreshold batch).map (regionAt decodeThreshold batch) =
      (origIndices decodeThreshold batch).map (targetRegion decodeThreshold batch) := by
  have hperm : ((origIndices decodeThreshold batch).map (regionAt decodeThreshold batch)).Perm
      ((origIndices decodeThreshold batch).map (targetRegion decodeThreshold batch)) := by
    -- the other indices have the right region already
    have hall := map_regionAt_perm decodeThreshold batch
    have hsplit := filter_append_perm (fun i =>
      decide (regionAt decodeThreshold batch i ≠ targetRegion decodeThreshold batch i))
      (range batch.length)
    have hsame : ((range batch.length).filter fun i => !decide
        (regionAt decodeThreshold batch i ≠ targetRegion decodeThreshold batch i)).map
          (regionAt decodeThreshold batch) =
        ((range batch.length).filter fun i => !decide
          (regionAt decodeThreshold batch i ≠ targetRegion decodeThreshold batch i)).map
          (targetRegion decodeThreshold batch) := by
      simp
    have h := ((hsplit.map (regionAt decodeThreshold batch)).trans hall).trans
      (hsplit.map (targetRegion decodeThreshold batch)).symm
    rw [map_append, map_append, hsame] at h
    exact (perm_append_right_iff _).1 h
  refine (((srcIndices_perm decodeThreshold batch).map _).trans hperm).eq_of_pairwise
    (fun a b _ _ hab hba => le_antisymm hab hba) ?_ ?_
  · exact pairwise_map.2 (pairwise_insertionSort _ _)
  · refine pairwise_map.2 (List.Pairwise.filter _ (pairwise_lt_range.imp fun hlt => ?_))
    unfold targetRegion
    split_ifs <;> omega

theorem zip_srcIndices_fst : ((srcIndices decodeThreshold batch).zip
    (origIndices decodeThreshold batch)).map Prod.fst = srcIndices decodeThreshold batch :=
  map_fst_zip (srcIndices_perm decodeThreshold batch).length_eq.le

theorem srcDestMap_items :
    (srcDestMap decodeThreshold batch).items.map Prod.fst = srcIndices decodeThreshold batch := by
  have hnodup := nodup_srcIndices decodeThreshold batch
  rw [← zip_srcIndices_fst] at hnodup
  obtain ⟨hkeys, -, -, -⟩ := foldl_setItem hnodup fun k _ => AList.notMem_empty k
  have hkeys' : (srcDestMap decodeThreshold batch).keys =
      (srcIndices decodeThreshold batch).reverse := by
    rw [zip_srcIndices_fst] at hkeys
    exact hkeys.trans (append_nil _)
  have hitems : (srcDestMap decodeThreshold batch).items.map Prod.fst =
      (srcDestMap decodeThreshold batch).keys.reverse := by
    unfold items AList.keys List.keys
    rw [map_reverse, map_map]
    rfl
  rw [hitems, hkeys', reverse_reverse]

/-- A map of some indices to the same indices, in another order. -/
theorem injective_of_zip {srcs dsts : List ℕ} (hperm : srcs.Perm dsts) (hnodup : dsts.Nodup)
    (hf : ∀ e ∈ srcs.zip dsts, f e.1 = e.2) (hother : ∀ k ∉ dsts, f k = k) :
    Function.Injective f := by
  have hkey : ∀ k ∈ dsts, ∃ i, ∃ hi : i < dsts.length, srcs[i]? = some k ∧ f k = dsts[i] := by
    intro k hk
    obtain ⟨i, hi, rfl⟩ := mem_iff_getElem.1 (hperm.mem_iff.2 hk)
    have hi' : i < dsts.length := hperm.length_eq ▸ hi
    refine ⟨i, hi', getElem?_eq_getElem hi, hf (srcs[i], dsts[i]) ?_⟩
    refine mem_iff_getElem.2 ⟨i, ?_, getElem_zip⟩
    rw [length_zip]
    omega
  have hmem : ∀ k ∈ dsts, f k ∈ dsts := fun k hk => by
    obtain ⟨i, hi, -, heq⟩ := hkey k hk
    rw [heq]
    exact getElem_mem hi
  intro k l heq
  by_cases hk : k ∈ dsts
  · by_cases hl : l ∈ dsts
    · obtain ⟨i, hi, hki, hfk⟩ := hkey k hk
      obtain ⟨j, hj, hlj, hfl⟩ := hkey l hl
      have hij : i = j := hnodup.getElem_inj_iff.1 (hfk.symm.trans (heq.trans hfl))
      rw [hij, hlj, Option.some.injEq] at hki
      exact hki.symm
    · rw [hother l hl] at heq
      exact absurd (heq ▸ hmem k hk) hl
  · by_cases hl : l ∈ dsts
    · rw [hother k hk] at heq
      exact absurd (heq ▸ hmem l hl) hk
    · rwa [hother k hk, hother l hl] at heq

/-- Where `src_dest_map` sends the requests. -/
theorem lookup_srcDestMap :
    (∀ e ∈ (srcIndices decodeThreshold batch).zip (origIndices decodeThreshold batch),
      ((srcDestMap decodeThreshold batch).lookup e.1).getD e.1 = e.2) ∧
    ∀ k ∉ origIndices decodeThreshold batch,
      ((srcDestMap decodeThreshold batch).lookup k).getD k = k := by
  have hnodup := nodup_srcIndices decodeThreshold batch
  rw [← zip_srcIndices_fst] at hnodup
  obtain ⟨-, -, hlookup, hnone⟩ := foldl_setItem hnodup fun k _ =>
    AList.notMem_empty k
  refine ⟨fun e he => congrArg (Option.getD · e.1) (hlookup e he), fun k hk => ?_⟩
  rw [zip_srcIndices_fst] at hnone
  have hk' := hnone k fun h => hk ((srcIndices_perm decodeThreshold batch).mem_iff.1 h)
  exact congrArg (Option.getD · k) hk'

/-- Each request goes to the destination that was computed for it. -/
theorem reorderBatch_pending : ∃ f : ℕ → ℕ, Pending f batch (reorderBatch decodeThreshold batch).1 ∧
    (∀ e ∈ (srcIndices decodeThreshold batch).zip (origIndices decodeThreshold batch), f e.1 = e.2) ∧
    (∀ k ∉ origIndices decodeThreshold batch, f k = k) ∧
    ∃ calls g, Reorders decodeThreshold batch calls (reorderBatch decodeThreshold batch) ∧
      Places batch.length f g calls ∧ ∀ k, g k = k := by
  have hperm := srcIndices_perm decodeThreshold batch
  unfold reorderBatch
  split_ifs with hempty
  · refine ⟨id, fun k => rfl, fun e he => ?_, fun k _ => rfl, [], id, .same hempty, .nil, fun k => rfl⟩
    rw [hempty, zip_nil_right] at he
    cases he
  · obtain ⟨hzip, hother⟩ := lookup_srcDestMap decodeThreshold batch
    have hlt : ∀ k ∈ origIndices decodeThreshold batch,
        ((srcDestMap decodeThreshold batch).lookup k).getD k < batch.length := by
      intro k hk
      have hk' := hperm.mem_iff.2 hk
      rw [← zip_srcIndices_fst] at hk'
      obtain ⟨e, he, rfl⟩ := mem_map.1 hk'
      rw [hzip e he]
      exact ((mem_origIndices decodeThreshold batch).1 (of_mem_zip he).2).1
    have hlt' : ∀ k < batch.length,
      ((srcDestMap decodeThreshold batch).lookup k).getD k < batch.length := by
      intro k hk
      by_cases hmem : k ∈ origIndices decodeThreshold batch
      · exact hlt k hmem
      · rwa [hother k hmem]
    obtain ⟨hpending, calls, g, hcalls, hplaces, hid⟩ := followCycles_spec
      (origIndices decodeThreshold batch)
      (fun k hk => ((mem_origIndices decodeThreshold batch).1 (hperm.mem_iff.1 hk)).1)
      [] (nodup_srcIndices decodeThreshold batch)
      ⟨injective_of_zip hperm (nodup_origIndices decodeThreshold batch) hzip hother, hlt', nofun, hother⟩
      (fun k hk => hperm.mem_iff.2 hk) ((length_filter_le _ _).trans length_range.le) rfl
      fun k _ => rfl
    rw [← srcDestMap_items] at hpending hcalls
    exact ⟨_, hpending, hzip, hother, calls, g, .swapped hempty hcalls, hplaces, hid⟩

/-! ### The reordered batch -/

/-- The requests of each region are at the places for them. -/
theorem reorderBatch_region {i : ℕ} (h : (reorderBatch decodeThreshold batch).1[i]? = some r) :
    r.region decodeThreshold = targetRegion decodeThreshold batch i := by
  obtain ⟨f, hpending, hzip, hother, -⟩ := reorderBatch_pending decodeThreshold batch
  by_cases hi : i ∈ origIndices decodeThreshold batch
  · obtain ⟨j, hj, rfl⟩ := mem_iff_getElem.1 hi
    have hj' : j < (srcIndices decodeThreshold batch).length := by
      rwa [(srcIndices_perm decodeThreshold batch).length_eq]
    have hmem : ((srcIndices decodeThreshold batch)[j], (origIndices decodeThreshold batch)[j]) ∈
        (srcIndices decodeThreshold batch).zip (origIndices decodeThreshold batch) := by
      refine mem_iff_getElem.2 ⟨j, ?_, getElem_zip⟩
      rw [length_zip]
      omega
    have hregion : regionAt decodeThreshold batch (srcIndices decodeThreshold batch)[j] =
        targetRegion decodeThreshold batch (origIndices decodeThreshold batch)[j] := by
      have heq := congrArg (·[j]?) (map_srcIndices decodeThreshold batch)
      simpa [getElem?_eq_getElem hj, getElem?_eq_getElem hj'] using heq
    have hsrc := hpending (srcIndices decodeThreshold batch)[j]
    rw [hzip _ hmem, h] at hsrc
    rw [← hregion, regionAt_of_getElem? decodeThreshold batch hsrc.symm]
  · have hsrc := hpending i
    rw [hother i hi, h] at hsrc
    have hlt := (List.getElem?_eq_some_iff.1 hsrc.symm).1
    rw [← regionAt_of_getElem? decodeThreshold batch hsrc.symm]
    by_contra hne
    exact hi ((mem_origIndices decodeThreshold batch).2 ⟨hlt, hne⟩)

/-- The first request without context after the reordering. It is the one that is at the first place
for these requests already, or else the first one of the batch. -/
def firstPrefill : Option ScheduledReq :=
  match batch[numDecodes decodeThreshold batch + numExtends decodeThreshold batch]? with
  | none => none
  | some r => if r.IsPrefill then some r else batch.find? fun r => decide r.IsPrefill

theorem find?_zip {xs ys : List ℕ} {key key' : ℕ → ℕ} (h : xs.map key = ys.map key') {c y : ℕ}
    (hy : ys.find? (fun i => decide (key' i = c)) = some y) :
    ∃ x, xs.find? (fun i => decide (key i = c)) = some x ∧ (x, y) ∈ xs.zip ys := by
  induction xs generalizing ys with
  | nil =>
    rw [map_nil, eq_comm, map_eq_nil_iff] at h
    rw [h] at hy
    cases hy
  | cons x xs ih =>
    cases ys with
    | nil => cases hy
    | cons y' ys =>
      rw [map_cons, map_cons, List.cons.injEq] at h
      rw [find?_cons] at hy ⊢
      rw [h.1]
      split at hy
      · next hc =>
        obtain rfl := Option.some.inj hy
        exact ⟨x, rfl, .head _⟩
      · next hc =>
        obtain ⟨x', hx', hmem⟩ := ih h.2 hy
        exact ⟨x', hx', .tail _ hmem⟩

/-- The sort is stable. -/
theorem find?_srcIndices (c : ℕ) :
    (srcIndices decodeThreshold batch).find? (fun i => decide (regionAt decodeThreshold batch i = c)) =
      (origIndices decodeThreshold batch).find? fun i =>
        decide (regionAt decodeThreshold batch i = c) := by
  rw [← head?_filter, ← head?_filter]
  refine congrArg List.head? (Sublist.eq_of_length ?_ ?_).symm
  · have hsub : ((origIndices decodeThreshold batch).filter
        (fun i => decide (regionAt decodeThreshold batch i = c))).Sublist
        (srcIndices decodeThreshold batch) := by
      refine sublist_insertionSort ?_ filter_sublist
      refine pairwise_of_forall_mem_list fun i hi j hj => ?_
      have hi' := (mem_filter.1 hi).2
      have hj' := (mem_filter.1 hj).2
      rw [decide_eq_true_eq] at hi' hj'
      omega
    have := hsub.filter fun i => decide (regionAt decodeThreshold batch i = c)
    rwa [filter_filter, filter_congr fun i _ => Bool.and_self _] at this
  · exact ((srcIndices_perm decodeThreshold batch).filter _).length_eq.symm

theorem reorderBatch_firstPrefill : (reorderBatch decodeThreshold batch).1[
    numDecodes decodeThreshold batch + numExtends decodeThreshold batch]? =
      firstPrefill decodeThreshold batch := by
  obtain ⟨f, hpending, hzip, hother, -⟩ := reorderBatch_pending decodeThreshold batch
  have hlength := (reorderBatch_perm decodeThreshold batch).length_eq
  -- the places of the prefills are behind the decodes and the extends
  have htarget : ∀ i, targetRegion decodeThreshold batch i = 2 ↔
      numDecodes decodeThreshold batch + numExtends decodeThreshold batch ≤ i := by
    intro i
    unfold targetRegion
    by_cases hd : i < numDecodes decodeThreshold batch
    · rw [if_pos hd]
      omega
    · rw [if_neg hd]
      split_ifs <;> omega
  unfold firstPrefill
  generalize hp : numDecodes decodeThreshold batch + numExtends decodeThreshold batch = p at htarget ⊢
  cases hr : batch[p]? with
  | none =>
    rw [List.getElem?_eq_none_iff] at hr ⊢
    omega
  | some r =>
    have hlt : p < batch.length := (List.getElem?_eq_some_iff.1 hr).1
    have hregion := regionAt_of_getElem? decodeThreshold batch hr
    simp only
    split_ifs with hprefill
    · have hp' : p ∉ origIndices decodeThreshold batch := by
        rw [mem_origIndices, (htarget p).2 (le_refl p), hregion,
          (region_eq_two decodeThreshold).2 hprefill]
        exact fun h => h.2 rfl
      have hsame := hpending p
      rwa [hother p hp', hr] at hsame
    · -- the place is for the first of the requests that have to move there
      have hp' : (origIndices decodeThreshold batch).find?
          (fun i => decide (targetRegion decodeThreshold batch i = 2)) = some p := by
        unfold origIndices
        rw [find?_filter, find?_range_eq_some]
        refine ⟨?_, mem_range.2 hlt, fun j hj => ?_⟩
        · have hne : r.region decodeThreshold ≠ 2 := fun h =>
            hprefill ((region_eq_two decodeThreshold).1 h)
          simp [(htarget p).2 (le_refl p), hregion, hne]
        · have hne : targetRegion decodeThreshold batch j ≠ 2 := fun h => by
            have := (htarget j).1 h
            omega
          simp [hne]
      obtain ⟨x, hx, hmem⟩ := find?_zip (map_srcIndices decodeThreshold batch) hp'
      rw [find?_srcIndices] at hx
      unfold origIndices at hx
      rw [find?_filter, find?_range_eq_some] at hx
      obtain ⟨hx, hxlt, hbefore⟩ := hx
      rw [mem_range] at hxlt
      simp only [decide_eq_true_eq] at hx
      have hsrc := hpending x
      rw [hzip _ hmem] at hsrc
      rw [hsrc, eq_comm, getElem?_eq_getElem hxlt, find?_eq_some_iff_getElem]
      have hat : ∀ i (hi : i < batch.length), regionAt decodeThreshold batch i = 2 ↔
          batch[i].IsPrefill := fun i hi => by
        rw [regionAt_of_getElem? decodeThreshold batch (getElem?_eq_getElem hi), region_eq_two]
      refine ⟨decide_eq_true ((hat x hxlt).1 hx.2), x, hxlt, rfl, fun j hj => ?_⟩
      have hj' := hbefore j hj
      have hxp : x < p := by
        by_contra hge
        exact hx.1 (hx.2.trans ((htarget x).2 (not_lt.1 hge)).symm)
      have hnot : targetRegion decodeThreshold batch j ≠ 2 := fun h => by
        have := (htarget j).1 h
        omega
      simp only [Bool.not_eq_true', decide_eq_false_iff_not, decide_eq_true_eq] at hj' ⊢
      rw [← hat j]
      exact fun h => hj' ⟨fun heq => hnot (heq.symm.trans h), h⟩

end

end LoptVllm.Attention
