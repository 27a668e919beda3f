import LoptVllm.Eplb.TransferPairs

/-!
# What a rank copies

The three ways to a row: a local move, a receive of its own, and a copy of another row that received the
same expert.
-/

namespace LoptVllm.Eplb

open List Function Or

open Prod (fst snd)

open Lib

variable {m : ℕ} {α : Type}

/-! ### Copies of rows -/

@[simp] theorem copyRow_self (target source : Rows m α) (dst src : ℕ) (w : Fin m) :
    copyRow target dst source src w dst = source w src := update_self ..

theorem copyRow_of_ne {r dst : ℕ} (h : r ≠ dst) (target source : Rows m α) (src : ℕ) (w : Fin m) :
    copyRow target dst source src w r = target w r := update_of_ne h ..

/-- Copies that only write what the rows are to hold. The sources may be rows that were written before. -/
theorem foldl_copyRow {source : Rows m α → Rows m α} {value : ℕ → Fin m → α} :
    ∀ {pairs : List (ℕ × ℕ)} {K : ℕ → Prop} {rows : Rows m α},
    (∀ rows : Rows m α, (∀ r, K r → ∀ w, rows w r = value r w) →
      ∀ p ∈ pairs, ∀ w, source rows w p.2 = value p.1 w) →
    (∀ r, K r → ∀ w, rows w r = value r w) →
    ∀ r, K r ∨ r ∈ pairs.map fst → ∀ w,
      pairs.foldl (fun rows p => copyRow rows p.1 (source rows) p.2) rows w r = value r w
  | [], K, rows, _, hrows, r, hr, w => hrows r (hr.resolve_right not_mem_nil) w
  | p :: pairs, K, rows, hsource, hrows, r, hr, w => by
    refine @foldl_copyRow source value pairs (fun r => K r ∨ r = p.1) _
      (fun rows hrows q hq => hsource rows (fun r hr => hrows r (inl hr)) q (.tail _ hq))
      (fun r hr w => ?_) r ?_ w
    · simp only
      by_cases h : r = p.1
      · subst h
        rw [copyRow_self]
        exact hsource rows hrows p (.head _) w
      · rw [copyRow_of_ne h]
        exact hrows r (hr.resolve_right h) w
    · rw [map_cons, mem_cons] at hr
      tauto

variable {r : ℕ}

theorem foldl_copyRow_of_notMem (source : Rows m α → Rows m α) (w : Fin m) :
    ∀ (pairs : List (ℕ × ℕ)) (rows : Rows m α), r ∉ pairs.map fst →
      pairs.foldl (fun rows p => copyRow rows p.1 (source rows) p.2) rows w r = rows w r
  | [], _, _ => rfl
  | p :: pairs, rows, hr => by
    rw [map_cons, mem_cons, not_or] at hr
    rw [foldl_cons, foldl_copyRow_of_notMem source w pairs _ hr.2, copyRow_of_ne hr.1]

namespace Exchange

variable {x : Exchange} {k r : ℕ}

/-! ### Local moves -/

theorem localMoves_spec {p : ℕ × ℕ} (h : p ∈ x.localMoves k) :
    x.newLocal k p.1 ≠ -1 ∧ x.oldLocal k p.2 = x.newLocal k p.1 := by
  obtain ⟨dst, -, hp⟩ := mem_filterMap.1 h
  obtain ⟨src, hlookup, rfl⟩ := Option.map_eq_some_iff.1 hp
  obtain ⟨l₁, l₂, heq, -⟩ := lookup_eq_some_iff.1 hlookup
  have hmem : (x.newLocal k dst, src) ∈ x.sendRows k := by
    rw [heq]
    exact mem_append_right _ (.head _)
  exact ⟨(mem_sendRows_fst.1 (mem_map_of_mem hmem)).1, (uniqueRows_row hmem).2⟩

theorem mem_localMoves_fst (hr : r < x.numLocalExperts) (hchanged : x.isUnchanged k r = false)
    (hlocal : x.isReceivedLocally k r = true) : r ∈ (x.localMoves k).map fst := by
  have hmem : x.newLocal k r ∈ (x.sendRows k).map fst := by
    unfold isReceivedLocally at hlocal
    rw [hchanged, Bool.false_or, Bool.and_eq_true_iff, decide_eq_true_eq, decide_eq_true_eq] at hlocal
    obtain ⟨r', hr', hold⟩ := mem_map.1 hlocal.2
    exact mem_sendRows_fst.2 ⟨hlocal.1, r', mem_range.1 hr', hold⟩
  cases hlookup : (x.sendRows k).lookup (x.newLocal k r) with
  | none =>
    obtain ⟨p, hp, hpe⟩ := mem_map.1 hmem
    have := lookup_eq_none_iff.1 hlookup p hp
    rw [hpe] at this
    simp at this
  | some src =>
    refine mem_map.2 ⟨(r, src), mem_filterMap.2 ⟨r, mem_filter.2 ⟨mem_range.2 hr, ?_⟩, ?_⟩, rfl⟩
    · rw [hchanged, hlocal]
      rfl
    · rw [hlookup]
      rfl

/-! ### Copies from the buffers -/

theorem recvRows_row {p : ℤ × ℕ} (h : p ∈ x.recvRows k) : p.2 < x.numLocalExperts ∧
    x.isReceivedLocally k p.2 = false ∧ x.newLocal k p.2 = p.1 := by
  obtain ⟨hmem, hrow⟩ := uniqueRows_row h
  obtain ⟨hlt, hneed⟩ := mem_filter.1 hmem
  refine ⟨mem_range.1 hlt, ?_, hrow⟩
  rw [← Bool.not_eq_true']
  exact (Bool.and_eq_true_iff.1 hneed).1

theorem isUnchanged_of_not_isReceivedLocally (h : x.isReceivedLocally k r = false) :
    x.isUnchanged k r = false := (Bool.or_eq_false_iff.1 h).1

theorem mem_copyRows : r ∈ x.copyRows k ↔ r < x.numLocalExperts ∧ x.isUnchanged k r = false ∧
    (x.isReceivedLocally k r = true ∨ r ∈ (x.recvRows k).map snd) := by
  unfold copyRows localRows recvPrimaryMask
  simp [mem_filter, mem_range, Bool.and_eq_true, Bool.or_eq_true,
    decide_eq_true_eq]

theorem snd_mem_copyRows {p : ℤ × ℕ} (h : p ∈ x.recvRows k) : p.2 ∈ x.copyRows k := by
  obtain ⟨hlt, hlocal, -⟩ := recvRows_row h
  exact mem_copyRows.2 ⟨hlt, isUnchanged_of_not_isReceivedLocally hlocal, inr (mem_map_of_mem h)⟩

/-! ### Copies of received experts -/

/-- The binary search finds the entries of a sorted list. -/
theorem getD_searchsorted {l : List ℤ} (hl : l.Pairwise (· < ·)) {e : ℤ} (he : e ∈ l) :
    searchsorted l e < l.length ∧ l.getD (searchsorted l e) (-1) = e := by
  unfold searchsorted
  induction l with
  | nil => cases he
  | cons a l ih =>
    obtain ⟨ha, hl⟩ := pairwise_cons.1 hl
    rcases mem_cons.1 he with rfl | he
    · have hzero : (e :: l).countP (fun a => decide (a < e)) = 0 := by
        refine countP_eq_zero.2 fun a h => ?_
        rw [decide_eq_true_eq]
        rcases mem_cons.1 h with rfl | h
        · exact lt_irrefl _
        · exact (ha a h).asymm
      rw [hzero]
      exact ⟨Nat.succ_pos _, rfl⟩
    · rw [countP_cons, if_pos (decide_eq_true (ha e he))]
      obtain ⟨hlt, hget⟩ := ih hl he
      exact ⟨Nat.succ_lt_succ hlt, hget⟩

/-- An index into the experts of some rows is one into the rows. -/
theorem exists_mem_of_getD_fst {l : List (ℤ × ℕ)} {i : ℕ} {e : ℤ} (hi : i < (l.map fst).length)
    (he : (l.map fst).getD i (-1) = e) : ∃ p ∈ l, p.1 = e ∧ (l.map snd).getD i 0 = p.2 := by
  have hlt : i < l.length := by rwa [length_map] at hi
  refine ⟨l[i], getElem_mem hlt, ?_, ?_⟩
  · rw [getD_eq_getElem _ _ hi, getElem_map] at he
    exact he
  · rw [getD_eq_getElem _ _ (by rwa [length_map]), getElem_map]

theorem duplicates_spec {p : ℕ × ℕ} (h : p ∈ x.duplicates k) :
    x.isUnchanged k p.1 = false ∧ p.2 ∈ x.copyRows k ∧ x.newLocal k p.2 = x.newLocal k p.1 := by
  unfold duplicates at h
  simp only at h
  split_ifs at h with hempty
  · cases h
  obtain ⟨dst, hdst, hp⟩ := mem_filterMap.1 h
  split_ifs at hp with hfound
  obtain rfl := Option.some.inj hp
  obtain ⟨hlt, hget⟩ := hfound
  rw [min_eq_left (by omega)] at hget
  obtain ⟨q, hq, hqe, hrow⟩ := exists_mem_of_getD_fst hlt hget
  refine ⟨?_, ?_, ?_⟩
  · have hneed := (mem_filter.1 hdst).2
    simp only [Bool.and_eq_true, Bool.not_eq_true'] at hneed
    exact hneed.1.1.1
  · simp only [hrow]
    exact snd_mem_copyRows hq
  · simp only [hrow]
    rw [(recvRows_row hq).2.2, hqe]

theorem mem_duplicates_fst (hr : r < x.numLocalExperts) (hne : x.newLocal k r ≠ -1)
    (hlocal : x.isReceivedLocally k r = false) (hprimary : r ∉ (x.recvRows k).map snd) :
    r ∈ (x.duplicates k).map fst := by
  have hmem : x.newLocal k r ∈ (x.recvRows k).map fst :=
    mem_recvRows_fst.2 ⟨hne, ⟨r, hr, rfl⟩, (isReceivedLocally_eq_false hr hne).1 hlocal⟩
  have hsorted : ((x.recvRows k).map fst).Pairwise (· < ·) := pairwise_uniqueRows _ _
  obtain ⟨hlt, hget⟩ := getD_searchsorted hsorted hmem
  unfold duplicates
  rw [if_neg (ne_nil_of_mem hmem)]
  refine mem_map.2 ⟨(r, ((x.recvRows k).map snd).getD
    (searchsorted ((x.recvRows k).map fst) (x.newLocal k r)) 0), mem_filterMap.2 ⟨r,
      mem_filter.2 ⟨mem_range.2 hr, ?_⟩, if_pos ⟨hlt, ?_⟩⟩, rfl⟩
  · unfold recvPrimaryMask
    rw [isUnchanged_of_not_isReceivedLocally hlocal, hlocal, decide_eq_false hprimary, decide_eq_true hne]
    rfl
  · rw [min_eq_left (by omega)]
    exact hget

end Exchange

/-! ### The rows after the copies -/

open Exchange

variable {x : Exchange} {k : ℕ}

theorem moveFromBuffer_eq (x : Exchange) (k : ℕ) (rank : RankState m α) : moveFromBuffer x k rank =
    (x.duplicates k).foldl (fun rows p => copyRow rows p.1 (id rows) p.2)
      (((x.copyRows k).map fun r => (r, r)).foldl
        (fun rows p => copyRow rows p.1 (const _ rank.buffers rows) p.2) rank.weights) := by
  rw [foldl_map]
  rfl

variable {rank : RankState m α}

theorem moveFromBuffer_installs {expertWeights : ℤ → Fin m → α}
    (hmoved : ∀ p ∈ x.localMoves k, ∀ w, rank.buffers w p.1 = expertWeights (x.newLocal k p.1) w)
    (hreceived : ∀ p ∈ x.recvRows k, ∀ w, rank.buffers w p.2 = expertWeights (x.newLocal k p.2) w)
    (hunchanged : ∀ r, x.isUnchanged k r = true → x.newLocal k r ≠ -1 →
      ∀ w, rank.weights w r = expertWeights (x.newLocal k r) w) (hr : r < x.numLocalExperts)
    (hne : x.newLocal k r ≠ -1) (w : Fin m) :
    moveFromBuffer x k rank w r = expertWeights (x.newLocal k r) w := by
  have hcopied := @foldl_copyRow m α (const _ rank.buffers)
    (fun r w => expertWeights (x.newLocal k r) w) ((x.copyRows k).map fun r => (r, r))
    (fun r => x.isUnchanged k r = true ∧ x.newLocal k r ≠ -1) rank.weights
    (fun rows _ p hp w => by
      obtain ⟨r, hr, rfl⟩ := mem_map.1 hp
      obtain ⟨hlt, hchanged, hsource⟩ := mem_copyRows.1 hr
      rcases hsource with hlocal | hprimary
      · obtain ⟨q, hq, rfl⟩ := mem_map.1 (mem_localMoves_fst hlt hchanged hlocal)
        exact hmoved q hq w
      · obtain ⟨q, hq, rfl⟩ := mem_map.1 hprimary
        exact hreceived q hq w)
    (fun r hr => hunchanged r hr.1 hr.2)
  simp only [map_map, comp_def, map_id'] at hcopied
  rw [moveFromBuffer_eq]
  refine @foldl_copyRow m α id (fun r w => expertWeights (x.newLocal k r) w) (x.duplicates k)
    (fun r => (x.isUnchanged k r = true ∧ x.newLocal k r ≠ -1) ∨ r ∈ x.copyRows k) _
    (fun rows hrows p hp w => ?_) hcopied r ?_ w
  · obtain ⟨-, hsource, hsame⟩ := duplicates_spec hp
    rw [id, hrows p.2 (inr hsource), hsame]
  · by_cases hunchanged : x.isUnchanged k r = true
    · exact inl (inl ⟨hunchanged, hne⟩)
    have hchanged := Bool.eq_false_iff.2 hunchanged
    by_cases hsource : x.isReceivedLocally k r = true ∨ r ∈ (x.recvRows k).map snd
    · exact inl (inr (mem_copyRows.2 ⟨hr, hchanged, hsource⟩))
    · obtain ⟨hlocal, hprimary⟩ := not_or.1 hsource
      exact inr (mem_duplicates_fst hr hne (Bool.eq_false_iff.2 hlocal) hprimary)

theorem notMem_of_isUnchanged (h : x.isUnchanged k r = true) :
    r ∉ x.copyRows k ∧ r ∉ (x.duplicates k).map fst := by
  constructor
  · intro hr
    rw [(mem_copyRows.1 hr).2.1] at h
    cases h
  · intro hr
    obtain ⟨p, hp, rfl⟩ := mem_map.1 hr
    rw [(duplicates_spec hp).1] at h
    cases h

/-- Unchanged rows are not written. -/
theorem moveFromBuffer_isUnchanged (h : x.isUnchanged k r = true)
    (w : Fin m) : moveFromBuffer x k rank w r = rank.weights w r := by
  obtain ⟨hcopy, hduplicate⟩ := notMem_of_isUnchanged h
  rw [moveFromBuffer_eq, foldl_copyRow_of_notMem id w _ _ hduplicate,
    foldl_copyRow_of_notMem _ w _ _ (by simpa using hcopy)]

end LoptVllm.Eplb
