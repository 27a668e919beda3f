import LoptVllm.Eplb.Transfer
import Mathlib.Data.List.Find
import Mathlib.Data.List.GetD
import Mathlib.Tactic.Ring

/-!
# What two ranks post for each other

The sends of a rank to another and the receives of the other from it are for the same experts, in the
same order.
-/

namespace LoptVllm.Eplb

open List Function Nat

open Prod (fst snd)

open Lib

namespace Exchange

/-! ### The ranks of an expert -/

/-- The ranks that have an expert, in the order of their rows. -/
def ranksWith (numLocalExperts : ℕ) (indices : List ℤ) (e : ℤ) : List ℕ :=
  uniqueInOrder (((range indices.length).filter fun p => decide (indices.getD p 0 = e)).map fun p =>
    p / numLocalExperts)

/-- The entries of a sorted list of experts and positions that are for one expert. -/
theorem filter_sorted {indices unique : List ℤ} {e : ℤ} (he : e ∈ unique) :
    ((((range indices.length).filter fun p => decide (indices.getD p 0 ∈ unique)).map fun p =>
        (indices.getD p 0, p)).mergeSort fun a b =>
          decide (a.1 < b.1 ∨ a.1 = b.1 ∧ a.2 ≤ b.2)).filter (fun a => decide (a.1 = e)) =
      ((range indices.length).filter fun p => decide (indices.getD p 0 = e)).map fun p => (e, p) := by
  set pairs := ((range indices.length).filter fun p => decide (indices.getD p 0 ∈ unique)).map
    fun p => (indices.getD p 0, p)
  set le := fun a b : ℤ × ℕ => decide (a.1 < b.1 ∨ a.1 = b.1 ∧ a.2 ≤ b.2) with hle
  set ofExpert := (range indices.length).filter fun p => decide (indices.getD p 0 = e)
  have hperm := (mergeSort_perm pairs le).filter fun a => decide (a.1 = e)
  have hsorted := (@pairwise_mergeSort _ le
    (fun a b c hab hbc => by simp only [hle, decide_eq_true_eq] at *; omega)
    (fun a b => by simp only [hle, Bool.or_eq_true, decide_eq_true_eq]; omega)
    pairs).sublist (@filter_sublist _ (fun a => decide (a.1 = e)) _)
  have heq : (pairs.filter fun a => decide (a.1 = e)) = ofExpert.map fun p => (e, p) := by
    rw [filter_map, filter_filter]
    have hfilter : ((range indices.length).filter fun p =>
        ((fun a : ℤ × ℕ => decide (a.1 = e)) ∘ fun p => (indices.getD p 0, p)) p &&
          decide (indices.getD p 0 ∈ unique)) = ofExpert := by
      refine filter_congr fun p _ => ?_
      by_cases hp : indices.getD p 0 = e
      · simp only [comp_apply, hp, he, Bool.and_self]
      · simp only [comp_apply, hp, decide_false, Bool.false_and]
    rw [hfilter]
    refine map_congr_left fun p hp => ?_
    rw [of_decide_eq_true (mem_filter.1 hp).2]
  rw [heq] at hperm
  refine hperm.eq_of_pairwise (fun a b _ _ hab hba => ?_) hsorted ?_
  · simp only [hle, decide_eq_true_eq] at hab hba
    exact Prod.ext (by omega) (by omega)
  · refine pairwise_map.2 ((pairwise_lt_range.sublist filter_sublist).imp fun h => ?_)
    exact decide_eq_true (Or.inr ⟨rfl, h.le⟩)

/-- Whatever other experts are asked for, the ranks of an expert are found. -/
theorem ranksOf_rankGroups (n : ℕ) {unique indices : List ℤ} {e : ℤ} (he : e ∈ unique) :
    ranksOf (rankGroups n unique indices) e = ranksWith n indices e := by
  unfold rankGroups
  simp only
  obtain ⟨sorted, hsorted⟩ : ∃ sorted, sorted = ((((range indices.length).filter fun p =>
    decide (indices.getD p 0 ∈ unique)).map fun p => (indices.getD p 0, p)).mergeSort fun a b =>
      decide (a.1 < b.1 ∨ a.1 = b.1 ∧ a.2 ≤ b.2)) := ⟨_, rfl⟩
  have hpairwise : sorted.Pairwise fun a b => a.1 ≤ b.1 := by
    rw [hsorted]
    refine (pairwise_mergeSort (fun a b c hab hbc => ?_) (fun a b => ?_) _).imp fun h => ?_
    · simp only [decide_eq_true_eq] at *
      omega
    · simp only [Bool.or_eq_true, decide_eq_true_eq]
      omega
    · simp only [decide_eq_true_eq] at h
      omega
  have hfilter := @filter_sorted indices unique e he
  rw [← hsorted] at hfilter ⊢
  have hfind := find_segment hpairwise e
  rw [hfilter] at hfind
  unfold ranksOf ranksWith
  rw [find?_map]
  have hcongr : (segments fst sorted).find? ((fun group : ℤ × List ℕ => decide (group.1 = e)) ∘
      fun g => ((g.head?.map fst).getD 0, uniqueInOrder (g.map fun p => p.2 / n))) =
      (segments fst sorted).find? fun g => decide (g.head?.map fst = some e) := by
    refine find?_congr fun g hg => ?_
    obtain ⟨y, g, rfl⟩ := exists_cons_of_ne_nil (ne_nil_of_mem_segments hg)
    exact decide_eq_decide.2 (by simp)
  rw [hcongr, hfind]
  split_ifs with hempty
  · rw [map_eq_nil_iff.1 hempty]
    rfl
  · simp [comp_def]

variable (x : Exchange)

/-- The ranks that have the expert before. -/
def sendRanks (e : ℤ) : List ℕ := ranksWith x.numLocalExperts x.oldIndices e

/-- The ranks that get the expert from others. -/
def recvRanks (e : ℤ) : List ℕ :=
  (ranksWith x.numLocalExperts x.newIndices e).filter fun r => decide (r ∉ x.sendRanks e)

theorem getEpRanksWithExpertsBatch_fst {ids : List ℤ} {e : ℤ} (he : e ∈ ids) :
    ranksOf (x.getEpRanksWithExpertsBatch ids).1 e = x.sendRanks e :=
  ranksOf_rankGroups _ (mem_sortedUnique.2 he)

theorem getEpRanksWithExpertsBatch_snd {ids : List ℤ} {e : ℤ} (he : e ∈ ids) :
    ranksOf (x.getEpRanksWithExpertsBatch ids).2 e = x.recvRanks e := by
  have hmem := mem_sortedUnique.2 he
  have hranks := @ranksOf_rankGroups x.numLocalExperts _ x.newIndices e hmem
  have hsend := @ranksOf_rankGroups x.numLocalExperts _ x.oldIndices e hmem
  unfold recvRanks sendRanks
  rw [← hranks, ← hsend]
  unfold getEpRanksWithExpertsBatch ranksOf
  rw [find?_map]
  simp only [comp_def]
  cases hfind : (rankGroups x.numLocalExperts (sortedUnique ids) x.newIndices).find?
      fun group => decide (group.1 = e) with
  | none => rfl
  | some group =>
    rw [Option.map_some, Option.elim_some, Option.elim_some]
    have hkey : group.1 = e := by simpa using find?_some hfind
    rw [hkey]

variable {x}

theorem nodup_ranksWith (n : ℕ) (indices : List ℤ) (e : ℤ) : (ranksWith n indices e).Nodup :=
  (uniqueInOrder_spec _).1

theorem mem_ranksWith {indices : List ℤ} {n epSize : ℕ} (hlength : indices.length = epSize * n) {e : ℤ}
    (he : e ≠ -1) {k : ℕ} : k ∈ ranksWith n indices e ↔
      k < epSize ∧ ∃ r < n, indices.getD (k * n + r) (-1) = e := by
  rw [ranksWith, (uniqueInOrder_spec _).2, mem_map]
  constructor
  · rintro ⟨p, hp, rfl⟩
    obtain ⟨hrange, hpe⟩ := mem_filter.1 hp
    rw [mem_range, hlength] at hrange
    have hn : 0 < n := pos_of_ne_zero fun h => by simp [h] at hrange
    refine ⟨Nat.div_lt_of_lt_mul (by rwa [mul_comm]), p % n, mod_lt _ hn, ?_⟩
    rw [div_add_mod', getD_eq_getElem _ _ (hlength ▸ hrange)]
    have := of_decide_eq_true hpe
    rwa [getD_eq_getElem _ _] at this
  · rintro ⟨hk, r, hr, hat⟩
    have hlt : k * n + r < indices.length := by
      by_contra hge
      rw [getD_eq_getElem?_getD, getElem?_eq_none (not_lt.1 hge)] at hat
      exact he hat.symm
    refine ⟨k * n + r, mem_filter.2 ⟨mem_range.2 hlt, decide_eq_true ?_⟩, ?_⟩
    · rw [getD_eq_getElem _ _ hlt]
      rwa [getD_eq_getElem _ _] at hat
    · rw [mul_comm, mul_add_div (zero_lt_of_lt hr), div_eq_of_lt hr, add_zero]

theorem mem_sendRanks {e : ℤ} (he : e ≠ -1) {k : ℕ} :
    k ∈ x.sendRanks e ↔ k < x.epSize ∧ ∃ r < x.numLocalExperts, x.oldLocal k r = e :=
  mem_ranksWith x.length_oldIndices he

theorem mem_recvRanks {e : ℤ} (he : e ≠ -1) {k : ℕ} :
    k ∈ x.recvRanks e ↔ k < x.epSize ∧ (∃ r < x.numLocalExperts, x.newLocal k r = e) ∧
      ¬∃ r < x.numLocalExperts, x.oldLocal k r = e := by
  rw [recvRanks, mem_filter, mem_ranksWith x.length_newIndices he, decide_eq_true_eq,
    mem_sendRanks he]
  constructor
  · rintro ⟨⟨hk, hnew⟩, hold⟩
    exact ⟨hk, hnew, fun h => hold ⟨hk, h⟩⟩
  · rintro ⟨hk, hnew, hold⟩
    exact ⟨⟨hk, hnew⟩, fun h => hold h.2⟩

/-! ### Senders and receivers -/

/-- An entry of a list without duplicates is at one index. -/
theorem getD_eq_iff {l : List ℕ} (hl : l.Nodup) {a i : ℕ} (ha : a ∈ l) (hi : i < l.length) :
    l.getD i 0 = a ↔ i = l.idxOf a := by
  rw [getD_eq_getElem _ _ hi]
  constructor
  · rintro rfl
    exact (hl.idxOf_getElem i hi).symm
  · rintro rfl
    exact getElem_idxOf _

theorem mem_slice_iff {l : List ℕ} (hl : l.Nodup) {b s q : ℕ} (hb : b ∈ l) :
    b ∈ (l.drop s).take q ↔ s ≤ l.idxOf b ∧ l.idxOf b < s + q := by
  have hlt := idxOf_lt_length_of_mem hb
  rw [mem_iff_getElem?]
  constructor
  · rintro ⟨i, hi⟩
    have hq : i < q := by
      by_contra hge
      rw [getElem?_eq_none (by rw [length_take]; omega)] at hi
      cases hi
    rw [getElem?_take_of_lt hq, getElem?_drop] at hi
    obtain ⟨hlt', hget⟩ := List.getElem?_eq_some_iff.1 hi
    have hidx := hl.idxOf_getElem (s + i) hlt'
    rw [hget] at hidx
    omega
  · rintro ⟨hs, hq⟩
    refine ⟨l.idxOf b - s, ?_⟩
    rw [getElem?_take_of_lt (by omega), getElem?_drop, Nat.add_sub_cancel' hs,
      getElem?_eq_getElem hlt, getElem_idxOf]

variable {senders receivers : List ℕ} {a b : ℕ}

theorem mem_sendTargets_iff (hS : senders.Nodup) (hR : receivers.Nodup)
    (ha : a ∈ senders) : b ∈ sendTargets a senders receivers ↔
      b ∈ receivers ∧ recvSource b senders receivers = some a := by
  have hne : senders ≠ [] := ne_nil_of_mem ha
  unfold sendTargets recvSource
  by_cases hempty : receivers = []
  · rw [if_pos (Or.inr hempty), hempty]
    simp
  rw [if_neg (not_or.2 ⟨hne, hempty⟩), if_neg (not_or.2 ⟨hne, hempty⟩)]
  have hS' := length_pos_iff.2 hne
  have hpos := idxOf_lt_length_of_mem ha
  have hdiv : senders.length * (receivers.length / senders.length) + receivers.length % senders.length =
      receivers.length := div_add_mod _ _
  have hmod := mod_lt receivers.length hS'
  generalize receivers.length / senders.length = q at *
  -- the slices of the senders
  have hslice : (senders.idxOf a + 1) * q ≤ senders.length * q := mul_le_mul_right q hpos
  rw [succ_mul] at hslice
  have hsub : ∀ c, c ∈ (if senders.length * q + senders.idxOf a < receivers.length then
      (receivers.drop (senders.idxOf a * q)).take q ++
        [receivers.getD (senders.length * q + senders.idxOf a) 0]
      else (receivers.drop (senders.idxOf a * q)).take q) ↔ c ∈ receivers ∧
        (senders.idxOf a * q ≤ receivers.idxOf c ∧ receivers.idxOf c < senders.idxOf a * q + q ∨
          receivers.idxOf c = senders.length * q + senders.idxOf a) := by
    intro c
    by_cases hc : c ∈ receivers
    · have hlt := idxOf_lt_length_of_mem hc
      split_ifs with hlast
      · rw [mem_append, mem_slice_iff hR hc, mem_singleton, eq_comm, getD_eq_iff hR hc hlast]
        tauto
      · rw [mem_slice_iff hR hc]
        simp only [hc, true_and]
        omega
    · refine iff_of_false (fun h => hc ?_) fun h => hc h.1
      split_ifs at h with hlast
      · rcases mem_append.1 h with h | h
        · exact mem_of_mem_drop (mem_of_mem_take h)
        · rw [mem_singleton.1 h, getD_eq_getElem _ _ hlast]
          exact getElem_mem _
      · exact mem_of_mem_drop (mem_of_mem_take h)
  rw [hsub, Option.some.injEq]
  refine and_congr_right fun hb => ?_
  have hlt := idxOf_lt_length_of_mem hb
  by_cases hstart : receivers.idxOf b < senders.length * q
  · rw [if_pos hstart]
    have hq : 0 < q := pos_of_ne_zero fun h => by simp [h] at hstart
    rw [getD_eq_iff hS ha (Nat.div_lt_of_lt_mul (by rwa [mul_comm])), Nat.div_eq_iff hq]
    omega
  · rw [if_neg hstart, getD_eq_iff hS ha (by omega)]
    omega

theorem mem_of_recvSource (hb : b ∈ receivers)
    (h : recvSource b senders receivers = some a) : a ∈ senders := by
  unfold recvSource at h
  split_ifs at h with hempty
  have hlt := idxOf_lt_length_of_mem hb
  have hpos : 0 < senders.length := length_pos_iff.2 (not_or.1 hempty).1
  have hdiv : senders.length * (receivers.length / senders.length) + receivers.length % senders.length =
      receivers.length := div_add_mod _ _
  have hmod := mod_lt receivers.length hpos
  simp only [Option.some.injEq] at h
  generalize receivers.length / senders.length = q at *
  by_cases hstart : receivers.idxOf b < senders.length * q
  · rw [if_pos hstart, getD_eq_getElem _ _ (Nat.div_lt_of_lt_mul (by rwa [mul_comm]))] at h
    exact h ▸ getElem_mem _
  · rw [if_neg hstart, getD_eq_getElem _ _ (by omega)] at h
    exact h ▸ getElem_mem _

theorem nodup_sendTargets (hR : receivers.Nodup) {a : ℕ}
    (ha : a ∈ senders) : (sendTargets a senders receivers).Nodup := by
  have hslice : ∀ s q, ((receivers.drop s).take q).Nodup := fun s q =>
    hR.sublist ((take_sublist _ _).trans (drop_sublist _ _))
  unfold sendTargets
  split_ifs with hempty
  · exact nodup_nil
  · simp only
    split_ifs with hlast
    · refine nodup_append.2 ⟨hslice _ _, nodup_singleton _, fun c hc d hd h => ?_⟩
      rw [mem_singleton.1 hd] at h
      have hmem : c ∈ receivers := mem_of_mem_drop (mem_of_mem_take hc)
      have hidx := (getD_eq_iff hR hmem hlast).1 h.symm
      have hlt := (mem_slice_iff hR hmem).1 hc
      have hpos := idxOf_lt_length_of_mem ha
      have hle : (senders.idxOf a + 1) * (receivers.length / senders.length) ≤
          senders.length * (receivers.length / senders.length) := mul_le_mul_right _ hpos
      rw [succ_mul] at hle
      omega
    · exact hslice _ _

/-! ### The operations -/

variable {k : ℕ} {expertAt : ℕ → ℤ}

theorem mem_uniqueRows_fst {rows : List ℕ} {e : ℤ} :
    e ∈ (uniqueRows expertAt rows).map fst ↔ ∃ r ∈ rows, expertAt r = e := by
  rw [uniqueRows, map_map]
  have hid : (fst ∘ fun e => (e, (rows.find? fun r => decide (expertAt r = e)).getD 0)) =
      (id : ℤ → ℤ) := rfl
  rw [hid, map_id, mem_sortedUnique, mem_map]

theorem pairwise_uniqueRows (expertAt : ℕ → ℤ) (rows : List ℕ) :
    ((uniqueRows expertAt rows).map fst).Pairwise (· < ·) := by
  rw [uniqueRows, map_map]
  exact (map_id (sortedUnique (rows.map expertAt))).symm ▸ pairwise_sortedUnique _

theorem uniqueRows_row {rows : List ℕ} {p : ℤ × ℕ} (h : p ∈ uniqueRows expertAt rows) :
    p.2 ∈ rows ∧ expertAt p.2 = p.1 := by
  obtain ⟨e, he, rfl⟩ := mem_map.1 h
  obtain ⟨r, hr, rfl⟩ := mem_map.1 (mem_sortedUnique.1 he)
  cases hfind : rows.find? fun r' => decide (expertAt r' = expertAt r) with
  | none => exact absurd (decide_eq_true rfl) (find?_eq_none.1 hfind r hr)
  | some r' =>
    have hr' : expertAt r' = expertAt r := by simpa using find?_some hfind
    exact ⟨mem_of_find?_eq_some hfind, hr'⟩

theorem mem_sendRows_fst {e : ℤ} : e ∈ (x.sendRows k).map fst ↔
    e ≠ -1 ∧ ∃ r < x.numLocalExperts, x.oldLocal k r = e := by
  rw [sendRows, mem_uniqueRows_fst]
  constructor
  · rintro ⟨r, hr, rfl⟩
    obtain ⟨hlt, hne⟩ := mem_filter.1 hr
    exact ⟨of_decide_eq_true hne, r, mem_range.1 hlt, rfl⟩
  · rintro ⟨hne, r, hr, rfl⟩
    exact ⟨r, mem_filter.2 ⟨mem_range.2 hr, decide_eq_true hne⟩, rfl⟩

/-- What a rank has to receive. -/
theorem isReceivedLocally_eq_false {r : ℕ} (hr : r < x.numLocalExperts) (hne : x.newLocal k r ≠ -1) :
    x.isReceivedLocally k r = false ↔ ¬∃ r' < x.numLocalExperts, x.oldLocal k r' = x.newLocal k r := by
  unfold isReceivedLocally isUnchanged localRows
  simp only [Bool.or_eq_false_iff, decide_eq_false_iff_not, Bool.and_eq_false_iff, mem_map,
    mem_range, not_not]
  constructor
  · rintro ⟨-, h⟩
    exact h.resolve_left hne
  · exact fun h => ⟨fun heq => h ⟨r, hr, heq⟩, Or.inr h⟩

theorem mem_recvRows_fst {e : ℤ} : e ∈ (x.recvRows k).map fst ↔
    e ≠ -1 ∧ (∃ r < x.numLocalExperts, x.newLocal k r = e) ∧
      ¬∃ r < x.numLocalExperts, x.oldLocal k r = e := by
  rw [recvRows, mem_uniqueRows_fst]
  constructor
  · rintro ⟨r, hr, rfl⟩
    obtain ⟨hlt, hneed⟩ := mem_filter.1 hr
    obtain ⟨hlocal, hne⟩ := Bool.and_eq_true_iff.1 hneed
    have hne := of_decide_eq_true hne
    have hlt := mem_range.1 hlt
    rw [Bool.not_eq_true'] at hlocal
    exact ⟨hne, ⟨r, hlt, rfl⟩, (isReceivedLocally_eq_false hlt hne).1 hlocal⟩
  · rintro ⟨hne, ⟨r, hr, rfl⟩, hnot⟩
    refine ⟨r, mem_filter.2 ⟨mem_range.2 hr, ?_⟩, rfl⟩
    rw [(isReceivedLocally_eq_false hr hne).2 hnot, Bool.not_false, Bool.true_and]
    exact decide_eq_true hne

variable {m : ℕ}

theorem postSends_row {op : P2POp m} (h : op ∈ x.postSends k m) :
    op.expert ≠ -1 ∧ x.oldLocal k op.row = op.expert := by
  obtain ⟨send, hsend, hop⟩ := mem_flatMap.1 h
  obtain ⟨dst, -, hop⟩ := mem_flatMap.1 hop
  obtain ⟨w, -, rfl⟩ := mem_map.1 hop
  obtain ⟨hmem, hrow⟩ := uniqueRows_row hsend
  refine ⟨?_, hrow⟩
  rw [← hrow]
  exact of_decide_eq_true (mem_filter.1 hmem).2

theorem postRecvs_row {op : P2POp m} (h : op ∈ x.postRecvs k m) :
    op.row < x.numLocalExperts ∧ x.newLocal k op.row = op.expert := by
  obtain ⟨recv, hrecv, hop⟩ := mem_flatMap.1 h
  obtain ⟨hmem, hrow⟩ := uniqueRows_row hrecv
  split at hop
  · cases hop
  · obtain ⟨w, -, rfl⟩ := mem_map.1 hop
    exact ⟨mem_range.1 (mem_filter.1 hmem).1, hrow⟩

/-- What both ranks know of an operation. -/
def P2POp.label (op : P2POp m) : ℤ × Fin m := (op.expert, op.tensor)

/-- The operations of one peer, where the operations are made peer by peer. -/
theorem filter_flatMap_peer {peers : List ℕ} (hpeers : peers.Nodup) {ops : ℕ → List (P2POp m)}
    (hops : ∀ d, ∀ op ∈ ops d, op.peer = d) (b : ℕ) :
    (peers.flatMap ops).filter (fun op => decide (op.peer = b)) = if b ∈ peers then ops b else [] := by
  have hother : ∀ d, d ≠ b → (ops d).filter (fun op => decide (op.peer = b)) = [] := fun d hd =>
    filter_eq_nil_iff.2 fun op hop => by simpa [hops d op hop] using hd
  have hsame : (ops b).filter (fun op => decide (op.peer = b)) = ops b :=
    filter_eq_self.2 fun op hop => decide_eq_true (hops b op hop)
  induction peers with
  | nil => rfl
  | cons d peers ih =>
    obtain ⟨hd, hpeers⟩ := nodup_cons.1 hpeers
    rw [flatMap_cons, filter_append, ih hpeers]
    by_cases h : d = b
    · subst h
      rw [hsame, if_neg hd, if_pos mem_cons_self, append_nil]
    · rw [hother d h, nil_append]
      simp [mem_cons, Ne.symm h, false_or]

theorem flatMap_filter_fst {β : Type*} (rows : List (ℤ × ℕ)) (q : ℤ → Prop) [DecidablePred q]
    (f : ℤ → List β) : ((rows.map fst).filter fun e => decide (q e)).flatMap f =
      rows.flatMap fun row => if q row.1 then f row.1 else [] := by
  induction rows with
  | nil => rfl
  | cons row rows ih =>
    rw [map_cons, flatMap_cons, filter_cons]
    by_cases h : q row.1
    · rw [if_pos (decide_eq_true h), flatMap_cons, ih, if_pos h]
    · rw [if_neg (by simpa using h), ih, if_neg h, nil_append]

theorem filter_postSends (ha : a < x.epSize) :
    ((x.postSends a m).filter fun op => decide (op.peer = b)).map P2POp.label =
      (((x.sendRows a).map fst).filter fun e =>
        decide (b ∈ sendTargets a (x.sendRanks e) (x.recvRanks e))).flatMap fun e =>
          (finRange m).map fun w => (e, w) := by
  unfold postSends
  rw [flatMap_filter_fst, filter_flatMap, map_flatMap]
  refine flatMap_congr fun send hsend => ?_
  have hmem : send.1 ∈ (x.sendRows a).map fst := mem_map_of_mem hsend
  rw [getEpRanksWithExpertsBatch_fst x hmem, getEpRanksWithExpertsBatch_snd x hmem]
  obtain ⟨hne, hold⟩ := mem_sendRows_fst.1 hmem
  have hnodup : (sendTargets a (x.sendRanks send.1) (x.recvRanks send.1)).Nodup :=
    nodup_sendTargets ((nodup_ranksWith _ _ _).filter _) ((mem_sendRanks hne).2 ⟨ha, hold⟩)
  rw [filter_flatMap_peer hnodup]
  · split_ifs
    · rw [map_map]
      rfl
    · rfl
  · intro d op hop
    obtain ⟨w, -, rfl⟩ := mem_map.1 hop
    rfl

/-- The receives of a rank from another, by expert. -/
theorem filter_postRecvs :
    ((x.postRecvs b m).filter fun op => decide (op.peer = a)).map P2POp.label =
      (((x.recvRows b).map fst).filter fun e =>
        decide (recvSource b (x.sendRanks e) (x.recvRanks e) = some a)).flatMap fun e =>
          (finRange m).map fun w => (e, w) := by
  unfold postRecvs
  rw [flatMap_filter_fst, filter_flatMap, map_flatMap]
  refine flatMap_congr fun recv hrecv => ?_
  have hmem : recv.1 ∈ (x.recvRows b).map fst := mem_map_of_mem hrecv
  rw [getEpRanksWithExpertsBatch_fst x hmem, getEpRanksWithExpertsBatch_snd x hmem]
  cases recvSource b (x.sendRanks recv.1) (x.recvRanks recv.1) with
  | none => rfl
  | some src =>
    by_cases h : src = a
    · rw [if_pos (congrArg some h), filter_eq_self.2, map_map]
      · rfl
      · intro op hop
        obtain ⟨w, -, rfl⟩ := mem_map.1 hop
        exact decide_eq_true h
    · rw [if_neg (by simpa using h), filter_eq_nil_iff.2]
      · rfl
      · intro op hop
        obtain ⟨w, -, rfl⟩ := mem_map.1 hop
        simpa using h

/-- The sends of a rank to another agree with the receives of the other from it. -/
theorem postSends_eq_postRecvs (ha : a < x.epSize) (hb : b < x.epSize) :
    ((x.postSends a m).filter fun op => decide (op.peer = b)).map P2POp.label =
      ((x.postRecvs b m).filter fun op => decide (op.peer = a)).map P2POp.label := by
  rw [filter_postSends ha, filter_postRecvs]
  congr 1
  refine ((pairwise_uniqueRows _ _).sublist filter_sublist).eq_of_mem_iff
    ((pairwise_uniqueRows _ _).sublist filter_sublist) fun e => ?_
  rw [mem_filter, mem_filter, decide_eq_true_eq, decide_eq_true_eq]
  constructor
  · rintro ⟨hsend, htarget⟩
    obtain ⟨hne, hold⟩ := mem_sendRows_fst.1 hsend
    obtain ⟨hrecv, hsource⟩ := (mem_sendTargets_iff (nodup_ranksWith _ _ _)
      ((nodup_ranksWith _ _ _).filter _) ((mem_sendRanks hne).2 ⟨ha, hold⟩)).1 htarget
    obtain ⟨-, hnew, hnot⟩ := (mem_recvRanks hne).1 hrecv
    exact ⟨mem_recvRows_fst.2 ⟨hne, hnew, hnot⟩, hsource⟩
  · rintro ⟨hrecv, hsource⟩
    obtain ⟨hne, hnew, hnot⟩ := mem_recvRows_fst.1 hrecv
    have hmem : b ∈ x.recvRanks e := (mem_recvRanks hne).2 ⟨hb, hnew, hnot⟩
    have hsender : a ∈ x.sendRanks e := mem_of_recvSource hmem hsource
    obtain ⟨-, hold⟩ := (mem_sendRanks hne).1 hsender
    exact ⟨mem_sendRows_fst.2 ⟨hne, hold⟩, (mem_sendTargets_iff (nodup_ranksWith _ _ _)
      ((nodup_ranksWith _ _ _).filter _) hsender).2 ⟨hmem, hsource⟩⟩

end Exchange

end LoptVllm.Eplb
