import LoptVllm.Worker.Rows

/-!
# Closing the gaps of the batch

`condense` moves the requests of the last rows to the smallest removed rows.
-/

namespace LoptVllm

open List Option OrderedDict

namespace Worker

namespace InputBatch

variable {b b' : InputBatch}

/-! ### The number of rows -/

/-- The rows with a request are the rows that the ids are at. -/
theorem perm_values (hwf : b.WellFormed) : b.reqIdToIndex.values.Perm
    ((range b.reqIds.length).filter fun i => (b.idAt i).isSome) := by
  have hmem : ∀ i, i ∈ b.reqIdToIndex.values ↔ (b.idAt i).isSome := by
    intro i
    unfold values
    rw [List.mem_map, isSome_iff_exists]
    constructor
    · rintro ⟨⟨id, i⟩, he, rfl⟩
      exact ⟨id, (hwf.inverse id i).1 (mem_entries.1 he)⟩
    · rintro ⟨id, hid⟩
      exact ⟨⟨id, i⟩, mem_entries.2 ((hwf.inverse id i).2 hid), rfl⟩
  have hnodup : b.reqIdToIndex.values.Nodup := by
    refine Nodup.map_on ?_ (Nodup.of_map _ b.reqIdToIndex.keys_nodup)
    rintro ⟨id, i⟩ he ⟨id', i'⟩ he' heq
    subst heq
    have hid := (hwf.inverse id i).1 (mem_entries.1 he)
    rw [(hwf.inverse id' i).1 (mem_entries.1 he')] at hid
    cases hid
    rfl
  refine (perm_ext_iff_of_nodup hnodup (nodup_range.filter _)).2 fun i => ?_
  rw [hmem, mem_filter, mem_range]
  refine ⟨fun h => ⟨?_, h⟩, fun h => h.2⟩
  obtain ⟨id, hid⟩ := isSome_iff_exists.1 h
  exact (List.getElem?_eq_some_iff.1 (idAt_eq_some.1 hid)).1

theorem numReqs_eq (hwf : b.WellFormed) :
    b.numReqs = ((range b.reqIds.length).filter fun i => (b.idAt i).isSome).length := by
  rw [← (perm_values hwf).length_eq]
  exact (length_map _).symm

/-- The removed rows are those without a request. -/
structure Holes (b : InputBatch) (removed : List ℕ) : Prop where
  nodup : removed.Nodup
  mem_iff : ∀ i, i ∈ removed ↔ i < b.reqIds.length ∧ b.idAt i = none

variable {removed : List ℕ}

theorem numReqs_add (hwf : b.WellFormed) (h : b.Holes removed) :
    b.numReqs + removed.length = b.reqIds.length := by
  have hperm : removed.Perm ((range b.reqIds.length).filter fun i => !(b.idAt i).isSome) := by
    refine (perm_ext_iff_of_nodup h.nodup (nodup_range.filter _)).2 fun i => ?_
    rw [h.mem_iff, mem_filter, mem_range]
    simp
  have hsum := length_eq_length_filter_add (l := range b.reqIds.length) fun i => (b.idAt i).isSome
  rw [length_range] at hsum
  rw [numReqs_eq hwf, hperm.length_eq]
  exact hsum.symm

/-- Where the rows with a request are those below a bound, the bound is their number. -/
theorem numReqs_eq_of_dense (hwf : b.WellFormed) {n : ℕ}
    (h : ∀ i, (b.idAt i).isSome ↔ i < n) (hn : n ≤ b.reqIds.length) : b.numReqs = n := by
  rw [numReqs_eq hwf]
  have hfilter : ((range b.reqIds.length).filter fun i => (b.idAt i).isSome).Perm (range n) := by
    refine (perm_ext_iff_of_nodup (nodup_range.filter _) nodup_range).2 fun i => ?_
    rw [mem_filter, mem_range, mem_range, h]
    omega
  rw [hfilter.length_eq, length_range]

/-! ### The moves -/

/-- The moves of the loop of `condense`, each from the last row to an empty row. -/
def loopMoves : List ℕ → ℕ → List (ℕ × ℕ)
  | [], _ => []
  | emptyIndex :: removed, last =>
    let lastReqIndex := skipRemoved (emptyIndex :: removed) last
    if lastReqIndex ≤ emptyIndex then []
    else (lastReqIndex, emptyIndex) :: loopMoves removed (lastReqIndex - 1)

/-- The moves of `condense`. -/
def condenseMoves (b : InputBatch) : List (ℕ × ℕ) :=
  let removed := b.batchUpdateBuilder.ensureRemovedSorted.removed
  loopMoves removed (b.numReqs + removed.length - 1)

theorem skipRemoved_spec (removed : List ℕ) : ∀ n, skipRemoved removed n ≤ n ∧
    (∀ i, skipRemoved removed n < i → i ≤ n → i ∈ removed) ∧
    (skipRemoved removed n ∈ removed → skipRemoved removed n = 0)
  | 0 => ⟨le_refl 0, fun i h h' => by unfold skipRemoved at h; omega, fun _ => rfl⟩
  | n + 1 => by
    obtain ⟨hle, hmem, hzero⟩ := skipRemoved_spec removed n
    unfold skipRemoved
    split_ifs with h
    · refine ⟨by omega, fun i hi hn => ?_, hzero⟩
      rcases lt_or_ge n i with hlt | hge
      · rwa [show i = n + 1 by omega]
      · exact hmem i hi hge
    · exact ⟨le_refl _, fun i hi hn => by omega, fun hmem => absurd hmem h⟩

theorem mem_loopMoves {m : ℕ × ℕ} : ∀ {removed : List ℕ} {last : ℕ},
    m ∈ loopMoves removed last → m.2 ∈ removed ∧ m.2 < m.1 ∧ m.1 ≤ last
  | [], _, h => absurd h not_mem_nil
  | e :: removed, last, h => by
    have hle := (skipRemoved_spec (e :: removed) last).1
    unfold loopMoves at h
    dsimp only at h
    split at h
    · exact absurd h not_mem_nil
    · next hlt =>
      rcases mem_cons.1 h with rfl | h
      · exact ⟨.head _, by omega, hle⟩
      · obtain ⟨hmem, hlt', hle'⟩ := mem_loopMoves h
        exact ⟨.tail _ hmem, hlt', by omega⟩

/-! ### The loop -/

/-- A batch with another list of removed rows. -/
def withRemoved (b : InputBatch) (removed : List ℕ) : InputBatch :=
  { b with batchUpdateBuilder := { b.batchUpdateBuilder with removed := removed } }

theorem WellFormed.withRemoved (h : b.WellFormed) (removed : List ℕ) :
    (b.withRemoved removed).WellFormed := ⟨h.inverse, h.length_outputs, h.clean⟩

theorem SameConfig.of_withRemoved {removed : List ℕ} (h : SameConfig (b.withRemoved removed) b') :
    SameConfig b b' := ⟨h.1, h.2, h.3, h.4, h.5⟩

/-- What holds in the loop: the rows without a request are the removed ones and those behind the last
row. -/
structure Gaps (b : InputBatch) (removed : List ℕ) (last : ℕ) : Prop where
  wellFormed : b.WellFormed
  removed_eq : b.batchUpdateBuilder.removed = removed
  sorted : removed.Pairwise (· < ·)
  last_lt : last < b.reqIds.length
  hole_iff : ∀ i, i < b.reqIds.length → (b.idAt i = none ↔ i ∈ removed ∨ last < i)
  lt : ∀ i ∈ removed, i < b.reqIds.length

theorem Gaps.move {e last : ℕ} (h : Gaps b (e :: removed) last)
    (hlt : e < skipRemoved (e :: removed) last)
    (hm : Moves (b.withRemoved removed) b' (skipRemoved (e :: removed) last) e) :
    Gaps b' removed (skipRemoved (e :: removed) last - 1) := by
  obtain ⟨hle, hmem, hzero⟩ := skipRemoved_spec (e :: removed) last
  generalize skipRemoved (e :: removed) last = l at *
  obtain ⟨hfirst, hsorted⟩ := pairwise_cons.1 h.sorted
  have hlength : b'.reqIds.length = b.reqIds.length := hm.length_reqIds
  refine ⟨hm.wellFormed, hm.removed, hsorted, ?_, fun i hi => ?_, fun i hi => ?_⟩
  · have := h.last_lt
    omega
  · rw [hlength] at hi
    have hidAt : b'.idAt i = if i = e then b.idAt l else if i = l then none else b.idAt i :=
      hm.idAt i
    have hl : b.idAt l ≠ none := fun hnone => by
      rcases (h.hole_iff l (by have := h.last_lt; omega)).1 hnone with hl | hl
      · have := hzero hl
        omega
      · omega
    rw [hidAt]
    have hhole := h.hole_iff i hi
    rw [mem_cons] at hhole
    by_cases hie : i = e
    · have hnot : e ∉ removed := fun hmem => absurd (hfirst e hmem) (lt_irrefl e)
      rw [if_pos hie, hie]
      exact ⟨fun h => absurd h hl, fun h => h.elim (fun h => absurd h hnot) fun h => by omega⟩
    · rw [if_neg hie]
      by_cases hil : i = l
      · rw [if_pos hil]
        exact ⟨fun _ => .inr (by omega), fun _ => rfl⟩
      · rw [if_neg hil, hhole]
        constructor
        · rintro ((hie' | hir) | hlast)
          · exact absurd hie' hie
          · exact .inl hir
          · exact .inr (by omega)
        · rintro (hir | hlast)
          · exact .inl (.inr hir)
          · rcases lt_or_ge last i with hlt | hge
            · exact .inr hlt
            · exact .inl (mem_cons.1 (hmem i (by omega) hge))
  · rw [hlength]
    exact h.lt i (.tail _ hi)

/-- A row behind the last row with a request is empty, and any other has a request, when the loop
ends. -/
theorem Gaps.dense {e last : ℕ} (h : Gaps b (e :: removed) last)
    (hle : skipRemoved (e :: removed) last ≤ e) {id k : ℕ} (hk : b.idAt k = some id) :
    ∀ i, (b.idAt i).isSome ↔ i < skipRemoved (e :: removed) last + 1 := by
  obtain ⟨hle', hmem, hzero⟩ := skipRemoved_spec (e :: removed) last
  generalize skipRemoved (e :: removed) last = l at *
  obtain ⟨hfirst, hsorted⟩ := pairwise_cons.1 h.sorted
  have hall : ∀ i ∈ e :: removed, l ≤ i := fun i hi => by
    rcases mem_cons.1 hi with rfl | hi
    · exact hle
    · exact le_trans hle (hfirst i hi).le
  have hlen : ∀ {i id}, b.idAt i = some id → i < b.reqIds.length := fun hi =>
    (List.getElem?_eq_some_iff.1 (idAt_eq_some.1 hi)).1
  -- the last row is not removed, since some row has a request
  have hl : l ∉ e :: removed := fun hl => by
    have hzero := hzero hl
    have hkl := hlen hk
    have hhole := (h.hole_iff k hkl).not.1 (by simp [hk])
    rcases Nat.eq_zero_or_pos k with rfl | hpos
    · exact hhole (.inl (hzero ▸ hl))
    · rcases lt_or_ge last k with hlt | hge
      · exact hhole (.inr hlt)
      · exact hhole (.inl (hmem k (by omega) hge))
  intro i
  constructor
  · intro hi
    obtain ⟨id', hid'⟩ := isSome_iff_exists.1 hi
    have hhole := (h.hole_iff i (hlen hid')).not.1 (by simp [hid'])
    by_contra hlt
    rcases lt_or_ge last i with hlt' | hge
    · exact hhole (.inr hlt')
    · exact hhole (.inl (hmem i (by omega) hge))
  · intro hi
    have hil : i < b.reqIds.length := by
      have := h.last_lt
      omega
    rw [isSome_iff_ne_none]
    refine fun hnone => ?_
    rcases (h.hole_iff i hil).1 hnone with hmem' | hlt
    · have := hall i hmem'
      exact hl ((show i = l by omega) ▸ hmem')
    · omega

/-- `P` is kept by the moves that are `Ok`, and a move stays `Ok` when other rows are moved. -/
structure KeptByMoves (P : InputBatch → Prop) (Ok : InputBatch → ℕ × ℕ → Prop) : Prop where
  frame : ∀ {c c' l e removed m}, Moves (withRemoved c removed) c' l e → m.1 ≠ l → m.1 ≠ e →
    m.2 ≠ l → m.2 ≠ e → Ok c m → Ok c' m
  step : ∀ {c c' l e removed}, c.batchUpdateBuilder.removed = e :: removed → l ∉ removed →
    e ∉ removed → e < l → c.idAt e = none → Moves (c.withRemoved removed) c' l e → Ok c (l, e) →
      P c → P c'

/-- An induction over the moves of the loop; no row is moved twice. -/
theorem condenseLoop_eq {P : InputBatch → Prop} {Ok : InputBatch → ℕ × ℕ → Prop}
    (hkept : KeptByMoves P Ok) :
    ∀ {removed : List ℕ} {b b' : InputBatch} {last : ℕ}, condenseLoop removed b last = .ok b' →
      Gaps b removed last → b.numReqs ≠ 0 → (∀ m ∈ loopMoves removed last, Ok b m) → P b →
      P b' ∧ b'.WellFormed ∧ b'.numReqs = b.numReqs ∧ b'.reqIds.length = b.reqIds.length ∧
        ∃ n, n ≤ b'.reqIds.length ∧ ∀ i, (b'.idAt i).isSome ↔ i < n
  | [], b, b', last, h, hg, _, _, hP => by
    cases h
    refine ⟨hP, hg.wellFormed, rfl, rfl, last + 1, hg.last_lt, fun i => ?_⟩
    rw [isSome_iff_ne_none, Nat.lt_succ_iff, ← not_lt]
    rcases lt_or_ge i b.reqIds.length with hi | hi
    · simpa using (hg.hole_iff i hi).not
    · have hnone : b.idAt i = none := by
        unfold idAt
        rw [getElem?_eq_none hi]
        rfl
      have := hg.last_lt
      exact ⟨fun h => absurd hnone h, fun h => by omega⟩
  | e :: removed, b, b', last, h, hg, hnum, hok, hP => by
    unfold condenseLoop at h
    dsimp only at h
    split at h
    · next hle =>
      cases h
      have hne : (range b.reqIds.length).filter (fun i => (b.idAt i).isSome) ≠ [] := fun hnil =>
        hnum (by rw [numReqs_eq hg.wellFormed, hnil]; rfl)
      obtain ⟨k, hk⟩ := exists_mem_of_ne_nil _ hne
      obtain ⟨id, hid⟩ := isSome_iff_exists.1 (mem_filter.1 hk).2
      have hlt := (skipRemoved_spec (e :: removed) last).1
      have := hg.last_lt
      exact ⟨hP, hg.wellFormed, rfl, rfl, _, by omega, hg.dense hle hid⟩
    · next hlt =>
      obtain ⟨b₁, hmove, h⟩ := bind_ok.1 h
      have hlt : e < skipRemoved (e :: removed) last := Nat.lt_of_not_le hlt
      have he : b.idAt e = none := (hg.hole_iff e (hg.lt e (.head _))).2 (.inl (.head _))
      obtain ⟨hm, -⟩ := moveRequest_eq (hg.wellFormed.withRemoved removed) hlt he hmove
      have hg' := hg.move hlt hm
      have hfirst := (pairwise_cons.1 hg.sorted).1
      have hl : skipRemoved (e :: removed) last ∉ removed := fun hmem => by
        have hzero := (skipRemoved_spec (e :: removed) last).2.2 (.tail _ hmem)
        omega
      have he' : e ∉ removed := fun hmem => absurd (hfirst e hmem) (lt_irrefl e)
      have hmoves : loopMoves (e :: removed) last = (skipRemoved (e :: removed) last, e) ::
          loopMoves removed (skipRemoved (e :: removed) last - 1) := by
        exact if_neg (not_le.2 hlt)
      rw [hmoves] at hok
      have hok' : ∀ m ∈ loopMoves removed (skipRemoved (e :: removed) last - 1), Ok b₁ m := by
        intro m hmem
        obtain ⟨hmem', hlt', hle'⟩ := mem_loopMoves hmem
        have := hfirst _ hmem'
        exact hkept.frame hm (by omega) (by omega) (by omega) (by omega) (hok m (.tail _ hmem))
      have hP' := hkept.step hg.removed_eq hl he' hlt he hm (hok _ (.head _)) hP
      obtain ⟨hP'', hwf, hnum', hlen, hdense⟩ := condenseLoop_eq hkept h hg'
        (by rwa [hm.numReqs]) hok' hP'
      exact ⟨hP'', hwf, hnum'.trans hm.numReqs, hlen.trans hm.length_reqIds, hdense⟩

/-- A batch with the same rows, in another order of the removed rows or without empty rows at the
end. -/
structure SameRows (b b' : InputBatch) : Prop extends SameOptions b b' where
  row : ∀ k, (b.idAt k).isSome → b'.row k = b.row k
  idAt : ∀ k, b'.idAt k = b.idAt k
  wellFormed : b'.WellFormed
  numReqs : b'.numReqs = b.numReqs
  embeds : b'.reqPromptEmbeds = b.reqPromptEmbeds
  removed : ∀ i, i ∈ b'.batchUpdateBuilder.removed ↔ i ∈ b.batchUpdateBuilder.removed
  added : b'.batchUpdateBuilder.added = b.batchUpdateBuilder.added
  moved : b'.batchUpdateBuilder.moved = b.batchUpdateBuilder.moved
  mask : b'.allowedTokenIdsMaskCpuTensor = b.allowedTokenIdsMaskCpuTensor

theorem mem_ensureRemovedSorted (builder : BatchUpdateBuilder) (i : ℕ) :
    i ∈ builder.ensureRemovedSorted.removed ↔ i ∈ builder.removed := by
  unfold BatchUpdateBuilder.ensureRemovedSorted
  split_ifs
  · rfl
  · exact mem_insertionSort _

theorem sorted_ensureRemovedSorted {builder : BatchUpdateBuilder} (hnodup : builder.removed.Nodup)
    (hsorted : builder.isRemovedSorted = true → builder.removed.Pairwise (· < ·)) :
    builder.ensureRemovedSorted.removed.Pairwise (· < ·) := by
  unfold BatchUpdateBuilder.ensureRemovedSorted
  split_ifs with h
  · exact hsorted h
  · have hle := pairwise_insertionSort (· ≤ ·) builder.removed
    have hnodup' : (builder.removed.insertionSort (· ≤ ·)).Nodup :=
      (perm_insertionSort (· ≤ ·) builder.removed).nodup_iff.2 hnodup
    exact (hle.and hnodup').imp fun h => lt_of_le_of_ne h.1 h.2

theorem sameRows_sort (hwf : b.WellFormed) :
    SameRows b { b with batchUpdateBuilder := b.batchUpdateBuilder.ensureRemovedSorted } := by
  have hbuilder : b.batchUpdateBuilder.ensureRemovedSorted.added = b.batchUpdateBuilder.added ∧
      b.batchUpdateBuilder.ensureRemovedSorted.moved = b.batchUpdateBuilder.moved := by
    unfold BatchUpdateBuilder.ensureRemovedSorted
    split_ifs <;> exact ⟨rfl, rfl⟩
  exact ⟨⟨⟨rfl, rfl, rfl, rfl, rfl⟩, rfl, rfl, rfl, rfl, rfl, rfl⟩, fun _ _ => rfl, fun _ => rfl,
    ⟨hwf.inverse, hwf.length_outputs, hwf.clean⟩, rfl, rfl, mem_ensureRemovedSorted _, hbuilder.1,
    hbuilder.2, rfl⟩

theorem sameRows_take (hwf : b.WellFormed) (n : ℕ) (specs : List (List ℤ))
    (h : ∀ i, (b.idAt i).isSome → i < n) : SameRows b { b with
      reqIds := b.reqIds.take n
      reqOutputTokenIds := b.reqOutputTokenIds.take n
      specTokenIds := specs } := by
  have hidAt : ∀ k, ((b.reqIds.take n)[k]?).join = b.idAt k := by
    intro k
    by_cases hk : k < n
    · rw [getElem?_take_of_lt hk, idAt]
    · rw [getElem?_take, if_neg hk]
      have hnone : b.idAt k = none := by
        rw [← not_isSome_iff_eq_none]
        exact fun hsome => hk (h k hsome)
      rw [hnone]
      rfl
  refine ⟨⟨⟨rfl, rfl, rfl, rfl, rfl⟩, rfl, rfl, rfl, rfl, rfl, rfl⟩, fun k hk => ?_, hidAt,
    ⟨fun id i => (hwf.inverse id i).trans (by rw [← hidAt]; rfl), ?_, fun hp i hi => ?_⟩, rfl, rfl,
    fun _ => Iff.rfl, rfl, rfl, rfl⟩
  · refine Row.ext ?_ rfl rfl rfl rfl rfl rfl rfl
    show ((b.reqOutputTokenIds.take n)[k]?).join = _
    rw [getElem?_take_of_lt (h k hk)]
    rfl
  · show (b.reqOutputTokenIds.take n).length = (b.reqIds.take n).length
    rw [length_take, length_take, hwf.length_outputs]
  · exact hwf.clean hp i ((hidAt i).symm.trans hi)

theorem idAt_eq_none_of_numReqs_eq_zero (hwf : b.WellFormed) (h : b.numReqs = 0) (i : ℕ) :
    b.idAt i = none := by
  by_contra hne
  obtain ⟨id, hid⟩ := ne_none_iff_exists'.1 hne
  have hmem : (⟨id, i⟩ : Sigma fun _ : ℕ => ℕ) ∈ b.reqIdToIndex.entries :=
    mem_entries.2 ((hwf.inverse id i).2 hid)
  rw [eq_nil_of_length_eq_zero h] at hmem
  exact absurd hmem not_mem_nil

/-- After `condense` there is no gap, and what the moves preserve is preserved. -/
theorem condense_eq (P : InputBatch → Prop) (Ok : InputBatch → ℕ × ℕ → Prop)
    (hkept : KeptByMoves P Ok)
    (hsame : ∀ {c c'}, SameRows c c' → P c → P c') (hwf : b.WellFormed)
    (hholes : b.Holes b.batchUpdateBuilder.removed)
    (hsorted : b.batchUpdateBuilder.isRemovedSorted = true →
      b.batchUpdateBuilder.removed.Pairwise (· < ·))
    (hok : ∀ m ∈ b.condenseMoves,
      Ok { b with batchUpdateBuilder := b.batchUpdateBuilder.ensureRemovedSorted } m)
    (hP : P b) (h : b.condense = .ok b') :
    P b' ∧ b'.WellFormed ∧ ∀ i, i < b'.reqIds.length → (b'.idAt i).isSome := by
  have hsort := sameRows_sort hwf
  have hP' := hsame hsort hP
  unfold condense at h
  have hmem := mem_ensureRemovedSorted b.batchUpdateBuilder
  have hs := sorted_ensureRemovedSorted hholes.nodup hsorted
  -- the requests and the gaps fill the list of ids
  have hnum : b.numReqs + b.batchUpdateBuilder.ensureRemovedSorted.removed.length =
      b.reqIds.length :=
    numReqs_add hwf ⟨hs.imp ne_of_lt, fun i => (hmem i).trans (hholes.mem_iff i)⟩
  have hhole : ∀ i, i < b.reqIds.length →
      (b.idAt i = none ↔ i ∈ b.batchUpdateBuilder.ensureRemovedSorted.removed) := fun i hi => by
    rw [hmem, hholes.mem_iff]
    exact ⟨fun h => ⟨hi, h⟩, fun h => h.2⟩
  dsimp only at h hok
  split at h
  · next hnil =>
    cases h
    refine ⟨hP', hsort.wellFormed, fun i hi => ?_⟩
    rw [isSome_iff_ne_none]
    intro hnone
    have hmem := (hhole i hi).1 hnone
    rw [hnil] at hmem
    exact absurd hmem not_mem_nil
  · next hne =>
    have hpos := length_pos_iff.2 hne
    split at h
    · next hzero =>
      cases h
      have hnone := idAt_eq_none_of_numReqs_eq_zero hsort.wellFormed hzero
      have hsame' := sameRows_take hsort.wellFormed 0 [] fun i hi => by
        rw [hnone] at hi
        cases hi
      exact ⟨hsame hsame' hP', hsame'.wellFormed, fun i hi => absurd hi (Nat.not_lt_zero i)⟩
    · next hzero =>
      obtain ⟨b₁, hloop, h⟩ := bind_ok.1 h
      cases h
      have hgaps : Gaps { b with batchUpdateBuilder := b.batchUpdateBuilder.ensureRemovedSorted }
          b.batchUpdateBuilder.ensureRemovedSorted.removed
          (b.numReqs + b.batchUpdateBuilder.ensureRemovedSorted.removed.length - 1) := by
        refine ⟨hsort.wellFormed, rfl, hs, ?_, fun i hi => ?_, fun i hi => ?_⟩
        · show _ < b.reqIds.length
          omega
        · change i < b.reqIds.length at hi
          refine (hhole i hi).trans ⟨.inl, fun h => h.elim id fun h => ?_⟩
          omega
        · exact ((hholes.mem_iff i).1 ((hmem i).1 hi)).1
      obtain ⟨hP₁, hwf₁, hnum₁, hlen₁, n, hn, hdense⟩ :=
        condenseLoop_eq hkept hloop hgaps hzero hok hP'
      have hnn : b.numReqs = n := by
        have := numReqs_eq_of_dense hwf₁ hdense hn
        exact hnum₁.symm.trans this
      have hsame' := sameRows_take hwf₁ n (b₁.specTokenIds.take n) fun i hi => (hdense i).1 hi
      have hnn' : numReqs { b with
        batchUpdateBuilder := b.batchUpdateBuilder.ensureRemovedSorted } = n := hnn
      rw [hnn']
      refine ⟨hsame hsame' hP₁, hsame'.wellFormed, fun i hi => ?_⟩
      rw [hsame'.idAt, hdense]
      exact lt_of_lt_of_le hi (length_take_le _ _)

end InputBatch

end Worker

end LoptVllm
