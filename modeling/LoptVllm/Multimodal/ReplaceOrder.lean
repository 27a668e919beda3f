import LoptVllm.Multimodal.Placeholders

/-!
# Which occurrences are replaced

This is said here for a prompt and its updates, without the loop.
-/

namespace LoptVllm.Multimodal

open List Option Prod Or MatchToApply

variable (encode : String → List ℕ)

/-- The next target occurrence of an item, from `prev` on. It is the first one for the first of the
updates of the item which occurs at all. -/
structure Candidate (prompt : List ℕ) (updates : MultiModalPromptUpdates) (prev : ℕ)
    (a : MatchToApply) : Prop where
  update : ∃ us, (a.modality, a.itemIdx, us) ∈ itemsOf updates ∧ us[a.updateIdx]? = some a.update ∧
    ∀ j u, j < a.updateIdx → us[j]? = some u → (u.iterMatches encode prompt prev).head? = none
  first : (a.update.iterMatches encode prompt prev).head? = some (a.startIdx, a.endIdx)

/-- The order of the matches: by place, and by item at the same place. -/
def MatchToApply.Before (a b : MatchToApply) : Prop :=
  a.startIdx < b.startIdx ∨ a.startIdx = b.startIdx ∧ (a.endIdx < b.endIdx ∨
    a.endIdx = b.endIdx ∧ (a.modality < b.modality ∨ a.modality = b.modality ∧ a.itemIdx ≤ b.itemIdx))

/-- The earliest candidate of the items that are not replaced yet. -/
structure Next (prompt : List ℕ) (updates : MultiModalPromptUpdates) (prev : ℕ)
    (replaced : List (ℕ × ℕ)) (a : MatchToApply) : Prop where
  candidate : Candidate encode prompt updates prev a
  new : (a.modality, a.itemIdx) ∉ replaced
  earliest : ∀ b, Candidate encode prompt updates prev b → (b.modality, b.itemIdx) ∉ replaced →
    a.Before b

/-- Each match is the earliest one after the match before it. -/
def Earliest (prompt : List ℕ) (updates : MultiModalPromptUpdates) :
    ℕ → List (ℕ × ℕ) → List MatchToApply → Prop
  | _, _, [] => True
  | prev, replaced, a :: as => Next encode prompt updates prev replaced a ∧
    Earliest prompt updates a.endIdx (replaced ++ [(a.modality, a.itemIdx)]) as

/-- The target occurrences that are replaced, one for each item. -/
structure Replacements (prompt : List ℕ) (updates : MultiModalPromptUpdates)
    (as : List MatchToApply) : Prop where
  earliest : Earliest encode prompt updates 0 [] as
  all : ∀ item ∈ itemsOf updates, (item.1, item.2.1) ∈ as.map fun a => (a.modality, a.itemIdx)

variable {encode} {prompt : List ℕ} {updates : MultiModalPromptUpdates}

/-! ### Uniqueness -/

variable {prev : ℕ} {a : MatchToApply}

theorem Candidate.unique {b : MatchToApply} (ha : Candidate encode prompt updates prev a)
    (hb : Candidate encode prompt updates prev b) (hmodality : a.modality = b.modality)
    (hitem : a.itemIdx = b.itemIdx) : a = b := by
  obtain ⟨⟨us, hmem, hupdate, hbefore⟩, hfirst⟩ := ha
  obtain ⟨⟨us', hmem', hupdate', hbefore'⟩, hfirst'⟩ := hb
  obtain ⟨items, hm, hi⟩ := mem_itemsOf.1 hmem
  obtain ⟨items', hm', hi'⟩ := mem_itemsOf.1 hmem'
  rw [hmodality, hm', some.injEq] at hm
  rw [hitem, ← hm, hi', some.injEq] at hi
  have hidx : a.updateIdx = b.updateIdx := by
    rcases lt_trichotomy a.updateIdx b.updateIdx with hlt | heq | hlt
    · rw [hbefore' _ _ hlt (hi ▸ hupdate)] at hfirst
      cases hfirst
    · exact heq
    · rw [hbefore _ _ hlt (hi ▸ hupdate')] at hfirst'
      cases hfirst'
  obtain ⟨_, _, _, _, _, _⟩ := a
  obtain ⟨_, _, _, _, _, _⟩ := b
  simp_all

variable {replaced : List (ℕ × ℕ)}

theorem Next.unique {b : MatchToApply} (ha : Next encode prompt updates prev replaced a)
    (hb : Next encode prompt updates prev replaced b) : a = b := by
  have hab := ha.earliest b hb.candidate hb.new
  have hba := hb.earliest a ha.candidate ha.new
  unfold Before at hab hba
  exact ha.candidate.unique hb.candidate (by omega) (by omega)

/-- The next candidate is of an item that is not replaced. -/
theorem Next.not_all (ha : Next encode prompt updates prev replaced a) :
    ¬ ∀ item ∈ itemsOf updates, (item.1, item.2.1) ∈ replaced := by
  intro hall
  obtain ⟨us, hmem, -⟩ := ha.candidate.update
  exact ha.new (hall _ hmem)

variable {as : List MatchToApply} {bs : List MatchToApply}

theorem Earliest.unique : ∀ {prev : ℕ} {replaced : List (ℕ × ℕ)},
    Earliest encode prompt updates prev replaced as → Earliest encode prompt updates prev replaced bs →
    (∀ item ∈ itemsOf updates, (item.1, item.2.1) ∈
      replaced ++ as.map fun a => (a.modality, a.itemIdx)) →
    (∀ item ∈ itemsOf updates, (item.1, item.2.1) ∈
      replaced ++ bs.map fun b => (b.modality, b.itemIdx)) → as = bs := by
  induction as generalizing bs with
  | nil =>
    intro prev replaced _ hbs hall _
    cases bs with
    | nil => rfl
    | cons b bs => exact absurd (by simpa using hall) hbs.1.not_all
  | cons a as ih =>
    intro prev replaced has hbs hall hall'
    cases bs with
    | nil => exact absurd (by simpa using hall') has.1.not_all
    | cons b bs =>
      obtain rfl := has.1.unique hbs.1
      refine congrArg (a :: ·) (ih has.2 hbs.2 ?_ ?_)
      · simpa using hall
      · simpa using hall'

/-- There is only one way to replace all items. -/
theorem Replacements.unique (has : Replacements encode prompt updates as)
    (hbs : Replacements encode prompt updates bs) : as = bs :=
  has.earliest.unique hbs.earliest has.all hbs.all

theorem Earliest.append:
    ∀ {prev : ℕ} {replaced : List (ℕ × ℕ)}, Earliest encode prompt updates prev replaced as →
      Next encode prompt updates (lastEnd prev as)
        (replaced ++ as.map fun a => (a.modality, a.itemIdx)) a →
      Earliest encode prompt updates prev replaced (as ++ [a]) := by
  induction as with
  | nil =>
    intro prev replaced _ ha
    rw [map_nil, append_nil] at ha
    exact ⟨ha, trivial⟩
  | cons b bs ih =>
    intro prev replaced h ha
    refine ⟨h.1, ih h.2 ?_⟩
    rwa [map_cons, append_cons] at ha

/-! ### The items -/

theorem pairwise_zipIdx {α : Type} (l : List α) : l.zipIdx.Pairwise fun x y => x.2 < y.2 := by
  have h := pairwise_lt_range' (s := 0) (n := l.length)
  rw [← zipIdx_map_snd, pairwise_map] at h
  exact h

theorem pairwise_itemsOf (updates : MultiModalPromptUpdates) :
    (itemsOf updates).Pairwise fun x y => x.1 < y.1 ∨ x.1 = y.1 ∧ x.2.1 < y.2.1 := by
  refine pairwise_flatMap.2 ⟨fun x _ => ?_, (pairwise_zipIdx updates).imp fun hlt x hx y hy => ?_⟩
  · exact pairwise_map.2 ((pairwise_zipIdx x.1).imp fun hlt => inr ⟨rfl, hlt⟩)
  · obtain ⟨_, -, rfl⟩ := mem_map.1 hx
    obtain ⟨_, -, rfl⟩ := mem_map.1 hy
    exact inl hlt

/-! ### The next match -/

section

variable {prev : ℕ} {result : ℕ → ℕ → Option ℕ} {modality itemIdx : ℕ}

/-- All updates are of the same mode, so no match is skipped. -/
theorem findItemMatch_eq {mode : Option UpdateMode}
    (hmode : mode = none ∨ mode = some .replace) {us : List (ResolvedPromptUpdate × ℕ)}
    (hus : ∀ u ∈ us, u.1.mode = .replace) :
    findItemMatch encode prompt prev modality itemIdx mode us = us.findSome? fun (u, i) =>
      (u.iterMatches encode prompt prev).head?.map fun m => ⟨modality, itemIdx, m.1, m.2, i, u⟩ := by
  induction us with
  | nil => rfl
  | cons u us ih =>
    obtain ⟨update, updateIdx⟩ := u
    have ih := ih fun u hu => hus u (.tail _ hu)
    rw [findSome?_cons, findItemMatch]
    simp only
    cases (update.iterMatches encode prompt prev).head? with
    | none => exact ih
    | some m =>
      have hsame : mode = none ∨ mode = some update.mode := by
        rw [hus _ mem_cons_self]
        exact hmode
      exact if_pos hsame

variable {a : MatchToApply}

section

variable (hupdates : Replaces encode updates)

include hupdates

theorem findItemMatch_eq_some {us : List ResolvedPromptUpdate}
    (hmem : (modality, itemIdx, us) ∈ itemsOf updates)
    {mode : Option UpdateMode} (hmode : mode = none ∨ mode = some .replace) :
    findItemMatch encode prompt prev modality itemIdx mode us.zipIdx = some a ↔
      (a.modality = modality ∧ a.itemIdx = itemIdx) ∧ Candidate encode prompt updates prev a := by
  obtain ⟨items, hm, hi⟩ := mem_itemsOf.1 hmem
  rw [findItemMatch_eq hmode fun u hu => (hupdates _ (mem_of_getElem? hm) _
    (mem_of_getElem? hi) _ (mem_of_getElem? (mem_zipIdx_iff_getElem?.1 hu))).mode,
    findSome?_zipIdx]
  simp only [Nat.zero_add, map_eq_some_iff, map_eq_none_iff]
  constructor
  · rintro ⟨k, u, hu, ⟨m, hfirst, rfl⟩, hbefore⟩
    exact ⟨⟨rfl, rfl⟩, ⟨us, hmem, hu, hbefore⟩, hfirst⟩
  · rintro ⟨⟨rfl, rfl⟩, ⟨us', hmem', hu, hbefore⟩, hfirst⟩
    obtain ⟨items', hm', hi'⟩ := mem_itemsOf.1 hmem'
    rw [hm, some.injEq] at hm'
    rw [← hm', hi, some.injEq] at hi'
    subst hi'
    exact ⟨a.updateIdx, a.update, hu, ⟨_, hfirst, rfl⟩, hbefore⟩

theorem findAllMatches_eq
    {items : List (ℕ × ℕ × List ResolvedPromptUpdate)} (hitems : ∀ item ∈ items, item ∈ itemsOf updates)
    {mode : Option UpdateMode} (hmode : mode = none ∨ mode = some .replace) :
    (findAllMatches encode prompt prev result mode items).2 = items.filterMap fun item =>
      if (result item.1 item.2.1).isSome then none
      else findItemMatch encode prompt prev item.1 item.2.1 none item.2.2.zipIdx := by
  induction items generalizing mode with
  | nil => rfl
  | cons item items ih =>
    obtain ⟨modality, itemIdx, us⟩ := item
    have ih := fun {mode} => @ih (fun item hmem => hitems item (.tail _ hmem)) mode
    have hmem := hitems _ (.head _)
    have hsame : findItemMatch encode prompt prev modality itemIdx mode us.zipIdx =
        findItemMatch encode prompt prev modality itemIdx none us.zipIdx :=
      ext fun a => by
        rw [findItemMatch_eq_some hupdates hmem hmode,
          findItemMatch_eq_some hupdates hmem (inl rfl)]
    rw [filterMap_cons]
    unfold findAllMatches
    split_ifs with hfound
    · exact ih hmode
    · rw [hsame]
      cases hmatch : findItemMatch encode prompt prev modality itemIdx none us.zipIdx with
      | none => exact ih hmode
      | some a =>
        obtain ⟨-, hcandidate⟩ := (findItemMatch_eq_some hupdates hmem (inl rfl)).1 hmatch
        obtain ⟨us', hmem', hu, -⟩ := hcandidate.update
        obtain ⟨items', hm, hi⟩ := mem_itemsOf.1 hmem'
        have hreplace := (hupdates _ (mem_of_getElem? hm) _ (mem_of_getElem? hi) _
          (mem_of_getElem? hu)).mode
        exact congrArg (a :: ·) (ih (inr (congrArg some hreplace)))

/-- The matches that are found are the candidates of the items that are not found yet. -/
theorem mem_findAllMatches :
    a ∈ (findAllMatches encode prompt prev result none (itemsOf updates)).2 ↔
      Candidate encode prompt updates prev a ∧ result a.modality a.itemIdx = none := by
  rw [findAllMatches_eq hupdates (fun _ h => h) (inl rfl), mem_filterMap]
  constructor
  · rintro ⟨⟨modality, itemIdx, us⟩, hmem, hmatch⟩
    split_ifs at hmatch with hfound
    obtain ⟨⟨rfl, rfl⟩, hcandidate⟩ := (findItemMatch_eq_some hupdates hmem (inl rfl)).1 hmatch
    exact ⟨hcandidate, by simpa using hfound⟩
  · rintro ⟨hcandidate, hnone⟩
    obtain ⟨us, hmem, -⟩ := hcandidate.update
    refine ⟨(a.modality, a.itemIdx, us), hmem, ?_⟩
    rw [if_neg (by rw [hnone]; exact Bool.false_ne_true)]
    exact (findItemMatch_eq_some hupdates hmem (inl rfl)).2 ⟨⟨rfl, rfl⟩, hcandidate⟩

theorem pairwise_findAllMatches :
    (findAllMatches encode prompt prev result none (itemsOf updates)).2.Pairwise fun a b =>
      a.modality < b.modality ∨ a.modality = b.modality ∧ a.itemIdx < b.itemIdx := by
  rw [findAllMatches_eq hupdates (fun _ h => h) (inl rfl), pairwise_filterMap]
  refine (pairwise_itemsOf updates).imp_of_mem fun hx hy hlt a ha b hb => ?_
  split_ifs at ha
  split_ifs at hb
  obtain ⟨⟨hm, hi⟩, -⟩ := (findItemMatch_eq_some hupdates hx (inl rfl)).1 ha
  obtain ⟨⟨hm', hi'⟩, -⟩ := (findItemMatch_eq_some hupdates hy (inl rfl)).1 hb
  rwa [hm, hi, hm', hi']

end

/-- The sort is stable: at the same place, the match of the first item comes first. -/
theorem before_of_insertionSort {ms : List MatchToApply} (hms : ms.Pairwise fun a b =>
      a.modality < b.modality ∨ a.modality = b.modality ∧ a.itemIdx < b.itemIdx)
    {as : List MatchToApply} (h : ms.insertionSort le = a :: as) : ∀ b ∈ ms, a.Before b := by
  induction ms generalizing a as with
  | nil => cases h
  | cons x xs ih =>
    obtain ⟨hx, hxs⟩ := pairwise_cons.1 hms
    rw [insertionSort_cons] at h
    have hrefl : ∀ c : MatchToApply, c.Before c := fun c => by
      unfold Before
      omega
    cases hsort : xs.insertionSort le with
    | nil =>
      rw [hsort] at h
      obtain ⟨rfl, -⟩ := cons.inj h
      have hnil : xs = [] := by
        have hperm := perm_insertionSort le xs
        rw [hsort] at hperm
        exact hperm.symm.eq_nil
      intro b hb
      rw [hnil] at hb
      rw [mem_singleton.1 hb]
      exact hrefl x
    | cons c cs =>
      rw [hsort, orderedInsert_cons] at h
      have hc := ih hxs hsort
      split_ifs at h with hle
      all_goals obtain ⟨rfl, -⟩ := cons.inj h
      · intro b hb
        rcases mem_cons.1 hb with rfl | hb
        · exact hrefl b
        · have hcb := hc b hb
          have hxb := hx b hb
          unfold Before at hcb ⊢
          unfold le at hle
          omega
      · intro b hb
        rcases mem_cons.1 hb with rfl | hb
        · unfold le at hle
          unfold Before
          omega
        · exact hc b hb

/-- The match that is applied is the earliest one. -/
theorem findMatches_next (hupdates : Replaces encode updates)
    (hreplaced : ∀ modality itemIdx, (result modality itemIdx).isSome ↔ (modality, itemIdx) ∈ replaced)
    (h : findMatches encode prompt updates prev result = (some .replace, [a])) :
    Next encode prompt updates prev replaced a := by
  set found := findAllMatches encode prompt prev result none (itemsOf updates)
  have hnot : ∀ b : MatchToApply, (b.modality, b.itemIdx) ∉ replaced ↔
      result b.modality b.itemIdx = none := fun b => by
    rw [← hreplaced, not_isSome_iff_eq_none]
  have hsort : ∃ as, found.2.insertionSort le = a :: as := by
    obtain ⟨hgood, -, -⟩ := findAllMatches_spec hupdates prompt prev result (fun _ h => h) none
    obtain ⟨hmode, hone⟩ := mk.inj h
    simp only [hmode] at hone
    have hperm := perm_insertionSort le found.2
    rw [(oneNonEmpty_of_nonEmpty fun b hb => (hgood b (hperm.mem_iff.1 hb)).occurs.lt.ne).2] at hone
    cases hms : found.2.insertionSort le with
    | nil =>
      rw [hms] at hone
      cases hone
    | cons b as =>
      rw [hms] at hone
      obtain rfl := (cons.inj hone).1
      exact ⟨as, rfl⟩
  obtain ⟨as, hsort⟩ := hsort
  have hmem : a ∈ found.2 := (perm_insertionSort le _).mem_iff.1 (hsort ▸ mem_cons_self)
  obtain ⟨hcandidate, hnone⟩ := (mem_findAllMatches hupdates).1 hmem
  exact ⟨hcandidate, (hnot a).2 hnone, fun b hb hb' =>
    before_of_insertionSort (pairwise_findAllMatches hupdates) hsort b
      ((mem_findAllMatches hupdates).2 ⟨hb, (hnot b).1 hb'⟩)⟩

end

/-! ### The loop -/

variable {result : ℕ → ℕ → Option ℕ}

theorem Applied.isSome_iff (h : Applied prompt updates result as)
    (modality itemIdx : ℕ) : (result modality itemIdx).isSome ↔
      (modality, itemIdx) ∈ as.map fun a => (a.modality, a.itemIdx) := by
  refine ⟨h.all modality itemIdx, fun hmem => ?_⟩
  obtain ⟨a, ha, heq⟩ := mem_map.1 hmem
  obtain ⟨rfl, rfl⟩ := mk.inj heq
  rw [h.found a ha]
  rfl

/-- The matches that are applied are the earliest ones. -/
theorem applyMatches_replacements (hupdates : Replaces encode updates)
    (hall : allItemsFound updates (applyTokenMatches encode prompt updates).2 = true) :
    Replacements encode prompt updates (applyMatches encode prompt updates).applied := by
  have hinvariant := applyMatches_induction hupdates prompt (P := fun s =>
      ApplyOk encode prompt updates s ∧ Earliest encode prompt updates 0 [] s.applied)
    ⟨⟨rfl, rfl, trivial, nofun, nodup_nil, nofun, nofun⟩, trivial⟩ ?_
  · exact ⟨hinvariant.2, fun item hmem =>
      hinvariant.1.applied.all _ _ (allItemsFound_iff.1 hall _ _ _ hmem)⟩
  · rintro s a ⟨hs, h⟩ heq ha
    have hnext := findMatches_next hupdates hs.applied.isSome_iff heq
    rw [hs.prevEndIdx] at hnext
    exact ⟨hs.applyMatch ha, h.append hnext⟩

theorem nodup_itemsOf (updates : MultiModalPromptUpdates) :
    ((itemsOf updates).map fun item => (item.1, item.2.1)).Nodup := by
  refine pairwise_map.2 ((pairwise_itemsOf updates).imp fun hlt heq => ?_)
  obtain ⟨hm, hi⟩ := mk.inj heq
  omega

theorem Applied.subset (h : Applied prompt updates result as) : (as.map fun a => (a.modality, a.itemIdx)) ⊆
      (itemsOf updates).map fun item => (item.1, item.2.1) := by
  intro x hx
  obtain ⟨a, ha, rfl⟩ := mem_map.1 hx
  obtain ⟨us, hmem, -⟩ := h.update a ha
  exact mem_map.2 ⟨_, hmem, rfl⟩

end LoptVllm.Multimodal
