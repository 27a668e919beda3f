import LoptVllm.Multimodal.Replacing

/-!
# Where the scan finds placeholders
-/

namespace LoptVllm.Multimodal

open List Option Function Prod Nat

variable {encode : String → List ℕ}

/-! ### Scanning -/

section

variable {new : List ℕ} {matched : MultiModalPromptUpdates}

theorem findSome?_zipIdx {α γ : Type} {l : List α} {f : α × ℕ → Option γ} {c : γ} {n : ℕ} :
    (l.zipIdx n).findSome? f = some c ↔ ∃ k x, l[k]? = some x ∧ f (x, n + k) = some c ∧
      ∀ j y, j < k → l[j]? = some y → f (y, n + j) = none := by
  induction l generalizing n with
  | nil => simp
  | cons a l ih =>
    rw [zipIdx_cons, findSome?_cons]
    cases ha : f (a, n) with
    | some c' =>
      simp only [some.injEq]
      constructor
      · rintro rfl
        exact ⟨0, a, rfl, ha, fun j y hj => absurd hj (not_lt_zero j)⟩
      · rintro ⟨k, x, hx, hf, hbefore⟩
        cases k with
        | zero =>
          cases hx
          exact some.inj (ha.symm.trans hf)
        | succ k =>
          have := hbefore 0 a (succ_pos k) rfl
          rw [Nat.add_zero, ha] at this
          cases this
    | none =>
      simp only [ih]
      constructor
      · rintro ⟨k, x, hx, hf, hbefore⟩
        refine ⟨k + 1, x, hx, by rw [← hf, Nat.add_right_comm, Nat.add_assoc], fun j y hj hy => ?_⟩
        cases j with
        | zero =>
          cases hy
          exact ha
        | succ j =>
          have := hbefore j y (lt_of_succ_lt_succ hj) hy
          rwa [Nat.add_right_comm, Nat.add_assoc] at this
      · rintro ⟨k, x, hx, hf, hbefore⟩
        cases k with
        | zero =>
          cases hx
          rw [Nat.add_zero, ha] at hf
          cases hf
        | succ k =>
          refine ⟨k, x, hx, by rw [← hf, Nat.add_right_comm, Nat.add_assoc], fun j y hj hy => ?_⟩
          have := hbefore (j + 1) y (succ_lt_succ hj) hy
          rwa [← Nat.add_assoc, Nat.add_right_comm] at this

/-- The rest of the scan, if there are items to find. -/
def scan (encode : String → List ℕ) (new : List ℕ) (matched : MultiModalPromptUpdates)
    (fuel pos : ℕ) (idx : ℕ → ℕ) : List PlaceholderFeaturesInfo :=
  if allCounted matched idx then [] else iterPlaceholdersFrom encode new matched fuel pos idx

/-- What it means that the scan finds something. -/
theorem iterPlaceholdersFrom_eq_cons {fuel pos : ℕ} {idx : ℕ → ℕ} (hfuel : new.length ≤ pos + fuel)
    {x : PlaceholderFeaturesInfo} {rest : List PlaceholderFeaturesInfo} :
    iterPlaceholdersFrom encode new matched fuel pos idx = x :: rest ↔
      (pos ≤ x.startIdx ∧ x.startIdx < new.length) ∧
      (∀ q, pos ≤ q → q < x.startIdx → findAt encode new matched idx q = none) ∧
      findAt encode new matched idx x.startIdx = some (x.modality, x.tokens) ∧
      x.itemIdx = idx x.modality ∧
      scan encode new matched (fuel + pos - x.startIdx - 1) (x.startIdx + x.tokens.length)
        (update idx x.modality (idx x.modality + 1)) = rest := by
  induction fuel generalizing pos with
  | zero =>
    refine iff_of_false nofun fun h => ?_
    omega
  | succ fuel ih =>
    unfold iterPlaceholdersFrom
    split_ifs with hlt
    · cases hfind : findAt encode new matched idx pos with
      | none =>
        rw [ih (by omega)]
        have heq : fuel + (pos + 1) - x.startIdx - 1 = fuel + 1 + pos - x.startIdx - 1 := by omega
        rw [heq]
        constructor
        · rintro ⟨⟨hle, hlt⟩, hnone, hsome, hrest⟩
          refine ⟨⟨by omega, hlt⟩, fun q hq hq' => ?_, hsome, hrest⟩
          rcases eq_or_lt_of_le hq with rfl | hq
          · exact hfind
          · exact hnone q hq hq'
        · rintro ⟨⟨hle, hlt⟩, hnone, hsome, hrest⟩
          have hne : pos ≠ x.startIdx := by
            intro heq
            rw [← heq, hfind] at hsome
            cases hsome
          exact ⟨⟨by omega, hlt⟩, fun q hq hq' => hnone q (by omega) hq', hsome, hrest⟩
      | some found =>
        obtain ⟨modality, tokens⟩ := found
        simp only [List.cons.injEq]
        constructor
        · rintro ⟨rfl, rfl⟩
          have heq : fuel + 1 + pos - pos - 1 = fuel := by omega
          refine ⟨⟨le_refl _, hlt⟩, fun q hq hq' => absurd hq (not_le.2 hq'), hfind, rfl, ?_⟩
          rw [heq]
          rfl
        · rintro ⟨⟨hle, -⟩, hnone, hsome, hitem, hrest⟩
          have hpos : pos = x.startIdx := by
            by_contra hne
            have := hnone pos (le_refl _) (by omega)
            rw [hfind] at this
            cases this
          rw [← hpos, hfind] at hsome
          obtain ⟨hmodality, htokens⟩ := mk.inj (some.inj hsome)
          have heq : fuel + 1 + pos - x.startIdx - 1 = fuel := by omega
          rw [heq] at hrest
          subst hmodality htokens
          refine ⟨?_, ?_⟩
          · rw [hpos, ← hitem]
          · rw [← hrest, hpos]
            rfl
    · refine iff_of_false nofun fun h => ?_
      omega

end

/-! ### The matched updates -/

/-- The content of the next item of a modality is at a place of the new prompt. -/
def NextOccurs (encode : String → List ℕ) (new : List ℕ) (applied : List MatchToApply)
    (idx : ℕ → ℕ) (modality q : ℕ) : Prop :=
  ∃ b ∈ applied, b.modality = modality ∧ b.itemIdx = idx modality ∧
    slice new q (q + (b.content encode).length) = b.content encode

section

variable {prompt new : List ℕ} {updates : MultiModalPromptUpdates} {result : ℕ → ℕ → Option ℕ}
  {applied : List MatchToApply}

theorem allItemsFound_iff : allItemsFound updates result = true ↔
    ∀ modality itemIdx itemUpdates, (modality, itemIdx, itemUpdates) ∈ itemsOf updates →
      (result modality itemIdx).isSome := by
  unfold allItemsFound
  rw [List.all_eq_true]
  exact ⟨fun h m i us hmem => h (m, i, us) hmem, fun h x hmem => h x.1 x.2.1 x.2.2 hmem⟩

theorem getElem?_matchedUpdates (modality : ℕ) : (matchedUpdates updates result)[modality]? =
    updates[modality]?.map fun items => items.zipIdx.map fun (itemUpdates, itemIdx) =>
      match result modality itemIdx with
      | none => []
      | some updateIdx => itemUpdates[updateIdx]?.toList := by
  unfold matchedUpdates
  rw [getElem?_map, getElem?_zipIdx, Option.map_map, Nat.zero_add]
  rfl

variable {modality : ℕ} {items : List (List ResolvedPromptUpdate)}

/-- The update that was applied for an item. -/
theorem matchedUpdates_item (h : Applied prompt updates result applied)
    (hall : allItemsFound updates result = true) {itemIdx : ℕ}
    (hitems : (matchedUpdates updates result)[modality]? = some items)
    {us : List ResolvedPromptUpdate} : items[itemIdx]? = some us ↔
      ∃ b ∈ applied, b.modality = modality ∧ b.itemIdx = itemIdx ∧ us = [b.update] := by
  rw [getElem?_matchedUpdates] at hitems
  obtain ⟨items', hitems', rfl⟩ := map_eq_some_iff.1 hitems
  rw [getElem?_map, getElem?_zipIdx, Option.map_map, Nat.zero_add, map_eq_some_iff]
  constructor
  · rintro ⟨itemUpdates, hmem, rfl⟩
    have hitem := mem_itemsOf.2 ⟨items', hitems', hmem⟩
    have hfound := allItemsFound_iff.1 hall _ _ _ hitem
    obtain ⟨b, hb, heq⟩ := List.mem_map.1 (h.all _ _ hfound)
    obtain ⟨rfl, rfl⟩ := mk.inj heq
    obtain ⟨itemUpdates', hmem', hupdate⟩ := h.update b hb
    obtain ⟨items'', hi, hi'⟩ := mem_itemsOf.1 hmem'
    obtain rfl := some.inj (hitems'.symm.trans hi)
    obtain rfl := some.inj (hmem.symm.trans hi')
    refine ⟨b, hb, rfl, rfl, ?_⟩
    simp [comp_apply, h.found b hb, hupdate, toList_some]
  · rintro ⟨b, hb, rfl, rfl, rfl⟩
    obtain ⟨itemUpdates, hmem, hupdate⟩ := h.update b hb
    obtain ⟨items'', hi, hi'⟩ := mem_itemsOf.1 hmem
    obtain rfl := some.inj (hitems'.symm.trans hi)
    refine ⟨itemUpdates, hi', ?_⟩
    simp [comp_apply, h.found b hb, hupdate, toList_some]

variable {q : ℕ} {tokens : List ℕ}

theorem contentAt_eq_some {update : ResolvedPromptUpdate}
    (hcontent : seq2tokens encode update.content ≠ []) :
    contentAt encode new q update = some tokens ↔ tokens = seq2tokens encode update.content ∧
      slice new q (q + (seq2tokens encode update.content).length) =
        seq2tokens encode update.content := by
  have hpos := length_pos_iff.2 hcontent
  unfold contentAt
  by_cases hle : q + (seq2tokens encode update.content).length ≤ new.length
  · rw [if_neg (by omega)]
    split_ifs with hslice
    · exact ⟨fun h => ⟨(some.inj h).symm, hslice⟩, fun h => congrArg some h.1.symm⟩
    · exact iff_of_false nofun fun h => hslice h.2
  · rw [if_pos (by omega)]
    refine iff_of_false nofun fun h => ?_
    have hlength := congrArg List.length h.2
    unfold slice at hlength
    rw [length_drop, length_take] at hlength
    omega

theorem Applied.replaces (hupdates : Replaces encode updates)
    (h : Applied prompt updates result applied) {b : MatchToApply} (hb : b ∈ applied) :
    b.update.Replaces encode := by
  obtain ⟨itemUpdates, hmem, hupdate⟩ := h.update b hb
  obtain ⟨items, hm, hi⟩ := mem_itemsOf.1 hmem
  exact hupdates _ (mem_of_getElem? hm) _ (mem_of_getElem? hi) _ (mem_of_getElem? hupdate)

/-- What the scan finds for a modality. -/
def modalityAt (encode : String → List ℕ) (new : List ℕ) (idx : ℕ → ℕ) (q : ℕ)
    (x : List (List ResolvedPromptUpdate) × ℕ) : Option (ℕ × List ℕ) :=
  match x.1[idx x.2]? with
  | none => none
  | some itemUpdates =>
    (itemUpdates.findSome? (contentAt encode new q)).map fun tokens => (x.2, tokens)

variable {idx : ℕ → ℕ}

section

variable (hupdates : Replaces encode updates) (h : Applied prompt updates result applied)
  (hall : allItemsFound updates result = true)

include hupdates h hall

theorem modalityAt_eq_some {m : ℕ} (hitems : (matchedUpdates updates result)[m]? = some items) :
    modalityAt encode new idx q (items, m) = some (modality, tokens) ↔ m = modality ∧
      ∃ b ∈ applied, b.modality = m ∧ b.itemIdx = idx m ∧ tokens = b.content encode ∧
        slice new q (q + tokens.length) = tokens := by
  unfold modalityAt
  cases hus : items[idx m]? with
  | none =>
    refine iff_of_false nofun ?_
    rintro ⟨-, b, hb, hm, hi, -⟩
    rw [(matchedUpdates_item h hall hitems).2 ⟨b, hb, hm, hi, rfl⟩] at hus
    cases hus
  | some us =>
    obtain ⟨b, hb, hm, hi, rfl⟩ := (matchedUpdates_item h hall hitems).1 hus
    have hcontent := (h.replaces hupdates hb).content
    have hsingle : [b.update].findSome? (contentAt encode new q) = contentAt encode new q b.update := by
      rw [findSome?_cons]
      cases contentAt encode new q b.update <;> rfl
    simp only [hsingle]
    rw [map_eq_some_iff]
    constructor
    · rintro ⟨tokens', hat, heq⟩
      obtain ⟨rfl, rfl⟩ := mk.inj heq
      obtain ⟨rfl, hslice⟩ := (contentAt_eq_some hcontent).1 hat
      exact ⟨rfl, b, hb, hm, hi, rfl, hslice⟩
    · rintro ⟨rfl, b', hb', hm', hi', rfl, hslice⟩
      have hsome := (matchedUpdates_item h hall hitems).2 ⟨b', hb', hm', hi', rfl⟩
      rw [hus, some.injEq, List.cons.injEq] at hsome
      refine ⟨b'.content encode, (contentAt_eq_some hcontent).2 ?_, rfl⟩
      rw [hsome.1]
      exact ⟨rfl, hslice⟩

/-- Where the scan stops. -/
theorem findAt_eq_some :
    findAt encode new (matchedUpdates updates result) idx q = some (modality, tokens) ↔
      (∃ b ∈ applied, b.modality = modality ∧ b.itemIdx = idx modality ∧ tokens = b.content encode ∧
        slice new q (q + tokens.length) = tokens) ∧
      ∀ m < modality, ¬ NextOccurs encode new applied idx m q := by
  have hmodality : ∀ {b : MatchToApply}, b ∈ applied →
      ∃ items, (matchedUpdates updates result)[b.modality]? = some items := by
    intro b hb
    obtain ⟨itemUpdates, hmem, -⟩ := h.update b hb
    obtain ⟨items, hm, -⟩ := mem_itemsOf.1 hmem
    rw [getElem?_matchedUpdates, hm]
    exact ⟨_, rfl⟩
  show (matchedUpdates updates result).zipIdx.findSome? (modalityAt encode new idx q) = _ ↔ _
  rw [findSome?_zipIdx]
  simp only [Nat.zero_add]
  constructor
  · rintro ⟨k, items, hitems, hsome, hbefore⟩
    obtain ⟨rfl, hfound⟩ := (modalityAt_eq_some hupdates h hall hitems).1 hsome
    refine ⟨hfound, ?_⟩
    rintro m hm ⟨b, hb, rfl, hi, hslice⟩
    obtain ⟨items', hitems'⟩ := hmodality hb
    have hnone := hbefore _ items' hm hitems'
    have hsome' : modalityAt encode new idx q (items', b.modality) =
        some (b.modality, b.content encode) :=
      (modalityAt_eq_some hupdates h hall hitems').2 ⟨rfl, b, hb, rfl, hi, rfl, hslice⟩
    rw [hnone] at hsome'
    cases hsome'
  · rintro ⟨⟨b, hb, rfl, hfound⟩, hbefore⟩
    obtain ⟨items, hitems⟩ := hmodality hb
    refine ⟨b.modality, items, hitems,
      (modalityAt_eq_some hupdates h hall hitems).2 ⟨rfl, b, hb, rfl, hfound⟩, fun m items' hm hm' => ?_⟩
    refine eq_none_iff_forall_ne_some.2 fun x hx => ?_
    obtain ⟨m', tokens'⟩ := x
    obtain ⟨rfl, b', hb', hb'm, hb'i, rfl, hslice⟩ := (modalityAt_eq_some hupdates h hall hm').1 hx
    exact hbefore m hm ⟨b', hb', hb'm, hb'i, hslice⟩

theorem findAt_eq_none : findAt encode new (matchedUpdates updates result) idx q = none ↔
      ∀ m, ¬ NextOccurs encode new applied idx m q := by
  constructor
  · intro hnone m hoccurs
    -- the first modality whose next item occurs
    induction m using Nat.strong_induction_on with
    | _ m ih =>
      obtain ⟨b, hb, hm, hi, hslice⟩ := hoccurs
      have hsome : findAt encode new (matchedUpdates updates result) idx q =
          some (m, b.content encode) := (findAt_eq_some hupdates h hall).2
        ⟨⟨b, hb, hm, hi, rfl, hslice⟩, fun m' hm' hoccurs' => ih m' hm' hoccurs'⟩
      rw [hnone] at hsome
      cases hsome
  · intro hnone
    refine eq_none_iff_forall_ne_some.2 fun x hx => ?_
    obtain ⟨⟨b, hb, hm, hi, heq, hslice⟩, -⟩ := (findAt_eq_some hupdates h hall).1 hx
    refine hnone x.1 ⟨b, hb, hm, hi, ?_⟩
    rw [← heq]
    exact hslice

end

/-! ### Counting the items -/

variable (as : List MatchToApply)

/-- How many of the matches are of a modality. -/
def countOf (modality : ℕ) : ℕ :=
  as.countP fun a => decide (a.modality = modality)

theorem countOf_append (a : MatchToApply) : countOf (as ++ [a]) =
      update (countOf as) a.modality (countOf as a.modality + 1) := by
  funext modality
  unfold countOf
  rw [countP_append, countP_singleton]
  by_cases hm : modality = a.modality
  · rw [hm, update_self, if_pos (decide_eq_true rfl)]
  · rw [update_of_ne hm, if_neg (by simpa using Ne.symm hm), Nat.add_zero]

theorem countOf_applied (h : Applied prompt updates result applied)
    (hall : allItemsFound updates result = true) (hitems : updates[modality]? = some items) :
    countOf applied modality = items.length := by
  have hperm : ((applied.filter fun a => decide (a.modality = modality)).map
      MatchToApply.itemIdx).Perm (List.range items.length) := by
    refine (perm_ext_iff_of_nodup ?_ nodup_range).2 fun itemIdx => ?_
    · refine Nodup.map_on (fun a ha b hb heq => ?_) ((Nodup.of_map _ h.nodup).filter _)
      rw [mem_filter, decide_eq_true_eq] at ha hb
      exact inj_on_of_nodup_map h.nodup ha.1 hb.1 (Prod.ext (ha.2.trans hb.2.symm) heq)
    · rw [List.mem_map, mem_range]
      constructor
      · rintro ⟨a, ha, rfl⟩
        rw [mem_filter, decide_eq_true_eq] at ha
        obtain ⟨itemUpdates, hmem, -⟩ := h.update a ha.1
        obtain ⟨items', hm, hi⟩ := mem_itemsOf.1 hmem
        rw [ha.2, hitems] at hm
        rw [← some.inj hm] at hi
        exact (List.getElem?_eq_some_iff.1 hi).1
      · intro hlt
        have hitem := mem_itemsOf.2 ⟨items, hitems, getElem?_eq_getElem hlt⟩
        obtain ⟨a, ha, heq⟩ := List.mem_map.1 (h.all _ _ (allItemsFound_iff.1 hall _ _ _ hitem))
        obtain ⟨hm, hi⟩ := mk.inj heq
        exact ⟨a, mem_filter.2 ⟨ha, decide_eq_true hm⟩, hi⟩
  unfold countOf
  rw [countP_eq_length_filter, ← length_map, hperm.length_eq, length_range]

theorem allCounted_iff: allCounted (matchedUpdates updates result) idx = true ↔
    ∀ modality items, updates[modality]? = some items → items.length ≤ idx modality := by
  unfold allCounted
  rw [List.all_eq_true]
  constructor
  · intro h modality items hitems
    have hmatched : (matchedUpdates updates result)[modality]? = some _ :=
      (getElem?_matchedUpdates modality).trans (congrArg (Option.map _) hitems)
    simpa using h (_, modality) (mem_zipIdx_iff_getElem?.2 hmatched)
  · rintro h ⟨matchedItems, modality⟩ hmem
    have hmatched : (matchedUpdates updates result)[modality]? = some matchedItems :=
      mem_zipIdx_iff_getElem?.1 hmem
    rw [getElem?_matchedUpdates] at hmatched
    obtain ⟨items, hitems, rfl⟩ := map_eq_some_iff.1 hmatched
    simpa using h modality items hitems

/-- The scan does not end before all items were found. -/
theorem allCounted_countOf (h : Applied prompt updates result applied)
    (hall : allItemsFound updates result = true) {l : List MatchToApply} {a : MatchToApply}
    {r : List MatchToApply} (happlied : applied = l ++ a :: r) :
    allCounted (matchedUpdates updates result) (countOf l) = false := by
  rw [← Bool.not_eq_true, allCounted_iff]
  intro hcounted
  have ha : a ∈ applied := by
    rw [happlied]
    exact mem_append_right _ (.head _)
  obtain ⟨itemUpdates, hmem, -⟩ := h.update a ha
  obtain ⟨items, hitems, -⟩ := mem_itemsOf.1 hmem
  have hle := hcounted _ _ hitems
  rw [← countOf_applied h hall hitems, happlied] at hle
  unfold countOf at hle
  rw [countP_append, countP_cons, if_pos (decide_eq_true rfl)] at hle
  omega

end

end LoptVllm.Multimodal
