import LoptVllm.Multimodal.PromptUpdates

/-!
# What is replaced in a prompt

For updates that replace token sequences.
-/

namespace LoptVllm.Multimodal

open List Or

variable (encode : String → List ℕ)

/-- An update that replaces a non-empty token sequence by a non-empty content. -/
structure ResolvedPromptUpdate.Replaces (update : ResolvedPromptUpdate) : Prop where
  mode : update.mode = .replace
  target : ∃ ids, ids ≠ [] ∧ update.target = .seq (.tokens ids)
  content : seq2tokens encode update.content ≠ []

/-- All updates replace a non-empty token sequence by a non-empty content. -/
def Replaces (updates : MultiModalPromptUpdates) : Prop :=
  ∀ items ∈ updates, ∀ itemUpdates ∈ items, ∀ update ∈ itemUpdates, update.Replaces encode

/-- The placeholder tokens of a match. -/
def MatchToApply.content (a : MatchToApply) : List ℕ := seq2tokens encode a.update.content

/-- The target of a match is a token sequence that is where the match is. -/
def MatchToApply.Occurs (prompt : List ℕ) (a : MatchToApply) : Prop :=
  ∃ ids, ids ≠ [] ∧ a.update.target = .seq (.tokens ids) ∧ a.endIdx = a.startIdx + ids.length ∧
    a.endIdx ≤ prompt.length ∧ slice prompt a.startIdx a.endIdx = ids

/-- Matches at successive places of the prompt, from `prev` on. -/
def Occurrences (prompt : List ℕ) : ℕ → List MatchToApply → Prop
  | _, [] => True
  | prev, a :: as => prev ≤ a.startIdx ∧ a.Occurs prompt ∧ Occurrences prompt a.endIdx as

/-- Where the last match ends. -/
def lastEnd : ℕ → List MatchToApply → ℕ
  | prev, [] => prev
  | _, a :: as => lastEnd a.endIdx as

/-- The prompt from `prev` up to the last match, with the contents in place of the matches. -/
def replaceFrom (prompt : List ℕ) : ℕ → List MatchToApply → List ℕ
  | _, [] => []
  | prev, a :: as =>
    slice prompt prev a.startIdx ++ a.content encode ++ replaceFrom prompt a.endIdx as

/-- One target occurrence is replaced for each item that was found. -/
structure Applied (prompt : List ℕ) (updates : MultiModalPromptUpdates)
    (result : ℕ → ℕ → Option ℕ) (as : List MatchToApply) : Prop where
  occurrences : Occurrences prompt 0 as
  update : ∀ a ∈ as, ∃ itemUpdates, (a.modality, a.itemIdx, itemUpdates) ∈ itemsOf updates ∧
    itemUpdates[a.updateIdx]? = some a.update
  nodup : (as.map fun a => (a.modality, a.itemIdx)).Nodup
  found : ∀ a ∈ as, result a.modality a.itemIdx = some a.updateIdx
  all : ∀ modality itemIdx, (result modality itemIdx).isSome →
    (modality, itemIdx) ∈ as.map fun a => (a.modality, a.itemIdx)

variable {encode} {prompt : List ℕ} {updates : MultiModalPromptUpdates}

/-! ### Lists of matches -/

theorem lastEnd_append (prev : ℕ) (l r : List MatchToApply) :
    lastEnd prev (l ++ r) = lastEnd (lastEnd prev l) r := by
  induction l generalizing prev with
  | nil => rfl
  | cons a l ih => exact ih a.endIdx

theorem replaceFrom_append (prev : ℕ) (l r : List MatchToApply) :
    replaceFrom encode prompt prev (l ++ r) =
      replaceFrom encode prompt prev l ++ replaceFrom encode prompt (lastEnd prev l) r := by
  induction l generalizing prev with
  | nil => rfl
  | cons a l ih =>
    show _ ++ replaceFrom encode prompt a.endIdx (l ++ r) = _
    rw [ih, ← append_assoc]
    rfl

variable {a : MatchToApply}

theorem Occurrences.mem {prev : ℕ} {as : List MatchToApply} (h : Occurrences prompt prev as)
    (ha : a ∈ as) : a.Occurs prompt := by
  induction as generalizing prev with
  | nil => cases ha
  | cons b bs ih =>
    rcases mem_cons.1 ha with rfl | ha
    · exact h.2.1
    · exact ih h.2.2 ha

theorem Occurrences.append {prev : ℕ} {as : List MatchToApply} (h : Occurrences prompt prev as)
    (hle : lastEnd prev as ≤ a.startIdx) (ha : a.Occurs prompt) :
    Occurrences prompt prev (as ++ [a]) := by
  induction as generalizing prev with
  | nil => exact ⟨hle, ha, trivial⟩
  | cons b bs ih => exact ⟨h.1, h.2.1, ih h.2.2 hle⟩

theorem mem_itemsOf {modality itemIdx : ℕ} {itemUpdates : List ResolvedPromptUpdate} :
    (modality, itemIdx, itemUpdates) ∈ itemsOf updates ↔
      ∃ items, updates[modality]? = some items ∧ items[itemIdx]? = some itemUpdates := by
  unfold itemsOf
  rw [mem_flatMap]
  constructor
  · rintro ⟨⟨items, m⟩, hm, hmem⟩
    obtain ⟨⟨us, i⟩, hi, heq⟩ := mem_map.1 hmem
    cases heq
    exact ⟨items, mem_zipIdx_iff_getElem?.1 hm, mem_zipIdx_iff_getElem?.1 hi⟩
  · rintro ⟨items, hm, hi⟩
    exact ⟨(items, modality), mem_zipIdx_iff_getElem?.2 hm,
      mem_map.2 ⟨(itemUpdates, itemIdx), mem_zipIdx_iff_getElem?.2 hi, rfl⟩⟩

/-! ### Matches -/

theorem mem_iterTokenMatchesFrom {tokenIds matchIds : List ℕ} {fuel startIdx : ℕ} {m : ℕ × ℕ}
    (h : m ∈ iterTokenMatchesFrom tokenIds matchIds fuel startIdx) :
    startIdx ≤ m.1 ∧ m.2 = m.1 + matchIds.length ∧ m.2 ≤ tokenIds.length ∧
      slice tokenIds m.1 m.2 = matchIds := by
  induction fuel generalizing startIdx with
  | zero => cases h
  | succ fuel ih =>
    unfold iterTokenMatchesFrom at h
    simp only at h
    split_ifs at h with hlt heq
    · rcases mem_cons.1 h with rfl | h
      · exact ⟨Nat.le_refl _, rfl, Nat.le_of_lt_succ hlt, heq⟩
      · obtain ⟨hle, hm⟩ := ih h
        exact ⟨by omega, hm⟩
    · obtain ⟨hle, hm⟩ := ih h
      exact ⟨by omega, hm⟩
    · cases h

/-- A match of an item that is not found yet. -/
structure MatchToApply.Good (prompt : List ℕ) (updates : MultiModalPromptUpdates) (prevEndIdx : ℕ)
    (result : ℕ → ℕ → Option ℕ) (a : MatchToApply) : Prop where
  mode : a.update.mode = .replace
  after : prevEndIdx ≤ a.startIdx
  occurs : a.Occurs prompt
  update : ∃ itemUpdates, (a.modality, a.itemIdx, itemUpdates) ∈ itemsOf updates ∧
    itemUpdates[a.updateIdx]? = some a.update
  notFound : result a.modality a.itemIdx = none

theorem MatchToApply.Occurs.lt (h : a.Occurs prompt) : a.startIdx < a.endIdx := by
  obtain ⟨ids, hids, -, hend, -⟩ := h
  have := length_pos_iff.2 hids
  omega

theorem findItemMatch_spec {prevEndIdx modality itemIdx : ℕ} {mode : Option UpdateMode}
    {us : List (ResolvedPromptUpdate × ℕ)} (hus : ∀ u ∈ us, u.1.Replaces encode)
    (h : findItemMatch encode prompt prevEndIdx modality itemIdx mode us = some a) :
    a.modality = modality ∧ a.itemIdx = itemIdx ∧ (a.update, a.updateIdx) ∈ us ∧
      prevEndIdx ≤ a.startIdx ∧ a.Occurs prompt := by
  induction us with
  | nil => cases h
  | cons u us ih =>
    obtain ⟨update, updateIdx⟩ := u
    have hrest := fun h => ih (fun u hu => hus u (.tail _ hu)) h
    unfold findItemMatch at h
    cases hhead : (update.iterMatches encode prompt prevEndIdx).head? with
    | none =>
      simp only [hhead] at h
      obtain ⟨hm, hi, hmem, hle, hoccurs⟩ := hrest h
      exact ⟨hm, hi, .tail _ hmem, hle, hoccurs⟩
    | some m =>
      simp only [hhead] at h
      split_ifs at h with hsame
      · cases h
        obtain ⟨ids, hids, htarget⟩ := (hus _ (.head _)).target
        have hmem := mem_of_mem_head? hhead
        unfold ResolvedPromptUpdate.iterMatches at hmem
        rw [htarget] at hmem
        have hmem' : m ∈ iterTokenMatches prompt ids prevEndIdx := hmem
        unfold iterTokenMatches at hmem'
        rw [if_neg (length_pos_iff.2 hids).ne'] at hmem'
        obtain ⟨hle, hend, hlength, hslice⟩ := mem_iterTokenMatchesFrom hmem'
        exact ⟨rfl, rfl, .head _, hle, ids, hids, htarget, hend, hlength, hslice⟩
      · obtain ⟨hm, hi, hmem, hle, hoccurs⟩ := hrest h
        exact ⟨hm, hi, .tail _ hmem, hle, hoccurs⟩

theorem findAllMatches_spec (hupdates : Replaces encode updates) (prompt : List ℕ)
    (prevEndIdx : ℕ) (result : ℕ → ℕ → Option ℕ) {items : List (ℕ × ℕ × List ResolvedPromptUpdate)}
    (hitems : ∀ item ∈ items, item ∈ itemsOf updates) (mode : Option UpdateMode) :
    (∀ a ∈ (findAllMatches encode prompt prevEndIdx result mode items).2,
      a.Good prompt updates prevEndIdx result) ∧
    ((findAllMatches encode prompt prevEndIdx result mode items).2 = [] →
      (findAllMatches encode prompt prevEndIdx result mode items).1 = mode) ∧
    ((findAllMatches encode prompt prevEndIdx result mode items).2 ≠ [] →
      (findAllMatches encode prompt prevEndIdx result mode items).1 = some .replace) := by
  induction items generalizing mode with
  | nil => exact ⟨nofun, fun _ => rfl, fun h => absurd rfl h⟩
  | cons item items ih =>
    obtain ⟨modality, itemIdx, itemUpdates⟩ := item
    have ih := ih fun item hmem => hitems item (.tail _ hmem)
    have hmem := hitems _ (.head _)
    unfold findAllMatches
    split_ifs with hfound
    · exact ih mode
    · cases hmatch : findItemMatch encode prompt prevEndIdx modality itemIdx mode
          itemUpdates.zipIdx with
      | none => exact ih mode
      | some a =>
        have hreplaces : ∀ u ∈ itemUpdates.zipIdx, u.1.Replaces encode := by
          intro u hu
          obtain ⟨items', hm, hi⟩ := mem_itemsOf.1 hmem
          exact hupdates _ (mem_of_getElem? hm) _ (mem_of_getElem? hi) _
            (mem_of_getElem? (mem_zipIdx_iff_getElem?.1 hu))
        obtain ⟨rfl, rfl, hupdate, hle, hoccurs⟩ := findItemMatch_spec hreplaces hmatch
        have hmode := (hreplaces _ hupdate).mode
        obtain ⟨hgood, hnil, hcons⟩ := ih (some a.update.mode)
        refine ⟨fun b hb => ?_, nofun, fun _ => ?_⟩
        · rcases mem_cons.1 hb with rfl | hb
          · exact ⟨hmode, hle, hoccurs, ⟨itemUpdates, hmem, mem_zipIdx_iff_getElem?.1 hupdate⟩,
              by simpa using hfound⟩
          · exact hgood b hb
        · by_cases hempty : (findAllMatches encode prompt prevEndIdx result
              (some a.update.mode) items).2 = []
          · exact (hnil hempty).trans (congrArg some hmode)
          · exact hcons hempty

theorem oneNonEmpty_of_nonEmpty {ms : List MatchToApply} (h : ∀ a ∈ ms, a.startIdx ≠ a.endIdx) :
    oneNonEmpty true ms = [] ∧ oneNonEmpty false ms = ms.take 1 := by
  induction ms with
  | nil => exact ⟨rfl, rfl⟩
  | cons a ms ih =>
    obtain ⟨hnil, -⟩ := ih fun b hb => h b (.tail _ hb)
    have ha := h a (.head _)
    unfold oneNonEmpty
    rw [if_neg ha, if_neg ha]
    exact ⟨hnil, by rw [if_neg Bool.false_ne_true, hnil]; rfl⟩

/-- One match is applied at a time. -/
theorem findMatches_spec (hupdates : Replaces encode updates) (prompt : List ℕ) (prevEndIdx : ℕ)
    (result : ℕ → ℕ → Option ℕ) : (findMatches encode prompt updates prevEndIdx result).1 = none ∨
      ∃ a, findMatches encode prompt updates prevEndIdx result = (some .replace, [a]) ∧
        a.Good prompt updates prevEndIdx result := by
  obtain ⟨hgood, hnil, hcons⟩ :=
    findAllMatches_spec hupdates prompt prevEndIdx result (fun _ h => h) none
  unfold findMatches
  cases hall : findAllMatches encode prompt prevEndIdx result none (itemsOf updates) with
  | mk mode ms =>
    rw [hall] at hgood hnil hcons
    by_cases hempty : ms = []
    · exact inl (hnil hempty)
    · obtain rfl := hcons hempty
      have hperm := perm_insertionSort MatchToApply.le ms
      obtain ⟨a, as, has⟩ := exists_cons_of_ne_nil fun h =>
        hempty (Perm.nil_eq (h ▸ hperm)).symm
      have hgood' : ∀ b ∈ a :: as, b.Good prompt updates prevEndIdx result := fun b hb =>
        hgood b (hperm.mem_iff.1 (has ▸ hb))
      refine inr ⟨a, ?_, hgood' a (.head _)⟩
      simp only [has]
      rw [(oneNonEmpty_of_nonEmpty fun b hb => (hgood' b hb).occurs.lt.ne).2]
      rfl

/-! ### The loop -/

/-- What the variables of `_apply_matches` are after some turns. -/
structure ApplyOk (encode : String → List ℕ) (prompt : List ℕ) (updates : MultiModalPromptUpdates)
    (s : ApplyState) : Prop where
  outSeqs : s.outSeqs.flatten = replaceFrom encode prompt 0 s.applied
  prevEndIdx : s.prevEndIdx = lastEnd 0 s.applied
  applied : Applied prompt updates s.outResult s.applied

theorem ApplyOk.applyMatch {s : ApplyState} (hs : ApplyOk encode prompt updates s)
    (ha : a.Good prompt updates s.prevEndIdx s.outResult) :
    ApplyOk encode prompt updates (applyMatch encode prompt .replace s a) := by
  have hnew : (a.modality, a.itemIdx) ∉ s.applied.map fun a => (a.modality, a.itemIdx) := by
    intro hmem
    obtain ⟨b, hb, heq⟩ := mem_map.1 hmem
    have hfound := hs.applied.found b hb
    rw [(Prod.mk.inj heq).1, (Prod.mk.inj heq).2, ha.notFound] at hfound
    cases hfound
  refine ⟨?_, (lastEnd_append 0 s.applied [a]).symm, ?_, fun b hb => ?_, ?_, fun b hb => ?_,
    fun modality itemIdx hfound => ?_⟩
  · show (s.outSeqs ++ [slice prompt s.prevEndIdx a.startIdx, _]).flatten =
      replaceFrom encode prompt 0 (s.applied ++ [a])
    rw [replaceFrom_append, flatten_append, hs.outSeqs, hs.prevEndIdx]
    simp [replaceFrom, MatchToApply.content]
  · exact hs.applied.occurrences.append (hs.prevEndIdx ▸ ha.after) ha.occurs
  · rcases mem_append.1 hb with hb | hb
    · exact hs.applied.update b hb
    · rw [mem_singleton.1 hb]
      exact ha.update
  · show ((s.applied ++ [a]).map _).Nodup
    rw [map_append, map_singleton]
    exact nodup_append.2 ⟨hs.applied.nodup, nodup_singleton _, fun p hp q hq heq =>
      hnew (mem_singleton.1 hq ▸ heq ▸ hp)⟩
  · show (if b.modality = a.modality ∧ b.itemIdx = a.itemIdx then some a.updateIdx
      else s.outResult b.modality b.itemIdx) = some b.updateIdx
    rcases mem_append.1 hb with hb | hb
    · rw [if_neg, hs.applied.found b hb]
      rintro ⟨hm, hi⟩
      exact hnew (mem_map.2 ⟨b, hb, by rw [hm, hi]⟩)
    · rw [mem_singleton.1 hb, if_pos ⟨rfl, rfl⟩]
  · have hfound' : (if modality = a.modality ∧ itemIdx = a.itemIdx then some a.updateIdx
      else s.outResult modality itemIdx).isSome := hfound
    show _ ∈ (s.applied ++ [a]).map _
    rw [map_append, mem_append]
    split_ifs at hfound' with heq
    · exact inr (mem_singleton.2 (by rw [heq.1, heq.2]))
    · exact inl (hs.applied.all _ _ hfound')

/-- What a match keeps holds of the matches that are applied. -/
theorem applyMatches_induction (hupdates : Replaces encode updates) (prompt : List ℕ)
    {P : ApplyState → Prop} (hinit : P ⟨[], fun _ _ => none, 0, []⟩)
    (hmatch : ∀ (s : ApplyState) (a : MatchToApply), P s →
      findMatches encode prompt updates s.prevEndIdx s.outResult = (some .replace, [a]) →
      a.Good prompt updates s.prevEndIdx s.outResult → P (applyMatch encode prompt .replace s a)) :
    P (applyMatches encode prompt updates) := by
  have hloop : ∀ fuel s, P s → P (applyLoop encode prompt updates fuel s) := by
    intro fuel
    induction fuel with
    | zero => exact fun _ hs => hs
    | succ fuel ih =>
      intro s hs
      unfold applyLoop
      rcases findMatches_spec hupdates prompt s.prevEndIdx s.outResult with hnone | ⟨a, heq, ha⟩
      · split
        · exact hs
        · rename_i mode ms hfind
          rw [hfind] at hnone
          cases hnone
      · simp only [heq]
        split_ifs
        · exact hmatch s a hs heq ha
        · exact ih _ (hmatch s a hs heq ha)
  unfold applyMatches
  simp only
  split_ifs
  · exact hinit
  · exact hloop _ _ hinit

/-- The matches that are applied, and the new prompt. -/
theorem applyMatches_ok (hupdates : Replaces encode updates) (prompt : List ℕ) :
    ApplyOk encode prompt updates (applyMatches encode prompt updates) :=
  applyMatches_induction hupdates prompt ⟨rfl, rfl, trivial, nofun, nodup_nil, nofun, nofun⟩
    fun _ _ hs _ ha => hs.applyMatch ha

end LoptVllm.Multimodal
