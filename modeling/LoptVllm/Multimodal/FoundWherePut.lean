import LoptVllm.Multimodal.ReplaceOrder

/-!
# Placeholders are found where they were put
-/

namespace LoptVllm.Multimodal

open List Nat List.Pairwise

variable (encode : String → List ℕ)

/-! ### Placements -/

/-- Where the contents are in the new prompt: the text after `prev` is at `pos`. -/
def placementsFrom : ℕ → ℕ → List MatchToApply → List PlaceholderFeaturesInfo
  | _, _, [] => []
  | pos, prev, a :: as =>
    ⟨a.modality, a.itemIdx, pos + (a.startIdx - prev), a.content encode⟩ ::
      placementsFrom (pos + (a.startIdx - prev) + (a.content encode).length) a.endIdx as

/-- Where the contents of the items were put. -/
def placements (prompt : List ℕ) (updates : MultiModalPromptUpdates) :
    List PlaceholderFeaturesInfo :=
  placementsFrom encode 0 0 (applyMatches encode prompt updates).applied

/-- The prompt with the contents in place of the matches. -/
def replaceAll (prompt : List ℕ) (as : List MatchToApply) : List ℕ :=
  replaceFrom encode prompt 0 as ++ prompt.drop (lastEnd 0 as)

/-- One target occurrence is replaced for each item, and the placeholders are found where the contents
were put. -/
structure FoundWherePut (prompt : List ℕ) (updates : MultiModalPromptUpdates) : Prop where
  replaced : Applied prompt updates (applyTokenMatches encode prompt updates).2
    (applyMatches encode prompt updates).applied
  newPrompt : (applyTokenMatches encode prompt updates).1 =
    replaceAll encode prompt (applyMatches encode prompt updates).applied
  onePerItem : ((placements encode prompt updates).map fun p => (p.modality, p.itemIdx)).Perm
    ((itemsOf updates).map fun item => (item.1, item.2.1))
  disjoint : (placements encode prompt updates).Pairwise fun p p' =>
    p.startIdx + p.tokens.length ≤ p'.startIdx
  inserted : ∀ p ∈ placements encode prompt updates,
    slice (applyTokenMatches encode prompt updates).1 p.startIdx (p.startIdx + p.tokens.length) =
      p.tokens
  found : ∀ modality, (findMmPlaceholders encode (applyTokenMatches encode prompt updates).1
      (matchedUpdates updates (applyTokenMatches encode prompt updates).2) modality).Perm
    ((placements encode prompt updates).filter fun p => p.modality = modality)

/-- A match `a` that is applied after the matches `l`, in the new prompt: the items of a modality are
replaced in their order; the content of a next item does not occur between the content before `a` and
the content of `a`; and that of a modality before the one of `a` does not occur at the content of
`a`. -/
structure NotConfused (prompt new : List ℕ) (applied l : List MatchToApply) (a : MatchToApply) :
    Prop where
  inOrder : a.itemIdx = countOf l a.modality
  notBefore : ∀ q, (replaceFrom encode prompt 0 l).length ≤ q →
    q < (replaceFrom encode prompt 0 l).length + (a.startIdx - lastEnd 0 l) →
    ∀ modality, ¬ NextOccurs encode new applied (countOf l) modality q
  notEarlier : ∀ modality < a.modality, ¬ NextOccurs encode new applied (countOf l) modality
    ((replaceFrom encode prompt 0 l).length + (a.startIdx - lastEnd 0 l))

/-- No content of an item is taken for that of another item, or found in the rest of the prompt. -/
def Unambiguous (prompt : List ℕ) (updates : MultiModalPromptUpdates) : Prop :=
  ∀ as, Replacements encode prompt updates as → ∀ l a r, as = l ++ a :: r →
    NotConfused encode prompt (replaceAll encode prompt as) as l a

variable {encode} {prompt : List ℕ} {updates : MultiModalPromptUpdates}

theorem length_slice {l : List ℕ} {start stop : ℕ} (h : stop ≤ l.length) :
    (slice l start stop).length = stop - start := by
  unfold slice
  rw [length_drop, length_take, min_eq_left h]

theorem slice_append (x y z : List ℕ) :
    slice (x ++ (y ++ z)) x.length (x.length + y.length) = y := by
  unfold slice
  rw [take_length_add_append, drop_left, take_left]

variable {l : List MatchToApply} {a : MatchToApply} {rest : List ℕ}

/-- The place of a content. -/
theorem slice_content {r : List MatchToApply} (h : a.startIdx ≤ prompt.length) :
    slice (replaceFrom encode prompt 0 (l ++ a :: r) ++ rest)
      ((replaceFrom encode prompt 0 l).length + (a.startIdx - lastEnd 0 l))
      ((replaceFrom encode prompt 0 l).length + (a.startIdx - lastEnd 0 l) +
        (a.content encode).length) = a.content encode := by
  have hnew : replaceFrom encode prompt 0 (l ++ a :: r) ++ rest =
      (replaceFrom encode prompt 0 l ++ slice prompt (lastEnd 0 l) a.startIdx) ++
        (a.content encode ++ (replaceFrom encode prompt a.endIdx r ++ rest)) := by
    rw [replaceFrom_append]
    simp [replaceFrom]
  have hlength : (replaceFrom encode prompt 0 l ++ slice prompt (lastEnd 0 l) a.startIdx).length =
      (replaceFrom encode prompt 0 l).length + (a.startIdx - lastEnd 0 l) := by
    rw [length_append, length_slice h]
  rw [hnew, ← hlength]
  exact slice_append _ _ _

/-- Where the text after a content is. -/
theorem length_replaceFrom
    (h : a.startIdx ≤ prompt.length) : (replaceFrom encode prompt 0 (l ++ [a])).length =
      (replaceFrom encode prompt 0 l).length + (a.startIdx - lastEnd 0 l) +
        (a.content encode).length := by
  rw [replaceFrom_append]
  simp [replaceFrom, length_slice h, Nat.add_assoc]

/-! ### The scan -/

theorem lt_length_of_slice {l content : List ℕ} {q : ℕ} (h : slice l q (q + content.length) = content)
    (hcontent : content ≠ []) : q < l.length := by
  by_contra hlt
  refine hcontent ?_
  rw [← h]
  exact drop_eq_nil_of_le (by rw [length_take]; omega)

variable {new : List ℕ} {applied as : List MatchToApply}

/-- The conditions for the first match and for the others. -/
theorem forall_cons_iff:
    (∀ l' b r, a :: as = l' ++ b :: r → NotConfused encode prompt new applied (l ++ l') b) ↔
      NotConfused encode prompt new applied l a ∧
      ∀ l' b r, as = l' ++ b :: r → NotConfused encode prompt new applied (l ++ [a] ++ l') b := by
  constructor
  · intro h
    refine ⟨by simpa using h [] a as rfl, fun l' b r heq => ?_⟩
    have := h (a :: l') b r (by rw [heq, cons_append])
    rwa [append_assoc, singleton_append]
  · rintro ⟨hfirst, hrest⟩ l' b r heq
    cases l' with
    | nil =>
      obtain ⟨rfl, rfl⟩ := cons.inj heq
      rwa [append_nil]
    | cons c l' =>
      obtain ⟨rfl, rfl⟩ := cons.inj heq
      have := hrest l' b r rfl
      rwa [append_assoc, singleton_append] at this

variable {result : ℕ → ℕ → Option ℕ}

/-- The scan finds the rest of the contents where they are, if they are not confused. -/
theorem scan_eq_placements (hupdates : Replaces encode updates)
    (h : Applied prompt updates result applied) (hall : allItemsFound updates result = true)
    (hnew : new = replaceFrom encode prompt 0 applied ++ rest) :
    ∀ {l : List MatchToApply}, applied = l ++ as → ∀ {fuel : ℕ},
      new.length ≤ (replaceFrom encode prompt 0 l).length + fuel →
      (scan encode new (matchedUpdates updates result) fuel (replaceFrom encode prompt 0 l).length
          (countOf l) = placementsFrom encode (replaceFrom encode prompt 0 l).length (lastEnd 0 l) as ↔
        ∀ l' a r, as = l' ++ a :: r → NotConfused encode prompt new applied (l ++ l') a) := by
  induction as with
  | nil =>
    intro l happlied fuel _
    rw [append_nil] at happlied
    refine iff_of_true ?_ fun l' a r heq => by simp at heq
    have hcounted : allCounted (matchedUpdates updates result) (countOf applied) = true :=
      allCounted_iff.2 fun modality items hitems => (countOf_applied h hall hitems).symm.le
    unfold scan
    rw [← happlied, if_pos hcounted]
    rfl
  | cons a as ih =>
    intro l happlied fuel hfuel
    have ha : a ∈ applied := by
      rw [happlied]
      exact mem_append_right _ (.head _)
    have hoccurs := h.occurrences.mem ha
    have hstart : a.startIdx ≤ prompt.length := by
      have hlt := hoccurs.lt
      obtain ⟨-, -, -, -, hle, -⟩ := hoccurs
      omega
    have hcontent := (h.replaces hupdates ha).content
    have hslice : slice new
        ((replaceFrom encode prompt 0 l).length + (a.startIdx - lastEnd 0 l))
        ((replaceFrom encode prompt 0 l).length + (a.startIdx - lastEnd 0 l) +
          (a.content encode).length) = a.content encode := by
      rw [hnew, happlied]
      exact slice_content hstart
    have hlt := lt_length_of_slice hslice hcontent
    have hcounted := allCounted_countOf h hall happlied
    have hlength := @length_replaceFrom encode _ l _ hstart
    have hpos : 0 < (a.content encode).length := length_pos_iff.2 hcontent
    have happlied' : applied = (l ++ [a]) ++ as := by
      rw [happlied, append_assoc]
      rfl
    have hfuel' : new.length ≤ (replaceFrom encode prompt 0 (l ++ [a])).length +
        (fuel + (replaceFrom encode prompt 0 l).length -
          ((replaceFrom encode prompt 0 l).length + (a.startIdx - lastEnd 0 l)) - 1) := by omega
    have hnext := ih happlied' hfuel'
    rw [hlength, lastEnd_append, countOf_append] at hnext
    have hscan : scan encode new (matchedUpdates updates result) fuel
        (replaceFrom encode prompt 0 l).length (countOf l) =
        iterPlaceholdersFrom encode new (matchedUpdates updates result) fuel
          (replaceFrom encode prompt 0 l).length (countOf l) :=
      if_neg (by rw [hcounted]; exact Bool.false_ne_true)
    have hplace : placementsFrom encode (replaceFrom encode prompt 0 l).length (lastEnd 0 l)
        (a :: as) = ⟨a.modality, a.itemIdx, _, a.content encode⟩ :: placementsFrom encode _ a.endIdx as :=
      rfl
    rw [forall_cons_iff, ← hnext, hscan, hplace, iterPlaceholdersFrom_eq_cons hfuel]
    constructor
    · rintro ⟨-, hnone, hsome, hitem, hrest⟩
      obtain ⟨-, hearlier⟩ := (findAt_eq_some hupdates h hall).1 hsome
      exact ⟨⟨hitem, fun q hq hq' => (findAt_eq_none hupdates h hall).1 (hnone q hq hq'), hearlier⟩,
        hrest⟩
    · rintro ⟨hconfused, hrest⟩
      exact ⟨⟨le_add_right _ _, hlt⟩,
        fun q hq hq' => (findAt_eq_none hupdates h hall).2 (hconfused.notBefore q hq hq'),
        (findAt_eq_some hupdates h hall).2
          ⟨⟨a, ha, rfl, hconfused.inOrder, rfl, hslice⟩, hconfused.notEarlier⟩,
        hconfused.inOrder, hrest⟩

/-! ### The order of the placeholders -/

variable {matched : MultiModalPromptUpdates}

theorem findAt_pos {idx : ℕ → ℕ} {q : ℕ} {x : ℕ × List ℕ}
    (h : findAt encode new matched idx q = some x) : 0 < x.2.length := by
  obtain ⟨⟨items, modality⟩, -, hmodality⟩ := exists_of_findSome?_eq_some h
  simp only at hmodality
  split at hmodality
  · cases hmodality
  · obtain ⟨tokens, htokens, rfl⟩ := Option.map_eq_some_iff.1 hmodality
    obtain ⟨update, -, hcontent⟩ := exists_of_findSome?_eq_some htokens
    unfold contentAt at hcontent
    simp only at hcontent
    split_ifs at hcontent with hempty
    obtain rfl := Option.some.inj hcontent
    show 0 < (seq2tokens encode update.content).length
    omega

/-- A placeholder that is found later is at a later place. -/
theorem pairwise_iterPlaceholdersFrom {fuel : ℕ} : ∀ (pos : ℕ) (idx : ℕ → ℕ),
    (∀ p ∈ iterPlaceholdersFrom encode new matched fuel pos idx, pos ≤ p.startIdx) ∧
      (iterPlaceholdersFrom encode new matched fuel pos idx).Pairwise fun p p' =>
        p.startIdx < p'.startIdx := by
  induction fuel with
  | zero => exact fun pos idx => ⟨fun _ hp => absurd hp not_mem_nil, nil⟩
  | succ fuel ih =>
    intro pos idx
    unfold iterPlaceholdersFrom
    split_ifs with hlt
    · cases hfind : findAt encode new matched idx pos with
      | none =>
        obtain ⟨hle, hpairwise⟩ := ih (pos + 1) idx
        exact ⟨fun p hp => le_of_succ_le (hle p hp), hpairwise⟩
      | some found =>
        have hpos := findAt_pos hfind
        obtain ⟨hle, hpairwise⟩ := ih (pos + found.2.length)
          (Function.update idx found.1 (idx found.1 + 1))
        simp only
        split_ifs
        · exact ⟨fun p hp => (mem_singleton.1 hp ▸ le_refl pos : pos ≤ p.startIdx),
            pairwise_singleton _ _⟩
        · refine ⟨fun p hp => ?_, pairwise_cons.2 ⟨fun p hp => ?_, hpairwise⟩⟩
          · rcases mem_cons.1 hp with rfl | hp
            · exact le_refl _
            · have := hle p hp
              omega
          · have := hle p hp
            show pos < p.startIdx
            omega
    · exact ⟨fun _ hp => absurd hp not_mem_nil, nil⟩

/-- The contents do not overlap. -/
theorem pairwise_placementsFrom: ∀ (pos prev : ℕ),
    (∀ p ∈ placementsFrom encode pos prev as, pos ≤ p.startIdx) ∧
      (placementsFrom encode pos prev as).Pairwise fun p p' =>
        p.startIdx + p.tokens.length ≤ p'.startIdx := by
  induction as with
  | nil => exact fun pos prev => ⟨nofun, nil⟩
  | cons a as ih =>
    intro pos prev
    obtain ⟨hle, hpairwise⟩ := ih (pos + (a.startIdx - prev) + (a.content encode).length) a.endIdx
    refine ⟨fun p hp => ?_, pairwise_cons.2 ⟨hle, hpairwise⟩⟩
    rcases mem_cons.1 hp with rfl | hp
    · exact le_add_right _ _
    · have := hle p hp
      omega

/-- The contents are in the new prompt. -/
theorem slice_placementsFrom
    (h : ∀ a ∈ applied, a.startIdx ≤ prompt.length) : ∀ {l : List MatchToApply}, applied = l ++ as →
      ∀ p ∈ placementsFrom encode (replaceFrom encode prompt 0 l).length (lastEnd 0 l) as,
        slice (replaceFrom encode prompt 0 applied ++ rest) p.startIdx
          (p.startIdx + p.tokens.length) = p.tokens := by
  induction as with
  | nil => exact fun _ => nofun
  | cons a as ih =>
    intro l happlied p hp
    have hstart : a.startIdx ≤ prompt.length := h a (by
      rw [happlied]
      exact mem_append_right _ (.head _))
    rcases mem_cons.1 hp with rfl | hp
    · rw [happlied]
      exact slice_content hstart
    · refine ih (by rw [happlied, append_cons]) p ?_
      rw [length_replaceFrom hstart, lastEnd_append]
      exact hp

theorem length_tokens_pos (hupdates : Replaces encode updates)
    (h : Applied prompt updates result applied) {pos prev : ℕ} {p : PlaceholderFeaturesInfo}
    (hp : p ∈ placementsFrom encode pos prev applied) : 0 < p.tokens.length := by
  have hmem : ∀ {as : List MatchToApply} {pos prev : ℕ}, p ∈ placementsFrom encode pos prev as →
      ∃ a ∈ as, p.tokens = a.content encode := by
    intro as
    induction as with
    | nil => exact nofun
    | cons a as ih =>
      intro pos prev hp
      rcases mem_cons.1 hp with rfl | hp
      · exact ⟨a, .head _, rfl⟩
      · obtain ⟨b, hb, heq⟩ := ih hp
        exact ⟨b, .tail _ hb, heq⟩
  obtain ⟨a, ha, heq⟩ := hmem hp
  rw [heq]
  exact length_pos_iff.2 (h.replaces hupdates ha).content

theorem map_placementsFrom: ∀ {pos prev : ℕ},
    (placementsFrom encode pos prev as).map (fun p => (p.modality, p.itemIdx)) =
      as.map fun a => (a.modality, a.itemIdx) := by
  induction as with
  | nil => exact rfl
  | cons a as ih => exact congrArg (_ :: ·) ih

/-! ### Placeholders are found where they were put -/

theorem eq_of_perm_filter {l l' : List PlaceholderFeaturesInfo}
    (h : ∀ modality, (l.filter fun p => p.modality = modality).Perm
      (l'.filter fun p => p.modality = modality))
    (hl : l.Pairwise fun p p' => p.startIdx < p'.startIdx)
    (hl' : l'.Pairwise fun p p' => p.startIdx < p'.startIdx) : l = l' := by
  have hperm : l.Perm l' := perm_iff_count.2 fun p => by
    have hcount : ∀ l : List PlaceholderFeaturesInfo,
        count p (l.filter fun p' => p'.modality = p.modality) = count p l := fun l =>
      count_filter (decide_eq_true rfl)
    rw [← hcount, ← hcount l']
    exact (h p.modality).count_eq p
  exact hperm.eq_of_pairwise (fun p p' _ _ hlt hlt' => absurd hlt hlt'.asymm) hl hl'

section

variable (hupdates : Replaces encode updates)
  (hall : allItemsFound updates (applyTokenMatches encode prompt updates).2 = true)
include hupdates hall

omit hall in
theorem applyTokenMatches_eq : (applyTokenMatches encode prompt updates).1 =
    replaceAll encode prompt (applyMatches encode prompt updates).applied := by
  have hok := applyMatches_ok hupdates prompt
  show ((applyMatches encode prompt updates).outSeqs ++ [prompt.drop _]).flatten = _
  rw [flatten_append, hok.outSeqs, hok.prevEndIdx, flatten_singleton]
  rfl

/-- The scan finds the contents where they were put. -/
theorem unambiguous_iff : Unambiguous encode prompt updates ↔
    iterPlaceholders encode (applyTokenMatches encode prompt updates).1
      (matchedUpdates updates (applyTokenMatches encode prompt updates).2) =
        placements encode prompt updates := by
  have happlied := applyMatches_replacements hupdates hall
  have hok := applyMatches_ok hupdates prompt
  have hscan : iterPlaceholders encode (applyTokenMatches encode prompt updates).1
      (matchedUpdates updates (applyTokenMatches encode prompt updates).2) =
        placements encode prompt updates ↔
      ∀ l a r, (applyMatches encode prompt updates).applied = l ++ a :: r →
        NotConfused encode prompt (replaceAll encode prompt (applyMatches encode prompt updates).applied)
          (applyMatches encode prompt updates).applied l a := by
    rw [applyTokenMatches_eq hupdates]
    exact scan_eq_placements hupdates hok.applied hall rfl (l := []) rfl (le_add_left _ _)
  rw [hscan]
  exact ⟨fun h => h _ happlied, fun h as has => by rwa [has.unique happlied]⟩

/-- The placeholders are found where they were put if and only if no content is taken for that of
another item, or found in the rest of the prompt. -/
theorem placeholders_found_iff :
    FoundWherePut encode prompt updates ↔ Unambiguous encode prompt updates := by
  have hok := applyMatches_ok hupdates prompt
  have happlied := applyMatches_replacements hupdates hall
  have hnew : (applyTokenMatches encode prompt updates).1 = _ := applyTokenMatches_eq hupdates
  have hstart : ∀ a ∈ (applyMatches encode prompt updates).applied, a.startIdx ≤ prompt.length := by
    intro a ha
    have hoccurs := hok.applied.occurrences.mem ha
    have hlt := hoccurs.lt
    obtain ⟨-, -, -, -, hle, -⟩ := hoccurs
    omega
  rw [unambiguous_iff hupdates hall]
  constructor
  · intro h
    refine eq_of_perm_filter h.found ?_ ?_
    · unfold iterPlaceholders
      split_ifs
      · exact nil
      · exact (pairwise_iterPlaceholdersFrom _ _).2
    · refine (pairwise_placementsFrom _ _).2.imp_of_mem fun {p p'} hp _ hle => ?_
      have := length_tokens_pos hupdates hok.applied hp
      omega
  · intro h
    refine ⟨hok.applied, hnew, ?_, (pairwise_placementsFrom _ _).2, ?_, fun modality => ?_⟩
    · rw [placements, map_placementsFrom]
      refine (perm_ext_iff_of_nodup hok.applied.nodup (nodup_itemsOf updates)).2 fun x =>
        ⟨fun hx => hok.applied.subset hx, fun hx => ?_⟩
      obtain ⟨item, hitem, rfl⟩ := mem_map.1 hx
      exact happlied.all item hitem
    · rw [hnew]
      exact slice_placementsFrom hstart (l := []) rfl
    · unfold findMmPlaceholders
      rw [h]

end

/-- Items of one modality, each with a target of token ids and a content of token ids. -/
def tokenUpdates (items : List (List ℕ × List ℕ)) : MultiModalPromptUpdates :=
  [items.map fun item => [⟨.replace, .seq (.tokens item.1), .tokens item.2⟩]]

theorem tokenUpdates_replaces {items : List (List ℕ × List ℕ)}
    (h : ∀ item ∈ items, item.1 ≠ [] ∧ item.2 ≠ []) : Replaces encode (tokenUpdates items) := by
  intro items' hitems us hus update hupdate
  rw [mem_singleton.1 hitems] at hus
  obtain ⟨item, hitem, rfl⟩ := mem_map.1 hus
  rw [mem_singleton.1 hupdate]
  exact ⟨rfl, ⟨item.1, (h item hitem).1, rfl⟩, (h item hitem).2⟩

/-- The contents are not in the text. -/
theorem placeholders_found_iff_two :
    FoundWherePut (fun _ => []) [1, 9, 2, 9] (tokenUpdates [([9], [5, 5]), ([9], [5, 5])]) :=
  (placeholders_found_iff (tokenUpdates_replaces (by decide)) (by decide)).2
    ((unambiguous_iff (tokenUpdates_replaces (by decide)) (by decide)).2 (by decide))

/-- The content `[5, 5]` is found in the text before it. -/
theorem placeholder_in_text : Replaces (fun _ => []) (tokenUpdates [([9], [5, 5])]) ∧
      allItemsFound (tokenUpdates [([9], [5, 5])])
        (applyTokenMatches (fun _ => []) [5, 5, 9] (tokenUpdates [([9], [5, 5])])).2 = true ∧
      ¬ FoundWherePut (fun _ => []) [5, 5, 9] (tokenUpdates [([9], [5, 5])]) :=
  ⟨tokenUpdates_replaces (by decide), by decide, fun h => absurd (h.found 0) (by decide)⟩

/-- The targets are not in the order of the items: the second content is not found. -/
example : ¬ FoundWherePut (fun _ => []) [8, 9] (tokenUpdates [([9], [5]), ([8], [6])]) :=
  fun h => absurd (h.found 0) (by decide)

end LoptVllm.Multimodal
