import LoptVllm.Multimodal.Merging

/-!
# The data that a batch of items is run on
-/

namespace LoptVllm.Multimodal

open List Except

open Lib Lib.NestedArray

variable {δ α : Type}

/-! ### The elements of a batch -/

/-- `item[key]`, if it is there. -/
def MultiModalKwargsItem.elem? {τ : Type} (item : MultiModalKwargsItem τ) (key : String) :
    Option (MultiModalFieldElem τ) := item.elems.find? fun elem => elem.key = key

theorem filter_key_eq {τ : Type} {elems : List (MultiModalFieldElem τ)}
    (h : (elems.map (·.key)).Nodup) (key : String) : elems.filter (fun elem => elem.key = key) =
      (elems.find? fun elem => elem.key = key).toList := by
  induction elems with
  | nil => rfl
  | cons elem elems ih =>
    rw [map_cons, nodup_cons] at h
    by_cases hkey : elem.key = key
    · have hrest : elems.filter (fun e => e.key = key) = [] := by
        refine filter_eq_nil_iff.2 fun e he hek => h.1 ?_
        rw [hkey, ← of_decide_eq_true hek]
        exact mem_map_of_mem he
      rw [filter_cons_of_pos (by simpa using hkey), hrest, find?_cons_of_pos (by simpa using hkey)]
      rfl
    · rw [filter_cons_of_neg (by simpa using hkey), ih h.2, find?_cons_of_neg (by simpa using hkey)]

theorem elemsOf_eq (items : List (MultiModalKwargsItem (Tensor δ α))) (key : String) :
    elemsOf items key = items.filterMap (·.elem? key) := by
  unfold elemsOf
  induction items with
  | nil => rfl
  | cons item items ih =>
    rw [flatMap_cons, filter_append, ih, filter_key_eq item.keys_nodup, filterMap_cons]
    show (item.elem? key).toList ++ _ = _
    cases item.elem? key <;> rfl

variable {items : List (MultiModalKwargsItem (Tensor δ α))}

theorem mem_keysOf {key : String} : key ∈ keysOf items ↔ elemsOf items key ≠ [] := by
  unfold keysOf elemsOf
  rw [mem_uniqueInOrder, mem_map]
  constructor
  · rintro ⟨elem, helem, rfl⟩
    exact ne_nil_of_mem (mem_filter.2 ⟨helem, by simp⟩)
  · intro h
    obtain ⟨elem, helem⟩ := exists_mem_of_ne_nil _ h
    obtain ⟨hmem, hkey⟩ := mem_filter.1 helem
    exact ⟨elem, hmem, of_decide_eq_true hkey⟩

/-- The entries of a list of which each gives one. -/
theorem getElem?_filterMap_of_isSome {β γ : Type} {f : β → Option γ} {l : List β}
    (h : ∀ x ∈ l, (f x).isSome) (i : ℕ) : (l.filterMap f)[i]? = l[i]?.bind f := by
  induction l generalizing i with
  | nil => rfl
  | cons x l ih =>
    obtain ⟨y, hy⟩ := Option.isSome_iff_exists.1 (h x (.head _))
    rw [filterMap_cons_some hy]
    cases i with
    | zero => exact hy.symm
    | succ i => exact ih (fun z hz => h z (.tail _ hz)) i

theorem length_filterMap_of_isSome {β γ : Type} {f : β → Option γ} {l : List β}
    (h : ∀ x ∈ l, (f x).isSome) : (l.filterMap f).length = l.length := by
  induction l with
  | nil => rfl
  | cons x l ih =>
    obtain ⟨y, hy⟩ := Option.isSome_iff_exists.1 (h x (.head _))
    rw [filterMap_cons_some hy, length_cons, length_cons, ih fun z hz => h z (.tail _ hz)]

/-! ### The batch of one modality -/

variable {modality : String}

theorem toList_fromSeq
    (h : ∀ item ∈ items, item.modality = modality) : (fromSeq items).toList = items := by
  cases items with
  | nil => rfl
  | cons item items =>
    have hmods : uniqueInOrder ((item :: items).map (·.modality)) = [modality] := by
      refine uniqueInOrder_const (cons_ne_nil _ _) fun m hm => ?_
      obtain ⟨it, hit, rfl⟩ := mem_map.1 hm
      exact h it hit
    show ((uniqueInOrder ((item :: items).map (·.modality))).map _).flatMap _ = item :: items
    rw [hmods]
    rw [map_singleton, flatMap_singleton]
    exact filter_eq_self.2 fun it hit => by simpa using h it hit

variable {torch : Torch δ α}

theorem groupMmKwargsByModality_eq_ok
    (hne : items ≠ []) (h : ∀ item ∈ items, item.modality = modality)
    {groups : List (String × ℕ × List (String × NestedTensors (Tensor δ α)))} :
    groupMmKwargsByModality torch items = .ok groups ↔
      ∃ data, groups = [(modality, items.length, data)] ∧
        getData torch (fromSeq items) = .ok data := by
  have hhead : (items.head?.map (·.modality)).getD "" = modality := by
    cases items with
    | nil => exact absurd rfl hne
    | cons item items => exact h item (.head _)
  unfold groupMmKwargsByModality
  rw [segments_const hne h, mapM_cons, mapM_nil, bind_ok]
  constructor
  · rintro ⟨group, hgroup, hrest⟩
    obtain ⟨data, hdata, hgroup⟩ := bind_ok.1 hgroup
    refine ⟨data, ?_, hdata⟩
    rw [hhead] at hgroup
    obtain rfl := ok.inj hgroup
    exact (ok.inj hrest).symm
  · rintro ⟨data, rfl, hdata⟩
    exact ⟨_, bind_ok.2 ⟨data, hdata, congrArg ok (by rw [hhead])⟩, rfl⟩

/-- What is computed for each key is found under the key. -/
theorem lookup_of_forall₂ {β : Type} {g : String → Except PyErr β} {keys : List String}
    {data : List (String × β)}
    (h : Forall₂ (fun key e => (g key >>= fun d => .ok (key, d)) = .ok e) keys data)
    (key : String) : (key ∈ keys → ∃ d, data.lookup key = some d ∧ g key = .ok d) ∧
      (key ∉ keys → data.lookup key = none) := by
  induction h with
  | nil => exact ⟨nofun, fun _ => rfl⟩
  | @cons k e keys data he _ ih =>
    obtain ⟨d, hd, he⟩ := bind_ok.1 he
    obtain rfl : (k, d) = e := ok.inj he
    by_cases hk : key = k
    · subst hk
      exact ⟨fun _ => ⟨d, lookup_cons_self, hd⟩, fun hkey => absurd (.head _) hkey⟩
    · rw [lookup_cons, beq_false_of_ne hk]
      simpa only [mem_cons, hk, false_or] using ih

theorem lookup_of_getData {items : MultiModalKwargsItems (Tensor δ α)}
    {data : List (String × NestedTensors (Tensor δ α))} (h : getData torch items = .ok data)
    {key : String} (hkey : key ∈ keysOf items.toList) :
    ∃ d, data.lookup key = some d ∧ reduceData torch (elemsOf items.toList key) = .ok d :=
  (lookup_of_forall₂ (mapM_eq_ok.1 h) key).1 hkey

/-! ### Own data -/

variable (items)

/-- Each item has every key of the batch, and finds its own data under it: the `i`-th entry of a
batched field, the `i`-th segment of a flat field, and the value of a shared field. -/
def HasOwnData (data : List (String × NestedTensors (Tensor δ α))) : Prop :=
  ∀ key ∈ keysOf items, ∃ d first, data.lookup key = some d ∧
    (elemsOf items key).head? = some first ∧
    ∀ (i : ℕ) (hi : i < items.length), ∃ elem, items[i].elem? key = some elem ∧
      ownPart first.field ((elemsOf items key).map (·.data)) i d.nested = some elem.data.nested

/-- The items have the same keys. -/
def SameKeys : Prop :=
  ∀ key ∈ keysOf items, ∀ item ∈ items, (item.elem? key).isSome

variable {items}

variable (torch) in
/-- The elements of each shared field agree, and merged tensors lose nothing. -/
def KeptItems (items : List (MultiModalKwargsItem (Tensor δ α))) : Prop :=
  ∀ key ∈ keysOf items, ∀ first ∈ (elemsOf items key).head?,
    FieldKept torch first.field ((elemsOf items key).map (·.data))

/-- Each item of a batch has its own data, exactly if the items have the same keys and each field is
kept. -/
theorem hasOwnData_iff (hm : ∀ item ∈ items, item.modality = modality)
    {data : List (String × NestedTensors (Tensor δ α))}
    (h : getData torch (fromSeq items) = .ok data) :
    HasOwnData items data ↔ SameKeys items ∧ KeptItems torch items := by
  have hlookup := fun key => @lookup_of_getData δ α torch (fromSeq items) data h key
  rw [toList_fromSeq hm] at hlookup
  -- under each key that all items have, the elements are those of the items, in order
  have hkept : SameKeys items → ∀ key ∈ keysOf items, ∃ d first,
      data.lookup key = some d ∧ (elemsOf items key).head? = some first ∧
      ((∀ (i : ℕ) (hi : i < items.length), ∃ elem, items[i].elem? key = some elem ∧
        ownPart first.field ((elemsOf items key).map (·.data)) i d.nested = some elem.data.nested) ↔
        FieldKept torch first.field ((elemsOf items key).map (·.data))) := by
    intro hsame key hkey
    obtain ⟨d, hd, hreduce⟩ := hlookup key hkey
    cases helems : elemsOf items key with
    | nil => exact absurd helems (mem_keysOf.1 hkey)
    | cons first rest =>
      rw [helems] at hreduce
      simp only [reduceData] at hreduce
      split_ifs at hreduce with htypes
      refine ⟨d, first, hd, rfl, ?_⟩
      rw [map_cons, ← ownPart_reduceBatch_iff hreduce]
      have hsome := hsame key hkey
      have hget : ∀ i : ℕ, (first :: rest)[i]? = items[i]?.bind fun item => item.elem? key := fun i => by
        rw [← helems, elemsOf_eq]
        exact getElem?_filterMap_of_isSome hsome i
      have hlen : (first :: rest).length = items.length := by
        rw [← helems, elemsOf_eq]
        exact length_filterMap_of_isSome hsome
      have hlen' : (first.data :: rest.map (·.data)).length = items.length := by
        rw [← hlen, length_cons, length_cons, length_map]
      have hdata : ∀ (i : ℕ) (hi : i < items.length)
          (hi' : i < (first.data :: rest.map (·.data)).length), ∃ elem,
          items[i].elem? key = some elem ∧
          (first.data :: rest.map (·.data))[i] = elem.data := by
        intro i hi hi'
        obtain ⟨elem, helem⟩ := Option.isSome_iff_exists.1 (hsome _ (getElem_mem hi))
        refine ⟨elem, helem, ?_⟩
        have hmap : ((first :: rest).map (·.data))[i]? = some elem.data := by
          rw [getElem?_map, hget, getElem?_eq_getElem]
          exact congrArg (Option.map _) helem
        rw [map_cons, getElem?_eq_getElem hi'] at hmap
        exact Option.some.inj hmap
      constructor
      · intro hown i hi
        obtain ⟨elem, helem, helemdata⟩ := hdata i (hlen' ▸ hi) hi
        obtain ⟨elem', helem', hpart⟩ := hown i (hlen' ▸ hi)
        obtain rfl : elem = elem' := Option.some.inj (helem.symm.trans helem')
        rw [helemdata]
        exact hpart
      · intro hown i hi
        obtain ⟨elem, helem, helemdata⟩ := hdata i hi (hlen' ▸ hi)
        refine ⟨elem, helem, ?_⟩
        rw [← helemdata]
        exact hown i (hlen' ▸ hi)
  constructor
  · intro hown
    have hsame : SameKeys items := by
      intro key hkey item hitem
      obtain ⟨i, hi, rfl⟩ := getElem_of_mem hitem
      obtain ⟨d, first, -, -, hall⟩ := hown key hkey
      obtain ⟨elem, helem, -⟩ := hall i hi
      rw [helem]
      rfl
    refine ⟨hsame, fun key hkey first hfirst => ?_⟩
    obtain ⟨d, first', hd, hfirst', hiff⟩ := hkept hsame key hkey
    obtain ⟨d', first'', hd', hfirst'', hall⟩ := hown key hkey
    obtain rfl : d = d' := Option.some.inj (hd.symm.trans hd')
    obtain rfl : first' = first := Option.some.inj (hfirst'.symm.trans hfirst)
    obtain rfl : first' = first'' := Option.some.inj (hfirst'.symm.trans hfirst'')
    exact hiff.1 hall
  · rintro ⟨hsame, hkeep⟩ key hkey
    obtain ⟨d, first, hd, hfirst, hiff⟩ := hkept hsame key hkey
    exact ⟨d, first, hd, hfirst, hiff.2 (hkeep key hkey first hfirst)⟩

end LoptVllm.Multimodal
