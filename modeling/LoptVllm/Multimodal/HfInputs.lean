import LoptVllm.Multimodal.Batching
import LoptVllm.Multimodal.Splitting

/-!
# The data of a processor is split into items and batched again
-/

namespace LoptVllm.Multimodal

open List Except

open Lib Lib.NestedArray

variable {δ α : Type}

/-! ### The keyword arguments with items -/

/-- A keyword argument that is split into items: the data of its elements. -/
structure Kwarg (δ α : Type) where
  key : String
  config : MultiModalFieldConfig
  datas : List (NestedTensors (Tensor δ α))

/-- The elements of a keyword argument. -/
def Kwarg.elems (c : Kwarg δ α) : List (MultiModalFieldElem (Tensor δ α)) :=
  c.datas.map fun data => ⟨c.config.modality, c.key, data, c.config.field⟩

/-- The field of a keyword argument makes elements of its data. -/
def HasItems (hfInputs : String → NestedTensors (Tensor δ α))
    (entry : String × MultiModalFieldConfig) : Prop :=
  hfInputs entry.1 ≠ .none ∧
    ∃ x datas, buildData entry.2.field (hfInputs entry.1) = .ok (x :: datas)

/-- The keyword arguments with items are kept. -/
def KeepsItems (hfInputs : String → NestedTensors (Tensor δ α))
    (configByKey : List (String × MultiModalFieldConfig)) (kept : List (Kwarg δ α)) : Prop :=
  (∀ c ∈ kept, (c.key, c.config) ∈ configByKey ∧ hfInputs c.key ≠ .none ∧ c.datas ≠ [] ∧
    buildData c.config.field (hfInputs c.key) = .ok c.datas) ∧
  ∀ entry ∈ configByKey, HasItems hfInputs entry → ∃ c ∈ kept, c.key = entry.1

variable {hfInputs : String → NestedTensors (Tensor δ α)}
  {configByKey : List (String × MultiModalFieldConfig)}

theorem elemsByKey_spec {columns : List (String × List (MultiModalFieldElem (Tensor δ α)))}
    (h : elemsByKey hfInputs configByKey = .ok columns) :
    ∃ kept : List (Kwarg δ α), columns = kept.map (fun c => (c.config.modality, c.elems)) ∧
      (kept.map (·.key)).Sublist (configByKey.map (·.1)) ∧
      KeepsItems hfInputs configByKey kept := by
  induction configByKey generalizing columns with
  | nil =>
    cases h
    exact ⟨[], rfl, .slnil, nofun, nofun⟩
  | cons entry configByKey ih =>
    obtain ⟨key, config⟩ := entry
    by_cases hskip : elemsByKey hfInputs configByKey = .ok columns ∧ ¬ HasItems hfInputs (key, config)
    · obtain ⟨hcolumns, hno⟩ := hskip
      obtain ⟨kept, rfl, hsub, hkept, hall⟩ := ih hcolumns
      refine ⟨kept, rfl, hsub.cons key, fun c hc => ?_, fun e he hitems => ?_⟩
      · exact ⟨.tail _ (hkept c hc).1, (hkept c hc).2⟩
      · rcases mem_cons.1 he with rfl | he
        · exact absurd hitems hno
        · exact hall e he hitems
    by_cases hnone : hfInputs key = .none
    · unfold elemsByKey at h
      rw [hnone] at h
      exact absurd ⟨h, fun hitems => hitems.1 hnone⟩ hskip
    · have hstep : elemsByKey hfInputs ((key, config) :: configByKey) =
          (buildElems config.field config.modality key (hfInputs key) >>= fun elems =>
            elemsByKey hfInputs configByKey >>= fun rest =>
              .ok (if elems = [] then rest else (config.modality, elems) :: rest)) := by
        conv_lhs => unfold elemsByKey
        cases hdata : hfInputs key with
        | none => exact absurd hdata hnone
        | number | tensor | list => rfl
      rw [hstep] at h
      obtain ⟨elems, helems, h⟩ := bind_ok.1 h
      obtain ⟨rest, hrest, h⟩ := bind_ok.1 h
      obtain ⟨datas, hdatas, helems⟩ := bind_ok.1 helems
      obtain rfl := ok.inj helems
      obtain rfl := ok.inj h
      cases datas with
      | nil =>
        refine absurd ⟨hrest, ?_⟩ hskip
        rintro ⟨-, x, datas, hbuild⟩
        rw [hdatas] at hbuild
        cases hbuild
      | cons x datas =>
        obtain ⟨kept, rfl, hsub, hkept, hall⟩ := ih hrest
        refine ⟨⟨key, config, x :: datas⟩ :: kept, rfl, hsub.cons_cons key, fun c hc => ?_,
          fun e he hitems => ?_⟩
        · rcases mem_cons.1 hc with rfl | hc
          · exact ⟨.head _, hnone, cons_ne_nil _ _, hdatas⟩
          · exact ⟨.tail _ (hkept c hc).1, (hkept c hc).2⟩
        · rcases mem_cons.1 he with rfl | he
          · exact ⟨_, .head _, rfl⟩
          · obtain ⟨c, hc, hkey⟩ := hall e he hitems
            exact ⟨c, .tail _ hc, hkey⟩

/-! ### The items of a modality -/

/-- The `i`-th item has the `i`-th element of each keyword argument. -/
structure Split (kept : List (Kwarg δ α)) (items : List (MultiModalKwargsItem (Tensor δ α))) :
    Prop where
  keys_nodup : (kept.map (·.key)).Nodup
  length_eq : ∀ c ∈ kept, c.datas.length = items.length
  elems_eq : ∀ (i : ℕ) (hi : i < items.length), items[i].elems = kept.filterMap fun c => c.elems[i]?

theorem elem?_eq_some_iff {τ : Type} {item : MultiModalKwargsItem τ} {key : String}
    {elem : MultiModalFieldElem τ} :
    item.elem? key = some elem ↔ elem ∈ item.elems ∧ elem.key = key := by
  have hfilter := filter_key_eq item.keys_nodup key
  constructor
  · intro h
    exact ⟨mem_of_find?_eq_some h, by simpa using find?_some h⟩
  · rintro ⟨hmem, hkey⟩
    have hin : elem ∈ item.elems.filter fun e => e.key = key :=
      mem_filter.2 ⟨hmem, by simpa using hkey⟩
    rw [hfilter, Option.mem_toList] at hin
    exact hin

theorem elems_of_fromElems {τ : Type} {elems : List (MultiModalFieldElem τ)}
    {item : MultiModalKwargsItem τ} (hnodup : (elems.map (·.key)).Nodup)
    (h : fromElems elems = .ok item) : item.elems = elems := by
  have hdict := dictOfElems_of_nodup hnodup
  unfold fromElems at h
  split at h
  · cases h
  · next e rest hd =>
    split_ifs at h
    rw [← ok.inj h]
    exact hd.symm.trans hdict

/-- What is left of a list has no more keys. -/
theorem sublist_filterMap {β γ : Type} {f : β → Option γ} {key : β → String} {key' : γ → String}
    (h : ∀ b c, f b = some c → key' c = key b) (l : List β) :
    ((l.filterMap f).map key').Sublist (l.map key) := by
  induction l with
  | nil => exact .slnil
  | cons b l ih =>
    cases hf : f b with
    | none =>
      rw [filterMap_cons_none hf]
      exact ih.cons _
    | some c =>
      rw [filterMap_cons_some hf, map_cons, map_cons, h b c hf]
      exact ih.cons_cons _

theorem key_of_elems {c : Kwarg δ α} {i : ℕ} {elem : MultiModalFieldElem (Tensor δ α)}
    (h : c.elems[i]? = some elem) : elem.key = c.key ∧ elem.modality = c.config.modality := by
  obtain ⟨data, -, rfl⟩ := mem_map.1 (mem_of_getElem? h)
  exact ⟨rfl, rfl⟩

/-- The items of a modality are split from the keyword arguments that have items. -/
theorem split_of_fromHfInputs {modality : String} (hnodup : (configByKey.map (·.1)).Nodup)
    (hmodality : ∀ entry ∈ configByKey, entry.2.modality = modality)
    {items : MultiModalKwargsItems (Tensor δ α)}
    (h : fromHfInputs hfInputs configByKey = .ok items) :
    ∃ kept : List (Kwarg δ α), Split kept items.toList ∧
      KeepsItems hfInputs configByKey kept := by
  obtain ⟨columns, hcolumns, h⟩ := bind_ok.1 h
  obtain ⟨itemss, hitemss, h⟩ := bind_ok.1 h
  obtain rfl := ok.inj h
  obtain ⟨kept, rfl, hsub, hkept, hall⟩ := elemsByKey_spec hcolumns
  refine ⟨kept, ?_, hkept, hall⟩
  have hkeys : (kept.map (·.key)).Nodup := hsub.nodup hnodup
  cases kept with
  | nil =>
    cases hitemss
    exact ⟨hkeys, nofun, fun i hi => absurd hi (Nat.not_lt_zero i)⟩
  | cons c kept =>
    have hmod : ∀ c' ∈ c :: kept, c'.config.modality = modality := fun c' hc' =>
      hmodality _ (hkept c' hc').1
    have hcols : (c :: kept).map (fun c => (c.config.modality, c.elems)) =
        (c :: kept).map fun c => (modality, c.elems) :=
      map_congr_left fun c' hc' => by rw [hmod c' hc']
    have hone : uniqueInOrder (((c :: kept).map fun c => (c.config.modality, c.elems)).map (·.1)) =
        [modality] := by
      refine uniqueInOrder_const (cons_ne_nil _ _) fun m hm => ?_
      rw [map_map] at hm
      obtain ⟨c', hc', rfl⟩ := mem_map.1 hm
      exact hmod c' hc'
    rw [hone, mapM_cons, mapM_nil] at hitemss
    obtain ⟨items, hitems, hitemss⟩ := bind_ok.1 hitemss
    obtain rfl : [items] = itemss := ok.inj hitemss
    rw [hcols, filter_eq_self.2 (by
      intro x hx
      obtain ⟨c', -, rfl⟩ := mem_map.1 hx
      simp), map_map] at hitems
    simp only [itemsOfModality, map_cons] at hitems
    split_ifs at hitems with hlen
    have hall₂ := mapM_eq_ok.1 hitems
    have hlength : items.length = c.datas.length := by
      have := hall₂.length_eq
      rw [length_range] at this
      rw [← this]
      exact length_map _
    have helems : ∀ (i : ℕ) (hi : i < items.length),
        items[i].elems = (c :: kept).filterMap fun c => c.elems[i]? := by
      intro i hi
      have hget := hall₂.get (by rw [hall₂.length_eq]; exact hi) hi
      rw [get_eq_getElem, getElem_range] at hget
      have hmap : (c.elems :: kept.map fun x => x.elems).filterMap (·[i]?) =
          (c :: kept).filterMap fun c => c.elems[i]? := by
        rw [← map_cons, filterMap_map]
        rfl
      rw [← hmap]
      refine elems_of_fromElems ?_ hget
      rw [hmap]
      exact (sublist_filterMap (fun _ _ h => (key_of_elems h).1) _).nodup hkeys
    have hmods : ∀ item ∈ items, item.modality = modality := by
      intro item hitem
      obtain ⟨i, hi, rfl⟩ := getElem_of_mem hitem
      obtain ⟨elem, helem⟩ := exists_mem_of_ne_nil _ items[i].elems_ne_nil
      have hmem := helem
      rw [helems i] at hmem
      obtain ⟨c', hc', hget⟩ := mem_filterMap.1 hmem
      rw [← items[i].modality_eq elem helem, (key_of_elems hget).2, hmod c' hc']
    rw [flatten_singleton, toList_fromSeq hmods]
    refine ⟨hkeys, fun c' hc' => ?_, helems⟩
    rcases mem_cons.1 hc' with rfl | hc'
    · exact hlength.symm
    · rw [hlength]
      have hlen' : c'.elems.length = c.elems.length := hlen _ (mem_map_of_mem hc')
      unfold Kwarg.elems at hlen'
      rwa [length_map, length_map] at hlen'

section

variable {kept : List (Kwarg δ α)} {items : List (MultiModalKwargsItem (Tensor δ α))}

/-- The elements of a keyword argument are found in the items again. -/
theorem Split.elemsOf_eq (h : Split kept items) {c : Kwarg δ α} (hc : c ∈ kept) :
    elemsOf items c.key = c.elems := by
  have hlen : c.elems.length = items.length := by
    unfold Kwarg.elems
    rw [length_map, h.length_eq c hc]
  have hget : ∀ (i : ℕ) (hi : i < items.length) (hi' : i < c.elems.length),
      items[i].elem? c.key = some c.elems[i] := by
    intro i hi hi'
    refine elem?_eq_some_iff.2 ⟨?_, (key_of_elems (getElem?_eq_getElem _)).1⟩
    rw [h.elems_eq i]
    exact mem_filterMap.2 ⟨c, hc, getElem?_eq_getElem _⟩
  have hsome : ∀ item ∈ items, (item.elem? c.key).isSome := by
    intro item hitem
    obtain ⟨i, hi, rfl⟩ := getElem_of_mem hitem
    rw [hget i hi (hlen.symm ▸ hi)]
    rfl
  rw [Multimodal.elemsOf_eq]
  refine ext_getElem? fun i => ?_
  rw [getElem?_filterMap_of_isSome hsome]
  by_cases hi : i < items.length
  · rw [getElem?_eq_getElem hi, Option.bind_some, hget i hi (hlen.symm ▸ hi), getElem?_eq_getElem]
  · rw [getElem?_eq_none (Nat.le_of_not_lt hi), getElem?_eq_none (by omega)]
    rfl

theorem Split.mem_keysOf_iff (h : Split kept items) (hne : ∀ c ∈ kept, c.datas ≠ []) {key : String} :
    key ∈ keysOf items ↔ ∃ c ∈ kept, c.key = key := by
  constructor
  · intro hkey
    obtain ⟨elem, helem⟩ := exists_mem_of_ne_nil _ (mem_keysOf.1 hkey)
    obtain ⟨hmem, hk⟩ := mem_filter.1 helem
    obtain ⟨item, hitem, hmem⟩ := mem_flatMap.1 hmem
    obtain ⟨i, hi, rfl⟩ := getElem_of_mem hitem
    rw [h.elems_eq i] at hmem
    obtain ⟨c, hc, hget⟩ := mem_filterMap.1 hmem
    exact ⟨c, hc, (key_of_elems hget).1.symm.trans (of_decide_eq_true hk)⟩
  · rintro ⟨c, hc, rfl⟩
    rw [mem_keysOf, h.elemsOf_eq hc]
    exact fun hnil => hne c hc (map_eq_nil_iff.1 hnil)

end

/-! ### Splitting and merging -/

/-- The data of each keyword argument that has items, and no other. -/
def SameAsInputs (hfInputs : String → NestedTensors (Tensor δ α))
    (configByKey : List (String × MultiModalFieldConfig))
    (data : List (String × NestedTensors (Tensor δ α))) : Prop :=
  ∀ entry ∈ configByKey, (HasItems hfInputs entry →
      ∃ d, data.lookup entry.1 = some d ∧ d.nested = (hfInputs entry.1).nested) ∧
    (¬ HasItems hfInputs entry → data.lookup entry.1 = none)

/-- The slices of each flat field tile its data. -/
def TilingFields (hfInputs : String → NestedTensors (Tensor δ α))
    (configByKey : List (String × MultiModalFieldConfig)) : Prop :=
  ∀ entry ∈ configByKey, ∀ keepOnCpu slices dim,
    entry.2.field = .flat keepOnCpu (.seq slices) dim → Tiling dim slices (hfInputs entry.1)

variable {torch : Torch δ α}

variable (torch) in
/-- The tensors of each key that are merged into one lose nothing. -/
def LosslessItems (items : List (MultiModalKwargsItem (Tensor δ α))) : Prop :=
  ∀ key ∈ keysOf items, ∀ first ∈ (elemsOf items key).head?,
    Lossless torch first.field ((elemsOf items key).map (·.data))

/-- What a field makes of its data is merged into the same nested array, exactly if nothing is
lost. -/
theorem exists_reduceBatch_iff {field : MultiModalField} {data x : NestedTensors (Tensor δ α)}
    {datas : List (NestedTensors (Tensor δ α))}
    (htile : ∀ keepOnCpu slices dim, field = .flat keepOnCpu (.seq slices) dim →
      Tiling dim slices data) (h : buildData field data = .ok (x :: datas)) :
    (∃ d, reduceBatch torch field x datas = .ok d ∧ d.nested = data.nested) ↔
      Lossless torch field (x :: datas) := by
  cases field with
  | batched keepOnCpu => exact exists_reduceBatched_iff h
  | flat keepOnCpu slices dim =>
    cases slices with
    | slice s => cases h
    | seq slices =>
      obtain ⟨hd, hkept⟩ := exists_reduceFlat (htile _ _ _ rfl) h
      exact ⟨fun _ => hkept, fun _ => hd⟩
  | shared keepOnCpu batchSize =>
    obtain rfl : x = data := by
      have hmem : x ∈ List.replicate batchSize.toNat data := by
        rw [ok.inj h]
        exact .head _
      exact eq_of_mem_replicate hmem
    refine ⟨fun _ dtype hout => ?_, fun _ => ⟨x, rfl, rfl⟩⟩
    simp only [outType, reduceCtorEq] at hout

/-- A computation for each key that succeeds for each key. -/
theorem exists_forall₂ {β : Type} {g : String → Except PyErr β} {keys : List String}
    (h : ∀ key ∈ keys, ∃ d, g key = .ok d) : ∃ data : List (String × β),
      Forall₂ (fun key e => (g key >>= fun d => .ok (key, d)) = .ok e) keys data := by
  induction keys with
  | nil => exact ⟨[], .nil⟩
  | cons key keys ih =>
    obtain ⟨d, hd⟩ := h key (.head _)
    obtain ⟨data, hdata⟩ := ih fun k hk => h k (mem_cons_of_mem key hk)
    exact ⟨(key, d) :: data, .cons (bind_ok.2 ⟨d, hd, rfl⟩) hdata⟩

/-- `get_data` of the items that are made of inputs gives the inputs back, exactly if nothing is
lost. -/
theorem getData_fromHfInputs_iff {modality : String} (hnodup : (configByKey.map (·.1)).Nodup)
    (hmodality : ∀ entry ∈ configByKey, entry.2.modality = modality)
    (htile : TilingFields hfInputs configByKey) {items : MultiModalKwargsItems (Tensor δ α)}
    (h : fromHfInputs hfInputs configByKey = .ok items) :
    (∃ data, getData torch items = .ok data ∧ SameAsInputs hfInputs configByKey data) ↔
      LosslessItems torch items.toList := by
  obtain ⟨kept, hsplit, hkept, hall⟩ := split_of_fromHfInputs hnodup hmodality h
  have hne : ∀ c ∈ kept, c.datas ≠ [] := fun c hc => (hkept c hc).2.2.1
  -- what is computed for a keyword argument with items
  have hreduce : ∀ c ∈ kept, ∃ x datas, c.datas = x :: datas ∧
      reduceData torch (elemsOf items.toList c.key) = reduceBatch torch c.config.field x datas ∧
      (elemsOf items.toList c.key).map (·.data) = x :: datas ∧
      (elemsOf items.toList c.key).head?.map (·.field) = some c.config.field ∧
      ((∃ d, reduceBatch torch c.config.field x datas = .ok d ∧
        d.nested = (hfInputs c.key).nested) ↔ Lossless torch c.config.field (x :: datas)) := by
    intro c hc
    obtain ⟨hmem, -, -, hbuild⟩ := hkept c hc
    cases hdatas : c.datas with
    | nil => exact absurd hdatas (hne c hc)
    | cons x datas =>
      rw [hdatas] at hbuild
      have helems : elemsOf items.toList c.key =
          (x :: datas).map fun data => ⟨c.config.modality, c.key, data, c.config.field⟩ := by
        rw [hsplit.elemsOf_eq hc, ← hdatas]
        rfl
      refine ⟨x, datas, rfl, ?_, ?_, by rw [helems]; rfl, exists_reduceBatch_iff
        (fun k s dim hf => htile _ hmem k s dim hf) hbuild⟩
      · rw [helems, map_cons]
        simp only [reduceData]
        rw [if_pos fun e he => by
          obtain ⟨data, -, rfl⟩ := mem_map.1 he
          rfl, map_map]
        exact congrArg (reduceBatch torch c.config.field x) (map_id' datas)
      · rw [helems, map_map]
        exact map_id' (x :: datas)
  have hlossless : LosslessItems torch items.toList ↔ ∀ c ∈ kept, ∃ d,
      reduceData torch (elemsOf items.toList c.key) = .ok d ∧
      d.nested = (hfInputs c.key).nested := by
    constructor
    · intro hkeep c hc
      obtain ⟨x, datas, hdatas, hred, hmap, hfield, hiff⟩ := hreduce c hc
      obtain ⟨first, hfirst, hfield⟩ := Option.map_eq_some_iff.1 hfield
      have hk := hkeep c.key ((hsplit.mem_keysOf_iff hne).2 ⟨c, hc, rfl⟩) first hfirst
      rw [hmap, hfield] at hk
      rw [hred]
      exact hiff.2 hk
    · intro hall key hkey first hfirst
      obtain ⟨c, hc, rfl⟩ := (hsplit.mem_keysOf_iff hne).1 hkey
      obtain ⟨x, datas, hdatas, hred, hmap, hfield, hiff⟩ := hreduce c hc
      have hf : first.field = c.config.field := by
        rw [hfirst] at hfield
        exact Option.some.inj hfield
      rw [hmap, hf]
      refine hiff.1 ?_
      rw [← hred]
      exact hall c hc
  rw [hlossless]
  constructor
  · rintro ⟨data, hdata, hsame⟩ c hc
    obtain ⟨d, hd, hred⟩ := lookup_of_getData hdata ((hsplit.mem_keysOf_iff hne).2 ⟨c, hc, rfl⟩)
    obtain ⟨x, datas, hdatas, -⟩ := hreduce c hc
    have hitems : HasItems hfInputs (c.key, c.config) :=
      ⟨(hkept c hc).2.1, x, datas, hdatas ▸ (hkept c hc).2.2.2⟩
    obtain ⟨d', hd', hnested⟩ := (hsame _ (hkept c hc).1).1 hitems
    obtain rfl : d = d' := Option.some.inj (hd.symm.trans hd')
    exact ⟨d, hred, hnested⟩
  · intro hex
    obtain ⟨data, hdata⟩ := @exists_forall₂ _ (fun key =>
      reduceData torch (elemsOf items.toList key)) (keysOf items.toList) fun key hkey => by
        obtain ⟨c, hc, rfl⟩ := (hsplit.mem_keysOf_iff hne).1 hkey
        obtain ⟨d, hd, -⟩ := hex c hc
        exact ⟨d, hd⟩
    refine ⟨data, mapM_eq_ok.2 hdata, fun entry hentry => ⟨fun hitems => ?_, fun hno => ?_⟩⟩
    · obtain ⟨c, hc, hkey⟩ := hall entry hentry hitems
      obtain ⟨d, hd, hnested⟩ := hex c hc
      obtain ⟨d', hd', hred⟩ :=
        (lookup_of_forall₂ hdata _).1 ((hsplit.mem_keysOf_iff hne).2 ⟨c, hc, rfl⟩)
      obtain rfl : d = d' := ok.inj (hd.symm.trans hred)
      rw [← hkey]
      exact ⟨d, hd', hnested⟩
    · refine (lookup_of_forall₂ hdata _).2 fun hkey => hno ?_
      obtain ⟨c, hc, hkey⟩ := (hsplit.mem_keysOf_iff hne).1 hkey
      obtain ⟨hmem, hdata, -, hbuild⟩ := hkept c hc
      obtain ⟨x, datas, hdatas, -⟩ := hreduce c hc
      have hentry' : entry = (c.key, c.config) := inj_on_of_nodup_map hnodup hentry hmem hkey.symm
      rw [hentry']
      exact ⟨hdata, x, datas, hdatas ▸ hbuild⟩

/-- The two directions: what is split is merged to what it was, exactly if nothing is lost; and each
item of a batch of one modality, from whatever requests, finds its own data in it, exactly if the
items have the same keys, the elements of each shared field agree, and nothing is lost. -/
theorem splitting_and_batching_iff (torch : Torch δ α) :
    (∀ (hfInputs : String → NestedTensors (Tensor δ α))
      (configByKey : List (String × MultiModalFieldConfig)) (modality : String)
      (items : MultiModalKwargsItems (Tensor δ α)),
      (configByKey.map (·.1)).Nodup → (∀ entry ∈ configByKey, entry.2.modality = modality) →
      TilingFields hfInputs configByKey → fromHfInputs hfInputs configByKey = .ok items →
      ((∃ data, getData torch items = .ok data ∧ SameAsInputs hfInputs configByKey data) ↔
        LosslessItems torch items.toList)) ∧
    ∀ (items : List (MultiModalKwargsItem (Tensor δ α))) (modality : String)
      (groups : List (String × ℕ × List (String × NestedTensors (Tensor δ α)))),
      items ≠ [] → (∀ item ∈ items, item.modality = modality) →
      groupMmKwargsByModality torch items = .ok groups →
      ∃ data, groups = [(modality, items.length, data)] ∧
        (HasOwnData items data ↔ SameKeys items ∧ KeptItems torch items) := by
  constructor
  · intro hfInputs configByKey modality items hnodup hmodality htile h
    exact getData_fromHfInputs_iff hnodup hmodality htile h
  · intro items modality groups hne hmodality h
    obtain ⟨data, rfl, hdata⟩ := (groupMmKwargsByModality_eq_ok hne hmodality).1 h
    exact ⟨data, rfl, hasOwnData_iff hmodality hdata⟩

/-! ### Examples -/

/-- Tensors of one element type. -/
def oneType : Torch Unit ℤ where
  canCast _ _ := true
  convert _ _ a := a
  canCast_self _ := rfl
  convert_self _ _ := rfl

/-- The field of `pixel_values`, for two videos with two frames and one. -/
def pixelField : MultiModalField :=
  .flat false (.seq [.slice ⟨some 0, some 2, none⟩, .slice ⟨some 2, some 3, none⟩]) 0

/-- A tensor with one axis. -/
def vector (l : List ℤ) : Tensor Unit ℤ :=
  ⟨(), [l.length], node (l.map leaf), l.map leaf, rfl, List.length_map _, fun x hx => by
    obtain ⟨a, -, rfl⟩ := List.mem_map.1 hx
    exact ⟨a, rfl⟩⟩

/-- A video whose audio is used or not. -/
def videoItem (frames : List ℤ) (useAudio : Bool) (videos : ℤ) :
    MultiModalKwargsItem (Tensor Unit ℤ) where
  elems := [⟨"video", "pixel_values", .tensor (vector frames), pixelField⟩,
    ⟨"video", "use_audio_in_video", .number (.bool useAudio), .shared false videos⟩]
  modality := "video"
  keys_nodup := by
    show ["pixel_values", "use_audio_in_video"].Nodup
    decide
  elems_ne_nil := List.cons_ne_nil _ _
  modality_eq elem helem := by
    rcases List.mem_cons.1 helem with rfl | helem
    · rfl
    · rw [List.mem_singleton.1 helem]

/-- The inputs of a request with two videos. -/
def videoInputs (key : String) : NestedTensors (Tensor Unit ℤ) :=
  if key = "pixel_values" then .tensor (vector [4, 5, 6])
  else if key = "use_audio_in_video" then .number (.bool true)
  else .none

/-- The fields of `videoInputs`. -/
def videoConfig : List (String × MultiModalFieldConfig) :=
  [("pixel_values", ⟨pixelField, "video"⟩), ("use_audio_in_video", ⟨.shared false 2, "video"⟩)]

/-- The two videos of `videoInputs`, and one more from another request. -/
theorem splitting_and_batching_iff_videos :
    ((∃ data, getData oneType (fromSeq [videoItem [4, 5] true 2, videoItem [6] true 2]) = .ok data ∧
        SameAsInputs videoInputs videoConfig data) ↔ LosslessItems oneType
        (fromSeq [videoItem [4, 5] true 2, videoItem [6] true 2]).toList) ∧
    ∃ data, groupMmKwargsByModality oneType [videoItem [6] true 2, videoItem [7] true 1] =
        .ok [("video", 2, data)] ∧ (HasOwnData [videoItem [6] true 2, videoItem [7] true 1] data ↔
        SameKeys [videoItem [6] true 2, videoItem [7] true 1] ∧
        KeptItems oneType [videoItem [6] true 2, videoItem [7] true 1]) := by
  have htile : TilingFields videoInputs videoConfig := by
    intro entry hentry keepOnCpu slices dim hfield
    rcases mem_cons.1 hentry with rfl | hentry
    · cases hfield
      refine ⟨0, [[⟨some 0, some 2, none⟩], [⟨some 2, some 3, none⟩]], rfl, by decide, rfl, ?_,
        by decide⟩
      intro ss hss k s n hk hs _
      cases k with
      | zero => exact absurd rfl hk
      | succ k =>
        rcases mem_cons.1 hss with rfl | hss
        · cases hs
        · rw [mem_singleton.1 hss] at hs
          cases hs
    · rw [mem_singleton.1 hentry] at hfield
      cases hfield
  refine ⟨(splitting_and_batching_iff oneType).1 videoInputs videoConfig "video" _ (by decide)
    (fun entry hentry => ?_) htile rfl, ?_⟩
  · rcases mem_cons.1 hentry with rfl | hentry
    · rfl
    · rw [mem_singleton.1 hentry]
  · obtain ⟨groups, hgroups⟩ : ∃ groups, groupMmKwargsByModality oneType
        [videoItem [6] true 2, videoItem [7] true 1] = .ok groups := ⟨_, rfl⟩
    obtain ⟨data, rfl, hown⟩ := (splitting_and_batching_iff oneType).2
      [videoItem [6] true 2, videoItem [7] true 1] "video" groups (cons_ne_nil _ _)
      (fun item hitem => by
        rcases mem_cons.1 hitem with rfl | hitem
        · rfl
        · rw [mem_singleton.1 hitem]
          rfl) hgroups
    exact ⟨data, hgroups, hown⟩

/-- A video whose audio is not used, batched after one of another request whose audio is. -/
theorem batching_mixes_shared :
    ∃ data, groupMmKwargsByModality oneType [videoItem [6] true 1, videoItem [7] false 1] =
        .ok [("video", 2, data)] ∧
      ¬ HasOwnData [videoItem [6] true 1, videoItem [7] false 1] data := by
  refine ⟨_, rfl, fun h => ?_⟩
  obtain ⟨d, first, hd, hfirst, hown⟩ := h "use_audio_in_video" (by decide)
  obtain ⟨elem, helem, hpart⟩ := hown 1 (by decide)
  cases hd
  cases hfirst
  cases helem
  cases hpart

end LoptVllm.Multimodal
