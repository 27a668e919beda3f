import Mathlib.Data.List.AList

/-!
# Ordered dictionaries

A dictionary that remembers the order in which its keys were inserted, with the operations of
Python's `OrderedDict`. The entries of the association list are listed from the last to the first,
so that a new key comes at its head.
-/

namespace LoptVllm

open List Function AList

/-- An ordered dictionary. -/
abbrev OrderedDict (κ β : Type*) := AList fun _ : κ => β

namespace OrderedDict

variable {κ β : Type*} (d : OrderedDict κ β)

/-- The items from the first to the last. -/
def items : List (κ × β) := (d.entries.map fun e => (e.1, e.2)).reverse

/-- The values, from the last to the first. -/
def values : List β := d.entries.map fun e => e.2

/-- `popitem(last=False)`, `n` times. -/
def dropFirst (n : ℕ) : OrderedDict κ β :=
  ⟨d.entries.take (d.entries.length - n), d.nodupKeys.sublist (List.take_sublist _ _)⟩

/-- The value of a key is an object that is changed in place. -/
def modify [DecidableEq κ] (d : OrderedDict κ β) (k : κ) (f : β → β) : OrderedDict κ β :=
  ⟨d.entries.map fun e => if e.1 = k then ⟨e.1, f e.2⟩ else e, by
    have hkeys : (d.entries.map fun e => if e.1 = k then ⟨e.1, f e.2⟩ else e).keys =
        d.entries.keys := by
      unfold List.keys
      rw [List.map_map]
      refine List.map_congr_left fun e _ => ?_
      rw [comp_apply]
      split_ifs <;> rfl
    exact (congrArg List.Nodup hkeys).mpr d.nodupKeys⟩

variable [DecidableEq κ]

/-- `d[k] = v`: a key that is there keeps its place. -/
def setItem (d : OrderedDict κ β) (k : κ) (v : β) : OrderedDict κ β :=
  if k ∈ d then d.modify k fun _ => v else d.insert k v

/-- `d.move_to_end(k)`, which fails if the key is not there. -/
def moveToEnd? (d : OrderedDict κ β) (k : κ) : Option (OrderedDict κ β) :=
  (d.lookup k).map fun v => d.insert k v

/-! ### Entries -/

variable {d : OrderedDict κ β} {k : κ} {v : β}

theorem mem_entries : ⟨k, v⟩ ∈ d.entries ↔ d.lookup k = some v :=
  (mem_dlookup_iff d.nodupKeys).symm

theorem mem_items : (k, v) ∈ d.items ↔ d.lookup k = some v := by
  rw [← mem_entries]
  unfold items
  rw [mem_reverse, mem_map]
  constructor
  · rintro ⟨⟨k', v'⟩, he, heq⟩
    cases heq
    exact he
  · exact fun he => ⟨⟨k, v⟩, he, rfl⟩

theorem entries_perm_cons_erase (h : d.lookup k = some v) :
    d.entries.Perm (⟨k, v⟩ :: (d.erase k).entries) := by
  have hmem : k ∈ d.entries.keys := mem_keys.1 (lookup_isSome.1 (by rw [h]; rfl))
  obtain ⟨v', l₁, l₂, -, heq, hkerase⟩ := exists_of_kerase hmem
  have hv : ⟨k, v'⟩ ∈ d.entries := by
    rw [heq]
    exact mem_append_right _ (.head _)
  obtain rfl : v' = v := Option.some.inj ((mem_entries.1 hv).symm.trans h)
  show d.entries.Perm (⟨k, v'⟩ :: d.entries.kerase k)
  rw [hkerase, heq]
  exact perm_middle

theorem length_erase (h : k ∈ d) : (d.erase k).entries.length + 1 = d.entries.length := by
  obtain ⟨v, hv⟩ := Option.isSome_iff_exists.1 (lookup_isSome.2 h)
  exact (entries_perm_cons_erase hv).length_eq.symm

theorem values_perm_cons_erase (h : d.lookup k = some v) :
    d.values.Perm (v :: values (d.erase k)) :=
  List.Perm.map (fun e : Sigma fun _ : κ => β => e.2) (entries_perm_cons_erase h)

theorem values_insert_of_notMem (h : k ∉ d) (v : β) : values (d.insert k v) = v :: d.values := by
  unfold values
  rw [AList.entries_insert_of_notMem h]
  rfl

/-! ### Changing a value in place -/

@[simp] theorem keys_modify (d : OrderedDict κ β) (k : κ) (f : β → β) :
    (d.modify k f).keys = d.keys := by
  show (d.entries.map _).map _ = d.entries.map _
  rw [map_map]
  refine map_congr_left fun e _ => ?_
  rw [comp_apply]
  split_ifs <;> rfl

@[simp] theorem mem_modify {a : κ} {f : β → β} : a ∈ d.modify k f ↔ a ∈ d := by
  rw [AList.mem_keys, keys_modify, AList.mem_keys]

variable (d)

@[simp] theorem length_modify (k : κ) (f : β → β) :
    (d.modify k f).entries.length = d.entries.length := length_map _

theorem lookup_modify (k a : κ) (f : β → β) :
    (d.modify k f).lookup a = if a = k then (d.lookup k).map f else d.lookup a := by
  cases hv : d.lookup a with
  | none =>
    have hnot : (d.modify k f).lookup a = none :=
      lookup_eq_none.2 fun h => lookup_eq_none.1 hv (mem_modify.1 h)
    rw [hnot]
    split_ifs with h
    · rw [← h, hv]
      rfl
    · rfl
  | some v =>
    have hmem : (if a = k then ⟨a, f v⟩ else ⟨a, v⟩ : Sigma fun _ : κ => β) ∈
        (d.modify k f).entries := mem_map.2 ⟨⟨a, v⟩, mem_entries.2 hv, rfl⟩
    by_cases h : a = k
    · subst h
      rw [if_pos rfl] at hmem ⊢
      rw [hv, mem_entries.1 hmem]
      rfl
    · rw [if_neg h] at hmem ⊢
      exact mem_entries.1 hmem

/-- What does not change in a value does not change in the list of values. -/
theorem map_values_modify {γ : Type*} (d : OrderedDict κ β) (k : κ) {f : β → β} {g : β → γ}
    (h : ∀ v, g (f v) = g v) : (d.modify k f).values.map g = d.values.map g := by
  unfold values modify
  rw [map_map, map_map, map_map]
  refine map_congr_left fun e _ => ?_
  simp only [comp_apply]
  split_ifs
  · exact h e.2
  · rfl

/-! ### Setting a value -/

theorem lookup_setItem (k a : κ) (v : β) :
    (d.setItem k v).lookup a = if a = k then some v else d.lookup a := by
  unfold setItem
  split_ifs with hmem ha ha
  · obtain ⟨v', hv'⟩ := Option.isSome_iff_exists.1 (lookup_isSome.2 hmem)
    rw [lookup_modify, if_pos ha, hv']
    rfl
  · rw [lookup_modify, if_neg ha]
  · rw [ha, lookup_insert]
  · rw [lookup_insert_ne ha]

theorem lookup_erase' (a k : κ) : (d.erase a).lookup k = if k = a then none else d.lookup k := by
  by_cases h : k = a
  · rw [if_pos h, h, lookup_erase]
  · rw [if_neg h, lookup_erase_ne h]

variable {d}

@[simp] theorem mem_setItem {a : κ} : a ∈ d.setItem k v ↔ a = k ∨ a ∈ d := by
  rw [← lookup_isSome, lookup_setItem, ← lookup_isSome]
  split_ifs with h <;> simp [h]

theorem setItem_of_notMem (h : k ∉ d) (v : β) : d.setItem k v = d.insert k v := if_neg h

theorem length_setItem (h : k ∉ d) (v : β) :
    (d.setItem k v).entries.length = d.entries.length + 1 := by
  rw [setItem_of_notMem h, entries_insert_of_notMem h]
  rfl

variable {d' : OrderedDict κ β}

theorem entries_perm_of_lookup (h : ∀ k, d.lookup k = d'.lookup k) : d.entries.Perm d'.entries :=
  lookup_ext d.nodupKeys d'.nodupKeys fun k _ => iff_of_eq (congrArg (_ ∈ ·) (h k))

/-- The values once one is set: that one and those of the other keys. -/
theorem values_setItem_perm (d : OrderedDict κ β) (k : κ) (v : β) :
    (d.setItem k v).values.Perm (v :: values (d.erase k)) := by
  have h : ∀ a, (d.setItem k v).lookup a = lookup a (d.insert k v) := fun a => by
    rw [lookup_setItem]
    by_cases ha : a = k
    · rw [if_pos ha, ha, lookup_insert]
    · rw [if_neg ha, lookup_insert_ne ha]
  exact List.Perm.map (fun e : Sigma fun _ : κ => β => e.2) (entries_perm_of_lookup h)

/-- Setting the values of several new keys, one after the other. -/
theorem foldl_setItem {l : List (κ × β)} (hl : (l.map Prod.fst).Nodup) :
    ∀ {d : OrderedDict κ β}, (∀ k ∈ l.map Prod.fst, k ∉ d) →
      (l.foldl (fun d e => d.setItem e.1 e.2) d).keys = (l.map Prod.fst).reverse ++ d.keys ∧
      (l.foldl (fun d e => d.setItem e.1 e.2) d).values = (l.map Prod.snd).reverse ++ d.values ∧
      (∀ e ∈ l, (l.foldl (fun d e => d.setItem e.1 e.2) d).lookup e.1 = some e.2) ∧
      ∀ a, a ∉ l.map Prod.fst →
        (l.foldl (fun d e => d.setItem e.1 e.2) d).lookup a = d.lookup a := by
  induction l with
  | nil => simp
  | cons e l ih =>
    intro d hd
    rw [map_cons, nodup_cons] at hl
    have he : e.1 ∉ d := hd e.1 (.head _)
    have hd' : ∀ k ∈ l.map Prod.fst, k ∉ d.setItem e.1 e.2 := fun k hk hmem => by
      rcases mem_setItem.1 hmem with rfl | hmem
      · exact hl.1 hk
      · exact hd k (.tail _ hk) hmem
    obtain ⟨hkeys, hvalues, hnew, hold⟩ := ih hl.2 hd'
    have hkeys' : (d.setItem e.1 e.2).keys = e.1 :: d.keys := by
      rw [setItem_of_notMem he, keys_insert, erase_of_not_mem he]
    have hvalues' : (d.setItem e.1 e.2).values = e.2 :: d.values := by
      rw [setItem_of_notMem he, values_insert_of_notMem he]
    refine ⟨?_, ?_, fun e' he' => ?_, fun a ha => ?_⟩
    · rw [foldl_cons, hkeys, hkeys']
      simp
    · rw [foldl_cons, hvalues, hvalues']
      simp
    · rw [foldl_cons]
      rcases mem_cons.1 he' with rfl | he'
      · rw [hold _ hl.1, lookup_setItem, if_pos rfl]
      · exact hnew e' he'
    · rw [map_cons, mem_cons, not_or] at ha
      rw [foldl_cons, hold a ha.2, lookup_setItem, if_neg ha.1]

/-! ### Moving a key to the end -/

theorem moveToEnd?_eq_some (h : d.moveToEnd? k = some d') :
    ∃ v, d.lookup k = some v ∧ d' = d.insert k v := by
  obtain ⟨v, hv, rfl⟩ := Option.map_eq_some_iff.1 h
  exact ⟨v, hv, rfl⟩

theorem insert_perm_of_lookup (h : d.lookup k = some v) :
    (d.insert k v).entries.Perm d.entries := (entries_perm_cons_erase h).symm

theorem lookup_insert_of_lookup (h : d.lookup k = some v)
    (a : κ) : (d.insert k v).lookup a = d.lookup a := perm_lookup (insert_perm_of_lookup h)

/-! ### Dropping the first items -/

omit [DecidableEq κ] in
theorem length_dropFirst (d : OrderedDict κ β) (n : ℕ) :
    (d.dropFirst n).entries.length = d.entries.length - n := by
  show (d.entries.take _).length = _
  rw [length_take]
  omega

omit [DecidableEq κ] in
theorem mem_of_mem_dropFirst {n : ℕ} (h : k ∈ d.dropFirst n) : k ∈ d :=
  List.Sublist.subset (List.Sublist.map _ (take_sublist _ _)) h

end OrderedDict

end LoptVllm
