import Mathlib.Data.List.Perm.Subperm
import LoptVllm.Lib.OrderedDict

/-!
# Caches in order of use

A cache that drops the entry that was used the longest ago, except for the entries that are pinned.
-/

namespace LoptVllm

open List Option OrderedDict AList

/-- The entries, and the keys that are not dropped. -/
structure LruCache (κ ν : Type*) where
  data : OrderedDict κ ν
  pinned : List κ

namespace LruCache

variable {κ ν : Type*}

instance : EmptyCollection (LruCache κ ν) := ⟨⟨∅, []⟩⟩

variable [DecidableEq κ]

instance : Membership κ (LruCache κ ν) := ⟨fun c k => k ∈ c.data⟩

instance (k : κ) (c : LruCache κ ν) : Decidable (k ∈ c) := inferInstanceAs (Decidable (k ∈ c.data))

variable (c : LruCache κ ν)

/-- The number of entries. -/
def size : ℕ := c.data.keys.length

variable (k : κ)

def lookup : Option ν := c.data.lookup k

/-- An entry, which becomes the last used. -/
def setItem (v : ν) : LruCache κ ν := { c with data := c.data.insert k v }

/-- A use of a key. -/
def touch : LruCache κ ν := { c with data := (c.data.moveToEnd? k).getD c.data }

/-- The entry goes, and so does its pin. -/
def delItem : LruCache κ ν := ⟨c.data.erase k, c.pinned.filter fun k' => k' ≠ k⟩

def pin : LruCache κ ν := { c with pinned := if k ∈ c.pinned then c.pinned else k :: c.pinned }

/-- The key that was used the longest ago, of those that are not pinned. -/
def oldest? : Option κ := c.data.keys.reverse.find? fun k => k ∉ c.pinned

variable {c} {k : κ}

omit [DecidableEq κ] in
theorem mem_def: k ∈ c ↔ k ∈ c.data.keys := Iff.rfl

theorem mem_iff_lookup: k ∈ c ↔ ∃ v, c.lookup k = some v := by
  rw [← isSome_iff_exists]
  exact lookup_isSome.symm

variable {a : κ}

@[simp] theorem mem_setItem {v : ν} : a ∈ c.setItem k v ↔ a = k ∨ a ∈ c := mem_insert _

@[simp] theorem mem_delItem: a ∈ c.delItem k ↔ a ≠ k ∧ a ∈ c := mem_erase

@[simp] theorem lookup_setItem (k a : κ) (v : ν) :
    (c.setItem k v).lookup a = if a = k then some v else c.lookup a := by
  split_ifs with h
  · subst h
    exact lookup_insert _
  · exact lookup_insert_ne h

@[simp] theorem lookup_delItem (k a : κ) :
    (c.delItem k).lookup a = if a = k then none else c.lookup a := by
  split_ifs with h
  · subst h
    exact lookup_erase _ _
  · exact lookup_erase_ne h

/-- A touched key is put at the end with its value. -/
theorem touch_eq (h : k ∈ c) : ∃ v, c.lookup k = some v ∧ c.touch k = c.setItem k v := by
  obtain ⟨v, hv⟩ := mem_iff_lookup.1 h
  refine ⟨v, hv, ?_⟩
  have hdata : c.data.lookup k = some v := hv
  rw [touch, moveToEnd?, hdata]
  rfl

@[simp] theorem lookup_touch (k a : κ) : (c.touch k).lookup a = c.lookup a := by
  by_cases h : k ∈ c
  · obtain ⟨v, hv, htouch⟩ := touch_eq h
    rw [htouch, lookup_setItem]
    split_ifs with hak
    · rw [hak, hv]
    · rfl
  · have hnone : c.data.lookup k = none := lookup_eq_none.2 h
    rw [touch, moveToEnd?, hnone]
    rfl

@[simp] theorem mem_touch: a ∈ c.touch k ↔ a ∈ c := by
  rw [mem_iff_lookup, mem_iff_lookup, lookup_touch]

@[simp] theorem mem_pinned_delItem : a ∈ (c.delItem k).pinned ↔ a ≠ k ∧ a ∈ c.pinned := by
  simp [delItem, and_comm]

/-- A key that is not pinned leaves the pins as they are. -/
theorem pinned_delItem (h : k ∉ c.pinned) : (c.delItem k).pinned = c.pinned := by
  refine filter_eq_self.2 fun a ha => decide_eq_true ?_
  rintro rfl
  exact h ha

theorem delItem_of_notMem (h : k ∉ c) (hpinned : k ∉ c.pinned) : c.delItem k = c := by
  have hdata : c.data.erase k = c.data := ext (kerase_of_notMem_keys h)
  have hpins : (c.pinned.filter fun k' => k' ≠ k) = c.pinned := pinned_delItem hpinned
  rw [delItem, hdata, hpins]

@[simp] theorem mem_pinned_pin: a ∈ (c.pin k).pinned ↔ a = k ∨ a ∈ c.pinned := by
  unfold pin
  split_ifs with h
  · exact ⟨.inr, fun ha => ha.elim (fun ha => ha ▸ h) id⟩
  · exact mem_cons

theorem size_delItem (h : k ∈ c) : (c.delItem k).size + 1 = c.size := by
  have hkeys : (c.delItem k).data.keys = c.data.keys.erase k := keys_erase _ _
  have hpos : 0 < c.data.keys.length := length_pos_of_mem h
  rw [size, size, hkeys, length_erase_of_mem h]
  omega

theorem size_delItem_le (c : LruCache κ ν) (k : κ) : (c.delItem k).size ≤ c.size := by
  have hkeys : (c.delItem k).data.keys = c.data.keys.erase k := keys_erase _ _
  rw [size, hkeys]
  exact List.length_erase_le

theorem size_setItem (h : k ∉ c) (v : ν) : (c.setItem k v).size = c.size + 1 := by
  have hkeys : (c.setItem k v).data.keys = k :: c.data.keys.erase k := keys_insert _
  rw [size, hkeys, erase_of_not_mem h]
  rfl

theorem size_touch (h : k ∈ c) : (c.touch k).size = c.size := by
  obtain ⟨v, -, htouch⟩ := touch_eq h
  have hkeys : (c.setItem k v).data.keys = k :: c.data.keys.erase k := keys_insert _
  have hpos : 0 < c.data.keys.length := length_pos_of_mem h
  rw [htouch, size, size, hkeys, length_cons, length_erase_of_mem h]
  omega

/-! ### Recent keys -/

/-- The keys `P` have been used after all others. -/
def Recent (c : LruCache κ ν) (P : List κ) : Prop :=
  ∃ new old, c.data.keys = new ++ old ∧ ∀ k, k ∈ new ↔ k ∈ P

omit [DecidableEq κ] in
theorem recent_nil : c.Recent [] := ⟨[], c.data.keys, rfl, fun _ => Iff.rfl⟩

variable {P : List κ}

section

variable (h : c.Recent P)

include h

omit [DecidableEq κ] in
theorem Recent.mem (hk : k ∈ P) : k ∈ c := by
  obtain ⟨new, old, hkeys, hnew⟩ := h
  rw [mem_def, hkeys]
  exact mem_append_left _ ((hnew k).2 hk)

theorem Recent.setItem (k : κ) (v : ν) : (c.setItem k v).Recent (k :: P) := by
  obtain ⟨new, old, hkeys, hnew⟩ := h
  have hnodup := c.data.keys_nodup
  have hinsert : (c.setItem k v).data.keys = k :: c.data.keys.erase k := keys_insert _
  rw [hkeys] at hinsert hnodup
  by_cases hk : k ∈ new
  · refine ⟨k :: new.erase k, old, ?_, fun a => ?_⟩
    · rw [hinsert, erase_append_left _ hk]
      rfl
    · rw [mem_cons, mem_cons, (nodup_append.1 hnodup).1.mem_erase_iff, hnew]
      tauto
  · refine ⟨k :: new, old.erase k, ?_, fun a => ?_⟩
    · rw [hinsert, erase_append_right _ hk]
      rfl
    · rw [mem_cons, mem_cons, hnew]

theorem Recent.touch (hk : k ∈ c) : (c.touch k).Recent (k :: P) := by
  obtain ⟨v, -, htouch⟩ := touch_eq hk
  rw [htouch]
  exact h.setItem k v

theorem Recent.delItem (hk : k ∉ P) : (c.delItem k).Recent P := by
  obtain ⟨new, old, hkeys, hnew⟩ := h
  have herase : (c.delItem k).data.keys = c.data.keys.erase k := keys_erase _ _
  refine ⟨new, old.erase k, ?_, hnew⟩
  rw [herase, hkeys, erase_append_right _ (mt (hnew k).1 hk)]

omit [DecidableEq κ] in
theorem Recent.congr {Q : List κ} (hPQ : ∀ k, k ∈ P ↔ k ∈ Q) : c.Recent Q := by
  obtain ⟨new, old, hkeys, hnew⟩ := h
  exact ⟨new, old, hkeys, fun k => (hnew k).trans (hPQ k)⟩

end

theorem oldest?_mem (h : c.oldest? = some k) : k ∈ c ∧ k ∉ c.pinned := by
  have hmem := mem_of_find?_eq_some h
  have hnot := find?_some h
  exact ⟨mem_reverse.1 hmem, of_decide_eq_true hnot⟩

/-- The pins leave room for the keys of a batch. -/
def Room (pinned : List κ) (capacity : ℕ) (batch : List κ) : Prop :=
  (pinned.filter fun k => k ∉ batch).length + batch.length ≤ capacity

instance (pinned : List κ) (capacity : ℕ) (batch : List κ) : Decidable (Room pinned capacity batch) :=
  inferInstanceAs (Decidable ((pinned.filter fun k => k ∉ batch).length + batch.length ≤ capacity))

/-- A full cache without one key of the batch drops a key, and not one that was used for the batch. -/
theorem oldest?_spec {batch : List κ} {capacity : ℕ} (h : c.Recent P)
    (hroom : Room c.pinned capacity batch) (hP : ∀ k ∈ P, k ∈ batch) {x : κ} (hx : x ∈ batch)
    (hxc : x ∉ c) (hfull : capacity ≤ c.size) : ∃ k, c.oldest? = some k ∧ k ∉ P := by
  obtain ⟨new, old, hkeys, hnew⟩ := h
  have hnodup := c.data.keys_nodup
  by_cases hunpinned : ∃ k ∈ old, k ∉ c.pinned
  · obtain ⟨k, hk, hkp⟩ := hunpinned
    obtain ⟨k', hk'⟩ : ∃ k', old.reverse.find? (fun k => k ∉ c.pinned) = some k' := by
      rw [← isSome_iff_exists, find?_isSome]
      exact ⟨k, mem_reverse.2 hk, decide_eq_true hkp⟩
    refine ⟨k', ?_, fun hk'P => ?_⟩
    · rw [oldest?, hkeys, reverse_append, find?_append, hk']
      rfl
    · have hold := mem_reverse.1 (mem_of_find?_eq_some hk')
      rw [hkeys] at hnodup
      exact (nodup_append.1 hnodup).2.2 _ ((hnew k').2 hk'P) _ hold rfl
  · push Not at hunpinned
    -- the keys are pinned or of the batch, and `x` is missing
    have hsub : c.data.keys ⊆ (c.pinned.filter fun k => k ∉ batch) ++ batch.erase x := by
      intro k hk
      rw [mem_append]
      by_cases hkb : k ∈ batch
      · refine .inr ((mem_erase_of_ne ?_).2 hkb)
        rintro rfl
        exact hxc hk
      · refine .inl (mem_filter.2 ⟨hunpinned k ?_, decide_eq_true hkb⟩)
        rw [hkeys, mem_append] at hk
        exact hk.resolve_left fun hkn => hkb (hP k ((hnew k).1 hkn))
    have hle := (subperm_of_subset hnodup hsub).length_le
    rw [length_append, length_erase_of_mem hx] at hle
    have hpos := length_pos_of_mem hx
    unfold Room at hroom
    unfold size at hfull
    omega

end LruCache

end LoptVllm
