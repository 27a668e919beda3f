import Mathlib.Data.List.Dedup
import Mathlib.Data.List.Sort

/-!
# Sorted values and groups

What array code does with sorting: the sorted distinct values of a list, the values in the order of
their first appearance, and the segments of a list in which a key does not change.
-/

namespace LoptVllm.Lib

open List Or

section

variable {α : Type*} [LinearOrder α]

/-- The distinct values, sorted. -/
def sortedUnique (l : List α) : List α := l.dedup.mergeSort

@[simp] theorem mem_sortedUnique {l : List α} {a : α} : a ∈ sortedUnique l ↔ a ∈ l := by
  rw [sortedUnique, mem_mergeSort, mem_dedup]

theorem pairwise_sortedUnique (l : List α) : (sortedUnique l).Pairwise (· < ·) := by
  have hnodup : (sortedUnique l).Nodup := (mergeSort_perm l.dedup _).nodup_iff.2 (nodup_dedup l)
  have hle : (sortedUnique l).Pairwise (· ≤ ·) := pairwise_mergeSort' (· ≤ ·) l.dedup
  exact (hle.and hnodup).imp fun h => lt_of_le_of_ne h.1 h.2

end

section

variable {α : Type*} [DecidableEq α]

/-- The distinct values, in the order of their first appearance. -/
def uniqueInOrder (l : List α) : List α :=
  l.foldl (fun acc a => if a ∈ acc then acc else acc ++ [a]) []

theorem uniqueInOrder_spec (l : List α) :
    (uniqueInOrder l).Nodup ∧ ∀ a, a ∈ uniqueInOrder l ↔ a ∈ l := by
  have hfold : ∀ (l acc : List α), acc.Nodup →
      (l.foldl (fun acc a => if a ∈ acc then acc else acc ++ [a]) acc).Nodup ∧
      ∀ a, a ∈ l.foldl (fun acc a => if a ∈ acc then acc else acc ++ [a]) acc ↔ a ∈ acc ∨ a ∈ l := by
    intro l
    induction l with
    | nil => exact fun acc h => ⟨h, fun a => by simp⟩
    | cons b l ih =>
      intro acc hacc
      rw [foldl_cons]
      split_ifs with hb
      · obtain ⟨hnodup, hmem⟩ := ih acc hacc
        refine ⟨hnodup, fun a => ?_⟩
        rw [hmem, mem_cons]
        constructor
        · rintro (h | h)
          · exact inl h
          · exact inr (inr h)
        · rintro (h | rfl | h)
          · exact inl h
          · exact inl hb
          · exact inr h
      · obtain ⟨hnodup, hmem⟩ := ih (acc ++ [b])
          (nodup_append.2 ⟨hacc, nodup_singleton b, fun a ha a' ha' h => by
            rw [mem_singleton.1 ha'] at h
            exact hb (h ▸ ha)⟩)
        refine ⟨hnodup, fun a => ?_⟩
        rw [hmem, mem_append, mem_singleton, mem_cons, or_assoc]
  obtain ⟨hnodup, hmem⟩ := hfold l [] nodup_nil
  exact ⟨hnodup, fun a => (hmem a).trans (by simp)⟩

theorem mem_uniqueInOrder {l : List α} {a : α} : a ∈ uniqueInOrder l ↔ a ∈ l :=
  (uniqueInOrder_spec l).2 a

theorem uniqueInOrder_const {l : List α} {a : α} (hne : l ≠ []) (h : ∀ b ∈ l, b = a) :
    uniqueInOrder l = [a] := by
  obtain ⟨hnodup, hmem⟩ := uniqueInOrder_spec l
  obtain ⟨b, hb⟩ := exists_mem_of_ne_nil l hne
  have ha : a ∈ uniqueInOrder l := (hmem a).2 (h b hb ▸ hb)
  cases hu : uniqueInOrder l with
  | nil =>
    rw [hu] at ha
    cases ha
  | cons c cs =>
    have hall : ∀ x ∈ c :: cs, x = a := fun x hx => h x ((hmem x).1 (hu.symm ▸ hx))
    rw [hu] at hnodup
    cases cs with
    | nil => rw [hall c mem_cons_self]
    | cons c' cs =>
      have hc : c = c' := (hall c (.head _)).trans
        (hall c' (mem_cons_of_mem c (.head _))).symm
      exact absurd (hc ▸ mem_cons_self) (nodup_cons.1 hnodup).1

end

section

variable {τ κ : Type*} [LinearOrder κ] (key : τ → κ)

/-- The segments in which the key does not change. -/
def segments : List τ → List (List τ)
  | [] => []
  | x :: xs =>
    match segments xs with
    | (y :: g) :: gs => if key x = key y then (x :: y :: g) :: gs else [x] :: (y :: g) :: gs
    | _ => [[x]]

variable {key}

theorem segments_cons (x : τ) (xs : List τ) : ∃ g gs, segments key (x :: xs) = (x :: g) :: gs := by
  unfold segments
  split
  · split_ifs
    · exact ⟨_, _, rfl⟩
    · exact ⟨_, _, rfl⟩
  · exact ⟨_, _, rfl⟩

variable {l : List τ}

theorem segments_const {k : κ} (hne : l ≠ []) (h : ∀ x ∈ l, key x = k) : segments key l = [l] := by
  induction l with
  | nil => exact absurd rfl hne
  | cons x xs ih =>
    cases xs with
    | nil => rfl
    | cons y ys =>
      have htail := ih (cons_ne_nil y ys) fun z hz => h z (.tail _ hz)
      have hxy : key x = key y := (h x (.head _)).trans
        (h y (.tail _ (.head _))).symm
      unfold segments
      rw [htail]
      exact if_pos hxy

theorem ne_nil_of_mem_segments {g : List τ} (hg : g ∈ segments key l) : g ≠ [] := by
  induction l generalizing g with
  | nil => cases hg
  | cons x xs ih =>
    unfold segments at hg
    split at hg
    · next y g' gs hsegments =>
      have hgs : ∀ h ∈ gs, h ≠ [] := fun h hh => ih (by rw [hsegments]; exact .tail _ hh)
      split_ifs at hg
      · rcases mem_cons.1 hg with rfl | hg
        · exact cons_ne_nil _ _
        · exact hgs g hg
      · rcases mem_cons.1 hg with rfl | hg
        · exact cons_ne_nil _ _
        · rcases mem_cons.1 hg with rfl | hg
          · exact cons_ne_nil _ _
          · exact hgs g hg
    · rw [mem_singleton.1 hg]
      exact cons_ne_nil _ _

/-- In a list that is sorted by the key, the segment of a key has all of its entries. -/
theorem find_segment (hl : l.Pairwise fun a b => key a ≤ key b) (k : κ) :
    (segments key l).find? (fun g => decide (g.head?.map key = some k)) =
      if (l.filter fun x => decide (key x = k)) = [] then none
      else some (l.filter fun x => decide (key x = k)) := by
  induction l with
  | nil => rfl
  | cons x xs ih =>
    rw [pairwise_cons] at hl
    have ih := ih hl.2
    cases xs with
    | nil =>
      by_cases hk : key x = k
      · simp [segments, hk]
      · simp [segments, hk]
    | cons y ys =>
      obtain ⟨g, gs, hsegments⟩ := @segments_cons _ _ _ key y ys
      rw [segments, hsegments]
      rw [hsegments] at ih
      simp only
      by_cases hkey : key x = key y
      · -- one more entry in the first segment
        rw [if_pos hkey]
        by_cases hk : key x = k
        · rw [find?_cons_of_pos (by simp [← hk, hkey])] at ih
          rw [find?_cons_of_pos (by simp [hk]), filter_cons_of_pos (by simp [hk]),
            if_neg (cons_ne_nil _ _)]
          split_ifs at ih
          rw [← Option.some.inj ih]
        · rw [find?_cons_of_neg (by simpa [← hkey] using hk)] at ih
          rw [find?_cons_of_neg (by simpa using hk), filter_cons_of_neg (by simpa using hk), ih]
      · rw [if_neg hkey]
        by_cases hk : key x = k
        · -- the keys after `x` are greater
          have hgreater : ∀ z ∈ y :: ys, key z ≠ k := by
            intro z hz hzk
            have hle := hl.1 y (.head _)
            have hle' : key y ≤ key z := by
              rcases mem_cons.1 hz with rfl | hz
              · exact le_refl _
              · exact (pairwise_cons.1 hl.2).1 z hz
            exact hkey (le_antisymm hle (hle'.trans (hzk.trans hk.symm).le))
          have hnone : ((y :: ys).filter fun z => decide (key z = k)) = [] :=
            filter_eq_nil_iff.2 fun z hz => by simpa using hgreater z hz
          rw [find?_cons_of_pos (by simp [hk]), filter_cons_of_pos (by simp [hk]), hnone]
          rfl
        · rw [find?_cons_of_neg (by simpa using hk), filter_cons_of_neg (by simpa using hk), ih]

end

end LoptVllm.Lib
