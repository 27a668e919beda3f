import Mathlib.Data.List.Chain
import Mathlib.Data.List.Nodup

/-!
# Doubly linked lists

The nodes of a doubly linked list each point to the node before them and the node after them. The
lists in such a structure are its chains: sequences of nodes that point to each other. Every
operation on a list is made of two writes.
-/

namespace LoptVllm.DoublyLinked

open List Option Function

/-- The pointers of the nodes. -/
structure Links (ν : Type*) where
  prev : ν → Option ν
  next : ν → Option ν

variable {ν : Type*}

namespace Links

section

variable [DecidableEq ν]

/-- `a.next = b; b.prev = a`. -/
def link (a b : ν) (s : Links ν) : Links ν :=
  ⟨update s.prev b (some a), update s.next a (some b)⟩

/-- `a.prev = a.next = None`. -/
def clear (a : ν) (s : Links ν) : Links ν :=
  ⟨update s.prev a none, update s.next a none⟩

/-- Links `a` and the nodes after it, each to the next one. -/
def linkAll : ν → List ν → Links ν → Links ν
  | _, [], s => s
  | a, b :: l, s => linkAll b l (s.link a b)

end

/-- The same lists from their other ends. -/
def mirror (s : Links ν) : Links ν := ⟨s.next, s.prev⟩

/-- Successive nodes point to each other. -/
def Chained (s : Links ν) (l : List ν) : Prop :=
  l.IsChain fun a b => s.next a = some b ∧ s.prev b = some a

end Links

variable {s t : Links ν} {a b : ν} {l l' : List ν}

open Links

section

variable [DecidableEq ν] (c : ν)

@[simp] theorem next_link : (s.link a b).next c = if c = a then some b else s.next c := by
  simp [link, update_apply]

@[simp] theorem prev_link : (s.link a b).prev c = if c = b then some a else s.prev c := by
  simp [link, update_apply]

@[simp] theorem next_clear : (s.clear a).next c = if c = a then none else s.next c := by
  simp [clear, update_apply]

@[simp] theorem prev_clear : (s.clear a).prev c = if c = a then none else s.prev c := by
  simp [clear, update_apply]

theorem next_linkAll {c : ν} (hc : c ∉ (a :: l).dropLast) : (s.linkAll a l).next c = s.next c := by
  induction l generalizing s a with
  | nil => rfl
  | cons b l ih =>
    rw [dropLast_cons_cons, mem_cons, not_or] at hc
    rw [linkAll, ih hc.2, next_link, if_neg hc.1]

theorem prev_linkAll {c : ν} (hc : c ∉ l) : (s.linkAll a l).prev c = s.prev c := by
  induction l generalizing s a with
  | nil => rfl
  | cons b l ih =>
    rw [mem_cons, not_or] at hc
    rw [linkAll, ih hc.2, prev_link, if_neg hc.1]

end

namespace Links.Chained

theorem singleton (s : Links ν) (a : ν) : s.Chained [a] := isChain_singleton a

theorem left (h : s.Chained (l ++ l')) : s.Chained l := h.left_of_append

theorem right (h : s.Chained (l ++ l')) : s.Chained l' := h.right_of_append

theorem next_eq (h : s.Chained (l ++ a :: b :: l')) : s.next a = some b :=
  (isChain_cons_cons.1 h.right).1.1

theorem prev_eq (h : s.Chained (l ++ a :: b :: l')) : s.prev b = some a :=
  (isChain_cons_cons.1 h.right).1.2

theorem mirror (h : s.Chained l) : s.mirror.Chained l.reverse :=
  isChain_reverse.2 (h.imp fun _ _ => And.symm)

/-- **A chain determines its pointers.** -/
theorem agree (h : s.Chained l) (h' : t.Chained l) :
    (∀ c ∈ l.tail, s.prev c = t.prev c) ∧ ∀ c ∈ l.dropLast, s.next c = t.next c := by
  induction l with
  | nil => simp
  | cons x l ih =>
    cases l with
    | nil => simp
    | cons y l =>
      obtain ⟨⟨hx, hy⟩, hrest⟩ := isChain_cons_cons.1 h
      obtain ⟨⟨hx', hy'⟩, hrest'⟩ := isChain_cons_cons.1 h'
      obtain ⟨hprev, hnext⟩ := ih hrest hrest'
      refine ⟨fun c hc => ?_, fun c hc => ?_⟩
      · rcases mem_cons.1 hc with rfl | hc
        · rw [hy, hy']
        · exact hprev c hc
      · rw [dropLast_cons_cons] at hc
        rcases mem_cons.1 hc with rfl | hc
        · rw [hx, hx']
        · exact hnext c hc

/-- Only the pointers of its own nodes matter for a chain. -/
theorem congr (h : s.Chained l) (hnext : ∀ c ∈ l.dropLast, t.next c = s.next c)
    (hprev : ∀ c ∈ l.tail, t.prev c = s.prev c) : t.Chained l := by
  induction l with
  | nil => exact isChain_nil
  | cons x l ih =>
    cases l with
    | nil => exact singleton t x
    | cons y l =>
      obtain ⟨⟨hx, hy⟩, hrest⟩ := isChain_cons_cons.1 h
      refine isChain_cons_cons.2 ⟨⟨?_, ?_⟩, ih hrest ?_ ?_⟩
      · rw [hnext x (by simp), hx]
      · rw [hprev y (by simp), hy]
      · exact fun c hc => hnext c (by simp [hc])
      · exact fun c hc => hprev c (mem_of_mem_tail hc)

variable [DecidableEq ν]

theorem clear (h : s.Chained l) (ha : a ∉ l) : (s.clear a).Chained l := by
  refine h.congr (fun c hc => ?_) fun c hc => ?_
  · rw [next_clear, if_neg]
    rintro rfl
    exact ha (dropLast_subset _ hc)
  · rw [prev_clear, if_neg]
    rintro rfl
    exact ha (mem_of_mem_tail hc)

/-- **Joining two chains.** -/
theorem link (h : s.Chained (l ++ [a])) (h' : s.Chained (b :: l'))
    (hnodup : ((l ++ [a]) ++ b :: l').Nodup) : (s.link a b).Chained ((l ++ [a]) ++ b :: l') := by
  obtain ⟨hl, hl', hdisj⟩ := nodup_append'.1 hnodup
  have hal : a ∉ l := fun ha => (nodup_append'.1 hl).2.2 ha (mem_singleton_self a)
  -- inside the two chains nothing has changed
  have hleft : (s.link a b).Chained (l ++ [a]) := by
    refine h.congr (fun c hc => ?_) fun c hc => ?_
    · rw [dropLast_concat] at hc
      rw [next_link, if_neg]
      rintro rfl
      exact hal hc
    · rw [prev_link, if_neg]
      rintro rfl
      exact hdisj (mem_of_mem_tail hc) (.head _)
  have hright : (s.link a b).Chained (b :: l') := by
    refine h'.congr (fun c hc => ?_) fun c hc => ?_
    · rw [next_link, if_neg]
      rintro rfl
      exact hdisj (by simp) (dropLast_subset _ hc)
    · rw [prev_link, if_neg]
      rintro rfl
      exact (nodup_cons.1 hl').1 hc
  refine isChain_append.2 ⟨hleft, hright, fun x hx y hy => ?_⟩
  rw [getLast?_concat, mem_some_iff] at hx
  rw [head?_cons, mem_some_iff] at hy
  subst hx hy
  simp

/-- **Appending nodes.** -/
theorem linkAll (h : s.Chained (l ++ [a])) (hnodup : (l ++ a :: l').Nodup) :
    (s.linkAll a l').Chained (l ++ a :: l') := by
  induction l' generalizing s l a with
  | nil => exact h
  | cons b l' ih =>
    rw [append_cons] at hnodup ⊢
    refine ih (h.link (singleton s b) ?_) hnodup
    rw [append_cons] at hnodup
    exact hnodup.of_append_left

end Links.Chained

end LoptVllm.DoublyLinked
