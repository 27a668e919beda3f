import Mathlib.Algebra.BigOperators.Group.List.Basic
import Mathlib.Algebra.Ring.Nat

/-!
# Nested arrays

Rectangular nested arrays, what is taken from one along its axes, and the concatenation of several
along one axis.
-/

namespace LoptVllm.Lib

open List Nat

universe u v

section

variable {α : Type u} (l : List α)

/-- The entries at the given positions. -/
def pick (p : List ℕ) : List α := p.filterMap (l[·]?)

theorem pick_flatMap {τ : Type v} (l : List α) (ps : List τ) (f : τ → List ℕ) :
    pick l (ps.flatMap f) = ps.flatMap fun t => pick l (f t) :=
  filterMap_flatMap

theorem pick_range' (start n : ℕ) : pick l (range' start n) = (l.drop start).take n := by
  induction n generalizing start with
  | zero => simp [pick]
  | succ n ih =>
    by_cases h : start < l.length
    · rw [drop_eq_getElem_cons h, take_succ_cons, ← ih]
      exact filterMap_cons_some (getElem?_eq_getElem h)
    · have hnone : l[start]? = none := getElem?_eq_none (Nat.le_of_not_lt h)
      have hdrop : l.drop start = [] := drop_eq_nil_of_le (Nat.le_of_not_lt h)
      have hdrop' : l.drop (start + 1) = [] :=
        drop_eq_nil_of_le (le_succ_of_le (Nat.le_of_not_lt h))
      have htail := ih (start + 1)
      rw [hdrop', take_nil] at htail
      rw [hdrop, take_nil, ← htail]
      exact filterMap_cons_none hnone

theorem pick_range : pick l (range l.length) = l := by
  rw [range_eq_range', pick_range', drop_zero, take_length]

theorem length_pick {l : List α} {p : List ℕ} (h : ∀ j ∈ p, j < l.length) :
    (pick l p).length = p.length := by
  induction p with
  | nil => rfl
  | cons j p ih =>
    have hj : j < l.length := h j (.head _)
    have hcons : pick l (j :: p) = l[j] :: pick l p := filterMap_cons_some (getElem?_eq_getElem _)
    rw [hcons, length_cons, length_cons, ih fun i hi => h i (mem_cons_of_mem j hi)]

theorem mem_of_mem_pick {l : List α} {p : List ℕ} {a : α} (h : a ∈ pick l p) : a ∈ l := by
  obtain ⟨j, -, hj⟩ := mem_filterMap.1 h
  exact mem_of_getElem? hj

/-- A segment of lists that are joined is one of the lists. -/
theorem pick_segment {τ : Type v} (ts : List τ) (f : τ → List α) {i : ℕ} (h : i < ts.length) :
    pick (ts.flatMap f)
        (range' ((ts.take i).map fun t => (f t).length).sum (f ts[i]).length) = f ts[i] := by
  rw [pick_range']
  induction ts generalizing i with
  | nil => cases h
  | cons t ts ih =>
    cases i with
    | zero =>
      exact take_left
    | succ i =>
      rw [take_succ_cons, map_cons, sum_cons, flatMap_cons,
        drop_append, drop_eq_nil_of_le (le_add_right _ _), Nat.add_sub_cancel_left]
      exact ih (lt_of_succ_lt_succ h)

end

/-- A nested array. -/
inductive NestedArray (α : Type u)
  | leaf (a : α)
  | node (l : List (NestedArray α))

namespace NestedArray

variable {α : Type u} {β : Type v}

/-- The entries along the first axis. -/
def children : NestedArray α → List (NestedArray α)
  | leaf _ => []
  | node l => l

/-- The array has the given length along each axis. -/
def HasShape : List ℕ → NestedArray α → Prop
  | [], a => ∃ x, a = leaf x
  | n :: shape, a => ∃ l, a = node l ∧ l.length = n ∧ ∀ x ∈ l, HasShape shape x

variable {shape : List ℕ} {a : NestedArray α}

theorem HasShape.node_children {n : ℕ} (h : HasShape (n :: shape) a) : node a.children = a := by
  obtain ⟨l, rfl, -, -⟩ := h
  rfl

theorem HasShape.length_children {n : ℕ} (h : HasShape (n :: shape) a) : a.children.length = n := by
  obtain ⟨l, rfl, hl, -⟩ := h
  exact hl

theorem HasShape.of_mem_children {n : ℕ} (h : HasShape (n :: shape) a) {x : NestedArray α}
    (hx : x ∈ a.children) : HasShape shape x := by
  obtain ⟨l, rfl, -, hl⟩ := h
  exact hl x hx

mutual

/-- A function on each entry. -/
def map (f : α → β) : NestedArray α → NestedArray β
  | leaf a => leaf (f a)
  | node l => node (mapList f l)

/-- A function on each entry of each array. -/
def mapList (f : α → β) : List (NestedArray α) → List (NestedArray β)
  | [] => []
  | a :: l => a.map f :: mapList f l

end

theorem mapList_eq (f : α → β) (l : List (NestedArray α)) : mapList f l = l.map (map f) := by
  induction l with
  | nil => rfl
  | cons a l ih => rw [mapList, ih, map_cons]

variable {shape : List ℕ} {a : NestedArray α}

theorem HasShape.map (h : HasShape shape a) (f : α → β) : HasShape shape (a.map f) := by
  induction shape generalizing a with
  | nil =>
    obtain ⟨x, rfl⟩ := h
    exact ⟨f x, rfl⟩
  | cons n shape ih =>
    obtain ⟨l, rfl, hl, hmem⟩ := h
    refine ⟨mapList f l, rfl, ?_, ?_⟩
    · rw [mapList_eq, length_map, hl]
    · rw [mapList_eq]
      intro x hx
      obtain ⟨y, hy, rfl⟩ := mem_map.1 hx
      exact ih (hmem y hy)

theorem map_id (h : HasShape shape a) {f : α → α} (hf : ∀ x, f x = x) : a.map f = a := by
  induction shape generalizing a with
  | nil =>
    obtain ⟨x, rfl⟩ := h
    exact congrArg leaf (hf x)
  | cons n shape ih =>
    obtain ⟨l, rfl, -, hmem⟩ := h
    show node (mapList f l) = node l
    rw [mapList_eq, map_congr_left fun x hx => ih (hmem x hx), map_id']

/-- Arrays of one shape whose entries have the same values. -/
theorem map_injective {b : NestedArray α} (ha : HasShape shape a) (hb : HasShape shape b)
    {f : α → β} (hf : Function.Injective f) (h : a.map f = b.map f) : a = b := by
  induction shape generalizing a b with
  | nil =>
    obtain ⟨x, rfl⟩ := ha
    obtain ⟨y, rfl⟩ := hb
    injection h with h
    exact congrArg leaf (hf h)
  | cons n shape ih =>
    obtain ⟨l, rfl, hl, hlmem⟩ := ha
    obtain ⟨l', rfl, hl', hlmem'⟩ := hb
    have hmap : l.map (NestedArray.map f) = l'.map (NestedArray.map f) := by
      injection h with h
      rwa [mapList_eq, mapList_eq] at h
    refine congrArg node (ext_getElem (hl.trans hl'.symm) fun i hi hi' => ?_)
    refine ih (hlmem _ (getElem_mem hi)) (hlmem' _ (getElem_mem hi')) ?_
    have hget := congrArg (·[i]?) hmap
    simp only [getElem?_map, getElem?_eq_getElem hi, getElem?_eq_getElem hi'] at hget
    exact Option.some.inj hget

@[simp] theorem children_map (f : α → β) (a : NestedArray α) :
    (a.map f).children = a.children.map (NestedArray.map f) := by
  cases a with
  | leaf a => rfl
  | node l => exact mapList_eq f l

/-! ### Indexing -/

/-- The positions `ps[k]` along axis `k`; the axes after the last one are taken whole. -/
def index : List (List ℕ) → NestedArray α → NestedArray α
  | [], a => a
  | p :: ps, a => node ((pick a.children p).map (index ps))

/-- The shape of what is indexed. -/
def indexShape : List (List ℕ) → List ℕ → List ℕ
  | p :: ps, _ :: shape => p.length :: indexShape ps shape
  | _, shape => shape

/-- The positions exist along their axes. -/
def InBounds : List (List ℕ) → List ℕ → Prop
  | p :: ps, n :: shape => (∀ j ∈ p, j < n) ∧ InBounds ps shape
  | [], _ => True
  | _ :: _, [] => False

variable {ps : List (List ℕ)}

theorem HasShape.index (h : HasShape shape a) (hps : InBounds ps shape) :
    HasShape (indexShape ps shape) (a.index ps) := by
  induction ps generalizing shape a with
  | nil =>
    cases shape with
    | nil => exact h
    | cons n shape => exact h
  | cons p ps ih =>
    cases shape with
    | nil => exact absurd hps id
    | cons n shape =>
      refine ⟨_, rfl, ?_, fun x hx => ?_⟩
      · rw [length_map]
        exact length_pick (h.length_children ▸ hps.1)
      · obtain ⟨y, hy, rfl⟩ := mem_map.1 hx
        exact ih (h.of_mem_children (mem_of_mem_pick hy)) hps.2

/-- Every position of every axis. -/
theorem index_full (h : HasShape shape a) (hlen : ps.length ≤ shape.length)
    (hps : ∀ (k : ℕ) (p : List ℕ) (n : ℕ), ps[k]? = some p → shape[k]? = some n →
      p = range n) : a.index ps = a := by
  induction ps generalizing shape a with
  | nil => rfl
  | cons p ps ih =>
    cases shape with
    | nil => cases hlen
    | cons n shape =>
      have hp : p = range a.children.length := h.length_children ▸ hps 0 p n rfl rfl
      have hchild : ∀ x ∈ a.children, x.index ps = x := fun x hx =>
        ih (h.of_mem_children hx) (le_of_succ_le_succ hlen) fun k p n => hps (k + 1) p n
      show node ((pick a.children p).map (NestedArray.index ps)) = a
      rw [hp, pick_range, map_congr_left hchild, map_id', h.node_children]

/-- The given positions along one axis. -/
def selectAt : ℕ → List ℕ → NestedArray α → NestedArray α
  | _, _, leaf a => leaf a
  | 0, p, node l => node (pick l p)
  | d + 1, p, node l => node (l.map (selectAt d p))

theorem pick_map (f : NestedArray α → NestedArray β) (l : List (NestedArray α)) (p : List ℕ) :
    pick (l.map f) p = (pick l p).map f := by
  unfold pick
  rw [map_filterMap]
  refine filterMap_congr fun j _ => ?_
  rw [getElem?_map]

/-- Taking positions does not look at the entries. -/
theorem selectAt_map (h : HasShape shape a) (f : α → β) (d : ℕ)
    (p : List ℕ) : selectAt d p (a.map f) = (selectAt d p a).map f := by
  induction shape generalizing a d with
  | nil =>
    obtain ⟨x, rfl⟩ := h
    cases d <;> rfl
  | cons n shape ih =>
    obtain ⟨l, rfl, -, hmem⟩ := h
    cases d with
    | zero =>
      show node (pick (mapList f l) p) = node (mapList f (pick l p))
      rw [mapList_eq, mapList_eq, pick_map]
    | succ d =>
      show node ((mapList f l).map (selectAt d p)) = node (mapList f (l.map (selectAt d p)))
      rw [mapList_eq, mapList_eq, map_map, map_map]
      exact congrArg node (map_congr_left fun x hx => ih (hmem x hx) d)

theorem selectAt_full (h : HasShape shape a) (d : ℕ) :
    selectAt d (range' 0 (shape[d]?.getD 0)) a = a := by
  induction shape generalizing a d with
  | nil =>
    obtain ⟨x, rfl⟩ := h
    cases d <;> rfl
  | cons n shape ih =>
    obtain ⟨l, rfl, hl, hmem⟩ := h
    cases d with
    | zero =>
      show node (pick l (range' 0 n)) = node l
      rw [← hl, ← range_eq_range', pick_range]
    | succ d =>
      show node (l.map (selectAt d (range' 0 (shape[d]?.getD 0)))) = node l
      rw [map_congr_left fun x hx => ih (hmem x hx) d, map_id']

/-! ### Concatenation -/

/-- The arrays joined along an axis. -/
def concatAt : ℕ → List (NestedArray α) → NestedArray α
  | 0, as => node (as.flatMap children)
  | d + 1, as =>
    node ((range ((as.head?.map fun a => a.children.length).getD 0)).map fun j =>
      concatAt d (as.filterMap (·.children[j]?)))

variable {τ : Type v} {ts : List τ} {f : τ → NestedArray α}

/-- The `j`-th entries of arrays that are long enough. -/
theorem filterMap_children {j : ℕ} {g : τ → NestedArray α}
    (h : ∀ t ∈ ts, (f t).children[j]? = some (g t)) :
    (ts.map f).filterMap (·.children[j]?) = ts.map g := by
  rw [filterMap_map]
  induction ts with
  | nil => rfl
  | cons t ts ih =>
    have htail := ih fun u hu => h u (mem_cons_of_mem t hu)
    rw [map_cons, ← htail]
    exact filterMap_cons_some (h t (.head _))

/-- One array for each of `ts`, with `m` entries along the first axis. -/
theorem concatAt_succ (hne : ts ≠ []) (f : τ → NestedArray α) {d m : ℕ}
    (hm : ∀ t ∈ ts, (f t).children.length = m) {g : ℕ → τ → NestedArray α}
    (hg : ∀ j < m, ∀ t ∈ ts, (f t).children[j]? = some (g j t)) :
    concatAt (d + 1) (ts.map f) = node ((range m).map fun j => concatAt d (ts.map (g j))) := by
  have hhead : ((ts.map f).head?.map fun a => a.children.length).getD 0 = m := by
    cases ts with
    | nil => exact absurd rfl hne
    | cons t ts => exact hm t (.head _)
  show node ((range _).map _) = _
  rw [hhead]
  refine congrArg node (map_congr_left fun j hj => ?_)
  rw [filterMap_children (hg j (mem_range.1 hj))]

theorem getElem?_children {m : ℕ} (hm : ∀ t ∈ ts, (f t).children.length = m) : ∀ j < m, ∀ t ∈ ts,
    (f t).children[j]? = some ((f t).children[j]?.getD (f t)) := by
  intro j hj t ht
  rw [getElem?_eq_getElem (hm t ht ▸ hj)]
  rfl

theorem HasShape.concatAt (hne : ts ≠ []) {n : τ → ℕ} {pre post : List ℕ}
    (h : ∀ t ∈ ts, HasShape (pre ++ n t :: post) (f t)) :
    HasShape (pre ++ (ts.map n).sum :: post) (concatAt pre.length (ts.map f)) := by
  induction pre generalizing f with
  | nil =>
    refine ⟨_, rfl, ?_, fun x hx => ?_⟩
    · rw [flatMap_map, length_flatMap]
      exact congrArg sum (map_congr_left fun t ht => (h t ht).length_children)
    · rw [flatMap_map] at hx
      obtain ⟨t, ht, hx⟩ := mem_flatMap.1 hx
      exact (h t ht).of_mem_children hx
  | cons m pre ih =>
    have hm : ∀ t ∈ ts, (f t).children.length = m := fun t ht => (h t ht).length_children
    have hg := getElem?_children hm
    rw [length_cons, concatAt_succ hne f hm hg]
    refine ⟨_, rfl, by rw [length_map, length_range], fun x hx => ?_⟩
    obtain ⟨j, hj, rfl⟩ := mem_map.1 hx
    refine ih fun t ht => (h t ht).of_mem_children ?_
    exact mem_of_getElem? (hg j (mem_range.1 hj) t ht)

/-- Each array is found again where it was put. -/
theorem selectAt_concatAt {n : τ → ℕ} {pre post : List ℕ}
    (h : ∀ t ∈ ts, HasShape (pre ++ n t :: post) (f t)) {i : ℕ} (hi : i < ts.length) :
    selectAt pre.length (range' ((ts.take i).map n).sum (n ts[i]))
      (concatAt pre.length (ts.map f)) = f ts[i] := by
  have hmem : ts[i] ∈ ts := getElem_mem hi
  induction pre generalizing f with
  | nil =>
    have hlen : ∀ t ∈ ts, n t = (f t).children.length := fun t ht =>
      (h t ht).length_children.symm
    have hsum : ((ts.take i).map n).sum = ((ts.take i).map fun t => (f t).children.length).sum :=
      congrArg sum (map_congr_left fun t ht => hlen t (mem_of_mem_take ht))
    show node (pick ((ts.map f).flatMap children) _) = f ts[i]
    rw [flatMap_map, hsum, hlen _ hmem, pick_segment ts (fun t => (f t).children)]
    exact (h _ hmem).node_children
  | cons m pre ih =>
    have hm : ∀ t ∈ ts, (f t).children.length = m := fun t ht => (h t ht).length_children
    have hg := getElem?_children hm
    rw [length_cons, concatAt_succ (ne_nil_of_mem hmem) f hm hg]
    show node (((range m).map _).map _) = f ts[i]
    rw [map_map, ← (h _ hmem).node_children]
    refine congrArg node (ext_getElem ?_ fun j hj hj' => ?_)
    · rw [length_map, length_range, hm _ hmem]
    · have hjm : j < m := by rwa [length_map, length_range] at hj
      rw [getElem_map, getElem_range, Function.comp_apply,
        ih fun t ht => (h t ht).of_mem_children (mem_of_getElem? (hg j hjm t ht)),
        getElem?_eq_getElem]
      rfl

/-- Pieces of an array that are whole along the other axes and tile the axis `d` are joined to the
array. -/
theorem concatAt_index {pss : List (List (List ℕ))} (hne : pss ≠ []) {d : ℕ} (h : HasShape shape a)
    (hd : d < shape.length) (hlen : ∀ ps ∈ pss, ps.length ≤ shape.length)
    (hfull : ∀ ps ∈ pss, ∀ (k : ℕ) (p : List ℕ) (n : ℕ), k ≠ d → ps[k]? = some p →
      shape[k]? = some n → p = range n)
    (htile : (pss.flatMap fun ps => ps[d]?.getD (range shape[d])) = range shape[d]) :
    concatAt d (pss.map fun ps => a.index ps) = a := by
  -- the induction goes down to the axis along which the pieces are joined
  induction d generalizing pss shape a with
  | zero =>
    cases shape with
    | nil => cases hd
    | cons n shape =>
      have hpiece : ∀ ps ∈ pss, (a.index ps).children =
          pick a.children (ps[0]?.getD (range n)) := by
        intro ps hps
        cases ps with
        | nil =>
          show a.children = pick a.children (range n)
          rw [← h.length_children, pick_range]
        | cons p ps =>
          have hrest : ∀ x ∈ pick a.children p, x.index ps = x := fun x hx =>
            index_full (h.of_mem_children (mem_of_mem_pick hx))
              (le_of_succ_le_succ (hlen _ hps)) fun k q m hq hm =>
                hfull _ hps (k + 1) q m (succ_ne_zero k) hq hm
          show (pick a.children p).map (index ps) = pick a.children p
          rw [map_congr_left hrest, map_id']
      have hcover : (pss.flatMap fun ps => ps[0]?.getD (range n)) = range n := htile
      show node ((pss.map fun ps => a.index ps).flatMap children) = a
      rw [flatMap_map, flatMap_congr hpiece, ← pick_flatMap, hcover,
        ← h.length_children, pick_range, h.node_children]
  | succ d ih =>
    cases shape with
    | nil => cases hd
    | cons n shape =>
      have hchild : ∀ ps ∈ pss, (a.index ps).children = a.children.map (index ps.tail) := by
        intro ps hps
        cases ps with
        | nil =>
          exact (map_id' a.children).symm
        | cons p ps =>
          have hp : p = range a.children.length :=
            h.length_children ▸ hfull _ hps 0 p n (succ_ne_zero d).symm rfl rfl
          show (pick a.children p).map (index ps) = a.children.map (index ps)
          rw [hp, pick_range]
      have hm : ∀ ps ∈ pss, (a.index ps).children.length = n := fun ps hps => by
        rw [hchild ps hps, length_map, h.length_children]
      have hg : ∀ j < n, ∀ ps ∈ pss, (a.index ps).children[j]? =
          some ((a.children[j]?.getD a).index ps.tail) := by
        intro j hj ps hps
        rw [hchild ps hps, getElem?_map, getElem?_eq_getElem (h.length_children ▸ hj)]
        rfl
      rw [concatAt_succ hne _ hm hg]
      refine (congrArg node (ext_getElem ?_ fun j hj hj' => ?_)).trans h.node_children
      · rw [length_map, length_range, h.length_children]
      · have hjn : j < n := by rwa [length_map, length_range] at hj
        have hshape : HasShape shape (a.children[j]) := h.of_mem_children (getElem_mem hj')
        rw [getElem_map, getElem_range, getElem?_eq_getElem]
        have htail : ∀ ps ∈ pss, ∀ k, ps.tail[k]? = ps[k + 1]? := fun ps _ k => by
          cases ps <;> rfl
        have hjoin : concatAt d ((pss.map List.tail).map fun ps => a.children[j].index ps) =
            a.children[j] := by
          refine ih (by simpa using hne) hshape (lt_of_succ_lt_succ hd) ?_ ?_ ?_
          · intro ps hps
            obtain ⟨qs, hqs, rfl⟩ := mem_map.1 hps
            rw [length_tail]
            exact sub_le_of_le_add (hlen qs hqs)
          · intro ps hps k p m hk hp hm
            obtain ⟨qs, hqs, rfl⟩ := mem_map.1 hps
            rw [htail qs hqs] at hp
            exact hfull qs hqs (k + 1) p m (fun heq => hk (Nat.succ.inj heq)) hp hm
          · rw [flatMap_map]
            refine (flatMap_congr fun ps hps => ?_).trans htile
            rw [htail ps hps]
            rfl
        rw [map_map] at hjoin
        exact hjoin

theorem concatAt_singleton (h : HasShape shape a) {d : ℕ}
    (hd : d < shape.length) : concatAt d [a] = a := by
  have hjoin : concatAt d ([[]].map fun ps => a.index ps) = a := by
    refine concatAt_index (cons_ne_nil _ _) h hd (fun ps hps => ?_) (fun ps hps k p n _ hp _ => ?_)
      (flatMap_singleton _ _)
    · rw [mem_singleton.1 hps]
      exact zero_le _
    · rw [mem_singleton.1 hps] at hp
      cases hp
  exact hjoin

end NestedArray

end LoptVllm.Lib
