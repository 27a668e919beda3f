import LoptVllm.Multimodal.Fields

/-!
# What the merged data of a field holds

The elements of a field that are run together are merged into one value. Each element finds its own
data in it, up to what writing it into the merged tensor made of its entries.
-/

namespace LoptVllm.Multimodal

open List Option Except Tensor

open Lib Lib.NestedArray

variable {δ α : Type}

/-! ### Lists of tensors -/

variable {batch : List (NestedTensors (Tensor δ α))} {ts : List (Tensor δ α)}

theorem mapM_tensor?_eq_some :
    batch.mapM NestedTensors.tensor? = some ts ↔ batch = ts.map .tensor := by
  induction batch generalizing ts with
  | nil =>
    constructor
    · intro h
      rw [← some.inj h]
      rfl
    · intro h
      rw [map_eq_nil_iff.1 h.symm]
      rfl
  | cons x batch ih =>
    rw [mapM_cons]
    constructor
    · intro h
      obtain ⟨t, ht, htail⟩ := bind_eq_some_iff.1 h
      obtain ⟨us, hus, hcons⟩ := bind_eq_some_iff.1 htail
      obtain rfl : t :: us = ts := some.inj hcons
      obtain rfl : x = .tensor t := by
        cases x with
        | tensor u => exact congrArg NestedTensors.tensor (some.inj ht)
        | none | number | list => cases ht
      rw [ih.1 hus]
      rfl
    · intro h
      cases ts with
      | nil => cases h
      | cons t ts =>
        obtain ⟨rfl, hb⟩ := cons.inj h
        exact bind_eq_some_iff.2 ⟨t, rfl, bind_eq_some_iff.2 ⟨ts, ih.2 hb, rfl⟩⟩

@[simp] theorem nested_tensor (t : Tensor δ α) :
    (NestedTensors.tensor t).nested = t.entries.map Leaf.entry := rfl

@[simp] theorem nested_list (l : List (NestedTensors (Tensor δ α))) :
    (NestedTensors.list l).nested = node (l.map NestedTensors.nested) := by
  rw [← NestedTensors.nestedList_eq]
  rfl

variable {x : NestedTensors (Tensor δ α)}

theorem nested_of_iterate {l : List (NestedTensors (Tensor δ α))}
    (h : iterate x = .ok l) : x.nested = node (l.map NestedTensors.nested) := by
  cases x with
  | none | number => cases h
  | list l' =>
    obtain rfl : l' = l := ok.inj h
    exact nested_list l'
  | tensor t =>
    obtain ⟨ts, hts, h⟩ := bind_ok.1 h
    obtain rfl : ts.map NestedTensors.tensor = l := ok.inj h
    obtain ⟨dtype, shape, entries, hshape⟩ := t
    cases shape with
    | nil => cases hts
    | cons n shape =>
      rw [← ok.inj hts, List.map_map, List.map_map]
      show entries.map Leaf.entry = node (entries.children.attach.map fun x => x.1.map Leaf.entry)
      rw [← (hshape.map Leaf.entry).node_children, children_map]
      exact congrArg node List.attach_map_val.symm

/-! ### Sizes and parts -/

variable (torch : Torch δ α)

/-- The element type of the tensor that the tensors of a batch are written into. -/
def outType (field : MultiModalField) (batch : List (NestedTensors (Tensor δ α))) : Option δ :=
  match field, batch.mapM NestedTensors.tensor? with
  | .batched _, some (t :: ts) => if ∀ u ∈ ts, u.shape = t.shape then some t.dtype else none
  | .flat _ _ dim, some (t :: ts) =>
    if ∀ u ∈ t :: ts, t.SameOutside (axisOf dim t).toNat u then some t.dtype else none
  | _, _ => none

/-- What the data of an element is in the merged data. -/
def received (out : Option δ) (x : NestedTensors (Tensor δ α)) : NestedArray (Leaf α) :=
  match out, x with
  | some dtype, .tensor t => (t.into torch dtype).map .entry
  | _, x => x.nested

/-- The length of the data of an element along the axis of a flat field. -/
def sizeAlong (dim : ℤ) : NestedTensors (Tensor δ α) → ℕ
  | .tensor t => t.size (axisOf dim t).toNat
  | .list l => l.length
  | _ => 0

/-- The axis along which a flat field is merged; lists are joined along the first one. -/
def mergeAxis (dim : ℤ) : List (NestedTensors (Tensor δ α)) → ℕ
  | .tensor t :: _ => (axisOf dim t).toNat
  | _ => dim.toNat

/-- The `i`-th segment of the merged data of a flat field. -/
def segment (dim : ℤ) (batch : List (NestedTensors (Tensor δ α))) (i : ℕ)
    (merged : NestedArray (Leaf α)) : NestedArray (Leaf α) :=
  selectAt (mergeAxis dim batch)
    (range' ((batch.take i).map (sizeAlong dim)).sum ((batch[i]?.map (sizeAlong dim)).getD 0))
    merged

/-- The part of the merged data that is the `i`-th element's: an entry of a batched field, a segment
of a flat field, the value of a shared field. -/
def ownPart (field : MultiModalField) (batch : List (NestedTensors (Tensor δ α))) (i : ℕ)
    (merged : NestedArray (Leaf α)) : Option (NestedArray (Leaf α)) :=
  match field with
  | .batched _ => merged.children[i]?
  | .flat _ _ dim => some (segment dim batch i merged)
  | .shared _ _ => some merged

variable {torch}

/-! ### Batched fields -/

variable {keepOnCpu : Bool} {d : NestedTensors (Tensor δ α)}

/-- The merged data has an entry for each element. -/
theorem nested_reduceBatched (h : reduceBatched torch batch = .ok d) :
    d.nested = node (batch.map (received torch (outType (.batched keepOnCpu) batch))) := by
  have hlist : d = .list batch → outType (.batched keepOnCpu) batch = none →
      d.nested = node (batch.map (received torch (outType (.batched keepOnCpu) batch))) := by
    rintro rfl hout
    rw [hout, nested_list]
    exact congrArg node (map_congr_left fun x _ => by cases x <;> rfl)
  -- tensors of one shape are stacked, other elements stay a list
  cases hts : batch.mapM NestedTensors.tensor? with
  | none =>
    simp only [reduceBatched, hts] at h
    exact hlist (ok.inj h).symm (by simp only [outType, hts])
  | some ts =>
    cases ts with
    | nil =>
      simp only [reduceBatched, hts] at h
      exact hlist (ok.inj h).symm (by simp only [outType, hts])
    | cons t ts =>
      by_cases hshape : ∀ u ∈ ts, u.shape = t.shape
      · have hout : outType (.batched keepOnCpu) batch = some t.dtype := by
          simp only [outType, hts]
          exact if_pos hshape
        have hentries : d.nested =
            node ((t :: ts).map fun u => (u.into torch t.dtype).map Leaf.entry) := by
          cases ts with
          | nil =>
            simp only [reduceBatched, hts] at h
            rw [← ok.inj h]
            show node [t.entries.map Leaf.entry] = _
            rw [map_singleton, into_self]
          | cons u us =>
            simp only [reduceBatched, hts, dif_pos hshape] at h
            obtain ⟨out, hstack, h⟩ := bind_ok.1 h
            unfold stack at hstack
            split_ifs at hstack
            rw [← ok.inj h, nested_tensor, ← ok.inj hstack]
            show node (mapList Leaf.entry _) = _
            rw [mapList_eq, List.map_map]
            rfl
        obtain rfl := mapM_tensor?_eq_some.1 hts
        rw [hout, hentries, List.map_map]
        rfl
      · have hout : outType (.batched keepOnCpu) batch = none := by
          simp only [outType, hts]
          exact if_neg hshape
        cases ts with
        | nil => exact absurd nofun hshape
        | cons u us =>
          simp only [reduceBatched, hts, dif_neg hshape] at h
          exact hlist (ok.inj h).symm hout

variable {i : ℕ}

theorem ownPart_reduceBatched (h : reduceBatched torch batch = .ok d) (hi : i < batch.length) :
    ownPart (.batched keepOnCpu) batch i d.nested =
      some (received torch (outType (.batched keepOnCpu) batch) batch[i]) := by
  rw [nested_reduceBatched h]
  show (batch.map _)[i]? = _
  rw [getElem?_map, getElem?_eq_getElem]
  rfl

/-! ### Flat fields -/

theorem nested_flatten {ls : List (List (NestedTensors (Tensor δ α)))}
    (h : Forall₂ (fun x l => iterate x = .ok l) batch ls) :
    ls.flatten.map NestedTensors.nested = batch.flatMap fun x => x.nested.children := by
  induction h with
  | nil => rfl
  | cons hx _ ih =>
    rw [flatten_cons, map_append, ih, flatMap_cons, nested_of_iterate hx]
    rfl

variable {dim : ℤ}

/-- The iterated lists of a batch are joined along the first axis. -/
theorem segment_chainElems (h : chainElems dim batch = .ok d)
    (hi : i < batch.length) : segment dim batch i d.nested = batch[i].nested := by
  unfold chainElems at h
  split_ifs at h with hdim
  subst hdim
  obtain ⟨ls, hls, h⟩ := bind_ok.1 h
  have hnodes : ∀ x ∈ batch, x.nested = node x.nested.children ∧
      sizeAlong 0 x = x.nested.children.length := by
    intro x hx
    obtain ⟨l, hl⟩ := exists_ok_of_mapM hls hx
    have hx := nested_of_iterate hl
    refine ⟨by rw [hx]; rfl, ?_⟩
    cases x with
    | none | number => cases hl
    | list l' =>
      rw [nested_list]
      exact (length_map _).symm
    | tensor t =>
      obtain ⟨dtype, shape, entries, hshape⟩ := t
      cases shape with
      | nil => cases hl
      | cons n shape =>
        exact (hshape.map Leaf.entry).length_children.symm
  have hmerged : d.nested = node (batch.flatMap fun x => x.nested.children) := by
    rw [← ok.inj h, nested_list, nested_flatten (mapM_eq_ok.1 hls)]
  have haxis : mergeAxis 0 batch = 0 := by
    unfold mergeAxis axisOf
    split <;> rfl
  have hsum : ((batch.take i).map (sizeAlong 0)).sum =
      ((batch.take i).map fun x => x.nested.children.length).sum :=
    congrArg sum (map_congr_left fun x hx => (hnodes x (mem_of_mem_take hx)).2)
  unfold segment
  rw [haxis, hmerged, hsum, getElem?_eq_getElem hi, map_some, getD_some,
    (hnodes _ (getElem_mem hi)).2]
  show node (pick _ _) = _
  rw [pick_segment batch (fun x => x.nested.children)]
  exact (hnodes _ (getElem_mem hi)).1.symm

/-- Tensors that are joined along an axis have the same number of axes. -/
theorem length_shape_eq {a : ℕ} {t u : Tensor δ α} (h : t.SameOutside a u)
    (ht : a < t.shape.length) (hu : a < u.shape.length) : u.shape.length = t.shape.length := by
  have hshape := congrArg List.length (h.shape_eq hu)
  rw [length_append, length_cons, length_take_of_le (le_of_lt ht), length_drop] at hshape
  omega

theorem segment_concat {t out : Tensor δ α}
    {hsame : ∀ u ∈ t :: ts, t.SameOutside (axisOf dim t).toNat u}
    {hd : ∀ u ∈ t :: ts, (axisOf dim t).toNat < u.shape.length}
    (h : t.concat torch (axisOf dim t).toNat ts hsame hd = .ok out) (hi : i < (t :: ts).length) :
    segment dim ((t :: ts).map .tensor) i (out.entries.map Leaf.entry) =
      (((t :: ts)[i]).into torch t.dtype).map Leaf.entry := by
  have hdt := hd t (.head _)
  have hsize : ∀ u ∈ t :: ts, sizeAlong dim (.tensor u) = u.size (axisOf dim t).toNat := by
    intro u hu
    show u.size (axisOf dim u).toNat = _
    unfold axisOf
    rw [length_shape_eq (hsame u hu) hdt (hd u hu)]
  have hlen : (t.shape.take (axisOf dim t).toNat).length = (axisOf dim t).toNat :=
    length_take_of_le (le_of_lt hdt)
  have hfind := selectAt_concatAt
    (fun u hu => (hsame u hu).hasShape_into torch (hd u hu) t.dtype) hi
  rw [hlen] at hfind
  unfold Tensor.concat at h
  split_ifs at h
  have hout : out.entries = concatAt (axisOf dim t).toNat ((t :: ts).map (into torch t.dtype)) := by
    rw [← ok.inj h]
  have hsum : ((((t :: ts).map NestedTensors.tensor).take i).map (sizeAlong dim)).sum =
      (((t :: ts).take i).map (size (axisOf dim t).toNat)).sum := by
    rw [← map_take, List.map_map]
    exact congrArg sum (map_congr_left fun u hu => hsize u (mem_of_mem_take hu))
  unfold segment
  rw [selectAt_map out.hasShape, hout, hsum, getElem?_map, getElem?_eq_getElem hi,
    map_some, map_some, getD_some, hsize _ (getElem_mem hi)]
  exact congrArg (NestedArray.map Leaf.entry) hfind

theorem ownPart_reduceFlat {slices : Slices} (h : reduceFlat torch dim batch = .ok d)
    (hi : i < batch.length) : ownPart (.flat keepOnCpu slices dim) batch i d.nested =
      some (received torch (outType (.flat keepOnCpu slices dim) batch) batch[i]) := by
  have hchain : chainElems dim batch = .ok d → outType (.flat keepOnCpu slices dim) batch = none →
      ownPart (.flat keepOnCpu slices dim) batch i d.nested =
        some (received torch (outType (.flat keepOnCpu slices dim) batch) batch[i]) := by
    intro hd hout
    rw [hout]
    exact congrArg some (segment_chainElems hd hi)
  -- tensors are joined along the axis, other elements are chained
  cases hts : batch.mapM NestedTensors.tensor? with
  | none =>
    simp only [reduceFlat, hts] at h
    exact hchain h (by simp only [outType, hts])
  | some ts =>
    cases ts with
    | nil =>
      simp only [reduceFlat, hts] at h
      exact hchain h (by simp only [outType, hts])
    | cons t ts =>
      by_cases hsame : ∀ u ∈ t :: ts, t.SameOutside (axisOf dim t).toNat u
      · have hout : outType (.flat keepOnCpu slices dim) batch = some t.dtype := by
          simp only [outType, hts]
          exact if_pos hsame
        cases ts with
        | nil =>
          obtain rfl := mapM_tensor?_eq_some.1 hts
          obtain rfl : i = 0 := Nat.lt_one_iff.1 hi
          rw [hout, ← ok.inj h]
          show some (selectAt _ (range' 0 (t.size _)) (t.entries.map Leaf.entry)) =
            some ((t.into torch t.dtype).map Leaf.entry)
          rw [into_self]
          exact congrArg some (selectAt_full (t.hasShape.map Leaf.entry) _)
        | cons u us =>
          simp only [reduceFlat, hts] at h
          split_ifs at h with hneg hd
          obtain ⟨out, hconcat, h⟩ := bind_ok.1 h
          obtain rfl := mapM_tensor?_eq_some.1 hts
          rw [hout, ← ok.inj h, getElem_map]
          exact congrArg some (segment_concat hconcat (by rwa [length_map] at hi))
      · have hout : outType (.flat keepOnCpu slices dim) batch = none := by
          simp only [outType, hts]
          exact if_neg hsame
        cases ts with
        | nil =>
          refine absurd (fun u hu => ?_) hsame
          rw [mem_singleton.1 hu]
          exact ⟨rfl, rfl⟩
        | cons u us =>
          simp only [reduceFlat, hts] at h
          split_ifs at h with hneg
          exact hchain h hout

/-! ### When each element finds its own data -/

variable (torch) in
/-- The tensors that are merged into one can be written into it, and lose nothing. -/
def Lossless (field : MultiModalField) (batch : List (NestedTensors (Tensor δ α))) : Prop :=
  ∀ dtype, outType field batch = some dtype →
    torch.canCast ((batch.filterMap NestedTensors.tensor?).map (·.dtype)) dtype = true ∧
    ∀ t, .tensor t ∈ batch → t.into torch dtype = t.entries

variable (torch) in
/-- The elements of a shared field agree; the tensors of the others lose nothing. -/
def FieldKept (field : MultiModalField) (batch : List (NestedTensors (Tensor δ α))) : Prop :=
  match field with
  | .shared _ _ => ∀ x ∈ batch, ∀ y ∈ batch, x.nested = y.nested
  | field => Lossless torch field batch

variable {field : MultiModalField}

/-- The tensors of a batch that is merged into one tensor. -/
theorem eq_map_of_outType {dtype : δ} (h : outType field batch = some dtype) :
    ∃ t ts, batch = (t :: ts).map .tensor ∧ dtype = t.dtype := by
  cases hts : batch.mapM NestedTensors.tensor? with
  | none => cases field <;> simp only [outType, hts, reduceCtorEq] at h
  | some us =>
    cases us with
    | nil => cases field <;> simp only [outType, hts, reduceCtorEq] at h
    | cons t ts =>
      refine ⟨t, ts, mapM_tensor?_eq_some.1 hts, ?_⟩
      cases field with
      | shared => simp only [outType, reduceCtorEq] at h
      | batched | flat =>
        simp only [outType, hts, ite_none_right_eq_some] at h
        exact (some.inj h.2).symm

theorem filterMap_tensor? (ts : List (Tensor δ α)) :
    (ts.map NestedTensors.tensor).filterMap NestedTensors.tensor? = ts := by
  rw [filterMap_map]
  exact filterMap_some

/-- Tensors that were merged could be written into the merged one. -/
theorem canCast_of_reduceBatch (h : reduceBatch torch field x batch = .ok d) {dtype : δ}
    (hout : outType field (x :: batch) = some dtype) :
    torch.canCast (((x :: batch).filterMap NestedTensors.tensor?).map (·.dtype)) dtype = true := by
  obtain ⟨t, ts, hbatch, rfl⟩ := eq_map_of_outType hout
  have hts := mapM_tensor?_eq_some.2 hbatch
  rw [hbatch, filterMap_tensor?]
  cases ts with
  | nil =>
    refine torch.canCast_self fun d' hd' => ?_
    exact mem_singleton.1 hd'
  | cons u us =>
    cases field with
    | batched keepOnCpu =>
      simp only [reduceBatch, reduceBatched, hts] at h
      simp only [outType, hts, ite_none_right_eq_some] at hout
      rw [dif_pos hout.1] at h
      obtain ⟨out, hstack, -⟩ := bind_ok.1 h
      unfold stack at hstack
      split_ifs at hstack with hcast
      exact hcast
    | flat keepOnCpu slices dim =>
      simp only [reduceBatch, reduceFlat, hts] at h
      simp only [outType, hts, ite_none_right_eq_some] at hout
      split_ifs at h with hneg hsame hd
      · obtain ⟨out, hconcat, -⟩ := bind_ok.1 h
        unfold Tensor.concat at hconcat
        split_ifs at hconcat with hcast
        exact hcast
      · exact absurd hout.1 hsame
    | shared keepOnCpu batchSize => simp only [outType, reduceCtorEq] at hout

theorem received_eq_nested_iff : (∀ x ∈ batch, received torch (outType field batch) x = x.nested) ↔
      ∀ dtype, outType field batch = some dtype →
        ∀ t, .tensor t ∈ batch → t.into torch dtype = t.entries := by
  cases hout : outType field batch with
  | none => exact ⟨fun _ dtype h => absurd h (by simp), fun _ x _ => by cases x <;> rfl⟩
  | some dtype =>
    constructor
    · rintro h _ ⟨⟩ t ht
      exact map_injective (t.hasShape_into torch dtype) t.hasShape
        (fun a b hab => by injection hab) (h (.tensor t) ht)
    · intro h x hx
      cases x with
      | tensor t =>
        show (t.into torch dtype).map Leaf.entry = t.entries.map Leaf.entry
        rw [h dtype rfl t hx]
      | none | number | list => rfl

/-- Each element finds its own data in what was merged, exactly if the field is kept. -/
theorem ownPart_reduceBatch_iff (h : reduceBatch torch field x batch = .ok d) :
    (∀ (i : ℕ) (hi : i < (x :: batch).length),
      ownPart field (x :: batch) i d.nested = some (x :: batch)[i].nested) ↔
    FieldKept torch field (x :: batch) := by
  have hlossless : (∀ (i : ℕ) (hi : i < (x :: batch).length),
      ownPart field (x :: batch) i d.nested =
        some (received torch (outType field (x :: batch)) (x :: batch)[i])) →
      ((∀ (i : ℕ) (hi : i < (x :: batch).length),
        ownPart field (x :: batch) i d.nested = some (x :: batch)[i].nested) ↔
      Lossless torch field (x :: batch)) := by
    intro hpart
    constructor
    · intro hown dtype hout
      refine ⟨canCast_of_reduceBatch h hout, received_eq_nested_iff.1 (fun y hy => ?_) dtype hout⟩
      obtain ⟨i, hi, rfl⟩ := getElem_of_mem hy
      exact some.inj ((hpart i hi).symm.trans (hown i hi))
    · intro hkept i hi
      rw [hpart i hi]
      exact congrArg some (received_eq_nested_iff.2 (fun dtype hout => (hkept dtype hout).2) _
        (getElem_mem hi))
  cases field with
  | batched keepOnCpu => exact hlossless fun i hi => ownPart_reduceBatched h hi
  | flat keepOnCpu slices dim => exact hlossless fun i hi => ownPart_reduceFlat h hi
  | shared keepOnCpu batchSize =>
    obtain rfl : x = d := ok.inj h
    constructor
    · intro hown y hy z hz
      obtain ⟨i, hi, rfl⟩ := getElem_of_mem hy
      obtain ⟨j, hj, rfl⟩ := getElem_of_mem hz
      exact some.inj ((hown i hi).symm.trans (hown j hj))
    · intro hkept i hi
      exact congrArg some (hkept x (.head _) _ (getElem_mem hi))

end LoptVllm.Multimodal
