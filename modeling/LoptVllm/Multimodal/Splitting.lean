import LoptVllm.Multimodal.Merging

/-!
# Data that is split and merged again
-/

namespace LoptVllm.Multimodal

open List Except Tensor Slices

open Lib Lib.NestedArray

variable {δ α : Type} {torch : Torch δ α}

/-! ### Batched fields -/

variable {keepOnCpu : Bool} {batch : List (NestedTensors (Tensor δ α))}

theorem exists_reduceBatched
    (h : Lossless torch (.batched keepOnCpu) batch) : ∃ d, reduceBatched torch batch = .ok d := by
  unfold reduceBatched
  cases hts : batch.mapM NestedTensors.tensor? with
  | none => exact ⟨_, rfl⟩
  | some ts =>
    cases ts with
    | nil => exact ⟨_, rfl⟩
    | cons t ts =>
      cases ts with
      | nil => exact ⟨_, rfl⟩
      | cons u us =>
        by_cases hshape : ∀ w ∈ u :: us, w.shape = t.shape
        · have hout : outType (.batched keepOnCpu) batch = some t.dtype := by
            simp only [outType, hts]
            exact if_pos hshape
          have hcast := (h t.dtype hout).1
          rw [mapM_tensor?_eq_some.1 hts, filterMap_tensor?] at hcast
          simp only [dif_pos hshape, stack, if_pos hcast]
          exact ⟨_, rfl⟩
        · simp only [dif_neg hshape]
          exact ⟨_, rfl⟩

variable {x : NestedTensors (Tensor δ α)} {data : NestedTensors (Tensor δ α)}

/-- What is iterated over is merged into the same nested array, exactly if nothing is lost. -/
theorem exists_reduceBatched_iff (h : iterate data = .ok (x :: batch)) :
    (∃ d, reduceBatch torch (.batched keepOnCpu) x batch = .ok d ∧ d.nested = data.nested) ↔
      Lossless torch (.batched keepOnCpu) (x :: batch) := by
  rw [nested_of_iterate h]
  constructor
  · rintro ⟨d, hd, hnested⟩ dtype hout
    refine ⟨canCast_of_reduceBatch hd hout, received_eq_nested_iff.1 (fun y hy => ?_) dtype hout⟩
    rw [@nested_reduceBatched _ _ _ _ keepOnCpu _ hd] at hnested
    injection hnested with hmap
    exact map_inj_left.1 hmap y hy
  · intro hkept
    obtain ⟨d, hd⟩ := exists_reduceBatched hkept
    refine ⟨d, hd, ?_⟩
    rw [@nested_reduceBatched _ _ _ _ keepOnCpu _ hd]
    exact congrArg node (map_congr_left
      (received_eq_nested_iff.2 fun dtype hout => (hkept dtype hout).2))

/-! ### Flat fields -/

/-- The positions of slices, axis by axis. -/
def axisPositions (ss : List PySlice) (shape : List ℕ) : List (List ℕ) :=
  List.zipWith (fun s n => s.positions n) ss shape

/-- The slices of a flat field take the axis `dim` of the data in order and once, and take the other
axes whole; a list has one axis. -/
def Tiling (dim : ℤ) (slices : List Slices) : NestedTensors (Tensor δ α) → Prop
  | .tensor t => ∃ (a : ℕ) (sss : List (List PySlice)), axisOf dim t = a ∧ a < t.shape.length ∧
      slices.mapM axes? = some sss ∧
      (∀ ss ∈ sss, ∀ (k : ℕ) (s : PySlice) (n : ℕ), k ≠ a → ss[k]? = some s →
        t.shape[k]? = some n → s.positions n = range n) ∧
      (sss.flatMap fun ss => (ss[a]?.map (·.positions (t.size a))).getD (range (t.size a))) =
        range (t.size a)
  | .list l => dim = 0 ∧ (slices.filterMap slice?).flatMap (·.positions l.length) = range l.length
  | _ => True

variable {shape : List ℕ}

theorem slicePositions_eq_ok {ss : List PySlice} {ps : {ps : List (List ℕ) // InBounds ps shape}}
    (h : slicePositions ss shape = .ok ps) :
    ps.1 = axisPositions ss shape ∧ ss.length ≤ shape.length := by
  induction ss generalizing shape with
  | nil =>
    cases h
    exact ⟨rfl, Nat.zero_le _⟩
  | cons s ss ih =>
    cases shape with
    | nil => cases h
    | cons n shape =>
      unfold slicePositions at h
      split_ifs at h
      obtain ⟨qs, hqs, h⟩ := bind_ok.1 h
      obtain ⟨heq, hlen⟩ := ih hqs
      rw [← ok.inj h]
      exact ⟨congrArg (s.positions n :: ·) heq, Nat.succ_le_succ hlen⟩

variable {slices : List Slices} {datas : List (NestedTensors (Tensor δ α))}

/-- The pieces of a tensor, one for each entry of the slices. -/
theorem pieces_of_getSlice {t : Tensor δ α} {sss : List (List PySlice)}
    (hsss : slices.mapM axes? = some sss) (h : slices.mapM (getSlice (.tensor t)) = .ok datas) :
    ∃ us : List (Tensor δ α), datas = us.map .tensor ∧
      Forall₂ (fun ss u => u.dtype = t.dtype ∧ ss.length ≤ t.shape.length ∧
        u.shape = indexShape (axisPositions ss t.shape) t.shape ∧
        u.entries = t.entries.index (axisPositions ss t.shape)) sss us := by
  induction slices generalizing sss datas with
  | nil =>
    cases hsss
    cases h
    exact ⟨[], rfl, .nil⟩
  | cons s slices ih =>
    rw [mapM_cons] at hsss h
    obtain ⟨ss, hss, hsss⟩ := Option.bind_eq_some_iff.1 hsss
    obtain ⟨sss', hsss', hcons⟩ := Option.bind_eq_some_iff.1 hsss
    obtain rfl : ss :: sss' = sss := Option.some.inj hcons
    obtain ⟨data, hdata, h⟩ := bind_ok.1 h
    obtain ⟨datas', hdatas, h⟩ := bind_ok.1 h
    obtain rfl : data :: datas' = datas := ok.inj h
    obtain ⟨us, rfl, hus⟩ := ih hsss' hdatas
    simp only [getSlice, hss] at hdata
    obtain ⟨u, hu, hdata⟩ := bind_ok.1 hdata
    obtain rfl : NestedTensors.tensor u = data := ok.inj hdata
    obtain ⟨ps, hps, hu⟩ := bind_ok.1 hu
    obtain ⟨heq, hlen⟩ := slicePositions_eq_ok hps
    refine ⟨u :: us, rfl, .cons ?_ hus⟩
    rw [← ok.inj hu]
    exact ⟨rfl, hlen, congrArg (indexShape · t.shape) heq, congrArg (t.entries.index ·) heq⟩

variable {ps : List (List ℕ)}

/-- What indexing makes of one axis. -/
theorem getElem?_indexShape (h : ps.length ≤ shape.length) (k : ℕ) : (indexShape ps shape)[k]? =
      shape[k]?.map fun n => (ps[k]?.map List.length).getD n := by
  induction ps generalizing shape k with
  | nil =>
    have hshape : indexShape [] shape = shape := by cases shape <;> rfl
    rw [hshape]
    simp
  | cons p ps ih =>
    cases shape with
    | nil => cases h
    | cons n shape =>
      cases k with
      | zero => rfl
      | succ k => exact ih (Nat.le_of_succ_le_succ h) k

theorem length_indexShape (h : ps.length ≤ shape.length) :
    (indexShape ps shape).length = shape.length := by
  induction ps generalizing shape with
  | nil => cases shape <;> rfl
  | cons p ps ih =>
    cases shape with
    | nil => cases h
    | cons n shape => exact congrArg (· + 1) (ih (Nat.le_of_succ_le_succ h))

theorem getElem?_axisPositions {ss : List PySlice} {k : ℕ} : (axisPositions ss shape)[k]? =
      ss[k]?.bind fun s => shape[k]?.map fun n => s.positions n := by
  unfold axisPositions
  rw [getElem?_zipWith]
  cases ss[k]? <;> cases shape[k]? <;> rfl

variable {l : List (NestedTensors (Tensor δ α))}

theorem pieces_of_list (h : slices.mapM (getSlice (.list l)) = .ok datas) :
    datas = ((slices.filterMap slice?).map fun s => pick l (s.positions l.length)).map .list := by
  induction slices generalizing datas with
  | nil =>
    cases h
    rfl
  | cons s slices ih =>
    rw [mapM_cons] at h
    obtain ⟨data, hdata, htail⟩ := bind_ok.1 h
    obtain ⟨datas', hdatas, hcons⟩ := bind_ok.1 htail
    obtain rfl : data :: datas' = datas := ok.inj hcons
    cases s with
    | seq ss => cases hdata
    | slice s =>
      simp only [getSlice] at hdata
      split_ifs at hdata
      rw [← ok.inj hdata, ih hdatas]
      rfl

theorem chainElems_lists (ls : List (List (NestedTensors (Tensor δ α)))) :
    chainElems 0 (ls.map .list) = .ok (.list ls.flatten) := by
  have hiter : (ls.map NestedTensors.list).mapM iterate = .ok ls := by
    refine mapM_eq_ok.2 ?_
    induction ls with
    | nil => exact .nil
    | cons l ls ih => exact .cons rfl ih
  exact bind_ok.2 ⟨ls, hiter, rfl⟩

theorem exists_of_forall₂_right {β γ : Type} {R : β → γ → Prop} {l : List β} {r : List γ}
    (h : Forall₂ R l r) {c : γ} (hc : c ∈ r) : ∃ b ∈ l, R b c := by
  induction h with
  | nil => cases hc
  | @cons b c' l r hR _ ih =>
    rcases mem_cons.1 hc with rfl | hc
    · exact ⟨b, .head _, hR⟩
    · obtain ⟨b', hb', hR'⟩ := ih hc
      exact ⟨b', mem_cons_of_mem b hb', hR'⟩

theorem map_eq_of_forall₂ {β γ ε : Type} {f : β → ε} {g : γ → ε} {l : List β} {r : List γ}
    (h : Forall₂ (fun b c => g c = f b) l r) : r.map g = l.map f := by
  induction h with
  | nil => rfl
  | cons hR _ ih => rw [map_cons, map_cons, hR, ih]

/-- Tensors that agree with one tensor in all axes but one. -/
theorem sameOutside_of_getElem? {a : ℕ} {u w : Tensor δ α}
    (hu : ∀ k, k ≠ a → u.shape[k]? = shape[k]?) (hw : ∀ k, k ≠ a → w.shape[k]? = shape[k]?) :
    u.SameOutside a w := by
  constructor
  · refine ext_getElem? fun k => ?_
    rw [getElem?_take, getElem?_take]
    by_cases hk : k < a
    · rw [if_pos hk, if_pos hk, hu k (ne_of_lt hk), hw k (ne_of_lt hk)]
    · rw [if_neg hk, if_neg hk]
  · refine ext_getElem? fun k => ?_
    have hk : a + 1 + k ≠ a := by omega
    rw [getElem?_drop, getElem?_drop, hu _ hk, hw _ hk]

variable {dim : ℤ}

/-- A flat field whose slices tile a list gives the list back. -/
theorem exists_reduceFlat_list (htile : Tiling dim slices (.list l))
    (h : slices.mapM (getSlice (.list l)) = .ok (x :: batch)) :
    reduceFlat torch dim (x :: batch) = .ok (.list l) ∧
      outType (.flat keepOnCpu (.seq slices) dim) (x :: batch) = none := by
  obtain ⟨rfl, hcover⟩ := htile
  have hpieces := pieces_of_list h
  have hts : (x :: batch).mapM NestedTensors.tensor? = none := by
    cases hss : slices.filterMap slice? with
    | nil =>
      rw [hss] at hpieces
      cases hpieces
    | cons s ss =>
      rw [hpieces, hss]
      rfl
  constructor
  · simp only [reduceFlat, hts]
    rw [hpieces, chainElems_lists, ← flatMap_def, ← pick_flatMap, hcover, pick_range]
  · simp [outType, hts]

/-- A flat field whose slices tile a tensor gives the tensor back. -/
theorem exists_reduceFlat_tensor {t : Tensor δ α} (htile : Tiling dim slices (.tensor t))
    (h : slices.mapM (getSlice (.tensor t)) = .ok (x :: batch)) :
    (∃ out : Tensor δ α, reduceFlat torch dim (x :: batch) = .ok (.tensor out) ∧
      out.entries = t.entries) ∧
    Lossless torch (.flat keepOnCpu (.seq slices) dim) (x :: batch) := by
  obtain ⟨a, sss, haxis, ha, hsss, hother, hcover⟩ := htile
  obtain ⟨us, hus, hpieces⟩ := pieces_of_getSlice hsss h
  have hts : (x :: batch).mapM NestedTensors.tensor? = some us := mapM_tensor?_eq_some.2 hus
  have hsize : t.size a = t.shape[a] := by
    unfold Tensor.size
    rw [getElem?_eq_getElem]
    rfl
  rw [hsize] at hcover
  have hposlen : ∀ ss : List PySlice, (axisPositions ss t.shape).length ≤ t.shape.length := by
    intro ss
    unfold axisPositions
    rw [length_zipWith]
    exact min_le_right _ _
  have hfull : ∀ ps ∈ sss.map (axisPositions · t.shape), ∀ (k : ℕ) (p : List ℕ) (n : ℕ), k ≠ a →
      ps[k]? = some p → t.shape[k]? = some n → p = range n := by
    intro ps hps k p n hk hp hn
    obtain ⟨ss, hss, rfl⟩ := mem_map.1 hps
    rw [getElem?_axisPositions, hn] at hp
    obtain ⟨s, hs, hp⟩ := Option.bind_eq_some_iff.1 hp
    rw [← Option.some.inj hp]
    exact hother ss hss k s n hk hs hn
  have htiled : ((sss.map (axisPositions · t.shape)).flatMap fun ps =>
      ps[a]?.getD (range t.shape[a])) = range t.shape[a] := by
    rw [flatMap_map]
    refine (flatMap_congr fun ss _ => ?_).trans hcover
    rw [getElem?_axisPositions, getElem?_eq_getElem ha]
    cases ss[a]? <;> rfl
  -- every piece has the axes of the tensor, but for the one that is tiled
  have hpiece : ∀ w ∈ us, w.dtype = t.dtype ∧ w.shape.length = t.shape.length ∧
      ∀ k, k ≠ a → w.shape[k]? = t.shape[k]? := by
    intro w hw
    obtain ⟨ss, hss, hdtype, -, hshape, -⟩ := exists_of_forall₂_right hpieces hw
    refine ⟨hdtype, ?_, fun k hk => ?_⟩
    · rw [hshape]
      exact length_indexShape (hposlen ss)
    · rw [hshape, getElem?_indexShape (hposlen ss)]
      cases hn : t.shape[k]? with
      | none => rfl
      | some n =>
        cases hp : (axisPositions ss t.shape)[k]? with
        | none => rfl
        | some p =>
          rw [hfull _ (mem_map_of_mem hss) k p n hk hp hn]
          simp
  have hentries : us.map entries =
      (sss.map (axisPositions · t.shape)).map fun ps => t.entries.index ps := by
    rw [map_map]
    exact map_eq_of_forall₂ (hpieces.imp fun _ _ hR => hR.2.2.2)
  cases us with
  | nil => cases hus
  | cons u us =>
    have hu := hpiece u (.head _)
    have hinto : ∀ w ∈ u :: us, w.into torch u.dtype = w.entries := by
      intro w hw
      rw [hu.1, ← (hpiece w hw).1]
      exact Tensor.into_self torch w
    have hkept : Lossless torch (.flat keepOnCpu (.seq slices) dim) (x :: batch) := by
      intro dtype hout
      obtain ⟨t', ts', hts', rfl⟩ := eq_map_of_outType hout
      have heq : u :: us = t' :: ts' :=
        Option.some.inj (hts.symm.trans (mapM_tensor?_eq_some.2 hts'))
      obtain ⟨rfl, rfl⟩ := cons.inj heq
      rw [hus, filterMap_tensor?]
      refine ⟨torch.canCast_self fun d hd => ?_, fun w hw => ?_⟩
      · obtain ⟨w, hw, rfl⟩ := mem_map.1 hd
        exact (hpiece w hw).1.trans hu.1.symm
      · obtain ⟨w', hw', heq⟩ := mem_map.1 hw
        injection heq with heq
        exact heq ▸ hinto w' hw'
    refine ⟨?_, hkept⟩
    have hne : sss.map (axisPositions · t.shape) ≠ [] := by
      intro hnil
      rw [hnil] at hentries
      cases hentries
    have hjoin : concatAt a ((u :: us).map entries) = t.entries := by
      rw [hentries]
      refine concatAt_index hne t.hasShape ha (fun ps hps => ?_) hfull htiled
      obtain ⟨ss, -, rfl⟩ := mem_map.1 hps
      exact hposlen ss
    cases us with
    | nil =>
      refine ⟨u, by simp only [reduceFlat, hts], ?_⟩
      rw [← hjoin, map_singleton]
      exact (concatAt_singleton u.hasShape (hu.2.1.symm ▸ ha)).symm
    | cons w ws =>
      have haxis' : axisOf dim u = a := by
        unfold axisOf
        rw [hu.2.1]
        exact haxis
      have htoNat : (axisOf dim u).toNat = a := by rw [haxis', Int.toNat_natCast]
      have hneg : ¬ axisOf dim u < 0 := by omega
      have hsame : ∀ v ∈ u :: w :: ws, u.SameOutside (axisOf dim u).toNat v := fun v hv => by
        rw [htoNat]
        exact sameOutside_of_getElem? hu.2.2 (hpiece v hv).2.2
      have hd : ∀ v ∈ u :: w :: ws, (axisOf dim u).toNat < v.shape.length := fun v hv => by
        rw [htoNat, (hpiece v hv).2.1]
        exact ha
      have hout : outType (.flat keepOnCpu (.seq slices) dim) (x :: batch) = some u.dtype := by
        simp only [outType, hts]
        exact if_pos hsame
      have hcast := (hkept u.dtype hout).1
      rw [hus, filterMap_tensor?] at hcast
      simp only [reduceFlat, hts, if_neg hneg, dif_pos hsame, dif_pos hd, Tensor.concat,
        if_pos hcast]
      refine ⟨_, rfl, ?_⟩
      show concatAt (axisOf dim u).toNat _ = t.entries
      rw [htoNat, map_congr_left hinto]
      exact hjoin

/-- A flat field whose slices tile the data merges it to what it was, and loses nothing. -/
theorem exists_reduceFlat (htile : Tiling dim slices data)
    (h : buildData (.flat keepOnCpu (.seq slices) dim) data = .ok (x :: batch)) :
    (∃ d, reduceBatch torch (.flat keepOnCpu (.seq slices) dim) x batch = .ok d ∧
      d.nested = data.nested) ∧
    Lossless torch (.flat keepOnCpu (.seq slices) dim) (x :: batch) := by
  simp only [buildData] at h
  split_ifs at h
  cases data with
  | none | number =>
    cases slices with
    | nil => cases h
    | cons s slices =>
      obtain ⟨d, hd, -⟩ := bind_ok.1 h
      cases hd
  | list l =>
    obtain ⟨hd, hout⟩ := @exists_reduceFlat_list _ _ torch keepOnCpu _ _ _ _ _ htile h
    exact ⟨⟨_, hd, rfl⟩, fun dtype hdtype => by rw [hout] at hdtype; cases hdtype⟩
  | tensor t =>
    obtain ⟨⟨out, hd, hentries⟩, hkept⟩ := exists_reduceFlat_tensor htile h
    exact ⟨⟨_, hd, congrArg (NestedArray.map Leaf.entry) hentries⟩, hkept⟩

end LoptVllm.Multimodal
