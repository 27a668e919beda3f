import LoptVllm.Python
import Mathlib.Data.List.Nodup

/-!
# Multi-modal inputs

The keyword arguments that a multi-modal processor makes, over an arbitrary type of tensors.
-/

namespace LoptVllm.Multimodal

open List

/-- A `bool`, an `int` or a `float`; a `float` is its 64 bits. -/
inductive Number
  | bool (b : Bool)
  | int (n : ℤ)
  | float (bits : UInt64)
  deriving DecidableEq, Repr

/-- `NestedTensors`, with the numbers that the code allows besides, and `None`. -/
inductive NestedTensors (τ : Type*)
  | none
  | number (n : Number)
  | tensor (t : τ)
  | list (l : List (NestedTensors τ))

/-- `isinstance(nt, torch.Tensor)`. -/
def NestedTensors.tensor? {τ : Type*} : NestedTensors τ → Option τ
  | .tensor t => some t
  | _ => Option.none

/-- `slice(start, stop, step)`. -/
structure PySlice where
  start : Option ℤ
  stop : Option ℤ
  step : Option ℤ
  deriving DecidableEq, Repr

/-- `Sequence[slice] | Sequence[Sequence[slice]]`, nested to any depth. -/
inductive Slices
  | slice (s : PySlice)
  | seq (l : List Slices)

/-- `BaseMultiModalField`: `MultiModalBatchedField`, `MultiModalFlatField` or
`MultiModalSharedField`. -/
inductive MultiModalField
  | batched (keepOnCpu : Bool)
  | flat (keepOnCpu : Bool) (slices : Slices) (dim : ℤ)
  | shared (keepOnCpu : Bool) (batchSize : ℤ)

/-- `MultiModalFieldElem`. -/
structure MultiModalFieldElem (τ : Type*) where
  modality : String
  key : String
  data : NestedTensors τ
  field : MultiModalField

variable {τ : Type*} (d : List (MultiModalFieldElem τ))

/-- `d[elem.key] = elem` in a dictionary, which is the list of its values. -/
def setElem (elem : MultiModalFieldElem τ) : List (MultiModalFieldElem τ) :=
  if elem.key ∈ d.map (·.key) then d.map fun e => if e.key = elem.key then elem else e
  else d ++ [elem]

/-- `{elem.key: elem for elem in elems}`. -/
def dictOfElems (elems : List (MultiModalFieldElem τ)) : List (MultiModalFieldElem τ) :=
  elems.foldl setElem []

/-- `MultiModalKwargsItem`: a dictionary with the elements of one item under their keys, all of the
modality of the item. -/
structure MultiModalKwargsItem (τ : Type*) where
  elems : List (MultiModalFieldElem τ)
  modality : String
  keys_nodup : (elems.map (·.key)).Nodup
  elems_ne_nil : elems ≠ []
  modality_eq : ∀ elem ∈ elems, elem.modality = modality

/-- `MultiModalKwargsItems`: the items of each modality, in the order of the dictionary. -/
structure MultiModalKwargsItems (τ : Type*) where
  byModality : List (String × List (MultiModalKwargsItem τ))
  modalities_nodup : (byModality.map (·.1)).Nodup

@[ext] theorem MultiModalKwargsItem.ext {item item' : MultiModalKwargsItem τ}
    (h : item.elems = item'.elems) : item = item' := by
  obtain ⟨elems, modality, hnodup, hne, hmod⟩ := item
  obtain ⟨elems', modality', hnodup', hne', hmod'⟩ := item'
  obtain rfl : elems = elems' := h
  obtain ⟨e, he⟩ := exists_mem_of_ne_nil elems hne
  obtain rfl : modality = modality' := (hmod e he).symm.trans (hmod' e he)
  rfl

theorem keys_setElem (elem : MultiModalFieldElem τ) : (setElem d elem).map (·.key) =
      if elem.key ∈ d.map (·.key) then d.map (·.key) else d.map (·.key) ++ [elem.key] := by
  unfold setElem
  by_cases h : elem.key ∈ d.map (·.key)
  · rw [if_pos h, if_pos h, map_map]
    refine map_congr_left fun e _ => ?_
    show (if e.key = elem.key then elem else e).key = e.key
    by_cases he : e.key = elem.key
    · rw [if_pos he, he]
    · rw [if_neg he]
  · rw [if_neg h, if_neg h, map_append, map_singleton]

theorem nodup_setElem {d : List (MultiModalFieldElem τ)} (h : (d.map (·.key)).Nodup)
    (elem : MultiModalFieldElem τ) : ((setElem d elem).map (·.key)).Nodup := by
  rw [keys_setElem]
  by_cases hmem : elem.key ∈ d.map (·.key)
  · rw [if_pos hmem]
    exact h
  · rw [if_neg hmem]
    refine nodup_append.2 ⟨h, nodup_singleton _, fun k hk k' hk' heq => hmem ?_⟩
    rw [← mem_singleton.1 hk', ← heq]
    exact hk

variable (elems : List (MultiModalFieldElem τ))

theorem nodup_dictOfElems : ((dictOfElems elems).map (·.key)).Nodup := by
  have hfold : ∀ (elems d : List (MultiModalFieldElem τ)), (d.map (·.key)).Nodup →
      ((elems.foldl setElem d).map (·.key)).Nodup := by
    intro elems
    induction elems with
    | nil => exact fun d h => h
    | cons elem elems ih => exact fun d h => ih _ (nodup_setElem h elem)
  exact hfold elems [] nodup_nil

theorem dictOfElems_of_nodup {elems : List (MultiModalFieldElem τ)}
    (h : (elems.map (·.key)).Nodup) : dictOfElems elems = elems := by
  have hfold : ∀ (elems d : List (MultiModalFieldElem τ)), ((d ++ elems).map (·.key)).Nodup →
      elems.foldl setElem d = d ++ elems := by
    intro elems
    induction elems with
    | nil => exact fun d _ => (append_nil d).symm
    | cons elem elems ih =>
      intro d hd
      have hnew : elem.key ∉ d.map (·.key) := by
        rw [map_append, map_cons] at hd
        exact fun hmem => (nodup_append.1 hd).2.2 _ hmem _ (.head _) rfl
      have hset : setElem d elem = d ++ [elem] := if_neg hnew
      rw [foldl_cons, hset, ih _ (by rwa [append_assoc, singleton_append]),
        append_assoc, singleton_append]
  exact hfold elems [] h

/-- `MultiModalKwargsItem.from_elems`, with the assertion of the constructor. -/
def fromElems : Except PyErr (MultiModalKwargsItem τ) :=
  match hd : dictOfElems elems with
  | [] => .error (.assertionError "Found different modalities")
  | elem :: rest =>
    if hm : ∀ e ∈ rest, e.modality = elem.modality then
      .ok {
        elems := elem :: rest
        modality := elem.modality
        keys_nodup := hd ▸ nodup_dictOfElems elems
        elems_ne_nil := List.cons_ne_nil elem rest
        modality_eq := fun e he => (List.mem_cons.1 he).elim (fun h => h ▸ rfl) (hm e) }
    else .error (.assertionError "Found different modalities")

theorem fromElems_elems (item : MultiModalKwargsItem τ) : fromElems item.elems = .ok item := by
  have hdict : dictOfElems item.elems = item.elems := dictOfElems_of_nodup item.keys_nodup
  unfold fromElems
  split
  · next hd => exact absurd (hdict.symm.trans hd) item.elems_ne_nil
  · next elem rest hd =>
    have hitem : item.elems = elem :: rest := hdict.symm.trans hd
    have hmod : elem.modality = item.modality := item.modality_eq elem (hitem ▸ mem_cons_self)
    rw [dif_pos fun e he => (item.modality_eq e (hitem ▸ mem_cons_of_mem elem he)).trans hmod.symm]
    exact congrArg Except.ok (MultiModalKwargsItem.ext hitem.symm)

end LoptVllm.Multimodal
