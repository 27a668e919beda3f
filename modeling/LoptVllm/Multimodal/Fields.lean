import LoptVllm.Lib.Grouping
import LoptVllm.Multimodal.Tensors
import Mathlib.Data.String.Basic

/-!
# Splitting and batching multi-modal data

The data of a keyword argument is split into the elements of the items, and the elements of items
that are run together, from one request or from several, are merged again. Where tensors are moved
to is left out: a move keeps the entries.
-/

namespace LoptVllm.Multimodal

open Lib List

variable {δ α : Type}

/-- The classes of fields. -/
inductive FieldType
  | batched
  | flat
  | shared
  deriving DecidableEq

/-- `type(field)`. -/
def MultiModalField.type : MultiModalField → FieldType
  | .batched _ => .batched
  | .flat _ _ _ => .flat
  | .shared _ _ => .shared

/-! ### Splitting -/

/-- `[item for item in data]`. -/
def iterate : NestedTensors (Tensor δ α) → Except PyErr (List (NestedTensors (Tensor δ α)))
  | .list l => .ok l
  | .tensor t => do
    let ts ← t.unbind
    .ok (ts.map .tensor)
  | _ => .error (.typeError "object is not iterable")

/-- An entry of `slices` that is a slice. -/
def Slices.slice? : Slices → Option PySlice
  | .slice s => some s
  | .seq _ => none

/-- The slices of an entry of `slices`, one for each axis. -/
def Slices.axes? : Slices → Option (List PySlice)
  | .slice s => some [s]
  | .seq l => l.mapM Slices.slice?

/-- `data[s]`. -/
def getSlice : NestedTensors (Tensor δ α) → Slices → Except PyErr (NestedTensors (Tensor δ α))
  | .list l, .slice s =>
    if s.step.getD 1 = 0 then .error (.valueError "slice step cannot be zero")
    else .ok (.list (pick l (s.positions l.length)))
  | .tensor t, s =>
    match s.axes? with
    | some ss => do
      let u ← t.index ss
      .ok (.tensor u)
    | none => .error (.typeError "")
  | _, _ => .error (.typeError "")

variable (field : MultiModalField)

/-- `build_elems` of each class of fields: the data of the elements. -/
def buildData (data : NestedTensors (Tensor δ α)) :
    Except PyErr (List (NestedTensors (Tensor δ α))) :=
  match field with
  | .batched _ => iterate data
  | .flat _ (.seq slices) _ =>
    if (∀ s ∈ slices, s.slice?.isSome) ∨ data.tensor?.isSome then slices.mapM (getSlice data)
    else .error (.assertionError "torch.Tensor is required for multiple slices")
  | .flat _ (.slice _) _ => .error (.typeError "'slice' object is not iterable")
  | .shared _ batchSize => .ok (replicate batchSize.toNat data)

/-- `build_elems`: the elements have the field that made them. -/
def buildElems (modality key : String) (data : NestedTensors (Tensor δ α)) :
    Except PyErr (List (MultiModalFieldElem (Tensor δ α))) := do
  let datas ← buildData field data
  .ok (datas.map fun data => ⟨modality, key, data, field⟩)

/-! ### Merging -/

section

variable (torch : Torch δ α)

/-- `MultiModalBatchedField._reduce_data`. -/
def reduceBatched (batch : List (NestedTensors (Tensor δ α))) :
    Except PyErr (NestedTensors (Tensor δ α)) :=
  match batch.mapM NestedTensors.tensor? with
  | some [t] => .ok (.tensor t.unsqueeze)
  | some (t :: ts) =>
    if h : ∀ u ∈ ts, u.shape = t.shape then do
      let out ← t.stack torch ts h
      .ok (.tensor out)
    else .ok (.list batch)
  | _ => .ok (.list batch)

/-- `[e for elem in batch for e in elem]`, after the assertion on `dim`. -/
def chainElems (dim : ℤ) (batch : List (NestedTensors (Tensor δ α))) :
    Except PyErr (NestedTensors (Tensor δ α)) :=
  if dim = 0 then do
    let ls ← batch.mapM iterate
    .ok (.list ls.flatten)
  else .error (.assertionError "dim == 0 is required for nested list")

/-- `self.dim + (self.dim < 0) * len(batch[0].shape)`. -/
def axisOf (dim : ℤ) (t : Tensor δ α) : ℤ := if dim < 0 then dim + t.shape.length else dim

/-- `MultiModalFlatField._reduce_data`. -/
def reduceFlat (dim : ℤ) (batch : List (NestedTensors (Tensor δ α))) :
    Except PyErr (NestedTensors (Tensor δ α)) :=
  match batch.mapM NestedTensors.tensor? with
  | some [t] => .ok (.tensor t)
  | some (t :: ts) =>
    -- an axis that is still negative is refused by `torch.concat`, or by the assertion
    if axisOf dim t < 0 then .error (.indexError "Dimension out of range")
    else if h : ∀ u ∈ t :: ts, t.SameOutside (axisOf dim t).toNat u then
      if hd : ∀ u ∈ t :: ts, (axisOf dim t).toNat < u.shape.length then do
        let out ← t.concat torch (axisOf dim t).toNat ts h hd
        .ok (.tensor out)
      else .error (.indexError "tuple index out of range")
    else chainElems dim batch
  | _ => chainElems dim batch

/-- `_reduce_data` of each class of fields, of the data of at least one element. -/
def reduceBatch (field : MultiModalField) (data : NestedTensors (Tensor δ α))
    (batch : List (NestedTensors (Tensor δ α))) : Except PyErr (NestedTensors (Tensor δ α)) :=
  match field with
  | .batched _ => reduceBatched torch (data :: batch)
  | .flat _ _ dim => reduceFlat torch dim (data :: batch)
  | .shared _ _ => .ok data

/-- `elems[0].field.reduce_data(elems)`. -/
def reduceData : List (MultiModalFieldElem (Tensor δ α)) → Except PyErr (NestedTensors (Tensor δ α))
  | [] => .error (.indexError "list index out of range")
  | elem :: elems =>
    if ∀ e ∈ elems, e.field.type = elem.field.type then
      reduceBatch torch elem.field elem.data (elems.map (·.data))
    else .error (.valueError "Cannot merge different field_types")

/-! ### Items -/

/-- `MultiModalFieldConfig`. -/
structure MultiModalFieldConfig where
  field : MultiModalField
  modality : String

/-- The elements of each key that has any, with the modality of the key. -/
def elemsByKey (hfInputs : String → NestedTensors (Tensor δ α)) :
    List (String × MultiModalFieldConfig) →
    Except PyErr (List (String × List (MultiModalFieldElem (Tensor δ α))))
  | [] => .ok []
  | (key, config) :: configByKey =>
    match hfInputs key with
    | .none => elemsByKey hfInputs configByKey
    | batch => do
      let elems ← buildElems config.field config.modality key batch
      let rest ← elemsByKey hfInputs configByKey
      .ok (if elems = [] then rest else (config.modality, elems) :: rest)

/-- The items of a modality: the `i`-th item has the `i`-th element of each key. -/
def itemsOfModality (columns : List (List (MultiModalFieldElem (Tensor δ α)))) :
    Except PyErr (List (MultiModalKwargsItem (Tensor δ α))) :=
  match columns with
  | [] => .ok []
  | column :: columns =>
    if ∀ c ∈ columns, c.length = column.length then
      (range column.length).mapM fun i =>
        fromElems ((column :: columns).filterMap (·[i]?))
    else .error (.valueError "Cannot merge different batch sizes")

/-- `MultiModalKwargsItems.from_seq`. -/
def fromSeq (items : List (MultiModalKwargsItem (Tensor δ α))) :
    MultiModalKwargsItems (Tensor δ α) where
  byModality := (uniqueInOrder (items.map (·.modality))).map fun modality =>
    (modality, items.filter fun item => item.modality = modality)
  modalities_nodup := by
    rw [map_map]
    exact (map_id' _).symm ▸ (uniqueInOrder_spec (items.map (·.modality))).1

/-- `MultiModalKwargsItems.from_hf_inputs`. -/
def fromHfInputs (hfInputs : String → NestedTensors (Tensor δ α))
    (configByKey : List (String × MultiModalFieldConfig)) :
    Except PyErr (MultiModalKwargsItems (Tensor δ α)) := do
  let columns ← elemsByKey hfInputs configByKey
  let items ← (uniqueInOrder (columns.map (·.1))).mapM fun modality =>
    itemsOfModality ((columns.filter fun c => c.1 = modality).map (·.2))
  .ok (fromSeq items.flatten)

/-- All items, modality by modality. -/
def MultiModalKwargsItems.toList (items : MultiModalKwargsItems (Tensor δ α)) :
    List (MultiModalKwargsItem (Tensor δ α)) := items.byModality.flatMap (·.2)

variable (items : List (MultiModalKwargsItem (Tensor δ α)))

/-- The elements of a key, in the order of the items. -/
def elemsOf (key : String) : List (MultiModalFieldElem (Tensor δ α)) :=
  (items.flatMap (·.elems)).filter fun elem => elem.key = key

/-- The keys of the items. -/
def keysOf : List String :=
  uniqueInOrder ((items.flatMap (·.elems)).map (·.key))

/-- `MultiModalKwargsItems.get_data`. -/
def getData (items : MultiModalKwargsItems (Tensor δ α)) :
    Except PyErr (List (String × NestedTensors (Tensor δ α))) :=
  (keysOf items.toList).mapM fun key => do
    let data ← reduceData torch (elemsOf items.toList key)
    .ok (key, data)

/-- `group_mm_kwargs_by_modality`: the consecutive items of one modality, with their number and
their data. -/
def groupMmKwargsByModality (mmKwargs : List (MultiModalKwargsItem (Tensor δ α))) :
    Except PyErr (List (String × ℕ × List (String × NestedTensors (Tensor δ α)))) :=
  (segments (·.modality) mmKwargs).mapM fun itemsLst => do
    let data ← getData torch (fromSeq itemsLst)
    .ok (((itemsLst.head?.map (·.modality)).getD ""), itemsLst.length, data)

end

end LoptVllm.Multimodal
