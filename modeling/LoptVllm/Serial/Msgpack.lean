import LoptVllm.Multimodal.Inputs
import Mathlib.Algebra.Ring.Nat

/-!
# Messages between processes

`MsgpackEncoder` writes an object as a tree of native values, which `msgspec` packs into the first
buffer; large arrays travel in buffers of their own, and the tree holds their indices.
`MsgpackDecoder` reads the object back from the buffers and its type.
-/

namespace LoptVllm.Serial

open Multimodal

/-- The contents of a buffer. -/
abbrev Bytes := List UInt8

/-- The element types of an array library; a type is found again by its name
(`np.dtype(dtype.str)`, `getattr(torch, name)`). -/
class DType (δ : Type) where
  str : δ → String
  ofStr : String → Option δ
  itemsize : δ → ℕ
  ofStr_str (d : δ) : ofStr (str d) = some d
  itemsize_pos (d : δ) : 0 < itemsize d

/-- An array: its element type, its shape and the bytes of its elements in row-major order. -/
structure TypedArray (δ : Type) [DType δ] where
  dtype : δ
  shape : List ℕ
  data : Bytes
  nbytes_eq : data.length = shape.prod * DType.itemsize dtype

variable {δ ν : Type} [DType δ] [DType ν]

@[ext] theorem TypedArray.ext {a b : TypedArray δ} (hdtype : a.dtype = b.dtype)
    (hshape : a.shape = b.shape) (hdata : a.data = b.data) : a = b := by
  obtain ⟨d, s, l, h⟩ := a
  cases hdtype
  cases hshape
  cases hdata
  rfl

/-- `nbytes`. -/
def TypedArray.nbytes (a : TypedArray δ) : ℕ := a.data.length

/-- The native values that `msgspec` packs. -/
inductive Wire
  | nil
  | bool (b : Bool)
  | int (n : ℤ)
  | float (bits : UInt64)
  | str (s : String)
  | ext (code : ℕ) (data : Bytes)
  | array (l : List Wire)
  | map (l : List (String × Wire))

/-- `CUSTOM_TYPE_RAW_VIEW`. -/
def customTypeRawView : ℕ := 3

/-- `msgspec.msgpack`: the native values to bytes and back. -/
structure Msgspec where
  pack : Wire → Bytes
  unpack : Bytes → Option Wire

/-- An object that is sent: an array, multi-modal items, or a struct with objects as its fields. -/
inductive Value (δ ν : Type) [DType δ] [DType ν]
  | tensor (t : TypedArray δ)
  | ndarray (a : TypedArray ν)
  | mmItem (item : MultiModalKwargsItem (TypedArray δ))
  | mmItems (items : MultiModalKwargsItems (TypedArray δ))
  | struct (fields : List (Value δ ν))

/-- The type a decoder is made for. -/
inductive Ty
  | tensor
  | ndarray
  | mmItem
  | mmItems
  | struct (fields : List Ty)

mutual

/-- The type of an object. -/
def Value.ty : Value δ ν → Ty
  | .tensor _ => .tensor
  | .ndarray _ => .ndarray
  | .mmItem _ => .mmItem
  | .mmItems _ => .mmItems
  | .struct fields => .struct (Value.tys fields)

/-- The types of the fields of a struct. -/
def Value.tys : List (Value δ ν) → List Ty
  | [] => []
  | v :: vs => v.ty :: Value.tys vs

end

/-! ### The encoder

The encoder passes on `aux_buffers`, which grows as arrays are put into it. -/

section

variable (sizeThreshold : ℤ) (aux : List Bytes)

/-- `len(self.aux_buffers)`, then `self.aux_buffers.append(arr_data)`. -/
def stash (arrData : Bytes) : Wire × List Bytes :=
  (.int aux.length, aux ++ [arrData])

/-- A shape is a tuple of integers. -/
def encodeShape (shape : List ℕ) : Wire := .array (shape.map fun n : ℕ => Wire.int (n : ℤ))

/-- `_encode_ndarray`; the shape `()` is that of a scalar. -/
def encodeNdarray (obj : TypedArray ν) : Wire × List Bytes :=
  let data :=
    if obj.shape = [] ∨ (obj.nbytes : ℤ) < sizeThreshold then
      (.ext customTypeRawView obj.data, aux)
    else stash aux obj.data
  (.array [.str (DType.str obj.dtype), encodeShape obj.shape, data.1], data.2)

/-- `_encode_tensor`. -/
def encodeTensor (obj : TypedArray δ) : Wire × List Bytes :=
  let data :=
    if (obj.nbytes : ℤ) < sizeThreshold then (.ext customTypeRawView obj.data, aux)
    else stash aux obj.data
  (.array [.str (DType.str obj.dtype), encodeShape obj.shape, data.1], data.2)

/-- A number is its own native value. -/
def encodeNumber : Number → Wire
  | .bool b => .bool b
  | .int n => .int n
  | .float bits => .float bits

mutual

/-- `_encode_nested_tensors`. -/
def encodeNestedTensors (aux : List Bytes) :
    NestedTensors (TypedArray δ) → Except PyErr (Wire × List Bytes)
  | .tensor t => .ok (encodeTensor sizeThreshold aux t)
  | .number n => .ok (encodeNumber n, aux)
  | .none => .error (.typeError "'NoneType' object is not iterable")
  | .list l => do
    let ws ← encodeNestedList aux l
    .ok (.array ws.1, ws.2)

/-- `[self._encode_nested_tensors(x) for x in nt]`. -/
def encodeNestedList (aux : List Bytes) :
    List (NestedTensors (TypedArray δ)) → Except PyErr (List Wire × List Bytes)
  | [] => .ok ([], aux)
  | x :: xs => do
    let w ← encodeNestedTensors aux x
    let ws ← encodeNestedList w.2 xs
    .ok (w.1 :: ws.1, ws.2)

end

/-- An entry of a slice. -/
def encodeIndex : Option ℤ → Wire
  | none => .nil
  | some v => .int v

mutual

/-- What `enc_hook` makes of the slices in a sequence. -/
def encodeSlices : Slices → Wire
  | .slice obj => .array [encodeIndex obj.start, encodeIndex obj.stop, encodeIndex obj.step]
  | .seq l => .array (encodeSlicesList l)

/-- `encodeSlices` for each entry of a sequence. -/
def encodeSlicesList : List Slices → List Wire
  | [] => []
  | s :: l => encodeSlices s :: encodeSlicesList l

end

/-- `_encode_mm_field`: the name of the factory and the values of the dataclass fields. -/
def encodeMmField : MultiModalField → Wire
  | .batched keepOnCpu => .array [.str "batched", .map [("keep_on_cpu", .bool keepOnCpu)]]
  | .flat keepOnCpu slices dim =>
    .array [.str "flat",
      .map [("keep_on_cpu", .bool keepOnCpu), ("slices", encodeSlices slices), ("dim", .int dim)]]
  | .shared keepOnCpu batchSize =>
    .array [.str "shared", .map [("keep_on_cpu", .bool keepOnCpu), ("batch_size", .int batchSize)]]

/-- The data of an element, which may be `None`. -/
def encodeData (aux : List Bytes) : NestedTensors (TypedArray δ) → Except PyErr (Wire × List Bytes)
  | .none => .ok (.nil, aux)
  | nt => encodeNestedTensors sizeThreshold aux nt

/-- `_encode_mm_field_elem`. -/
def encodeMmFieldElem (aux : List Bytes) (elem : MultiModalFieldElem (TypedArray δ)) :
    Except PyErr (Wire × List Bytes) := do
  let data ← encodeData sizeThreshold aux elem.data
  .ok (.map [("modality", .str elem.modality), ("key", .str elem.key), ("data", data.1),
    ("field", encodeMmField elem.field)], data.2)

/-- `[f(x) for x in l]`, where `f` may put arrays into `aux_buffers`. -/
def encodeList {α β : Type} (f : List Bytes → α → Except PyErr (β × List Bytes)) :
    List Bytes → List α → Except PyErr (List β × List Bytes)
  | aux, [] => .ok ([], aux)
  | aux, x :: xs => do
    let w ← f aux x
    let ws ← encodeList f w.2 xs
    .ok (w.1 :: ws.1, ws.2)

variable (aux : List Bytes)

/-- `_encode_mm_item`. -/
def encodeMmItem (item : MultiModalKwargsItem (TypedArray δ)) :
    Except PyErr (Wire × List Bytes) := do
  let ws ← encodeList (encodeMmFieldElem sizeThreshold) aux item.elems
  .ok (.array ws.1, ws.2)

/-- The entry of a modality in `_encode_mm_items`. -/
def encodeModality (entry : String × List (MultiModalKwargsItem (TypedArray δ))) :
    Except PyErr ((String × Wire) × List Bytes) := do
  let ws ← encodeList (encodeMmItem sizeThreshold) aux entry.2
  .ok ((entry.1, .array ws.1), ws.2)

/-- `_encode_mm_items`. -/
def encodeMmItems (items : MultiModalKwargsItems (TypedArray δ)) :
    Except PyErr (Wire × List Bytes) := do
  let entries ← encodeList (encodeModality sizeThreshold) aux items.byModality
  .ok (.map entries.1, entries.2)

mutual

/-- What `enc_hook` makes of an object and of the objects in it. -/
def encodeValue (aux : List Bytes) : Value δ ν → Except PyErr (Wire × List Bytes)
  | .tensor t => .ok (encodeTensor sizeThreshold aux t)
  | .ndarray a => .ok (encodeNdarray sizeThreshold aux a)
  | .mmItem item => encodeMmItem sizeThreshold aux item
  | .mmItems items => encodeMmItems sizeThreshold aux items
  | .struct fields => do
    let ws ← encodeValues aux fields
    .ok (.array ws.1, ws.2)

/-- The fields of a struct, in order. -/
def encodeValues (aux : List Bytes) : List (Value δ ν) → Except PyErr (List Wire × List Bytes)
  | [] => .ok ([], aux)
  | v :: vs => do
    let w ← encodeValue aux v
    let ws ← encodeValues w.2 vs
    .ok (w.1 :: ws.1, ws.2)

end

/-- `MsgpackEncoder.encode`: the first buffer is there from the start, and is filled at the end. -/
def encode (msgspec : Msgspec) (obj : Value δ ν) : Except PyErr (List Bytes) := do
  let w ← encodeValue sizeThreshold [[]] obj
  .ok (w.2.set 0 (msgspec.pack w.1))

end

/-! ### The decoder -/

/-- `l[i]`, which counts from the end if `i` is negative. -/
def getItem (l : List Bytes) (i : ℤ) : Except PyErr Bytes :=
  match l[(if 0 ≤ i then i else i + l.length).toNat]? with
  | some b => if -l.length ≤ i then .ok b else .error (.indexError "")
  | none => .error (.indexError "")

/-- `ext_hook`. -/
def extHook (code : ℕ) (data : Bytes) : Except PyErr Bytes :=
  if code = customTypeRawView then .ok data else .error .notImplementedError

section

variable (auxBuffers : List Bytes)

/-- `self.aux_buffers[data] if isinstance(data, int) else data`. -/
def bufferOf : Wire → Except PyErr Bytes
  | .int data => getItem auxBuffers data
  | .ext code data => extHook code data
  | _ => .error (.typeError "")

/-- The entries of a shape. -/
def decodeShape : List Wire → Except PyErr (List ℕ)
  | [] => .ok []
  | .int n :: ws => do
    let ns ← decodeShape ws
    .ok (n.toNat :: ns)
  | _ => .error (.typeError "")

/-- An array of the given type and shape over a buffer of the right size. -/
def ofBuffer (dtype : δ) (shape : List ℕ) (buffer : Bytes) : Except PyErr (TypedArray δ) :=
  if h : buffer.length = shape.prod * DType.itemsize dtype then
    .ok ⟨dtype, shape, buffer, h⟩
  else .error (.valueError "")

/-- `_decode_ndarray`. -/
def decodeNdarray : List Wire → Except PyErr (TypedArray ν)
  | [.str dtype, .array shape, data] => do
    let buffer ← bufferOf auxBuffers data
    let shape ← decodeShape shape
    match (DType.ofStr dtype : Option ν) with
    | none => .error (.typeError "")
    | some dtype => ofBuffer dtype shape buffer
  | _ => .error (.valueError "")

/-- `_decode_tensor`: an empty tensor is not made from its buffer. -/
def decodeTensor : List Wire → Except PyErr (TypedArray δ)
  | [.str dtype, .array shape, data] => do
    let buffer ← bufferOf auxBuffers data
    let shape ← decodeShape shape
    match (DType.ofStr dtype : Option δ) with
    | none => .error (.attributeError "")
    | some dtype =>
      if buffer.length = 0 then
        if h : 0 ∈ shape then
          .ok ⟨dtype, shape, [], by
            simp [List.prod_eq_zero_iff_exists_zero_nat.2 ⟨0, h, rfl⟩]⟩
        else .error (.assertionError "")
      else ofBuffer dtype shape buffer
  | _ => .error (.valueError "")

mutual

/-- `_decode_nested_tensors`: a list that starts with a string is a tensor. -/
def decodeNestedTensors : Wire → Except PyErr (NestedTensors (TypedArray δ))
  | .bool b => .ok (.number (.bool b))
  | .int n => .ok (.number (.int n))
  | .float bits => .ok (.number (.float bits))
  | .array (.str s :: obj) => do
    let t ← decodeTensor auxBuffers (.str s :: obj)
    .ok (.tensor t)
  | .array obj => do
    let l ← decodeNestedList obj
    .ok (.list l)
  | _ => .error (.typeError "Unexpected NestedTensors contents")

/-- `[self._decode_nested_tensors(x) for x in obj]`. -/
def decodeNestedList : List Wire → Except PyErr (List (NestedTensors (TypedArray δ)))
  | [] => .ok []
  | x :: xs => do
    let nt ← decodeNestedTensors x
    let nts ← decodeNestedList xs
    .ok (nt :: nts)

end

/-- An argument of `slice`. -/
def decodeIndex : Wire → Except PyErr (Option ℤ)
  | .nil => .ok none
  | .int v => .ok (some v)
  | _ => .error (.typeError "")

/-- `slice(*obj)`. -/
def makeSlice : List Wire → Except PyErr PySlice
  | [stop] => do
    let stop ← decodeIndex stop
    .ok ⟨none, stop, none⟩
  | [start, stop] => do
    let start ← decodeIndex start
    let stop ← decodeIndex stop
    .ok ⟨start, stop, none⟩
  | [start, stop, step] => do
    let start ← decodeIndex start
    let stop ← decodeIndex stop
    let step ← decodeIndex step
    .ok ⟨start, stop, step⟩
  | _ => .error (.typeError "")

/-- `isinstance(obj, (list, tuple))`. -/
def Wire.isArray : Wire → Bool
  | .array _ => true
  | _ => false

mutual

/-- `_decode_nested_slices`: a sequence whose first entry is no sequence is a slice. -/
def decodeNestedSlices : Wire → Except PyErr Slices
  | .array [] => .ok (.seq [])
  | .array (w :: obj) =>
    if w.isArray then do
      let l ← decodeSlicesList (w :: obj)
      .ok (.seq l)
    else do
      let s ← makeSlice (w :: obj)
      .ok (.slice s)
  | _ => .error (.assertionError "")

/-- `[self._decode_nested_slices(x) for x in obj]`. -/
def decodeSlicesList : List Wire → Except PyErr (List Slices)
  | [] => .ok []
  | x :: xs => do
    let s ← decodeNestedSlices x
    let l ← decodeSlicesList xs
    .ok (s :: l)

end

variable (kw : List (String × Wire))

/-- A keyword argument with a default; the values are not checked by the factories, and the encoder
writes none of another type. -/
def boolKw (name : String) (default : Bool) : Except PyErr Bool :=
  match kw.lookup name with
  | none => .ok default
  | some (.bool b) => .ok b
  | some _ => .error (.typeError "")

/-- An integer keyword argument; without a default it has to be there. -/
def intKw (name : String) (default : Option ℤ) : Except PyErr ℤ :=
  match kw.lookup name, default with
  | none, some n => .ok n
  | some (.int n), _ => .ok n
  | _, _ => .error (.typeError "")

/-- The call of a factory of `MultiModalFieldConfig` with the arguments of the message, where `flat`
gets its slices decoded. -/
def decodeMmField : Wire → Except PyErr MultiModalField
  | .array [.str name, .map kw] =>
    if name = "batched" then do
      let keepOnCpu ← boolKw kw "keep_on_cpu" false
      .ok (.batched keepOnCpu)
    else if name = "flat" then
      match kw.lookup "slices" with
      | none => .error (.keyError "slices")
      | some obj => do
        let slices ← decodeNestedSlices obj
        let dim ← intKw kw "dim" (some 0)
        let keepOnCpu ← boolKw kw "keep_on_cpu" false
        .ok (.flat keepOnCpu slices dim)
    else if name = "shared" then do
      let batchSize ← intKw kw "batch_size" none
      let keepOnCpu ← boolKw kw "keep_on_cpu" false
      .ok (.shared keepOnCpu batchSize)
    else .error (.attributeError name)
  | _ => .error (.valueError "")

/-- The data of an element, which may be `None`. -/
def decodeData : Wire → Except PyErr (NestedTensors (TypedArray δ))
  | .nil => .ok .none
  | obj => decodeNestedTensors auxBuffers obj

/-- `_decode_mm_field_elem`. -/
def decodeMmFieldElem : Wire → Except PyErr (MultiModalFieldElem (TypedArray δ))
  | .map obj =>
    match obj.lookup "data", obj.lookup "field", obj.lookup "modality", obj.lookup "key" with
    | some data, some field, some (.str modality), some (.str key) => do
      let data ← decodeData auxBuffers data
      let field ← decodeMmField field
      .ok ⟨modality, key, data, field⟩
    | _, _, _, _ => .error (.keyError "")
  | _ => .error (.typeError "")

/-- `_decode_mm_item`. -/
def decodeMmItem : Wire → Except PyErr (MultiModalKwargsItem (TypedArray δ))
  | .array obj => do
    let elems ← obj.mapM (decodeMmFieldElem auxBuffers)
    fromElems elems
  | _ => .error (.typeError "")

/-- The entry of a modality in `_decode_mm_items`. -/
def decodeModality :
    String × Wire → Except PyErr (String × List (MultiModalKwargsItem (TypedArray δ)))
  | (modality, .array itemlist) => do
    let items ← itemlist.mapM (decodeMmItem auxBuffers)
    .ok (modality, items)
  | _ => .error (.typeError "")

/-- `_decode_mm_items`; a dictionary has each key once. -/
def decodeMmItems : Wire → Except PyErr (MultiModalKwargsItems (TypedArray δ))
  | .map obj => do
    let entries ← obj.mapM (decodeModality auxBuffers)
    if h : (entries.map (·.1)).Nodup then .ok ⟨entries, h⟩ else .error (.valueError "")
  | _ => .error (.typeError "")

mutual

/-- What `dec_hook` makes of native values, for each type. -/
def decodeAs : Ty → Wire → Except PyErr (Value δ ν)
  | .tensor, .array obj => do
    let t ← decodeTensor auxBuffers obj
    .ok (.tensor t)
  | .ndarray, .array obj => do
    let a ← decodeNdarray auxBuffers obj
    .ok (.ndarray a)
  | .mmItem, obj => do
    let item ← decodeMmItem auxBuffers obj
    .ok (.mmItem item)
  | .mmItems, obj => do
    let items ← decodeMmItems auxBuffers obj
    .ok (.mmItems items)
  | .struct tys, .array obj => do
    let fields ← decodeFields tys obj
    .ok (.struct fields)
  | _, _ => .error (.typeError "")

/-- The fields of a struct, in order. -/
def decodeFields : List Ty → List Wire → Except PyErr (List (Value δ ν))
  | [], [] => .ok []
  | ty :: tys, w :: ws => do
    let v ← decodeAs ty w
    let vs ← decodeFields tys ws
    .ok (v :: vs)
  | _, _ => .error (.valueError "")

end

end

/-- `MsgpackDecoder.decode`, for a decoder of the given type. -/
def decode (msgspec : Msgspec) (ty : Ty) (bufs : List Bytes) : Except PyErr (Value δ ν) := do
  let main ← getItem bufs 0
  match msgspec.unpack main with
  | none => .error (.valueError "")
  | some w => decodeAs bufs ty w

end LoptVllm.Serial
