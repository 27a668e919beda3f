import LoptVllm.Serial.Msgpack

/-!
# A message is read back as it was written
-/

namespace LoptVllm.Serial

open List Nat DType

open Multimodal

/-! ### Encoders that share a list of buffers -/

section

variable {α β γ : Type}

/-- The buffers of a message have the arrays put aside so far at their indices; the first buffer is
that of the message itself. -/
def Holds (aux bufs : List Bytes) : Prop := ∀ i b, 1 ≤ i → aux[i]? = some b → bufs[i]? = some b

theorem Holds.left {aux more bufs : List Bytes} (h : Holds (aux ++ more) bufs) : Holds aux bufs :=
  fun i b hi hb => h i b hi (by
    rw [getElem?_append_left (List.getElem?_eq_some_iff.1 hb).1]
    exact hb)

/-- `run` writes the value `a`, and adds arrays to the list; `read` gets it back. -/
def Sends (run : List Bytes → Except PyErr (β × List Bytes))
    (read : List Bytes → β → Except PyErr α) (a : α) : Prop :=
  ∀ aux, aux ≠ [] → ∃ w more, run aux = .ok (w, aux ++ more) ∧
    ∀ bufs, Holds (aux ++ more) bufs → read bufs w = .ok a

variable {run : List Bytes → Except PyErr (β × List Bytes)}
  {read : List Bytes → β → Except PyErr α} {a : α}

theorem sends_pure {w : β} (h : ∀ bufs, read bufs w = .ok a) :
    Sends (fun aux => .ok (w, aux)) read a :=
  fun aux _ => ⟨w, [], by rw [append_nil], fun bufs _ => h bufs⟩

/-- An encoder that wraps what another one writes. -/
theorem Sends.map {δ : Type} {run' : List Bytes → Except PyErr (γ × List Bytes)}
    {read' : List Bytes → γ → Except PyErr δ} {b : δ} (h : Sends run read a) (g : β → γ)
    (hrun : ∀ aux, run' aux = run aux >>= fun w => .ok (g w.1, w.2))
    (hread : ∀ bufs w, read bufs w = .ok a → read' bufs (g w) = .ok b) : Sends run' read' b := by
  intro aux haux
  obtain ⟨w, more, hw, hreads⟩ := h aux haux
  refine ⟨g w, more, ?_, fun bufs hbufs => hread bufs w (hreads bufs hbufs)⟩
  rw [hrun]
  exact bind_ok.2 ⟨_, hw, rfl⟩

/-- One object and then others: the second encoder goes on with the list of the first. -/
theorem Sends.cons {α' : Type} {runs : List Bytes → Except PyErr (List β × List Bytes)}
    {reads : List Bytes → List β → Except PyErr (List α')}
    {reads' : List Bytes → List β → Except PyErr (List α)} {l : List α'} {l' : List α}
    (h : Sends run read a) (hs : Sends runs reads l)
    (hread : ∀ bufs w ws, read bufs w = .ok a → reads bufs ws = .ok l →
      reads' bufs (w :: ws) = .ok l') :
    Sends (fun aux => run aux >>= fun w => runs w.2 >>= fun ws => .ok (w.1 :: ws.1, ws.2))
      reads' l' := by
  intro aux haux
  obtain ⟨w, more, hrun, hw⟩ := h aux haux
  obtain ⟨ws, more', hruns, hws⟩ := hs (aux ++ more) (append_ne_nil_of_left_ne_nil haux more)
  rw [append_assoc] at hruns
  refine ⟨w :: ws, more ++ more', bind_ok.2 ⟨_, hrun, bind_ok.2 ⟨_, hruns, rfl⟩⟩, ?_⟩
  intro bufs hbufs
  rw [← append_assoc] at hbufs
  exact hread bufs w ws (hw bufs hbufs.left) (hws bufs hbufs)

/-- The objects of a list, one after the other. -/
theorem Sends.list {f : List Bytes → γ → Except PyErr (β × List Bytes)}
    {read : List Bytes → β → Except PyErr γ} {l : List γ}
    (h : ∀ x ∈ l, Sends (fun aux => f aux x) read x) :
    Sends (fun aux => encodeList f aux l) (fun bufs ws => ws.mapM (read bufs)) l := by
  induction l with
  | nil => exact sends_pure fun bufs => rfl
  | cons x l ih =>
    refine (h x (.head _)).cons (ih fun y hy => h y (.tail _ hy)) ?_
    intro bufs w ws hw hws
    rw [mapM_cons]
    exact bind_ok.2 ⟨x, hw, bind_ok.2 ⟨l, hws, rfl⟩⟩

end

variable {δ ν : Type} [DType δ] [DType ν] (sizeThreshold : ℤ)

/-! ### Arrays -/

theorem decodeShape_map (shape : List ℕ) :
    decodeShape (shape.map fun n : ℕ => Wire.int (n : ℤ)) = .ok shape := by
  induction shape with
  | nil => rfl
  | cons n shape ih => exact bind_ok.2 ⟨shape, ih, rfl⟩

theorem ofBuffer_data (t : TypedArray δ) : ofBuffer t.dtype t.shape t.data = .ok t :=
  dif_pos t.nbytes_eq

variable {bufs : List Bytes}

theorem getItem_natCast {i : ℕ} {b : Bytes} (h : bufs[i]? = some b) : getItem bufs i = .ok b := by
  unfold getItem
  rw [if_pos (Int.natCast_nonneg i), Int.toNat_natCast, h]
  exact if_pos (by omega)

/-- The bytes of an array travel inline or in a buffer of their own. -/
theorem sends_bytes (p : Prop) [Decidable p] (data : Bytes) :
    Sends (fun aux => .ok (if p then (.ext customTypeRawView data, aux) else stash aux data))
      bufferOf data := by
  by_cases hp : p
  · simp only [if_pos hp]
    exact sends_pure fun bufs => rfl
  · simp only [if_neg hp]
    intro aux haux
    refine ⟨.int aux.length, [data], rfl, fun bufs hbufs => ?_⟩
    have hbuf : bufs[aux.length]? = some data := hbufs aux.length data (length_pos_iff.2 haux) (by
        rw [getElem?_append_right (le_refl _), Nat.sub_self]
        rfl)
    exact getItem_natCast hbuf

theorem decodeNdarray_of_buffer {a : TypedArray ν} {w : Wire} (h : bufferOf bufs w = .ok a.data) :
    decodeNdarray bufs [.str (str a.dtype), encodeShape a.shape, w] = .ok a := by
  refine bind_ok.2 ⟨_, h, bind_ok.2 ⟨_, decodeShape_map a.shape, ?_⟩⟩
  rw [ofStr_str]
  exact ofBuffer_data a

theorem zero_mem_shape {t : TypedArray δ} (h : t.data.length = 0) : 0 ∈ t.shape := by
  have hprod : t.shape.prod = 0 := (Nat.mul_eq_zero.1 (t.nbytes_eq.symm.trans h)).resolve_right
      (ne_of_gt (itemsize_pos t.dtype))
  obtain ⟨n, hn, rfl⟩ := List.prod_eq_zero_iff_exists_zero_nat.1 hprod
  exact hn

theorem decodeTensor_of_buffer {t : TypedArray δ} {w : Wire} (h : bufferOf bufs w = .ok t.data) :
    decodeTensor bufs [.str (str t.dtype), encodeShape t.shape, w] = .ok t := by
  refine bind_ok.2 ⟨_, h, bind_ok.2 ⟨_, decodeShape_map t.shape, ?_⟩⟩
  rw [ofStr_str]
  by_cases hzero : t.data.length = 0
  · simp only [if_pos hzero, dif_pos (zero_mem_shape hzero)]
    exact congrArg Except.ok (TypedArray.ext rfl rfl (length_eq_zero_iff.1 hzero).symm)
  · simp only [if_neg hzero]
    exact ofBuffer_data t

theorem sends_ndarray (a : TypedArray ν) :
    Sends (fun aux => .ok (encodeNdarray sizeThreshold aux a))
      (fun bufs => decodeAs (δ := δ) bufs .ndarray) (.ndarray a) :=
  (sends_bytes (a.shape = [] ∨ (a.nbytes : ℤ) < sizeThreshold) a.data).map
    (fun data => .array [.str (str a.dtype), encodeShape a.shape, data]) (fun _ => rfl)
    fun _ _ h => bind_ok.2 ⟨a, decodeNdarray_of_buffer h, rfl⟩

theorem sends_tensor {α : Type} {read : List Bytes → Wire → Except PyErr α} {x : α}
    (t : TypedArray δ) (hread : ∀ bufs s obj, decodeTensor bufs (.str s :: obj) = .ok t →
      read bufs (.array (.str s :: obj)) = .ok x) :
    Sends (fun aux => .ok (encodeTensor sizeThreshold aux t)) read x :=
  (sends_bytes ((t.nbytes : ℤ) < sizeThreshold) t.data).map
    (fun data => .array [.str (str t.dtype), encodeShape t.shape, data]) (fun _ => rfl)
    fun bufs _ h => hread bufs _ _ (decodeTensor_of_buffer h)

/-! ### Nested tensors -/

mutual

/-- No `None` in the data, which `encodeNestedTensors` cannot write. -/
def NoneFree {τ : Type} : NestedTensors τ → Prop
  | .none => False
  | .number _ => True
  | .tensor _ => True
  | .list l => NoneFreeList l

/-- `NoneFree` for each entry of a list. -/
def NoneFreeList {τ : Type} : List (NestedTensors τ) → Prop
  | [] => True
  | nt :: l => NoneFree nt ∧ NoneFreeList l

end

/-- A list of nested tensors does not start with a string. -/
theorem decodeNestedTensors_array {bufs : List Bytes} {ws : List Wire}
    {l : List (NestedTensors (TypedArray δ))} (h : decodeNestedList bufs ws = .ok l) :
    decodeNestedTensors bufs (.array ws) = .ok (.list l) := by
  cases ws with
  | nil => exact bind_ok.2 ⟨l, h, rfl⟩
  | cons w ws =>
    cases w with
    | str s =>
      obtain ⟨nt, hnt, -⟩ := bind_ok.1 h
      cases hnt
    | nil | bool | int | float | ext | array | map => exact bind_ok.2 ⟨l, h, rfl⟩

mutual

theorem sends_nestedTensors : ∀ (nt : NestedTensors (TypedArray δ)), NoneFree nt →
    Sends (fun aux => encodeNestedTensors sizeThreshold aux nt) decodeNestedTensors nt
  | .none, h => absurd h id
  | .number (.bool _), _ | .number (.int _), _ | .number (.float _), _ => sends_pure fun _ => rfl
  | .tensor t, _ => sends_tensor sizeThreshold t fun _ _ _ h => bind_ok.2 ⟨t, h, rfl⟩
  | .list l, h => (sends_nestedList l h).map .array (fun _ => rfl)
      fun _ _ hl => decodeNestedTensors_array hl

theorem sends_nestedList : ∀ (l : List (NestedTensors (TypedArray δ))), NoneFreeList l →
    Sends (fun aux => encodeNestedList sizeThreshold aux l) decodeNestedList l
  | [], _ => sends_pure fun _ => rfl
  | nt :: l, h => (sends_nestedTensors nt h.1).cons (sends_nestedList l h.2)
      fun _ _ _ hw hws => bind_ok.2 ⟨nt, hw, bind_ok.2 ⟨l, hws, rfl⟩⟩

end

/-! ### Fields -/

theorem decodeIndex_encodeIndex (v : Option ℤ) : decodeIndex (encodeIndex v) = .ok v := by
  cases v <;> rfl

/-- A sequence of slices does not start with an index or `None`. -/
theorem decodeNestedSlices_array {ws : List Wire} {l : List Slices}
    (h : decodeSlicesList ws = .ok l) : decodeNestedSlices (.array ws) = .ok (.seq l) := by
  cases ws with
  | nil =>
    cases h
    rfl
  | cons w ws =>
    cases w with
    | array obj => exact bind_ok.2 ⟨l, h, rfl⟩
    | nil | bool | int | float | ext | str | map =>
      obtain ⟨s, hs, -⟩ := bind_ok.1 h
      cases hs

mutual

theorem decodeNestedSlices_encodeSlices : ∀ s : Slices, decodeNestedSlices (encodeSlices s) = .ok s
  | .slice ⟨start, stop, step⟩ => by
    have hmake : makeSlice [encodeIndex start, encodeIndex stop, encodeIndex step] =
        .ok ⟨start, stop, step⟩ :=
      bind_ok.2 ⟨_, decodeIndex_encodeIndex start, bind_ok.2 ⟨_, decodeIndex_encodeIndex stop,
        bind_ok.2 ⟨_, decodeIndex_encodeIndex step, rfl⟩⟩⟩
    have hindex : (encodeIndex start).isArray = false := by cases start <;> rfl
    unfold encodeSlices decodeNestedSlices
    rw [hindex]
    exact bind_ok.2 ⟨_, hmake, rfl⟩
  | .seq l => decodeNestedSlices_array (decodeSlicesList_encodeSlicesList l)

theorem decodeSlicesList_encodeSlicesList : ∀ l : List Slices,
    decodeSlicesList (encodeSlicesList l) = .ok l
  | [] => rfl
  | s :: l => bind_ok.2 ⟨s, decodeNestedSlices_encodeSlices s,
      bind_ok.2 ⟨l, decodeSlicesList_encodeSlicesList l, rfl⟩⟩

end

theorem decodeMmField_encodeMmField (field : MultiModalField) :
    decodeMmField (encodeMmField field) = .ok field := by
  cases field with
  | batched keepOnCpu => rfl
  | flat keepOnCpu slices dim =>
    exact bind_ok.2 ⟨slices, decodeNestedSlices_encodeSlices slices, rfl⟩
  | shared keepOnCpu batchSize => rfl

/-! ### Multi-modal items -/

variable {τ : Type}

/-- Data that can be sent: `None`, or nested tensors without `None`. -/
def Sendable : NestedTensors τ → Prop
  | .none => True
  | nt => NoneFree nt

/-- All data of an item can be sent. -/
def SendableItem (item : MultiModalKwargsItem τ) : Prop :=
  ∀ elem ∈ item.elems, Sendable elem.data

/-- All data of all items can be sent. -/
def SendableItems (items : MultiModalKwargsItems τ) : Prop :=
  ∀ entry ∈ items.byModality, ∀ item ∈ entry.2, SendableItem item

variable {nt : NestedTensors (TypedArray δ)}

theorem decodeData_of_nestedTensors {bufs : List Bytes} {w : Wire}
    (h : decodeNestedTensors bufs w = .ok nt) :
    decodeData bufs w = .ok nt := by
  cases w with
  | nil => cases h
  | bool | int | float | str | ext | array | map => exact h

theorem sends_data (h : Sendable nt) :
    Sends (fun aux => encodeData sizeThreshold aux nt) decodeData nt := by
  have hsend : ∀ nt : NestedTensors (TypedArray δ), NoneFree nt →
      Sends (fun aux => encodeNestedTensors sizeThreshold aux nt) decodeData nt := by
    intro nt hnt aux haux
    obtain ⟨w, more, hrun, hw⟩ := sends_nestedTensors sizeThreshold nt hnt aux haux
    exact ⟨w, more, hrun, fun bufs hbufs => decodeData_of_nestedTensors (hw bufs hbufs)⟩
  cases nt with
  | none => exact sends_pure fun bufs => rfl
  | number n => exact hsend _ h
  | tensor t => exact hsend _ h
  | list l => exact hsend _ h

theorem sends_mmFieldElem {elem : MultiModalFieldElem (TypedArray δ)} (h : Sendable elem.data) :
    Sends (fun aux => encodeMmFieldElem sizeThreshold aux elem) decodeMmFieldElem elem :=
  (sends_data sizeThreshold h).map (fun data => .map [("modality", .str elem.modality),
      ("key", .str elem.key), ("data", data), ("field", encodeMmField elem.field)]) (fun _ => rfl)
    fun _ _ hdata => bind_ok.2 ⟨elem.data, hdata,
      bind_ok.2 ⟨elem.field, decodeMmField_encodeMmField elem.field, rfl⟩⟩

theorem sends_mmItem {item : MultiModalKwargsItem (TypedArray δ)} (h : SendableItem item) :
    Sends (fun aux => encodeMmItem sizeThreshold aux item) decodeMmItem item :=
  (Sends.list fun elem helem => sends_mmFieldElem sizeThreshold (h elem helem)).map .array
    (fun _ => rfl) fun _ _ hws => bind_ok.2 ⟨item.elems, hws, fromElems_elems item⟩

theorem sends_modality {entry : String × List (MultiModalKwargsItem (TypedArray δ))}
    (h : ∀ item ∈ entry.2, SendableItem item) :
    Sends (fun aux => encodeModality sizeThreshold aux entry) decodeModality entry :=
  (Sends.list fun item hitem => sends_mmItem sizeThreshold (h item hitem)).map
    (fun ws => (entry.1, .array ws)) (fun _ => rfl) fun _ _ hws => bind_ok.2 ⟨entry.2, hws, rfl⟩

theorem sends_mmItems {items : MultiModalKwargsItems (TypedArray δ)} (h : SendableItems items) :
    Sends (fun aux => encodeMmItems sizeThreshold aux items) decodeMmItems items :=
  (Sends.list fun entry hentry => sends_modality sizeThreshold (h entry hentry)).map .map
    (fun _ => rfl) fun _ _ hws => bind_ok.2 ⟨items.byModality, hws, dif_pos items.modalities_nodup⟩

/-! ### Messages -/

mutual

/-- All data of the items in an object can be sent. -/
def SendableValue : Value δ ν → Prop
  | .tensor _ => True
  | .ndarray _ => True
  | .mmItem item => SendableItem item
  | .mmItems items => SendableItems items
  | .struct fields => SendableValues fields

/-- `SendableValue` for each field of a struct. -/
def SendableValues : List (Value δ ν) → Prop
  | [] => True
  | v :: vs => SendableValue v ∧ SendableValues vs

end

mutual

theorem sends_value : ∀ v : Value δ ν, SendableValue v →
    Sends (fun aux => encodeValue sizeThreshold aux v) (fun bufs => decodeAs bufs v.ty) v
  | .tensor t, _ => sends_tensor sizeThreshold t fun _ _ _ h => bind_ok.2 ⟨t, h, rfl⟩
  | .ndarray a, _ => sends_ndarray sizeThreshold a
  | .mmItem item, h => by
    intro aux haux
    obtain ⟨w, more, hrun, hw⟩ := sends_mmItem sizeThreshold h aux haux
    exact ⟨w, more, hrun, fun bufs hbufs => bind_ok.2 ⟨item, hw bufs hbufs, rfl⟩⟩
  | .mmItems items, h => by
    intro aux haux
    obtain ⟨w, more, hrun, hw⟩ := sends_mmItems sizeThreshold h aux haux
    exact ⟨w, more, hrun, fun bufs hbufs => bind_ok.2 ⟨items, hw bufs hbufs, rfl⟩⟩
  | .struct fields, h => (sends_values fields h).map .array (fun _ => rfl) fun _ _ hws =>
      bind_ok.2 ⟨fields, hws, rfl⟩

theorem sends_values : ∀ vs : List (Value δ ν), SendableValues vs →
    Sends (fun aux => encodeValues sizeThreshold aux vs)
      (fun bufs => decodeFields bufs (Value.tys vs)) vs
  | [], _ => sends_pure fun _ => rfl
  | v :: vs, h => (sends_value v h.1).cons (sends_values vs h.2)
      fun _ _ _ hw hws => bind_ok.2 ⟨v, hw, bind_ok.2 ⟨vs, hws, rfl⟩⟩

end

/-- An object is decoded as it was encoded, whichever of its arrays travel in buffers of their own,
if `msgspec` reads the native values back that it packed. -/
theorem decode_encode (msgspec : Msgspec) {obj : Value δ ν} (h : SendableValue obj)
    (hmsgspec : ∀ w aux, encodeValue sizeThreshold [[]] obj = .ok (w, aux) →
      msgspec.unpack (msgspec.pack w) = some w) :
    ∃ bufs, encode sizeThreshold msgspec obj = .ok bufs ∧ decode msgspec obj.ty bufs = .ok obj := by
  obtain ⟨w, more, hrun, hw⟩ := sends_value sizeThreshold obj h [[]] (cons_ne_nil _ _)
  refine ⟨msgspec.pack w :: more, bind_ok.2 ⟨_, hrun, rfl⟩, ?_⟩
  have hholds : Holds ([[]] ++ more) (msgspec.pack w :: more) := by
    intro i b hi hb
    obtain ⟨j, rfl⟩ := Nat.exists_eq_add_of_le' hi
    exact hb
  refine bind_ok.2 ⟨msgspec.pack w, ?_, ?_⟩
  · exact getItem_natCast rfl
  · rw [hmsgspec w _ hrun]
    exact hw _ hholds

/-! ### Examples -/

/-- Some element types of `torch`. -/
inductive TorchDType
  | uint8
  | int64
  | float32
  deriving DecidableEq

/-- Some element types of `numpy`. -/
inductive NumpyDType
  | u1
  | i8
  | f4
  deriving DecidableEq

instance : DType TorchDType where
  str
    | .uint8 => "uint8"
    | .int64 => "int64"
    | .float32 => "float32"
  ofStr s := if s = "uint8" then some .uint8
    else if s = "int64" then some .int64
    else if s = "float32" then some .float32
    else none
  itemsize
    | .uint8 => 1
    | .int64 => 8
    | .float32 => 4
  ofStr_str d := by cases d <;> rfl
  itemsize_pos d := by cases d <;> decide

instance : DType NumpyDType where
  str
    | .u1 => "|u1"
    | .i8 => "<i8"
    | .f4 => "<f4"
  ofStr s := if s = "|u1" then some .u1
    else if s = "<i8" then some .i8
    else if s = "<f4" then some .f4
    else none
  itemsize
    | .u1 => 1
    | .i8 => 8
    | .f4 => 4
  ofStr_str d := by cases d <;> rfl
  itemsize_pos d := by cases d <;> decide

/-- An item with one element, of which the data is given. -/
def itemOf (data : NestedTensors (TypedArray TorchDType)) :
    MultiModalKwargsItem (TypedArray TorchDType) where
  elems := [⟨"image", "grid", data, .batched true⟩]
  modality := "image"
  keys_nodup := List.nodup_singleton _
  elems_ne_nil := List.cons_ne_nil _ _
  modality_eq elem helem := by
    rw [List.mem_singleton.1 helem]

/-- A struct of an item with a tensor and a number, and of an array. -/
def twoArrays : Value TorchDType NumpyDType :=
  .struct [.mmItem (itemOf (.list [.tensor ⟨.uint8, [2], [7, 8], rfl⟩, .number (.int 5)])),
    .ndarray ⟨.u1, [1], [9], rfl⟩]

/-- The native values of `twoArrays` where arrays of two bytes travel in buffers of their own. -/
def twoArraysWire : Wire := .array [
    .array [.map [("modality", .str "image"), ("key", .str "grid"),
      ("data", .array [.array [.str "uint8", .array [.int 2], .int 1], .int 5]),
      ("field", .array [.str "batched", .map [("keep_on_cpu", .bool true)]])]],
    .array [.str "|u1", .array [.int 1], .ext 3 [9]]]

/-- The bytes of `twoArraysWire`. -/
def twoArraysBytes : Bytes := [0x92, 0x91, 0x84,
    0xa8, 0x6d, 0x6f, 0x64, 0x61, 0x6c, 0x69, 0x74, 0x79, 0xa5, 0x69, 0x6d, 0x61, 0x67, 0x65,
    0xa3, 0x6b, 0x65, 0x79, 0xa4, 0x67, 0x72, 0x69, 0x64,
    0xa4, 0x64, 0x61, 0x74, 0x61, 0x92, 0x93, 0xa5, 0x75, 0x69, 0x6e, 0x74, 0x38, 0x91, 0x02, 0x01,
    0x05,
    0xa5, 0x66, 0x69, 0x65, 0x6c, 0x64, 0x92, 0xa7, 0x62, 0x61, 0x74, 0x63, 0x68, 0x65, 0x64,
    0x81, 0xab, 0x6b, 0x65, 0x65, 0x70, 0x5f, 0x6f, 0x6e, 0x5f, 0x63, 0x70, 0x75, 0xc3,
    0x93, 0xa3, 0x7c, 0x75, 0x31, 0x91, 0x01, 0xd4, 0x03, 0x09]

/-- `msgspec` on the message `twoArrays`. -/
def twoArraysMsgspec : Msgspec where
  pack _ := twoArraysBytes
  unpack bytes := if bytes = twoArraysBytes then some twoArraysWire else none

theorem decode_encode_twoArrays : ∃ bufs, encode 2 twoArraysMsgspec twoArrays = .ok bufs ∧
      decode twoArraysMsgspec twoArrays.ty bufs = .ok twoArrays := by
  have hsend : SendableValue twoArrays := by
    refine ⟨fun elem helem => ?_, trivial, trivial⟩
    rw [mem_singleton.1 helem]
    exact ⟨trivial, trivial, trivial⟩
  refine decode_encode 2 twoArraysMsgspec hsend fun w aux h => ?_
  have hwire : encodeValue 2 [[]] twoArrays = .ok (twoArraysWire, [[], [7, 8]]) := rfl
  rw [← (Prod.mk.inj (Except.ok.inj (hwire.symm.trans h))).1]
  show (if twoArraysBytes = twoArraysBytes then some twoArraysWire else none) = some twoArraysWire
  rw [if_pos rfl]

/-- An item whose data is the list `[None]`. -/
def nestedNone : Value TorchDType NumpyDType := .mmItem (itemOf (.list [.none]))

/-- A list with `None` in it is not sent, whatever `msgspec` does. -/
theorem encode_nestedNone : ¬ ∃ (msgspec : Msgspec) (bufs : List Bytes),
    encode 256 msgspec nestedNone = .ok bufs ∧
      decode msgspec nestedNone.ty bufs = .ok nestedNone := by
  rintro ⟨msgspec, bufs, hencode, -⟩
  cases hencode

end LoptVllm.Serial
