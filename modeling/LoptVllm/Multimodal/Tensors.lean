import LoptVllm.Lib.NestedArrays
import LoptVllm.Multimodal.Inputs

/-!
# Tensors

What the multi-modal fields do with tensors: iterating, indexing with slices, stacking and
concatenating into a tensor of the first one's element type.
-/

namespace LoptVllm.Multimodal

open Lib Lib.NestedArray List

/-! ### Slices -/

/-- A bound of a slice; a negative one counts from the end. -/
def bound (v : Option ℤ) (default lower upper n : ℤ) : ℤ := match v with
  | none => default
  | some v => if v < 0 then max (v + n) lower else min v upper

/-- The positions of a slice of a sequence of length `n`, in order. -/
def PySlice.positions (s : PySlice) (n : ℕ) : List ℕ :=
  let step := s.step.getD 1
  if 0 < step then
    let start := bound s.start 0 0 n n
    let stop := bound s.stop n 0 n n
    (range n).filter fun j => start ≤ j ∧ j < stop ∧ (j - start) % step = 0
  else
    let start := bound s.start (n - 1) (-1) (n - 1) n
    let stop := bound s.stop (-1) (-1) (n - 1) n
    (range n).reverse.filter fun j => j ≤ start ∧ stop < j ∧ (start - j) % (-step) = 0

theorem PySlice.lt_of_mem_positions {s : PySlice} {n j : ℕ} (h : j ∈ s.positions n) : j < n := by
  unfold PySlice.positions at h
  by_cases hstep : 0 < s.step.getD 1
  · simp only [if_pos hstep] at h
    exact mem_range.1 (mem_filter.1 h).1
  · simp only [if_neg hstep] at h
    exact mem_range.1 (mem_reverse.1 (mem_filter.1 h).1)

/-! ### Tensors -/

/-- The element types of `torch`: whether tensors of the given types can be written into one of
another type, and what becomes of an entry. -/
structure Torch (δ α : Type) where
  canCast : List δ → δ → Bool
  convert : δ → δ → α → α
  canCast_self {ds : List δ} {d : δ} : (∀ d' ∈ ds, d' = d) → canCast ds d = true
  convert_self (d : δ) (a : α) : convert d d a = a

/-- A tensor: its element type, its shape and its entries. -/
structure Tensor (δ α : Type) where
  dtype : δ
  shape : List ℕ
  entries : NestedArray α
  hasShape : HasShape shape entries

namespace Tensor

variable {δ α : Type}

/-- The tensors along the first axis. -/
def unbind : Tensor δ α → Except PyErr (List (Tensor δ α))
  | ⟨_, [], _, _⟩ => .error (.typeError "iteration over a 0-d tensor")
  | ⟨dtype, _ :: shape, entries, h⟩ =>
    .ok (entries.children.attach.map fun x => ⟨dtype, shape, x.1, h.of_mem_children x.2⟩)

/-- The positions of slices along the axes of a tensor; a step has to be positive. -/
def slicePositions : List PySlice → (shape : List ℕ) →
    Except PyErr {ps : List (List ℕ) // InBounds ps shape}
  | [], _ => .ok ⟨[], trivial⟩
  | _ :: _, [] => .error (.indexError "too many indices for tensor")
  | s :: ss, n :: shape =>
    if s.step.getD 1 ≤ 0 then .error (.valueError "step must be greater than zero")
    else do
      let ps ← slicePositions ss shape
      .ok ⟨s.positions n :: ps.1, fun _ => PySlice.lt_of_mem_positions, ps.2⟩

/-- `t[s₀, …, sₖ]`. -/
def index (t : Tensor δ α) (ss : List PySlice) : Except PyErr (Tensor δ α) := do
  let ps ← slicePositions ss t.shape
  .ok ⟨t.dtype, indexShape ps.1 t.shape, t.entries.index ps.1, t.hasShape.index ps.2⟩

/-- `t.unsqueeze(0)`. -/
def unsqueeze (t : Tensor δ α) : Tensor δ α :=
  ⟨t.dtype, 1 :: t.shape, node [t.entries], [t.entries], rfl, rfl, fun _ hx =>
    (List.mem_singleton.1 hx).symm ▸ t.hasShape⟩

variable (torch : Torch δ α)

/-- The entries as they are written into a tensor of another element type. -/
def into (d : δ) (t : Tensor δ α) : NestedArray α := t.entries.map (torch.convert t.dtype d)

theorem hasShape_into (d : δ) (t : Tensor δ α) : HasShape t.shape (t.into torch d) :=
  t.hasShape.map _

@[simp] theorem into_self (t : Tensor δ α) : t.into torch t.dtype = t.entries :=
  map_id t.hasShape (torch.convert_self t.dtype)

/-- `torch.stack(batch, out=out)`, where `out` has the element type of the first tensor. -/
def stack (t : Tensor δ α) (ts : List (Tensor δ α)) (h : ∀ u ∈ ts, u.shape = t.shape) :
    Except PyErr (Tensor δ α) :=
  if torch.canCast ((t :: ts).map (·.dtype)) t.dtype then
    .ok ⟨t.dtype, (t :: ts).length :: t.shape, node ((t :: ts).map (into torch t.dtype)), _, rfl,
      List.length_map _, fun x hx => by
        obtain ⟨u, hu, rfl⟩ := List.mem_map.1 hx
        have hshape : u.shape = t.shape := (List.mem_cons.1 hu).elim (fun heq => heq ▸ rfl) (h u)
        exact hshape ▸ hasShape_into torch t.dtype u⟩
  else .error (.runtimeError "")

/-- `tensor.shape[dim]`. -/
def size (d : ℕ) (t : Tensor δ α) : ℕ := t.shape[d]?.getD 0

/-- `_shape_before_after` gives the same for two tensors. -/
def SameOutside (d : ℕ) (t u : Tensor δ α) : Prop :=
  u.shape.take d = t.shape.take d ∧ u.shape.drop (d + 1) = t.shape.drop (d + 1)

instance (d : ℕ) (t u : Tensor δ α) : Decidable (SameOutside d t u) :=
  inferInstanceAs (Decidable (_ ∧ _))

theorem SameOutside.shape_eq {d : ℕ} {t u : Tensor δ α} (h : SameOutside d t u)
    (hd : d < u.shape.length) : u.shape = t.shape.take d ++ u.size d :: t.shape.drop (d + 1) := by
  have hsize : u.size d = u.shape[d] := by
    unfold size
    rw [getElem?_eq_getElem]
    rfl
  rw [← h.1, ← h.2, hsize, getElem_cons_drop, take_append_drop]

theorem SameOutside.hasShape_into {d : ℕ} {t u : Tensor δ α} (h : SameOutside d t u)
    (hd : d < u.shape.length) (dtype : δ) :
    HasShape (t.shape.take d ++ u.size d :: t.shape.drop (d + 1)) (u.into torch dtype) :=
  h.shape_eq hd ▸ Tensor.hasShape_into torch dtype u

/-- `torch.concat(batch, dim=dim, out=out)`, where `out` has the element type of the first tensor. -/
def concat (d : ℕ) (t : Tensor δ α) (ts : List (Tensor δ α))
    (h : ∀ u ∈ t :: ts, SameOutside d t u) (hd : ∀ u ∈ t :: ts, d < u.shape.length) :
    Except PyErr (Tensor δ α) :=
  if torch.canCast ((t :: ts).map (·.dtype)) t.dtype then
    .ok {
      dtype := t.dtype
      shape := t.shape.take d ++ ((t :: ts).map (size d)).sum :: t.shape.drop (d + 1)
      entries := concatAt d ((t :: ts).map (into torch t.dtype))
      hasShape := by
        have hlen : (t.shape.take d).length = d :=
          List.length_take_of_le (Nat.le_of_lt (hd t (.head _)))
        have hjoin := HasShape.concatAt (List.cons_ne_nil t ts)
          fun u hu => (h u hu).hasShape_into torch (hd u hu) t.dtype
        rw [hlen] at hjoin
        exact hjoin }
  else .error (.runtimeError "")

end Tensor

/-! ### Nested tensors -/

/-- What a nested array of tensors and numbers has at its ends. -/
inductive Leaf (α : Type)
  | none
  | number (n : Number)
  | entry (a : α)

variable {δ α : Type}

mutual

/-- Nested tensors as a nested array, as `tolist` makes it. -/
def NestedTensors.nested : NestedTensors (Tensor δ α) → NestedArray (Leaf α)
  | .none => leaf .none
  | .number n => leaf (.number n)
  | .tensor t => t.entries.map .entry
  | .list l => node (NestedTensors.nestedList l)

/-- `NestedTensors.nested` for each entry of a list. -/
def NestedTensors.nestedList : List (NestedTensors (Tensor δ α)) → List (NestedArray (Leaf α))
  | [] => []
  | nt :: l => nt.nested :: NestedTensors.nestedList l

end

theorem NestedTensors.nestedList_eq (l : List (NestedTensors (Tensor δ α))) :
    NestedTensors.nestedList l = l.map NestedTensors.nested := by
  induction l with
  | nil => rfl
  | cons nt l ih => rw [NestedTensors.nestedList, ih, map_cons]

end LoptVllm.Multimodal
