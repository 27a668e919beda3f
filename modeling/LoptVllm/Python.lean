import Mathlib.Data.Int.Notation
import Mathlib.Data.List.Forall2

/-!
# Python values and exceptions

The models of the Python code return `Except PyErr`. An exception is its class and its message;
the message of an exception raised outside the repository is left empty.
-/

namespace LoptVllm

open List

universe u

/-- The exceptions the modelled code can raise. -/
inductive PyErr
  | valueError (msg : String)
  | typeError (msg : String)
  | runtimeError (msg : String)
  | indexError (msg : String)
  | keyError (key : String)
  | attributeError (msg : String)
  | assertionError (msg : String)
  | notImplementedError
  | zeroDivisionError
  /-- An unchecked C++ read outside its buffer: no exception, the behaviour is undefined. -/
  | outOfBounds
  deriving DecidableEq, Repr

/-- An integer array: its shape and its entries in row-major order. -/
structure NdArray where
  shape : List ℕ
  data : List ℤ
  deriving DecidableEq, Repr

/-- `a[np.newaxis, :]`. -/
def NdArray.newaxis (a : NdArray) : NdArray := ⟨1 :: a.shape, a.data⟩

/-- A Python value; a string is the list of its characters. -/
inductive PyVal (α : Type*)
  | none
  | bool (b : Bool)
  | int (i : ℤ)
  | str (s : List α)
  | list (xs : List (PyVal α))
  | ndarray (a : NdArray)

variable {α : Type*}

/-- `isinstance(v, str)`. -/
def PyVal.isStr : PyVal α → Bool
  | .str _ => true
  | _ => false

/-- `isinstance(v, int)`, which holds of a `bool`. -/
def PyVal.isInt : PyVal α → Bool
  | .int _ => true
  | .bool _ => true
  | _ => false

/-- `isinstance(v, list)`. -/
def PyVal.isList : PyVal α → Bool
  | .list _ => true
  | _ => false

/-- `len(v)`. -/
def PyVal.len : PyVal α → Except PyErr ℕ
  | .str s => .ok s.length
  | .list xs => .ok xs.length
  | .ndarray ⟨n :: _, _⟩ => .ok n
  | _ => .error (.typeError "object has no len()")

/-- `is_list_of(xs, typ)` on a list `xs`, with the default `check="first"`. -/
def isListOf (isTyp : PyVal α → Bool) : List (PyVal α) → Bool
  | [] => true
  | x :: _ => isTyp x

/-- A list of integers. -/
def PyVal.ints (is : List ℤ) : PyVal α := .list (is.map .int)

variable {ε : Type*} {β γ : Type u}

theorem bind_ok {x : Except ε β} {f : β → Except ε γ} {r : γ} :
    (x >>= f) = .ok r ↔ ∃ a, x = .ok a ∧ f a = .ok r := by
  cases x <;> simp [bind, Except.bind]

@[simp] theorem ok_bind (a : β) (f : β → Except ε γ) : (.ok a >>= f) = f a := rfl

@[simp] theorem error_bind (e : ε) (f : β → Except ε γ) : (.error e >>= f) = .error e := rfl

/-- What follows a computation only matters at the result of the computation. -/
theorem bind_congr_ok {x : Except ε β} {f g : β → Except ε γ}
    (h : ∀ a, x = .ok a → f a = g a) : (x >>= f) = (x >>= g) := by
  cases x with
  | error e => rfl
  | ok a => exact h a rfl

/-- A loop returns if none of its rounds fails; `P` speaks of the state and of what is still to be
done. -/
theorem exists_foldlM {σ : Type u} {f : σ → α → Except ε σ} {P : σ → List α → Prop}
    (hstep : ∀ s a l, P s (a :: l) → ∃ s', f s a = .ok s' ∧ P s' l) :
    ∀ {l : List α} {s : σ}, P s l → ∃ r, l.foldlM f s = .ok r := by
  intro l
  induction l with
  | nil => exact fun _ => ⟨_, rfl⟩
  | cons a l ih =>
    intro s h
    obtain ⟨s', hs', h'⟩ := hstep s a l h
    obtain ⟨r, hr⟩ := ih h'
    exact ⟨r, bind_ok.2 ⟨s', hs', hr⟩⟩

theorem exists_bind_ok {x : Except ε β} {f : β → Except ε γ} (hx : ∃ a, x = .ok a)
    (hf : ∀ a, ∃ r, f a = .ok r) : ∃ r, (x >>= f) = .ok r := by
  obtain ⟨a, ha⟩ := hx
  obtain ⟨r, hr⟩ := hf a
  exact ⟨r, bind_ok.2 ⟨a, ha, hr⟩⟩

theorem map_eq_ok {ε : Type*} {β γ : Type*} {x : Except ε β} {f : β → γ} {r : γ} :
    x.map f = .ok r ↔ ∃ a, x = .ok a ∧ f a = r := by
  cases x <;> simp [Except.map]

/-- A computation on fixed inputs is run through what is looked at of its result. -/
theorem exists_ok_of_map {ε β γ : Type*} {x : Except ε β} {f : β → γ} {c : γ}
    (h : x.toOption.map f = some c) : ∃ b, x = .ok b ∧ f b = c := by
  cases x with
  | error e => cases h
  | ok b => exact ⟨b, rfl, Option.some.inj h⟩

/-- A comprehension returns a list exactly when each element returns its entry. -/
theorem mapM_eq_ok {ε β : Type*} {γ : Type u} {f : β → Except ε γ} {l : List β} {r : List γ} :
    l.mapM f = .ok r ↔ Forall₂ (fun a b => f a = .ok b) l r := by
  induction l generalizing r with
  | nil =>
    rw [mapM_nil, forall₂_nil_left_iff]
    exact ⟨fun h => (Except.ok.inj h).symm, fun h => h ▸ rfl⟩
  | cons a l ih =>
    rw [mapM_cons, bind_ok, forall₂_cons_left_iff]
    constructor
    · rintro ⟨b, hb, h⟩
      obtain ⟨bs, hbs, h⟩ := bind_ok.1 h
      exact ⟨b, bs, hb, ih.1 hbs, (Except.ok.inj h).symm⟩
    · rintro ⟨b, bs, hb, hbs, rfl⟩
      exact ⟨b, hb, bind_ok.2 ⟨bs, ih.2 hbs, rfl⟩⟩

theorem exists_ok_of_mapM {ε : Type*} {β γ : Type u} {f : β → Except ε γ} {l : List β} {r : List γ}
    (h : l.mapM f = .ok r) {a : β} (ha : a ∈ l) : ∃ b, f a = .ok b := by
  induction mapM_eq_ok.1 h with
  | nil => cases ha
  | cons hb _ ih =>
    rcases mem_cons.1 ha with rfl | ha
    · exact ⟨_, hb⟩
    · exact ih (mapM_eq_ok.2 ‹_›) ha

theorem mapM_map_ok {β γ δ : Type u} {f : β → Except PyErr γ} (h : δ → β) (g : δ → γ) {l : List δ}
    (hfg : ∀ a ∈ l, f (h a) = .ok (g a)) : (l.map h).mapM f = .ok (l.map g) := by
  rw [mapM_eq_ok, forall₂_map_left_iff, forall₂_map_right_iff, forall₂_same]
  exact hfg

theorem mapM_ok {f : β → Except PyErr γ} (g : β → γ) {l : List β}
    (h : ∀ a ∈ l, f a = .ok (g a)) : l.mapM f = .ok (l.map g) := by
  have := mapM_map_ok id g h
  rwa [List.map_id] at this

theorem mapM_error {β γ : Type*} {f : β → Except PyErr γ} {e : PyErr} {l : List β}
    (h : ∀ a ∈ l, (∃ c, f a = .ok c) ∨ f a = .error e) {a : β} (ha : a ∈ l)
    (hfail : f a = .error e) : l.mapM f = .error e := by
  induction l with
  | nil => cases ha
  | cons b l ih =>
    rw [mapM_cons]
    rcases h b (.head _) with ⟨c, hc⟩ | hc
    · rcases mem_cons.1 ha with rfl | ha
      · rw [hfail] at hc
        cases hc
      · rw [hc, ih (fun x hx => h x (.tail _ hx)) ha]
        rfl
    · rw [hc]
      rfl

/-- What every round of a loop preserves holds at its end. -/
theorem foldlM_induction {f : β → γ → Except ε β} {P : β → Prop} {l : List γ}
    (hstep : ∀ b, ∀ a ∈ l, ∀ b', P b → f b a = .ok b' → P b') :
    ∀ {b b' : β}, P b → l.foldlM f b = .ok b' → P b' := by
  induction l with
  | nil =>
    intro b b' hb h
    cases h
    exact hb
  | cons a l ih =>
    intro b b' hb h
    obtain ⟨b₁, h₁, h⟩ := bind_ok.1 h
    exact ih (fun b a ha => hstep b a (.tail _ ha)) (hstep b a (.head _) b₁ hb h₁) h

end LoptVllm
