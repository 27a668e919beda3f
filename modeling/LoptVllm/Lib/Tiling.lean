import Mathlib.Data.List.FinRange
import Mathlib.Order.Fin.Basic
import Mathlib.Order.Nat

/-!
# Tilings of an interval by a list of spans

A list of spans *tiles* `[a, b)` when the first span starts at `a`, every span starts where the
one before it stops, and the last one stops at `b`. Spans are non-empty, so their starts are
strictly increasing and the start of a span determines its index.
-/

namespace LoptVllm.Lib

open List

variable {τ : Type*} (lo hi : τ → ℕ)

/-- The non-empty spans of `l`, in order, cover `[a, b)` without gap or overlap. -/
def Tiles (a : ℕ) : List τ → ℕ → Prop
  | [], b => a = b
  | t :: l, b => lo t = a ∧ a < hi t ∧ Tiles (hi t) l b

instance decidableTiles (a : ℕ) (l : List τ) (b : ℕ) : Decidable (Tiles lo hi a l b) := match l with
  | [] => inferInstanceAs (Decidable (a = b))
  | t :: l =>
    have := decidableTiles (hi t) l b
    inferInstanceAs (Decidable (lo t = a ∧ a < hi t ∧ Tiles lo hi (hi t) l b))

/-- The position before the `k`-th span of a list that ends at `b`. -/
def cut (l : List τ) (k : ℕ) (b : ℕ) : ℕ := (l[k]?.map lo).getD b

variable {lo hi} {a b : ℕ} {l : List τ} {k : ℕ}

@[simp] theorem cut_of_lt (h : k < l.length) : cut lo l k b = lo l[k] := by
  simp [cut, h]

@[simp] theorem cut_of_ge (h : l.length ≤ k) : cut lo l k b = b := by
  simp [cut, h]

theorem Tiles.le (h : Tiles lo hi a l b) : a ≤ b := by
  induction l generalizing a with
  | nil => exact h.le
  | cons t l ih =>
    obtain ⟨-, hlt, hl⟩ := h
    exact hlt.le.trans (ih hl)

/-- Every position is in a span. -/
theorem Tiles.exists_mem (h : Tiles lo hi a l b) {x : ℕ} (hax : a ≤ x) (hxb : x < b) :
    ∃ t ∈ l, lo t ≤ x ∧ x < hi t := by
  induction l generalizing a with
  | nil => exact absurd (h ▸ hxb) hax.not_gt
  | cons t l ih =>
    obtain ⟨rfl, -, hl⟩ := h
    rcases lt_or_ge x (hi t) with hx | hx
    · exact ⟨t, .head _, hax, hx⟩
    · obtain ⟨s, hs, hin⟩ := ih hl hx
      exact ⟨s, mem_cons_of_mem t hs, hin⟩

theorem Tiles.append_iff {l₁ l₂ : List τ} :
    Tiles lo hi a (l₁ ++ l₂) b ↔ ∃ c, Tiles lo hi a l₁ c ∧ Tiles lo hi c l₂ b := by
  induction l₁ generalizing a with
  | nil => simp [Tiles]
  | cons t l₁ ih =>
    simp only [cons_append, Tiles, ih]
    constructor
    · rintro ⟨hs, hlt, c, h₁, h₂⟩
      exact ⟨c, ⟨hs, hlt, h₁⟩, h₂⟩
    · rintro ⟨c, ⟨hs, hlt, h₁⟩, h₂⟩
      exact ⟨hs, hlt, c, h₁, h₂⟩

theorem Tiles.append {c : ℕ} {l₁ l₂ : List τ} (h₁ : Tiles lo hi a l₁ c)
    (h₂ : Tiles lo hi c l₂ b) : Tiles lo hi a (l₁ ++ l₂) b :=
  Tiles.append_iff.2 ⟨c, h₁, h₂⟩

section

variable (h : Tiles lo hi a l b)

include h

theorem Tiles.exists_last (hab : a < b) : ∃ l₀ t, l = l₀ ++ [t] ∧ hi t = b := by
  obtain ⟨t, ht, -, hx⟩ := h.exists_mem (Nat.le_sub_one_of_lt hab) (Nat.sub_one_lt_of_lt hab)
  rcases eq_nil_or_concat l with rfl | ⟨l₀, t', rfl⟩
  · cases ht
  · rw [concat_eq_append] at h ⊢
    obtain ⟨c, -, -, -, hb⟩ := Tiles.append_iff.1 h
    exact ⟨l₀, t', rfl, hb⟩

theorem Tiles.cut_zero : cut lo l 0 b = a := by
  cases l with
  | nil => simpa [cut] using h.symm
  | cons t l => simpa [cut] using h.1

theorem Tiles.take_drop (k : ℕ) :
    Tiles lo hi a (l.take k) (cut lo l k b) ∧ Tiles lo hi (cut lo l k b) (l.drop k) b := by
  rw [← take_append_drop k l] at h
  obtain ⟨c, h₁, h₂⟩ := Tiles.append_iff.1 h
  have hc : cut lo l k b = c := by
    rw [← h₂.cut_zero]
    simp [cut]
  rw [hc]
  exact ⟨h₁, h₂⟩

theorem Tiles.take (k : ℕ) : Tiles lo hi a (l.take k) (cut lo l k b) := (h.take_drop k).1

theorem Tiles.drop (k : ℕ) : Tiles lo hi (cut lo l k b) (l.drop k) b := (h.take_drop k).2

end

/-- Before a span that exists the end of the list does not matter. -/
theorem cut_congr (h : k < l.length) (b b' : ℕ) : cut lo l k b = cut lo l k b' := by
  rw [cut_of_lt h, cut_of_lt]

section

variable (h : Tiles lo hi a l b)

include h

/-- The spans from the `y`-th up to the `x`-th tile what lies between the two cuts. -/
theorem Tiles.slice {x y : ℕ} (hyx : y ≤ x) :
    Tiles lo hi (cut lo l y b) ((l.take x).drop y) (cut lo l x b) := by
  have hc : cut lo (l.take x) y (cut lo l x b) = cut lo l y b := by
    rcases lt_or_eq_of_le hyx with hlt | rfl
    · rcases lt_or_ge y l.length with hy | hy
      · rw [cut_of_lt (by simp; omega), cut_of_lt, getElem_take]
      · rw [cut_of_ge (by simp; omega), cut_of_ge hy, cut_of_ge (by omega)]
    · rw [cut_of_ge (length_take_le _ _)]
  rw [← hc]
  exact (h.take x).drop y

theorem Tiles.lo_lt (hk : k < l.length) : lo l[k] < b := by
  have hd := h.drop k
  rw [drop_eq_getElem_cons hk, cut_of_lt] at hd
  obtain ⟨-, hlt, hd⟩ := hd
  exact hlt.trans_le hd.le

/-- The starts of a tiling are strictly increasing. -/
theorem Tiles.lo_strictMono {i j : ℕ} (hij : i < j) (hj : j < l.length) : lo l[i] < lo l[j] := by
  have hd := h.take j
  have hik : i < (l.take j).length := by simp; omega
  have := hd.lo_lt hik
  rw [cut_of_lt] at this
  simpa using this

theorem Tiles.lt_of_lo_lt {i j : ℕ} (hi : i < l.length)
    (hj : j < l.length) (hlt : lo l[i] < lo l[j]) : i < j := by
  by_contra hc
  rcases lt_or_eq_of_le (not_lt.1 hc) with hji | rfl
  · exact absurd (h.lo_strictMono hji hi) hlt.not_gt
  · exact absurd hlt (lt_irrefl _)

end

theorem tiles_map {σ : Type*} {f : σ → τ} {l : List σ} :
    Tiles lo hi a (l.map f) b ↔ Tiles (fun s => lo (f s)) (fun s => hi (f s)) a l b := by
  induction l generalizing a with
  | nil => rfl
  | cons s l ih => simp [Tiles, ih]

/-- The spans between the values of an increasing sequence. -/
theorem tiles_finRange {n : ℕ} {q : Fin (n + 1) → ℕ} (h : StrictMono q) :
    Tiles (fun r : Fin n => q r.castSucc) (fun r => q r.succ) (q 0) (List.finRange n)
      (q (Fin.last n)) := by
  induction n with
  | zero => rfl
  | succ n ih =>
    rw [finRange_succ]
    refine ⟨rfl, h (Fin.succ_pos 0), tiles_map.2 ?_⟩
    exact ih fun i j hij => h (Fin.succ_lt_succ_iff.2 hij)

theorem Tiles.map_shift {c : ℕ} {f : τ → τ} (hlo : ∀ t, lo (f t) = lo t + c)
    (hhi : ∀ t, hi (f t) = hi t + c) (h : Tiles lo hi a l b) :
    Tiles lo hi (a + c) (l.map f) (b + c) := by
  induction l generalizing a with
  | nil => exact congrArg (· + c) h
  | cons t l ih =>
    obtain ⟨hs, hlt, hl⟩ := h
    refine ⟨by rw [hlo, hs], by rw [hhi]; omega, ?_⟩
    rw [hhi]
    exact ih hl

end LoptVllm.Lib
