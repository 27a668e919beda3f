import Mathlib.Data.List.Find
import Mathlib.Tactic.Common

/-!
# Occurrences of words in a text

A text is a list, and so is a word. A word is completed at the end of an occurrence. Of several
words, one may ask for the one that is completed first, or for the first of the list that is
completed at all: these are the same if no word of the list is completed before it.
-/

namespace LoptVllm

open List Option

variable {α : Type*}

/-- The word `p` stands in `t` at the position `i`. -/
def OccursAt (p t : List α) (i : ℕ) : Prop := p <+: t.drop i

/-- The word `p` is completed in `t` at the position `e`, which comes after `o`. -/
def CompletesAt (p t : List α) (o e : ℕ) : Prop :=
  o < e ∧ p.length ≤ e ∧ OccursAt p t (e - p.length)

theorem findSome?_congr {β : Type*} {l : List α} {f g : α → Option β}
    (h : ∀ a ∈ l, f a = g a) : l.findSome? f = l.findSome? g := by
  induction l with
  | nil => rfl
  | cons a l ih =>
    rw [findSome?_cons, findSome?_cons, h a mem_cons_self,
      ih fun b hb => h b (.tail _ hb)]

/-- Two searches that succeed on the same elements have the same result, if they agree where the
first element is found. -/
theorem findSome?_eq_iff {β : Type*} {ws : List α} {f g : α → Option β}
    (h : ∀ w ∈ ws, f w = none ↔ g w = none) : ws.findSome? f = ws.findSome? g ↔
      ∀ l w r, ws = l ++ w :: r → (∀ w' ∈ l, g w' = none) → f w = g w := by
  induction ws with
  | nil => simp
  | cons w ws ih =>
    have ih := ih fun w' hw' => h w' (.tail _ hw')
    have hw := h w (.head _)
    rw [findSome?_cons, findSome?_cons]
    cases hg : g w with
    | none =>
      rw [hw.2 hg]
      refine ih.trans ⟨fun hall l w' r heq hl => ?_, fun hall l w' r heq hl => ?_⟩
      · cases l with
        | nil =>
          cases heq
          rw [hg, hw.2 hg]
        | cons a l =>
          cases heq
          exact hall l w' r rfl fun w'' hw'' => hl w'' (.tail _ hw'')
      · refine hall (w :: l) w' r (by rw [heq]; rfl) fun w'' hw'' => ?_
        rcases mem_cons.1 hw'' with rfl | hw''
        · exact hg
        · exact hl w'' hw''
    | some b =>
      cases hf : f w with
      | none => exact absurd (hw.1 hf) (by rw [hg]; exact some_ne_none b)
      | some a =>
        constructor
        · intro heq l w' r hws hl
          cases l with
          | nil =>
            cases hws
            rw [hf, hg]
            exact heq
          | cons c l =>
            cases hws
            exact absurd (hl w mem_cons_self) (by rw [hg]; exact some_ne_none b)
        · intro hall
          have := hall [] w ws rfl nofun
          rw [hf, hg] at this
          exact this

variable {p t : List α}

theorem OccursAt.le_length {i : ℕ} (h : OccursAt p t i) (hp : p ≠ []) :
    i + p.length ≤ t.length := by
  have hlen : p.length ≤ (t.drop i).length := IsPrefix.length_le h
  have hpos : 0 < p.length := length_pos_iff.2 hp
  rw [length_drop] at hlen
  omega

theorem occursAt_append {u : List α} {i : ℕ} (h : i + p.length ≤ t.length) :
    OccursAt p (t ++ u) i ↔ OccursAt p t i := by
  unfold OccursAt
  rw [drop_append_of_le_length (by omega)]
  refine ⟨fun hpre => ?_, fun hpre => hpre.trans (prefix_append _ _)⟩
  refine prefix_of_prefix_length_le hpre (prefix_append _ _) ?_
  rw [length_drop]
  omega

variable {o e : ℕ}

theorem CompletesAt.le_length (h : CompletesAt p t o e) (hp : p ≠ []) : e ≤ t.length := by
  have := h.2.2.le_length hp
  omega

theorem completesAt_append {u : List α} (he : e ≤ t.length) :
    CompletesAt p (t ++ u) o e ↔ CompletesAt p t o e := by
  refine and_congr_right fun _ => and_congr_right fun hle => occursAt_append ?_
  omega

theorem CompletesAt.mono {o' : ℕ} (h : CompletesAt p t o e) (ho : o' < e) :
    CompletesAt p t o' e := ⟨ho, h.2⟩

variable [DecidableEq α]

instance (p t : List α) (i : ℕ) : Decidable (OccursAt p t i) :=
  inferInstanceAs (Decidable (p <+: t.drop i))

instance (p t : List α) (o e : ℕ) : Decidable (CompletesAt p t o e) :=
  inferInstanceAs (Decidable (_ ∧ _))

/-- The first position from `i` on at which `p` stands. -/
def findFrom (p t : List α) (i : ℕ) : Option ℕ :=
  (range' i (t.length + 1 - i)).find? fun j => decide (OccursAt p t j)

variable (ps : List (List α))

/-- The word that is completed first, and the position at which it is. Among the words that are
completed there, it is the first of the list. -/
def firstCompleted (t : List α) (o : ℕ) : Option (List α × ℕ) :=
  (range' (o + 1) (t.length - o)).findSome? fun e =>
    (ps.find? fun p => decide (CompletesAt p t o e)).map fun p => (p, e)

/-- The first word of the list that is completed, and the first position at which it is. -/
def firstListed (t : List α) (o : ℕ) : Option (List α × ℕ) :=
  ps.findSome? fun p => (findFrom p t (o + 1 - p.length)).map fun i => (p, i + p.length)

/-- No word of the list is completed before the first one of the list that is completed. -/
def InListOrder (t : List α) (o : ℕ) : Prop :=
  ∀ l p r, ps = l ++ p :: r → (∀ q ∈ l, ∀ e, ¬ CompletesAt q t o e) → (∃ e, CompletesAt p t o e) →
    ∀ q ∈ r, ∀ e, CompletesAt q t o e → ∃ e' ≤ e, CompletesAt p t o e'

/-! ### The first occurrence of one word -/

theorem findFrom_eq_some {i : ℕ} (h : findFrom p t (o + 1 - p.length) = some i) :
    CompletesAt p t o (i + p.length) ∧ ∀ e, CompletesAt p t o e → i + p.length ≤ e := by
  obtain ⟨hocc, hmem, hmin⟩ := find?_range'_eq_some.1 h
  have hocc : OccursAt p t i := of_decide_eq_true hocc
  have hi : o + 1 - p.length ≤ i := (mem_range'_1.1 hmem).1
  refine ⟨⟨by omega, by omega, ?_⟩, fun e he => ?_⟩
  · rwa [Nat.add_sub_cancel]
  · by_contra hlt
    obtain ⟨hoe, hle, hocc'⟩ := he
    have := hmin (e - p.length) (by omega) (by omega)
    rw [decide_eq_true hocc'] at this
    cases this

theorem findFrom_eq_none (hp : p ≠ []) (h : findFrom p t (o + 1 - p.length) = none)
    (e : ℕ) : ¬ CompletesAt p t o e := by
  intro he
  have hle := he.le_length hp
  obtain ⟨hoe, hlen, hocc⟩ := he
  have hmem : e - p.length ∈ range' (o + 1 - p.length)
      (t.length + 1 - (o + 1 - p.length)) := mem_range'_1.2 (by omega)
  exact find?_eq_none.1 h _ hmem (decide_eq_true hocc)

/-! ### The word listed first -/

variable {ps : List (List α)}

section

variable (hps : ∀ p ∈ ps, p ≠ [])
include hps

theorem firstListed_eq_none (h : firstListed ps t o = none) : ∀ p ∈ ps, ∀ e, ¬ CompletesAt p t o e := by
  intro p hp e
  have := findSome?_eq_none_iff.1 h p hp
  exact findFrom_eq_none (hps p hp) (map_eq_none_iff.1 this) e

theorem firstListed_eq_some (h : firstListed ps t o = some (p, e)) :
    CompletesAt p t o e ∧ (∀ e', CompletesAt p t o e' → e ≤ e') ∧
      ∃ l r, ps = l ++ p :: r ∧ ∀ q ∈ l, ∀ e', ¬ CompletesAt q t o e' := by
  obtain ⟨l, q, r, rfl, hq, hl⟩ := findSome?_eq_some_iff.1 h
  obtain ⟨i, hi, heq⟩ := map_eq_some_iff.1 hq
  cases heq
  obtain ⟨hc, hmin⟩ := findFrom_eq_some hi
  refine ⟨hc, hmin, l, r, rfl, fun q hq e' => ?_⟩
  have hq' : q ≠ [] := hps q (mem_append_left _ hq)
  exact findFrom_eq_none hq' (map_eq_none_iff.1 (hl q hq)) e'

theorem firstListed_of_length_le (ho : t.length ≤ o) : firstListed ps t o = none := by
  cases hfirst : firstListed ps t o with
  | none => rfl
  | some r =>
    obtain ⟨hc, -, l, r', rfl, -⟩ := firstListed_eq_some hps hfirst
    have hle := hc.le_length (hps _ (by simp))
    have hlt := hc.1
    omega

end

/-! ### The word completed first -/

theorem firstCompleted_eq_none (hps : ∀ p ∈ ps, p ≠ []) :
    firstCompleted ps t o = none ↔ ∀ p ∈ ps, ∀ e, ¬ CompletesAt p t o e := by
  unfold firstCompleted
  rw [findSome?_eq_none_iff]
  constructor
  · intro h p hp e he
    have hle := he.le_length (hps p hp)
    have hoe := he.1
    have hnone := map_eq_none_iff.1 (h e (mem_range'_1.2 (by omega)))
    exact find?_eq_none.1 hnone p hp (decide_eq_true he)
  · intro h e _
    rw [map_eq_none_iff, find?_eq_none]
    intro p hp hc
    exact h p hp e (of_decide_eq_true hc)

theorem completesAt_of_find (h : ps.find? (fun q => decide (CompletesAt q t o e)) = some p) :
    p ∈ ps ∧ CompletesAt p t o e := by
  have hdec := find?_some h
  exact ⟨mem_of_find?_eq_some h, of_decide_eq_true hdec⟩

section

variable (hps : ∀ p ∈ ps, p ≠ [])
include hps

theorem firstCompleted_spec (h : firstCompleted ps t o = some (p, e)) :
    (∀ q ∈ ps, ∀ e', CompletesAt q t o e' → e ≤ e') ∧
      ps.find? (fun q => decide (CompletesAt q t o e)) = some p := by
  obtain ⟨l, e₁, r, heq, hsome, hl⟩ := findSome?_eq_some_iff.1 h
  obtain ⟨p₁, hfind, hpe⟩ := map_eq_some_iff.1 hsome
  cases hpe
  refine ⟨fun q hq e' he' => ?_, hfind⟩
  by_contra hlt
  -- an earlier position comes before `e` in the list of positions, and no word ends there
  have hle := he'.le_length (hps q hq)
  have hoe := he'.1
  have hmem : e' ∈ l := by
    have hmem : e' ∈ range' (o + 1) (t.length - o) := mem_range'_1.2 (by omega)
    have hsorted := pairwise_lt_range' (s := o + 1) (n := t.length - o)
    rw [heq] at hmem hsorted
    rcases mem_append.1 hmem with hmem | hmem
    · exact hmem
    · rcases mem_cons.1 hmem with rfl | hmem
      · omega
      · have := (pairwise_cons.1 (pairwise_append.1 hsorted).2.1).1 e' hmem
        omega
  have hnone := map_eq_none_iff.1 (hl e' hmem)
  exact find?_eq_none.1 hnone q hq (decide_eq_true he')

theorem firstCompleted_eq_some : firstCompleted ps t o = some (p, e) ↔
      (∀ q ∈ ps, ∀ e', CompletesAt q t o e' → e ≤ e') ∧
        ps.find? (fun q => decide (CompletesAt q t o e)) = some p := by
  refine ⟨firstCompleted_spec hps, fun ⟨hmin, hfind⟩ => ?_⟩
  obtain ⟨hmem, hc⟩ := completesAt_of_find hfind
  cases hfirst : firstCompleted ps t o with
  | none => exact absurd hc ((firstCompleted_eq_none hps).1 hfirst p hmem e)
  | some pe =>
    obtain ⟨p₁, e₁⟩ := pe
    obtain ⟨hmin₁, hfind₁⟩ := firstCompleted_spec hps hfirst
    obtain ⟨hmem₁, hc₁⟩ := completesAt_of_find hfind₁
    have he : e₁ = e := le_antisymm (hmin₁ p hmem e hc) (hmin p₁ hmem₁ e₁ hc₁)
    subst he
    rw [hfind] at hfind₁
    cases hfind₁
    rfl

/-- The word listed first is the word completed first, exactly if no other word of the list is
completed before it. -/
theorem firstListed_eq_iff : firstListed ps t o = firstCompleted ps t o ↔ InListOrder ps t o := by
  constructor
  · intro heq l p r hl hnone ⟨e₀, he₀⟩ q hq e he
    have hmem : ∀ q ∈ p :: r, q ∈ ps := fun q hq => hl ▸ mem_append_right _ hq
    cases hfirst : firstListed ps t o with
    | none =>
      exact absurd he₀ (firstListed_eq_none hps hfirst p (hmem p (.head _)) e₀)
    | some pe =>
      obtain ⟨p₁, e₁⟩ := pe
      obtain ⟨hc₁, -, l₁, r₁, hl₁, hnone₁⟩ := firstListed_eq_some hps hfirst
      rw [heq] at hfirst
      obtain ⟨hmin, -⟩ := firstCompleted_spec hps hfirst
      have hp : p₁ = p := by
        -- both are the first word of the list that is completed
        rcases append_eq_append_iff.1 (hl.symm.trans hl₁) with ⟨l', rfl, hr⟩ | ⟨l', rfl, hr⟩
        · cases l' with
          | nil => exact (cons.inj hr).1.symm
          | cons a l' =>
            cases (cons.inj hr).1
            exact absurd he₀ (hnone₁ p (by simp) e₀)
        · cases l' with
          | nil => exact (cons.inj hr).1
          | cons a l' =>
            cases (cons.inj hr).1
            exact absurd hc₁ (hnone p₁ (by simp) e₁)
      subst hp
      exact ⟨e₁, hmin q (hmem q (.tail _ hq)) e he, hc₁⟩
  · intro horder
    cases hfirst : firstListed ps t o with
    | none => exact ((firstCompleted_eq_none hps).2 (firstListed_eq_none hps hfirst)).symm
    | some pe =>
      obtain ⟨p, e⟩ := pe
      obtain ⟨hc, hmin, l, r, rfl, hnone⟩ := firstListed_eq_some hps hfirst
      refine ((firstCompleted_eq_some hps).2 ⟨fun q hq e' he' => ?_, ?_⟩).symm
      · rcases mem_append.1 hq with hq | hq
        · exact absurd he' (hnone q hq e')
        · rcases mem_cons.1 hq with rfl | hq
          · exact hmin e' he'
          · obtain ⟨e₁, hle, hc₁⟩ := horder l p r rfl hnone ⟨e, hc⟩ q hq e' he'
            exact le_trans (hmin e₁ hc₁) hle
      · rw [find?_append, find?_eq_none.2 fun q hq => by simpa using hnone q hq e, none_or]
        exact find?_cons_of_pos (decide_eq_true hc)

end

/-! ### A text that grows -/

theorem firstCompleted_append_of_some {r : List α × ℕ} (hps : ∀ p ∈ ps, p ≠ []) (u : List α)
    (h : firstCompleted ps t o = some r) : firstCompleted ps (t ++ u) o = some r := by
  obtain ⟨p, e⟩ := r
  obtain ⟨hmin, hfind⟩ := firstCompleted_spec hps h
  obtain ⟨hmem, hc⟩ := completesAt_of_find hfind
  have hle := hc.le_length (hps p hmem)
  refine (firstCompleted_eq_some hps).2 ⟨fun q hq e' he' => ?_, ?_⟩
  · by_contra hlt
    exact hlt (hmin q hq e' ((completesAt_append (by omega)).1 he'))
  · rw [← hfind]
    exact find?_congr fun q _ => decide_eq_decide.2 (completesAt_append hle)

theorem firstCompleted_append_of_none (hps : ∀ p ∈ ps, p ≠ []) (u : List α) (ho : o ≤ t.length)
    (h : firstCompleted ps t o = none) :
    firstCompleted ps (t ++ u) o = firstCompleted ps (t ++ u) t.length := by
  have hnone := (firstCompleted_eq_none hps).1 h
  -- what is completed after `o` is completed after the end of `t`
  have hiff : ∀ q ∈ ps, ∀ e, CompletesAt q (t ++ u) o e ↔ CompletesAt q (t ++ u) t.length e := by
    intro q hq e
    refine ⟨fun he => he.mono ?_, fun he => he.mono (lt_of_le_of_lt ho he.1)⟩
    by_contra hle
    exact hnone q hq e ((completesAt_append (by omega)).1 he)
  cases hlast : firstCompleted ps (t ++ u) t.length with
  | none =>
    rw [firstCompleted_eq_none hps] at hlast ⊢
    exact fun q hq e he => hlast q hq e ((hiff q hq e).1 he)
  | some r =>
    obtain ⟨p, e⟩ := r
    rw [firstCompleted_eq_some hps] at hlast ⊢
    refine ⟨fun q hq e' he' => hlast.1 q hq e' ((hiff q hq e').1 he'), ?_⟩
    rw [← hlast.2]
    exact find?_congr fun q hq => decide_eq_decide.2 (hiff q hq e)

end LoptVllm
