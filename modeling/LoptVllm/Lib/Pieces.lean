import LoptVllm.Lib.Occurrence

/-!
# Texts made of pieces

A text that is the concatenation of the texts of its pieces. The text of one piece may stand in it
only where that piece does.
-/

namespace LoptVllm

open List

variable {α τ : Type*} {text : τ → List α} {id : τ} {ts : List τ}

/-- Every occurrence of the text of `id` in the text of `ts` is a piece `id`. -/
def StandsOnlyAt (text : τ → List α) (id : τ) (ts : List τ) : Prop :=
  ∀ o, OccursAt (text id) (ts.flatMap text) o →
    ∃ pre post, ts = pre ++ id :: post ∧ (pre.flatMap text).length = o

theorem occursAt_piece (pre post : List τ) :
    OccursAt (text id) ((pre ++ id :: post).flatMap text) (pre.flatMap text).length := by
  rw [OccursAt, flatMap_append, drop_left, flatMap_cons]
  exact prefix_append _ _

theorem StandsOnlyAt.part {A B : List τ} (hne : text id ≠ [])
    (h : StandsOnlyAt text id (A ++ ts ++ B)) : StandsOnlyAt text id ts := by
  intro o ho
  have hle := ho.le_length hne
  have hpos : 0 < (text id).length := length_pos_iff.2 hne
  have hocc : OccursAt (text id) ((A ++ ts ++ B).flatMap text) ((A.flatMap text).length + o) := by
    rw [OccursAt, append_assoc, flatMap_append, flatMap_append, ← drop_drop, drop_left]
    exact (occursAt_append hle).2 ho
  obtain ⟨pre, post, hsplit, hlen⟩ := h _ hocc
  rw [append_assoc] at hsplit
  have hinside : ∀ pre' : List τ, ts ++ B = pre' ++ id :: post → (pre'.flatMap text).length = o →
      ∃ pre post, ts = pre ++ id :: post ∧ (pre.flatMap text).length = o := by
    intro pre' hts hlen'
    rcases append_eq_append_iff.1 hts with ⟨pre'', rfl, -⟩ | ⟨ts', rfl, hcons⟩
    · -- the piece would come after the part
      rw [flatMap_append, length_append] at hlen'
      omega
    · cases ts' with
      | nil =>
        rw [append_nil] at hle
        omega
      | cons t ts' =>
        obtain ⟨rfl, -⟩ := cons.inj hcons
        exact ⟨pre', ts', rfl, hlen'⟩
  rcases append_eq_append_iff.1 hsplit with ⟨pre', rfl, hts⟩ | ⟨A', rfl, hpost⟩
  · rw [flatMap_append, length_append, Nat.add_left_cancel_iff] at hlen
    exact hinside pre' hts hlen
  · rw [flatMap_append, length_append] at hlen
    cases A' with
    | nil => exact hinside [] hpost.symm (by simp at hlen ⊢; omega)
    | cons a A' =>
      -- the piece would come before the part
      obtain ⟨rfl, -⟩ := cons.inj hpost
      rw [flatMap_cons, length_append] at hlen
      omega

/-- It is enough to look at the positions of the text. -/
theorem standsOnlyAt_of_forall_lt (hne : text id ≠ [])
    (h : ∀ o < (ts.flatMap text).length, OccursAt (text id) (ts.flatMap text) o →
      ∃ i < ts.length, ts[i]? = some id ∧ ((ts.take i).flatMap text).length = o) :
    StandsOnlyAt text id ts := by
  intro o ho
  have hle := ho.le_length hne
  have hpos : 0 < (text id).length := length_pos_iff.2 hne
  obtain ⟨i, hi, hget, hlen⟩ := h o (by omega) ho
  obtain ⟨_, rfl⟩ := List.getElem?_eq_some_iff.1 hget
  exact ⟨ts.take i, ts.drop (i + 1), by rw [getElem_cons_drop, take_append_drop], hlen⟩

variable [DecidableEq α]

/-- The search finds the first piece. -/
theorem StandsOnlyAt.findFrom_eq {pre post : List τ} (hne : text id ≠ [])
    (h : StandsOnlyAt text id (pre ++ id :: post)) (hpre : id ∉ pre) :
    findFrom (text id) ((pre ++ id :: post).flatMap text) 0 = some (pre.flatMap text).length := by
  have hocc : OccursAt (text id) ((pre ++ id :: post).flatMap text) (pre.flatMap text).length :=
    occursAt_piece pre post
  have hle := hocc.le_length hne
  refine find?_range'_eq_some.2 ⟨decide_eq_true hocc, mem_range'_1.2 (by omega), fun j _ hj => ?_⟩
  rw [Bool.not_eq_true', decide_eq_false_iff_not]
  intro hoccj
  obtain ⟨pre', post', hsplit, rfl⟩ := h j hoccj
  rcases append_eq_append_iff.1 hsplit with ⟨q, rfl, -⟩ | ⟨q, rfl, hq⟩
  · rw [flatMap_append, length_append] at hj
    omega
  · cases q with
    | nil => simp at hj
    | cons t q =>
      obtain ⟨rfl, -⟩ := cons.inj hq
      exact hpre (by simp)

theorem StandsOnlyAt.findFrom_eq_none (h : StandsOnlyAt text id ts) (hid : id ∉ ts) :
    findFrom (text id) (ts.flatMap text) 0 = none := by
  refine find?_eq_none.2 fun j _ hj => ?_
  obtain ⟨pre, post, rfl, -⟩ := h j (of_decide_eq_true hj)
  exact hid (by simp)

end LoptVllm
