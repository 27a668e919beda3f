import Mathlib.Data.List.Count
import Mathlib.Order.Nat
import LoptVllm.Frontend.Outputs

/-!
# The merged stream of a parallel sampling request
-/

namespace LoptVllm.Frontend

open List

/-- The completions of an output, each with its index and whether it is the last one of its child,
and whether the output is the last one of the stream. -/
structure View where
  completions : List (Option (ℕ × Bool))
  finished : Bool
  deriving DecidableEq

/-- How often the last completion of a child is in a stream. -/
def finals (i : ℕ) (S : List View) : ℕ := (S.flatMap View.completions).count (some (i, true))

theorem finals_append (i : ℕ) (S S' : List View) : finals i (S ++ S') = finals i S + finals i S' := by
  simp [finals, flatMap_append]

theorem finals_singleton (i : ℕ) (v : View) :
    finals i [v] = v.completions.count (some (i, true)) := by
  simp [finals]

/-- The output of a stream that has all its completions. -/
def wholeView (n : ℕ) : View := ⟨(List.range n).map fun i => some (i, true), true⟩

/-- The stream of a request with `n` children, of which `idx` are added and some run. -/
structure Merged (n idx : ℕ) (kind : RequestOutputKind) (running : ℕ → Prop) (S : List View) :
    Prop where
  /-- `finished` is set in the last output only. -/
  last : ∀ l v r, S = l ++ v :: r → v.finished = true → r = []
  /-- It is set after all children have ended. -/
  after : ∀ v ∈ S, v.finished = true → idx = n ∧ ∀ i, ¬ running i
  finishes : idx = n → (∀ i, ¬ running i) → ∃ l v, S = l ++ [v] ∧ v.finished = true
  /-- The last completion of a child is in the stream once. -/
  ended : kind ≠ .finalOnly → ∀ i < idx, ¬ running i → finals i S = 1
  notEnded : kind ≠ .finalOnly → ∀ i, running i ∨ idx ≤ i → finals i S = 0
  finalOnly : kind = .finalOnly → S = [] ∨ S = [wholeView n]

variable {n idx : ℕ} {kind : RequestOutputKind} {running running' : ℕ → Prop} {S S' : List View}

theorem Merged.new (hn : 0 < n) : Merged n 0 kind (fun _ => False) [] where
  last := fun l v r h => by cases l <;> cases h
  after := nofun
  finishes := fun h => absurd h hn.ne
  ended := nofun
  notEnded := fun _ _ _ => rfl
  finalOnly := fun _ => .inl rfl

section

variable (hS : Merged n idx kind running S)

include hS

theorem Merged.congr (h : ∀ i, running' i ↔ running i) : Merged n idx kind running' S := by
  obtain rfl : running' = running := funext fun i => propext (h i)
  exact hS

theorem Merged.of_eq (h : S' = S) : Merged n idx kind running S' := h ▸ hS

/-- The stream is not finished while a child runs, or while children are missing. -/
theorem Merged.not_finished (h : idx ≠ n ∨ ∃ i, running i) : ∀ v ∈ S, v.finished = false := by
  intro v hv
  cases hfin : v.finished with
  | false => rfl
  | true =>
    obtain ⟨hidx, hrun⟩ := hS.after v hv hfin
    rcases h with h | ⟨i, hi⟩
    · exact absurd hidx h
    · exact absurd hi (hrun i)

theorem Merged.eq_nil (hkind : kind = .finalOnly) (h : idx ≠ n ∨ ∃ i, running i) : S = [] := by
  refine (hS.finalOnly hkind).resolve_right fun hwhole => ?_
  have := hS.not_finished h (wholeView n) (by simp [hwhole])
  cases this

theorem Merged.child (hidx : idx < n) :
    Merged n (idx + 1) kind (fun i => running i ∨ i = idx) S := by
  have hfin := hS.not_finished (.inl hidx.ne)
  refine ⟨hS.last, fun v hv h => ?_, fun _ h => absurd (.inr rfl) (h idx), fun hkind i hi hrun => ?_,
    fun hkind i hi => ?_, hS.finalOnly⟩
  · rw [hfin v hv] at h
    cases h
  · rw [not_or] at hrun
    exact hS.ended hkind i (by omega) hrun.1
  · refine hS.notEnded hkind i ?_
    rcases hi with (h | h) | h
    · exact .inl h
    · exact .inr h.ge
    · exact .inr (by omega)

end

/-- An output is put at the end of a stream, or merged with the last one. -/
inductive Puts (k : ℕ) (f fin : Bool) (S : List View) : List View → Prop
  | append : Puts k f fin S (S ++ [⟨[some (k, f)], fin⟩])
  | merge (R : List View) (cs : List (Option (ℕ × Bool))) (b : Bool) (hS : S = R ++ [⟨cs, b⟩]) :
      Puts k f fin S (R ++ [⟨cs ++ [some (k, f)], b || fin⟩])
  | replace (R : List View) (l r : List (Option (ℕ × Bool))) (f' b : Bool)
      (hS : S = R ++ [⟨l ++ some (k, f') :: r, b⟩]) :
      Puts k f fin S (R ++ [⟨l ++ some (k, f) :: r, b || fin⟩])

variable {k : ℕ} {fin : Bool}

theorem Puts.last {f : Bool} (h : Puts k f fin S S') (hS : ∀ v ∈ S, v.finished = false) :
    ∃ R v, S' = R ++ [v] ∧ v.finished = fin ∧ ∀ u ∈ R, u.finished = false := by
  cases h with
  | append => exact ⟨S, _, rfl, rfl, hS⟩
  | merge R cs b hR =>
    subst hR
    have hb : b = false := hS ⟨cs, b⟩ (by simp)
    exact ⟨R, _, rfl, by simp [hb], fun u hu => hS u (mem_append_left _ hu)⟩
  | replace R l r f' b hR =>
    subst hR
    have hb : b = false := hS ⟨l ++ some (k, f') :: r, b⟩ (by simp)
    exact ⟨R, _, rfl, by simp [hb], fun u hu => hS u (mem_append_left _ hu)⟩

theorem Puts.finals_eq {f : Bool} (h : Puts k f fin S S') (hk : finals k S = 0) (i : ℕ) :
    finals i S' = finals i S + if i = k ∧ f = true then 1 else 0 := by
  have hsome : [some (k, f)].count (some (i, true)) = if i = k ∧ f = true then 1 else 0 := by
    by_cases hik : i = k
    · subst hik
      cases f <;> simp
    · simp [hik, Ne.symm]
  cases h with
  | append => rw [finals_append, finals_singleton, hsome]
  | merge R cs b hR =>
    subst hR
    simp only [finals_append, finals_singleton, count_append]
    omega
  | replace R l r f' b hR =>
    subst hR
    have hf' : f' = false := by
      cases f' with
      | false => rfl
      | true => simp [finals_append, finals_singleton] at hk
    subst hf'
    simp only [finals_append, finals_singleton, count_append]
    rw [count_cons, count_cons]
    have hsome' := hsome
    rw [count_singleton] at hsome'
    rw [hsome']
    simp
    omega

section

variable (hS : Merged n idx kind running S)

include hS

/-- A child hands out a completion. -/
theorem Merged.emit {f : Bool} (hkind : kind ≠ .finalOnly)
    (hk : running k) (hlt : k < idx) (hrun : ∀ i, running' i ↔ running i ∧ ¬ (f = true ∧ i = k))
    (hfin : fin = true ↔ ∀ i, ¬ running' i) (hall : fin = true → idx = n)
    (hput : Puts k f fin S S') : Merged n idx kind running' S' := by
  have hnot := hS.not_finished (.inr ⟨k, hk⟩)
  obtain ⟨R, v, rfl, hv, hR⟩ := hput.last hnot
  have hfinals := hput.finals_eq (hS.notEnded hkind k (.inl hk))
  refine ⟨fun l w r heq hw => ?_, fun w hw h => ?_, fun hidx hrun' => ?_, fun _ i hi hnone => ?_,
    fun _ i hi => ?_, fun h => absurd h hkind⟩
  · rcases eq_nil_or_concat r with hr | ⟨r', x, rfl⟩
    · exact hr
    · -- the output would be one of those before the last one
      have heq' : R ++ [v] = (l ++ w :: r') ++ [x] := by simpa using heq
      have hmem : w ∈ R := by
        rw [(append_inj' heq' rfl).1]
        simp
      rw [hR w hmem] at hw
      cases hw
  · rcases mem_append.1 hw with hw | hw
    · rw [hR w hw] at h
      cases h
    · rw [mem_singleton.1 hw, hv] at h
      exact ⟨hall h, hfin.1 h⟩
  · exact ⟨R, v, rfl, hv.trans (hfin.2 hrun')⟩
  · rw [hfinals]
    by_cases hik : i = k ∧ f = true
    · rw [if_pos hik, hS.notEnded hkind i (.inl (hik.1 ▸ hk))]
    · rw [if_neg hik]
      exact hS.ended hkind i hi fun h => hnone ((hrun i).2 ⟨h, fun h' => hik ⟨h'.2, h'.1⟩⟩)
  · rw [hfinals]
    have hne : ¬ (i = k ∧ f = true) := by
      rintro ⟨rfl, rfl⟩
      rcases hi with hi | hi
      · exact ((hrun i).1 hi).2 ⟨rfl, rfl⟩
      · omega
    rw [if_neg hne, Nat.add_zero]
    exact hS.notEnded hkind i (hi.imp_left fun h => ((hrun i).1 h).1)

/-- A child ends without an output, while another one runs. -/
theorem Merged.silent (hkind : kind = .finalOnly)
    (hk : running k) (hleft : ∃ i, running' i) : Merged n idx kind running' S := by
  obtain rfl := hS.eq_nil hkind (.inr ⟨k, hk⟩)
  obtain ⟨i, hi⟩ := hleft
  exact ⟨hS.last, nofun, fun _ h => absurd hi (h i), fun h => absurd hkind h, fun h => absurd hkind h,
    fun _ => .inl rfl⟩

/-- The last child ends: all completions are handed out. -/
theorem Merged.whole (hkind : kind = .finalOnly) (hk : running k)
    (hnone : ∀ i, ¬ running' i) (hall : idx = n) :
    S = [] ∧ Merged n idx kind running' [wholeView n] := by
  refine ⟨hS.eq_nil hkind (.inr ⟨k, hk⟩), ⟨fun l v r h _ => ?_, fun _ _ _ => ⟨hall, hnone⟩,
    fun _ _ => ⟨[], wholeView n, rfl, rfl⟩, fun h => absurd hkind h, fun h => absurd hkind h,
    fun _ => .inr rfl⟩⟩
  cases l with
  | nil => exact (cons.inj h).2.symm
  | cons w l => simp at h

end

end LoptVllm.Frontend
