import LoptVllm.Lib.Speculative
import LoptVllm.Lib.UniformNumbers
import LoptVllm.SpecDecode.RejectionRows

/-!
# Rejection sampling keeps the target distribution

The draft tokens of a request are drawn from its draft distributions, or given without any; the bonus
token is drawn from the target distribution. The uniform numbers are independent, and so are the rows
of `q`, whose law is such that `argmax(prob / q)` picks with the probabilities `prob` (`RaceLaw`).
-/

namespace LoptVllm.SpecDecode

open List Option Set SpecRow

open MeasureTheory Lib

/-- A distribution of tokens. -/
abbrev TokenDistribution (vocabSize : ℕ) := {p : Fin vocabSize → ℝ // IsDistribution p}

/-- Rows of `q` as `exponential_()` makes them: `argmax(prob / q)` picks a token with a probability
proportional to `prob`. -/
structure RaceLaw {vocabSize : ℕ} (ν : Measure (Fin vocabSize → ℝ)) : Prop where
  pos : ∀ᵐ q ∂ν, ∀ i, 0 < q i
  pick : ∀ prob : Fin vocabSize → ℝ, (∀ i, 0 ≤ prob i) → 0 < ∑ i, prob i → ∀ x : Fin vocabSize,
    ν.real {q | argmax (ofFn fun i => prob i / q i) = x} = prob x / ∑ i, prob i

/-- Where the draft tokens of a request come from: `n` tokens from draft distributions, which depend on
the tokens before, or any tokens without a distribution. -/
inductive Drafts (vocabSize : ℕ)
  | drawn (draft : List (Fin vocabSize) → TokenDistribution vocabSize) (n : ℕ)
  | given (tokens : List (Fin vocabSize))

namespace Drafts

variable {vocabSize : ℕ} (drafts : Drafts vocabSize)
  (target : List (Fin vocabSize) → TokenDistribution vocabSize)

/-- The number of draft tokens. -/
def length : Drafts vocabSize → ℕ
  | drawn _ n => n
  | given tokens => tokens.length

/-- Whether there are draft probabilities. -/
def hasProbs : Drafts vocabSize → Bool
  | drawn _ _ => true
  | given _ => false

/-- The expectation over the draft tokens. -/
noncomputable def expect : Drafts vocabSize → (List (Fin vocabSize) → ℝ) → ℝ
  | drawn draft n, F => expectDraws (fun y => (draft y).1) n [] F
  | given tokens, F => F tokens

/-- The draft probabilities of the draft tokens `d`. -/
noncomputable def draftProbs : Drafts vocabSize → List (Fin vocabSize) → List (List ℝ)
  | drawn draft _, d => (range d.length).map fun i => ofFn (draft (d.take i)).1
  | given _, _ => []

/-- The request with the draft tokens `d`. -/
noncomputable def specRow (temperature : ℝ) (d : List (Fin vocabSize)) (bonus : Fin vocabSize) :
    SpecRow ℝ where
  draftTokenIds := d.map Fin.val
  draftProbs := drafts.draftProbs d
  targetProbs := (range d.length).map fun i => ofFn (target (d.take i)).1
  bonusTokenId := bonus
  temperature := temperature

/-- The number of uniform numbers for a batch with the request: one for each draft token. -/
def numUniform (before after : List (SpecRow ℝ)) : ℕ :=
  (before.map (·.draftTokenIds.length)).sum + drafts.length + (after.map (·.draftTokenIds.length)).sum

/-- The tokens of the request in a batch, for the uniform numbers and the rows of `q`. -/
noncomputable def emitted (paddedVocabSize maxSpecLen : ℕ) (before after : List (SpecRow ℝ))
    (temperature : ℝ) (d : List (Fin vocabSize)) (bonus : Fin vocabSize)
    (ω : (Fin (drafts.numUniform before after) → ℝ) ×
      (Fin (before.length + 1 + after.length) → Fin vocabSize → ℝ)) : List ℤ :=
  outputTokens maxSpecLen
    (rejectionSample
      (tensorsOf vocabSize paddedVocabSize maxSpecLen drafts.hasProbs
        (before ++ drafts.specRow target temperature d bonus :: after))
      (ofFn ω.1) (ofFn fun i => ofFn (ω.2 i)).flatten)
    before.length

/-- The probability that the tokens of the request satisfy `Q`. -/
noncomputable def prob (paddedVocabSize maxSpecLen : ℕ) (before after : List (SpecRow ℝ))
    (temperature : ℝ) (ν : Measure (Fin vocabSize → ℝ)) (Q : List ℤ → Prop) : ℝ :=
  drafts.expect fun d => ∑ bonus, (target d).1 bonus *
    (numbersLaw (drafts.numUniform before after) (before.length + 1 + after.length) ν).real
      {ω | Q (drafts.emitted target paddedVocabSize maxSpecLen before after temperature d bonus ω)}

/-! ### One position -/

/-- Whether the draft token `t` after `y` is accepted for the uniform number `u`. -/
def Accepts (y : List (Fin vocabSize)) (t : Fin vocabSize) (u : ℝ) : Prop := match drafts with
  | drawn draft _ => (draft y).1 t > 0 ∧ (target y).1 t / (draft y).1 t ≥ u
  | given _ => (target y).1 t ≥ u

/-- The probability that the draft token `t` after `y` is accepted. -/
noncomputable def acceptance (y : List (Fin vocabSize)) (t : Fin vocabSize) : ℝ := match drafts with
  | drawn draft _ => acceptProb ((target y).1 t) ((draft y).1 t)
  | given _ => (target y).1 t

/-- The weights for the token that replaces the draft token `t` after `y`. -/
noncomputable def recovered (y : List (Fin vocabSize)) (t x : Fin vocabSize) : ℝ :=
  match drafts with
  | drawn draft _ => residual (target y).1 (draft y).1 x
  | given _ => if x ≠ t then (target y).1 x else 0

section

variable (y : List (Fin vocabSize))

include y

theorem recovered_nonneg (t x : Fin vocabSize) : 0 ≤ drafts.recovered target y t x := by
  cases drafts with
  | drawn draft n => exact residual_nonneg _ _ _
  | given tokens =>
    unfold recovered
    split_ifs
    · exact (target y).2.nonneg x
    · exact le_refl 0

variable (t : Fin vocabSize)

theorem accepts_eq : {u | drafts.Accepts target y t u} = ∅ ∧ drafts.acceptance target y t = 0 ∨
      ∃ a, 0 ≤ a ∧ {u | drafts.Accepts target y t u} = Set.Iic a ∧
        drafts.acceptance target y t = min 1 a := by
  cases drafts with
  | drawn draft n =>
    by_cases hpos : 0 < (draft y).1 t
    · refine Or.inr ⟨(target y).1 t / (draft y).1 t,
        div_nonneg ((target y).2.nonneg t) hpos.le, ?_, if_pos hpos⟩
      exact ext fun u => and_iff_right hpos
    · refine Or.inl ⟨?_, if_neg hpos⟩
      exact eq_empty_of_forall_notMem fun u hu => hpos hu.1
  | given tokens =>
    exact Or.inr ⟨(target y).1 t, (target y).2.nonneg t, rfl,
      (min_eq_right ((target y).2.le_one t)).symm⟩

theorem measurableSet_accepts : MeasurableSet {u | drafts.Accepts target y t u} := by
  obtain ⟨h, -⟩ | ⟨a, -, h, -⟩ := drafts.accepts_eq target y t
  · rw [h]
    exact MeasurableSet.empty
  · rw [h]
    exact measurableSet_Iic

theorem uniformLaw_real_accepts :
    uniformLaw.real {u | drafts.Accepts target y t u} = drafts.acceptance target y t := by
  obtain ⟨h, hzero⟩ | ⟨a, ha, h, hmin⟩ := drafts.accepts_eq target y t
  · rw [h, hzero, measureReal_empty]
  · rw [h, hmin, uniformLaw_real_Iic ha]

end

/-- The probability that the token after `y` is `x` if the draft token is `t`. -/
noncomputable def stepProb (ν : Measure (Fin vocabSize → ℝ)) (y : List (Fin vocabSize))
    (t x : Fin vocabSize) : ℝ :=
  drafts.acceptance target y t * (if t = x then 1 else 0) + (1 - drafts.acceptance target y t) *
    ν.real {q | argmax (ofFn fun i => drafts.recovered target y t i / q i) = x}

variable {drafts}

theorem expect_congr {F G : List (Fin vocabSize) → ℝ}
    (h : ∀ d : List (Fin vocabSize), d.length = drafts.length → F d = G d) :
    drafts.expect F = drafts.expect G := by
  cases drafts with
  | drawn draft n => exact expectDraws_congr fun l hl => h ([] ++ l) hl
  | given tokens => exact h tokens rfl

theorem expect_mul (F : List (Fin vocabSize) → ℝ) (c : ℝ) :
    drafts.expect (fun d => F d * c) = drafts.expect F * c := by
  cases drafts with
  | drawn draft n => exact expectDraws_mul c n [] F
  | given tokens => rfl

variable {target} {ν : Measure (Fin vocabSize → ℝ)}

/-- Over the draft tokens after `y`, the token has the target distribution. -/
theorem expect_stepProb (hν : RaceLaw ν) (y : List (Fin vocabSize)) (x : Fin vocabSize)
    (hy : y.length < drafts.length) : drafts.expect (fun d => if d.take y.length = y then
        (d[y.length]?).elim 0 fun t => drafts.stepProb target ν y t x else 0) =
      drafts.expect (fun d => if d.take y.length = y then 1 else 0) * (target y).1 x := by
  have hpick := fun t => hν.pick (drafts.recovered target y t) (drafts.recovered_nonneg target y t)
  cases drafts with
  | drawn draft n =>
    have hat := expectDraws_at (fun y => (draft y).2) y
      (fun t => (drawn draft n).stepProb target ν y t x) hy
    refine hat.trans (congrArg _ ?_)
    rw [← draw_accept_or_replace (r := fun x : Fin vocabSize =>
        ν.real {q | argmax (ofFn fun i => residual (target y).1 (draft y).1 i / q i) = x})
      (target y).2 (draft y).2 x fun h => hpick x h x]
    refine Finset.sum_congr rfl fun t _ => congrArg _ ?_
    unfold stepProb
    rw [mul_ite, mul_one, mul_zero]
    rfl
  | given tokens =>
    change (if tokens.take y.length = y then (tokens[y.length]?).elim 0 fun t =>
        (given tokens).stepProb target ν y t x else 0) =
      (if tokens.take y.length = y then 1 else 0) * (target y).1 x
    split_ifs with htake
    · rw [getElem?_eq_getElem, one_mul,
        ← given_accept_or_replace (r := fun x : Fin vocabSize => ν.real {q | argmax (ofFn fun i =>
            (if i ≠ tokens[y.length] then (target y).1 i else 0) / q i) = x})
          (target y).2 tokens[y.length] x fun h => hpick _ h x]
      change (target y).1 _ * _ + _ = _
      rw [mul_ite, mul_one, mul_zero]
      rfl
    · rw [zero_mul]

/-! ### The request in the batch -/

variable {temperature : ℝ} {d : List (Fin vocabSize)} {bonus : Fin vocabSize}

theorem getD_ofFn (p : Fin vocabSize → ℝ) (i : Fin vocabSize) : (ofFn p).getD i 0 = p i := by
  rw [getD_eq_getElem _ _ (by rw [length_ofFn]; exact i.2), List.getElem_ofFn]

theorem getD_range_map {α : Type} (f : ℕ → α) (default : α) {n pos : ℕ} (h : pos < n) :
    ((range n).map f).getD pos default = f pos := by
  rw [getD_eq_getElem _ _ (by rwa [length_map, length_range]), getElem_map, getElem_range]

theorem draftTokenIds_specRow {pos : ℕ} (h : pos < d.length) :
    (drafts.specRow target temperature d bonus).draftTokenIds.getD pos 0 = d[pos] := by
  rw [specRow, getD_eq_getElem _ _ (by rwa [length_map]), getElem_map]

theorem accepts_specRow {pos : ℕ} (h : pos < d.length) (u : ℝ) :
    (drafts.specRow target temperature d bonus).Accepts drafts.hasProbs pos u ↔
      drafts.Accepts target (d.take pos) d[pos] u := by
  unfold SpecRow.Accepts
  rw [draftTokenIds_specRow h]
  cases drafts with
  | drawn draft n =>
    simp only [specRow, draftProbs, getD_range_map _ _ h, getD_ofFn]
    rfl
  | given tokens =>
    simp only [specRow, hasProbs, Bool.false_eq_true, if_false, getD_range_map _ _ h, getD_ofFn,
      div_one]
    exact and_iff_right one_pos

theorem recoveredWeight_specRow {pos : ℕ} (h : pos < d.length) (i : Fin vocabSize) :
    (drafts.specRow target temperature d bonus).recoveredWeight drafts.hasProbs pos i =
      drafts.recovered target (d.take pos) d[pos] i := by
  unfold recoveredWeight
  rw [draftTokenIds_specRow h]
  cases drafts with
  | drawn draft n =>
    simp only [specRow, draftProbs, getD_range_map _ _ h, getD_ofFn]
    rfl
  | given tokens =>
    simp only [specRow, hasProbs, Bool.false_eq_true, if_false, getD_range_map _ _ h, getD_ofFn,
      recovered, ne_eq, Fin.val_inj]

theorem fits_specRow {maxSpecLen : ℕ} (h : d.length ≤ maxSpecLen) :
    (drafts.specRow target temperature d bonus).Fits vocabSize maxSpecLen drafts.hasProbs where
  length_le := by rwa [specRow, length_map]
  draftTokenIds := by
    intro t ht
    obtain ⟨i, -, rfl⟩ := List.mem_map.1 ht
    exact i.2
  length_targetProbs := by simp [specRow]
  targetProbs := by
    intro p hp
    obtain ⟨i, -, rfl⟩ := List.mem_map.1 hp
    exact length_ofFn
  length_draftProbs := by
    intro hprobs
    cases drafts with
    | drawn draft n => simp [specRow, Drafts.draftProbs]
    | given tokens => exact absurd hprobs Bool.false_ne_true
  draftProbs := by
    intro hprobs p hp
    cases drafts with
    | drawn draft n =>
      obtain ⟨i, -, rfl⟩ := List.mem_map.1 hp
      exact length_ofFn
    | given tokens => exact absurd hprobs Bool.false_ne_true

section

variable {paddedVocabSize maxSpecLen : ℕ} {before after : List (SpecRow ℝ)}

/-- The uniform number for a draft position. -/
def uniformIdx (before after : List (SpecRow ℝ)) {pos : ℕ} (h : pos < drafts.length) :
    Fin (drafts.numUniform before after) :=
  ⟨(before.map (·.draftTokenIds.length)).sum + pos, by unfold numUniform; omega⟩

/-- The row of `q` of the request. -/
def requestIdx (before after : List (SpecRow ℝ)) : Fin (before.length + 1 + after.length) :=
  ⟨before.length, by omega⟩

/-- The token that replaces the draft token `t` after `y`. -/
noncomputable def replacement (drafts : Drafts vocabSize)
    (target : List (Fin vocabSize) → TokenDistribution vocabSize) (paddedVocabSize : ℕ)
    (y : List (Fin vocabSize)) (t : Fin vocabSize) (q : Fin vocabSize → ℝ) : ℕ :=
  recoveredId paddedVocabSize vocabSize
    (fun i => if h : i < vocabSize then drafts.recovered target y t ⟨i, h⟩ else 0)
    fun i => if h : i < vocabSize then q ⟨i, h⟩ else 0

/-- The uniform numbers for which the tokens `y` are accepted. -/
def reached (drafts : Drafts vocabSize) (target : List (Fin vocabSize) → TokenDistribution vocabSize)
    (before after : List (SpecRow ℝ)) (y : List (Fin vocabSize))
    (k : Fin (drafts.numUniform before after)) : Set ℝ :=
  {u | ∀ (pos : ℕ) (h : pos < y.length), k.1 = (before.map (·.draftTokenIds.length)).sum + pos →
    drafts.Accepts target (y.take pos) y[pos] u}

variable {ω : (Fin (drafts.numUniform before after) → ℝ) ×
    (Fin (before.length + 1 + after.length) → Fin vocabSize → ℝ)}

open Classical in
/-- The tokens `y` are accepted if and only if they are the draft tokens and the uniform numbers let
them. -/
theorem take_accepted_iff (hd : d.length = drafts.length) {f : (pos : ℕ) → pos < d.length → ℤ}
    {l : List (ℤ × Bool)}
    (hlength : l.length = d.length) (hl : ∀ (pos : ℕ) (h : pos < d.length), l[pos]? = some
      (if drafts.Accepts target (d.take pos) d[pos] (ω.1 (uniformIdx before after (hd ▸ h))) then
        ((d[pos] : ℤ), false) else (f pos h, true))) (y : List (Fin vocabSize)) :
    l.take y.length = y.map (fun t : Fin vocabSize => ((t : ℤ), false)) ↔
      d.take y.length = y ∧ ∀ k, ω.1 k ∈ drafts.reached target before after y k := by
  constructor
  · intro h
    have hle : y.length ≤ d.length := by
      have := congrArg List.length h
      rw [length_take, length_map, hlength] at this
      omega
    have hat : ∀ (pos : ℕ) (hpos : pos < y.length), d[pos] = y[pos] ∧
        drafts.Accepts target (d.take pos) d[pos]
          (ω.1 (uniformIdx before after (hd ▸ hpos.trans_le hle))) := by
      intro pos hpos
      have heq := congrArg (·[pos]?) h
      simp only [getElem?_take_of_lt hpos, hl pos (hpos.trans_le hle), getElem?_map,
        getElem?_eq_getElem hpos, map_some, some.injEq] at heq
      split_ifs at heq with haccepts
      · exact ⟨by simpa [Fin.ext_iff] using heq, haccepts⟩
      · exact absurd (congrArg Prod.snd heq) nofun
    have htake : d.take y.length = y :=
      ext_getElem (by rw [length_take, min_eq_left hle]) fun pos _ hpos => by
        rw [getElem_take]
        exact (hat pos hpos).1
    refine ⟨htake, fun k pos hpos hk => ?_⟩
    obtain ⟨heq, haccepts⟩ := hat pos hpos
    have hprefix : d.take pos = y.take pos := by
      rw [← htake, take_take, min_eq_left hpos.le]
    have hidx : uniformIdx before after (hd ▸ hpos.trans_le hle) = k := Fin.ext hk.symm
    rwa [heq, hprefix, hidx] at haccepts
  · rintro ⟨htake, hreached⟩
    have hle : y.length ≤ d.length := by
      have := congrArg List.length htake
      rw [length_take] at this
      omega
    refine ext_getElem? fun pos => ?_
    by_cases hpos : pos < y.length
    · have heq : d[pos] = y[pos] := by
        have := getElem_of_eq htake.symm hpos
        rw [this, getElem_take]
      have hprefix : d.take pos = y.take pos := by
        rw [← htake, take_take, min_eq_left hpos.le]
      have haccepts := hreached (uniformIdx before after (hd ▸ hpos.trans_le hle)) pos hpos rfl
      rw [getElem?_take_of_lt hpos, hl pos (hpos.trans_le hle), getElem?_map,
        getElem?_eq_getElem, map_some, if_pos, heq]
      rwa [heq, hprefix]
    · rw [getElem?_eq_none, getElem?_eq_none]
      · rw [length_map]
        exact not_lt.1 hpos
      · rw [length_take]
        omega

variable (y : List (Fin vocabSize))

/-- The tokens in the output. -/
def tokenIds : List ℤ := y.map fun t : Fin vocabSize => (t : ℤ)

theorem map_tokenIds : (tokenIds y).map (fun token => (token, false)) =
      y.map fun t : Fin vocabSize => ((t : ℤ), false) := by
  rw [tokenIds, List.map_map]
  rfl

theorem length_tokenIds : (tokenIds y).length = y.length := length_map _

/-- What does not depend on the bonus token. -/
theorem sum_target_mul (p : TokenDistribution vocabSize) (c : ℝ) : ∑ t, p.1 t * c = c := by
  rw [← Finset.sum_mul, p.2.sum_eq_one, one_mul]

variable (hbefore : ∀ r ∈ before, r.Fits vocabSize maxSpecLen drafts.hasProbs)
    (hafter : ∀ r ∈ after, r.Fits vocabSize maxSpecLen drafts.hasProbs) (htemperature : temperature ≠ 0)
    (hle : drafts.length ≤ maxSpecLen)

include hbefore hafter htemperature hle

open Classical in
/-- The tokens of the request are those of its own draft positions. -/
theorem emitted_eq (target : List (Fin vocabSize) → TokenDistribution vocabSize)
    (paddedVocabSize : ℕ) (bonus : Fin vocabSize) (hd : d.length = drafts.length)
    (ω : (Fin (drafts.numUniform before after) → ℝ) ×
      (Fin (before.length + 1 + after.length) → Fin vocabSize → ℝ)) : ∃ l : List (ℤ × Bool),
      drafts.emitted target paddedVocabSize maxSpecLen before after temperature d bonus ω =
        emit l bonus ∧ l.length = d.length ∧ ∀ (pos : ℕ) (h : pos < d.length), l[pos]? = some
        (if drafts.Accepts target (d.take pos) d[pos] (ω.1 (uniformIdx before after (hd ▸ h))) then
          ((d[pos] : ℤ), false) else ((drafts.replacement target paddedVocabSize (d.take pos) d[pos]
          (ω.2 (requestIdx before after)) : ℤ), true)) := by
  set row := drafts.specRow target temperature d bonus
  set rows := before ++ row :: after with hrows
  set q := (ofFn fun i => ofFn (ω.2 i)).flatten with hq
  set start := (before.map (·.draftTokenIds.length)).sum with hstart
  -- every row fits, so the kernel reads the row of the request
  have hfits : ∀ r ∈ rows, r.Fits vocabSize maxSpecLen drafts.hasProbs := by
    intro r hr
    rcases mem_append.1 hr with hr | hr
    · exact hbefore r hr
    · rcases mem_cons.1 hr with rfl | hr
      · exact fits_specRow (hd ▸ hle)
      · exact hafter r hr
  have hlt : before.length < rows.length := by
    rw [hrows, length_append, length_cons]
    omega
  have hrow : rows[before.length] = row := by simp [hrows]
  have hstartOf : startOf rows before.length = start := by rw [startOf, hrows, take_left]
  have hlength : row.draftTokenIds.length = d.length := length_map _
  have hqAt : ∀ i : Fin vocabSize, q.getD (before.length * vocabSize + i) 0 =
      ω.2 (requestIdx before after) i := by
    intro i
    have hwidth : ∀ r ∈ ofFn fun i => ofFn (ω.2 i), r.length = vocabSize := by
      intro r hmem
      obtain ⟨j, rfl⟩ := mem_ofFn.1 hmem
      exact length_ofFn
    rw [hq, getD_flatten hwidth 0 i.2, getD_eq_getElem _ [] (by rw [length_ofFn]; omega),
      List.getElem_ofFn, getD_ofFn]
    rfl
  refine ⟨row.randomTokens paddedVocabSize vocabSize drafts.hasProbs
    (fun pos => (ofFn ω.1).getD (start + pos) 0)
    (fun i => q.getD (before.length * vocabSize + i) 0),
    (outputTokens_rejectionSample hfits _ _ hlt).trans ?_, ?_, ?_⟩
  · rw [hrow, hstartOf]
    exact if_neg htemperature
  · rw [randomTokens, length_map, length_range, hlength]
  · intro pos h
    have hu : (ofFn ω.1).getD (start + pos) 0 = ω.1 (uniformIdx before after (hd ▸ h)) := by
      have := (@uniformIdx _ drafts before after pos (hd ▸ h)).2
      rw [getD_eq_getElem _ _ (by rw [length_ofFn]; exact this), List.getElem_ofFn]
      rfl
    have hid : recoveredId paddedVocabSize vocabSize (row.recoveredWeight drafts.hasProbs pos)
        (fun i => q.getD (before.length * vocabSize + i) 0) =
        drafts.replacement target paddedVocabSize (d.take pos) d[pos]
          (ω.2 (requestIdx before after)) := by
      refine recoveredId_congr (fun i hi => ?_) fun i hi => ?_
      · rw [dif_pos]
        exact recoveredWeight_specRow h ⟨i, hi⟩
      · rw [dif_pos]
        exact hqAt ⟨i, hi⟩
    rw [randomTokens, getElem?_map, hlength, getElem?_range h, map_some]
    simp only [row, accepts_specRow h, draftTokenIds_specRow h, hu]
    rw [hid]

/-- The probability that the tokens are `y` and some more, for the draft tokens `d`. -/
theorem real_take (hd : d.length = drafts.length) (y : List (Fin vocabSize)) :
    (numbersLaw (drafts.numUniform before after) (before.length + 1 + after.length) ν).real
        {ω | (fun out => out.take y.length = tokenIds y ∧ y.length < out.length)
          (drafts.emitted target paddedVocabSize maxSpecLen before after temperature d bonus ω)} =
      if d.take y.length = y then
        (numbersLaw (drafts.numUniform before after) (before.length + 1 + after.length) ν).real
          {ω | ∀ k, ω.1 k ∈ drafts.reached target before after y k} else 0 := by
  have hiff : ∀ ω, (fun out => out.take y.length = tokenIds y ∧ y.length < out.length)
        (drafts.emitted target paddedVocabSize maxSpecLen before after temperature d bonus ω) ↔
      d.take y.length = y ∧ ∀ k, ω.1 k ∈ drafts.reached target before after y k := by
    intro ω
    obtain ⟨l, hl, hlength, hat⟩ := emitted_eq hbefore hafter htemperature hle target
      paddedVocabSize bonus hd ω
    have htake := (take_emit_iff (tokenIds y) l bonus).1
    rw [length_tokenIds, map_tokenIds, take_accepted_iff hd hlength hat] at htake
    rw [hl]
    exact htake
  simp only [hiff]
  split_ifs with hy
  · simp [hy, true_and]
  · simp only [hy, false_and]
    exact measureReal_empty

variable [IsProbabilityMeasure ν]

/-- The probability that the next token is `x`. -/
theorem real_take_succ (hpadded : vocabSize ≤ paddedVocabSize) (hν : RaceLaw ν)
    (hd : d.length = drafts.length) (y : List (Fin vocabSize)) (x : Fin vocabSize) :
    (numbersLaw (drafts.numUniform before after) (before.length + 1 + after.length) ν).real
        {ω | (drafts.emitted target paddedVocabSize maxSpecLen before after temperature d bonus
          ω).take (y.length + 1) = tokenIds (y ++ [x])} = if d.take y.length = y then
        (numbersLaw (drafts.numUniform before after) (before.length + 1 + after.length) ν).real
          {ω | ∀ k, ω.1 k ∈ drafts.reached target before after y k} *
        (d[y.length]?).elim (if bonus = x then 1 else 0) fun t => drafts.stepProb target ν y t x
      else 0 := by
  have hiff : ∀ ω, (∀ i, 0 < ω.2 (requestIdx before after) i) →
      (ω ∈ {ω | (drafts.emitted target paddedVocabSize maxSpecLen before after temperature d bonus
        ω).take (y.length + 1) = tokenIds (y ++ [x])} ↔
      ω ∈ {ω | d.take y.length = y ∧ (∀ k, ω.1 k ∈ drafts.reached target before after y k) ∧
        if h : y.length < d.length then
          ω.1 (uniformIdx before after (hd ▸ h)) ∈ {u | drafts.Accepts target y d[y.length] u} ∧
              ω.2 (requestIdx before after) ∈ {q | d[y.length] = x} ∨
            ω.1 (uniformIdx before after (hd ▸ h)) ∉ {u | drafts.Accepts target y d[y.length] u} ∧
              ω.2 (requestIdx before after) ∈ {q | argmax (ofFn fun i =>
                drafts.recovered target y d[y.length] i / q i) = x}
        else bonus = x}) := by
    intro ω hpos
    rw [mem_ofPred_eq, mem_ofPred_eq]
    obtain ⟨l, hl, hlength, hat⟩ := emitted_eq hbefore hafter htemperature hle target
      paddedVocabSize bonus hd ω
    have htake := (take_emit_iff (tokenIds y) l bonus).2 x
    have happend : tokenIds y ++ [(x : ℤ)] = tokenIds (y ++ [x]) := by
      rw [tokenIds, tokenIds, map_append]
      rfl
    rw [length_tokenIds, map_tokenIds, take_accepted_iff hd hlength hat, happend] at htake
    rw [hl, htake, and_assoc]
    refine and_congr_right fun hy => and_congr_right fun _ => ?_
    split_ifs with h
    · have hreplacement : drafts.replacement target paddedVocabSize y d[y.length]
          (ω.2 (requestIdx before after)) = argmax (ofFn fun i =>
            drafts.recovered target y d[y.length] i / ω.2 (requestIdx before after) i) := by
        unfold replacement
        rw [recoveredId_eq_argmax hpadded]
        · simp
        · intro i hi
          rw [dif_pos hi]
          exact drafts.recovered_nonneg target _ _ _
        · intro i hi
          rw [dif_pos hi]
          exact hpos _
      rw [hat _ h, elim_some, hy, hreplacement]
      split_ifs with haccepts
      · simp [haccepts, Fin.ext_iff]
      · simp [haccepts]
    · rw [getElem?_eq_none (by rw [hlength]; exact not_lt.1 h)]
      simp [Fin.ext_iff]
  have hae := numbersLaw_ae (n := drafts.numUniform before after) hν.pos (requestIdx before after)
  rw [measureReal_congr (Filter.eventuallyEq_set.2 (hae.mono hiff))]
  -- the tokens so far must be draft tokens
  by_cases hy : d.take y.length = y
  · rw [if_pos hy]
    -- the next token is decided at a draft token, or it is the bonus token
    by_cases h : y.length < d.length
    · have hor := numbersLaw_accept_or (ν := ν) (s := drafts.reached target before after y)
        (j := uniformIdx before after (hd ▸ h)) ?_ (drafts.measurableSet_accepts target y d[y.length])
        (requestIdx before after) {q | d[y.length] = x}
        {q | argmax (ofFn fun i => drafts.recovered target y d[y.length] i / q i) = x}
      · rw [getElem?_eq_getElem h, elim_some, stepProb, ← drafts.uniformLaw_real_accepts target y]
        have hdraw : ν.real {q : Fin vocabSize → ℝ | d[y.length] = x} =
            if d[y.length] = x then 1 else 0 := by
          split_ifs with hx
          · simp [hx]
          · simp [hx]
        rw [← hdraw, ← hor]
        refine congrArg _ (ext fun ω => ?_)
        rw [mem_ofPred_eq, mem_ofPred_eq, dif_pos]
        exact and_iff_right hy
      · -- no condition is about the number of this position
        refine eq_univ_of_forall fun u pos hpos hk => ?_
        have : (before.map (·.draftTokenIds.length)).sum + y.length =
          (before.map (·.draftTokenIds.length)).sum + pos := hk
        omega
    · rw [getElem?_eq_none (not_lt.1 h), elim_none]
      by_cases hx : bonus = x
      · rw [if_pos hx, mul_one]
        refine congrArg _ (ext fun ω => ?_)
        rw [mem_ofPred_eq, mem_ofPred_eq, dif_neg h]
        simp [hy, hx]
      · rw [if_neg hx, mul_zero]
        simp [h, hx]
  · simp [hy]

/-- Given the tokens `y`, and that there are more, the next token has the target distribution. -/
theorem prob_take_succ (hpadded : vocabSize ≤ paddedVocabSize) (hν : RaceLaw ν)
    (y : List (Fin vocabSize)) (x : Fin vocabSize) :
    drafts.prob target paddedVocabSize maxSpecLen before after temperature ν
        (fun out => out.take (y.length + 1) = tokenIds (y ++ [x])) =
      drafts.prob target paddedVocabSize maxSpecLen before after temperature ν
        (fun out => out.take y.length = tokenIds y ∧ y.length < out.length) * (target y).1 x := by
  obtain ⟨c, hc⟩ : ∃ c, (numbersLaw (drafts.numUniform before after)
      (before.length + 1 + after.length) ν).real
        {ω | ∀ k, ω.1 k ∈ drafts.reached target before after y k} = c := ⟨_, rfl⟩
  have hpre : drafts.prob target paddedVocabSize maxSpecLen before after temperature ν
      (fun out => out.take y.length = tokenIds y ∧ y.length < out.length) =
        drafts.expect (fun d => if d.take y.length = y then 1 else 0) * c := by
    rw [← expect_mul]
    refine expect_congr fun d hd => ?_
    simp only [real_take hbefore hafter htemperature hle hd, hc, sum_target_mul]
    rw [ite_mul, one_mul, zero_mul]
  have hnext : ∀ d : List (Fin vocabSize), d.length = drafts.length →
      ∑ bonus, (target d).1 bonus * (numbersLaw (drafts.numUniform before after)
        (before.length + 1 + after.length) ν).real {ω | (drafts.emitted target paddedVocabSize maxSpecLen
          before after temperature d bonus ω).take (y.length + 1) = tokenIds (y ++ [x])} =
        (if d.take y.length = y then
          (d[y.length]?).elim ((target d).1 x) fun t => drafts.stepProb target ν y t x else 0) * c := by
    intro d hd
    simp only [real_take_succ hbefore hafter htemperature hle hpadded hν hd, hc]
    split_ifs with hy
    · cases d[y.length]? with
      | none =>
        simp only [elim_none, mul_ite, mul_one, mul_zero]
        rw [Finset.sum_ite_eq' Finset.univ, if_pos (Finset.mem_univ x)]
      | some t =>
        simp only [elim_some, sum_target_mul]
        rw [mul_comm]
    · simp
  rw [hpre, mul_right_comm]
  refine (expect_congr hnext).trans ((expect_mul _ _).trans (congrArg (· * c) ?_))
  by_cases hy : y.length < drafts.length
  · rw [← expect_stepProb hν y x hy]
    refine expect_congr fun d hd => ?_
    rw [getElem?_eq_getElem (hd ▸ hy)]
    rfl
  · -- all of the draft tokens are accepted
    rw [← expect_mul]
    refine expect_congr fun d hd => ?_
    rw [getElem?_eq_none (hd ▸ not_lt.1 hy), take_of_length_le (hd ▸ not_lt.1 hy)]
    split_ifs with htake
    · rw [htake, one_mul, elim_none]
    · rw [zero_mul]

end

end Drafts

/-! ### Both kinds of requests -/

/-- The tokens of a greedy request: the target argmaxes up to the first that is not the draft token. -/
theorem tokens_of_greedy {r : SpecRow ℝ} (h : r.temperature = 0) (paddedVocabSize vocabSize : ℕ)
    (hasDraftProbs : Bool) (uniformProbs q : ℕ → ℝ) : ((∀ pos < r.draftTokenIds.length,
        r.draftTokenIds.getD pos 0 = argmax (r.targetProbs.getD pos [])) →
      r.tokens paddedVocabSize vocabSize hasDraftProbs uniformProbs q =
        ((range r.draftTokenIds.length).map fun pos =>
          (argmax (r.targetProbs.getD pos []) : ℤ)) ++ [(r.bonusTokenId : ℤ)]) ∧
    ∀ k < r.draftTokenIds.length, (∀ pos < k,
        r.draftTokenIds.getD pos 0 = argmax (r.targetProbs.getD pos [])) →
      r.draftTokenIds.getD k 0 ≠ argmax (r.targetProbs.getD k []) →
      r.tokens paddedVocabSize vocabSize hasDraftProbs uniformProbs q =
        (range (k + 1)).map fun pos => (argmax (r.targetProbs.getD pos []) : ℤ) := by
  unfold tokens
  rw [if_pos h]
  constructor
  · intro hall
    rw [emit_of_accepted]
    · rw [greedyTokens, List.map_map]
      rfl
    · intro x hx
      obtain ⟨pos, hpos, rfl⟩ := List.mem_map.1 hx
      exact decide_eq_false (not_not.2 (hall pos (mem_range.1 hpos)))
  · intro k hk hbefore hne
    obtain ⟨m, hm⟩ := Nat.exists_eq_add_of_lt hk
    have hsplit : range r.draftTokenIds.length = range k ++ k :: (range m).map (k + 1 + ·) := by
      rw [hm, add_assoc, add_comm m, ← add_assoc, range_add, range_succ, append_assoc]
      rfl
    rw [greedyTokens, hsplit, map_append, map_cons, emit_of_rejected]
    · rw [range_succ, map_append, List.map_map]
      rfl
    · intro x hx
      obtain ⟨pos, hpos, rfl⟩ := List.mem_map.1 hx
      exact decide_eq_false (not_not.2 (hbefore pos (mem_range.1 hpos)))
    · exact decide_eq_true hne

open Drafts in
/-- Whatever the other requests of the batch are: a greedy request gets the target argmaxes up to and
including the first that is not the draft token, and the bonus token if there is none; given its first
tokens, the next token of another request has the target distribution. -/
theorem rejectionSample_keeps_target {vocabSize paddedVocabSize maxSpecLen : ℕ}
    (hpadded : vocabSize ≤ paddedVocabSize) :
    (∀ (hasDraftProbs : Bool) (rows : List (SpecRow ℝ)) (uniformProbs q : List ℝ) (reqIdx : ℕ)
        (h : reqIdx < rows.length),
      (∀ r ∈ rows, r.Fits vocabSize maxSpecLen hasDraftProbs) → rows[reqIdx].temperature = 0 →
      let out := outputTokens maxSpecLen (rejectionSample
        (tensorsOf vocabSize paddedVocabSize maxSpecLen hasDraftProbs rows) uniformProbs q) reqIdx
      let drafts := rows[reqIdx].draftTokenIds
      let targetArgmax := fun pos => argmax (rows[reqIdx].targetProbs.getD pos [])
      ((∀ pos < drafts.length, drafts.getD pos 0 = targetArgmax pos) →
        out = ((range drafts.length).map fun pos => (targetArgmax pos : ℤ)) ++
          [(rows[reqIdx].bonusTokenId : ℤ)]) ∧
      ∀ k < drafts.length, (∀ pos < k, drafts.getD pos 0 = targetArgmax pos) →
        drafts.getD k 0 ≠ targetArgmax k →
        out = (range (k + 1)).map fun pos => (targetArgmax pos : ℤ)) ∧
    ∀ (ν : Measure (Fin vocabSize → ℝ)) [IsProbabilityMeasure ν] (drafts : Drafts vocabSize)
        (target : List (Fin vocabSize) → TokenDistribution vocabSize) (temperature : ℝ)
        (before after : List (SpecRow ℝ)),
      RaceLaw ν → (∀ r ∈ before, r.Fits vocabSize maxSpecLen drafts.hasProbs) →
      (∀ r ∈ after, r.Fits vocabSize maxSpecLen drafts.hasProbs) → temperature ≠ 0 →
      drafts.length ≤ maxSpecLen → ∀ (y : List (Fin vocabSize)) (x : Fin vocabSize),
      drafts.prob target paddedVocabSize maxSpecLen before after temperature ν
          (fun out => out.take (y.length + 1) = tokenIds (y ++ [x])) =
        drafts.prob target paddedVocabSize maxSpecLen before after temperature ν
          (fun out => out.take y.length = tokenIds y ∧ y.length < out.length) * (target y).1 x := by
  refine ⟨fun hasDraftProbs rows uniformProbs q reqIdx h hfits hgreedy => ?_, ?_⟩
  · simp only [outputTokens_rejectionSample hfits uniformProbs q h]
    exact tokens_of_greedy hgreedy _ _ _ _ _
  · intro ν _ drafts target temperature before after hν hbefore hafter htemperature hle y x
    exact prob_take_succ hbefore hafter htemperature hle hpadded hν y x

/-- Two numbers of which `argmax(prob / q)` makes a pick by one uniform number. -/
noncomputable def twoRace : Measure (Fin 2 → ℝ) := uniformLaw.map fun u => ![1, 1 / u - 1]

theorem measurable_twoRace : Measurable fun u : ℝ => ![1, 1 / u - 1] := by
  refine measurable_pi_lambda _ fun i => ?_
  fin_cases i
  · exact measurable_const
  · exact (measurable_const.div measurable_id).sub_const 1

instance : IsProbabilityMeasure twoRace :=
  Measure.isProbabilityMeasure_map measurable_twoRace.aemeasurable

theorem raceLaw_two : RaceLaw twoRace := by
  have hmem : ∀ᵐ u ∂uniformLaw, 0 < u ∧ u < 1 := by
    have hzero : ∀ᵐ u ∂uniformLaw, u ≠ 0 :=
      ae_restrict_of_ae (measure_eq_zero_iff_ae_notMem.1 (Real.volume_singleton))
    filter_upwards [ae_restrict_mem measurableSet_Ico, hzero] with u hu hne
    exact ⟨lt_of_le_of_ne hu.1 hne.symm, hu.2⟩
  have hpos : ∀ u : ℝ, 0 < u ∧ u < 1 → 0 < 1 / u - 1 := fun u hu =>
    sub_pos.2 (by rw [lt_div_iff₀ hu.1, one_mul]; exact hu.2)
  refine ⟨?_, fun prob hprob hsum x => ?_⟩
  · have hset : MeasurableSet {q : Fin 2 → ℝ | ∀ i, 0 < q i} := by
      rw [ofPred_forall]
      exact MeasurableSet.iInter fun i => measurableSet_lt measurable_const (measurable_pi_apply i)
    refine (ae_map_iff measurable_twoRace.aemeasurable hset).2 (hmem.mono fun u hu i => ?_)
    fin_cases i
    · exact one_pos
    · exact hpos u hu
  · rw [Fin.sum_univ_two] at hsum ⊢
    have hone : ∀ q : Fin 2 → ℝ, argmax (ofFn fun i => prob i / q i) =
        if prob 0 / q 0 < prob 1 / q 1 then 1 else 0 := by
      intro q
      rfl
    have hmeasurable : MeasurableSet {q : Fin 2 → ℝ | prob 0 / q 0 < prob 1 / q 1} :=
      measurableSet_lt (measurable_const.div (measurable_pi_apply 0))
        (measurable_const.div (measurable_pi_apply 1))
    have hhi : twoRace.real {q : Fin 2 → ℝ | prob 0 / q 0 < prob 1 / q 1} =
        prob 1 / (prob 0 + prob 1) := by
      have hbound : 0 ≤ prob 0 / (prob 0 + prob 1) := div_nonneg (hprob 0) hsum.le
      have hle : prob 0 / (prob 0 + prob 1) ≤ 1 :=
        (div_le_one hsum).2 (le_add_of_nonneg_right (hprob 1))
      have hcompl : uniformLaw.real (Set.Iic (prob 0 / (prob 0 + prob 1)))ᶜ =
          prob 1 / (prob 0 + prob 1) := by
        rw [probReal_compl_eq_one_sub measurableSet_Iic, uniformLaw_real_Iic hbound, min_eq_right hle]
        field_simp
        ring
      rw [twoRace, map_measureReal_apply measurable_twoRace hmeasurable, ← hcompl]
      refine measureReal_congr (Filter.eventuallyEq_set.2 (hmem.mono fun u hu => ?_))
      have hlt : prob 0 / 1 < prob 1 / (1 / u - 1) ↔ prob 0 / (prob 0 + prob 1) < u := by
        rw [div_one, lt_div_iff₀ (hpos u hu), div_lt_iff₀ hsum, mul_sub, mul_one_div,
          sub_lt_iff_lt_add, div_lt_iff₀ hu.1]
        ring_nf
      exact hlt.trans (not_le.symm)
    fin_cases x
    · have hset : {q : Fin 2 → ℝ | argmax (ofFn fun i => prob i / q i) = 0} =
          {q : Fin 2 → ℝ | prob 0 / q 0 < prob 1 / q 1}ᶜ := by
        ext q
        rw [mem_ofPred_eq, hone]
        split_ifs with h <;> simp [h]
      refine (congrArg twoRace.real hset).trans ?_
      rw [probReal_compl_eq_one_sub hmeasurable, hhi]
      field_simp
      change _ = prob 0
      ring
    · have hset : {q : Fin 2 → ℝ | argmax (ofFn fun i => prob i / q i) = 1} =
          {q : Fin 2 → ℝ | prob 0 / q 0 < prob 1 / q 1} := by
        ext q
        rw [mem_ofPred_eq, hone]
        split_ifs with h <;> simp [h]
      exact (congrArg twoRace.real hset).trans hhi

/-- The uniform distribution of two tokens. -/
noncomputable def coin : TokenDistribution 2 :=
  ⟨fun _ => 1 / 2, fun _ => by norm_num, by rw [Fin.sum_univ_two]; norm_num⟩

/-- A greedy request whose second draft token is not the argmax, and a request with a draft token that
is drawn with it in the batch. -/
theorem rejectionSample_keeps_target_two :
    outputTokens 2 (rejectionSample (tensorsOf 2 2 2 false [(⟨[1, 0], [], [[0, 1], [0, 1]], 1, 0⟩ :
      SpecRow ℝ)]) [] []) 0 = [1, 1] ∧
    (Drafts.drawn (fun _ => coin) 1).prob (fun _ => coin) 2 2 [] [] 1 twoRace
        (fun out => out.take 1 = [0]) =
      (Drafts.drawn (fun _ => coin) 1).prob (fun _ => coin) 2 2 [] [] 1 twoRace
        (fun out => out.take 0 = [] ∧ 0 < out.length) * (1 / 2) := by
  constructor
  · have hargmax : argmax [(0 : ℝ), 1] = 1 := by simp [argmax, argmaxFrom]
    have hfits : ∀ r ∈ [(⟨[1, 0], [], [[0, 1], [0, 1]], 1, 0⟩ : SpecRow ℝ)], r.Fits 2 2 false := by
      intro r hr
      rw [mem_singleton.1 hr]
      exact ⟨by decide, by decide, rfl, by simp, fun h => absurd h Bool.false_ne_true,
        fun h => absurd h Bool.false_ne_true⟩
    have hgreedy := ((@rejectionSample_keeps_target 2 2 2 (le_refl 2)).1 false _ [] [] 0
      (by decide) hfits rfl).2 1 (by decide) ?_ ?_
    · exact hgreedy.trans (by simp [range_succ, hargmax])
    · intro pos hpos
      obtain rfl := Nat.lt_one_iff.1 hpos
      simp [hargmax]
    · simp [hargmax]
  · have hnone : ∀ r ∈ ([] : List (SpecRow ℝ)), r.Fits 2 2 true := fun r hr => absurd hr not_mem_nil
    exact (@rejectionSample_keeps_target 2 2 2 (le_refl 2)).2 twoRace
      (Drafts.drawn (fun _ => coin) 1) (fun _ => coin) 1 [] [] raceLaw_two hnone hnone one_ne_zero
      (by decide) [] 0

end LoptVllm.SpecDecode
