import LoptVllm.SpecDecode.RejectionSampler

/-!
# The rows of the rejection sampler

What the kernels leave in the row of a request depends on this request only.
-/

namespace LoptVllm.SpecDecode

open List Or Nat SpecRow

/-- The tokens up to the first rejected one, and the bonus token if none is rejected. -/
def emit : List (ℤ × Bool) → ℤ → List ℤ
  | [], bonus => [bonus]
  | (token, rejected) :: l, bonus => if rejected then [token] else token :: emit l bonus

theorem length_emit (l : List (ℤ × Bool)) (bonus : ℤ) : (emit l bonus).length ≤ l.length + 1 := by
  induction l with
  | nil => exact le_refl 1
  | cons x l ih =>
    unfold emit
    split_ifs
    · exact le_add_left _ _
    · exact succ_le_succ ih

variable {l : List (ℤ × Bool)}

theorem mem_emit {bonus token : ℤ} (h : token ∈ emit l bonus) :
    token = bonus ∨ ∃ x ∈ l, token = x.1 := by
  induction l with
  | nil => exact inl (mem_singleton.1 h)
  | cons x l ih =>
    unfold emit at h
    split_ifs at h
    · exact inr ⟨x, .head _, mem_singleton.1 h⟩
    · rcases mem_cons.1 h with rfl | h
      · exact inr ⟨x, .head _, rfl⟩
      · obtain hb | ⟨y, hy, heq⟩ := ih h
        · exact inl hb
        · exact inr ⟨y, .tail _ hy, heq⟩

/-- The first tokens are `ys` and there are more if and only if the first tokens are accepted; when the
next one is `z`. -/
theorem take_emit_iff (ys : List ℤ) (l : List (ℤ × Bool)) (bonus : ℤ) :
    ((emit l bonus).take ys.length = ys ∧ ys.length < (emit l bonus).length ↔
      l.take ys.length = ys.map fun token => (token, false)) ∧
    ∀ z, (emit l bonus).take (ys.length + 1) = ys ++ [z] ↔
      l.take ys.length = ys.map (fun token => (token, false)) ∧
        (l[ys.length]?).elim bonus Prod.fst = z := by
  induction ys generalizing l with
  | nil =>
    cases l with
    | nil => simp [emit]
    | cons x l =>
      rw [emit]
      split_ifs <;> simp
  | cons y ys ih =>
    cases l with
    | nil => simp [emit]
    | cons x l =>
      obtain ⟨token, rejected⟩ := x
      cases rejected with
      | true => simp [emit]
      | false =>
        obtain ⟨hlt, hsucc⟩ := ih l
        simp only [emit, Bool.false_eq_true, if_false, length_cons, take_succ_cons, cons_append,
          List.cons.injEq, succ_lt_succ_iff, map_cons, Prod.mk.injEq, and_true,
          getElem?_cons_succ]
        simp only [and_assoc, hlt, hsucc, implies_true, and_self]

theorem emit_of_accepted (h : ∀ x ∈ l, x.2 = false) (bonus : ℤ) :
    emit l bonus = l.map Prod.fst ++ [bonus] := by
  induction l with
  | nil => rfl
  | cons x l ih =>
    rw [emit, if_neg (by rw [h x mem_cons_self]; exact Bool.false_ne_true),
      ih fun y hy => h y (.tail _ hy)]
    rfl

/-- The tokens up to the first rejected one. -/
theorem emit_of_rejected {l' : List (ℤ × Bool)} (h : ∀ x ∈ l, x.2 = false) {y : ℤ × Bool}
    (hy : y.2 = true) (bonus : ℤ) : emit (l ++ y :: l') bonus = l.map Prod.fst ++ [y.1] := by
  induction l with
  | nil => rw [nil_append, emit, if_pos hy]; rfl
  | cons x l ih =>
    rw [cons_append, emit, if_neg (by rw [h x mem_cons_self]; exact Bool.false_ne_true),
      ih fun y hy => h y (.tail _ hy)]
    rfl

/-! ### The loop -/

theorem foldl_rejected {tokenAt : ℕ → ℤ × Bool} {base : ℕ} (ps : List ℕ) (out : List ℤ) :
    ps.foldl (fun (s : Bool × List ℤ) pos => if s.1 then s
      else ((tokenAt pos).2, s.2.set (base + pos) (tokenAt pos).1)) (true, out) = (true, out) := by
  induction ps with
  | nil => rfl
  | cons p ps ih => exact ih

theorem storeTokens_eq (base n : ℕ) (tokenAt : ℕ → ℤ × Bool) (bonus : ℤ) (out : List ℤ) :
    storeTokens base n tokenAt bonus out =
      overwrite out base (emit ((range n).map tokenAt) bonus) := by
  have hloop : ∀ (n k : ℕ) (out : List ℤ),
      (let s := (range' k n).foldl (fun (s : Bool × List ℤ) pos => if s.1 then s
        else ((tokenAt pos).2, s.2.set (base + pos) (tokenAt pos).1)) (false, out)
      if s.1 then s.2 else s.2.set (base + (k + n)) bonus) =
        overwrite out (base + k) (emit ((range' k n).map tokenAt) bonus) := by
    intro n
    induction n with
    | zero => exact fun k out => rfl
    | succ n ih =>
      intro k out
      rw [range'_succ, foldl_cons, map_cons, emit]
      cases hrejected : (tokenAt k).2 with
      | true =>
        simp only [Bool.false_eq_true, if_false, foldl_rejected]
        rfl
      | false =>
        have hnext := ih (k + 1) (out.set (base + k) (tokenAt k).1)
        rw [add_right_comm, add_assoc] at hnext
        exact hnext
  have h := hloop n 0 out
  rw [zero_add, ← range_eq_range'] at h
  exact h

/-! ### Offsets -/

section

variable {α K : Type}

theorem getD_flatMap (before after : List α) {row : α} (f : α → List K) (d : K) {pos : ℕ}
    (h : pos < (f row).length) :
    ((before ++ row :: after).flatMap f).getD ((before.map fun r => (f r).length).sum + pos) d =
      (f row).getD pos d := by
  rw [flatMap_append, flatMap_cons, getD_append_right]
  · rw [length_flatMap, Nat.add_sub_cancel_left, getD_append _ _ _ _ h]
  · rw [length_flatMap]
    exact le_add_right _ _

/-- An entry of a matrix in row-major order. -/
theorem getD_flatten {l : List (List K)} {n : ℕ} (hl : ∀ row ∈ l, row.length = n) (d : K) {i x : ℕ}
    (hx : x < n) : l.flatten.getD (i * n + x) d = (l.getD i []).getD x d := by
  induction l generalizing i with
  | nil => simp
  | cons row l ih =>
    have hrow := hl row (.head _)
    cases i with
    | zero =>
      rw [zero_mul, zero_add, flatten_cons, getD_append _ _ _ _ (hrow ▸ hx)]
      rfl
    | succ i =>
      rw [flatten_cons, getD_append_right _ _ _ _ (by rw [hrow, succ_mul]; omega), hrow,
        getD_cons_succ, ← ih fun row hmem => hl row (.tail _ hmem)]
      congr 1
      rw [succ_mul]
      omega

/-- The consecutive entries that are overwritten. -/
theorem getElem?_overwrite_self {l xs : List α} {i j : ℕ} (h : i + xs.length ≤ l.length)
    (hj : j < xs.length) : (overwrite l i xs)[i + j]? = xs[j]? := by
  have hblock := overwrite_block xs (l.take i) ((l.drop i).take xs.length) ((l.drop i).drop xs.length)
    (by rw [length_take, length_drop]; omega)
  rw [take_append_drop, take_append_drop, length_take, min_eq_left (by omega)] at hblock
  rw [hblock, getElem?_append_right (by rw [length_take]; omega), length_take,
    min_eq_left (by omega), Nat.add_sub_cancel_left, getElem?_append_left hj]

end

/-! ### Where the rows of a request are -/

section

variable {K : Type} {vocabSize paddedVocabSize maxSpecLen : ℕ} {hasDraftProbs : Bool}
  {rows : List (SpecRow K)}

/-- Where the rows of a request start. -/
def startOf (rows : List (SpecRow K)) (reqIdx : ℕ) : ℕ :=
  ((rows.take reqIdx).map (·.draftTokenIds.length)).sum

variable {reqIdx : ℕ}

theorem startOf_succ (h : reqIdx < rows.length) :
    startOf rows (reqIdx + 1) = startOf rows reqIdx + rows[reqIdx].draftTokenIds.length := by
  unfold startOf
  rw [take_succ_eq_append_getElem, map_append, sum_append_nat, map_singleton, sum_singleton]

theorem startOf_le {i j : ℕ} (h : i ≤ j) : startOf rows i ≤ startOf rows j := by
  unfold startOf
  rw [← take_append_drop i (rows.take j), take_take, min_eq_left h, map_append, sum_append_nat]
  exact le_add_right _ _

theorem startIdx_tensorsOf (h : reqIdx ≤ rows.length) :
    (tensorsOf vocabSize paddedVocabSize maxSpecLen hasDraftProbs rows).startIdx reqIdx =
      startOf rows reqIdx := by
  unfold Tensors.startIdx
  split_ifs with hzero
  · rw [hzero]
    rfl
  · obtain ⟨k, rfl⟩ := exists_eq_succ_of_ne_zero hzero
    have hk : k < (tensorsOf vocabSize paddedVocabSize maxSpecLen hasDraftProbs
        rows).cuNumDraftTokens.length := by
      simp only [tensorsOf, length_map, length_range]
      omega
    rw [succ_sub_one, getD_eq_getElem _ _ hk]
    simp [tensorsOf, startOf]

theorem numDrafts_tensorsOf (h : reqIdx < rows.length) :
    (tensorsOf vocabSize paddedVocabSize maxSpecLen hasDraftProbs rows).numDrafts reqIdx =
      rows[reqIdx].draftTokenIds.length := by
  unfold Tensors.numDrafts
  have hk : reqIdx < (tensorsOf vocabSize paddedVocabSize maxSpecLen hasDraftProbs
      rows).cuNumDraftTokens.length := by
    simp only [tensorsOf, length_map, length_range]
    omega
  have hcu : (tensorsOf vocabSize paddedVocabSize maxSpecLen hasDraftProbs
      rows).cuNumDraftTokens.getD reqIdx 0 = startOf rows (reqIdx + 1) := by
    rw [getD_eq_getElem _ _ hk]
    simp [tensorsOf, startOf]
  rw [hcu, startIdx_tensorsOf h.le, startOf_succ, Nat.add_sub_cancel_left]

/-- What is loaded from a tensor with an entry for each draft token. -/
theorem getD_segment {α : Type} (f : SpecRow K → List α)
    (hf : ∀ r ∈ rows, (f r).length = r.draftTokenIds.length) (d : α) {pos : ℕ}
    (h : reqIdx < rows.length) (hpos : pos < rows[reqIdx].draftTokenIds.length) :
    (rows.flatMap f).getD (startOf rows reqIdx + pos) d = (f rows[reqIdx]).getD pos d := by
  have hsplit : rows = rows.take reqIdx ++ rows[reqIdx] :: rows.drop (reqIdx + 1) := by
    rw [← drop_eq_getElem_cons, take_append_drop]
  have hstart : startOf rows reqIdx = ((rows.take reqIdx).map fun r => (f r).length).sum := by
    refine congrArg List.sum (map_congr_left fun r hr => ?_)
    exact (hf r (mem_of_mem_take hr)).symm
  have hload := getD_flatMap (rows.take reqIdx) (rows.drop (reqIdx + 1)) f d
    (show pos < (f rows[reqIdx]).length by rwa [hf _ (getElem_mem h)])
  rwa [← hsplit, ← hstart] at hload

end

/-! ### The rows of a request -/

section

variable {K : Type} [Field K] [LinearOrder K]

omit [Field K] in
theorem argmaxFrom_append {best : K} {idx i : ℕ} {l l' : List K} (h : ∀ x ∈ l', x ≤ best) :
    argmaxFrom best idx i (l ++ l') = argmaxFrom best idx i l := by
  induction l generalizing best idx i with
  | nil =>
    rw [nil_append, argmaxFrom]
    induction l' generalizing i with
    | nil => rfl
    | cons x l' ih =>
      rw [argmaxFrom, if_neg (not_lt.2 (h x mem_cons_self))]
      exact ih fun y hy => h y (.tail _ hy)
  | cons y l ih =>
    rw [cons_append, argmaxFrom, argmaxFrom]
    split_ifs with hy
    · exact ih fun x hx => (h x hx).trans hy.le
    · exact ih h

variable {paddedVocabSize vocabSize : ℕ}

/-- The padding is never picked. -/
theorem recoveredId_eq_argmax [IsStrictOrderedRing K]
    (hpadded : vocabSize ≤ paddedVocabSize) {prob q : ℕ → K} (hprob : ∀ i < vocabSize, 0 ≤ prob i)
    (hq : ∀ i < vocabSize, 0 < q i) : recoveredId paddedVocabSize vocabSize prob q =
      argmax (ofFn fun i : Fin vocabSize => prob i / q i) := by
  obtain ⟨m, rfl⟩ := Nat.exists_eq_add_of_le hpadded
  have hlist : ((range (vocabSize + m)).map fun i => if i < vocabSize then prob i / q i else 0) =
      (ofFn fun i : Fin vocabSize => prob i / q i) ++ replicate m 0 := by
    rw [range_add, map_append, map_map]
    congr 1
    · refine ext_getElem (by simp) fun i hi _ => ?_
      rw [length_map, length_range] at hi
      rw [getElem_map, getElem_range, List.getElem_ofFn, if_pos hi]
    · refine eq_replicate_iff.2 ⟨by simp, fun x hx => ?_⟩
      obtain ⟨i, -, rfl⟩ := mem_map.1 hx
      exact if_neg (by simp)
  have hzero : ∀ x ∈ replicate m (0 : K), x = 0 := fun x hx => eq_of_mem_replicate hx
  unfold recoveredId
  rw [hlist]
  rcases vocabSize with _ | n
  · rw [ofFn_zero, nil_append]
    rcases m with _ | m
    · rfl
    · have : argmaxFrom (0 : K) 0 1 ([] ++ replicate m 0) = argmaxFrom 0 0 1 [] :=
        argmaxFrom_append fun x hx => (eq_of_mem_replicate hx).le
      exact this
  · rw [ofFn_succ, cons_append]
    refine argmaxFrom_append fun x hx => ?_
    rw [hzero x hx]
    exact div_nonneg (hprob _ (succ_pos n)) (hq _ (succ_pos n)).le

theorem recoveredId_congr {prob prob' q q' : ℕ → K}
    (hprob : ∀ i < vocabSize, prob i = prob' i) (hq : ∀ i < vocabSize, q i = q' i) :
    recoveredId paddedVocabSize vocabSize prob q = recoveredId paddedVocabSize vocabSize prob' q' := by
  refine congrArg argmax (map_congr_left fun i _ => ?_)
  split_ifs with hi
  · rw [hprob i hi, hq i hi]
  · rfl

variable (r : SpecRow K)

/-- The target argmaxes of a request, and whether the drafts differ from them. -/
def SpecRow.greedyTokens : List (ℤ × Bool) :=
  (range r.draftTokenIds.length).map fun pos =>
    let targetArgmaxId := argmax (r.targetProbs.getD pos [])
    (targetArgmaxId, decide (r.draftTokenIds.getD pos 0 ≠ targetArgmaxId))

/-- The weights for the recovered token of a request at a position. -/
def SpecRow.recoveredWeight (hasDraftProbs : Bool) (pos i : ℕ) : K :=
  if hasDraftProbs then max ((r.targetProbs.getD pos []).getD i 0 - (r.draftProbs.getD pos []).getD i 0) 0
  else if i ≠ r.draftTokenIds.getD pos 0 then (r.targetProbs.getD pos []).getD i 0 else 0

/-- Whether the draft token at a position is accepted. -/
def SpecRow.Accepts (hasDraftProbs : Bool) (pos : ℕ) (uniformProb : K) : Prop :=
  let draftTokenId := r.draftTokenIds.getD pos 0
  let draftProb := if hasDraftProbs then (r.draftProbs.getD pos []).getD draftTokenId 0 else 1
  draftProb > 0 ∧ (r.targetProbs.getD pos []).getD draftTokenId 0 / draftProb ≥ uniformProb

instance (r : SpecRow K) (hasDraftProbs : Bool) (pos : ℕ) (uniformProb : K) :
    Decidable (r.Accepts hasDraftProbs pos uniformProb) := inferInstanceAs (Decidable (_ ∧ _))

/-- The tokens of a random request, accepted or recovered. -/
def SpecRow.randomTokens (r : SpecRow K) (paddedVocabSize vocabSize : ℕ) (hasDraftProbs : Bool)
    (uniformProbs q : ℕ → K) : List (ℤ × Bool) :=
  (range r.draftTokenIds.length).map fun pos =>
    if r.Accepts hasDraftProbs pos (uniformProbs pos) then (r.draftTokenIds.getD pos 0, false)
    else (recoveredId paddedVocabSize vocabSize (r.recoveredWeight hasDraftProbs pos) q, true)

/-! ### The recovered tokens -/

variable {vocabSize paddedVocabSize maxSpecLen : ℕ} {hasDraftProbs : Bool} {rows : List (SpecRow K)}
  {reqIdx pos : ℕ}

section

omit [LinearOrder K]

/-- A probability of a draft position. -/
theorem getD_flatten_flatMap (f : SpecRow K → List (List K))
    (hf : ∀ r ∈ rows, (f r).length = r.draftTokenIds.length)
    (hwidth : ∀ r ∈ rows, ∀ l ∈ f r, l.length = vocabSize) {x : ℕ} (h : reqIdx < rows.length)
    (hpos : pos < rows[reqIdx].draftTokenIds.length) (hx : x < vocabSize) :
    (rows.flatMap f).flatten.getD ((startOf rows reqIdx + pos) * vocabSize + x) 0 =
      ((f rows[reqIdx]).getD pos []).getD x 0 := by
  rw [getD_flatten (fun l hl => ?_) 0 hx, getD_segment f hf [] h hpos]
  obtain ⟨r, hr, hl⟩ := mem_flatMap.1 hl
  exact hwidth r hr l hl

theorem targetProbs_tensorsOf (paddedVocabSize : ℕ)
    (hfits : ∀ r ∈ rows, r.Fits vocabSize maxSpecLen hasDraftProbs) {x : ℕ}
    (h : reqIdx < rows.length) (hpos : pos < rows[reqIdx].draftTokenIds.length)
    (hx : x < vocabSize) :
    (tensorsOf vocabSize paddedVocabSize maxSpecLen hasDraftProbs rows).targetProbs.getD
        ((startOf rows reqIdx + pos) * vocabSize + x) 0 =
      (rows[reqIdx].targetProbs.getD pos []).getD x 0 :=
  getD_flatten_flatMap _ (fun r hr => (hfits r hr).length_targetProbs)
    (fun r hr => (hfits r hr).targetProbs) h hpos hx

theorem draftProbs_tensorsOf (hfits : ∀ r ∈ rows, r.Fits vocabSize maxSpecLen hasDraftProbs)
    (hdraft : hasDraftProbs = true) {x : ℕ} (h : reqIdx < rows.length)
    (hpos : pos < rows[reqIdx].draftTokenIds.length) (hx : x < vocabSize) :
    (rows.flatMap (·.draftProbs)).flatten.getD ((startOf rows reqIdx + pos) * vocabSize + x) 0 =
      (rows[reqIdx].draftProbs.getD pos []).getD x 0 :=
  getD_flatten_flatMap _ (fun r hr => (hfits r hr).length_draftProbs hdraft)
    (fun r hr => (hfits r hr).draftProbs hdraft) h hpos hx

end

omit [Field K] [LinearOrder K] in
theorem draftTokenIds_tensorsOf (h : reqIdx < rows.length)
    (hpos : pos < rows[reqIdx].draftTokenIds.length) :
    (tensorsOf vocabSize paddedVocabSize maxSpecLen hasDraftProbs rows).draftTokenIds.getD
        (startOf rows reqIdx + pos) 0 = rows[reqIdx].draftTokenIds.getD pos 0 :=
  getD_segment (·.draftTokenIds) (fun _ _ => rfl) 0 h hpos

/-- The weights that the kernel computes are those of the request. -/
theorem recoveredProb_tensorsOf (hfits : ∀ r ∈ rows, r.Fits vocabSize maxSpecLen hasDraftProbs)
    {i : ℕ} (h : reqIdx < rows.length) (hpos : pos < rows[reqIdx].draftTokenIds.length)
    (hi : i < vocabSize) :
    recoveredProb (tensorsOf vocabSize paddedVocabSize maxSpecLen hasDraftProbs rows) reqIdx pos i =
      rows[reqIdx].recoveredWeight hasDraftProbs pos i := by
  have hvocab : (tensorsOf vocabSize paddedVocabSize maxSpecLen hasDraftProbs rows).vocabSize =
      vocabSize := rfl
  unfold recoveredProb recoveredWeight
  rw [startIdx_tensorsOf h.le, hvocab, targetProbs_tensorsOf paddedVocabSize hfits h hpos hi,
    draftTokenIds_tensorsOf h hpos]
  cases hdraft : hasDraftProbs with
  | false => simp [tensorsOf, hi]
  | true =>
    subst hdraft
    show max ((if i < vocabSize then _ else 0) - (if i < vocabSize then
      (rows.flatMap (·.draftProbs)).flatten.getD ((startOf rows reqIdx + pos) * vocabSize + i) 0
      else 0)) 0 = _
    rw [if_pos hi, if_pos hi, draftProbs_tensorsOf hfits rfl h hpos hi]
    rfl

/-- The positions of a request are consecutive entries. -/
theorem foldl_sampleRecoveredTokensKernel (q : List K) (h : reqIdx < rows.length)
    (hle : rows[reqIdx].draftTokenIds.length ≤ maxSpecLen) (out : List ℕ) :
    (range maxSpecLen).foldl (fun out pos => sampleRecoveredTokensKernel
        (tensorsOf vocabSize paddedVocabSize maxSpecLen hasDraftProbs rows) q reqIdx pos out) out =
      overwrite out (startOf rows reqIdx) ((range rows[reqIdx].draftTokenIds.length).map fun pos =>
        recoveredId paddedVocabSize vocabSize
          (recoveredProb (tensorsOf vocabSize paddedVocabSize maxSpecLen hasDraftProbs rows) reqIdx pos)
          fun i => q.getD (reqIdx * vocabSize + i) 0) := by
  set T := tensorsOf vocabSize paddedVocabSize maxSpecLen hasDraftProbs rows
  set id := fun pos => recoveredId paddedVocabSize vocabSize (recoveredProb T reqIdx pos)
    fun i => q.getD (reqIdx * vocabSize + i) 0
  have hkernel : ∀ pos out, sampleRecoveredTokensKernel T q reqIdx pos out =
      if rows[reqIdx].draftTokenIds.length ≤ pos then out
      else out.set (startOf rows reqIdx + pos) (id pos) := by
    intro pos out
    unfold sampleRecoveredTokensKernel
    rw [numDrafts_tensorsOf, startIdx_tensorsOf h.le]
    rfl
  simp only [hkernel]
  -- the positions after the last draft are skipped
  have hfold : ∀ n, (range n).foldl (fun out pos =>
      if rows[reqIdx].draftTokenIds.length ≤ pos then out
      else out.set (startOf rows reqIdx + pos) (id pos)) out =
      overwrite out (startOf rows reqIdx)
        ((range (min n rows[reqIdx].draftTokenIds.length)).map id) := by
    intro n
    induction n with
    | zero => rfl
    | succ n ih =>
      rw [range_succ, foldl_append, ih, foldl_cons, foldl_nil]
      split_ifs with hn
      · rw [min_eq_right hn, min_eq_right (le_succ_of_le hn)]
      · rw [min_eq_left (by omega), min_eq_left (by omega), range_succ, map_append,
          overwrite_append, length_map, length_range]
        rfl
  rw [hfold, min_eq_right hle]

theorem sampleRecoveredTokens_tensorsOf
    (hfits : ∀ r ∈ rows, r.Fits vocabSize maxSpecLen hasDraftProbs) (q : List K)
    (h : reqIdx < rows.length) (hpos : pos < rows[reqIdx].draftTokenIds.length) :
    (sampleRecoveredTokens (tensorsOf vocabSize paddedVocabSize maxSpecLen hasDraftProbs rows) q).getD
        (startOf rows reqIdx + pos) 0 =
      recoveredId paddedVocabSize vocabSize (rows[reqIdx].recoveredWeight hasDraftProbs pos)
        fun i => q.getD (reqIdx * vocabSize + i) 0 := by
  set T := tensorsOf vocabSize paddedVocabSize maxSpecLen hasDraftProbs rows
  have hlength : (rows.flatMap (·.draftTokenIds)).length = startOf rows rows.length := by
    rw [length_flatMap, startOf, take_length]
  have hrounds : ∀ n ≤ rows.length, ∀ out : List ℕ, out.length = startOf rows rows.length →
      ((range n).foldl (fun out reqIdx => (range maxSpecLen).foldl (fun out pos =>
        sampleRecoveredTokensKernel T
          q reqIdx pos out) out) out).length = startOf rows rows.length ∧
      (reqIdx < n → ((range n).foldl (fun out reqIdx => (range maxSpecLen).foldl (fun out pos =>
        sampleRecoveredTokensKernel T
          q reqIdx pos out) out) out)[startOf rows reqIdx + pos]? = some (recoveredId paddedVocabSize
        vocabSize (recoveredProb T reqIdx pos) fun i => q.getD (reqIdx * vocabSize + i) 0)) := by
    intro n hn out hout
    induction n with
    | zero => exact ⟨hout, fun hlt => absurd hlt (not_lt_zero _)⟩
    | succ n ih =>
      obtain ⟨hlen, hold⟩ := ih (le_of_succ_le hn)
      have hsucc := startOf_succ hn
      have hend : startOf rows (n + 1) ≤ startOf rows rows.length := startOf_le hn
      rw [range_succ, foldl_append, foldl_cons, foldl_nil,
        foldl_sampleRecoveredTokensKernel q hn (hfits _ (getElem_mem hn)).length_le]
      refine ⟨by rw [length_overwrite, hlen], fun hlt => ?_⟩
      rcases Nat.lt_succ_iff_lt_or_eq.1 hlt with hlt | rfl
      · rw [getElem?_overwrite _ _ _]
        · exact hold hlt
        · have := startOf_succ h
          have hle : startOf rows (reqIdx + 1) ≤ startOf rows n := startOf_le hlt
          omega
      · rw [getElem?_overwrite_self (by rw [hlen, length_map, length_range]; omega)
          (by rwa [length_map, length_range]), getElem?_map, getElem?_range hpos]
        rfl
  have hat := (hrounds rows.length (le_refl _) ((rows.flatMap (·.draftTokenIds)).map fun _ => 0)
    (by rw [length_map, hlength])).2 h
  have hbatch : T.numDraftTokens.length = rows.length := length_map _
  unfold sampleRecoveredTokens
  rw [hbatch, getD_eq_getElem?_getD]
  refine (congrArg (Option.getD · 0) hat).trans ?_
  exact recoveredId_congr (fun i hi => recoveredProb_tensorsOf hfits h hpos hi) fun i _ => rfl

/-! ### The output -/

variable {out : List ℤ}

/-- The kernels of all requests: each of them writes to its own row, or is skipped. -/
theorem getElem?_launch {kernel : ℕ → List ℤ → List ℤ} {skip : ℕ → Bool} {tokens : ℕ → List ℤ}
    {width n : ℕ} (hkernel : ∀ reqIdx < n, ∀ out,
      kernel reqIdx out = if skip reqIdx then out else overwrite out (reqIdx * width) (tokens reqIdx))
    (htokens : ∀ reqIdx < n, (tokens reqIdx).length ≤ width) (hout : n * width ≤ out.length) {j : ℕ}
    (h : reqIdx < n) (hj : j < width) :
    ((range n).foldl (fun out reqIdx => kernel reqIdx out) out).length = out.length ∧
    ((range n).foldl (fun out reqIdx => kernel reqIdx out) out)[reqIdx * width + j]? =
      if skip reqIdx = true ∨ (tokens reqIdx).length ≤ j then out[reqIdx * width + j]?
      else (tokens reqIdx)[j]? := by
  -- the row is written by its own kernel only
  have hrounds : ∀ m ≤ n,
      ((range m).foldl (fun out reqIdx => kernel reqIdx out) out).length = out.length ∧
      ((range m).foldl (fun out reqIdx => kernel reqIdx out) out)[reqIdx * width + j]? =
        if m ≤ reqIdx ∨ skip reqIdx = true ∨ (tokens reqIdx).length ≤ j then
          out[reqIdx * width + j]?
        else (tokens reqIdx)[j]? := by
    intro m hm
    induction m with
    | zero => exact ⟨rfl, (if_pos (inl (zero_le _))).symm⟩
    | succ m ih =>
      obtain ⟨hlength, hold⟩ := ih (le_of_succ_le hm)
      have hrow := htokens m hm
      have hend : m * width + width ≤ out.length := by
        rw [← succ_mul]
        exact (mul_le_mul_right _ hm).trans hout
      rw [range_succ, foldl_append, foldl_cons, foldl_nil, hkernel m hm]
      cases hskip : skip m with
      | true =>
        refine ⟨hlength, hold.trans ?_⟩
        rcases lt_trichotomy reqIdx m with hlt | rfl | hlt
        · simp [not_le.2 hlt, not_le.2 (lt_succ_of_lt hlt)]
        · rw [if_pos (inl (le_refl _)), if_pos (inr (inl hskip))]
        · rw [if_pos (inl hlt.le)]
          exact (if_pos (inl hlt)).symm
      | false =>
        rw [if_neg Bool.false_ne_true]
        refine ⟨by rw [length_overwrite, hlength], ?_⟩
        rcases lt_trichotomy reqIdx m with hlt | rfl | hlt
        · have hrows : (reqIdx + 1) * width ≤ m * width := mul_le_mul_right _ hlt
          rw [succ_mul] at hrows
          rw [getElem?_overwrite _ _ _ (inl (by omega)), hold]
          simp [not_le.2 hlt, not_le.2 (lt_succ_of_lt hlt)]
        · by_cases hlong : (tokens reqIdx).length ≤ j
          · rw [getElem?_overwrite _ _ _ (inr (by omega)), hold,
              if_pos (inl (le_refl _)), if_pos (inr (inr hlong))]
          · rw [getElem?_overwrite_self (by omega) (by omega), if_neg]
            simp only [hskip, hlong, Bool.false_eq_true, or_false]
            omega
        · have hrows : (m + 1) * width ≤ reqIdx * width := mul_le_mul_right _ hlt
          rw [succ_mul] at hrows
          rw [getElem?_overwrite _ _ _ (inr (by omega)), hold, if_pos (inl hlt.le)]
          exact (if_pos (inl hlt)).symm
  refine ⟨(hrounds n (le_refl n)).1, ?_⟩
  rw [(hrounds n (le_refl n)).2]
  simp [not_le.2 h, false_or]

/-- The row of a request holds some tokens, and placeholders. -/
def Holds (maxSpecLen : ℕ) (out : List ℤ) (reqIdx : ℕ) (tokens : List ℤ) : Prop :=
  ∀ j < maxSpecLen + 1, out[reqIdx * (maxSpecLen + 1) + j]? =
    if tokens.length ≤ j then some placeholderTokenId else tokens[j]?

/-- A launch writes the tokens of the requests that are not skipped. -/
theorem Holds.launch (kernel : ℕ → List ℤ → List ℤ) (skip : ℕ → Bool) (tokens : ℕ → List ℤ) {n : ℕ}
    (hkernel : ∀ reqIdx < n, ∀ out, kernel reqIdx out =
      if skip reqIdx then out else overwrite out (reqIdx * (maxSpecLen + 1)) (tokens reqIdx))
    (htokens : ∀ reqIdx < n, (tokens reqIdx).length ≤ maxSpecLen + 1)
    (hout : n * (maxSpecLen + 1) ≤ out.length) (h : reqIdx < n) {old : List ℤ}
    (hold : Holds maxSpecLen out reqIdx old) (hskip : skip reqIdx = true ∨ old = []) :
    ((range n).foldl (fun out reqIdx => kernel reqIdx out) out).length = out.length ∧
    Holds maxSpecLen ((range n).foldl (fun out reqIdx => kernel reqIdx out) out) reqIdx
      (if skip reqIdx then old else tokens reqIdx) := by
  refine ⟨(getElem?_launch hkernel htokens hout h (succ_pos maxSpecLen)).1, fun j hj => ?_⟩
  rw [(getElem?_launch hkernel htokens hout h hj).2, hold j hj]
  cases hs : skip reqIdx with
  | true => simp
  | false =>
    rw [hs] at hskip
    obtain rfl := hskip.resolve_left Bool.false_ne_true
    simp

theorem outputTokens_eq {tokens : List ℤ} (htokens : ∀ token ∈ tokens, token ≠ placeholderTokenId)
    (hlength : tokens.length ≤ maxSpecLen + 1) (hout : Holds maxSpecLen out reqIdx tokens) :
    outputTokens maxSpecLen out reqIdx = tokens := by
  have hrow : (out.drop (reqIdx * (maxSpecLen + 1))).take (maxSpecLen + 1) =
      tokens ++ replicate (maxSpecLen + 1 - tokens.length) placeholderTokenId := by
    refine ext_getElem? fun j => ?_
    by_cases hj : j < maxSpecLen + 1
    · rw [getElem?_take_of_lt hj, getElem?_drop, hout j hj]
      split_ifs with hle
      · rw [getElem?_append_right hle, getElem?_replicate, if_pos (by omega)]
      · rw [getElem?_append_left (by omega)]
    · rw [getElem?_eq_none, getElem?_eq_none]
      · rw [length_append, length_replicate]
        omega
      · exact (length_take_le _ _).trans (not_lt.1 hj)
  unfold outputTokens
  rw [hrow, filter_append, filter_replicate, if_neg (by simp), append_nil, filter_eq_self]
  exact fun token hmem => decide_eq_true (htokens token hmem)

/-- The tokens that a request gets. -/
def SpecRow.tokens (r : SpecRow K) (paddedVocabSize vocabSize : ℕ) (hasDraftProbs : Bool)
    (uniformProbs q : ℕ → K) : List ℤ :=
  if r.temperature = 0 then emit r.greedyTokens r.bonusTokenId
  else emit (r.randomTokens paddedVocabSize vocabSize hasDraftProbs uniformProbs q) r.bonusTokenId

/-- The target argmax at a draft position. -/
theorem targetArgmax_tensorsOf (hfits : ∀ r ∈ rows, r.Fits vocabSize maxSpecLen hasDraftProbs)
    (h : reqIdx < rows.length) (hpos : pos < rows[reqIdx].draftTokenIds.length) :
    ((range (rows.flatMap (·.draftTokenIds)).length).map fun i =>
      argmax ((range vocabSize).map fun x =>
        (rows.flatMap (·.targetProbs)).flatten.getD (i * vocabSize + x) 0)).getD
          (startOf rows reqIdx + pos) 0 = argmax (rows[reqIdx].targetProbs.getD pos []) := by
  have hrow := hfits _ (getElem_mem h)
  have hlt : startOf rows reqIdx + pos < (rows.flatMap (·.draftTokenIds)).length := by
    have hsucc := startOf_succ h
    have hle : startOf rows (reqIdx + 1) ≤ startOf rows rows.length := startOf_le h
    have hall : (rows.flatMap (·.draftTokenIds)).length = startOf rows rows.length := by
      rw [length_flatMap, startOf, take_length]
    omega
  rw [getD_eq_getElem _ _ (by rwa [length_map, length_range]), getElem_map, getElem_range]
  have hpos' : pos < rows[reqIdx].targetProbs.length := hrow.length_targetProbs ▸ hpos
  have hlength : (rows[reqIdx].targetProbs.getD pos []).length = vocabSize := by
    rw [getD_eq_getElem _ _ hpos']
    exact hrow.targetProbs _ (getElem_mem hpos')
  refine congrArg argmax (ext_getElem (by simpa using hlength.symm) fun x hx hx' => ?_)
  rw [length_map, length_range] at hx
  rw [getElem_map, getElem_range]
  refine (targetProbs_tensorsOf 0 hfits h hpos hx).trans ?_
  rw [getD_eq_getElem _ _]

omit [Field K] [LinearOrder K] in
theorem bonusTokenIds_tensorsOf (h : reqIdx < rows.length) :
    (tensorsOf vocabSize paddedVocabSize maxSpecLen hasDraftProbs rows).bonusTokenIds.getD reqIdx 0 =
      rows[reqIdx].bonusTokenId := by
  rw [getD_eq_getElem _ _ (by simpa [tensorsOf] using h)]
  simp [tensorsOf]

theorem greedyKernel_tensorsOf (paddedVocabSize : ℕ)
    (hfits : ∀ r ∈ rows, r.Fits vocabSize maxSpecLen hasDraftProbs) (isGreedy : Option (List Bool))
    (h : reqIdx < rows.length) (out : List ℤ) :
    rejectionGreedySampleKernel (tensorsOf vocabSize paddedVocabSize maxSpecLen hasDraftProbs rows)
      ((range (rows.flatMap (·.draftTokenIds)).length).map fun i =>
        argmax ((range vocabSize).map fun x =>
          (rows.flatMap (·.targetProbs)).flatten.getD (i * vocabSize + x) 0)) isGreedy reqIdx out =
      if !(isGreedy.elim true fun l => l.getD reqIdx false) then out
      else overwrite out (reqIdx * (maxSpecLen + 1))
        (emit rows[reqIdx].greedyTokens rows[reqIdx].bonusTokenId) := by
  unfold rejectionGreedySampleKernel
  cases (isGreedy.elim true fun l => l.getD reqIdx false) with
  | false => rfl
  | true =>
    rw [if_neg nofun, storeTokens_eq, numDrafts_tensorsOf h, startIdx_tensorsOf h.le,
      bonusTokenIds_tensorsOf]
    refine congrArg (fun l => overwrite out _ (emit l _)) (map_congr_left fun pos hpos => ?_)
    rw [mem_range] at hpos
    simp only [draftTokenIds_tensorsOf h hpos, targetArgmax_tensorsOf hfits h hpos]

theorem randomKernel_tensorsOf (hfits : ∀ r ∈ rows, r.Fits vocabSize maxSpecLen hasDraftProbs)
    (uniformProbs q : List K) (isGreedy : List Bool) (h : reqIdx < rows.length) (out : List ℤ) :
    rejectionRandomSampleKernel (tensorsOf vocabSize paddedVocabSize maxSpecLen hasDraftProbs rows)
      (sampleRecoveredTokens (tensorsOf vocabSize paddedVocabSize maxSpecLen hasDraftProbs rows) q)
      uniformProbs isGreedy reqIdx out = if isGreedy.getD reqIdx false then out
      else overwrite out (reqIdx * (maxSpecLen + 1))
        (emit (rows[reqIdx].randomTokens paddedVocabSize vocabSize hasDraftProbs
          (fun pos => uniformProbs.getD (startOf rows reqIdx + pos) 0)
          fun i => q.getD (reqIdx * vocabSize + i) 0) rows[reqIdx].bonusTokenId) := by
  unfold rejectionRandomSampleKernel
  cases isGreedy.getD reqIdx false with
  | true => rfl
  | false =>
    rw [if_neg nofun, if_neg nofun, storeTokens_eq, numDrafts_tensorsOf h, startIdx_tensorsOf h.le,
      bonusTokenIds_tensorsOf]
    refine congrArg (fun l => overwrite out _ (emit l _)) (map_congr_left fun pos hpos => ?_)
    rw [mem_range] at hpos
    have hvocab : (tensorsOf vocabSize paddedVocabSize maxSpecLen hasDraftProbs rows).vocabSize =
        vocabSize := rfl
    have hdraft : rows[reqIdx].draftTokenIds.getD pos 0 < vocabSize := by
      rw [getD_eq_getElem _ _ hpos]
      exact (hfits _ (getElem_mem h)).draftTokenIds _ (getElem_mem hpos)
    simp only [draftTokenIds_tensorsOf h hpos, hvocab,
      targetProbs_tensorsOf paddedVocabSize hfits h hpos hdraft,
      sampleRecoveredTokens_tensorsOf hfits q h hpos]
    unfold Accepts
    cases hhas : hasDraftProbs with
    | false => rfl
    | true =>
      subst hhas
      simp only [tensorsOf, if_true, draftProbs_tensorsOf hfits rfl h hpos hdraft]

theorem SpecRow.length_tokens_le (paddedVocabSize : ℕ) {r : SpecRow K}
    (hr : r.Fits vocabSize maxSpecLen hasDraftProbs)
    (u q : ℕ → K) : (emit r.greedyTokens r.bonusTokenId).length ≤ maxSpecLen + 1 ∧
      (emit (r.randomTokens paddedVocabSize vocabSize hasDraftProbs u q) r.bonusTokenId).length ≤
        maxSpecLen + 1 := by
  have hle := hr.length_le
  refine ⟨(length_emit _ _).trans ?_, (length_emit _ _).trans ?_⟩
  · rw [greedyTokens, length_map, length_range]
    omega
  · rw [randomTokens, length_map, length_range]
    omega

theorem SpecRow.tokens_ne (r : SpecRow K) (u q : ℕ → K) :
    ∀ token ∈ r.tokens paddedVocabSize vocabSize hasDraftProbs u q, token ≠ placeholderTokenId := by
  have hcast : ∀ n : ℕ, (n : ℤ) ≠ placeholderTokenId := fun n => by
    unfold placeholderTokenId
    omega
  intro token htoken
  unfold tokens at htoken
  split_ifs at htoken
  · rcases mem_emit htoken with rfl | ⟨x, hx, rfl⟩
    · exact hcast _
    · obtain ⟨pos, -, rfl⟩ := mem_map.1 hx
      exact hcast _
  · rcases mem_emit htoken with rfl | ⟨x, hx, rfl⟩
    · exact hcast _
    · obtain ⟨pos, -, rfl⟩ := mem_map.1 hx
      split_ifs
      · exact hcast _
      · exact hcast _

/-- `is_greedy`. -/
def greedyFlags (rows : List (SpecRow K)) : List Bool := rows.map fun r => decide (r.temperature = 0)

/-- The tokens of a request: of its own drafts and probabilities, its uniform numbers, and its row of
`q`. -/
theorem outputTokens_rejectionSample (hfits : ∀ r ∈ rows, r.Fits vocabSize maxSpecLen hasDraftProbs)
    (uniformProbs q : List K) (h : reqIdx < rows.length) : outputTokens maxSpecLen (rejectionSample
      (tensorsOf vocabSize paddedVocabSize maxSpecLen hasDraftProbs rows) uniformProbs q) reqIdx =
      rows[reqIdx].tokens paddedVocabSize vocabSize hasDraftProbs
        (fun pos => uniformProbs.getD (startOf rows reqIdx + pos) 0)
        fun i => q.getD (reqIdx * vocabSize + i) 0 := by
  have hle := fun {i} (hi : i < rows.length) => length_tokens_le
    paddedVocabSize (hfits _ (getElem_mem hi))
  have hempty : Holds maxSpecLen (replicate (rows.length * (maxSpecLen + 1)) placeholderTokenId)
      reqIdx [] := by
    intro j hj
    have hrows : (reqIdx + 1) * (maxSpecLen + 1) ≤ rows.length * (maxSpecLen + 1) :=
      mul_le_mul_right _ h
    rw [succ_mul] at hrows
    rw [getElem?_replicate, if_pos (by omega)]
    rfl
  set T := tensorsOf vocabSize paddedVocabSize maxSpecLen hasDraftProbs rows
  -- a kernel writes the rows of its own requests, and passes the others
  have hgreedy : ∀ isGreedy : Option (List Bool), ∀ out : List ℤ,
      out.length = rows.length * (maxSpecLen + 1) → Holds maxSpecLen out reqIdx [] →
      let out' := (range rows.length).foldl (fun out reqIdx => rejectionGreedySampleKernel T
        ((range (rows.flatMap (·.draftTokenIds)).length).map fun i =>
          argmax ((range vocabSize).map fun x =>
            (rows.flatMap (·.targetProbs)).flatten.getD (i * vocabSize + x) 0)) isGreedy reqIdx out) out
      out'.length = rows.length * (maxSpecLen + 1) ∧ Holds maxSpecLen out' reqIdx
        (if !(isGreedy.elim true fun l => l.getD reqIdx false) then []
          else emit rows[reqIdx].greedyTokens rows[reqIdx].bonusTokenId) := by
    intro isGreedy out hout hold
    have hlaunch := Holds.launch _ (fun i => !(isGreedy.elim true fun l => l.getD i false))
      (fun i => rows[i]?.elim [] fun r => emit r.greedyTokens r.bonusTokenId)
      (fun i hi out => (greedyKernel_tensorsOf paddedVocabSize hfits isGreedy hi
        out).trans (by rw [getElem?_eq_getElem]; rfl))
      (fun i hi => by
        rw [getElem?_eq_getElem]
        exact (hle hi (fun _ => 0) fun _ => 0).1) hout.ge h hold (inr rfl)
    rwa [getElem?_eq_getElem, hout] at hlaunch
  have hrandom : ∀ isGreedy : List Bool, ∀ out old : List ℤ,
      out.length = rows.length * (maxSpecLen + 1) → Holds maxSpecLen out reqIdx old →
      (isGreedy.getD reqIdx false = true ∨ old = []) →
      Holds maxSpecLen ((range rows.length).foldl (fun out reqIdx => rejectionRandomSampleKernel
        T (sampleRecoveredTokens T q) uniformProbs isGreedy reqIdx out) out) reqIdx
        (if isGreedy.getD reqIdx false then old
          else emit (rows[reqIdx].randomTokens paddedVocabSize vocabSize hasDraftProbs
            (fun pos => uniformProbs.getD (startOf rows reqIdx + pos) 0)
            fun i => q.getD (reqIdx * vocabSize + i) 0) rows[reqIdx].bonusTokenId) := by
    intro isGreedy out old hout hold hskip
    have hlaunch := Holds.launch _ (fun i => isGreedy.getD i false)
      (fun i => rows[i]?.elim [] fun r => emit (r.randomTokens paddedVocabSize vocabSize hasDraftProbs
        (fun pos => uniformProbs.getD (startOf rows i + pos) 0)
        fun x => q.getD (i * vocabSize + x) 0) r.bonusTokenId)
      (fun i hi out => (randomKernel_tensorsOf hfits uniformProbs q isGreedy hi out).trans
        (by rw [getElem?_eq_getElem]; rfl))
      (fun i hi => by
        rw [getElem?_eq_getElem]
        exact (hle hi _ _).2) hout.ge h hold hskip
    rw [getElem?_eq_getElem] at hlaunch
    exact hlaunch.2
  have hat : (greedyFlags rows).getD reqIdx false = decide (rows[reqIdx].temperature = 0) := by
    unfold greedyFlags
    rw [getD_eq_getElem _ _ (by rwa [length_map]), getElem_map]
  have hbatch : T.numDraftTokens.length = rows.length := length_map _
  have hlist : T.temperature.map (fun temperature => decide (temperature = 0)) = greedyFlags rows :=
    map_map
  refine outputTokens_eq (tokens_ne _ _ _) ?_ ?_
  · unfold tokens
    split_ifs
    · exact (hle h (fun _ => 0) fun _ => 0).1
    · exact (hle h _ _).2
  · unfold rejectionSample
    simp only [hbatch, hlist]
    unfold tokens
    obtain ⟨hlength, hholds⟩ := hgreedy (some (greedyFlags rows)) _ length_replicate hempty
    -- the row of a request is written by one of the two kernels
    by_cases hzero : rows[reqIdx].temperature = 0
    · rw [decide_eq_true hzero] at hat
      have hrandomFalse : T.allRandom = false :=
        all_eq_false.2 ⟨_, mem_map.2 ⟨_, getElem_mem h, rfl⟩, by simpa using hzero⟩
      rw [hrandomFalse, if_pos hzero]
      cases T.allGreedy with
      | true => exact (hgreedy none _ length_replicate hempty).2
      | false =>
        rw [Option.elim_some, hat] at hholds
        have := hrandom _ _ _ hlength hholds (inl hat)
        rwa [hat] at this
    · rw [decide_eq_false hzero] at hat
      have hgreedyFalse : T.allGreedy = false :=
        all_eq_false.2 ⟨_, mem_map.2 ⟨_, getElem_mem h, rfl⟩, by simpa using hzero⟩
      rw [hgreedyFalse, if_neg hzero]
      cases T.allRandom with
      | true =>
        have := hrandom (greedyFlags rows) _ _ length_replicate hempty (inr rfl)
        rwa [hat] at this
      | false =>
        rw [Option.elim_some, hat] at hholds
        have := hrandom (greedyFlags rows) _ _ hlength hholds (inr rfl)
        rwa [hat] at this

end

end LoptVllm.SpecDecode
