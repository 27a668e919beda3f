import LoptVllm.Lib.Segments
import LoptVllm.SpecDecode.LogitsProcessing
import Mathlib.Algebra.Order.Field.Rat

/-!
# Draft positions are processed like steps of their own

The row of a draft position goes through the operations of its request with the drafts before it as
output tokens, in an order that makes no difference.
-/

namespace LoptVllm.SpecDecode

open List Option OrderedDict Or Prod Nat SamplingRequest RejectionSampler InputBatch

open Lib

section

variable {K : Type} [Field K] [LinearOrder K]

/-! ### Rows -/

variable {row : Logits K} {vocabSize : ℕ}

/-- Penalties do not see the padding. -/
theorem penalizeRow_append (hrow : row.length ≤ vocabSize) (prompt out : List ℕ) (m n : ℕ)
    (pres freq rep : K) :
    penalizeRow (prompt ++ replicate m vocabSize) (out ++ replicate n vocabSize) pres freq rep
        row = penalizeRow prompt out pres freq rep row := by
  have hnot : ∀ (l : List ℕ) (k t : ℕ), t < vocabSize →
      (t ∈ l ++ replicate k vocabSize ↔ t ∈ l) := by
    intro l k t ht
    rw [mem_append, mem_replicate]
    exact or_iff_left fun h => ht.ne h.2
  have hcount : ∀ t < vocabSize, (out ++ replicate n vocabSize).count t = out.count t := by
    intro t ht
    rw [count_append, count_replicate, if_neg (by simpa using ht.ne'), add_zero]
  unfold penalizeRow
  refine ext_getElem (by simp) fun t ht _ => ?_
  rw [length_mapIdx] at ht
  have ht' := ht.trans_le hrow
  simp only [getElem_mapIdx, hnot prompt m t ht', hnot out n t ht', hcount t ht']

variable (prompt out : List ℕ)

theorem penalizeRow_neutral : penalizeRow prompt out 0 0 1 row = row := by
  unfold penalizeRow
  refine ext_getElem (by simp) fun t ht _ => ?_
  rw [getElem_mapIdx]
  cases hx : row[t] with
  | bot => rfl
  | coe v => simp [WithBot.map_coe]

variable (pres freq rep : K)

theorem penalizeRow_set (t : ℕ) : penalizeRow prompt out pres freq rep (row.set t ⊥) =
      (penalizeRow prompt out pres freq rep row).set t ⊥ := by
  unfold penalizeRow
  rw [mapIdx_set]
  rfl

theorem penalizeRow_mask (mask : List Bool) :
    penalizeRow prompt out pres freq rep (maskRow mask row) =
      maskRow mask (penalizeRow prompt out pres freq rep row) := by
  unfold penalizeRow maskRow
  refine ext_getElem (by simp) fun t ht _ => ?_
  simp only [getElem_mapIdx, getElem_zipWith]
  split_ifs <;> rfl

theorem penalizeRow_badWords (words : List (List ℕ)) (past : List ℕ) :
    penalizeRow prompt out pres freq rep (applyBadWordsSingleBatch row words past) =
      applyBadWordsSingleBatch (penalizeRow prompt out pres freq rep row) words past := by
  unfold applyBadWordsSingleBatch
  induction words generalizing row with
  | nil => rfl
  | cons word words ih =>
    rw [foldl_cons, foldl_cons, ih]
    congr 1
    simp only
    split_ifs
    · rfl
    · exact penalizeRow_set _ _ _ _ _ _
    · rfl
    · exact penalizeRow_set _ _ _ _ _ _
    · rfl

variable {r : SamplingRequest K}

theorem maskRow_allowedMask (hrow : row.length ≤ vocabSize)
    (h : r.allowedTokenIds = []) : maskRow (r.allowedMask vocabSize) row = row := by
  unfold maskRow allowedMask
  refine ext_getElem (by simpa using hrow) fun t ht _ => ?_
  simp [h]

omit [Field K] [LinearOrder K] in
@[simp] theorem length_maskRow (mask : List Bool) :
    (maskRow mask row).length = min row.length mask.length :=
  length_zipWith

omit [Field K] [LinearOrder K] in
@[simp] theorem length_applyBadWordsSingleBatch (words : List (List ℕ)) (past : List ℕ) :
    (applyBadWordsSingleBatch row words past).length = row.length := by
  unfold applyBadWordsSingleBatch
  induction words generalizing row with
  | nil => rfl
  | cons word words ih =>
    rw [foldl_cons, ih]
    simp only
    split_ifs <;> simp

@[simp] theorem length_penalizeRow (prompt out : List ℕ) (pres freq rep : K) :
    (penalizeRow prompt out pres freq rep row).length = row.length :=
  length_mapIdx

/-- The operations of a request on a row, after the output tokens `out`. -/
def processRow (vocabSize : ℕ) (r : SamplingRequest K) (out : List ℕ) (row : Logits K) : Logits K :=
  applyBadWordsSingleBatch (maskRow (r.allowedMask vocabSize) (penalizeRow r.promptTokenIds out
    r.presencePenalty r.frequencyPenalty r.repetitionPenalty row)) r.badWordsTokenIds out

/-! ### The operations on all rows -/

variable {i : ℕ}

theorem getD_makeTensorWithPad (pad : ℕ) {rows : List (List ℕ)} (h : i < rows.length) :
    ∃ n, (makeTensorWithPad pad rows).getD i [] = rows[i] ++ replicate n pad := by
  unfold makeTensorWithPad
  rw [getD_eq_getElem _ _ (by rwa [length_map]), getElem_map]
  exact ⟨_, rfl⟩

variable {logits : List (Logits K)}

section

omit [Field K] [LinearOrder K]

theorem maskedFill_eq {mask : List (List Bool)} (h : mask.length = logits.length) :
    maskedFill logits mask = some (zipWith maskRow mask logits) := by
  match mask, h with
  | [], h => exact if_pos h
  | [m], h =>
    obtain ⟨row, rfl⟩ := length_eq_one_iff.1 h.symm
    rfl
  | _ :: _ :: _, h => exact if_pos h

theorem badWordsAt_eq {past : List (List ℕ)} (h : i < logits.length)
    (hpast : i < past.length) (words : List (List ℕ)) : badWordsAt logits i words past =
      some (logits.set i (applyBadWordsSingleBatch logits[i] words past[i])) := by
  unfold badWordsAt
  rw [getElem?_eq_getElem, getElem?_eq_getElem]
  rfl

variable (logits : List (Logits K)) (past : List (List ℕ))

/-- Bad words on some rows. -/
theorem foldlM_badWordsAt (items : List (ℕ × List (List ℕ))) (hitems : (items.map fst).Nodup)
    (hlt : ∀ item ∈ items, item.1 < logits.length ∧ item.1 < past.length) :
    ∃ out, items.foldlM (fun logits item => badWordsAt logits item.1 item.2 past) logits = some out ∧
      out.length = logits.length ∧ (∀ k, k ∉ items.map fst → out[k]? = logits[k]?) ∧
      ∀ item ∈ items, out[item.1]? = (logits[item.1]?).map fun row =>
        applyBadWordsSingleBatch row item.2 (past.getD item.1 []) := by
  induction items generalizing logits with
  | nil => exact ⟨logits, rfl, rfl, fun _ _ => rfl, nofun⟩
  | cons item items ih =>
    obtain ⟨hi, hpast⟩ := hlt item (.head _)
    rw [map_cons, nodup_cons] at hitems
    obtain ⟨out, hout, hlength, hothers, hsome⟩ := ih (logits.set item.1
      (applyBadWordsSingleBatch logits[item.1] item.2 past[item.1])) hitems.2 fun item' hmem => by
        rw [length_set]
        exact hlt item' (.tail _ hmem)
    rw [length_set] at hlength
    refine ⟨out, ?_, hlength, fun k hk => ?_, fun item' hmem => ?_⟩
    · rw [foldlM_cons, badWordsAt_eq hi]
      exact hout
    · rw [map_cons, mem_cons, not_or] at hk
      rw [hothers k hk.2, getElem?_set_ne (Ne.symm hk.1)]
    · rcases mem_cons.1 hmem with rfl | hmem
      · rw [hothers _ hitems.1, getElem?_set_self hi, getElem?_eq_getElem, getD_eq_getElem _ _]
        rfl
      · have hne : item.1 ≠ item'.1 := fun h => hitems.1 (h ▸ List.mem_map_of_mem hmem)
        rw [hsome _ hmem, getElem?_set_ne hne]

theorem foldlM_range' (start n : ℕ)
    (hlogits : start + n ≤ logits.length) (hpast : start + n ≤ past.length) (words : List (List ℕ)) :
    ∃ out, (range' start n).foldlM (fun logits i => badWordsAt logits i words past) logits =
        some out ∧ out.length = logits.length ∧
      (∀ k, k < start ∨ start + n ≤ k → out[k]? = logits[k]?) ∧
      ∀ j < n, out[start + j]? = (logits[start + j]?).map fun row =>
        applyBadWordsSingleBatch row words (past.getD (start + j) []) := by
  have hfold : (range' start n).foldlM (fun logits i => badWordsAt logits i words past) logits =
      ((range' start n).map fun i => (i, words)).foldlM
        (fun logits item => badWordsAt logits item.1 item.2 past) logits := by
    rw [foldlM_map]
  have hfst : ((range' start n).map fun i => (i, words)).map fst = range' start n := by
    rw [List.map_map]
    exact List.map_id _
  obtain ⟨out, hout, hlength, hothers, hsome⟩ := foldlM_badWordsAt logits past
    ((range' start n).map fun i => (i, words))
    (by rw [hfst]; exact nodup_range') fun item hmem => by
      obtain ⟨i, hi, rfl⟩ := List.mem_map.1 hmem
      have := mem_range'_1.1 hi
      exact ⟨by omega, by omega⟩
  refine ⟨out, hfold.trans hout, hlength, fun k hk => hothers k ?_, fun j hj => ?_⟩
  · rw [hfst, mem_range'_1]
    omega
  · exact hsome (start + j, words) (List.mem_map.2 ⟨start + j, mem_range'_1.2 (by omega), rfl⟩)

end

variable (d : OrderedDict ℕ (List (List ℕ)))

/-- The keys from `i` on. -/
def keysFrom (i : ℕ) : ℕ :=
  (d.items.map fst).countP fun k => decide (i ≤ k)

theorem nodup_keys_items : (d.items.map fst).Nodup := by
  unfold items
  rw [map_reverse, nodup_reverse, List.map_map]
  exact d.nodupKeys

theorem mem_keys_items {d : OrderedDict ℕ (List (List ℕ))} :
    i ∈ d.items.map fst ↔ d.lookup i ≠ none := by
  constructor
  · intro h
    obtain ⟨item, hmem, rfl⟩ := List.mem_map.1 h
    rw [mem_items.1 (show (item.1, item.2) ∈ d.items from hmem)]
    exact some_ne_none _
  · intro h
    obtain ⟨words, hwords⟩ := ne_none_iff_exists'.1 h
    exact List.mem_map.2 ⟨(i, words), mem_items.2 hwords, rfl⟩

theorem keysFrom_succ (i : ℕ) :
    keysFrom d i = keysFrom d (i + 1) + if d.lookup i = none then 0 else 1 := by
  have hsplit : ∀ l : List ℕ, (l.countP fun k => decide (i ≤ k)) =
      (l.countP fun k => decide (i + 1 ≤ k)) + l.count i := by
    intro l
    induction l with
    | nil => rfl
    | cons k l ih =>
      rw [countP_cons, countP_cons, count_cons, ih]
      rcases lt_trichotomy i k with h | rfl | h
      · simp [h.le, succ_le_of_lt h, h.ne']
        omega
      · simp
        omega
      · simp [h.not_ge, not_le.2 (lt_succ_of_lt h), h.ne]
  unfold keysFrom
  rw [hsplit]
  congr 1
  split_ifs with h
  · exact count_eq_zero.2 fun hmem => mem_keys_items.1 hmem h
  · exact count_eq_one_of_mem (nodup_keys_items d) (mem_keys_items.2 h)

/-- The rows `out` that the loop makes of `logits`, from the row `start` of the `i`-th request on. -/
structure BadWordRows (d : OrderedDict ℕ (List (List ℕ))) (past : List (List ℕ)) (i start : ℕ)
    (ns : List ℕ) (logits out : List (Logits K)) : Prop where
  length : out.length = logits.length
  before : ∀ k < start, out[k]? = logits[k]?
  row : ∀ (m : ℕ) (hm : m < ns.length), ∀ j < ns[m], out[start + (ns.take m).sum + j]? =
    (logits[start + (ns.take m).sum + j]?).map fun row => applyBadWordsSingleBatch row
      ((d.lookup (i + m)).getD []) (past.getD (start + (ns.take m).sum + j) [])

omit [Field K] [LinearOrder K] in
/-- The loop over the requests goes through the rows of each of them. -/
theorem badWordsLoop_spec (d : OrderedDict ℕ (List (List ℕ))) (past : List (List ℕ)) (ns : List ℕ) :
    ∀ (i start : ℕ) (logits : List (Logits K)), start + ns.sum ≤ logits.length →
      start + ns.sum ≤ past.length → ∃ out,
        badWordsLoop d past i start (keysFrom d i) ns logits = some out ∧
        BadWordRows d past i start ns logits out := by
  induction ns with
  | nil => exact fun _ _ _ _ _ => ⟨_, rfl, rfl, fun _ _ => rfl, fun m hm => absurd hm (not_lt_zero m)⟩
  | cons n ns ih =>
    intro i start logits hlogits hpast
    rw [sum_cons, ← add_assoc] at hlogits hpast
    have hnext : ∀ (out logits' : List (Logits K)), logits'.length = logits.length →
        (∀ k, k < start ∨ start + n ≤ k → logits'[k]? = logits[k]?) →
        (∀ j < n, logits'[start + j]? = (logits[start + j]?).map fun row =>
          applyBadWordsSingleBatch row ((d.lookup i).getD []) (past.getD (start + j) [])) →
        BadWordRows d past (i + 1) (start + n) ns logits' out →
        BadWordRows d past i start (n :: ns) logits out := by
      rintro out logits' hlength hothers hrows ⟨hout, hbefore, hafter⟩
      refine ⟨hout.trans hlength, fun k hk => ?_, fun m hm j hj => ?_⟩
      · rw [hbefore k (Nat.lt_add_right n hk), hothers k (inl hk)]
      · cases m with
        | zero =>
          rw [take_zero, sum_nil, add_zero, add_zero, ← hrows j hj]
          exact hbefore _ (Nat.add_lt_add_left hj start)
        | succ m =>
          have := hafter m (lt_of_succ_lt_succ hm) j hj
          rw [hothers _ (inr (by omega))] at this
          rw [take_succ_cons, sum_cons, ← add_assoc, add_comm m, ← add_assoc]
          exact this
    unfold badWordsLoop
    rw [keysFrom_succ]
    cases hlookup : d.lookup i with
    | none =>
      rw [hlookup] at hnext
      obtain ⟨out, hout, hafter⟩ := ih (i + 1) (start + n) logits hlogits hpast
      refine ⟨out, hout, hnext out logits rfl (fun _ _ => rfl) (fun j hj => ?_) hafter⟩
      cases logits[start + j]? <;> rfl
    | some words =>
      rw [hlookup] at hnext
      obtain ⟨logits', hlogits', hlength', hothers, hrows⟩ :=
        foldlM_range' logits past start n (by omega) (by omega) words
      rw [if_neg (some_ne_none _), Nat.add_sub_cancel]
      simp only [hlogits', bind_eq_bind]
      split_ifs with hlast
      · -- no other request has bad words
        refine ⟨logits', rfl, hnext logits' logits' hlength' hothers hrows ⟨rfl, fun _ _ => rfl,
          fun m hm j hj => ?_⟩⟩
        have hnone : d.lookup (i + 1 + m) = none := by
          by_contra h
          have hcount := countP_eq_zero.1 hlast _ (mem_keys_items.2 h)
          simp only [decide_eq_true_eq] at hcount
          omega
        rw [hnone]
        cases logits'[start + n + (ns.take m).sum + j]? <;> rfl
      · obtain ⟨out, hout, hafter⟩ := ih (i + 1) (start + n) logits' (by omega) hpast
        exact ⟨out, hout, hnext out logits' hlength' hothers hrows hafter⟩

/-! ### The draft positions -/

/-- The output tokens at the draft positions of a request. -/
def histories (out spec : List ℕ) : List (List ℕ) :=
  (range spec.length).map fun j => out ++ spec.take j

theorem combineLoop_eq (l : List (List ℕ × List ℕ)) : ∀ result : List (List ℕ),
    combineLoop l result = result ++ l.flatMap fun p => histories p.1 p.2 := by
  have hrow : ∀ (out spec : List ℕ) (result : List (List ℕ)) (m : ℕ), m < spec.length →
      (range m).foldl (fun result i => result ++ [result.getLastD [] ++ [spec.getD i 0]])
        (result ++ [out]) = result ++ (range (m + 1)).map fun j => out ++ spec.take j := by
    intro out spec result m hm
    induction m with
    | zero => simp
    | succ m ih =>
      rw [range_succ, foldl_append, ih (lt_of_succ_lt hm), range_succ (n := m + 1),
        map_append, ← append_assoc]
      rw [range_succ, map_append, ← append_assoc]
      have htake : spec.take (m + 1) = spec.take m ++ [spec.getD m 0] := by
        rw [take_succ_eq_append_getElem (lt_of_succ_lt hm), getD_eq_getElem]
      simp [htake]
  induction l with
  | nil => exact fun result => (append_nil result).symm
  | cons p l ih =>
    obtain ⟨out, spec⟩ := p
    intro result
    rw [combineLoop, flatMap_cons]
    split_ifs with hempty
    · rw [ih, histories, hempty]
      rfl
    · rw [ih, hrow out spec result _ (sub_lt (pos_of_ne_zero hempty) Nat.one_pos),
        Nat.sub_add_cancel (pos_of_ne_zero hempty), append_assoc]
      rfl

/-- The index of each request, as often as it has drafts. -/
def repeatIndices (ns : List ℕ) : List ℕ :=
  (range ns.length).flatMap fun i => replicate (ns.getD i 0) i

theorem repeatInterleave_eq (ns : List ℕ) : repeatInterleave ns.length ns = some (repeatIndices ns) := by
  unfold repeatInterleave
  split
  · rfl
  · exact if_pos rfl

theorem repeatIndices_cons (n : ℕ) (ns : List ℕ) :
    repeatIndices (n :: ns) = replicate n 0 ++ (repeatIndices ns).map (· + 1) := by
  unfold repeatIndices
  rw [length_cons, range_succ_eq_map, flatMap_cons, flatMap_map, map_flatMap]
  congr 1
  refine flatMap_congr fun i _ => ?_
  rw [map_replicate]
  rfl

/-- The rows of the requests, as often as they have drafts. -/
theorem gather_repeatIndices {ι α : Type} (l : List ι) (n : ι → ℕ) (g : ι → α) :
    gather (l.map g) (repeatIndices (l.map n)) =
      some ((l.flatMap fun r => replicate (n r) r).map g) := by
  induction l with
  | nil => rfl
  | cons r l ih =>
    have hfirst : ∀ (a : α) (as : List α) (m : ℕ),
        gather (a :: as) (replicate m 0) = some (replicate m a) := by
      intro a as m
      unfold gather
      induction m with
      | zero => rfl
      | succ m ih =>
        rw [replicate_succ, mapM_cons, ih]
        rfl
    have hothers : ∀ (a : α) (as : List α) (idx : List ℕ),
        gather (a :: as) (idx.map (· + 1)) = gather as idx := by
      intro a as idx
      unfold gather
      induction idx with
      | nil => rfl
      | cons i idx ih =>
        rw [map_cons, mapM_cons, mapM_cons, ih]
        rfl
    have happend : ∀ (as : List α) (idx idx' : List ℕ) {xs xs' : List α}, gather as idx = some xs →
        gather as idx' = some xs' → gather as (idx ++ idx') = some (xs ++ xs') := by
      intro as idx idx' xs xs' h h'
      unfold gather at h h' ⊢
      rw [mapM_append, h, h']
      rfl
    rw [map_cons, map_cons, repeatIndices_cons, flatMap_cons, map_append, map_replicate]
    exact happend _ _ _ (hfirst _ _ _) ((hothers _ _ _).trans ih)

/-! ### Batches -/

namespace InputBatch

variable {b : InputBatch K}
variable (b)

/-- The draft tokens of each request. -/
def numDraftTokens : List ℕ := b.requests.map (·.specTokenIds.length)

/-- The rows of a request start after those of the requests before it. -/
def draftStart (i : ℕ) : ℕ := (b.numDraftTokens.take i).sum

/-- A request of the batch alone in a step without drafts, with other output tokens. -/
def alone {r : SamplingRequest K} (hr : r ∈ b.requests) (out : List ℕ) : InputBatch K where
  requests := [{ r with
    outputTokenIds := out
    specTokenIds := [] }]
  badWordsTokenIds := if r.badWordsTokenIds = [] then ∅ else AList.singleton 0 r.badWordsTokenIds
  lookup_badWords := by
    intro i
    cases i with
    | zero =>
      split_ifs with h
      · simp [h]
      · exact (List.dlookup_cons_eq _ _ _).trans (if_neg h).symm
    | succ i =>
      split_ifs with h
      · simp
      · exact List.dlookup_cons_ne _ _ (succ_ne_zero i)
  logitsprocsNeedOutputTokenIds := b.logitsprocsNeedOutputTokenIds
  vocabSize := b.vocabSize
  badWords_lt := by
    intro r' hr'
    rw [List.mem_singleton.1 hr']
    exact b.badWords_lt r hr

variable {b} {r : SamplingRequest K}

theorem badWords_of_items_eq_nil (h : b.badWordsTokenIds.items = [])
    (hr : r ∈ b.requests) : r.badWordsTokenIds = [] := by
  obtain ⟨i, hi, rfl⟩ := getElem_of_mem hr
  by_contra hne
  have hlookup := b.lookup_badWords i
  rw [getElem?_eq_getElem hi, bind_some, if_neg hne] at hlookup
  have hmem := mem_items.2 hlookup
  rw [h] at hmem
  cases hmem

theorem lookup_getD (h : i < b.requests.length) :
    (b.badWordsTokenIds.lookup i).getD [] = b.requests[i].badWordsTokenIds := by
  rw [b.lookup_badWords, getElem?_eq_getElem, bind_some]
  split_ifs with hempty
  · exact hempty.symm
  · rfl

theorem neutral_of_noPenalties (h : b.noPenalties = true) (hr : r ∈ b.requests) :
    r.presencePenalty = 0 ∧ r.frequencyPenalty = 0 ∧ r.repetitionPenalty = 1 := by
  have := of_decide_eq_true (List.all_eq_true.1 h r hr)
  unfold HasPenalties at this
  push Not at this
  exact this

theorem allowed_of_noAllowedTokenIds (h : b.noAllowedTokenIds = true)
    (hr : r ∈ b.requests) : r.allowedTokenIds = [] :=
  of_decide_eq_true (List.all_eq_true.1 h r hr)

theorem outputTokenIds_eq
    (h : b.noPenalties = false ∨ b.badWordsTokenIds.items ≠ [] ∨ b.logitsprocsNeedOutputTokenIds = true) :
    b.makeSamplingMetadata.outputTokenIds = b.requests.map (·.outputTokenIds) := by
  unfold makeSamplingMetadata
  rcases h with h | h | h <;> simp [h]

end InputBatch

namespace InputBatch

variable {b : InputBatch K} {owners : List (SamplingRequest K)} {logits : List (Logits K)}
variable (b)
variable (owners)
variable (logits)

/-- The mask of the batch, on rows that belong to `owners`. -/
def maskOwners : Option (List (Logits K)) :=
  if b.noAllowedTokenIds then some logits
  else maskedFill logits (owners.map (·.allowedMask b.vocabSize))

/-- The penalties of the batch, on rows that belong to `owners`. -/
def penalizeOwners (outputs : List (List ℕ))
    (logits : List (Logits K)) : Option (List (Logits K)) :=
  if b.noPenalties then some logits
  else applyAllPenalties b.vocabSize logits
    (owners.map fun r => r.promptTokenIds ++ replicate
      (((b.requests.map (·.promptTokenIds)).map List.length).foldr max 0 - r.promptTokenIds.length)
      b.vocabSize)
    (owners.map (·.presencePenalty)) (owners.map (·.frequencyPenalty))
    (owners.map (·.repetitionPenalty)) outputs

/-- Each row with the mask of its request. -/
def maskRows : List (Logits K) :=
  zipWith (fun r row => maskRow (r.allowedMask b.vocabSize) row) owners logits

variable {logits}
variable {owners}
variable {b}

/-- Each row with the penalties of its request. -/
def penalizeRows (owners : List (SamplingRequest K)) (hists : List (List ℕ))
    (logits : List (Logits K)) : List (Logits K) :=
  zipWith (fun (p : SamplingRequest K × List ℕ) row => penalizeRow p.1.promptTokenIds p.2
    p.1.presencePenalty p.1.frequencyPenalty p.1.repetitionPenalty row) (owners.zip hists) logits

/-- The mask on rows that belong to requests of the batch. -/
theorem maskOwners_eq (logits : List (Logits K)) (howners : ∀ r ∈ owners, r ∈ b.requests)
    (hlength : owners.length = logits.length) (hrows : ∀ row ∈ logits, row.length = b.vocabSize) :
    b.maskOwners owners logits = some (b.maskRows owners logits) := by
  simp only [maskOwners, maskRows]
  split_ifs with h
  · refine congrArg some (ext_getElem (by simp [hlength]) fun k hk hk' => ?_)
    rw [getElem_zipWith, maskRow_allowedMask (hrows _ (getElem_mem hk)).le]
    exact allowed_of_noAllowedTokenIds h (howners _ (getElem_mem _))
  · rw [maskedFill_eq (by rwa [length_map]), zipWith_map_left]

variable {outputs : List (List ℕ)}

/-- The penalties on rows that belong to requests of the batch, with output tokens for each. -/
theorem penalizeOwners_eq (owners : List (SamplingRequest K)) (logits : List (Logits K))
    (hists : List (List ℕ)) (howners : ∀ r ∈ owners, r ∈ b.requests)
    (hlength : owners.length = logits.length) (hrows : ∀ row ∈ logits, row.length = b.vocabSize)
    (hhists : hists.length = logits.length)
    (houtputs : b.noPenalties = false → outputs = hists) :
    b.penalizeOwners owners outputs logits = some (penalizeRows owners hists logits) := by
  simp only [penalizeOwners, penalizeRows]
  split_ifs with h
  · refine congrArg some (ext_getElem (by simp [hlength, hhists]) fun k hk hk' => ?_)
    have hk' : k < owners.length := hlength ▸ hk
    obtain ⟨hpres, hfreq, hrep⟩ := neutral_of_noPenalties h (howners _ (getElem_mem hk'))
    rw [getElem_zipWith, getElem_zip, hpres, hfreq, hrep, penalizeRow_neutral]
  · rw [houtputs (Bool.eq_false_of_not_eq_true h)]
    unfold applyAllPenalties
    rw [if_pos (by simp [makeTensorWithPad, hlength, hhists])]
    refine congrArg some (ext_getElem (by simp [hlength, hhists]) fun k hk hk' => ?_)
    rw [length_mapIdx] at hk
    have hk₁ : k < owners.length := hlength ▸ hk
    have hk₂ : k < hists.length := hhists ▸ hk
    obtain ⟨n, hpad⟩ := getD_makeTensorWithPad b.vocabSize hk₂
    rw [getElem_mapIdx, getElem_zipWith, getElem_zip, hpad]
    simp only [getD_eq_getElem?_getD, getElem?_map, getElem?_eq_getElem hk₁, map_some]
    exact penalizeRow_append (hrows _ (getElem_mem hk)).le _ _ _ _ _ _ _

theorem applyBadWords_requests (b : InputBatch K) (logits : List (Logits K)) (hists : List (List ℕ))
    (hlength : b.requests.length = logits.length) (hhists : hists.length = logits.length)
    (houtputs : b.badWordsTokenIds.items ≠ [] → outputs = hists) :
    (if b.badWordsTokenIds.items = [] then some logits
      else applyBadWords logits b.badWordsTokenIds outputs) =
      some (zipWith (fun (p : SamplingRequest K × List ℕ) row =>
        applyBadWordsSingleBatch row p.1.badWordsTokenIds p.2) (b.requests.zip hists) logits) := by
  split_ifs with h
  · refine congrArg some (ext_getElem (by simp [hlength, hhists]) fun k hk _ => ?_)
    have hk' : k < b.requests.length := hlength ▸ hk
    rw [getElem_zipWith, getElem_zip, badWords_of_items_eq_nil h (getElem_mem hk')]
    rfl
  · rw [houtputs h]
    have hlt : ∀ item ∈ b.badWordsTokenIds.items,
        item.1 < logits.length ∧ item.1 < hists.length := by
      intro item hmem
      have hlookup := b.lookup_badWords item.1
      rw [mem_items.1 (show (item.1, item.2) ∈ _ from hmem)] at hlookup
      have hlt : item.1 < b.requests.length := by
        by_contra hge
        rw [getElem?_eq_none (not_lt.1 hge)] at hlookup
        cases hlookup
      omega
    obtain ⟨out, hout, hlen, hothers, hsome⟩ := foldlM_badWordsAt logits hists _
      (nodup_keys_items b.badWordsTokenIds) hlt
    refine hout.trans (congrArg some (ext_getElem (by simp [hlength, hhists, hlen]) fun k hk _ => ?_))
    have hk₁ : k < logits.length := hlen ▸ hk
    have hk₂ : k < hists.length := hhists ▸ hk₁
    have hk₃ : k < b.requests.length := hlength ▸ hk₁
    rw [getElem_zipWith, getElem_zip]
    have hwords := lookup_getD hk₃
    cases hlookup : b.badWordsTokenIds.lookup k with
    | none =>
      rw [hlookup] at hwords
      have hat := hothers k fun hmem => mem_keys_items.1 hmem hlookup
      rw [getElem?_eq_getElem hk, getElem?_eq_getElem] at hat
      rw [some.inj hat, ← hwords]
      rfl
    | some words =>
      rw [hlookup, getD_some] at hwords
      have hat := hsome _ (mem_items.2 hlookup)
      rw [getElem?_eq_getElem hk, getElem?_eq_getElem, getD_eq_getElem _ _] at hat
      rw [some.inj hat, ← hwords]

end InputBatch

namespace Sampler

variable {b : InputBatch K}

theorem combineOutputsWithSpecTokens_requests (l : List (SamplingRequest K)) :
    combineOutputsWithSpecTokens (l.map (·.outputTokenIds)) (some (l.map (·.specTokenIds))) =
      l.map fun r => r.outputTokenIds ++ r.specTokenIds := by
  refine (zipWith_map ..).trans ?_
  rw [zipWith_self]
  refine map_congr_left fun r _ => ?_
  split_ifs with hempty
  · rw [hempty, append_nil]
  · rfl

/-- The rows of a batch, with a row for each request. -/
theorem applyLogitsProcessors_eq (b : InputBatch K) (predictBonusToken : Bool)
    (logits : List (Logits K)) (hlogits : logits.length = b.requests.length)
    (hrows : ∀ row ∈ logits, row.length = b.vocabSize) :
    ∃ out, applyLogitsProcessors b.vocabSize b.makeSamplingMetadata predictBonusToken logits = some out ∧
      ∀ (i : ℕ) (h : i < b.requests.length), out[i]? = some (processRow b.vocabSize b.requests[i]
        (if predictBonusToken then b.requests[i].outputTokenIds ++ b.requests[i].specTokenIds
          else b.requests[i].outputTokenIds) (logits.getD i [])) := by
  obtain ⟨hists, hhists⟩ : ∃ hists, hists = b.requests.map fun r =>
    if predictBonusToken then r.outputTokenIds ++ r.specTokenIds else r.outputTokenIds := ⟨_, rfl⟩
  obtain ⟨outputs, hdef⟩ : ∃ outputs, outputs =
      if predictBonusToken && (decide (b.badWordsTokenIds.items ≠ []) || !b.noPenalties) then
        combineOutputsWithSpecTokens b.makeSamplingMetadata.outputTokenIds
          b.makeSamplingMetadata.specTokenIds
      else b.makeSamplingMetadata.outputTokenIds := ⟨_, rfl⟩
  -- only bad words and penalties read the outputs
  have houtputs : b.noPenalties = false ∨ b.badWordsTokenIds.items ≠ [] → outputs = hists := by
    intro hany
    have htrue : (decide (b.badWordsTokenIds.items ≠ []) || !b.noPenalties) = true := by
      rcases hany with h | h <;> simp [h]
    rw [hdef, b.outputTokenIds_eq (by tauto), htrue, hhists]
    cases predictBonusToken with
    | false => rfl
    | true => exact combineOutputsWithSpecTokens_requests b.requests
  have hlen : hists.length = logits.length := by rw [hhists, length_map, hlogits]
  have hchain : applyLogitsProcessors b.vocabSize b.makeSamplingMetadata predictBonusToken logits =
      (b.maskOwners b.requests logits).bind fun logits =>
      (if b.badWordsTokenIds.items = [] then some logits
        else applyBadWords logits b.badWordsTokenIds outputs).bind fun logits =>
      applyPenalties b.vocabSize b.makeSamplingMetadata logits outputs := by
    rw [hdef]
    unfold applyLogitsProcessors maskOwners
    cases hallowed : b.noAllowedTokenIds with
    | true =>
      simp only [makeSamplingMetadata, hallowed]
      rfl
    | false =>
      simp only [makeSamplingMetadata, hallowed, Bool.false_eq_true]
      rfl
  have hpenalties : ∀ (logits : List (Logits K)) (o : List (List ℕ)),
      applyPenalties b.vocabSize b.makeSamplingMetadata logits o =
        b.penalizeOwners b.requests o logits := by
    intro logits o
    unfold applyPenalties penalizeOwners
    cases hno : b.noPenalties with
    | true => simp only [makeSamplingMetadata, hno, if_true]
    | false =>
      simp only [makeSamplingMetadata, hno, makeTensorWithPad, List.map_map]
      rfl
  -- mask, bad words and penalties, in this order
  have hmask := maskOwners_eq logits (fun r hr => hr) hlogits.symm hrows
  have hmasked : (b.maskRows b.requests logits).length = logits.length := by
    simp [maskRows, hlogits]
  have hbad := applyBadWords_requests b (b.maskRows b.requests logits) hists
    (by rw [hmasked, hlogits]) (by rw [hmasked, hlen]) fun h => houtputs (inr h)
  have hpen := penalizeOwners_eq b.requests
    (zipWith (fun (p : SamplingRequest K × List ℕ) row =>
      applyBadWordsSingleBatch row p.1.badWordsTokenIds p.2) (b.requests.zip hists)
      (b.maskRows b.requests logits)) hists
    (fun r hr => hr) (by simp [hlen, hlogits, hmasked]) ?_ (by simp [hlen, hlogits, hmasked])
    (fun h => houtputs (inl h))
  · rw [hmask, bind_some, hbad, bind_some, hpenalties, hpen] at hchain
    refine ⟨_, hchain, fun i h => ?_⟩
    unfold penalizeRows maskRows
    have h₁ : i < logits.length := hlogits ▸ h
    have h₂ : i < hists.length := hlen ▸ h₁
    rw [getElem?_eq_getElem (by simp [h, h₁, h₂]), getElem_zipWith, getElem_zip,
      getElem_zipWith, getElem_zip, getElem_zipWith, getD_eq_getElem _ _,
      penalizeRow_badWords, penalizeRow_mask]
    simp only [hhists, getElem_map]
    rfl
  · intro row hmem
    obtain ⟨k, hk, rfl⟩ := getElem_of_mem hmem
    simp only [maskRows]
    rw [getElem_zipWith, getElem_zipWith, length_applyBadWordsSingleBatch, length_maskRow,
      hrows _ (getElem_mem _)]
    simp [allowedMask]

theorem alone_eq (b : InputBatch K) (hr : r ∈ b.requests) (out : List ℕ)
    (hrow : row.length = b.vocabSize) :
    (applyLogitsProcessors b.vocabSize (b.alone hr out).makeSamplingMetadata false [row]).bind (·[0]?) =
      some (processRow b.vocabSize r out row) := by
  obtain ⟨out', hout', hrows⟩ := applyLogitsProcessors_eq (b.alone hr out) false [row] rfl
    fun row' hmem => by rw [mem_singleton.1 hmem]; exact hrow
  exact (congrArg (Option.bind · (·[0]?)) hout').trans (hrows 0 Nat.one_pos)

end Sampler

namespace RejectionSampler

variable (b : InputBatch K)

/-- The request of each draft position. -/
def owners : List (SamplingRequest K) :=
  b.requests.flatMap fun r => replicate r.specTokenIds.length r

/-- The output tokens at each draft position. -/
def allHistories : List (List ℕ) :=
  b.requests.flatMap fun r => histories r.outputTokenIds r.specTokenIds

theorem length_owners : (owners b).length = b.numDraftTokens.sum := by
  simp [owners, numDraftTokens]

theorem length_allHistories : (allHistories b).length = b.numDraftTokens.sum := by
  simp [allHistories, histories, numDraftTokens]

variable {b : InputBatch K}

theorem getElem?_owners {i j : ℕ} (h : i < b.requests.length)
    (hj : j < b.requests[i].specTokenIds.length) :
    (owners b)[b.draftStart i + j]? = some b.requests[i] := by
  have hsegment := getElem?_flatMap_segment
    (fun r : SamplingRequest K => replicate r.specTokenIds.length r) h
    (by rwa [length_replicate])
  simp only [length_replicate] at hsegment
  rw [draftStart, numDraftTokens, ← map_take]
  refine hsegment.trans ?_
  rw [getElem?_replicate, if_pos hj]

theorem getElem?_allHistories {i j : ℕ} (h : i < b.requests.length)
    (hj : j < b.requests[i].specTokenIds.length) : (allHistories b)[b.draftStart i + j]? =
      some (b.requests[i].outputTokenIds ++ b.requests[i].specTokenIds.take j) := by
  have hlength : ∀ r : SamplingRequest K,
      (histories r.outputTokenIds r.specTokenIds).length = r.specTokenIds.length := fun r => by
    rw [histories, length_map, length_range]
  have hsegment := getElem?_flatMap_segment
    (fun r : SamplingRequest K => histories r.outputTokenIds r.specTokenIds) h
    (by rwa [hlength])
  simp only [hlength] at hsegment
  rw [draftStart, numDraftTokens, ← map_take]
  refine hsegment.trans ?_
  rw [histories, getElem?_map, getElem?_range hj]
  rfl

theorem mem_of_mem_owners (h : r ∈ owners b) : r ∈ b.requests := by
  obtain ⟨r', hr', hmem⟩ := mem_flatMap.1 h
  rwa [eq_of_mem_replicate hmem]

theorem draftStart_lt {i j : ℕ} (h : i < b.requests.length)
    (hj : j < b.requests[i].specTokenIds.length) : b.draftStart i + j < b.numDraftTokens.sum :=
  segment_lt b.numDraftTokens (by rwa [numDraftTokens, length_map])
    (by simpa [numDraftTokens] using hj)

/-- Whether the number of requests is right where it is used. -/
def CountsRequests (b : InputBatch K) : Prop :=
  b.noAllowedTokenIds = true ∨ b.noPenalties = false ∨ b.badWordsTokenIds.items ≠ [] ∨
    b.logitsprocsNeedOutputTokenIds = true

/-- The penalties and the mask, with the request of each draft position. -/
theorem penalties_and_mask (hcounts : CountsRequests b) (logits : List (Logits K))
    (outputs : List (List ℕ)) :
    (if b.makeSamplingMetadata.allowedTokenIdsMask.isSome || !b.makeSamplingMetadata.noPenalties then do
      let repeatIndices ← repeatInterleave b.makeSamplingMetadata.outputTokenIds.length b.numDraftTokens
      let logits ← applyPenalties b.vocabSize logits b.makeSamplingMetadata repeatIndices outputs
      match b.makeSamplingMetadata.allowedTokenIdsMask with
      | none => some logits
      | some mask => maskedFill logits (← gather mask repeatIndices)
    else some logits) =
      (b.penalizeOwners (owners b) outputs logits).bind (b.maskOwners (owners b)) := by
  have hgather : ∀ {α : Type} (g : SamplingRequest K → α),
      gather (b.requests.map g) (repeatIndices b.numDraftTokens) = some ((owners b).map g) :=
    fun g => gather_repeatIndices b.requests (fun r => r.specTokenIds.length) g
  have hrepeat : b.noAllowedTokenIds = false ∨ b.noPenalties = false →
      repeatInterleave b.makeSamplingMetadata.outputTokenIds.length b.numDraftTokens =
        some (repeatIndices b.numDraftTokens) := by
    intro hused
    have hlength : b.makeSamplingMetadata.outputTokenIds.length = b.numDraftTokens.length := by
      rw [b.outputTokenIds_eq, numDraftTokens, length_map, length_map]
      rcases hcounts with h | h
      · exact inl (hused.resolve_left (by rw [h]; exact Bool.noConfusion))
      · exact h
    rw [hlength, repeatInterleave_eq]
  have hpenalties : applyPenalties b.vocabSize logits b.makeSamplingMetadata
      (repeatIndices b.numDraftTokens) outputs = b.penalizeOwners (owners b) outputs logits := by
    unfold applyPenalties penalizeOwners
    cases hno : b.noPenalties with
    | true => simp only [makeSamplingMetadata, hno, if_true]
    | false =>
      simp [makeSamplingMetadata, hno, Bool.false_eq_true, makeTensorWithPad,
        List.map_map, hgather, bind_eq_bind, bind_some, Function.comp_def]
  have hmask : b.maskOwners (owners b) = fun logits => if b.noAllowedTokenIds then some logits
    else maskedFill logits ((owners b).map (·.allowedMask b.vocabSize)) := rfl
  cases hallowed : b.noAllowedTokenIds with
  | true =>
    cases hno : b.noPenalties with
    | true => simp [makeSamplingMetadata, penalizeOwners, hmask, hno, hallowed]
    | false =>
      rw [hrepeat (inr hno)]
      simp only [bind_eq_bind, bind_some, hpenalties]
      simp [makeSamplingMetadata, hmask, hno, hallowed]
  | false =>
    rw [hrepeat (inl hallowed)]
    simp only [bind_eq_bind, bind_some, hpenalties]
    simp [makeSamplingMetadata, hmask, hallowed, hgather]

theorem combineOutputsWithSpecTokens_requests (l : List (SamplingRequest K)) :
    combineOutputsWithSpecTokens (l.map (·.outputTokenIds)) (some (l.map (·.specTokenIds))) =
      l.flatMap fun r => histories r.outputTokenIds r.specTokenIds := by
  unfold combineOutputsWithSpecTokens
  simp only
  rw [combineLoop_eq, nil_append, zip_map', flatMap_map]

theorem keysFrom_zero (d : OrderedDict ℕ (List (List ℕ))) : keysFrom d 0 = d.items.length := by
  simp [keysFrom]

/-- The rows of a batch, with a row for each draft position. -/
theorem applyLogitsProcessors_eq (hcounts : CountsRequests b) {logits : List (Logits K)}
    (hlogits : logits.length = b.numDraftTokens.sum)
    (hrows : ∀ row ∈ logits, row.length = b.vocabSize) :
    ∃ out, applyLogitsProcessors b.vocabSize b.makeSamplingMetadata b.numDraftTokens logits = some out ∧
      ∀ (i j : ℕ) (h : i < b.requests.length), j < b.requests[i].specTokenIds.length →
        out[b.draftStart i + j]? = some (processRow b.vocabSize b.requests[i]
          (b.requests[i].outputTokenIds ++ b.requests[i].specTokenIds.take j)
          (logits.getD (b.draftStart i + j) [])) := by
  obtain ⟨outputs, hdef⟩ : ∃ outputs, outputs =
      if decide (b.badWordsTokenIds.items ≠ []) || !b.noPenalties then
        combineOutputsWithSpecTokens b.makeSamplingMetadata.outputTokenIds
          b.makeSamplingMetadata.specTokenIds
      else b.makeSamplingMetadata.outputTokenIds := ⟨_, rfl⟩
  have houtputs : b.noPenalties = false ∨ b.badWordsTokenIds.items ≠ [] →
      outputs = allHistories b := by
    intro hany
    have htrue : (decide (b.badWordsTokenIds.items ≠ []) || !b.noPenalties) = true := by
      rcases hany with h | h <;> simp [h]
    rw [hdef, b.outputTokenIds_eq (by tauto), htrue]
    exact combineOutputsWithSpecTokens_requests b.requests
  have hlen := length_allHistories b
  have hlen' := length_owners b
  have hchain : applyLogitsProcessors b.vocabSize b.makeSamplingMetadata b.numDraftTokens logits =
      ((b.penalizeOwners (owners b) outputs logits).bind (b.maskOwners (owners b))).bind fun logits =>
        if b.badWordsTokenIds.items = [] then some logits
        else applyBadWordsWithDrafts logits b.badWordsTokenIds outputs b.numDraftTokens := by
    rw [← penalties_and_mask hcounts, hdef]
    rfl
  have hmem : ∀ r ∈ owners b, r ∈ b.requests := fun r => mem_of_mem_owners
  have hpen := penalizeOwners_eq (owners b) logits (allHistories b) hmem
    (hlen'.trans hlogits.symm) hrows (hlen.trans hlogits.symm) fun h => houtputs (inl h)
  have hmask := maskOwners_eq (penalizeRows (owners b) (allHistories b) logits)
    hmem (by simp [penalizeRows, hlen, hlen', hlogits]) ?_
  · rw [hpen, bind_some, hmask, bind_some] at hchain
    -- the rows before the bad words
    obtain ⟨rows, hrows'⟩ : ∃ rows, rows = b.maskRows (owners b)
        (penalizeRows (owners b) (allHistories b) logits) := ⟨_, rfl⟩
    rw [← hrows'] at hchain
    unfold maskRows penalizeRows at hrows'
    have hlength : rows.length = b.numDraftTokens.sum := by simp [hrows', hlen, hlen', hlogits]
    have hat : ∀ (i j : ℕ) (h : i < b.requests.length), j < b.requests[i].specTokenIds.length →
        rows[b.draftStart i + j]? = some (maskRow (b.requests[i].allowedMask b.vocabSize)
          (penalizeRow b.requests[i].promptTokenIds
            (b.requests[i].outputTokenIds ++ b.requests[i].specTokenIds.take j)
            b.requests[i].presencePenalty b.requests[i].frequencyPenalty
            b.requests[i].repetitionPenalty (logits.getD (b.draftStart i + j) []))) := by
      intro i j h hj
      have hlt := draftStart_lt h hj
      have hlogit : logits[b.draftStart i + j]? = some (logits.getD (b.draftStart i + j) []) := by
        rw [getD_eq_getElem?_getD, getElem?_eq_getElem (hlogits ▸ hlt)]
        rfl
      have hzip : ((owners b).zip (allHistories b))[b.draftStart i + j]? = some (b.requests[i],
          b.requests[i].outputTokenIds ++ b.requests[i].specTokenIds.take j) :=
        getElem?_zip_eq_some.2 ⟨getElem?_owners h hj, getElem?_allHistories h hj⟩
      rw [hrows', getElem?_zipWith, getElem?_zipWith, hzip, getElem?_owners h hj, hlogit]
    by_cases hitems : b.badWordsTokenIds.items = []
    · rw [if_pos hitems] at hchain
      refine ⟨rows, hchain, fun i j h hj => (hat i j h hj).trans (congrArg some ?_)⟩
      rw [processRow, badWords_of_items_eq_nil hitems (getElem_mem h)]
      rfl
    · rw [if_neg hitems, houtputs (inr hitems)] at hchain
      obtain ⟨out, hout, -, -, hall⟩ := badWordsLoop_spec b.badWordsTokenIds
        (allHistories b) b.numDraftTokens 0 0 rows
        (by rw [zero_add, hlength]) (by rw [zero_add, hlen])
      rw [keysFrom_zero] at hout
      refine ⟨out, hchain.trans hout, fun i j h hj => ?_⟩
      have := hall i (by rwa [numDraftTokens, length_map]) j (by simpa [numDraftTokens] using hj)
      rw [zero_add, zero_add] at this
      refine this.trans ?_
      have hhist : (allHistories b).getD (b.draftStart i + j) [] =
          b.requests[i].outputTokenIds ++ b.requests[i].specTokenIds.take j := by
        rw [getD_eq_getElem?_getD, getElem?_allHistories h hj]
        rfl
      rw [lookup_getD]
      change (rows[b.draftStart i + j]?).map (fun row => applyBadWordsSingleBatch row _
        ((allHistories b).getD (b.draftStart i + j) [])) = _
      rw [hat i j h hj, hhist]
      rfl
  · intro row hmem
    obtain ⟨k, hk, rfl⟩ := getElem_of_mem hmem
    simp only [penalizeRows]
    rw [getElem_zipWith, length_penalizeRow]
    exact hrows _ (getElem_mem _)

end RejectionSampler

/-! ### When they agree -/

variable (b : InputBatch K)

/-- The processing raises nothing, and the rows of each request are those of its own steps. -/
def ProcessingAgrees (logits bonusLogits : List (Logits K)) : Prop :=
  ∃ out bonusOut,
    applyLogitsProcessors b.vocabSize b.makeSamplingMetadata b.numDraftTokens logits = some out ∧
    Sampler.applyLogitsProcessors b.vocabSize b.makeSamplingMetadata true bonusLogits = some bonusOut ∧
    ∀ (i : ℕ) (h : i < b.requests.length),
      (∀ j < b.requests[i].specTokenIds.length, out[b.draftStart i + j]? =
        (Sampler.applyLogitsProcessors b.vocabSize (b.alone (getElem_mem h)
          (b.requests[i].outputTokenIds ++ b.requests[i].specTokenIds.take j)).makeSamplingMetadata false
          [logits.getD (b.draftStart i + j) []]).bind (·[0]?)) ∧
      bonusOut[i]? = (Sampler.applyLogitsProcessors b.vocabSize (b.alone (getElem_mem h)
        (b.requests[i].outputTokenIds ++ b.requests[i].specTokenIds)).makeSamplingMetadata false
        [bonusLogits.getD i []]).bind (·[0]?)

/-- The number of requests is 0 for the repeated indices: the processing raises. -/
theorem applyLogitsProcessors_eq_none {b : InputBatch K}
    (hcounts : ¬CountsRequests b) (hlogits : logits.length = b.numDraftTokens.sum)
    (hdraft : 0 < b.numDraftTokens.sum) :
    applyLogitsProcessors b.vocabSize b.makeSamplingMetadata b.numDraftTokens logits = none := by
  unfold CountsRequests at hcounts
  simp only [not_or, Bool.not_eq_false] at hcounts
  obtain ⟨hallowed, hno, hitems, hneed⟩ := hcounts
  have houtputs : b.makeSamplingMetadata.outputTokenIds = [] := by
    simp [makeSamplingMetadata, hno, hitems, hneed]
  have hmask : b.makeSamplingMetadata.allowedTokenIdsMask =
      some (b.requests.map (·.allowedMask b.vocabSize)) := by
    simp [makeSamplingMetadata, hallowed]
  have hnoPenalties : b.makeSamplingMetadata.noPenalties = true := hno
  unfold applyLogitsProcessors
  simp only [houtputs, hmask, hnoPenalties, applyPenalties]
  rcases hns : b.numDraftTokens with _ | ⟨n, _ | ⟨m, ns⟩⟩
  · rw [hns] at hdraft
    exact absurd hdraft (lt_irrefl 0)
  · -- one request: no index, and so no row in the mask
    have hlength : (0 : ℕ) ≠ logits.length := by omega
    simp [repeatInterleave, gather, maskedFill, hlength]
  · simp [repeatInterleave]

theorem countsRequests_iff : CountsRequests b ↔ (∀ r ∈ b.requests, r.allowedTokenIds = []) ∨
      (∃ r ∈ b.requests, r.HasPenalties ∨ r.badWordsTokenIds ≠ []) ∨
      b.logitsprocsNeedOutputTokenIds = true := by
  have hallowed : b.noAllowedTokenIds = true ↔ ∀ r ∈ b.requests, r.allowedTokenIds = [] := by
    simp [noAllowedTokenIds]
  have hpenalties : b.noPenalties = false ↔ ∃ r ∈ b.requests, r.HasPenalties := by
    simp [noPenalties]
  have hitems : b.badWordsTokenIds.items ≠ [] ↔ ∃ r ∈ b.requests, r.badWordsTokenIds ≠ [] := by
    constructor
    · intro h
      obtain ⟨item, hmem⟩ := exists_mem_of_ne_nil _ h
      have hlookup := b.lookup_badWords item.1
      rw [mem_items.1 (show (item.1, item.2) ∈ _ from hmem)] at hlookup
      obtain ⟨r, hr, hwords⟩ := bind_eq_some_iff.1 hlookup.symm
      refine ⟨r, mem_of_getElem? hr, fun hempty => ?_⟩
      rw [if_pos hempty] at hwords
      cases hwords
    · rintro ⟨r, hr, hwords⟩ h
      exact hwords (badWords_of_items_eq_nil h hr)
  unfold CountsRequests
  rw [hallowed, hpenalties, hitems]
  constructor
  · rintro (h | ⟨r, hr, h⟩ | ⟨r, hr, h⟩ | h)
    · exact inl h
    · exact inr (inl ⟨r, hr, inl h⟩)
    · exact inr (inl ⟨r, hr, inr h⟩)
    · exact inr (inr h)
  · rintro (h | ⟨r, hr, h | h⟩ | h)
    · exact inl h
    · exact inr (inl ⟨r, hr, h⟩)
    · exact inr (inr (inl ⟨r, hr, h⟩))
    · exact inr (inr (inr h))

/-- In a step with draft tokens, the processing agrees if and only if no request has allowed tokens, or
something makes the batch list the output tokens. -/
theorem processing_agrees_iff (logits bonusLogits : List (Logits K))
    (hlogits : logits.length = b.numDraftTokens.sum)
    (hrows : ∀ row ∈ logits, row.length = b.vocabSize)
    (hbonus : bonusLogits.length = b.requests.length)
    (hrows' : ∀ row ∈ bonusLogits, row.length = b.vocabSize) (hdraft : 0 < b.numDraftTokens.sum) :
    ProcessingAgrees b logits bonusLogits ↔ (∀ r ∈ b.requests, r.allowedTokenIds = []) ∨
      (∃ r ∈ b.requests, r.HasPenalties ∨ r.badWordsTokenIds ≠ []) ∨
      b.logitsprocsNeedOutputTokenIds = true := by
  rw [← countsRequests_iff]
  constructor
  · rintro ⟨out, -, hout, -⟩
    by_contra hcounts
    rw [applyLogitsProcessors_eq_none hcounts hlogits hdraft] at hout
    cases hout
  · intro hcounts
    obtain ⟨out, hout, hall⟩ := applyLogitsProcessors_eq hcounts hlogits hrows
    obtain ⟨bonusOut, hbonusOut, hall'⟩ := Sampler.applyLogitsProcessors_eq b true _ hbonus hrows'
    refine ⟨out, bonusOut, hout, hbonusOut, fun i h => ⟨fun j hj => ?_, ?_⟩⟩
    · have hlt := draftStart_lt h hj
      rw [Sampler.alone_eq b, hall i j h hj]
      rw [getD_eq_getElem _ _ (hlogits ▸ hlt)]
      exact hrows _ (getElem_mem _)
    · rw [Sampler.alone_eq b, hall' i]
      · rfl
      · rw [getD_eq_getElem _ _ (hbonus ▸ h)]
        exact hrows' _ (getElem_mem _)

end

/-- Requests with the given draft tokens, which may only give the token 1. -/
def onlyOne (presencePenalty : ℚ) (drafts : List (List ℕ)) : InputBatch ℚ where
  requests := drafts.map fun specTokenIds => {
    promptTokenIds := [0]
    outputTokenIds := [1]
    specTokenIds := specTokenIds
    presencePenalty := presencePenalty
    frequencyPenalty := 0
    repetitionPenalty := 1
    repetitionPenalty_pos := one_pos
    badWordsTokenIds := []
    badWords_ne_nil := nofun
    allowedTokenIds := [1] }
  badWordsTokenIds := ∅
  lookup_badWords := by
    intro i
    rw [getElem?_map]
    cases drafts[i]? <;> rfl
  logitsprocsNeedOutputTokenIds := false
  vocabSize := 2
  badWords_lt := by
    intro r hr w hw
    obtain ⟨_, -, rfl⟩ := mem_map.1 hr
    exact absurd hw not_mem_nil

/-- With a penalty, the positions of a request without draft tokens and of one with two are
processed. -/
theorem processing_agrees_onlyOne :
    ProcessingAgrees (onlyOne 1 [[], [1, 0]]) [[0, 0], [0, 0]] [[0, 0], [0, 0]] :=
  (processing_agrees_iff (onlyOne 1 [[], [1, 0]]) [[0, 0], [0, 0]] [[0, 0], [0, 0]] rfl
    (by simp [onlyOne]) rfl (by simp [onlyOne]) (by decide)).2
      (inr (inl ⟨_, .head _, inl (inl one_ne_zero)⟩))

/-- Without any, it raises. -/
theorem allowed_tokens_raise : applyLogitsProcessors 2 (onlyOne 0 [[1]]).makeSamplingMetadata [1]
      ([[0, 0]] : List (Logits ℚ)) = none ∧ ¬ProcessingAgrees (onlyOne 0 [[1]]) [[0, 0]] [[0, 0]] := by
  have hnone : applyLogitsProcessors 2 (onlyOne 0 [[1]]).makeSamplingMetadata [1]
      ([[0, 0]] : List (Logits ℚ)) = none := by
    refine applyLogitsProcessors_eq_none ?_ rfl (by decide)
    rw [countsRequests_iff]
    simp [onlyOne, HasPenalties]
  refine ⟨hnone, ?_⟩
  rintro ⟨out, -, hout, -⟩
  exact some_ne_none _ (hout.symm.trans hnone)

end LoptVllm.SpecDecode
