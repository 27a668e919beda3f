import LoptVllm.Lib.Overwrite
import LoptVllm.StructuredOutput.Manager
import Mathlib.Algebra.Ring.Nat

/-!
# The rows that are filled
-/

namespace LoptVllm.StructuredOutput

open List OrderedDict Automaton

variable {ρ σ Mask : Type} (A : Automaton σ ℤ Mask) (full : Mask)

/-- The mask after some drafts: all is allowed once there was padding. -/
def rowMask (s : σ) (drafts : List ℤ) : Mask :=
  if -1 ∈ drafts then full else A.maskAfter full s drafts

/-- The masks of a request: one for each draft, and one after all of them. -/
def requestRows (s : σ) (drafts : List ℤ) : List Mask :=
  (range (drafts.length + 1)).map fun j => rowMask A full s (drafts.take j)

/-- Draft tokens that the grammar has validated, possibly padded at the end. -/
def Validated (s : σ) (drafts : List ℤ) : Prop :=
  ∃ valid n, drafts = valid ++ .replicate n (-1) ∧ -1 ∉ valid ∧ (A.run s valid).isSome = true

variable {A full}

/-! ### The masks of a request -/

variable {s : σ}

@[simp] theorem length_requestRows (s : σ) (drafts : List ℤ) :
    (requestRows A full s drafts).length = drafts.length + 1 := by
  simp [requestRows]

theorem requestRows_eq_cons (t : ℤ) (drafts : List ℤ) : requestRows A full s (t :: drafts) =
    rowMask A full s [] :: (range (drafts.length + 1)).map fun j =>
      rowMask A full s (t :: drafts.take j) := by
  unfold requestRows
  rw [length_cons, range_succ_eq_map, map_cons, map_map]
  rfl

theorem requestRows_padding (drafts : List ℤ) : requestRows A full s (-1 :: drafts) =
    rowMask A full s [] :: .replicate (drafts.length + 1) full := by
  rw [requestRows_eq_cons]
  congr 1
  refine eq_replicate_iff.2 ⟨by simp, fun x hx => ?_⟩
  obtain ⟨j, -, rfl⟩ := mem_map.1 hx
  exact if_pos (.head _)

theorem rowMask_terminated (h : A.isTerminated s = true) (drafts : List ℤ) :
    rowMask A full s drafts = full := by
  unfold rowMask
  rw [maskAfter_of_terminated h, ite_self]

theorem requestRows_terminated (h : A.isTerminated s = true) (drafts : List ℤ) :
    requestRows A full s drafts = .replicate (drafts.length + 1) full := by
  refine eq_replicate_iff.2 ⟨length_requestRows s drafts, fun x hx => ?_⟩
  obtain ⟨j, -, rfl⟩ := mem_map.1 hx
  exact rowMask_terminated h _

theorem requestRows_cons {s' : σ} {t : ℤ} (h : A.isTerminated s = false) (ht : t ≠ -1)
    (hs : A.accept s t = some s') (drafts : List ℤ) :
    requestRows A full s (t :: drafts) = A.mask s :: requestRows A full s' drafts := by
  rw [requestRows_eq_cons]
  congr 1
  · simp [rowMask, maskAfter, h]
  · refine map_congr_left fun j _ => ?_
    unfold rowMask
    rw [maskAfter_cons h hs]
    simp [mem_cons, ht.symm, false_or]

/-! ### One request -/

/-- What is written into a row. -/
def fillMask (A : Automaton σ ℤ Mask) (full : Mask) (grammar : Matcher σ) (applyBitmask : Bool) :
    Mask :=
  if applyBitmask = true ∧ A.isTerminated grammar.state = false then A.mask grammar.state else full

theorem fillBitmasks_eq (batch : List (Fill σ)) : ∀ bitmask : List Mask,
    (∀ f ∈ batch, f.2.1 < bitmask.length) → fillBitmasks A full bitmask batch =
      .ok (setAll bitmask (batch.map fun f => (f.2.1, fillMask A full f.1 f.2.2))) := by
  induction batch with
  | nil => exact fun bitmask _ => rfl
  | cons f batch ih =>
    intro bitmask hlt
    have hf := hlt f (.head _)
    unfold fillBitmasks at ih ⊢
    rw [foldlM_cons]
    dsimp only at hf ⊢
    rw [if_pos hf]
    refine ih _ fun f' hf' => ?_
    rw [length_set]
    exact hlt f' (.tail _ hf')

theorem fillToken_eq {f : Filling σ Mask} (hlt : f.cumulativeIndex < f.bitmask.length) (token : ℤ) :
    fillToken A full f token = let f' : Filling σ Mask := { f with
        bitmask := f.bitmask.set f.cumulativeIndex (fillMask A full f.grammar f.applyBitmask)
        applyBitmask := if token = -1 then false else f.applyBitmask
        cumulativeIndex := f.cumulativeIndex + 1 }
      if f'.applyBitmask = true ∧ A.isTerminated f.grammar.state = false then
        match A.accept f.grammar.state token with
        | some s => .ok { f' with
            grammar := ⟨s, f.grammar.state :: f.grammar.past⟩
            stateAdvancements := f.stateAdvancements + 1 }
        | none => .error (.assertionError "")
      else .ok f' := by
  unfold fillToken acceptDraft
  rw [fillBitmasks_eq _ _ (by simpa using hlt)]
  refine if_congr Iff.rfl ?_ rfl
  unfold Matcher.acceptTokens
  cases hs : A.accept f.grammar.state token with
  | none => simp
  | some s => rfl

variable (A full) in
/-- Nothing is masked any more. -/
theorem fillTokens_full (tokens : List ℤ) : ∀ f : Filling σ Mask,
    (f.applyBitmask = false ∨ A.isTerminated f.grammar.state = true) →
    f.cumulativeIndex + tokens.length ≤ f.bitmask.length → ∃ applyBitmask,
      tokens.foldlM (fillToken A full) f = .ok { f with
        bitmask := overwrite f.bitmask f.cumulativeIndex (.replicate tokens.length full)
        cumulativeIndex := f.cumulativeIndex + tokens.length
        applyBitmask := applyBitmask } := by
  induction tokens with
  | nil => exact fun f _ _ => ⟨f.applyBitmask, rfl⟩
  | cons t tokens ih =>
    intro f hfull hlen
    rw [length_cons] at hlen
    have hmask : fillMask A full f.grammar f.applyBitmask = full := by
      refine if_neg fun h => ?_
      rcases hfull with hfull | hfull
      · exact absurd h.1 (by simp [hfull])
      · exact absurd h.2 (by simp [hfull])
    have hgoes : ¬ ((if t = -1 then false else f.applyBitmask) = true ∧
        A.isTerminated f.grammar.state = false) := fun h => by
      rcases hfull with hfull | hfull
      · rw [hfull, ite_self] at h
        cases h.1
      · rw [hfull] at h
        cases h.2
    obtain ⟨a, ha⟩ := ih { f with
      bitmask := f.bitmask.set f.cumulativeIndex full
      applyBitmask := if t = -1 then false else f.applyBitmask
      cumulativeIndex := f.cumulativeIndex + 1 }
      (hfull.imp_left fun h => by simp [h]) (by rw [length_set]; dsimp only; omega)
    refine ⟨a, ?_⟩
    rw [foldlM_cons, fillToken_eq (by omega)]
    simp only [if_neg hgoes, hmask, bind, Except.bind]
    rw [ha, length_cons]
    simp [replicate_succ, overwrite, add_assoc, add_comm 1]

variable (A full) in
/-- The rows of padding: the first one is the mask of the state. -/
theorem fillTokens_padding (n : ℕ) (f : Filling σ Mask) (happly : f.applyBitmask = true)
    (hlen : f.cumulativeIndex + n + 1 ≤ f.bitmask.length) : ∃ applyBitmask,
      (replicate n (-1) ++ [-1]).foldlM (fillToken A full) f = .ok { f with
        bitmask := overwrite f.bitmask f.cumulativeIndex
          (requestRows A full f.grammar.state (.replicate n (-1)))
        cumulativeIndex := f.cumulativeIndex + (n + 1)
        applyBitmask := applyBitmask } := by
  have hrows : requestRows A full f.grammar.state (.replicate n (-1)) =
      fillMask A full f.grammar f.applyBitmask :: .replicate n full := by
    have hmask : rowMask A full f.grammar.state [] = fillMask A full f.grammar f.applyBitmask := by
      unfold rowMask fillMask maskAfter
      cases A.isTerminated f.grammar.state <;> simp [happly]
    cases n with
    | zero => rw [← hmask]; rfl
    | succ n => rw [replicate_succ, requestRows_padding, hmask, length_replicate]
  obtain ⟨a, ha⟩ := fillTokens_full A full (.replicate n (-1)) { f with
    bitmask := f.bitmask.set f.cumulativeIndex (fillMask A full f.grammar f.applyBitmask)
    applyBitmask := false
    cumulativeIndex := f.cumulativeIndex + 1 } (.inl rfl)
    (by rw [length_set, length_replicate]; dsimp only; omega)
  refine ⟨a, ?_⟩
  rw [← replicate_succ', replicate_succ, foldlM_cons, fillToken_eq (by omega)]
  simp only [if_true, Bool.false_eq_true, false_and, if_false, bind, Except.bind]
  rw [ha, hrows, length_replicate]
  simp [overwrite, add_assoc, add_comm 1]

variable (A full) in
/-- The rows of a request whose drafts are validated; going back from there is as before. -/
theorem fillTokens_validated (n : ℕ) (valid : List ℤ) : ∀ f : Filling σ Mask,
    f.applyBitmask = true → -1 ∉ valid → (A.run f.grammar.state valid).isSome = true →
    f.cumulativeIndex + (valid.length + n) + 1 ≤ f.bitmask.length → ∃ f',
      ((valid ++ replicate n (-1)) ++ [-1]).foldlM (fillToken A full) f = .ok f' ∧
        f'.bitmask = overwrite f.bitmask f.cumulativeIndex
          (requestRows A full f.grammar.state (valid ++ .replicate n (-1))) ∧
        f'.cumulativeIndex = f.cumulativeIndex + (valid.length + n + 1) ∧
        f'.grammar.rollback f'.stateAdvancements = f.grammar.rollback f.stateAdvancements := by
  induction valid with
  | nil =>
    intro f happly _ _ hlen
    obtain ⟨a, ha⟩ := fillTokens_padding A full n f happly (by simpa using hlen)
    exact ⟨_, ha, rfl, by simp, rfl⟩
  | cons t valid ih =>
    intro f happly hmem hrun hlen
    rw [length_cons] at hlen ⊢
    rw [mem_cons, not_or] at hmem
    rw [run_cons] at hrun
    cases hterm : A.isTerminated f.grammar.state with
    | true =>
      obtain ⟨a, ha⟩ := fillTokens_full A full
        ((t :: valid ++ .replicate n (-1)) ++ [-1]) f (.inr hterm)
        (by simp only [length_append, length_replicate]; omega)
      refine ⟨_, ha, ?_, ?_, rfl⟩
      · rw [requestRows_terminated hterm, length_append, length_singleton]
      · simp only [length_append, length_cons, length_replicate, length_nil]
    | false =>
      cases hs : A.accept f.grammar.state t with
      | none =>
        rw [hs] at hrun
        cases hrun
      | some s =>
        rw [hs] at hrun
        obtain ⟨f', hf', hbitmask, hindex, hback⟩ := ih { f with
          bitmask := f.bitmask.set f.cumulativeIndex (A.mask f.grammar.state)
          grammar := ⟨s, f.grammar.state :: f.grammar.past⟩
          cumulativeIndex := f.cumulativeIndex + 1
          stateAdvancements := f.stateAdvancements + 1 } happly hmem.2 hrun
          (by rw [length_set]; dsimp only; omega)
        refine ⟨f', ?_, ?_, hindex.trans (by dsimp only; omega), hback⟩
        · rw [cons_append, cons_append, foldlM_cons, fillToken_eq (by omega)]
          simp only [if_neg (Ne.symm hmem.1), happly, hterm, hs, and_self, if_true, fillMask, bind,
            Except.bind]
          simpa only [happly] using hf'
        · rw [hbitmask, cons_append, requestRows_cons hterm (Ne.symm hmem.1) hs]
          rfl

/-! ### All requests -/

variable [DecidableEq ρ] {m : StructuredOutputManager Mask}
  {spec : OrderedDict ρ (List ℤ)} {requests requests' : OrderedDict ρ (Request σ)} {id : ρ}

/-- The drafts of a request. -/
def draftsOf (spec : OrderedDict ρ (List ℤ)) (id : ρ) : List ℤ := (spec.lookup id).getD []

/-- The grammar of a request. -/
def grammarOf (requests : OrderedDict ρ (Request σ)) (id : ρ) : Option (Matcher σ) :=
  (requests.lookup id).bind Request.grammar

/-- The masks of a request; all is allowed if it has no grammar. -/
def rowsOf (A : Automaton σ ℤ Mask) (full : Mask) (spec : OrderedDict ρ (List ℤ))
    (requests : OrderedDict ρ (Request σ)) (id : ρ) : List Mask :=
  match grammarOf requests id with
  | none => .replicate ((draftsOf spec id).length + 1) full
  | some grammar => requestRows A full grammar.state (draftsOf spec id)

@[simp] theorem length_rowsOf (id : ρ) :
    (rowsOf A full spec requests id).length = (draftsOf spec id).length + 1 := by
  unfold rowsOf
  cases grammarOf requests id <;> simp

/-- A request for which `should_fill_bitmask` is true, with drafts that its grammar has validated. -/
structure Fillable (A : Automaton σ ℤ Mask) (m : StructuredOutputManager Mask)
    (spec : OrderedDict ρ (List ℤ)) (request : Request σ) (id : ρ) : Prop where
  shouldFill : ∃ request', m.shouldFillBitmask request = .ok (true, request')
  grammar : ∃ grammar, request.grammar = some grammar ∧ Validated A grammar.state (draftsOf spec id)

theorem grammar_shouldFillBitmask {r r' : Request σ} {b : Bool}
    (h : m.shouldFillBitmask r = .ok (b, r')) : r'.grammar = r.grammar := by
  unfold StructuredOutputManager.shouldFillBitmask at h
  cases hr : m.reasoner with
  | none =>
    rw [hr] at h
    cases h
    rfl
  | some isReasoningEnd =>
    simp only [hr] at h
    split_ifs at h
    · cases h
      rfl
    · cases hs : r.structuredOutputRequest with
      | none =>
        rw [hs] at h
        cases h
      | some s =>
        simp only [hs] at h
        cases h
        unfold Request.grammar
        rw [hs]
        rfl

theorem setGrammar_self {r : Request σ} {grammar : Matcher σ} (h : r.grammar = some grammar) :
    r.setGrammar grammar = r := by
  obtain ⟨prompt, sreq⟩ := r
  cases sreq with
  | none => rfl
  | some s =>
    obtain rfl := Option.some.inj h
    rfl

/-- The requests whose rows have been filled: the grammars are as they were. -/
structure Refilled (requests requests' : OrderedDict ρ (Request σ)) (ids : List ρ) : Prop where
  grammars : ∀ id, grammarOf requests' id = grammarOf requests id
  others : ∀ id ∉ ids, requests'.lookup id = requests.lookup id

theorem Refilled.setItem {request request' : Request σ} (hlookup : requests.lookup id = some request)
    (hgrammar : request'.grammar = request.grammar) :
    Refilled requests (requests.setItem id request') [id] := by
  refine ⟨fun a => ?_, fun a ha => ?_⟩
  · unfold grammarOf
    rw [lookup_setItem]
    split_ifs with h
    · rw [h, hlookup]
      exact hgrammar
    · rfl
  · rw [lookup_setItem, if_neg (by simpa using ha)]

variable {ids : List ρ}

theorem Refilled.cons {requests₁ : OrderedDict ρ (Request σ)}
    (h : Refilled requests requests₁ [id]) (h' : Refilled requests₁ requests' ids) :
    Refilled requests requests' (id :: ids) := by
  refine ⟨fun a => (h'.grammars a).trans (h.grammars a), fun a ha => ?_⟩
  rw [mem_cons, not_or] at ha
  exact (h'.others a ha.2).trans (h.others a (by simpa using ha.1))

theorem Refilled.rowsOf_eq (h : Refilled requests requests' ids) (id : ρ) :
    rowsOf A full spec requests' id = rowsOf A full spec requests id := by
  unfold rowsOf
  rw [h.grammars]

variable (full) in
open StructuredOutputManager in
theorem fillRequest_eq {rows : Rows ρ σ Mask} {request : Request σ}
    (hlookup : rows.requests.lookup id = some request) (hfill : Fillable A m spec request id)
    (hlen : rows.cumulativeIndex + ((draftsOf spec id).length + 1) ≤ rows.bitmask.length) :
    ∃ requests', m.fillRequest A full spec rows id = .ok
      ⟨overwrite rows.bitmask rows.cumulativeIndex (rowsOf A full spec rows.requests id),
        rows.cumulativeIndex + ((draftsOf spec id).length + 1), requests'⟩ ∧
      Refilled rows.requests requests' [id] := by
  obtain ⟨request', hshould⟩ := hfill.shouldFill
  obtain ⟨grammar, hgrammar, valid, n, hdrafts, hmem, hrun⟩ := hfill.grammar
  have hgrammar' := (grammar_shouldFillBitmask hshould).trans hgrammar
  have hcount : (draftsOf spec id).length = valid.length + n := by
    rw [hdrafts, length_append, length_replicate]
  obtain ⟨f', hf', hbitmask, hindex, hback⟩ := fillTokens_validated A full n valid
    ⟨rows.bitmask, grammar, rows.cumulativeIndex, true, 0⟩ rfl hmem hrun (by dsimp only; omega)
  have hback' : f'.grammar.rollback f'.stateAdvancements = some grammar := hback
  refine ⟨rows.requests.setItem id request', ?_,
    .setItem hlookup (grammar_shouldFillBitmask hshould)⟩
  unfold fillRequest
  simp only [hlookup, hgrammar, hshould, bind, Except.bind]
  have hrows : rowsOf A full spec rows.requests id =
      requestRows A full grammar.state (valid ++ .replicate n (-1)) := by
    unfold rowsOf grammarOf
    rw [hlookup, Option.bind_some, hgrammar, hdrafts]
  rw [hrows, hcount, ← hbitmask, ← hindex]
  unfold draftsOf at hdrafts
  rw [hdrafts, hf']
  dsimp only
  split_ifs with hpos
  · rw [hback']
    simp only [setGrammar_self hgrammar']
    rfl
  · rw [Nat.eq_zero_of_not_pos hpos] at hback'
    rw [Option.some.inj hback', setGrammar_self hgrammar']
    rfl

/-- The number of rows of some requests. -/
def numRows (spec : OrderedDict ρ (List ℤ)) (ids : List ρ) : ℕ :=
  (ids.map fun id => (draftsOf spec id).length + 1).sum

@[simp] theorem numRows_cons (id : ρ) (ids : List ρ) :
    numRows spec (id :: ids) = (draftsOf spec id).length + 1 + numRows spec ids := rfl

/-- Every request is there and can be filled. -/
def AllFillable (A : Automaton σ ℤ Mask) (m : StructuredOutputManager Mask)
    (spec : OrderedDict ρ (List ℤ)) (requests : OrderedDict ρ (Request σ)) (ids : List ρ) : Prop :=
  ∀ id ∈ ids, ∃ request, requests.lookup id = some request ∧ Fillable A m spec request id

/-- The other requests can still be filled. -/
theorem AllFillable.tail (h : AllFillable A m spec requests (id :: ids))
    (hnodup : (id :: ids).Nodup) (hrefilled : Refilled requests requests' [id]) :
    AllFillable A m spec requests' ids := by
  intro a ha
  have hne : a ≠ id := fun heq => (nodup_cons.1 hnodup).1 (heq ▸ ha)
  rw [hrefilled.others a (by simpa using hne)]
  exact h a (.tail _ ha)

variable (full) in
open StructuredOutputManager in
theorem fillSerial_eq (ids : List ρ) : ∀ rows : Rows ρ σ Mask, ids.Nodup →
    AllFillable A m spec rows.requests ids →
    rows.cumulativeIndex + numRows spec ids ≤ rows.bitmask.length → ∃ requests',
      m.fillSerial A full spec ids rows = .ok
        ⟨overwrite rows.bitmask rows.cumulativeIndex (ids.flatMap (rowsOf A full spec rows.requests)),
          rows.cumulativeIndex + numRows spec ids, requests'⟩ ∧
        Refilled rows.requests requests' ids := by
  induction ids with
  | nil => exact fun rows _ _ _ => ⟨rows.requests, rfl, ⟨fun _ => rfl, fun _ _ => rfl⟩⟩
  | cons id ids ih =>
    intro rows hnodup hfill hlen
    rw [numRows_cons] at hlen ⊢
    obtain ⟨request, hlookup, hfillable⟩ := hfill id (.head _)
    obtain ⟨requests₁, hrow, hrefilled⟩ := fillRequest_eq full hlookup hfillable (by omega)
    obtain ⟨requests₂, hrows, hrefilled'⟩ := ih
      ⟨overwrite rows.bitmask rows.cumulativeIndex (rowsOf A full spec rows.requests id),
        rows.cumulativeIndex + ((draftsOf spec id).length + 1), requests₁⟩ (nodup_cons.1 hnodup).2
      (hfill.tail hnodup hrefilled) (by rw [length_overwrite]; dsimp only; omega)
    have hmasks : ids.flatMap (rowsOf A full spec requests₁) =
        ids.flatMap (rowsOf A full spec rows.requests) :=
      flatMap_congr fun a _ => hrefilled.rowsOf_eq a
    refine ⟨requests₂, ?_, hrefilled.cons hrefilled'⟩
    unfold fillSerial at hrows ⊢
    rw [foldlM_cons, hrow]
    refine hrows.trans ?_
    rw [hmasks, flatMap_cons, overwrite_append, length_rowsOf, add_assoc]

/-- The rows that are collected for the pool. -/
def fillsFrom (requests : OrderedDict ρ (Request σ)) : ℕ → List ρ → List (Fill σ)
  | _, [] => []
  | i, id :: ids => match grammarOf requests id with
    | none => fillsFrom requests (i + 1) ids
    | some grammar => (grammar, i, true) :: fillsFrom requests (i + 1) ids

theorem fillsFrom_congr (h : ∀ id, grammarOf requests' id = grammarOf requests id) (ids : List ρ) :
    ∀ i, fillsFrom requests' i ids = fillsFrom requests i ids := by
  induction ids with
  | nil => exact fun i => rfl
  | cons id ids ih =>
    intro i
    unfold fillsFrom
    rw [h, ih]

open StructuredOutputManager in
/-- The batches have the rows of all requests. -/
theorem addToBatch_foldlM (hpool : m.fillBitmaskParallelThreshold < m.maxNumSeqs) (ids : List ρ) :
    ∀ b : Batches ρ σ, ids.Nodup → AllFillable A m spec b.requests ids → ∃ b',
      ids.foldlM m.addToBatch b = .ok b' ∧ b'.promises.flatten ++ b'.batch =
          b.promises.flatten ++ b.batch ++ fillsFrom b.requests b.cumulativeIndex ids ∧
        b'.cumulativeIndex = b.cumulativeIndex + ids.length ∧ Refilled b.requests b'.requests ids := by
  induction ids with
  | nil =>
    exact fun b _ _ => ⟨b, rfl, (append_nil _).symm, rfl, ⟨fun _ => rfl, fun _ _ => rfl⟩⟩
  | cons id ids ih =>
    intro b hnodup hfill
    obtain ⟨request, hlookup, hfillable⟩ := hfill id (.head _)
    obtain ⟨request', hshould⟩ := hfillable.shouldFill
    obtain ⟨grammar, hgrammar, -⟩ := hfillable.grammar
    have hrefilled : Refilled b.requests (b.requests.setItem id request') [id] :=
      .setItem hlookup (grammar_shouldFillBitmask hshould)
    obtain ⟨b₁, hb₁, hfills, hindex, hrequests⟩ : ∃ b₁, m.addToBatch b id = .ok b₁ ∧
        b₁.promises.flatten ++ b₁.batch =
          b.promises.flatten ++ b.batch ++ [(grammar, b.cumulativeIndex, true)] ∧
        b₁.cumulativeIndex = b.cumulativeIndex + 1 ∧
        b₁.requests = b.requests.setItem id request' := by
      unfold addToBatch
      simp only [hlookup, hgrammar, hshould, if_neg (not_le.2 hpool), bind, Except.bind]
      split_ifs
      · exact ⟨_, rfl, by simp, rfl, rfl⟩
      · exact ⟨_, rfl, by simp, rfl, rfl⟩
    obtain ⟨b', hb', hfills', hindex', hrefilled'⟩ := ih b₁ (nodup_cons.1 hnodup).2
      (hrequests ▸ hfill.tail hnodup hrefilled)
    refine ⟨b', ?_, ?_, ?_, hrefilled.cons (hrequests ▸ hrefilled')⟩
    · rw [foldlM_cons, hb₁]
      exact hb'
    · have hgrammarOf : grammarOf b.requests id = some grammar := by
        unfold grammarOf
        rw [hlookup, Option.bind_some, hgrammar]
      rw [hfills', hfills, hindex, hrequests, fillsFrom_congr hrefilled.grammars, fillsFrom, hgrammarOf]
      simp
    · rw [hindex', hindex, length_cons]
      omega

variable (full) in
theorem setAll_fillsFrom (ids : List ρ) : ∀ (bitmask : List Mask) (i : ℕ),
    AllFillable A m spec requests ids → (∀ id ∈ ids, draftsOf spec id = []) →
    (∀ f ∈ fillsFrom requests i ids, i ≤ f.2.1 ∧ f.2.1 < i + ids.length) ∧
      ((fillsFrom requests i ids).map fun f => f.2.1).Nodup ∧
      setAll bitmask ((fillsFrom requests i ids).map fun f => (f.2.1, fillMask A full f.1 f.2.2)) =
        overwrite bitmask i (ids.flatMap (rowsOf A full spec requests)) := by
  induction ids with
  | nil => exact fun bitmask i _ _ => ⟨nofun, nodup_nil, rfl⟩
  | cons id ids ih =>
    intro bitmask i hfill hdrafts
    obtain ⟨request, hlookup, hfillable⟩ := hfill id (.head _)
    obtain ⟨grammar, hgrammar, -⟩ := hfillable.grammar
    have hgrammarOf : grammarOf requests id = some grammar := by
      unfold grammarOf
      rw [hlookup, Option.bind_some, hgrammar]
    obtain ⟨hindex, hnodup, hset⟩ := ih (bitmask.set i (fillMask A full grammar true)) (i + 1)
      (fun a ha => hfill a (.tail _ ha))
      fun a ha => hdrafts a (.tail _ ha)
    have hrow : rowsOf A full spec requests id = [fillMask A full grammar true] := by
      unfold rowsOf
      rw [hgrammarOf, hdrafts id mem_cons_self]
      simp only [requestRows, rowMask, fillMask, maskAfter, take_nil]
      cases A.isTerminated grammar.state <;> rfl
    have hcons : fillsFrom requests i (id :: ids) =
        (grammar, i, true) :: fillsFrom requests (i + 1) ids := by
      rw [fillsFrom, hgrammarOf]
    rw [hcons, flatMap_cons, hrow]
    refine ⟨fun f hf => ?_, nodup_cons.2 ⟨fun hmem => ?_, hnodup⟩, hset⟩
    · rcases mem_cons.1 hf with rfl | hf
      · simp
      · obtain ⟨hlo, hhi⟩ := hindex f hf
        rw [length_cons]
        omega
    · obtain ⟨f, hf, heq⟩ := mem_map.1 hmem
      have hlo := (hindex f hf).1
      dsimp only at heq
      omega

variable (full) in
open StructuredOutputManager in
/-- The rows are filled by the pool: in whatever order, they are the same. -/
theorem fillParallel_eq (order : FillOrder σ) (ids : List ρ) (rows : Rows ρ σ Mask)
    (hpool : m.fillBitmaskParallelThreshold < m.maxNumSeqs) (hnodup : ids.Nodup)
    (hfill : AllFillable A m spec rows.requests ids) (hdrafts : ∀ id ∈ ids, draftsOf spec id = [])
    (hlen : rows.cumulativeIndex + ids.length ≤ rows.bitmask.length) : ∃ requests',
      m.fillParallel A full order ids rows = .ok
        ⟨overwrite rows.bitmask rows.cumulativeIndex (ids.flatMap (rowsOf A full spec rows.requests)),
          rows.cumulativeIndex + ids.length, requests'⟩ ∧ Refilled rows.requests requests' ids := by
  obtain ⟨b, hb, hfills, hindex, hrefilled⟩ := addToBatch_foldlM hpool ids
    ⟨[], [], rows.cumulativeIndex, rows.requests⟩ hnodup hfill
  obtain ⟨hrange, hnodup', hset⟩ := setAll_fillsFrom full ids rows.bitmask
    rows.cumulativeIndex hfill hdrafts
  have hflatten : (if b.batch = [] then b.promises else b.promises ++ [b.batch]).flatten =
      fillsFrom rows.requests rows.cumulativeIndex ids := by
    refine Eq.trans ?_ (hfills.trans (nil_append _))
    split_ifs with hnil
    · rw [hnil, append_nil]
    · rw [flatten_append, flatten_singleton]
  have hperm := order.perm (fillsFrom rows.requests rows.cumulativeIndex ids)
  refine ⟨b.requests, ?_, hrefilled⟩
  unfold fillParallel
  simp only [hb, hflatten, bind, Except.bind]
  rw [fillBitmasks_eq _ _ fun f hf => ?_]
  · rw [setAll_perm (hperm.map _), hset]
    · exact congrArg (fun i => Except.ok (Rows.mk _ i b.requests)) hindex
    · rw [map_map]
      exact ((hperm.map _).nodup_iff).2 hnodup'
  · have := (hrange f (hperm.mem_iff.1 hf)).2
    omega

end LoptVllm.StructuredOutput
