import LoptVllm.Worker.Steps

/-!
# Invariants of the rows

A property of a row and its request holds of every row in every run, if each operation preserves it.
-/

namespace LoptVllm.Worker

open InputBatch OrderedDict Option List

/-- What holds of a row, its request, and the output tokens of all requests. -/
abbrev RowProperty := (ℕ → List ℤ) → InputBatch → ℕ → CachedRequestState → Prop

/-- A property of the rows that the operations preserve, in a run in which each call meets a
condition. `moveOk` says of a move of `condense` what is needed of it. -/
structure RowInvariant (meets : ModelRunner → RunnerCall → Prop)
    (moveOk : InputBatch → ℕ × ℕ → Prop) (Q : RowProperty) : Prop where
  /-- Without added requests the output tokens do not matter. -/
  outputs : ∀ {o o' : ℕ → List ℤ} {b : InputBatch} {k req}, b.batchUpdateBuilder.added = [] →
    Q o b k req → Q o' b k req
  sameRows : ∀ {o} {b b' : InputBatch} {k req}, SameRows b b' → (b.idAt k).isSome → Q o b k req →
    Q o b' k req
  removes : ∀ {o} {b b' : InputBatch} {id i k} {req : CachedRequestState}, Removes b b' id i →
    b.batchUpdateBuilder.moved = [] → k ≠ i →
    req.reqId ≠ id → Q o b k req → Q o b' k req
  adds_self : ∀ {w : ModelRunner} {b' id specs i} {req : CachedRequestState}, Adds w.inputBatch b' req i →
    (∀ k, k ∈ b'.batchUpdateBuilder.removed ↔ k ∈ w.inputBatch.batchUpdateBuilder.removed ∧ k ≠ i) →
    w.inputBatch.batchUpdateBuilder.moved = [] → w.requests.lookup id = some req → req.reqId = id →
    w.Fits req → meets w (.add id specs) → Q w.outputTokenIds b' i req
  adds_of_ne : ∀ {w : ModelRunner} {b' i k} {added req : CachedRequestState}, Adds w.inputBatch b' added i →
    (∀ k, k ∈ b'.batchUpdateBuilder.removed ↔ k ∈ w.inputBatch.batchUpdateBuilder.removed ∧ k ≠ i) →
    w.inputBatch.batchUpdateBuilder.moved = [] → w.Fits added → k ≠ i → req.reqId ≠ added.reqId →
    Q w.outputTokenIds w.inputBatch k req → Q w.outputTokenIds b' k req
  ok_frame : ∀ {b b' : InputBatch} {l e removed m}, Moves (b.withRemoved removed) b' l e → m.1 ≠ l →
    m.1 ≠ e → m.2 ≠ l → m.2 ≠ e → moveOk b m → moveOk b' m
  ok_of_meets : ∀ {w : ModelRunner}, meets w .condense → ∀ m ∈ w.inputBatch.condenseMoves, moveOk
    { w.inputBatch with
      batchUpdateBuilder := w.inputBatch.batchUpdateBuilder.ensureRemovedSorted } m
  moves : ∀ {o} {b b' : InputBatch} {l e k removed req}, Moves (b.withRemoved removed) b' l e →
    b.batchUpdateBuilder.removed = e :: removed →
    (∀ m ∈ b.batchUpdateBuilder.moved, m.1 ≠ e ∧ m.2.1 ≠ e) → l ≠ e → k ≠ l → moveOk b (l, e) →
    Q o b (if k = e then l else k) req → Q o b' k req
  swaps : ∀ {o} {w : ModelRunner} {b' i1 i2 k req}, Swaps w.inputBatch b' i1 i2 → meets w (.swap i1 i2) →
    Q o w.inputBatch (Equiv.swap i1 i2 k) req → Q o b' k req
  advance_self : ∀ {o} {b : InputBatch} {i n new} {req : CachedRequestState}, req.blockIds.length =
    b.blockTable.length →
    (∀ ids ∈ new, ids.length = b.blockTable.length) → Q o b i req →
    Q o (b.advance i n new) i (req.advance n new)
  advance_of_ne : ∀ {o} {b : InputBatch} {i k n new req}, k ≠ i → Q o b k req →
    Q o (b.advance i n new) k req
  extend_self : ∀ {o} {b : InputBatch} {i ids} {req : CachedRequestState}, Q o b i req →
    Q o (b.extend i ids) i (req.extend ids)
  extend_of_ne : ∀ {o} {b : InputBatch} {i k ids req}, k ≠ i → Q o b k req → Q o (b.extend i ids) k req
  refreshes : ∀ {w : ModelRunner} {b' k id} {req : CachedRequestState},
    Refreshes w.outputTokenIds w.inputBatch b' →
    w.requests.lookup id = some req → req.reqId = id → w.Fits req →
    Q w.outputTokenIds w.inputBatch k req → Q w.outputTokenIds b' k req

/-- A property holds of every row with a request. -/
def RowsHold (Q : RowProperty) (w : ModelRunner) : Prop :=
  ∀ i id, w.inputBatch.idAt i = some id → ∃ req, w.requests.lookup id = some req ∧
    Q w.outputTokenIds w.inputBatch i req

variable {b' : InputBatch} {w w' : ModelRunner} {req : CachedRequestState} {Q : RowProperty}
  {meets : ModelRunner → RunnerCall → Prop} {moveOk : InputBatch → ℕ × ℕ → Prop}

section

variable (hQ : RowInvariant meets moveOk Q)

include hQ

theorem RowInvariant.removed {id i : ℕ}
    {requests : OrderedDict ℕ CachedRequestState} (hs : Shape .updating w) (hrows : RowsHold Q w)
    (h : Removes w.inputBatch b' id i)
    (hid : w.inputBatch.idAt i = some id)
    (hrequests : ∀ id', id' ≠ id → requests.lookup id' = w.requests.lookup id') :
    RowsHold Q { w with requests := requests, inputBatch := b' } := by
  intro k id' hk
  have hk' : b'.idAt k = some id' := hk
  rw [h.idAt] at hk'
  split_ifs at hk' with hki
  obtain ⟨req, hreq, hmatch⟩ := hrows k id' hk'
  have hne : id' ≠ id := fun heq => hki <| by
    subst heq
    exact hs.wellFormed.row_unique hk' hid
  have hid' := (hs.requests id' req hreq).1
  have hadded : b'.batchUpdateBuilder.added = [] := by
    rw [h.builder]
    exact hs.added rfl
  exact ⟨req, (hrequests id' hne).trans hreq,
    hQ.outputs hadded (hQ.removes h (hs.holes nofun).2.2 hki (hid' ▸ hne) hmatch)⟩

/-- The state of a request is replaced in the dictionary, and changes its own row only. -/
theorem RowInvariant.setItem (hrows : RowsHold Q w)
    (req : CachedRequestState) (hadded : b'.batchUpdateBuilder.added = [])
    (hidAt : ∀ k, b'.idAt k = w.inputBatch.idAt k)
    (hself : ∀ k req', w.inputBatch.idAt k = some req.reqId → w.requests.lookup req.reqId = some req' →
      Q w.outputTokenIds w.inputBatch k req' → Q w.outputTokenIds b' k req)
    (hframe : ∀ k req', w.inputBatch.idAt k ≠ some req.reqId → (w.inputBatch.idAt k).isSome →
      Q w.outputTokenIds w.inputBatch k req' → Q w.outputTokenIds b' k req') :
    RowsHold Q { w with requests := w.requests.setItem req.reqId req, inputBatch := b' } := by
  intro k id hk
  have hk' : w.inputBatch.idAt k = some id := (hidAt k).symm.trans hk
  obtain ⟨req', hreq', hmatch⟩ := hrows k id hk'
  have hlookup : (w.requests.setItem req.reqId req).lookup id =
      if id = req.reqId then some req else w.requests.lookup id :=
    lookup_setItem _ _ _ _
  rw [hlookup]
  by_cases hid : id = req.reqId
  · subst hid
    rw [if_pos rfl]
    exact ⟨req, rfl, hQ.outputs hadded (hself k req' hk' hreq' hmatch)⟩
  · rw [if_neg hid]
    refine ⟨req', hreq', hQ.outputs hadded (hframe k req' ?_ (hk' ▸ rfl) hmatch)⟩
    rw [hk']
    exact fun heq => hid (some.inj heq)

variable {p : Phase}

theorem RowInvariant.added {id i : ℕ}
    {specs : List ℤ} {b₁ : InputBatch} (hs : Shape p w) (hp : p ≠ .condensed) (hrows : RowsHold Q w)
    (hreq : w.requests.lookup id = some req)
    (hrow : w.inputBatch.reqIdToIndex.lookup id = none) (h : Adds w.inputBatch b₁ req i)
    (hspecs : b₁.updateReqSpecTokenIds id specs = .ok b') (hmeets : meets w (.add id specs)) :
    RowsHold Q { w with inputBatch := b' } := by
  have hsame := sameRows_updateReqSpecTokenIds h.wellFormed hspecs
  obtain ⟨-, -, hmoved⟩ := hs.holes hp
  obtain ⟨hid, hfits⟩ := hs.requests id req hreq
  have hmem := hs.mem_removed hp h
  intro k id' hk
  have hk' : b₁.idAt k = some id' := (hsame.idAt k).symm.trans hk
  have hsome : (b₁.idAt k).isSome := hk' ▸ rfl
  rw [h.idAt] at hk'
  split_ifs at hk' with hki
  · cases hk'
    subst hki
    exact ⟨req, hid ▸ hreq,
      hQ.sameRows hsame hsome (hQ.adds_self (w := w) h hmem hmoved hreq hid hfits hmeets)⟩
  · obtain ⟨req', hreq', hmatch⟩ := hrows k id' hk'
    have hne : req'.reqId ≠ req.reqId := fun heq => by
      rw [(hs.requests id' req' hreq').1, hid] at heq
      rw [← hs.wellFormed.inverse, heq, hrow] at hk'
      cases hk'
    exact ⟨req', hreq', hQ.sameRows hsame hsome
      (hQ.adds_of_ne (w := w) h hmem hmoved hfits hki hne hmatch)⟩

theorem RowInvariant.condensed (hs : Shape p w)
    (hp : p ≠ .condensed) (hrows : RowsHold Q w) (h : w.inputBatch.condense = .ok b')
    (hmeets : meets w .condense) : RowsHold Q { w with inputBatch := b' } := by
  obtain ⟨hholes, hsorted, hmoved⟩ := hs.holes hp
  -- a row that is moved is not one of those that are still to be filled
  obtain ⟨⟨hrows', -⟩, -, -⟩ := condense_eq
    (fun c => (∀ i id, c.idAt i = some id → ∃ req, w.requests.lookup id = some req ∧
      Q w.outputTokenIds c i req) ∧
      ∀ m ∈ c.batchUpdateBuilder.moved, ∀ e ∈ c.batchUpdateBuilder.removed, m.1 ≠ e ∧ m.2.1 ≠ e)
    moveOk
    ⟨hQ.ok_frame, fun {c c' l e removed} hrem hl he hlt hempty hm hok ⟨hrows, hdisjoint⟩ => by
      refine ⟨fun k id hk => ?_, fun m hmem r hr => ?_⟩
      · have hidAt : c'.idAt k = if k = e then c.idAt l else if k = l then none else c.idAt k :=
          hm.idAt k
        have hkl : k ≠ l := fun heq => by
          rw [hidAt, heq, if_neg hlt.ne', if_pos rfl] at hk
          cases hk
        have hk' : c.idAt (if k = e then l else k) = some id := by
          rw [hidAt, if_neg hkl] at hk
          split_ifs at hk ⊢ <;> exact hk
        obtain ⟨req, hreq, hmatch⟩ := hrows _ id hk'
        have hmoved : ∀ m ∈ c.batchUpdateBuilder.moved, m.1 ≠ e ∧ m.2.1 ≠ e := fun m hmem =>
          hdisjoint m hmem e (hrem ▸ mem_cons_self)
        exact ⟨req, hreq, hQ.moves hm hrem hmoved hlt.ne' hkl hok hmatch⟩
      · have hremoved : c'.batchUpdateBuilder.removed = removed := hm.removed
        have hr' : r ∈ removed := hremoved ▸ hr
        have hmoved : c'.batchUpdateBuilder.moved = if c.isPoolingModel then
            c.batchUpdateBuilder.moved
            else c.batchUpdateBuilder.moved ++ [(l, e, .unidirectional)] := hm.moved
        have hold : ∀ m ∈ c.batchUpdateBuilder.moved, m.1 ≠ r ∧ m.2.1 ≠ r := fun m hmem =>
          hdisjoint m hmem r (hrem ▸ .tail _ hr')
        rw [hmoved] at hmem
        split_ifs at hmem
        · exact hold m hmem
        · rcases mem_append.1 hmem with hmem | hmem
          · exact hold m hmem
          · rw [mem_singleton] at hmem
            subst hmem
            refine ⟨fun heq => ?_, fun heq => ?_⟩
            · have heq' : l = r := heq
              exact hl (heq' ▸ hr')
            · have heq' : e = r := heq
              exact he (heq' ▸ hr')⟩
    (fun {c c'} hsame ⟨hrows, hdisjoint⟩ => by
      refine ⟨fun k id hk => ?_, fun m hmem e he => ?_⟩
      · have hk' := (hsame.idAt k).symm.trans hk
        obtain ⟨req, hreq, hmatch⟩ := hrows k id hk'
        exact ⟨req, hreq, hQ.sameRows hsame (hk' ▸ rfl) hmatch⟩
      · rw [hsame.moved] at hmem
        exact hdisjoint m hmem e ((hsame.removed e).1 he))
    hs.wellFormed hholes hsorted (hQ.ok_of_meets hmeets) ⟨hrows, by simp [hmoved]⟩ h
  exact hrows'

theorem RowInvariant.step {p p' : Phase} {call : RunnerCall}
    (hs : Shape p w) (hrows : RowsHold Q w) (hp : call.next p = some p') (hmeets : meets w call)
    (h : Effect w call w') :
    RowsHold Q w' := by
  cases h with
  | @finishAbsent id hrow =>
    cases p <;> cases hp
    intro k id' hk
    obtain ⟨req, hreq, hmatch⟩ := hrows k id' hk
    -- the request has no row, so no row is affected
    have hne : id' ≠ id := fun heq => by
      rw [← hs.wellFormed.inverse, heq, hrow] at hk
      cases hk
    refine ⟨req, ?_, hQ.outputs (hs.added rfl) hmatch⟩
    rw [lookup_erase', if_neg hne]
    exact hreq
  | @finish id i b' hid h =>
    cases p <;> cases hp
    refine hQ.removed hs hrows h hid fun id' hne => ?_
    rw [lookup_erase', if_neg hne]
  | unscheduleAbsent => exact hrows
  | unschedule hid h =>
    cases p <;> cases hp
    exact hQ.removed hs hrows h hid fun _ _ => rfl
  | @cache req hrow hfits =>
    cases p <;> cases hp
    refine hQ.setItem hrows req (hs.added rfl) (fun _ => rfl) (fun k req' hk => ?_)
      fun _ _ _ _ hmatch => hmatch
    rw [← hs.wellFormed.inverse, hrow] at hk
    cases hk
  | @updateAbsent id n new specs req hreq hrow hnew =>
    cases p <;> cases hp
    obtain ⟨rfl, -⟩ := hs.requests id req hreq
    refine hQ.setItem hrows (req.advance n new) (hs.added rfl) (fun _ => rfl)
      (fun k req' hk => ?_) fun _ _ _ _ hmatch => hmatch
    rw [← hs.wellFormed.inverse] at hk
    cases hrow.symm.trans hk
  | @update id n i new specs req b' hreq hid hnew h =>
    cases p <;> cases hp
    obtain ⟨rfl, -, -, hlen⟩ := hs.requests id req hreq
    have hshape := sameShape_advance (b := w.inputBatch) i n new
    have hsame := sameRows_updateReqSpecTokenIds (hshape.wellFormed hs.wellFormed) h
    refine hQ.setItem hrows (req.advance n new)
      (hsame.added.trans ((congrArg _ hshape.builder).trans (hs.added rfl)))
      (fun k => (hsame.idAt k).trans (hshape.idAt k)) (fun k req' hk hreq' hmatch => ?_)
      fun k req' hk hsome hmatch => ?_
    · obtain rfl := hs.wellFormed.row_unique hk hid
      cases hreq.symm.trans hreq'
      refine hQ.sameRows hsame ?_ (hQ.advance_self hlen hnew hmatch)
      rw [hshape.idAt, hid]
      rfl
    · have hki : k ≠ i := fun heq => hk (heq ▸ hid)
      refine hQ.sameRows hsame ?_ (hQ.advance_of_ne hki hmatch)
      rwa [hshape.idAt]
  | sampleNothing => exact hrows
  | @sample i id ids req hid hreq =>
    cases p <;> cases hp
    obtain ⟨rfl, -⟩ := hs.requests id req hreq
    refine hQ.setItem hrows (req.extend ids) (hs.added rfl) (fun _ => rfl)
      (fun k req' hk hreq' hmatch => ?_) fun k req' hk hsome hmatch => ?_
    · obtain rfl := hs.wellFormed.row_unique hk hid
      cases hreq.symm.trans hreq'
      exact hQ.extend_self hmatch
    · exact hQ.extend_of_ne (fun heq => hk (heq ▸ hid)) hmatch
  | @add id i specs req b₁ b' hreq hrow h hspecs =>
    have hne : p ≠ .condensed := fun heq => by
      rw [heq] at hp
      cases hp
    exact hQ.added hs hne hrows hreq hrow h hspecs hmeets
  | condense h =>
    have hne : p ≠ .condensed := fun heq => by
      rw [heq] at hp
      cases hp
    exact hQ.condensed hs hne hrows h hmeets
  | swap h =>
    obtain ⟨hswaps, -, -⟩ := swapStates_eq hs.wellFormed h
    intro k id hk
    obtain ⟨req, hreq, hmatch⟩ := hrows _ id ((hswaps.idAt k).symm.trans hk)
    exact ⟨req, hreq, hQ.swaps hswaps hmeets hmatch⟩
  | refresh h =>
    have hrefresh := refreshMetadata_eq hs.wellFormed h
    intro i id hid
    obtain ⟨req, hreq, hmatch⟩ := hrows i id ((hrefresh.idAt i).symm.trans hid)
    obtain ⟨hreqId, hfits⟩ := hs.requests id req hreq
    exact ⟨req, hreq, hQ.refreshes (w := w) hrefresh hreq hreqId hfits hmatch⟩

theorem RowInvariant.run (h : Run meets p w) : RowsHold Q w := by
  induction h with
  | new =>
    intro i id hid
    exact absurd (shape_new.known i id hid) (AList.notMem_empty _)
  | step call hrun hp hcall hmeets hw ih =>
    exact hQ.step hrun.shape ih hp hmeets (step_effect hrun.shape hp hcall hw)

end

end LoptVllm.Worker
