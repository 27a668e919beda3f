import LoptVllm.Sched.Pending
import Mathlib.Algebra.Order.BigOperators.Group.List

/-!
# Placeholders of the tokens in flight

`AsyncScheduler` schedules a request before the tokens of the steps in flight are known. It counts
them in `num_output_placeholders`: a step that samples for the request is expected to generate one
token more than it has draft tokens.
-/

namespace LoptVllm.Sched

open List Option InFlight Request

variable {K : Type} [KVCacheManagerOps K] {cfg : SchedulerConfig} {env : ScheduleEnv}

/-- The number of tokens that the step is expected to generate for a request. -/
def InFlight.placeholders (x : InFlight) (id : ℕ) : ℤ :=
  if x.Samples id then 1 + x.out.numDraftTokens id else 0

theorem InFlight.placeholders_nonneg (x : InFlight) (id : ℕ) : 0 ≤ x.placeholders id := by
  unfold placeholders
  split_ifs <;> omega

variable {id : ℕ}

theorem InFlight.placeholders_pos_iff {x : InFlight} : 0 < x.placeholders id ↔ x.Samples id := by
  unfold placeholders
  split_ifs with h
  · exact iff_of_true (by omega) h
  · exact iff_of_false (lt_irrefl 0) h

variable (inFlight : List InFlight)

/-- The placeholders of all steps in flight. -/
def placeholdersOf (id : ℕ) : ℤ :=
  (inFlight.map fun x => x.placeholders id).sum

theorem placeholdersOf_cons (x : InFlight) (inFlight : List InFlight) (id : ℕ) :
    placeholdersOf (x :: inFlight) id = x.placeholders id + placeholdersOf inFlight id := rfl

theorem placeholdersOf_concat (x : InFlight) (id : ℕ) :
    placeholdersOf (inFlight ++ [x]) id = placeholdersOf inFlight id + x.placeholders id := by
  unfold placeholdersOf
  rw [map_append, sum_append]
  exact congrArg _ (add_zero _)

theorem placeholdersOf_nonneg (id : ℕ) : 0 ≤ placeholdersOf inFlight id := by
  refine sum_nonneg fun n hn => ?_
  obtain ⟨x, -, rfl⟩ := List.mem_map.1 hn
  exact x.placeholders_nonneg id

variable {inFlight : List InFlight}

/-- There are placeholders exactly if some step in flight samples for the request. -/
theorem placeholdersOf_pos_iff : 0 < placeholdersOf inFlight id ↔ ∃ x ∈ inFlight, x.Samples id := by
  induction inFlight with
  | nil => exact iff_of_false (lt_irrefl 0) fun ⟨_, hx, _⟩ => not_mem_nil hx
  | cons x inFlight ih =>
    have hx := x.placeholders_nonneg id
    have hrest := placeholdersOf_nonneg inFlight id
    rw [placeholdersOf_cons, exists_mem_cons_iff, ← ih, ← placeholders_pos_iff]
    omega

/-- The invariant of a request under `AsyncScheduler`. -/
structure Placed (cfg : SchedulerConfig) (inFlight : List InFlight) (id : ℕ) (r : Request) :
    Prop where
  discard : r.discardLatestAsyncTokens = false
  placeholders : r.numOutputPlaceholders = placeholdersOf inFlight id
  drafts : ∀ x ∈ inFlight, id ∈ x.out.numScheduledTokens → ¬ x.Samples id →
    x.out.numDraftTokens id = 0
  window : r.status = .running → r.numComputedTokens + 1 ≤ cfg.maxModelLen
  running : r.status = .running → r.numComputedTokens + 1 ≤ r.numTokens + r.numOutputPlaceholders ∧
      (0 < r.numOutputPlaceholders ∨ r.specTokenIds ≠ [] →
        r.numComputedTokens + 1 = r.numTokens + r.numOutputPlaceholders)
  waits : r.status.Waits → r.specTokenIds = []

variable {r : Request}

section

variable (h : Placed cfg inFlight id r)
include h

theorem Placed.placeholders_nonneg : 0 ≤ r.numOutputPlaceholders := by
  rw [h.placeholders]
  exact placeholdersOf_nonneg _ _

/-- `num_output_placeholders > 0` says that a token of the request is in flight. -/
theorem Placed.placeholders_pos_iff :
    0 < r.numOutputPlaceholders ↔ ∃ x ∈ inFlight, x.Samples id := by
  rw [h.placeholders]
  exact placeholdersOf_pos_iff

theorem Placed.placeholders_of_waits (hs : Settled cfg inFlight id r) (hwaits : r.status.Waits) :
    r.numOutputPlaceholders = 0 := by
  refine le_antisymm (not_lt.1 fun hpos => ?_) h.placeholders_nonneg
  obtain ⟨x, hx, hsamp⟩ := h.placeholders_pos_iff.1 hpos
  exact hs.none_pending hwaits x hx hsamp

end

namespace Step

/-- A request is scheduled up to the end of its tokens, with those in flight and the draft tokens,
or only for a part of the tokens that it has. -/
theorem Treated.reaches {preempting : Prop} {inFlight : List InFlight} {id : ℕ} {r₀ r : Request}
    {n : ℤ} {drafts : Option (List ℤ)} (h : Treated cfg preempting r₀ r (some n) drafts)
    (hp : Placed cfg inFlight id r₀) (hs : Settled cfg inFlight id r₀) :
    r.numComputedTokens + n + 1 ≤ cfg.maxModelLen ∧ r.specTokenIds = [] ∧ r.status = .running ∧
      (r.numComputedTokens + n = r.numTokens + r.numOutputPlaceholders + (drafts.getD []).length ∨
        r.numComputedTokens + n < r.numTokens ∧ r.numOutputPlaceholders = 0 ∧
          (drafts.getD []).length = 0) := by
  cases h with
  | kept _ htokens | waits _ _ _ htokens | preempted _ _ _ htokens => cases htokens
  | ran hrunning hn hr htokens hdrafts =>
    cases htokens
    have hwindow := hp.window hrunning
    obtain ⟨hle, heq⟩ := hp.running hrunning
    have hnonneg := hp.placeholders_nonneg
    have hn_le := hn.le
    have hpos := hn.pos hwindow (by unfold Request.numTokensWithSpec; omega)
    rw [hr, hdrafts]
    refine ⟨hn.window, rfl, hrunning, ?_⟩
    change r₀.numComputedTokens + _ = (r₀.numTokens : ℤ) + r₀.numOutputPlaceholders + _ ∨
      r₀.numComputedTokens + _ < (r₀.numTokens : ℤ) ∧ r₀.numOutputPlaceholders = 0 ∧ _
    unfold Request.numTokensWithSpec at hn_le
    unfold draftsOf
    dsimp only
    split_ifs with hc
    · rw [getD_some, length_take]
      omega
    · rw [getD_none, length_nil]
      by_cases hspec : r₀.specTokenIds = []
      · rw [hspec, length_nil] at hn_le
        omega
      · have heq := heq (.inr hspec)
        have := not_lt.1 fun hlt => hc ⟨hspec, hlt⟩
        omega
  | admitted hwaits _ hle hr htokens hdrafts =>
    cases htokens
    have hroom := hs.room hwaits
    have hzero := hp.placeholders_of_waits hs hwaits
    rw [hr, hdrafts]
    refine ⟨by dsimp only; omega, hp.waits hwaits, rfl, ?_⟩
    change _ = (r₀.numTokens : ℤ) + r₀.numOutputPlaceholders + 0 ∨
      _ < (r₀.numTokens : ℤ) ∧ r₀.numOutputPlaceholders = 0 ∧ 0 = 0
    dsimp only
    omega

end Step

namespace Scheduler

variable {s s' : Scheduler K} {st : Step K} {out : SchedulerOutput} {inFlight : List InFlight}
  {id : ℕ}

/-- `schedule` keeps the invariant of a request. -/
theorem Schedules.placed (h : Schedules cfg env s st out s') (hq : s.Queued)
    (hasync : cfg.isAsync = true) (hstruct : (s.heap id).useStructuredOutput = true)
    (hs : Settled cfg inFlight id (s.heap id)) (hp : Placed cfg inFlight id (s.heap id)) :
    Placed cfg (inFlight ++ [⟨out, s'.heap, ∅⟩]) id (s'.heap id) := by
  obtain ⟨r, htreated, hheap⟩ := h.treated hq id
  obtain ⟨hreq, -, hplaceholders, hdiscard⟩ := htreated.frame
  rw [hp.placeholders] at hplaceholders
  rw [hp.discard] at hdiscard
  cases hl : out.numScheduledTokens.lookup id with
  | none =>
    have hnot : id ∉ out.numScheduledTokens := AList.lookup_eq_none.1 hl
    have hnew : placeholders ⟨out, s'.heap, ∅⟩ id = 0 := if_neg fun hsamp => hnot hsamp.1
    rw [hl] at hheap htreated
    rw [hheap]
    refine ⟨hdiscard, ?_, fun y hy hid => ?_, fun hrunning => ?_, fun hrunning => ?_,
      fun hwaits => ?_⟩
    · rw [hplaceholders, placeholdersOf_concat, hnew, add_zero]
    · rcases mem_append.1 hy with hy | hy
      · exact hp.drafts y hy hid
      · rw [mem_singleton.1 hy] at hid
        exact absurd hid hnot
    · have hr := htreated.kept_of_running hrunning
      rw [hr] at hrunning ⊢
      exact hp.window hrunning
    · have hr := htreated.kept_of_running hrunning
      rw [hr] at hrunning ⊢
      exact hp.running hrunning
    · cases htreated with
      | kept hr =>
        rw [hr] at hwaits ⊢
        exact hp.waits hwaits
      | waits hwaits₀ _ hr =>
        rw [hr]
        exact hp.waits hwaits₀
      | preempted _ _ hr => rw [hr]
      | ran _ _ _ htokens | admitted _ _ _ _ htokens => cases htokens
  | some n =>
    have hmem : id ∈ out.numScheduledTokens := AList.lookup_isSome.1 (isSome_iff_exists.2 ⟨n, hl⟩)
    rw [hl] at hheap htreated
    have hheap : s'.heap id =
        (r.advance n).addPlaceholders cfg.numSpecTokens (out.numDraftTokens id) := by
      rw [hheap]
      exact if_pos hasync
    obtain ⟨hwindow, hspec, hrunning, hreach⟩ := htreated.reaches hp hs
    have hnonneg := hp.placeholders_nonneg
    rw [hp.placeholders, ← hplaceholders] at hnonneg
    have hpooling : (r.advance n).isPooling = false := by
      show r.toEngineCoreRequest.isPooling = false
      rw [hreq]
      exact EngineCoreRequest.isPooling_of_structured hstruct
    -- the step samples for the request exactly if it gets placeholders
    by_cases hc : (r.advance n).numComputedTokens =
        (r.advance n).numTokens + (r.advance n).numOutputPlaceholders + out.numDraftTokens id
    · rw [Request.addPlaceholders, if_pos hc] at hheap
      have hc : r.numComputedTokens + n =
          r.numTokens + r.numOutputPlaceholders + out.numDraftTokens id := hc
      have hsamp : Samples ⟨out, s'.heap, ∅⟩ id := by
        refine ⟨hmem, ?_⟩
        dsimp only
        rw [hheap]
        refine ⟨hpooling, ?_⟩
        change (r.numTokens : ℤ) ≤ r.numComputedTokens + n
        omega
      have hnew : placeholders ⟨out, s'.heap, ∅⟩ id = 1 + out.numDraftTokens id := if_pos hsamp
      refine ⟨?_, ?_, fun y hy hid hnot => ?_, ?_, ?_, fun hwaits => ?_⟩
      · rw [hheap]
        exact hdiscard
      · rw [hheap, placeholdersOf_concat, hnew, ← hplaceholders]
        rfl
      · rcases mem_append.1 hy with hy | hy
        · exact hp.drafts y hy hid hnot
        · rw [mem_singleton.1 hy] at hnot
          exact absurd hsamp hnot
      · rw [hheap]
        exact fun _ => hwindow
      · rw [hheap]
        intro _
        change r.numComputedTokens + n + 1 ≤ (r.numTokens : ℤ) + (r.numOutputPlaceholders + _) ∧
          (_ → r.numComputedTokens + n + 1 = (r.numTokens : ℤ) + (r.numOutputPlaceholders + _))
        omega
      · rw [hheap] at hwaits
        exact absurd hrunning hwaits.1
    · rw [Request.addPlaceholders, if_neg hc] at hheap
      obtain ⟨hlt, hzero, hnone⟩ := hreach.resolve_left hc
      have hsamp : ¬ Samples ⟨out, s'.heap, ∅⟩ id := by
        rintro ⟨-, -, hle⟩
        dsimp only at hle
        rw [hheap] at hle
        exact absurd hle (not_le.2 hlt)
      have hnew : placeholders ⟨out, s'.heap, ∅⟩ id = 0 := if_neg hsamp
      refine ⟨?_, ?_, fun y hy hid hnot => ?_, ?_, ?_, fun hwaits => ?_⟩
      · rw [hheap]
        exact hdiscard
      · rw [hheap, placeholdersOf_concat, hnew, ← hplaceholders, add_zero]
        rfl
      · rcases mem_append.1 hy with hy | hy
        · exact hp.drafts y hy hid hnot
        · rw [mem_singleton.1 hy]
          exact_mod_cast hnone
      · rw [hheap]
        exact fun _ => hwindow
      · rw [hheap]
        intro _
        refine ⟨?_, fun hor => ?_⟩
        · change r.numComputedTokens + n + 1 ≤ (r.numTokens : ℤ) + r.numOutputPlaceholders
          omega
        · rcases hor with hpos | hne
          · exact absurd hzero (ne_of_gt hpos)
          · exact absurd hspec hne
      · rw [hheap] at hwaits
        exact absurd hrunning hwaits.1

end Scheduler

/-- The output of a step keeps the invariant of a request that does not stop. -/
theorem Placed.processed {x : InFlight} {r' : Request} {result : ModelRunnerOutput}
    {generated newTokenIds : List ℕ} {pooled : Bool} (hp : Placed cfg (x :: inFlight) id r)
    (hasync : cfg.isAsync = true) (hid : id ∈ x.out.numScheduledTokens)
    (hw : WorkerGenerates x result) (hget : result.get id = .ok (generated, pooled))
    (h : Scheduler.AppliesOutput cfg
      (Scheduler.adjustRejected (x.out.numDraftTokens id) generated r) generated pooled r'
      newTokenIds false) : Placed cfg inFlight id r' := by
  obtain ⟨hsampled, hnone⟩ := hw.length hid hget
  rw [Scheduler.adjustRejected_eq] at h
  obtain ⟨stopReason, rfl⟩ := h.continues fun _ => hp.discard
  have hdrafts : ∀ y ∈ inFlight, id ∈ y.out.numScheduledTokens → ¬ y.Samples id →
      y.out.numDraftTokens id = 0 := fun y hy => hp.drafts y (.tail _ hy)
  have hplaceholders := hp.placeholders
  have hrest := placeholdersOf_nonneg inFlight id
  rw [placeholdersOf_cons] at hplaceholders
  by_cases hsamp : x.Samples id
  · have hx : x.placeholders id = 1 + x.out.numDraftTokens id := if_pos hsamp
    obtain ⟨hpos, hlen⟩ := hsampled hsamp
    have hnum : ∀ stopReason n p, numTokens { r with
        outputTokenIds := r.outputTokenIds ++ generated
        stopReason := stopReason
        numComputedTokens := n
        numOutputPlaceholders := p } = r.numTokens + generated.length := by
      intro stopReason n p
      unfold numTokens allTokenIds
      rw [← append_assoc, length_append]
    have htokens : 0 < r.numOutputPlaceholders := by omega
    refine ⟨hp.discard, ?_, hdrafts, fun hrunning => ?_, fun hrunning => ?_, hp.waits⟩
    · rw [hasync, if_pos rfl]
      dsimp only
      split_ifs <;> omega
    · have hwindow := hp.window hrunning
      dsimp only
      split_ifs <;> omega
    · have heq := (hp.running hrunning).2 (.inl htokens)
      rw [hnum]
      dsimp only
      split_ifs <;> omega
  · have hx : x.placeholders id = 0 := if_neg hsamp
    have hzero := hp.drafts x (.head _) hid hsamp
    rw [hx, zero_add] at hplaceholders
    rw [hnone hsamp, hzero, append_nil]
    simp only [hasync, length_nil, Int.natCast_zero, sub_zero]
    exact ⟨hp.discard, hplaceholders, hdrafts, hp.window, hp.running, hp.waits⟩

namespace Engine

theorem Steps.placed {e e' : Engine K} {call : EngineCall} (h : Steps cfg e call e')
    (hasync : cfg.isAsync = true) (hcall : e.Admissible call) (hq : e.sched.Queued)
    (ha : e.AllAdded) (hP : e.CallsSettled cfg call) (hp : e.Each (Placed cfg)) :
    e'.Each (Placed cfg) := by
  refine h.each hcall hq ha ?_ ?_ ?_ ?_ ?_ ?_ ?_ hp
  · rintro a b c rfl
    exact hP
  · rintro requestFinished result rfl
    exact hP.2
  · intro id request hnot
    have hzero : placeholdersOf e.inFlight id = 0 := by
      refine le_antisymm (not_lt.1 fun hpos => ?_) (placeholdersOf_nonneg _ _)
      obtain ⟨x, hx, hsamp⟩ := placeholdersOf_pos_iff.1 hpos
      exact hnot x hx hsamp.1
    have hrunning : (fromEngineCoreRequest request).status ≠ .running := by
      unfold fromEngineCoreRequest
      dsimp only
      split_ifs <;> decide
    exact ⟨rfl, hzero.symm, fun x hx hid => absurd hid (hnot x hx),
      fun hst => absurd hst hrunning, fun hst => absurd hst hrunning, fun _ => rfl⟩
  · rintro env out s st rfl hs id hid hstruct hfin hp
    exact hs.placed hq hasync hstruct (hP id hid hstruct hfin) hp
  · intro x inFlight id r hnot hp
    have hx : x.placeholders id = 0 := if_neg fun hsamp => hnot hsamp.1
    refine ⟨hp.discard, ?_, fun y hy => hp.drafts y (.tail _ hy), hp.window,
      hp.running, hp.waits⟩
    rw [hp.placeholders, placeholdersOf_cons, hx, zero_add]
  · rintro requestFinished result x inFlight id r r' generated newTokenIds pooled rfl hx - hid hget
      happlies hp
    exact hp.processed hasync hid (hP.1 x (by rw [hx]; rfl)) hget happlies
  · rintro validateTokens draftTokenIds inFlight id r spec rfl -
    have hbase : cfg.isAsync = false := hP
    rw [hasync] at hbase
    cases hbase

end Engine

end LoptVllm.Sched
