import LoptVllm.Sched.Provenance

/-!
# Steps with draft tokens

A step that checks draft tokens of a request is scheduled up to the last of them, and a step that
checks none is scheduled up to the end of the tokens at most.
-/

namespace LoptVllm.Sched

open List

variable {K : Type} [KVCacheManagerOps K] {cfg : SchedulerConfig} {env : ScheduleEnv}

/-- The range of a step ends after its draft tokens; without them, it does not go beyond the tokens
of the request. -/
def Covers (numDraft : ℕ) (rangeEnd : ℤ) (numTokens : ℕ) : Prop :=
  rangeEnd = numTokens + numDraft ∨ numDraft = 0 ∧ rangeEnd ≤ numTokens

namespace Step

theorem RunningTokens.le {r : Request} {n : ℤ} (h : RunningTokens cfg r n) :
    r.numComputedTokens + n ≤ r.numTokensWithSpec + r.numOutputPlaceholders := by
  obtain ⟨hn, budget, -, hlow⟩ := h
  have hcap := cfg.capPrefill_le
    (r.numTokensWithSpec + r.numOutputPlaceholders - r.numComputedTokens)
  unfold Lowered runningNewTokens at hlow
  dsimp only at hlow
  omega

omit [KVCacheManagerOps K] in
/-- The range of a request that is scheduled, if it has no placeholders. -/
theorem Treated.covers {preempting : Prop} {r₀ r : Request} {n : ℤ} {drafts : Option (List ℤ)}
    (h : Treated cfg preempting r₀ r (some n) drafts)
    (hplaceholders : r₀.numOutputPlaceholders = 0) :
    Covers (drafts.getD []).length (r.numComputedTokens + n) r.numTokens := by
  cases h with
  | kept _ htokens | waits _ _ _ htokens | preempted _ _ _ htokens => cases htokens
  | ran _ hn hr htokens hdrafts =>
    cases htokens
    have hle := hn.le
    rw [hr, hdrafts]
    unfold Request.numTokensWithSpec at hle
    unfold Covers draftsOf
    dsimp only
    split_ifs with hc
    · rw [Option.getD_some, length_take]
      left
      change _ = (r₀.numTokens : ℤ) + _
      omega
    · refine .inr ⟨rfl, ?_⟩
      change _ ≤ (r₀.numTokens : ℤ)
      by_cases hspec : r₀.specTokenIds = []
      · rw [hspec, length_nil] at hle
        omega
      · have := not_lt.1 fun hlt => hc ⟨hspec, hlt⟩
        omega
  | admitted _ _ hle hr htokens hdrafts =>
    cases htokens
    rw [hr, hdrafts]
    exact .inr ⟨rfl, hle⟩

end Step

namespace Scheduler

/-! ### Failed loads -/

omit [KVCacheManagerOps K] in
theorem scanBlocks_unaffected {invalidBlockIds : List ℕ} (blocks : List ℕ) :
    ∀ (idx : ℕ) {scan : InvalidScan},
      (scanBlocks cfg invalidBlockIds idx blocks scan).isAffected = false →
      scan.isAffected = false ∧ (scanBlocks cfg invalidBlockIds idx blocks scan).numComputedTokens =
        scan.numComputedTokens := by
  induction blocks with
  | nil => exact fun idx scan h => ⟨h, rfl⟩
  | cons block blocks ih =>
    intro idx scan h
    unfold scanBlocks at h ⊢
    obtain ⟨haffected, hcomputed⟩ := ih (idx + 1) h
    rw [hcomputed]
    split_ifs at haffected ⊢
    exact ⟨haffected, rfl⟩

theorem updateRequestsWithInvalidBlocks_unaffected {invalidBlockIds : List ℕ} (requests : List ℕ) :
    ∀ {marked affected evict : List ℕ} {s s' : Scheduler K},
      updateRequestsWithInvalidBlocks cfg invalidBlockIds requests marked s =
        .ok (affected, evict, s') → ∀ id ∉ affected, s'.heap id = s.heap id := by
  induction requests with
  | nil =>
    intro marked affected evict s s' h id _
    cases h
    rfl
  | cons a requests ih =>
    intro marked affected evict s s' h id hid
    obtain ⟨blockIds, -, h⟩ := bind_ok.1 h
    obtain ⟨⟨affected', evict', s₁⟩, hrec, hr⟩ := bind_ok.1 h
    cases hr
    have hid' : id ∉ affected' := fun hmem => hid (by
      split_ifs
      exacts [.tail _ hmem, hmem])
    rw [ih hrec id hid']
    by_cases he : id = a
    · subst he
      rw [modify_heap_self]
      have haffected : ∀ {b : Bool}, id ∉ (if b = true then id :: affected' else affected') →
          b = false := by
        intro b hb
        cases b
        · rfl
        · exact absurd (.head _) hb
      have hfalse := haffected hid
      obtain ⟨-, hcomputed⟩ := scanBlocks_unaffected _ 0 hfalse
      rw [hfalse, Bool.false_and, if_neg Bool.false_ne_true, hcomputed]
    · exact modify_heap_of_ne _ _ he

end Scheduler

end LoptVllm.Sched
