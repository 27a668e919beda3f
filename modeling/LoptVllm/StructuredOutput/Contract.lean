import LoptVllm.StructuredOutput.Backends
import Mathlib.Data.List.Find

/-!
# The contract of the grammar backends

What the scheduler relies on, for each backend: drafts are validated without a trace, a rejected list leaves
no trace, and a rollback undoes accepted tokens, also when there were queries between them.
-/

namespace LoptVllm.StructuredOutput

open List Option Prod Bool Or Nat Matcher

variable {S σ τ M : Type}

namespace Backend

variable (B : Backend S τ M)

/-- `validate_tokens` gives the longest prefix that is accepted, and changes nothing. -/
def ValidatesLongest (accepts : List τ → Prop) (s : S) : Prop :=
  ∀ tokens, ∃ p, B.validateTokens s tokens = some (p, s) ∧ p <+: tokens ∧ accepts p ∧
    ∀ q, q <+: tokens → accepts q → q <+: p

/-- The states after `k` successful accepts of single tokens, with queries in between. `allowed` restricts
the tokens, and `quiet` the states that are asked whether they have terminated. -/
inductive Advances (allowed : S → τ → Prop) (quiet : S → Prop) (s : S) : ℕ → S → Prop
  | refl : Advances allowed quiet s 0 s
  | fillBitmask {k : ℕ} {s' : S} : Advances allowed quiet s k s' →
      Advances allowed quiet s k (B.fillBitmask s').2
  | isTerminated {k : ℕ} {s' : S} : Advances allowed quiet s k s' → quiet s' →
      Advances allowed quiet s k (B.isTerminated s').2
  | accept {k : ℕ} {s' s'' : S} {t : τ} : Advances allowed quiet s k s' → allowed s' t →
      B.acceptTokens s' [t] = (true, s'') → Advances allowed quiet s (k + 1) s''

/-- The states that calls lead to. `clean` restricts the lists that are rejected. -/
inductive Reachable (clean : S → List τ → Prop) (s : S) : S → Prop
  | refl : Reachable clean s s
  | accept {s' s'' : S} {tokens : List τ} {ok : Bool} : Reachable clean s s' →
      B.acceptTokens s' tokens = (ok, s'') → (ok = false → clean s' tokens) → Reachable clean s s''
  | validate {s' s'' : S} {tokens p : List τ} : Reachable clean s s' →
      B.validateTokens s' tokens = some (p, s'') → Reachable clean s s''
  | rollback {s' s'' : S} {k : ℕ} : Reachable clean s s' → B.rollback s' k = some s'' →
      Reachable clean s s''
  | fillBitmask {s' : S} : Reachable clean s s' → Reachable clean s (B.fillBitmask s').2
  | isTerminated {s' : S} : Reachable clean s s' → Reachable clean s (B.isTerminated s').2

/-- The contract at a state: drafts are validated, a rejected list and a query change nothing, and a
rollback restores the state. `clean` restricts the lists that are rejected, and `taken` how many tokens
are taken back. -/
structure Honours (accepts clean : List τ → Prop) (allowed : S → τ → Prop) (quiet : S → Prop)
    (taken : ℕ → Prop) (s : S) : Prop where
  validates : B.ValidatesLongest accepts s
  rejects : ∀ tokens s', clean tokens → B.acceptTokens s tokens = (false, s') → s' = s
  queries : quiet s → (B.isTerminated s).2 = s
  rollsBack : ∀ k s', taken k → B.Advances allowed quiet s k s' → B.rollback s' k = some s

end Backend

/-! ### Matchers -/

section

variable {A : Automaton σ τ M} {tokens : List τ}

/-- What is accepted is the longest such prefix. -/
theorem acceptedPrefix_longest {s : σ} {p : List τ} (hp : p <+: tokens)
    (h : (A.run s p).isSome = true) : p <+: acceptedPrefix A s tokens := by
  induction tokens generalizing s p with
  | nil =>
    rw [prefix_nil.1 hp]
    exact nil_prefix
  | cons t ts ih =>
    cases p with
    | nil => exact nil_prefix
    | cons u us =>
      obtain ⟨rfl, hus⟩ := cons_prefix_cons.1 hp
      unfold acceptedPrefix
      rw [Automaton.run_cons] at h
      cases hs : A.accept s u with
      | none =>
        rw [hs] at h
        cases h
      | some s' =>
        rw [hs] at h
        exact (prefix_cons_inj u).2 (ih hus h)

theorem run_singleton (s : σ) (t : τ) : A.run s [t] = A.accept s t := by
  rw [Automaton.run_cons]
  cases A.accept s t <;> rfl

theorem acceptToken_rollback {m m' : Matcher σ} {t : τ} (h : acceptToken A m t = some m') (n : ℕ) :
    m'.rollback (n + 1) = m.rollback n := by
  obtain ⟨s, -, rfl⟩ := map_eq_some_iff.1 h
  rfl

/-- A loop of accepts stops where the automaton does. -/
theorem acceptPrefix_eq (tokens : List τ) : ∀ m : Matcher σ,
    (acceptPrefix A m tokens).1 = acceptedPrefix A m.state tokens ∧ ∀ n,
      (acceptPrefix A m tokens).2.rollback ((acceptPrefix A m tokens).1.length + n) = m.rollback n := by
  induction tokens with
  | nil =>
    refine fun m => ⟨rfl, fun n => ?_⟩
    simp [acceptPrefix, length_nil]
  | cons t ts ih =>
    intro m
    unfold acceptPrefix acceptedPrefix acceptToken
    cases hs : A.accept m.state t with
    | none =>
      refine ⟨rfl, fun n => ?_⟩
      simp [map_none, length_nil]
    | some s =>
      obtain ⟨heq, hback⟩ := ih ⟨s, m.state :: m.past⟩
      simp only [map_some]
      refine ⟨congrArg (t :: ·) heq, fun n => ?_⟩
      rw [length_cons, Nat.add_assoc, Nat.add_comm 1, hback]
      rfl

theorem matcher_acceptTokens_singleton {m m' : Matcher σ} {t : τ} (h : m.acceptTokens A [t] = (true, m')) :
    acceptToken A m t = some m' := by
  unfold acceptTokens at h
  unfold acceptToken
  cases hs : A.accept m.state t with
  | none =>
    rw [hs] at h
    cases h
  | some s =>
    rw [hs] at h
    cases h
    rfl

/-! ### xgrammar -/

theorem xgrammar_validatesLongest (g : XgrammarGrammar σ) :
    (xgrammar A).ValidatesLongest (fun p => (A.run g.matcher.state p).isSome = true) g := by
  intro tokens
  obtain ⟨heq, hback⟩ := acceptPrefix_eq tokens g.matcher
  refine ⟨acceptedPrefix A g.matcher.state tokens, ?_, acceptedPrefix_prefix _ _,
    isSome_run_acceptedPrefix _ _, fun q hq => acceptedPrefix_longest hq⟩
  unfold xgrammar XgrammarGrammar.validateTokens
  simp only
  rw [← heq]
  have hzero := hback 0
  rw [Nat.add_zero] at hzero
  by_cases hpos : 0 < (acceptPrefix A g.matcher tokens).1.length
  · rw [if_pos hpos, hzero]
    rfl
  · rw [if_neg hpos]
    rw [Nat.eq_zero_of_not_pos hpos] at hzero
    have hmatcher : (acceptPrefix A g.matcher tokens).2 = g.matcher := some.inj hzero
    rw [hmatcher]

variable {g g' : XgrammarGrammar σ}

/-- A rejected first token leaves no trace. -/
theorem xgrammar_rejects_unchanged (h : (xgrammar A).acceptTokens g tokens = (false, g'))
    (hfirst : ∀ t ∈ tokens.head?, g.isTerminated = true ∨ A.accept g.matcher.state t = none) :
    g' = g := by
  unfold xgrammar XgrammarGrammar.acceptTokens at h
  simp only at h
  by_cases hterminated : g.isTerminated = true
  · rw [if_pos hterminated] at h
    exact (mk.inj h).2.symm
  rw [if_neg hterminated] at h
  cases tokens with
  | nil => cases h
  | cons t ts =>
    have hnone := (hfirst t rfl).resolve_left hterminated
    unfold XgrammarGrammar.advance acceptToken at h
    rw [hnone] at h
    exact (mk.inj h).2.symm

/-- The lists whose rejection leaves no trace: the first token is rejected. -/
def XgrammarGrammar.Clean (A : Automaton σ τ M) (g : XgrammarGrammar σ) (tokens : List τ) : Prop :=
  ∀ t ∈ tokens.head?, g.isTerminated = true ∨ A.accept g.matcher.state t = none

/-- The flag is what the matcher says. -/
def XgrammarGrammar.Current (A : Automaton σ τ M) (g : XgrammarGrammar σ) : Prop :=
  g.isTerminated = A.isTerminated g.matcher.state

theorem xgrammar_accept_current
    (h : (xgrammar A).acceptTokens g tokens = (true, g')) : g'.Current A := by
  unfold xgrammar XgrammarGrammar.acceptTokens at h
  simp only at h
  by_cases hterminated : g.isTerminated = true
  · rw [if_pos hterminated] at h
    cases h
  rw [if_neg hterminated] at h
  split at h
  · cases h
  · obtain rfl := (mk.inj h).2
    rfl

theorem xgrammar_current {g₀ : XgrammarGrammar σ} (h₀ : g₀.Current A)
    (h : (xgrammar A).Reachable (XgrammarGrammar.Clean A) g₀ g) : g.Current A := by
  induction h with
  | refl => exact h₀
  | @accept g' g'' tokens ok _ haccept hclean ih =>
    cases ok with
    | true => exact xgrammar_accept_current haccept
    | false =>
      rw [xgrammar_rejects_unchanged haccept (hclean rfl)]
      exact ih
  | @validate g' g'' tokens p _ hvalidate ih =>
    obtain ⟨q, hq, -⟩ := xgrammar_validatesLongest g' tokens
    rw [hvalidate] at hq
    obtain ⟨-, rfl⟩ := mk.inj (some.inj hq)
    exact ih
  | rollback _ hrollback ih =>
    obtain ⟨m, -, rfl⟩ := map_eq_some_iff.1 hrollback
    rfl
  | fillBitmask _ ih => exact ih
  | isTerminated _ ih => exact ih

variable {k : ℕ}

/-- The matcher after `k` accepts goes back to the one before them. -/
theorem xgrammar_advances (h : (xgrammar A).Advances (fun _ _ => True) (fun _ => True) g k g') :
    (∀ n, g'.matcher.rollback (k + n) = g.matcher.rollback n) ∧
      g'.numProcessedTokens = g.numProcessedTokens + k := by
  induction h with
  | refl => exact ⟨fun n => by rw [Nat.zero_add], by simp⟩
  | fillBitmask _ ih => exact ih
  | isTerminated _ _ ih => exact ih
  | @accept k g' g'' t _ _ haccept ih =>
    unfold xgrammar XgrammarGrammar.acceptTokens XgrammarGrammar.advance at haccept
    simp only at haccept
    by_cases hterminated : g'.isTerminated = true
    · rw [if_pos hterminated] at haccept
      cases haccept
    rw [if_neg hterminated] at haccept
    cases hm : acceptToken A g'.matcher t with
    | none =>
      rw [hm] at haccept
      cases haccept
    | some m =>
      rw [hm] at haccept
      obtain rfl := (mk.inj haccept).2
      refine ⟨fun n => ?_, ?_⟩
      · have hstep := acceptToken_rollback hm (k + n)
        rw [Nat.add_right_comm]
        exact hstep.trans (ih.1 n)
      · simp only [ih.2]
        omega

theorem xgrammar_rollsBack (hg : g.Current A)
    (h : (xgrammar A).Advances (fun _ _ => True) (fun _ => True) g k g') :
    (xgrammar A).rollback g' k = some g := by
  obtain ⟨hback, hnum⟩ := xgrammar_advances h
  have hzero : g'.matcher.rollback k = some g.matcher := hback 0
  have hnum' : g'.numProcessedTokens - k = g.numProcessedTokens := by omega
  unfold XgrammarGrammar.Current at hg
  unfold xgrammar XgrammarGrammar.rollback
  simp [hzero, map_some, hnum', ← hg]

/-! ### outlines -/

theorem outlines_acceptedTokens (g : OutlinesGrammar σ) (tokens : List τ) : ∀ (accepted : List τ) (s : σ),
    A.run g.guide.state accepted = some s →
      g.acceptedTokens A accepted tokens = accepted ++ acceptedPrefix A s tokens := by
  induction tokens with
  | nil => exact fun accepted s _ => (append_nil _).symm
  | cons t ts ih =>
    intro accepted s hs
    have hrun : A.run g.guide.state (accepted ++ [t]) = A.accept s t := by
      rw [Automaton.run_append, hs]
      exact run_singleton s t
    unfold OutlinesGrammar.acceptedTokens acceptedPrefix
    rw [hrun]
    cases ht : A.accept s t with
    | none => simp
    | some s' =>
      rw [isSome_some, if_pos rfl, ih _ s' (hrun.trans ht), append_assoc]
      rfl

theorem outlines_validatesLongest (g : OutlinesGrammar σ) :
    (outlines A).ValidatesLongest (fun p => (A.run g.guide.state p).isSome = true) g := by
  intro tokens
  have heq : g.acceptedTokens A [] tokens = acceptedPrefix A g.guide.state tokens :=
    outlines_acceptedTokens g tokens [] g.guide.state rfl
  exact ⟨_, congrArg (fun p => some (p, g)) heq, acceptedPrefix_prefix _ _,
    isSome_run_acceptedPrefix _ _, fun q hq => acceptedPrefix_longest hq⟩

theorem outlines_rejects_unchanged {g g' : OutlinesGrammar σ}
    (h : (outlines A).acceptTokens g tokens = (false, g')) : g' = g := by
  unfold outlines OutlinesGrammar.acceptTokens at h
  simp only at h
  split_ifs at h
  · cases h
  · exact (mk.inj h).2.symm

/-- The delayed flag is what the guide says, so that a query does not change it. -/
def OutlinesGrammar.Quiet (A : Automaton σ τ M) (g : OutlinesGrammar σ) : Prop :=
  g.prevFinished = A.isTerminated g.guide.state

theorem outlines_query_unchanged {g : OutlinesGrammar σ} (h : g.Quiet A) :
    ((outlines A).isTerminated g).2 = g := by
  unfold OutlinesGrammar.Quiet at h
  show { g with prevFinished := A.isTerminated g.guide.state } = g
  rw [← h]

theorem outlines_rollsBack {g g' : OutlinesGrammar σ}
    (h : (outlines A).Advances (fun _ _ => True) (OutlinesGrammar.Quiet A) g k g') :
    (outlines A).rollback g' k = some g := by
  have hadvances : (∀ n, g'.guide.rollback (k + n) = g.guide.rollback n) ∧
      g'.numProcessedTokens = g.numProcessedTokens + k ∧ g'.prevFinished = g.prevFinished := by
    induction h with
    | refl => exact ⟨fun n => by rw [Nat.zero_add], by simp, rfl⟩
    | fillBitmask _ ih => exact ih
    | isTerminated _ hquiet ih =>
      rw [outlines_query_unchanged hquiet]
      exact ih
    | @accept k g' g'' t _ _ haccept ih =>
      unfold outlines OutlinesGrammar.acceptTokens at haccept
      simp only at haccept
      split_ifs at haccept with hrun
      · obtain rfl := (mk.inj haccept).2
        refine ⟨fun n => ?_, ?_, ih.2.2⟩
        · obtain ⟨s, hs⟩ := isSome_iff_exists.1 hrun
          have haccept' : A.accept g'.guide.state t = some s := (run_singleton _ t).symm.trans hs
          simp only [acceptTokens, haccept']
          rw [Nat.add_right_comm]
          exact ih.1 n
        · simp only [length_singleton]
          omega
      · cases haccept
  obtain ⟨hback, hnum, hflag⟩ := hadvances
  have hzero : g'.guide.rollback k = some g.guide := hback 0
  have hnum' : g'.numProcessedTokens - k = g.numProcessedTokens := by omega
  unfold outlines OutlinesGrammar.rollback
  simp [hzero, map_some, hnum', hflag]

end

/-! ### lm-format-enforcer -/

section

/-- The automaton of a token enforcer: its states are the prefixes. -/
def TokenEnforcer.automaton [DecidableEq τ] (E : TokenEnforcer τ M) : Automaton (List τ) τ M where
  accept tokensPrefix t := if E.isTokenAllowed tokensPrefix t then some (tokensPrefix ++ [t]) else none
  isTerminated tokensPrefix := decide (tokensPrefix.getLast? = some E.eosTokenId)
  mask := E.allowedTokens

variable [DecidableEq τ] {E : TokenEnforcer τ M}

theorem lmFormatEnforcer_validateTokens (tokens : List τ) : ∀ tokensPrefix : List τ,
    LMFormatEnforcerGrammar.validateTokens E ⟨tokensPrefix⟩ tokens =
      acceptedPrefix E.automaton tokensPrefix tokens := by
  induction tokens with
  | nil => exact fun _ => rfl
  | cons t ts ih =>
    intro tokensPrefix
    unfold LMFormatEnforcerGrammar.validateTokens at ih ⊢
    unfold acceptedPrefix TokenEnforcer.automaton
    simp only [length_cons, finRange_succ, find?_cons, Fin.val_zero, take_zero,
      append_nil, get_cons_zero, find?_map]
    cases hallowed : E.isTokenAllowed tokensPrefix t with
    | false => rfl
    | true =>
      have hfind : ((finRange ts.length).find? ((fun i : Fin (ts.length + 1) =>
          !E.isTokenAllowed (tokensPrefix ++ (t :: ts).take i.val) ((t :: ts).get i)) ∘ Fin.succ)) =
          (finRange ts.length).find? fun i =>
            !E.isTokenAllowed (tokensPrefix ++ [t] ++ ts.take i.val) (ts.get i) := by
        refine find?_congr fun i _ => ?_
        simp
      rw [hfind]
      change _ = t :: acceptedPrefix E.automaton (tokensPrefix ++ [t]) ts
      rw [← ih]
      cases (finRange ts.length).find? fun i =>
        !E.isTokenAllowed (tokensPrefix ++ [t] ++ ts.take i.val) (ts.get i) with
      | none => rfl
      | some i => rfl

theorem lmFormatEnforcer_validatesLongest (g : LMFormatEnforcerGrammar τ) :
    (lmFormatEnforcer E).ValidatesLongest
      (fun p => (E.automaton.run g.currentTokensPrefix p).isSome = true) g := fun tokens =>
  ⟨_, congrArg (fun p => some (p, g)) (lmFormatEnforcer_validateTokens tokens g.currentTokensPrefix),
    acceptedPrefix_prefix _ _, isSome_run_acceptedPrefix _ _,
    fun _ hq => acceptedPrefix_longest hq⟩

omit [DecidableEq τ] in
/-- The loop appends all tokens, or goes back to the prefix at the start. -/
theorem acceptFrom_eq {n : ℕ} (tokens : List τ) : ∀ tokensPrefix : List τ, n ≤ tokensPrefix.length →
    acceptFrom E n tokensPrefix tokens = (true, tokensPrefix ++ tokens) ∨
      acceptFrom E n tokensPrefix tokens = (false, tokensPrefix.take n) := by
  induction tokens with
  | nil => exact fun tokensPrefix _ => inl (by rw [acceptFrom, append_nil])
  | cons t ts ih =>
    intro tokensPrefix hn
    unfold acceptFrom
    by_cases hallowed : E.isTokenAllowed tokensPrefix t = true
    · rw [if_pos hallowed]
      have hlength : n ≤ (tokensPrefix ++ [t]).length := by
        rw [length_append]
        omega
      rcases ih (tokensPrefix ++ [t]) hlength with h | h
      · left
        rw [h, append_assoc]
        rfl
      · right
        rw [h, take_append_of_le_length hn]
    · rw [if_neg hallowed]
      exact inr rfl

variable {g g' : LMFormatEnforcerGrammar τ}

theorem lmFormatEnforcer_accept {tokens : List τ} {ok : Bool}
    (h : (lmFormatEnforcer E).acceptTokens g tokens = (ok, g')) :
    g' = if ok then ⟨g.currentTokensPrefix ++ tokens⟩ else g := by
  obtain ⟨rfl, rfl⟩ := mk.inj h
  rcases acceptFrom_eq tokens g.currentTokensPrefix le_rfl with heq | heq
  · rw [heq]
    rfl
  · rw [heq, take_length]
    rfl

/-- At least one accepted token is taken back. -/
theorem lmFormatEnforcer_rollsBack (hk : 0 < k)
    (h : (lmFormatEnforcer E).Advances (fun _ _ => True) (fun _ => True) g k g') :
    (lmFormatEnforcer E).rollback g' k = some g := by
  have hadvances : ∃ tokens : List τ, tokens.length = k ∧
      g'.currentTokensPrefix = g.currentTokensPrefix ++ tokens := by
    clear hk
    induction h with
    | refl => exact ⟨[], rfl, (append_nil _).symm⟩
    | fillBitmask _ ih => exact ih
    | isTerminated _ _ ih => exact ih
    | @accept k g' g'' t _ _ haccept ih =>
      obtain ⟨tokens, hlength, hprefix⟩ := ih
      refine ⟨tokens ++ [t], by rw [length_append, hlength]; rfl, ?_⟩
      rw [lmFormatEnforcer_accept haccept, if_pos rfl, hprefix, append_assoc]
  obtain ⟨tokens, hlength, hprefix⟩ := hadvances
  unfold lmFormatEnforcer LMFormatEnforcerGrammar.rollback
  simp only
  rw [if_neg hk.ne', hprefix, length_append, hlength, Nat.add_sub_cancel, take_left]

end

/-! ### llguidance -/

section

variable [DecidableEq τ] {A : Automaton σ τ M} {eosToken : τ} {fail : Matcher σ → List τ → Matcher σ}

/-- A stopped matcher accepts nothing more. -/
def GuidanceGrammar.Accepts (A : Automaton σ τ M) (g : GuidanceGrammar σ) (p : List τ) : Prop :=
  p = [] ∨ A.isTerminated g.llMatcher.state = false ∧ (A.run g.llMatcher.state p).isSome = true

theorem guidance_validatesLongest (g : GuidanceGrammar σ) :
    (guidance A eosToken fail).ValidatesLongest (g.Accepts A) g := by
  intro tokens
  by_cases hstopped : A.isTerminated g.llMatcher.state = true
  · refine ⟨[], ?_, nil_prefix, inl rfl, fun q _ hq => ?_⟩
    · unfold guidance GuidanceGrammar.validateTokens
      simp [hstopped, ite_self]
    · rcases hq with rfl | hq
      · exact nil_prefix
      · rw [hstopped] at hq
        cases hq.1
  · have hopen := eq_false_iff.2 hstopped
    refine ⟨acceptedPrefix A g.llMatcher.state tokens, ?_, acceptedPrefix_prefix _ _,
      inr ⟨hopen, isSome_run_acceptedPrefix _ _⟩, fun q hq hacc => ?_⟩
    · unfold guidance GuidanceGrammar.validateTokens
      simp only
      by_cases hnil : tokens = []
      · rw [if_pos hnil, hnil]
        rfl
      · rw [if_neg hnil, if_neg hstopped]
        rfl
    · rcases hacc with rfl | hacc
      · exact nil_prefix
      · exact acceptedPrefix_longest hq hacc.2

variable {g g' : GuidanceGrammar σ}

/-- What `accept_tokens` does to the flags and to the matcher. -/
theorem guidance_accept {tokens : List τ} {ok : Bool}
    (h : (guidance A eosToken fail).acceptTokens g tokens = (ok, g')) :
    g'.terminated = (decide (eosToken ∈ tokens) || g.terminated) ∧
    g'.rollbackLag = (if eosToken ∈ tokens ∧ A.isTerminated g.llMatcher.state = true ∧ g.terminated = false
      then 1 else g.rollbackLag) ∧
    (A.isTerminated g.llMatcher.state = true → g'.llMatcher = g.llMatcher) ∧
    (A.isTerminated g.llMatcher.state = false → ok = true →
      g.llMatcher.acceptTokens A tokens = (true, g'.llMatcher)) := by
  unfold guidance GuidanceGrammar.acceptTokens at h
  simp only at h
  -- the flags are set before the matcher is asked
  obtain ⟨g₁, hg₁, hmatcher, hterminated, hlag⟩ : ∃ g₁ : GuidanceGrammar σ,
      g₁ = (if eosToken ∈ tokens then
        { g with
          rollbackLag := if A.isTerminated g.llMatcher.state = true ∧ g.terminated = false then 1
            else g.rollbackLag
          terminated := true }
      else g) ∧ g₁.llMatcher = g.llMatcher ∧
      g₁.terminated = (decide (eosToken ∈ tokens) || g.terminated) ∧
      g₁.rollbackLag = if eosToken ∈ tokens ∧ A.isTerminated g.llMatcher.state = true ∧ g.terminated = false
        then 1 else g.rollbackLag := by
    by_cases heos : eosToken ∈ tokens
    · simp [heos]
    · simp [heos]
  rw [← hg₁, hmatcher] at h
  by_cases hstopped : A.isTerminated g.llMatcher.state = true
  · rw [if_pos hstopped] at h
    obtain ⟨rfl, rfl⟩ := mk.inj h
    exact ⟨hterminated, hlag, fun _ => hmatcher, fun hopen => absurd hstopped (by rw [hopen]; decide)⟩
  · rw [if_neg hstopped] at h
    cases hresult : g.llMatcher.acceptTokens A tokens with
    | mk accepted m =>
      rw [hresult] at h
      cases accepted with
      | true =>
        obtain ⟨rfl, rfl⟩ := mk.inj h
        exact ⟨hterminated, hlag, fun h => absurd h hstopped, fun _ _ => rfl⟩
      | false =>
        obtain ⟨rfl, rfl⟩ := mk.inj h
        exact ⟨hterminated, hlag, fun h => absurd h hstopped, fun _ hok => nomatch hok⟩

/-- Without the end token a rejected list leaves the flags of the wrapper. -/
theorem guidance_rejects_unchanged (hfail : ∀ m tokens, fail m tokens = m) {tokens : List τ}
    (h : (guidance A eosToken fail).acceptTokens g tokens = (false, g')) (heos : eosToken ∉ tokens) :
    g' = g := by
  unfold guidance GuidanceGrammar.acceptTokens at h
  simp only [if_neg heos] at h
  split_ifs at h with hstopped
  · cases h
  split at h
  · cases h
  · obtain rfl := (mk.inj h).2
    rw [hfail]

/-- The tokens that are allowed while the wrapper counts: once the matcher has stopped, one end token. -/
def GuidanceGrammar.Counted (A : Automaton σ τ M) (eosToken : τ) (g : GuidanceGrammar σ) (t : τ) : Prop :=
  A.isTerminated g.llMatcher.state = false ∨ t = eosToken ∧ g.terminated = false

/-- Where the lag comes from. -/
theorem guidance_lag {g₀ : GuidanceGrammar σ} (h₀ : g₀.terminated = false → g₀.rollbackLag = 0)
    (h : (guidance A eosToken fail).Reachable (fun _ _ => True) g₀ g) :
    g.terminated = false → g.rollbackLag = 0 := by
  induction h with
  | refl => exact h₀
  | @accept g' g'' tokens ok _ haccept _ ih =>
    intro hfalse
    obtain ⟨hterminated, hlag, -, -⟩ := guidance_accept haccept
    rw [hterminated, or_eq_false_iff] at hfalse
    rw [hlag, if_neg fun h => of_decide_eq_false hfalse.1 h.1]
    exact ih hfalse.2
  | @validate g' g'' tokens p _ hvalidate ih =>
    obtain ⟨q, hq, -⟩ := @guidance_validatesLongest σ τ M _ A eosToken fail g' tokens
    rw [hvalidate] at hq
    obtain ⟨-, rfl⟩ := mk.inj (some.inj hq)
    exact ih
  | @rollback g' g'' k _ hrollback ih =>
    unfold guidance GuidanceGrammar.rollback at hrollback
    simp only at hrollback
    split_ifs at hrollback
    · obtain ⟨m, -, rfl⟩ := map_eq_some_iff.1 hrollback
      exact fun _ => rfl
    · obtain rfl := some.inj hrollback
      exact ih
  | fillBitmask _ ih => exact ih
  | isTerminated _ ih => exact ih


/-- What `k` counted accepts leave, from a state that has not terminated. -/
structure GuidanceGrammar.After (A : Automaton σ τ M) (g g' : GuidanceGrammar σ) (k : ℕ) : Prop where
  none : k = 0 → g' = g
  lag_le : g'.rollbackLag ≤ k
  back : ∀ n, g'.llMatcher.rollback (k - g'.rollbackLag + n) = g.llMatcher.rollback n
  lag : g'.rollbackLag = 0 ∨ A.isTerminated g'.llMatcher.state = true ∧ g'.terminated = true

theorem GuidanceGrammar.After.accept {g'' : GuidanceGrammar σ} {t : τ}
    (h : GuidanceGrammar.After A g g' k) (hcounted : g'.Counted A eosToken t)
    (haccept : (guidance A eosToken fail).acceptTokens g' [t] = (true, g'')) :
    GuidanceGrammar.After A g g'' (k + 1) := by
  obtain ⟨hterminated, hlag, hstopped, hopen⟩ := guidance_accept haccept
  have hzero : g'.rollbackLag = 0 := by
    refine h.lag.resolve_right fun hlagged => ?_
    rcases hcounted with hcounted | ⟨-, hcounted⟩
    · rw [hlagged.1] at hcounted
      cases hcounted
    · rw [hlagged.2] at hcounted
      cases hcounted
  have hback := h.back
  rw [hzero, Nat.sub_zero] at hback
  by_cases hstop : A.isTerminated g'.llMatcher.state = true
  · -- the end token after the matcher has stopped is not counted by the matcher
    obtain ⟨rfl, hfalse⟩ := hcounted.resolve_left (by rw [hstop]; decide)
    rw [if_pos ⟨mem_singleton_self t, hstop, hfalse⟩] at hlag
    have hmatcher := hstopped hstop
    refine ⟨fun h => absurd h (succ_ne_zero k), by omega, fun n => ?_, inr ⟨?_, ?_⟩⟩
    · rw [hlag, Nat.add_sub_cancel, hmatcher]
      exact hback n
    · rw [hmatcher]
      exact hstop
    · rw [hterminated, decide_eq_true (mem_singleton_self t), Bool.true_or]
  · rw [if_neg fun h => hstop h.2.1, hzero] at hlag
    have hm := matcher_acceptTokens_singleton (hopen (eq_false_iff.2 hstop) rfl)
    refine ⟨fun h => absurd h (succ_ne_zero k), by omega, fun n => ?_, inl hlag⟩
    rw [hlag, Nat.sub_zero, Nat.add_right_comm]
    exact (acceptToken_rollback hm (k + n)).trans (hback n)

theorem guidance_rollsBack (hterminated : g.terminated = false) (hlag : g.rollbackLag = 0)
    (h : (guidance A eosToken fail).Advances (GuidanceGrammar.Counted A eosToken) (fun _ => True) g k g') :
    (guidance A eosToken fail).rollback g' k = some g := by
  have hafter : GuidanceGrammar.After A g g' k := by
    induction h with
    | refl =>
      refine ⟨fun _ => rfl, hlag.le, fun n => ?_, inl hlag⟩
      rw [Nat.zero_sub, Nat.zero_add]
    | fillBitmask _ ih => exact ih
    | isTerminated _ _ ih => exact ih
    | accept _ hcounted haccept ih => exact ih.accept hcounted haccept
  unfold guidance GuidanceGrammar.rollback
  simp only
  by_cases hk : 0 < k
  · rw [if_pos hk]
    have hback : g'.llMatcher.rollback (k - g'.rollbackLag) = some g.llMatcher := hafter.back 0
    rw [hback, map_some, ← hterminated, ← hlag]
  · rw [if_neg hk, hafter.none (Nat.eq_zero_of_not_pos hk)]

end

/-! ### All backends -/

/-- An automaton that takes the token 0 twice. -/
def twoZeros : Automaton ℕ ℕ ℕ where
  accept n t := if t = 0 ∧ n < 2 then some (n + 1) else none
  isTerminated n := decide (2 ≤ n)
  mask n := n

/-- An enforcer that allows all tokens. -/
def anyToken : TokenEnforcer ℕ ℕ where
  isTokenAllowed _ _ := true
  allowedTokens l := l.length
  eosTokenId := 5

end LoptVllm.StructuredOutput
