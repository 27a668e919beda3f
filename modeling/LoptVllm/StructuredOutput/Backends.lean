import LoptVllm.Lib.Automaton
import Mathlib.Data.List.FinRange

/-!
# The grammar backends

`XgrammarGrammar`, `OutlinesGrammar`, `LMFormatEnforcerGrammar` and `GuidanceGrammar`: a matcher of an
automaton, or a token enforcer, with what the wrapper keeps beside it.
-/

namespace LoptVllm.StructuredOutput

/-- The operations of a grammar with states `S`. There is no result where the matcher raises. -/
structure Backend (S τ M : Type) where
  acceptTokens : S → List τ → Bool × S
  validateTokens : S → List τ → Option (List τ × S)
  rollback : S → ℕ → Option S
  fillBitmask : S → M × S
  isTerminated : S → Bool × S

variable {σ τ M : Type}

/-! ### xgrammar -/

/-- `XgrammarGrammar`. -/
structure XgrammarGrammar (σ : Type) where
  matcher : Matcher σ
  numProcessedTokens : ℤ
  isTerminated : Bool

section

variable (A : Automaton σ τ M)

/-- `matcher.accept_token`. -/
def acceptToken (m : Matcher σ) (t : τ) : Option (Matcher σ) :=
  (A.accept m.state t).map fun s => ⟨s, m.state :: m.past⟩

/-- The loop of `accept_tokens`. -/
def XgrammarGrammar.advance (g : XgrammarGrammar σ) : List τ → Bool × XgrammarGrammar σ
  | [] => (true, g)
  | t :: ts => match acceptToken A g.matcher t with
    | none => (false, g)
    | some m => advance
        { g with
          matcher := m
          numProcessedTokens := g.numProcessedTokens + 1 } ts

variable (g : XgrammarGrammar σ)

def XgrammarGrammar.acceptTokens (tokens : List τ) : Bool × XgrammarGrammar σ :=
  if g.isTerminated then (false, g)
  else match g.advance A tokens with
    | (false, g) => (false, g)
    | (true, g) => (true, { g with isTerminated := A.isTerminated g.matcher.state })

/-- The loop of `validate_tokens`: the accepted tokens, and the matcher after them. -/
def acceptPrefix (m : Matcher σ) : List τ → List τ × Matcher σ
  | [] => ([], m)
  | t :: ts => match acceptToken A m t with
    | none => ([], m)
    | some m => (t :: (acceptPrefix m ts).1, (acceptPrefix m ts).2)

def XgrammarGrammar.validateTokens (tokens : List τ) : Option (List τ × XgrammarGrammar σ) :=
  let (acceptedTokens, matcher) := acceptPrefix A g.matcher tokens
  if 0 < acceptedTokens.length then
    (matcher.rollback acceptedTokens.length).map fun m => (acceptedTokens, { g with matcher := m })
  else some (acceptedTokens, { g with matcher := matcher })

def XgrammarGrammar.rollback (numTokens : ℕ) : Option (XgrammarGrammar σ) :=
  (g.matcher.rollback numTokens).map fun m =>
    { matcher := m
      numProcessedTokens := g.numProcessedTokens - numTokens
      isTerminated := A.isTerminated m.state }

def xgrammar : Backend (XgrammarGrammar σ) τ M where
  acceptTokens := XgrammarGrammar.acceptTokens A
  validateTokens := XgrammarGrammar.validateTokens A
  rollback := XgrammarGrammar.rollback A
  fillBitmask g := (A.mask g.matcher.state, g)
  isTerminated g := (g.isTerminated, g)

/-! ### outlines -/

/-- `OutlinesGrammar`. -/
structure OutlinesGrammar (σ : Type) where
  guide : Matcher σ
  numProcessedTokens : ℤ
  prevFinished : Bool

def OutlinesGrammar.acceptTokens (g : OutlinesGrammar σ) (tokens : List τ) : Bool × OutlinesGrammar σ :=
  if (A.run g.guide.state tokens).isSome then
    (true, { g with
      guide := (g.guide.acceptTokens A tokens).2
      numProcessedTokens := g.numProcessedTokens + tokens.length })
  else (false, g)

/-- The loop of `validate_tokens`. -/
def OutlinesGrammar.acceptedTokens (g : OutlinesGrammar σ) (accepted : List τ) : List τ → List τ
  | [] => accepted
  | t :: ts =>
    if (A.run g.guide.state (accepted ++ [t])).isSome then acceptedTokens g (accepted ++ [t]) ts
    else accepted

def OutlinesGrammar.rollback (g : OutlinesGrammar σ) (numTokens : ℕ) : Option (OutlinesGrammar σ) :=
  (g.guide.rollback numTokens).map fun m =>
    { g with
      guide := m
      numProcessedTokens := g.numProcessedTokens - numTokens }

/-- The finished flag is delayed by one query. -/
def outlines : Backend (OutlinesGrammar σ) τ M where
  acceptTokens := OutlinesGrammar.acceptTokens A
  validateTokens g tokens := some (g.acceptedTokens A [] tokens, g)
  rollback := OutlinesGrammar.rollback
  fillBitmask g := (A.mask g.guide.state, g)
  isTerminated g := (g.prevFinished, { g with prevFinished := A.isTerminated g.guide.state })

end

/-! ### lm-format-enforcer -/

/-- `TokenEnforcer`: the tokens that are allowed after a prefix. -/
structure TokenEnforcer (τ M : Type) where
  isTokenAllowed : List τ → τ → Bool
  allowedTokens : List τ → M
  eosTokenId : τ

/-- `LMFormatEnforcerGrammar`. -/
structure LMFormatEnforcerGrammar (τ : Type) where
  currentTokensPrefix : List τ

section

variable (E : TokenEnforcer τ M)

/-- The loop of `accept_tokens`, from a prefix with the given length at the start. -/
def acceptFrom (originalLen : ℕ) (tokensPrefix : List τ) : List τ → Bool × List τ
  | [] => (true, tokensPrefix)
  | t :: ts =>
    if E.isTokenAllowed tokensPrefix t then acceptFrom originalLen (tokensPrefix ++ [t]) ts
    else (false, tokensPrefix.take originalLen)

variable (g : LMFormatEnforcerGrammar τ)

def LMFormatEnforcerGrammar.acceptTokens (tokens : List τ) : Bool × LMFormatEnforcerGrammar τ :=
  let (accepted, tokensPrefix) := acceptFrom E g.currentTokensPrefix.length g.currentTokensPrefix tokens
  (accepted, ⟨tokensPrefix⟩)

def LMFormatEnforcerGrammar.validateTokens (tokens : List τ) : List τ :=
  match (List.finRange tokens.length).find? fun i =>
    !E.isTokenAllowed (g.currentTokensPrefix ++ tokens.take i.val) (tokens.get i) with
  | some prefixLength => tokens.take prefixLength.val
  | none => tokens

/-- `current_tokens_prefix[:-num_tokens]`, which is empty for `num_tokens = 0`. -/
def LMFormatEnforcerGrammar.rollback (numTokens : ℕ) : LMFormatEnforcerGrammar τ :=
  if numTokens = 0 then ⟨[]⟩
  else ⟨g.currentTokensPrefix.take (g.currentTokensPrefix.length - numTokens)⟩

def lmFormatEnforcer [DecidableEq τ] : Backend (LMFormatEnforcerGrammar τ) τ M where
  acceptTokens := LMFormatEnforcerGrammar.acceptTokens E
  validateTokens g tokens := some (g.validateTokens E tokens, g)
  rollback g numTokens := some (g.rollback numTokens)
  fillBitmask g := (E.allowedTokens g.currentTokensPrefix, g)
  isTerminated g := (decide (g.currentTokensPrefix.getLast? = some E.eosTokenId), g)

end

/-! ### llguidance -/

/-- `GuidanceGrammar`, without its log flag. -/
structure GuidanceGrammar (σ : Type) where
  llMatcher : Matcher σ
  terminated : Bool
  rollbackLag : ℕ

section

variable (A : Automaton σ τ M) (eosToken : τ) [DecidableEq τ]
  (fail : Matcher σ → List τ → Matcher σ)

/-- `accept_tokens`, where `fail` is what the matcher does when it cannot consume the tokens. -/
def GuidanceGrammar.acceptTokens (g : GuidanceGrammar σ)
    (tokens : List τ) : Bool × GuidanceGrammar σ :=
  let g := if eosToken ∈ tokens then
      { g with
        rollbackLag := if A.isTerminated g.llMatcher.state = true ∧ g.terminated = false then 1
          else g.rollbackLag
        terminated := true }
    else g
  if A.isTerminated g.llMatcher.state then (true, g)
  else match g.llMatcher.acceptTokens A tokens with
    | (true, m) => (true, { g with llMatcher := m })
    | (false, _) => (false, { g with llMatcher := fail g.llMatcher tokens })

omit [DecidableEq τ] in
def GuidanceGrammar.validateTokens (g : GuidanceGrammar σ) (tokens : List τ) : List τ :=
  if tokens = [] then []
  else if A.isTerminated g.llMatcher.state then []
  else g.llMatcher.validateTokens A tokens

def GuidanceGrammar.rollback (g : GuidanceGrammar σ) (numTokens : ℕ) : Option (GuidanceGrammar σ) :=
  if 0 < numTokens then
    (g.llMatcher.rollback (numTokens - g.rollbackLag)).map fun m =>
      { llMatcher := m
        terminated := false
        rollbackLag := 0 }
  else some g

def guidance : Backend (GuidanceGrammar σ) τ M where
  acceptTokens := GuidanceGrammar.acceptTokens A eosToken fail
  validateTokens g tokens := some (g.validateTokens A tokens, g)
  rollback := GuidanceGrammar.rollback
  fillBitmask g := (A.mask g.llMatcher.state, g)
  isTerminated g := (g.terminated, g)

end

end LoptVllm.StructuredOutput
