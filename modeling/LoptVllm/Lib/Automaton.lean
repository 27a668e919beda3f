import Mathlib.Data.List.Basic

/-!
# Automata that can go back

An automaton over tokens with a mask for each state, and a matcher that remembers the states it has
come through.
-/

namespace LoptVllm

open List

/-- An automaton, with the mask of the tokens that each state allows. -/
structure Automaton (σ τ M : Type*) where
  accept : σ → τ → Option σ
  isTerminated : σ → Bool
  mask : σ → M

/-- A matcher: its state, and the states before the tokens that it has accepted, the last one first. -/
structure Matcher (σ : Type*) where
  state : σ
  past : List σ

variable {σ τ M : Type*}

namespace Automaton

variable (A : Automaton σ τ M)

/-- The state after some tokens, if they are accepted. -/
def run (s : σ) (tokens : List τ) : Option σ := tokens.foldlM A.accept s

/-- The mask after some tokens; all is allowed once the automaton has terminated. -/
def maskAfter (full : M) : σ → List τ → M
  | s, [] => if A.isTerminated s then full else A.mask s
  | s, t :: ts =>
    if A.isTerminated s then full
    else match A.accept s t with
      | none => full
      | some s => maskAfter full s ts

variable {A} {s : σ}

theorem run_cons (t : τ) (ts : List τ) : A.run s (t :: ts) = (A.accept s t).bind (A.run · ts) := rfl

theorem run_append (ts ts' : List τ) : A.run s (ts ++ ts') = (A.run s ts).bind (A.run · ts') :=
  foldlM_append

theorem maskAfter_of_terminated {full : M} (h : A.isTerminated s = true) (ts : List τ) :
    A.maskAfter full s ts = full := by
  cases ts <;> simp [maskAfter, h]

theorem maskAfter_cons {full : M} {s' : σ} {t : τ} (h : A.isTerminated s = false)
    (hs : A.accept s t = some s') (ts : List τ) :
    A.maskAfter full s (t :: ts) = A.maskAfter full s' ts := by
  simp [maskAfter, h, hs]

end Automaton

namespace Matcher

variable (A : Automaton σ τ M)

/-- The tokens are accepted one by one, as long as they can be. -/
def acceptTokens (m : Matcher σ) : List τ → Bool × Matcher σ
  | [] => (true, m)
  | t :: ts => match A.accept m.state t with
    | none => (false, m)
    | some s => acceptTokens ⟨s, m.state :: m.past⟩ ts

/-- The state before the last tokens, if there were so many. -/
def rollback : ℕ → Matcher σ → Option (Matcher σ)
  | 0, m => some m
  | _ + 1, ⟨_, []⟩ => none
  | n + 1, ⟨_, s :: past⟩ => rollback n ⟨s, past⟩

/-- The tokens that would be accepted from a state. -/
def acceptedPrefix : σ → List τ → List τ
  | _, [] => []
  | s, t :: ts => match A.accept s t with
    | none => []
    | some s => t :: acceptedPrefix s ts

/-- The tokens that would be accepted. -/
def validateTokens (m : Matcher σ) (tokens : List τ) : List τ := acceptedPrefix A m.state tokens

variable {A} {m m' : Matcher σ} {s : σ}

theorem isSome_run_acceptedPrefix (ts : List τ) :
    ∀ s : σ, (A.run s (acceptedPrefix A s ts)).isSome = true := by
  induction ts with
  | nil => exact fun s => rfl
  | cons t ts ih =>
    intro s
    unfold acceptedPrefix
    cases hs : A.accept s t with
    | none => rfl
    | some s' =>
      rw [Automaton.run_cons, hs]
      exact ih s'

theorem acceptedPrefix_prefix (ts : List τ) : ∀ s : σ, acceptedPrefix A s ts <+: ts := by
  induction ts with
  | nil => exact fun s => nil_prefix
  | cons t ts ih =>
    intro s
    unfold acceptedPrefix
    cases A.accept s t with
    | none => exact nil_prefix
    | some s' => exact (prefix_cons_inj t).2 (ih s')

end Matcher

end LoptVllm
