import Mathlib.Data.List.Basic
import Mathlib.Order.Nat

/-!
# Matching the overlap of two shards

`lopt_cpp.match` walks the start offsets of two neighbouring shards from the right and looks for
the longest run of consecutive tokens that start at the same place of the text: `a(i0)` and
`b(i1) + chunk_size` agree. It returns the two numbers of tokens from the last but one token of
that run to the end of its shard, or `(-1, -1)` when the run has too few tokens.

The C++ counters `i0` and `i1` run down to `-1`; here they are held one higher, as the number of
tokens that are still to be looked at.
-/

namespace LoptVllm.Lopt

open Nat

/-- The variables of the loops of `lopt_cpp.match`. -/
structure MatchState where
  matchA : ℕ
  matchB : ℕ
  matchSize : ℕ
  /-- `i0 + 1`: the tokens of the first shard that are not passed yet. -/
  rest0 : ℕ
  current : ℕ
  deriving DecidableEq, Repr

/-- `while (i0 >= 0 && a(i0) > bound) { i0--; current = 0; }`. -/
def skipWhile (a : List ℤ) (bound : ℤ) : ℕ → ℕ → ℕ × ℕ
  | 0, current => (0, current)
  | i0 + 1, current =>
    if a.getD i0 0 > bound then skipWhile a bound i0 0 else (i0 + 1, current)

/-- The body of the outer loop at index `i1` of the second shard. -/
def matchStep (a b : List ℤ) (chunkSize : ℤ) (i1 : ℕ) (s : MatchState) : MatchState :=
  let bound := b.getD i1 0 + chunkSize
  let (rest0, current) := skipWhile a bound s.rest0 s.current
  if 0 < rest0 ∧ a.getD (rest0 - 1) 0 = bound then
    -- `current` still counts the run without this token
    if current > s.matchSize then
      ⟨rest0 - 1, i1, current, rest0 - 1, current + 1⟩
    else
      { s with rest0 := rest0 - 1, current := current + 1 }
  else
    { s with rest0 := rest0, current := 0 }

/-- `for (int i1 = len1 - 1; i1 >= 0; i1--)`. -/
def matchLoop (a b : List ℤ) (chunkSize : ℤ) : ℕ → MatchState → MatchState
  | 0, s => s
  | i1 + 1, s => matchLoop a b chunkSize i1 (matchStep a b chunkSize i1 s)

/-- `lopt_cpp.match`: `a` and `b` are the start offsets of two neighbouring shards. -/
def cppMatch (a b : List ℤ) (chunkSize : ℤ) (mismatchThres : ℕ) : ℤ × ℤ :=
  let s := matchLoop a b chunkSize b.length ⟨0, 0, 0, a.length, 0⟩
  if s.matchSize ≤ mismatchThres then
    (-1, -1)
  else
    (a.length - (s.matchA + s.matchSize - 1), b.length - (s.matchB + s.matchSize - 1))

/-- The `n` starts of `a` from index `i` and of `b` from index `j` agree up to the offset `c`. -/
def Agree (a b : List ℤ) (c : ℤ) (i j n : ℕ) : Prop :=
  i + n ≤ a.length ∧ j + n ≤ b.length ∧ ∀ k < n, a.getD (i + k) 0 = b.getD (j + k) 0 + c

/-- The invariant of the outer loop with `rest1` tokens of the second shard to go: the current
run lies just right of both cursors, and the best run has one token more than `matchSize`. -/
structure MatchInv (a b : List ℤ) (c : ℤ) (rest1 : ℕ) (s : MatchState) : Prop where
  run : Agree a b c s.rest0 rest1 s.current
  best : 0 < s.matchSize → Agree a b c s.matchA s.matchB (s.matchSize + 1)

variable {a b : List ℤ} {c : ℤ}

theorem Agree.nil {i j : ℕ} (hi : i ≤ a.length) (hj : j ≤ b.length) : Agree a b c i j 0 :=
  ⟨hi, hj, fun k hk => absurd hk (not_lt_zero k)⟩

theorem Agree.cons {i j n : ℕ} (h : a.getD i 0 = b.getD j 0 + c)
    (hrun : Agree a b c (i + 1) (j + 1) n) : Agree a b c i j (n + 1) := by
  obtain ⟨ha, hb, heq⟩ := hrun
  refine ⟨by omega, by omega, fun k hk => ?_⟩
  cases k with
  | zero => exact h
  | succ k =>
    have := heq k (by omega)
    rwa [Nat.add_right_comm, Nat.add_right_comm j] at this

theorem Agree.drop {i j n m : ℕ} (h : Agree a b c i j n) (hm : m ≤ n) :
    Agree a b c (i + (n - m)) (j + (n - m)) m := by
  obtain ⟨ha, hb, heq⟩ := h
  refine ⟨by omega, by omega, fun k hk => ?_⟩
  have := heq (n - m + k) (by omega)
  rwa [← Nat.add_assoc, ← Nat.add_assoc] at this

/-- The inner loop either leaves the cursor and the run alone, or moves left and drops the run. -/
theorem skipWhile_cases (bound : ℤ) (rest0 current : ℕ) :
    skipWhile a bound rest0 current = (rest0, current) ∨
      ∃ r < rest0, skipWhile a bound rest0 current = (r, 0) := by
  induction rest0 generalizing current with
  | zero => exact .inl rfl
  | succ i0 ih =>
    unfold skipWhile
    split_ifs with h
    · rcases ih 0 with h' | ⟨r, hr, h'⟩
      · exact .inr ⟨i0, lt_succ_self i0, h'⟩
      · exact .inr ⟨r, hr.trans (lt_succ_self i0), h'⟩
    · exact .inl rfl

variable {s : MatchState}

theorem skipWhile_agree {rest1 : ℕ} (bound : ℤ) (h : Agree a b c s.rest0 rest1 s.current) :
    Agree a b c (skipWhile a bound s.rest0 s.current).1 rest1
      (skipWhile a bound s.rest0 s.current).2 := by
  rcases skipWhile_cases bound s.rest0 s.current with h' | ⟨r, hr, h'⟩
  · rwa [h']
  · rw [h']
    obtain ⟨ha, hb, -⟩ := h
    exact Agree.nil (by simp only; omega) (by omega)

/-- One round of the outer loop keeps the invariant. -/
theorem matchStep_inv {i1 : ℕ} (h : MatchInv a b c (i1 + 1) s) :
    MatchInv a b c i1 (matchStep a b c i1 s) := by
  have hskip := skipWhile_agree (b.getD i1 0 + c) h.run
  simp only [matchStep]
  generalize skipWhile a (b.getD i1 0 + c) s.rest0 s.current = p at hskip ⊢
  obtain ⟨rest0, current⟩ := p
  split_ifs with heq hbest
  · -- a longer run: the new best is the current run with this token
    have hrun : Agree a b c (rest0 - 1) i1 (current + 1) :=
      Agree.cons heq.2 (by rwa [Nat.sub_add_cancel heq.1])
    exact ⟨hrun, fun _ => hrun⟩
  · exact ⟨Agree.cons heq.2 (by rwa [Nat.sub_add_cancel heq.1]), h.best⟩
  · obtain ⟨ha, hb, -⟩ := hskip
    exact ⟨Agree.nil (show rest0 ≤ a.length by omega) (by omega), h.best⟩

theorem matchLoop_inv {rest1 : ℕ} (h : MatchInv a b c rest1 s) :
    MatchInv a b c 0 (matchLoop a b c rest1 s) := by
  induction rest1 generalizing s with
  | zero => exact h
  | succ i1 ih => exact ih (matchStep_inv h)

/-- **What a successful match found.**  If `lopt_cpp.match` does not return `-1`, the two numbers
it returns are counted from the ends of the shards to indices `x` and `y` such that
`mismatch_thres + 2` consecutive starts agree, the last of them at `x + 1` and `y + 1`. -/
theorem cppMatch_commonRun {thres : ℕ} {r : ℤ × ℤ} (h : cppMatch a b c thres = r) (hr : 0 ≤ r.1) :
    ∃ x y : ℕ, thres ≤ x ∧ thres ≤ y ∧ r = (a.length - (x : ℤ), b.length - (y : ℤ)) ∧
      Agree a b c (x - thres) (y - thres) (thres + 2) := by
  have hinv : MatchInv a b c b.length ⟨0, 0, 0, a.length, 0⟩ :=
    ⟨Agree.nil le_rfl le_rfl, fun h => absurd h (lt_irrefl 0)⟩
  have hbest := (matchLoop_inv hinv).best
  unfold cppMatch at h
  simp only at h
  generalize matchLoop a b c b.length ⟨0, 0, 0, a.length, 0⟩ = s at h hbest
  split_ifs at h with hsize
  · subst h
    simp at hr
  · have hrun := (hbest (by omega)).drop (m := thres + 2) (by omega)
    refine ⟨s.matchA + s.matchSize - 1, s.matchB + s.matchSize - 1, by omega, by omega, ?_, ?_⟩
    · rw [← h]
      simp only [Prod.mk.injEq]
      omega
    · have ex : s.matchA + s.matchSize - 1 - thres
          = s.matchA + (s.matchSize + 1 - (thres + 2)) := by omega
      have ey : s.matchB + s.matchSize - 1 - thres
          = s.matchB + (s.matchSize + 1 - (thres + 2)) := by omega
      rwa [ex, ey]

end LoptVllm.Lopt
