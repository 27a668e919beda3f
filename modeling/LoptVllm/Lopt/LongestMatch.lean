import LoptVllm.Lopt.Match
import Mathlib.Algebra.Order.Group.Int
import Mathlib.Order.Bounds.Basic

/-!
# The longest run that two shards have in common

The starts of the tokens of a shard are strictly increasing, so a start of one shard agrees with at
most one start of the other. The scan from the right then meets every common run, and keeps the
longest one that lies rightmost.
-/

namespace LoptVllm.Lopt

open List Nat

variable {a b : List ℤ} {c : ℤ}

/-- The starts are strictly increasing. -/
def Increasing (a : List ℤ) : Prop := ∀ i j, i < j → j < a.length → a.getD i 0 < a.getD j 0

theorem increasing_of_pairwise (h : a.Pairwise (· < ·)) : Increasing a := by
  intro i j hij hj
  have hget : ∀ k (hk : k < a.length), a.getD k 0 = a[k] := fun k hk => by
    rw [getD_eq_getElem?_getD, getElem?_eq_getElem, Option.getD_some]
  rw [hget j, hget i]
  exact pairwise_iff_getElem.1 h i j (hij.trans hj) hj hij

theorem Agree.head {i j n : ℕ} (h : Agree a b c i j n) (hn : 0 < n) :
    i < a.length ∧ j < b.length ∧ a.getD i 0 = b.getD j 0 + c := by
  obtain ⟨ha, hb, heq⟩ := h
  exact ⟨by omega, by omega, heq 0 hn⟩

theorem Agree.single {i j : ℕ} (hi : i < a.length) (hj : j < b.length)
    (h : a.getD i 0 = b.getD j 0 + c) : Agree a b c i j 1 := Agree.cons h (Agree.nil hi hj)

theorem Agree.tail {i j n : ℕ} (h : Agree a b c i j (n + 1)) : Agree a b c (i + 1) (j + 1) n := by
  have := h.drop (le_succ n)
  rwa [Nat.add_sub_cancel_left] at this

/-- No start of the first shard before the cursor agrees with one of the second shard after the
cursor, or the other way round. -/
structure Separated (a b : List ℤ) (c : ℤ) (rest0 rest1 : ℕ) : Prop where
  left : ∀ i < rest0, ∀ j ≥ rest1, j < b.length → a.getD i 0 ≠ b.getD j 0 + c
  right : ∀ i ≥ rest0, i < a.length → ∀ j < rest1, a.getD i 0 ≠ b.getD j 0 + c

/-- A run that starts right of the second cursor starts right of the first one. -/
theorem Separated.start {rest0 rest1 i j n : ℕ} (h : Separated a b c rest0 rest1)
    (hrun : Agree a b c i j n) (hn : 0 < n) (hj : rest1 ≤ j) : rest0 ≤ i := by
  obtain ⟨hi, hjb, heq⟩ := hrun.head hn
  by_contra hlt
  exact h.left i (by omega) j hj hjb heq

/-- The invariant of the outer loop with `rest1` tokens of the second shard to go: the current run is
the longest one between the cursors, and the best run is the longest one right of them, and the
rightmost of that length. -/
structure Longest (a b : List ℤ) (c : ℤ) (rest1 : ℕ) (s : MatchState) : Prop where
  separated : Separated a b c s.rest0 rest1
  current : ∀ n, Agree a b c s.rest0 rest1 n → n ≤ s.current
  longest : ∀ i j n, rest1 ≤ j → Agree a b c i j n → n ≤ s.matchSize + 1
  rightmost : 0 < s.matchSize → ∀ i j, rest1 ≤ j → Agree a b c i j (s.matchSize + 1) →
    i ≤ s.matchA ∧ j ≤ s.matchB
  placed : 0 < s.matchSize → s.rest0 ≤ s.matchA ∧ rest1 ≤ s.matchB
  inside : s.rest0 ≤ a.length

/-- The inner loop passes the starts that are too large. -/
theorem skipWhile_spec (bound : ℤ) (rest0 current : ℕ) :
    let (r, cur) := skipWhile a bound rest0 current
    r ≤ rest0 ∧ (r = rest0 ∧ cur = current ∨ r < rest0 ∧ cur = 0) ∧
      (∀ i, r ≤ i → i < rest0 → bound < a.getD i 0) ∧
      (0 < r → a.getD (r - 1) 0 ≤ bound) := by
  induction rest0 generalizing current with
  | zero => exact ⟨le_rfl, .inl ⟨rfl, rfl⟩, fun i _ h => absurd h (not_lt_zero i),
    fun h => absurd h (lt_irrefl 0)⟩
  | succ i0 ih =>
    unfold skipWhile
    split_ifs with h
    · obtain ⟨hle, hcase, hpassed, hlast⟩ := ih 0
      refine ⟨hle.trans (le_succ i0), .inr ⟨lt_succ_of_le hle, ?_⟩, fun i hi hlt => ?_, hlast⟩
      · exact hcase.elim (fun h => h.2) fun h => h.2
      · rcases Nat.lt_succ_iff_lt_or_eq.1 hlt with hlt | rfl
        · exact hpassed i hi hlt
        · exact h
    · exact ⟨le_rfl, .inl ⟨rfl, rfl⟩, fun i hi hlt => absurd hi (not_le.2 hlt), fun _ => not_lt.1 h⟩

/-- The state after the inner loop, at the index `i1` of the second shard. -/
structure Skipped (a b : List ℤ) (c : ℤ) (i1 : ℕ) (s : MatchState) (r cur : ℕ) : Prop where
  le : r ≤ s.rest0
  inside : r ≤ a.length
  passed : ∀ i ≥ r, i < a.length → ∀ j ≤ i1, a.getD i 0 ≠ b.getD j 0 + c
  last : 0 < r → a.getD (r - 1) 0 ≤ b.getD i1 0 + c
  current : ∀ n, Agree a b c r (i1 + 1) n → n ≤ cur

theorem Longest.skip {i1 : ℕ} {s : MatchState} (h : Longest a b c (i1 + 1) s) (hb : Increasing b)
    (hi1 : i1 < b.length) : Skipped a b c i1 s (skipWhile a (b.getD i1 0 + c) s.rest0 s.current).1
      (skipWhile a (b.getD i1 0 + c) s.rest0 s.current).2 := by
  have hspec := skipWhile_spec (a := a) (b.getD i1 0 + c) s.rest0 s.current
  generalize skipWhile a (b.getD i1 0 + c) s.rest0 s.current = p at hspec ⊢
  obtain ⟨r, cur⟩ := p
  obtain ⟨hle, hcase, hpassed, hlast⟩ := hspec
  refine ⟨hle, hle.trans h.inside, fun i hi hlt j hj heq => ?_, hlast, fun n hn => ?_⟩
  · rcases lt_or_ge i s.rest0 with hlt' | hge
    · have hbound := hpassed i hi hlt'
      rcases lt_or_eq_of_le hj with hj | rfl
      · have := hb j i1 hj hi1
        omega
      · omega
    · exact h.separated.right i hge hlt j (lt_succ_of_le hj) heq
  · obtain ⟨rfl, rfl⟩ | ⟨hlt, rfl⟩ := hcase
    · exact h.current n hn
    · -- a run at the cursors would agree on a start that was passed
      by_contra hpos
      exact absurd (h.separated.start hn (not_le.1 hpos) le_rfl) (not_le.2 hlt)

/-- A run that starts right of the second cursor is an older one, or it starts at the cursors. -/
theorem Skipped.start {i1 r cur i j n : ℕ} {s : MatchState} (h : Skipped a b c i1 s r cur)
    (ha : Increasing a) (hrun : Agree a b c i j n) (hn : 0 < n) (hj : i1 ≤ j) :
    i1 + 1 ≤ j ∨ j = i1 ∧ i + 1 = r := by
  rcases lt_or_eq_of_le hj with hj | rfl
  · exact .inl hj
  · obtain ⟨hi, -, heq⟩ := hrun.head hn
    by_contra hne
    rcases lt_or_ge i r with hlt | hge
    · have hlast := h.last (by omega)
      have := ha i (r - 1) (by omega) (by have := h.inside; omega)
      omega
    · exact h.passed i hge hi i1 le_rfl heq

/-- One round of the outer loop keeps the invariant. -/
theorem matchStep_longest {i1 : ℕ} {s : MatchState} (h : Longest a b c (i1 + 1) s)
    (ha : Increasing a) (hb : Increasing b) (hi1 : i1 < b.length) :
    Longest a b c i1 (matchStep a b c i1 s) := by
  have hskip := h.skip hb hi1
  simp only [matchStep]
  generalize skipWhile a (b.getD i1 0 + c) s.rest0 s.current = p at hskip ⊢
  obtain ⟨r, cur⟩ := p
  have hle := hskip.le
  have hstart : ∀ i, i < a.length → a.getD i 0 = b.getD i1 0 + c → i + 1 = r := fun i hi heq =>
    ((hskip.start ha (.single hi hi1 heq) one_pos le_rfl).resolve_left (by omega)).2
  by_cases heq : 0 < r ∧ a.getD (r - 1) 0 = b.getD i1 0 + c
  · rw [if_pos heq]
    have hsep : Separated a b c (r - 1) i1 := by
      refine ⟨fun i hi j hj hjb he => ?_, fun i hi hlt j hj he => ?_⟩
      · rcases lt_or_eq_of_le hj with hj | rfl
        · exact h.separated.left i (by omega) j hj hjb he
        · have := hstart i (by have := hskip.inside; omega) he
          omega
      · rcases lt_or_ge i r with hlt' | hge
        · have hi : i = r - 1 := by omega
          have := hb j i1 hj hi1
          rw [hi] at he
          omega
        · exact hskip.passed i hge hlt j hj.le he
    have hcur : ∀ n, Agree a b c (r - 1) i1 n → n ≤ cur + 1 := by
      intro n hn
      cases n with
      | zero => exact zero_le _
      | succ n =>
        have htail := hn.tail
        rw [Nat.sub_add_cancel heq.1] at htail
        exact succ_le_succ (hskip.current n htail)
    -- a run right of the new cursors is an older one, or it starts at the cursors
    have hruns : ∀ i j n, 0 < n → i1 ≤ j → Agree a b c i j n →
        i1 + 1 ≤ j ∨ (j = i1 ∧ i = r - 1 ∧ n ≤ cur + 1) := by
      intro i j n hn hj hrun
      refine (hskip.start ha hrun hn hj).imp_right ?_
      rintro ⟨hj, hi⟩
      have hi : i = r - 1 := by omega
      rw [hi, hj] at hrun
      exact ⟨hj, hi, hcur n hrun⟩
    by_cases hbest : cur > s.matchSize
    · rw [if_pos hbest]
      refine ⟨hsep, hcur, fun i j n hj hrun => ?_, fun _ i j hj hrun => ?_, fun _ => ⟨le_rfl, le_rfl⟩,
        by have := hskip.inside; dsimp only; omega⟩
      · rcases Nat.eq_zero_or_pos n with rfl | hn
        · exact zero_le _
        · rcases hruns i j n hn hj hrun with hj | ⟨-, -, hn⟩
          · have := h.longest i j n hj hrun
            dsimp only
            omega
          · exact hn
      · rcases hruns i j _ (succ_pos _) hj hrun with hj | ⟨rfl, rfl, -⟩
        · have := h.longest i j _ hj hrun
          dsimp only at this
          omega
        · exact ⟨le_rfl, le_rfl⟩
    · rw [if_neg hbest]
      refine ⟨hsep, hcur, fun i j n hj hrun => ?_, fun hsize i j hj hrun => ?_, fun hsize => ?_,
        by have := hskip.inside; dsimp only; omega⟩
      · rcases Nat.eq_zero_or_pos n with rfl | hn
        · exact zero_le _
        · rcases hruns i j n hn hj hrun with hj | ⟨-, -, hn⟩
          · exact h.longest i j n hj hrun
          · dsimp only
            omega
      · have hplaced := h.placed hsize
        rcases hruns i j _ (succ_pos _) hj hrun with hj | ⟨rfl, rfl, -⟩
        · exact h.rightmost hsize i j hj hrun
        · dsimp only
          omega
      · have hplaced := h.placed hsize
        dsimp only
        omega
  · rw [if_neg heq]
    have hnone : ∀ i, i < a.length → a.getD i 0 ≠ b.getD i1 0 + c := by
      intro i hi he
      have hr := hstart i hi he
      exact heq ⟨by omega, by rw [← hr, Nat.add_sub_cancel]; exact he⟩
    have hruns : ∀ i j n, 0 < n → i1 ≤ j → Agree a b c i j n → i1 + 1 ≤ j := by
      intro i j n hn hj hrun
      obtain ⟨hi, -, he⟩ := hrun.head hn
      rcases lt_or_eq_of_le hj with hj | rfl
      · exact hj
      · exact absurd he (hnone i hi)
    refine ⟨⟨fun i hi j hj hjb he => ?_, fun i hi hlt j hj he => hskip.passed i hi hlt j hj.le he⟩,
      fun n hn => ?_, fun i j n hj hrun => ?_, fun hsize i j hj hrun => ?_, fun hsize => ?_,
      hskip.inside⟩
    · rcases lt_or_eq_of_le hj with hj | rfl
      · exact h.separated.left i (lt_of_lt_of_le hi hle) j hj hjb he
      · exact hnone i (lt_of_lt_of_le hi hskip.inside) he
    · by_contra hpos
      have := hruns r i1 n (not_le.1 hpos) le_rfl hn
      omega
    · rcases Nat.eq_zero_or_pos n with rfl | hn
      · exact zero_le _
      · exact h.longest i j n (hruns i j n hn hj hrun) hrun
    · exact h.rightmost hsize i j (hruns i j _ (succ_pos _) hj hrun) hrun
    · have hplaced := h.placed hsize
      dsimp only
      omega

theorem matchLoop_longest (ha : Increasing a) (hb : Increasing b) {rest1 : ℕ} :
    ∀ {s : MatchState}, rest1 ≤ b.length → Longest a b c rest1 s →
      Longest a b c 0 (matchLoop a b c rest1 s) := by
  induction rest1 with
  | zero => exact fun _ h => h
  | succ i1 ih => exact fun hlen h => ih (le_of_succ_le hlen) (matchStep_longest h ha hb hlen)

theorem longest_start (a b : List ℤ) (c : ℤ) : Longest a b c b.length ⟨0, 0, 0, a.length, 0⟩ := by
  have hnone : ∀ i j n, b.length ≤ j → Agree a b c i j n → n = 0 := by
    rintro i j n hj ⟨-, hb, -⟩
    omega
  refine ⟨⟨fun i _ j hj hjb => absurd hjb (not_lt.2 hj), fun i hi hlt => absurd hlt (not_lt.2 hi)⟩,
    fun n hn => (hnone _ _ n le_rfl hn).le, fun i j n hj hrun => ?_, fun h => absurd h (lt_irrefl 0),
    fun h => absurd h (lt_irrefl 0), le_rfl⟩
  rw [hnone i j n hj hrun]
  exact zero_le _

/-- **The longest common run decides the match.**  Let `N` be the greatest length of a common run of
two strictly increasing lists. `lopt_cpp.match` returns `(-1, -1)` exactly if `N` is at most
`mismatch_thres + 1`, and else the place of the rightmost common run of that length. -/
theorem cppMatch_longest (ha : a.Pairwise (· < ·)) (hb : b.Pairwise (· < ·)) (c : ℤ) (thres : ℕ) :
    ∃ N, IsGreatest {n | ∃ i j, Agree a b c i j n} N ∧
      (cppMatch a b c thres = (-1, -1) ↔ N ≤ thres + 1) ∧
      (thres + 1 < N → ∃ i j, Agree a b c i j N ∧ (∀ i' j', Agree a b c i' j' N → i' ≤ i ∧ j' ≤ j) ∧
        cppMatch a b c thres = (a.length - ((i + N - 2 : ℕ) : ℤ), b.length - ((j + N - 2 : ℕ) : ℤ))) := by
  have hlongest := matchLoop_longest (increasing_of_pairwise ha) (increasing_of_pairwise hb) le_rfl
    (longest_start a b c)
  have hinv : MatchInv a b c b.length ⟨0, 0, 0, a.length, 0⟩ :=
    ⟨Agree.nil le_rfl le_rfl, fun h => absurd h (lt_irrefl 0)⟩
  have hbest := (matchLoop_inv hinv).best
  unfold cppMatch
  dsimp only
  generalize matchLoop a b c b.length ⟨0, 0, 0, a.length, 0⟩ = s at hlongest hbest ⊢
  rcases Nat.eq_zero_or_pos s.matchSize with hsize | hsize
  · -- no run has more than one start
    have hle : ∀ n, (∃ i j, Agree a b c i j n) → n ≤ 1 := by
      rintro n ⟨i, j, hrun⟩
      have := hlongest.longest i j n (zero_le j) hrun
      rwa [hsize] at this
    have hres : s.matchSize ≤ thres := hsize ▸ zero_le thres
    rw [if_pos hres]
    by_cases hone : ∃ i j, Agree a b c i j 1
    · exact ⟨1, ⟨hone, hle⟩, iff_of_true rfl (le_add_left _ _), fun h => absurd h (by omega)⟩
    · refine ⟨0, ⟨⟨0, 0, Agree.nil (zero_le _) (zero_le _)⟩, fun n hn => ?_⟩,
        iff_of_true rfl (zero_le _), fun h => absurd h (not_lt_zero _)⟩
      have := hle n hn
      rcases le_one_iff_eq_zero_or_eq_one.1 this with rfl | rfl
      · exact le_rfl
      · exact absurd hn hone
  · have hrun := hbest hsize
    refine ⟨s.matchSize + 1, ⟨⟨_, _, hrun⟩, fun n ⟨i, j, hn⟩ =>
      hlongest.longest i j n (zero_le j) hn⟩, ?_, fun h => ?_⟩
    · obtain ⟨hia, hjb, -⟩ := hrun
      split_ifs with hres
      · exact iff_of_true rfl (succ_le_succ hres)
      · refine iff_of_false (fun heq => ?_) (by omega)
        have := (Prod.mk.inj heq).1
        omega
    · refine ⟨s.matchA, s.matchB, hrun, fun i' j' hrun' =>
        hlongest.rightmost hsize i' j' (zero_le j') hrun', ?_⟩
      rw [if_neg (by omega), Prod.mk.injEq]
      omega

/-- Three starts agree. -/
theorem cppMatch_longest_three :
    ∃ N, IsGreatest {n | ∃ i j, Agree [1, 5, 7, 9] [1, 3, 5] 4 i j n} N ∧
      (cppMatch [1, 5, 7, 9] [1, 3, 5] 4 1 = (-1, -1) ↔ N ≤ 1 + 1) ∧
      (1 + 1 < N → ∃ i j, Agree [1, 5, 7, 9] [1, 3, 5] 4 i j N ∧
        (∀ i' j', Agree [1, 5, 7, 9] [1, 3, 5] 4 i' j' N → i' ≤ i ∧ j' ≤ j) ∧
        cppMatch [1, 5, 7, 9] [1, 3, 5] 4 1 =
          (4 - ((i + N - 2 : ℕ) : ℤ), 3 - ((j + N - 2 : ℕ) : ℤ))) :=
  cppMatch_longest (by decide) (by decide) 4 1

end LoptVllm.Lopt
