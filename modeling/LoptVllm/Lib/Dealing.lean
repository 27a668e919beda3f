import Mathlib.Data.List.Nodup
import Mathlib.Data.List.Perm.Basic
import Mathlib.Data.List.Range
import Mathlib.Tactic.Ring

/-!
# Dealing out a list

The entries of a list are dealt out to `n` hands with a stride, rows of different lengths are read
by columns, and positions are dealt out to hands in runs. In each case every entry comes up once.
-/

namespace LoptVllm.Lib

open List Prod Nat

variable {α : Type*}

/-- `xs[i::n]`. -/
def strided (l : List α) (i n : ℕ) : List α :=
  (l.zipIdx.filter fun p => i ≤ p.2 ∧ (p.2 - i) % n = 0).map fst

theorem strided_of_lt {l : List α} {i n : ℕ} (hi : i < n) :
    strided l i n = (l.zipIdx.filter fun p => p.2 % n = i).map fst := by
  refine congrArg (List.map fst) (filter_congr fun p _ => decide_eq_decide.2 ?_)
  constructor
  · rintro ⟨hle, hmod⟩
    obtain ⟨k, hk⟩ := dvd_of_mod_eq_zero hmod
    rw [show p.2 = i + n * k by omega, add_mul_mod_self_left, mod_eq_of_lt hi]
  · intro hmod
    have hdiv := div_add_mod p.2 n
    rw [hmod] at hdiv
    exact ⟨by omega, by rw [← hdiv, Nat.add_sub_cancel, mul_mod_right]⟩

/-- The entries by the value of a function. -/
theorem flatMap_filter_perm {f : α → ℕ} {n : ℕ} : ∀ {l : List α}, (∀ a ∈ l, f a < n) →
    ((range n).flatMap fun i => l.filter fun a => f a = i).Perm l := by
  induction n with
  | zero =>
    intro l h
    rw [eq_nil_iff_forall_not_mem.2 fun a ha => absurd (h a ha) (not_lt_zero _)]
    simp
  | succ n ih =>
    intro l h
    have hrest : ∀ i ∈ range n, (l.filter fun a => f a = i) =
        (l.filter fun a => !decide (f a = n)).filter fun a => f a = i := by
      intro i hi
      have hne := (mem_range.1 hi).ne
      rw [filter_filter]
      refine filter_congr fun a _ => ?_
      by_cases ha : f a = i <;> simp [ha, hne]
    rw [range_succ, flatMap_append, flatMap_congr hrest, flatMap_singleton]
    refine ((ih fun a ha => ?_).append_right _).trans
      (perm_append_comm.trans (filter_append_perm _ l))
    obtain ⟨hmem, hne⟩ := mem_filter.1 ha
    have := h a hmem
    simp only [Bool.not_eq_true', decide_eq_false_iff_not] at hne
    omega

theorem flatMap_strided_perm (l : List α) {n : ℕ} (hn : 0 < n) :
    ((range n).flatMap fun i => strided l i n).Perm l := by
  rw [flatMap_congr fun i hi => strided_of_lt (mem_range.1 hi), ← map_flatMap]
  have := (flatMap_filter_perm (f := fun p : α × ℕ => p.2 % n) (l := l.zipIdx)
    fun p _ => mod_lt _ hn).map fst
  rwa [zipIdx_map_fst] at this

/-- The entries at the index `i` of the rows that are long enough. -/
def column (rows : List (List α)) (i : ℕ) : List α := rows.filterMap fun row => row[i]?

theorem flatMap_getElem? : ∀ {l : List α} {m : ℕ}, l.length ≤ m →
    ((range m).flatMap fun i => l[i]?.toList) = l
  | [], m, _ => by simp
  | a :: l, 0, h => absurd h (not_succ_le_zero _)
  | a :: l, m + 1, h => by
    rw [range_succ_eq_map, flatMap_cons, flatMap_map]
    exact congrArg (a :: ·) (flatMap_getElem? (le_of_succ_le_succ h))

variable {rows : List (List α)}

theorem flatMap_column_perm {m : ℕ} (h : ∀ row ∈ rows, row.length ≤ m) :
    ((range m).flatMap (column rows)).Perm rows.flatten := by
  induction rows with
  | nil => simp [column]
  | cons row rows ih =>
    have hcons : ∀ i, column (row :: rows) i = row[i]?.toList ++ column rows i := fun i => by
      cases hi : row[i]? <;> simp [column, hi]
    rw [flatMap_congr fun i _ => hcons i, flatten_cons]
    refine (flatMap_append_perm _ _ _).symm.trans ?_
    rw [flatMap_getElem? (h row mem_cons_self)]
    exact (ih fun row' hrow' => h row' (.tail _ hrow')).append_left _

theorem getElem?_of_mem_column (hnodup : rows.flatten.Nodup) {row : List α}
    (hrow : row ∈ rows) {a : α} (ha : a ∈ row) {i : ℕ} (hcol : a ∈ column rows i) :
    row[i]? = some a := by
  obtain ⟨row', hrow', hi⟩ := mem_filterMap.1 hcol
  by_contra hne
  have hrows : row' ≠ row := fun he => hne (he ▸ hi)
  have : Std.Symm (@List.Disjoint α) := ⟨fun _ _ h _ ha hb => h hb ha⟩
  have hdisj := (nodup_flatten.1 hnodup).2.forall hrow' hrow hrows
  exact hdisj (mem_of_getElem? hi) ha

/-- The hand of a position, when runs of `i` positions are dealt out to `w` hands. -/
def hand (w i p : ℕ) : ℕ := p / i % w

/-- The place of a position in its hand. -/
def place (w i p : ℕ) : ℕ := p / (w * i) * i + p % i

section

variable {w i p : ℕ}

@[simp] theorem hand_one : hand 1 i p = 0 := mod_one _

@[simp] theorem place_one : place 1 i p = p := by
  rw [place, one_mul, div_add_mod']

theorem place_mod : place w i p % i = p % i := by
  rw [place, mul_comm, mul_add_mod, mod_mod]

variable (hi : 0 < i)

include hi

theorem place_div : place w i p / i = p / i / w := by
  rw [place, mul_comm, mul_add_div hi, div_eq_of_lt (mod_lt p hi), add_zero,
    Nat.div_div_eq_div_mul, mul_comm]

theorem eq_of_hand_of_place {q : ℕ} (hhand : hand w i p = hand w i q)
    (hplace : place w i p = place w i q) : p = q := by
  have hrounds : p / i / w = q / i / w := by rw [← place_div hi, ← place_div hi, hplace]
  have hrun : p / i = q / i := by
    rw [← div_add_mod (p / i) w, ← div_add_mod (q / i) w, hrounds]
    exact congrArg _ hhand
  have hrest : p % i = q % i := by rw [← place_mod (w := w), hplace, place_mod]
  rw [← div_add_mod p i, ← div_add_mod q i, hrun, hrest]

variable {k : ℕ}

theorem place_lt (hk : i ∣ k) (hp : p < k * w) : place w i p < k := by
  obtain ⟨c, rfl⟩ := hk
  have hruns : p / i < c * w := Nat.div_lt_of_lt_mul (by rwa [← mul_assoc])
  have hrounds : place w i p / i < c := by
    rw [place_div hi]
    exact Nat.div_lt_of_lt_mul (by rwa [mul_comm])
  exact (div_lt_iff_lt_mul hi).1 hrounds |>.trans_eq (mul_comm _ _)

/-- After whole rounds the dealing begins anew. -/
theorem hand_add (hk : i ∣ k) (m : ℕ) : hand w i (k * w * m + p) = hand w i p := by
  obtain ⟨c, rfl⟩ := hk
  rw [hand, hand, show i * c * w * m + p = i * (w * (c * m)) + p by ring, mul_add_div hi,
    mul_add_mod]

theorem place_add (hw : 0 < w) (hk : i ∣ k) (m : ℕ) :
    place w i (k * w * m + p) = k * m + place w i p := by
  obtain ⟨c, rfl⟩ := hk
  rw [place, place, show i * c * w * m + p = w * i * (c * m) + p by ring,
    mul_add_div (mul_pos hw hi), show w * i * (c * m) + p = i * (w * (c * m)) + p by ring,
    mul_add_mod]
  ring

/-- If the dealing begins anew after `w * k` positions, the runs fill the `k` places. -/
theorem dvd_of_place (hw : w ≠ 1) (hhand : hand w i (k * w) = 0)
    (hplace : place w i (k * w) = k) : i ∣ k := by
  have hrest : k * w % i = k % i := by rw [← place_mod (w := w), hplace]
  have hruns : k * w / i = w * (k / i) := by
    have := div_add_mod (k * w / i) w
    rwa [← place_div hi, hplace, show k * w / i % w = 0 from hhand, add_zero, eq_comm] at this
  have hmul : w * (k % i) = k % i := by
    have h := div_add_mod (k * w) i
    rw [hruns, hrest, ← mul_assoc, mul_comm i w, mul_assoc] at h
    have h' : k * w = w * (i * (k / i)) + w * (k % i) := by
      rw [← mul_add, div_add_mod, mul_comm]
    omega
  refine dvd_of_mod_eq_zero (by_contra fun hne => hw ?_)
  exact eq_of_mul_eq_mul_right (pos_of_ne_zero hne) (hmul.trans (one_mul _).symm)

end

/-- The number of positions below `n` in the hand `r`. -/
def handLength (w i r n : ℕ) : ℕ := n / i / w * i + min (n - n / i / w * i * w - r * i) i

section

variable {w i q j t : ℕ} (hj : j < w) (ht : t < i)

include hj ht

theorem hand_mk : hand w i ((q * w + j) * i + t) = j := by
  rw [hand, mul_comm, mul_add_div (zero_lt_of_lt ht), div_eq_of_lt ht, add_zero,
    mul_comm, mul_add_mod, mod_eq_of_lt hj]

theorem div_mk : ((q * w + j) * i + t) / i / w = q := by
  rw [mul_comm, mul_add_div (zero_lt_of_lt ht), div_eq_of_lt ht, add_zero,
    mul_comm, mul_add_div (zero_lt_of_lt hj), div_eq_of_lt hj, add_zero]

theorem place_mk : place w i ((q * w + j) * i + t) = q * i + t := by
  rw [place, mul_comm w, ← Nat.div_div_eq_div_mul, div_mk hj ht, mul_comm (q * w + j) i,
    mul_add_mod, mod_eq_of_lt ht]

theorem handLength_mk (r : ℕ) : handLength w i r ((q * w + j) * i + t) =
    q * i + if j < r then 0 else if j = r then t else i := by
  have hrest : (q * w + j) * i + t - q * i * w - r * i = j * i + t - r * i := by
    rw [show (q * w + j) * i + t = q * i * w + (j * i + t) by ring, Nat.add_sub_cancel_left]
  rw [handLength, div_mk hj ht, hrest]
  congr 1
  split_ifs with hlt heq
  · have := mul_le_mul_right i hlt
    rw [succ_mul] at this
    omega
  · rw [heq, Nat.add_sub_cancel_left]
    exact min_eq_left ht.le
  · have := mul_le_mul_right i (lt_of_le_of_ne (not_lt.1 hlt) (Ne.symm heq))
    rw [succ_mul] at this
    omega

theorem handLength_succ {r : ℕ} (hr : r < w) : handLength w i r ((q * w + j) * i + t + 1) =
    handLength w i r ((q * w + j) * i + t) + if j = r then 1 else 0 := by
  rw [handLength_mk hj ht]
  by_cases ht' : t + 1 < i
  · rw [add_assoc, handLength_mk hj ht']
    split_ifs <;> omega
  obtain rfl : i = t + 1 := by omega
  have hi : 0 < t + 1 := succ_pos t
  by_cases hj' : j + 1 < w
  · rw [show (q * w + j) * (t + 1) + t + 1 = (q * w + (j + 1)) * (t + 1) + 0 by ring,
      handLength_mk hj' hi]
    split_ifs <;> omega
  obtain rfl : w = j + 1 := by omega
  rw [show (q * (j + 1) + j) * (t + 1) + t + 1 = ((q + 1) * (j + 1) + 0) * (t + 1) + 0 by ring,
    handLength_mk (succ_pos j) hi, succ_mul]
  split_ifs <;> omega

end

/-- The positions of a hand are at its places, in order. -/
theorem map_place_filter_hand {w i r : ℕ} (hi : 0 < i) (hr : r < w) (n : ℕ) :
    ((range n).filter fun p => decide (hand w i p = r)).map (place w i) =
      range (handLength w i r n) := by
  induction n with
  | zero => simp [handLength]
  | succ n ih =>
    obtain ⟨q, j, t, hj, ht, rfl⟩ : ∃ q j t, j < w ∧ t < i ∧ n = (q * w + j) * i + t := by
      refine ⟨n / i / w, n / i % w, n % i, mod_lt _ (zero_lt_of_lt hr), mod_lt _ hi, ?_⟩
      rw [div_add_mod', div_add_mod']
    rw [range_succ, filter_append, map_append, ih, handLength_succ hj ht hr]
    by_cases hjr : j = r
    · rw [if_pos hjr, range_succ, handLength_mk hj ht, filter_singleton, hand_mk hj ht, hjr]
      simp [place_mk (hjr ▸ hj) ht]
    · simp [hand_mk hj ht, hjr]

end LoptVllm.Lib
