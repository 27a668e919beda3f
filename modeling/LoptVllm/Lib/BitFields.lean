import Mathlib.Data.Int.Bitwise
import Mathlib.Data.List.Induction
import Mathlib.Tactic.Ring

/-!
# Bit fields

Fields of given widths packed into a number, the first one in the lowest bits.
-/

namespace LoptVllm.BitFields

open List Prod Nat

/-- The number with these fields, a field by its width and value. -/
def pack : List (ℕ × ℕ) → ℕ
  | [] => 0
  | (w, v) :: fs => v % 2 ^ w + 2 ^ w * pack fs

/-- The fields of these widths. -/
def unpack : List ℕ → ℕ → List ℕ
  | [], _ => []
  | w :: ws, n => n % 2 ^ w :: unpack ws (n / 2 ^ w)

theorem pack_lt : ∀ fs : List (ℕ × ℕ), pack fs < 2 ^ (fs.map fst).sum
  | [] => by simp [pack]
  | (w, v) :: fs => by
    have hv : v % 2 ^ w < 2 ^ w := mod_lt _ (Nat.two_pow_pos w)
    calc v % 2 ^ w + 2 ^ w * pack fs < 2 ^ w + 2 ^ w * pack fs := Nat.add_lt_add_right hv _
      _ = 2 ^ w * (pack fs + 1) := by ring
      _ ≤ 2 ^ w * 2 ^ (fs.map fst).sum := mul_le_mul_left _ (pack_lt fs)
      _ = 2 ^ (((w, v) :: fs).map fst).sum := by simp [pow_add]

theorem unpack_pack : ∀ fs : List (ℕ × ℕ),
    unpack (fs.map fst) (pack fs) = fs.map fun f => f.2 % 2 ^ f.1
  | [] => rfl
  | (w, v) :: fs => by
    have hpos := Nat.two_pow_pos w
    have hv : v % 2 ^ w < 2 ^ w := mod_lt _ hpos
    rw [map_cons, map_cons, unpack, pack, add_mul_mod_self_left, mod_mod,
      add_mul_div_left _ _ hpos, div_eq_of_lt hv, zero_add, unpack_pack]

/-- `val |= (member & mask) << offset; offset += width`. -/
def orAdvance (acc : ℕ × ℕ) (f : ℕ × ℕ) : ℕ × ℕ :=
  (acc.1 ||| (f.2 % 2 ^ f.1) <<< acc.2, acc.2 + f.1)

/-- A field goes above the ones before it. -/
theorem orAdvance_eq {val offset : ℕ} (h : val < 2 ^ offset) (w v : ℕ) :
    orAdvance (val, offset) (w, v) = (val + 2 ^ offset * (v % 2 ^ w), offset + w) := by
  rw [orAdvance, Nat.or_comm, ← shiftLeft_add_eq_or_of_lt h, shiftLeft_eq, add_comm, mul_comm]

theorem foldl_orAdvance : ∀ (fs : List (ℕ × ℕ)) {val offset : ℕ}, val < 2 ^ offset →
    fs.foldl orAdvance (val, offset) = (val + 2 ^ offset * pack fs, offset + (fs.map fst).sum)
  | [], val, offset, _ => by simp [pack]
  | (w, v) :: fs, val, offset, h => by
    have hv : v % 2 ^ w + 1 ≤ 2 ^ w := mod_lt _ (Nat.two_pow_pos w)
    have hlt : val + 2 ^ offset * (v % 2 ^ w) < 2 ^ (offset + w) :=
      calc val + 2 ^ offset * (v % 2 ^ w)
          < 2 ^ offset + 2 ^ offset * (v % 2 ^ w) := Nat.add_lt_add_right h _
        _ = 2 ^ offset * (v % 2 ^ w + 1) := by ring
        _ ≤ 2 ^ offset * 2 ^ w := mul_le_mul_left _ hv
        _ = 2 ^ (offset + w) := (pow_add 2 offset w).symm
    rw [foldl_cons, orAdvance_eq h, foldl_orAdvance fs hlt, pack, map_cons, sum_cons, pow_add]
    congr 1 <;> ring

/-- The fields by shifts and masks, from an offset on. -/
def extract (n : ℕ) : List ℕ → ℕ → List ℕ
  | [], _ => []
  | w :: ws, offset => (n >>> offset) % 2 ^ w :: extract n ws (offset + w)

theorem extract_eq (n : ℕ) : ∀ (ws : List ℕ) (offset : ℕ),
    extract n ws offset = unpack ws (n >>> offset)
  | [], _ => rfl
  | w :: ws, offset => by
    rw [extract, unpack, extract_eq n ws, shiftRight_add, shiftRight_eq_div_pow (n >>> offset)]

theorem land_mask (n : ℤ) (w : ℕ) : n.land (2 ^ w - 1) = n % 2 ^ w := by
  have hmask : (2 ^ w - 1 : ℤ) = ((2 ^ w - 1 : ℕ) : ℤ) := by
    rw [Int.natCast_sub Nat.one_le_two_pow]
    norm_cast
  rw [hmask]
  cases n with
  | ofNat n =>
    change ((n &&& (2 ^ w - 1) : ℕ) : ℤ) = _
    rw [and_two_pow_sub_one_eq_mod]
    norm_cast
  | negSucc n =>
    have hlt := mod_lt n (Nat.two_pow_pos w)
    -- the bits of `-(n + 1)` are those of `n` the other way round
    have hdiff : ldiff (2 ^ w - 1) n = 2 ^ w - (n % 2 ^ w + 1) := by
      refine eq_of_testBit_eq fun i => ?_
      rw [testBit_ldiff, testBit_two_pow_sub_one, testBit_two_pow_sub_succ hlt, testBit_mod_two_pow]
      cases decide (i < w) <;> rfl
    change ((ldiff (2 ^ w - 1) n : ℕ) : ℤ) = _
    rw [hdiff, Int.negSucc_emod n (by exact_mod_cast Nat.two_pow_pos w), cast_sub hlt]
    push_cast
    ring

end LoptVllm.BitFields
