import LoptVllm.Lib.BitFields
import LoptVllm.ScalarType.Cpp

/-!
# Where the two scalar types agree

In Python an `Enum` member is compared with an integer, so that every type has NaNs and none is
IEEE 754; and `has_infs` does not ask for a floating-point type.
-/

namespace LoptVllm.ScalarTypes

open BitFields Except BitVec Nat Python

/-- What both constructors take. -/
structure Args where
  exponent : BitVec 8
  mantissa : BitVec 8
  signed : Bool
  bias : BitVec 32
  finiteValuesOnly : Bool
  nanRepr : NanRepr

namespace Args

variable (a : Args)

def python : ScalarType where
  exponent := a.exponent.toNat
  mantissa := a.mantissa.toNat
  signed := a.signed
  bias := a.bias.toInt
  finiteValuesOnly := a.finiteValuesOnly
  nanRepr := a.nanRepr

def cpp : Cpp.ScalarType where
  exponent := a.exponent
  mantissa := a.mantissa
  signed := a.signed
  bias := a.bias
  finiteValuesOnly := a.finiteValuesOnly
  nanRepr := BitVec.ofNat 8 a.nanRepr.value

end Args

/-! ### The id -/

/-- The fields of a type, with their widths. -/
def Cpp.ScalarType.fields (t : Cpp.ScalarType) : List (ℕ × ℕ) :=
  [(8, t.exponent.toNat), (8, t.mantissa.toNat), (1, t.signed.toNat), (32, t.bias.toNat),
    (1, t.finiteValuesOnly.toNat), (8, t.nanRepr.toNat)]

/-- A member as a field. -/
def Python.field (member : ℤ × ℕ) : ℕ × ℕ := (member.2, (member.1 % 2 ^ member.2).toNat)

theorem Python.orAndAdvance_eq (val offset : ℕ) (member : ℤ × ℕ) :
    orAndAdvance ((val : ℤ), offset) member = (((orAdvance (val, offset) (field member)).1 : ℤ),
        (orAdvance (val, offset) (field member)).2) := by
  obtain ⟨m, w⟩ := member
  have hpos : (0 : ℤ) < 2 ^ w := by exact_mod_cast Nat.two_pow_pos w
  obtain ⟨k, hk⟩ := Int.eq_ofNat_of_zero_le (Int.emod_nonneg m hpos.ne')
  have hlt : k < 2 ^ w := by
    have := Int.emod_lt_of_pos m hpos
    rw [hk] at this
    exact_mod_cast this
  have hshift : (k : ℤ) * 2 ^ offset = ((k <<< offset : ℕ) : ℤ) := by
    rw [Nat.shiftLeft_eq]
    norm_cast
  rw [orAndAdvance, orAdvance, field, land_mask, hk, hshift, Int.toNat_natCast, mod_eq_of_lt hlt]
  rfl

theorem Python.foldl_orAndAdvance : ∀ (ms : List (ℤ × ℕ)) (val offset : ℕ),
    (ms.foldl orAndAdvance ((val : ℤ), offset)).1 =
      (((ms.map field).foldl orAdvance (val, offset)).1 : ℤ)
  | [], _, _ => rfl
  | m :: ms, val, offset => by
    rw [List.foldl_cons, orAndAdvance_eq, foldl_orAndAdvance ms]
    rfl

variable {w : ℕ}

theorem Cpp.toNat_mask (hw : w < 64) : ((1#64 <<< w) - 1#64).toNat = 2 ^ w - 1 := by
  have hpow : 2 ^ w < 2 ^ 64 := Nat.pow_lt_pow_right one_lt_two hw
  have hpos := Nat.two_pow_pos w
  have hone : (1#64 <<< w).toNat = 2 ^ w := by
    rw [toNat_shiftLeft, Nat.shiftLeft_eq, toNat_ofNat, one_mod_eq_one.2 (by decide),
      one_mul, mod_eq_of_lt hpow]
  rw [toNat_sub_of_le, hone]
  · rfl
  · rw [le_def, hone]
    exact hpos

theorem Cpp.orAndAdvance_eq (id : BitVec 64) {offset : ℕ} (member : BitVec 64) (hw : w < 64)
    (h : offset + w ≤ 64) : (orAndAdvance (id, offset) (member, w)).1.toNat =
      (orAdvance (id.toNat, offset) (w, member.toNat)).1 := by
  have hlt : member.toNat % 2 ^ w * 2 ^ offset < 2 ^ 64 :=
    calc member.toNat % 2 ^ w * 2 ^ offset
        < 2 ^ w * 2 ^ offset :=
          mul_lt_mul_of_pos_right (mod_lt _ (Nat.two_pow_pos w)) (Nat.two_pow_pos offset)
      _ = 2 ^ (offset + w) := by rw [← pow_add, add_comm]
      _ ≤ 2 ^ 64 := Nat.pow_le_pow_right two_pos h
  rw [orAndAdvance, orAdvance, toNat_or, toNat_shiftLeft, toNat_and,
    toNat_mask hw, and_two_pow_sub_one_eq_mod, Nat.shiftLeft_eq, mod_eq_of_lt hlt]

theorem Cpp.foldl_orAndAdvance : ∀ (ms : List (BitVec 64 × ℕ)) (id : BitVec 64) (offset : ℕ),
    (∀ m ∈ ms, m.2 < 64) → offset + (ms.map Prod.snd).sum ≤ 64 →
    (ms.foldl orAndAdvance (id, offset)).1.toNat =
      ((ms.map fun m => (m.2, m.1.toNat)).foldl orAdvance (id.toNat, offset)).1
  | [], _, _, _, _ => rfl
  | (m, w) :: ms, id, offset, hw, h => by
    rw [List.map_cons, List.sum_cons] at h
    have hstep := orAndAdvance_eq id m (hw _ (.head _)) (by omega : offset + w ≤ 64)
    change (List.foldl orAndAdvance ((orAndAdvance (id, offset) (m, w)).1, offset + w) ms).1.toNat = _
    rw [foldl_orAndAdvance ms _ _ (fun m hm => hw m (List.mem_cons_of_mem _ hm)) (by omega), hstep]
    rfl

variable (t : Cpp.ScalarType)

theorem cpp_id : t.id.toNat = pack t.fields := by
  have hbias : (t.bias.signExtend 64).toNat % 2 ^ 32 = t.bias.toNat % 2 ^ 32 := by
    rw [toNat_signExtend, toNat_setWidth]
    split_ifs <;> omega
  rw [Cpp.ScalarType.id, Cpp.foldl_orAndAdvance t.members 0 0 (by simp [Cpp.ScalarType.members])
    (by simp [Cpp.ScalarType.members])]
  rw [foldl_orAdvance _ (by simp)]
  simpa [pack, Cpp.ScalarType.members, Cpp.ScalarType.fields] using hbias

theorem python_id (a : Args) : a.python.id = (pack a.cpp.fields : ℤ) := by
  have hbias : (a.bias.toInt % 2 ^ 32).toNat = a.bias.toNat := by
    rw [BitVec.toInt_eq_toNat_cond]
    split_ifs <;> omega
  change (List.foldl orAndAdvance (((0 : ℕ) : ℤ), 0) a.python.members).1 = _
  rw [foldl_orAndAdvance, foldl_orAdvance _ (by simp)]
  have hfields : pack (a.python.members.map field) = pack a.cpp.fields := by
    have hexponent : (a.exponent.toNat : ℤ) % 2 ^ 8 = (a.exponent.toNat : ℤ) := by
      omega
    have hmantissa : (a.mantissa.toNat : ℤ) % 2 ^ 8 = (a.mantissa.toNat : ℤ) := by
      omega
    have hnan : ((a.nanRepr.value : ℤ) % 2 ^ 8).toNat = (BitVec.ofNat 8 a.nanRepr.value).toNat := by
      cases a.nanRepr <;> rfl
    have hbool : ∀ b : Bool, ((b.toNat : ℤ) % 2 ^ 1).toNat = b.toNat := by decide
    simp only [ScalarType.members, field, Cpp.ScalarType.fields, Args.python, Args.cpp,
      List.map_cons, List.map_nil, hexponent, hmantissa, hbias, hnan, hbool, Int.toNat_natCast]
  simp [hfields]

theorem id_lt : t.id.toNat < 2 ^ 58 := by
  rw [cpp_id]
  exact pack_lt t.fields

theorem Cpp.toNat_extracted {id : BitVec 64} (hid : id.toNat < 2 ^ 58) {bits : ℕ} (hbits : bits < 64)
    (bitOffset : ℕ) : (extracted id bits bitOffset).toNat = (id.toNat >>> bitOffset) % 2 ^ bits := by
  have hmsb : id.msb = false := by
    rw [msb_eq_false_iff_two_mul_lt]
    omega
  rw [extracted, toNat_and, toNat_sshiftRight_of_msb_false hmsb, toNat_mask hbits,
    and_two_pow_sub_one_eq_mod]

theorem fromId_id : Cpp.ScalarType.fromId t.id = t := by
  have hread : extract t.id.toNat [8, 8, 1, 32, 1, 8] 0 =
      [t.exponent.toNat, t.mantissa.toNat, t.signed.toNat, t.bias.toNat, t.finiteValuesOnly.toNat,
        t.nanRepr.toNat] := by
    have hbool : ∀ b : Bool, b.toNat % 2 ^ 1 = b.toNat := by decide
    rw [extract_eq, shiftRight_zero, cpp_id]
    refine (unpack_pack t.fields).trans ?_
    simp only [Cpp.ScalarType.fields, List.map_cons, List.map_nil, hbool,
      mod_eq_of_lt t.exponent.isLt, mod_eq_of_lt t.mantissa.isLt,
      mod_eq_of_lt t.bias.isLt, mod_eq_of_lt t.nanRepr.isLt]
  simp only [extract, List.cons.injEq, and_true] at hread
  obtain ⟨hexponent, hmantissa, hsigned, hbias, hfinite, hnan⟩ := hread
  have hword : ∀ {w : ℕ} (x : BitVec w) (offset : ℕ), w < 64 →
      t.id.toNat >>> offset % 2 ^ w = x.toNat → (Cpp.extracted t.id w offset).setWidth w = x := by
    intro w x offset hw h
    refine eq_of_toNat_eq ?_
    rw [toNat_setWidth, Cpp.toNat_extracted (id_lt t) hw, h, mod_eq_of_lt x.isLt]
  have hbit : ∀ (b : Bool) (offset : ℕ), t.id.toNat >>> offset % 2 ^ 1 = b.toNat →
      decide (Cpp.extracted t.id 1 offset ≠ 0) = b := by
    intro b offset h
    rw [← Cpp.toNat_extracted (id_lt t) (by decide)] at h
    cases b with
    | false =>
      have hzero : Cpp.extracted t.id 1 offset = 0 := eq_of_toNat_eq h
      exact decide_eq_false (not_not.2 hzero)
    | true => exact decide_eq_true fun hzero => by rw [hzero] at h; exact absurd h (by decide)
  rw [Cpp.ScalarType.fromId, hword t.exponent 0 (by decide) hexponent,
    hword t.mantissa 8 (by decide) hmantissa, hbit t.signed 16 hsigned,
    hword t.bias 17 (by decide) hbias, hbit t.finiteValuesOnly 49 hfinite,
    hword t.nanRepr 50 (by decide) hnan]

theorem nanRepr_inj {m n : NanRepr} : BitVec.ofNat 8 m.value = BitVec.ofNat 8 n.value ↔ m = n := by
  cases m <;> cases n <;> decide

theorem cpp_injective {a b : Args} (h : a.cpp = b.cpp) : a = b := by
  obtain ⟨e, m, s, i, f, n⟩ := a
  simp only [Args.cpp, Cpp.ScalarType.mk.injEq] at h
  obtain ⟨rfl, rfl, rfl, rfl, rfl, hn⟩ := h
  rw [nanRepr_inj.1 hn]

theorem python_id_eq (a : Args) : a.python.id = a.cpp.id.toInt := by
  have hlt := id_lt a.cpp
  rw [python_id, ← cpp_id, toInt_eq_toNat_of_lt (by omega)]

theorem id_injective {a b : Args} (h : a.python.id = b.python.id) : a = b := by
  rw [python_id_eq, python_id_eq, toInt_inj] at h
  refine cpp_injective ?_
  rw [← fromId_id a.cpp, h, fromId_id]

/-- The map of ids has a type that was registered, whatever else was. -/
theorem python_fromId {a : Args} {created : List Args} (ha : a ∈ created) : ScalarType.fromId
      ((created.map Args.python).foldl (fun idMap t => t.register idMap) ∅) a.python.id =
      .ok a.python := by
  have hlookup : ∀ (created : List Args) (idMap : OrderedDict ℤ ScalarType),
      a ∈ created ∨ idMap.lookup a.python.id = some a.python →
      ((created.map Args.python).foldl (fun idMap t => t.register idMap) idMap).lookup a.python.id =
        some a.python := by
    intro created
    induction created with
    | nil => exact fun _ h => h.resolve_left (List.not_mem_nil)
    | cons b created ih =>
      intro idMap h
      refine ih _ ?_
      change a ∈ created ∨ (idMap.setItem b.python.id b.python).lookup a.python.id = some a.python
      rw [OrderedDict.lookup_setItem]
      split_ifs with hid
      · exact .inr (by rw [id_injective hid])
      · refine h.imp_left fun hmem => (List.mem_cons.1 hmem).resolve_left fun hab => hid ?_
        rw [hab]
  rw [ScalarType.fromId, hlookup created ∅ (.inl ha)]

/-! ### The queries and the name -/

section Queries

variable (a : Args)

theorem isFloatingPoint_eq : a.python.isFloatingPoint = a.cpp.isFloatingPoint := by
  rw [ScalarType.isFloatingPoint, Cpp.ScalarType.isFloatingPoint, Bool.eq_iff_iff,
    decide_eq_true_iff, decide_eq_true_iff]
  exact pos_iff_ne_zero.symm

theorem sizeBits_eq : a.python.sizeBits = a.cpp.sizeBits := by
  exact congrArg (· + _) (add_comm _ _)

theorem nanRepr_none_iff : a.cpp.nanRepr = Cpp.nanNone ↔ a.nanRepr = .none := @nanRepr_inj _ .none

theorem nanRepr_extdRangeMaxMin_iff :
    a.cpp.nanRepr = Cpp.nanExtdRangeMaxMin ↔ a.nanRepr = .extdRangeMaxMin :=
  @nanRepr_inj _ .extdRangeMaxMin

theorem hasNans_agrees_iff : a.python.hasNans = a.cpp.hasNans ↔
    a.cpp.isFloatingPoint = true ∧ a.nanRepr ≠ .none := by
  have hpython : a.python.hasNans = true := rfl
  rw [hpython, Cpp.ScalarType.hasNans, eq_comm, Bool.and_eq_true, bne_iff_ne, Ne, nanRepr_none_iff]

theorem hasInfs_agrees_iff : a.python.hasInfs = a.cpp.hasInfs ↔
    a.cpp.isFloatingPoint = true ∨ a.finiteValuesOnly = true := by
  change (!a.finiteValuesOnly) = (a.cpp.isFloatingPoint && a.finiteValuesOnly == false) ↔ _
  cases a.cpp.isFloatingPoint <;> cases a.finiteValuesOnly <;> decide

theorem isIeee754_agrees_iff : a.python.isIeee754 = a.cpp.isIeee754 ↔ a.cpp.isIeee754 = false := by
  have hpython : a.python.isIeee754 = false := rfl
  rw [hpython, eq_comm]

theorem isIeee754_eq_false_iff (h : a.cpp.isFloatingPoint = true) : a.cpp.isIeee754 = false ↔
    a.finiteValuesOnly = true ∨ a.nanRepr ≠ .ieee754 := by
  have hnan : a.cpp.nanRepr = Cpp.nanIeee754 ↔ a.nanRepr = .ieee754 := @nanRepr_inj _ .ieee754
  rw [Cpp.ScalarType.isIeee754, h, Bool.true_and, Bool.and_eq_false_iff, beq_eq_false_iff_ne,
    beq_eq_false_iff_ne, Ne, Ne, hnan, Bool.not_eq_false]
  rfl

/-- The name of an IEEE 754 type ends in `n` in Python. -/
theorem str_agrees_iff : a.python.str = a.cpp.str ↔ a.cpp.isIeee754 = false := by
  have hbias : a.python.hasBias = a.cpp.hasBias := by
    have hzero : a.bias.toInt = 0 ↔ a.bias = 0 := by
      rw [← toInt_inj]
      rfl
    change decide (a.bias.toInt ≠ 0) = (a.bias != 0)
    rw [Bool.eq_iff_iff, decide_eq_true_iff, bne_iff_ne, Ne, hzero]
  have hpython : a.python.isIeee754 = false := rfl
  rw [ScalarType.str, Cpp.ScalarType.str, isFloatingPoint_eq, sizeBits_eq, hbias, hpython,
    Bool.not_false, if_pos rfl]
  simp only [Ne, nanRepr_none_iff]
  cases hfp : a.cpp.isFloatingPoint with
  | false =>
    have hnot : a.cpp.isIeee754 = false := by rw [Cpp.ScalarType.isIeee754, hfp, Bool.false_and]
    exact iff_of_true rfl hnot
  | true =>
    -- the names differ in their flags only
    refine (String.append_right_inj _).trans ?_
    cases hieee : a.cpp.isIeee754 with
    | false => exact iff_of_true rfl rfl
    | true =>
      have hflags : a.finiteValuesOnly = false ∧ a.nanRepr = .ieee754 := by
        have := mt (isIeee754_eq_false_iff a hfp).2 (by rw [hieee]; decide)
        push Not at this
        exact ⟨Bool.eq_false_iff.2 this.1, this.2⟩
      change (if a.finiteValuesOnly = true then "f" else "") ++
        (if ¬a.nanRepr = .none then "n" else "") = "" ↔ _
      rw [hflags.1, hflags.2]
      exact iff_of_false (by decide) (by decide)

end Queries

/-! ### The limits -/

/-- The answers of the two languages are the same number. -/
def SameNumber : Number → Cpp.Variant → Prop
  | .int n, .int64 x => x.toInt = n
  | .float d, .double d' => d = d'
  | _, _ => False

theorem two_pow_cast (w : ℕ) : (2 : ℤ) ^ w = ((2 ^ w : ℕ) : ℤ) := by
  rfl

theorem one_shiftLeft: 1#64 <<< w = BitVec.ofNat 64 (2 ^ w) := by
  refine eq_of_toNat_eq ?_
  rw [toNat_shiftLeft, toNat_ofNat, toNat_ofNat, one_mod_eq_one.2 (by decide), Nat.one_shiftLeft]

/-- The bits of the largest double, where the numbers put together fit their places. -/
theorem toNat_double {mantissa exponent : ℕ} (hw : w ≤ 52) (hmantissa : mantissa < 2 ^ w)
    (hexponent : exponent < 2 ^ 12) :
    (BitVec.ofNat 64 mantissa <<< (52 - w) ||| BitVec.ofNat 64 exponent <<< 52).toNat =
      mantissa * 2 ^ (52 - w) ||| exponent * 2 ^ 52 := by
  have hm : mantissa * 2 ^ (52 - w) < 2 ^ 52 :=
    calc mantissa * 2 ^ (52 - w)
        < 2 ^ w * 2 ^ (52 - w) := mul_lt_mul_of_pos_right hmantissa (Nat.two_pow_pos _)
      _ = 2 ^ 52 := by rw [← pow_add, Nat.add_sub_cancel' hw]
  have hlt : mantissa < 2 ^ 52 := hmantissa.trans_le (Nat.pow_le_pow_right two_pos hw)
  rw [toNat_or, toNat_shiftLeft, toNat_shiftLeft, toNat_ofNat,
    toNat_ofNat, Nat.shiftLeft_eq, Nat.shiftLeft_eq, mod_eq_of_lt (by omega : mantissa < 2 ^ 64),
    mod_eq_of_lt (by omega : exponent < 2 ^ 64), mod_eq_of_lt (by omega),
    mod_eq_of_lt (by omega)]

theorem lor_neg {x y : ℤ} (h : x < 0) : x.lor y < 0 := by
  cases x with
  | ofNat x => exact absurd h (by simp)
  | negSucc x => cases y <;> exact Int.negSucc_lt_zero _

/-- The mantissa of the largest number; it does not wrap around when it is nonnegative. -/
theorem maxMantissa_eq (extd : Prop) [Decidable extd] (h : extd → 0 < w) :
    ∃ m < 2 ^ w, (if extd then (2 : ℤ) ^ w - 1 - 1 else 2 ^ w - 1) = (m : ℕ) ∧
      (if extd then 1#64 <<< w - 1#64 - 1#64 else 1#64 <<< w - 1#64) = BitVec.ofNat 64 m := by
  have hpos := Nat.two_pow_pos w
  have hone : 1#64 <<< w - 1#64 = BitVec.ofNat 64 (2 ^ w - 1) := by
    rw [one_shiftLeft]
    exact ofNat_sub_ofNat_of_le _ _ (by omega) hpos
  rw [two_pow_cast, hone]
  by_cases hextd : extd
  · have htwo : 2 ≤ 2 ^ w := le_self_pow (h hextd).ne' 2
    rw [if_pos hextd, if_pos hextd]
    exact ⟨2 ^ w - 1 - 1, by omega, by omega, ofNat_sub_ofNat_of_le _ _ (by omega) (by omega)⟩
  · rw [if_neg hextd, if_neg hextd]
    exact ⟨2 ^ w - 1, by omega, by omega, rfl⟩

theorem maxExponentDouble_eq {e : ℕ} (he : 0 < e) (hle : e ≤ 11) (extended : Prop)
    [Decidable extended] :
    ∃ d < 2 ^ 12, (if extended then (2 : ℤ) ^ e - 2 + 1 else 2 ^ e - 2) - (2 ^ (e - 1) - 1) +
        (2 ^ 10 - 1) = (d : ℕ) ∧
      (if extended then 1#64 <<< e - 2#64 + 1#64 else 1#64 <<< e - 2#64) - (1#64 <<< (e - 1) - 1#64) +
        (1#64 <<< 10 - 1#64) = BitVec.ofNat 64 d := by
  obtain ⟨k, rfl⟩ := exists_eq_succ_of_ne_zero he.ne'
  rw [succ_sub_one, succ_eq_add_one]
  have hk : 2 ^ k ≤ 2 ^ 10 := Nat.pow_le_pow_right two_pos (by omega)
  have hpos := Nat.two_pow_pos k
  have hsucc : 2 ^ (k + 1) = 2 * 2 ^ k := by rw [pow_succ, mul_comm]
  have hcastSucc : (2 : ℤ) ^ (k + 1) = ((2 * 2 ^ k : ℕ) : ℤ) := by rw [two_pow_cast, hsucc]
  have hbias : 1#64 <<< k - 1#64 = BitVec.ofNat 64 (2 ^ k - 1) := by
    rw [one_shiftLeft]
    exact ofNat_sub_ofNat_of_le _ _ (by omega) hpos
  have hmax : 1#64 <<< (k + 1) - 2#64 = BitVec.ofNat 64 (2 * 2 ^ k - 2) := by
    rw [one_shiftLeft, hsucc]
    exact ofNat_sub_ofNat_of_le _ _ (by omega) (by omega)
  have hdouble : (1#64 <<< 10 - 1#64) = BitVec.ofNat 64 1023 := by decide
  rw [hcastSucc, two_pow_cast, hbias, hmax, hdouble]
  by_cases hext : extended
  · rw [if_pos hext, if_pos hext]
    refine ⟨2 ^ k + 1023, by omega, by omega, ?_⟩
    rw [show BitVec.ofNat 64 (2 * 2 ^ k - 2) + 1#64 = BitVec.ofNat 64 (2 * 2 ^ k - 2 + 1) from
      ofNat_add_ofNat _ _, ofNat_sub_ofNat_of_le _ _ (by omega) (by omega),
      ofNat_add_ofNat]
    congr 1
    omega
  · rw [if_neg hext, if_neg hext]
    refine ⟨2 ^ k + 1022, by omega, by omega, ?_⟩
    rw [ofNat_sub_ofNat_of_le _ _ (by omega) (by omega), ofNat_add_ofNat]
    congr 1
    omega

section Limits

variable {a : Args} {raw : ℤ}

/-- The bits of the largest double are the same, when Python can pack them. -/
theorem floatingPointMax_agrees (hfp : a.cpp.isFloatingPoint = true) {d : Double}
    (hpython : a.python.floatingPointMaxInt = .ok raw) (hcpp : a.cpp.floatingPointMax = .ok d)
    (hraw : 0 ≤ raw) : raw = (d.toNat : ℤ) := by
  have hpos : 0 < a.exponent.toNat := of_decide_eq_true hfp
  rw [ScalarType.floatingPointMaxInt] at hpython
  rw [Cpp.ScalarType.floatingPointMax] at hcpp
  simp only [nanRepr_none_iff, nanRepr_extdRangeMaxMin_iff] at hcpp
  by_cases hguard : a.cpp.mantissa.toNat ≤ 52 ∧ a.cpp.exponent.toNat ≤ 11
  swap
  · rw [if_pos hguard] at hcpp
    cases hcpp
  have hguardPython : a.python.mantissa ≤ 52 ∧ a.python.exponent ≤ 11 := hguard
  by_cases hsize : (a.nanRepr = .extdRangeMaxMin ∨ a.nanRepr = .none) ∧ ¬a.cpp.exponent.toNat < 11
  · rw [if_neg (not_not.2 hguard), if_pos hsize] at hcpp
    cases hcpp
  have hsizePython : ¬((a.python.nanRepr = .extdRangeMaxMin ∨ a.python.nanRepr = .none) ∧
    ¬a.python.exponent < 11) := hsize
  rw [if_neg (not_not.2 hguardPython), if_neg hsizePython, ok.injEq] at hpython
  rw [if_neg (not_not.2 hguard), if_neg hsize, ok.injEq] at hcpp
  subst hpython hcpp
  have hmantissa : a.nanRepr = .extdRangeMaxMin → 0 < a.mantissa.toNat := by
    intro hextd
    by_contra hzero
    -- the mantissa is `-1`
    have hneg : (if a.nanRepr = .extdRangeMaxMin then (2 : ℤ) ^ a.mantissa.toNat - 1 - 1
        else 2 ^ a.mantissa.toNat - 1) * 2 ^ (52 - a.mantissa.toNat) < 0 := by
      rw [if_pos hextd, Nat.eq_zero_of_not_pos hzero]
      decide
    exact absurd hraw (not_le.2 (lor_neg hneg))
  have hw : a.mantissa.toNat ≤ 52 := hguard.1
  obtain ⟨m, hm, hmInt, hmWord⟩ := maxMantissa_eq _ hmantissa
  obtain ⟨e, he, heInt, heWord⟩ :=
    maxExponentDouble_eq hpos hguard.2 (a.nanRepr = .extdRangeMaxMin ∨ a.nanRepr = .none)
  have hdouble := toNat_double hw hm he
  rw [← hmWord, ← heWord] at hdouble
  refine Eq.trans ?_ (congrArg Nat.cast hdouble).symm
  change Int.lor ((if a.nanRepr = .extdRangeMaxMin then (2 : ℤ) ^ a.mantissa.toNat - 1 - 1
    else 2 ^ a.mantissa.toNat - 1) * 2 ^ (52 - a.mantissa.toNat))
    (((if a.nanRepr = .extdRangeMaxMin ∨ a.nanRepr = .none then (2 : ℤ) ^ a.exponent.toNat - 2 + 1
      else 2 ^ a.exponent.toNat - 2) - (2 ^ (a.exponent.toNat - 1) - 1) + (2 ^ 10 - 1)) * 2 ^ 52) = _
  rw [hmInt, heInt]
  norm_cast

theorem packDouble_agrees {d d' : Double} (h : 0 ≤ raw → raw = (d.toNat : ℤ))
    (hpack : packDouble raw = .ok d') : d' = d := by
  rw [packDouble] at hpack
  split_ifs at hpack with hbounds
  rw [ok.injEq] at hpack
  rw [← hpack, h hbounds.1, ofInt_natCast, ofNat_toNat, setWidth_eq]

theorem lor_sign {d : Double} (h : 0 ≤ raw → raw = (d.toNat : ℤ))
    (hnonneg : 0 ≤ raw.lor (2 ^ 63)) : raw.lor (2 ^ 63) = ((d ||| 1#64 <<< 63).toNat : ℤ) := by
  have hraw : 0 ≤ raw := by
    by_contra hneg
    exact absurd hnonneg (not_le.2 (lor_neg (not_le.1 hneg)))
  rw [h hraw, toNat_or]
  rfl

variable {sub : Double → ℤ → Double}

theorem max_agrees (hfp : a.cpp.isFloatingPoint = true) {x : Number} {y : Cpp.Variant}
    (hpython : a.python.max sub = .ok x) (hcpp : a.cpp.max sub = .ok y) : SameNumber x y := by
  have hfpPython : a.python.isFloatingPoint = true := (isFloatingPoint_eq a).trans hfp
  rw [ScalarType.max, ScalarType.rawMax, if_pos hfpPython, map_eq_ok] at hpython
  rw [Cpp.ScalarType.max, Cpp.ScalarType.rawMax, if_pos hfp, map_eq_ok] at hcpp
  obtain ⟨p, hp, rfl⟩ := hpython
  obtain ⟨raw, hraw, hp⟩ := bind_ok.1 hp
  obtain ⟨d', hpack, hp⟩ := bind_ok.1 hp
  obtain ⟨c, hc, rfl⟩ := hcpp
  obtain ⟨d, hd, rfl⟩ := map_eq_ok.1 hc
  obtain rfl : d' = d := packDouble_agrees (floatingPointMax_agrees hfp hraw hd) hpack
  cases hp
  rfl

theorem min_agrees (hfp : a.cpp.isFloatingPoint = true) {x : Number} {y : Cpp.Variant}
    (hpython : a.python.min sub = .ok x) (hcpp : a.cpp.min sub = .ok y) : SameNumber x y := by
  have hfpPython : a.python.isFloatingPoint = true := (isFloatingPoint_eq a).trans hfp
  rw [ScalarType.min, ScalarType.rawMin, if_pos hfpPython, map_eq_ok] at hpython
  rw [Cpp.ScalarType.min, Cpp.ScalarType.rawMin, if_pos hfp, map_eq_ok] at hcpp
  obtain ⟨p, hp, rfl⟩ := hpython
  obtain ⟨c, hc, rfl⟩ := hcpp
  have hsigned : a.cpp.signed = true := by
    by_contra hunsigned
    rw [if_neg hunsigned] at hc
    cases hc
  have hsignedPython : a.python.signed = true := hsigned
  rw [if_pos hsignedPython] at hp
  rw [if_pos hsigned] at hc
  obtain ⟨raw, hraw, hp⟩ := bind_ok.1 hp
  obtain ⟨d', hpack, hp⟩ := bind_ok.1 hp
  obtain ⟨d, hd, hc⟩ := bind_ok.1 hc
  obtain rfl : d' = d ||| 1#64 <<< 63 :=
    packDouble_agrees (lor_sign (floatingPointMax_agrees hfp hraw hd)) hpack
  cases hp
  cases hc
  rfl

end Limits

/-! ### The types on which the classes agree -/

/-- Every method gives the same answer, `min` and `max` where neither side rejects the type. -/
structure Agrees (sub : Double → ℤ → Double) (a : Args) : Prop where
  id : a.python.id = a.cpp.id.toInt
  fromId : Cpp.ScalarType.fromId a.cpp.id = a.cpp
  fromIdPython : ∀ created : List Args, a ∈ created → ScalarType.fromId
    ((created.map Args.python).foldl (fun idMap t => t.register idMap) ∅) a.python.id = .ok a.python
  idInjective : ∀ b : Args, a.python.id = b.python.id ∨ a.cpp.id = b.cpp.id → a = b
  hasNans : a.python.hasNans = a.cpp.hasNans
  hasInfs : a.python.hasInfs = a.cpp.hasInfs
  isIeee754 : a.python.isIeee754 = a.cpp.isIeee754
  sizeBits : a.python.sizeBits = a.cpp.sizeBits
  str : a.python.str = a.cpp.str
  min : ∀ x y, a.python.min sub = .ok x → a.cpp.min sub = .ok y → SameNumber x y
  max : ∀ x y, a.python.max sub = .ok x → a.cpp.max sub = .ok y → SameNumber x y

/-- The classes agree on the floating-point types that have NaNs and are not IEEE 754. -/
theorem agrees_iff (sub : Double → ℤ → Double) (a : Args) : Agrees sub a ↔
    0 < a.exponent.toNat ∧ a.nanRepr ≠ .none ∧
      (a.finiteValuesOnly = true ∨ a.nanRepr = .extdRangeMaxMin) := by
  constructor
  · intro h
    obtain ⟨hfp, hnan⟩ := (hasNans_agrees_iff a).1 h.hasNans
    refine ⟨of_decide_eq_true hfp, hnan, ?_⟩
    refine ((isIeee754_eq_false_iff a hfp).1 ((isIeee754_agrees_iff a).1 h.isIeee754)).imp_right ?_
    intro hieee
    cases hrepr : a.nanRepr with
    | none => exact absurd hrepr hnan
    | ieee754 => exact absurd hrepr hieee
    | extdRangeMaxMin => rfl
  · rintro ⟨hexponent, hnan, hflags⟩
    have hfp : a.cpp.isFloatingPoint = true := decide_eq_true hexponent
    have hieee : a.cpp.isIeee754 = false :=
      (isIeee754_eq_false_iff a hfp).2 (hflags.imp_right fun hextd => by rw [hextd]; decide)
    exact {
      id := python_id_eq a
      fromId := fromId_id a.cpp
      fromIdPython := fun created ha => python_fromId ha
      idInjective := fun b h => h.elim id_injective fun h => cpp_injective (by
        rw [← fromId_id a.cpp, h, fromId_id])
      hasNans := (hasNans_agrees_iff a).2 ⟨hfp, hnan⟩
      hasInfs := (hasInfs_agrees_iff a).2 (.inl hfp)
      isIeee754 := (isIeee754_agrees_iff a).2 hieee
      sizeBits := sizeBits_eq a
      str := (str_agrees_iff a).2 hieee
      min := fun x y => min_agrees hfp
      max := fun x y => max_agrees hfp }

/-- `float16_e5m10`, an IEEE 754 type. -/
def float16E5m10 : Args := ⟨5, 10, true, 0, false, .ieee754⟩

/-- `int8`. -/
def int8 : Args := ⟨0, 7, true, 0, false, .ieee754⟩

/-- Python does not see that `float16_e5m10` is IEEE 754 and writes the flag `n` in its name; and it
finds NaNs and infinities in `int8`. -/
theorem float16_int8_disagree :
    (float16E5m10.python.isIeee754, float16E5m10.cpp.isIeee754) = (false, true) ∧
    (float16E5m10.python.str, float16E5m10.cpp.str) = ("float16_e5m10n", "float16_e5m10") ∧
    (int8.python.hasNans, int8.cpp.hasNans) = (true, false) ∧
    (int8.python.hasInfs, int8.cpp.hasInfs) = (true, false) :=
  ⟨rfl, by decide, rfl, rfl⟩

end LoptVllm.ScalarTypes
