import LoptVllm.ScalarType.Python

/-!
# `ScalarType` in C++

The class of `csrc/core/scalar_type.hpp`. Its integers are words: `uint8_t`, `int32_t`, and 64 bits
for the id and the limits, where arithmetic wraps around.

The enumeration `NanRepr` has the underlying type `uint8_t`, and `from_id` may give any value of it.
-/

namespace LoptVllm.ScalarTypes

namespace Cpp

structure ScalarType where
  exponent : BitVec 8
  mantissa : BitVec 8
  signed : Bool
  bias : BitVec 32
  finiteValuesOnly : Bool
  nanRepr : BitVec 8
  deriving DecidableEq

/-- The enumerators of `NanRepr`. -/
def nanNone : BitVec 8 := 0

def nanIeee754 : BitVec 8 := 1

def nanExtdRangeMaxMin : BitVec 8 := 2

/-- `std::variant<int64_t, double>`. -/
inductive Variant
  | int64 (x : BitVec 64)
  | double (d : Double)
  deriving DecidableEq

/-- `or_and_advance`: a member is converted to `int64_t`. -/
def orAndAdvance (result : BitVec 64 × ℕ) (member : BitVec 64 × ℕ) : BitVec 64 × ℕ :=
  (result.1 ||| (member.1 &&& ((1#64 <<< member.2) - 1#64)) <<< result.2, result.2 + member.2)

/-- The value of a member before the conversion to its type, in `extract_and_advance`. -/
def extracted (id : BitVec 64) (bits bitOffset : ℕ) : BitVec 64 :=
  id.sshiftRight bitOffset &&& ((1#64 <<< bits) - 1#64)

namespace ScalarType

variable (t : ScalarType)

/-- The members in constructor order, with their field widths. -/
def members : List (BitVec 64 × ℕ) :=
  [(t.exponent.setWidth 64, 8), (t.mantissa.setWidth 64, 8), (BitVec.ofNat 64 t.signed.toNat, 1),
    (t.bias.signExtend 64, 32), (BitVec.ofNat 64 t.finiteValuesOnly.toNat, 1),
    (t.nanRepr.setWidth 64, 8)]

def id : BitVec 64 := (t.members.foldl orAndAdvance (0, 0)).1

def fromId (id : BitVec 64) : ScalarType where
  exponent := (extracted id 8 0).setWidth 8
  mantissa := (extracted id 8 8).setWidth 8
  signed := extracted id 1 16 ≠ 0
  bias := (extracted id 32 17).setWidth 32
  finiteValuesOnly := extracted id 1 49 ≠ 0
  nanRepr := (extracted id 8 50).setWidth 8

def sizeBits : ℕ := t.mantissa.toNat + t.exponent.toNat + t.signed.toNat

def isFloatingPoint : Bool := 0 < t.exponent.toNat

def isIeee754 : Bool :=
  t.isFloatingPoint && (t.finiteValuesOnly == false && t.nanRepr == nanIeee754)

def hasNans : Bool := t.isFloatingPoint && t.nanRepr != nanNone

def hasInfs : Bool := t.isFloatingPoint && t.finiteValuesOnly == false

def hasBias : Bool := t.bias != 0

def str : String := if t.isFloatingPoint then
    "float" ++ toString t.sizeBits ++ "_e" ++ toString t.exponent.toNat ++ "m" ++
      toString t.mantissa.toNat ++
      if !t.isIeee754 then
        (if t.finiteValuesOnly then "f" else "") ++ if t.nanRepr ≠ nanNone then "n" else ""
      else ""
  else
    (if t.signed then "int" else "uint") ++ toString t.sizeBits ++
      if t.hasBias then "b" ++ toString t.bias.toInt else ""

/-- `_floating_point_max`. -/
def floatingPointMax : Except String Double :=
  let error := .error ("Cannot represent max/min as a double for type " ++ t.str)
  if ¬(t.mantissa.toNat ≤ 52 ∧ t.exponent.toNat ≤ 11) then error
  else
    let maxMantissa := (1#64 <<< t.mantissa.toNat) - 1#64
    let maxMantissa := if t.nanRepr = nanExtdRangeMaxMin then maxMantissa - 1#64 else maxMantissa
    let maxExponent := (1#64 <<< t.exponent.toNat) - 2#64
    let extended := t.nanRepr = nanExtdRangeMaxMin ∨ t.nanRepr = nanNone
    if extended ∧ ¬t.exponent.toNat < 11 then error
    else
      let maxExponent := if extended then maxExponent + 1#64 else maxExponent
      let exponentBias := (1#64 <<< (t.exponent.toNat - 1)) - 1#64
      let exponentBiasDouble := (1#64 <<< 10) - 1#64
      let maxExponentDouble := maxExponent - exponentBias + exponentBiasDouble
      .ok (maxMantissa <<< (52 - t.mantissa.toNat) ||| maxExponentDouble <<< 52)

/-- `_raw_max`. -/
def rawMax : Except String Variant := if t.isFloatingPoint then t.floatingPointMax.map .double
  else if t.sizeBits < 64 ∨ t.sizeBits = 64 ∧ t.signed then
    .ok (.int64 ((1#64 <<< t.mantissa.toNat) - 1#64))
  else .error "Cannot represent max as a int64_t"

/-- `_raw_min`. -/
def rawMin : Except String Variant := if t.isFloatingPoint then
    if t.signed then do
      let max ← t.floatingPointMax
      .ok (.double (max ||| 1#64 <<< 63))
    else .error "We currently assume all floating point types are signed"
  else if !t.signed ∨ t.sizeBits ≤ 64 then
    -- `INT64_MIN`, shifted arithmetically
    .ok (.int64 (if t.signed then (BitVec.intMin 64).sshiftRight (64 - t.sizeBits) else 0))
  else .error "Cannot represent min as a int64_t"

variable (sub : Double → ℤ → Double)

/-- `x - bias`. -/
def unbias : Variant → Variant
  | .int64 x => .int64 (x - t.bias.signExtend 64)
  | .double d => .double (sub d t.bias.toInt)

def min : Except String Variant := t.rawMin.map (t.unbias sub)

def max : Except String Variant := t.rawMax.map (t.unbias sub)

end ScalarType

end Cpp

end LoptVllm.ScalarTypes
