import Mathlib.Data.Int.Bitwise
import LoptVllm.Lib.OrderedDict
import LoptVllm.Python

/-!
# `ScalarType` in Python

The class of `vllm/scalar_type.py`. Its integers are unbounded.

A double is its bits. The difference of a double and an integer is a parameter.
-/

namespace LoptVllm.ScalarTypes

/-- The bits of a double. -/
abbrev Double := BitVec 64

/-- `NanRepr`. -/
inductive NanRepr
  | none
  | ieee754
  | extdRangeMaxMin
  deriving DecidableEq, Repr

/-- `NanRepr.value`. -/
def NanRepr.value : NanRepr → ℕ
  | .none => 0
  | .ieee754 => 1
  | .extdRangeMaxMin => 2

/-- `member == n`: a member of an `Enum` is no integer and equals none. -/
def NanRepr.eqInt (_member : NanRepr) (_n : ℕ) : Bool := false

namespace Python

structure ScalarType where
  exponent : ℕ
  mantissa : ℕ
  signed : Bool
  bias : ℤ
  finiteValuesOnly : Bool
  nanRepr : NanRepr
  deriving DecidableEq, Repr

/-- What `min` and `max` raise. -/
inductive LimitError
  | assertionError (msg : String)
  | structError

/-- `int | float`. -/
inductive Number
  | int (n : ℤ)
  | float (d : Double)
  deriving DecidableEq

/-- `struct.unpack("!d", struct.pack("!Q", raw))[0]`. -/
def packDouble (raw : ℤ) : Except LimitError Double :=
  if 0 ≤ raw ∧ raw < 2 ^ 64 then .ok (BitVec.ofInt 64 raw) else .error .structError

/-- `or_and_advance`, on `val` and `offset`. -/
def orAndAdvance (st : ℤ × ℕ) (member : ℤ × ℕ) : ℤ × ℕ :=
  (st.1.lor (member.1.land (2 ^ member.2 - 1) * 2 ^ st.2), st.2 + member.2)

namespace ScalarType

variable (t : ScalarType)

/-- The members of the id, with their widths: 58 bits in all. -/
def members : List (ℤ × ℕ) := [(t.exponent, 8), (t.mantissa, 8), (t.signed.toNat, 1), (t.bias, 32),
    (t.finiteValuesOnly.toNat, 1), (t.nanRepr.value, 8)]

def id : ℤ := (t.members.foldl orAndAdvance (0, 0)).1

variable (idMap : OrderedDict ℤ ScalarType)

/-- `_SCALAR_TYPES_ID_MAP[val] = self`, when the id is computed. -/
def register : OrderedDict ℤ ScalarType := idMap.setItem t.id t

def fromId (scalarTypeId : ℤ) : Except PyErr ScalarType :=
  match idMap.lookup scalarTypeId with
  | none =>
    .error (.valueError ("scalar_type_id " ++ toString scalarTypeId ++ " doesn't exists."))
  | some t => .ok t

def sizeBits : ℕ := t.exponent + t.mantissa + t.signed.toNat

def isFloatingPoint : Bool := t.exponent ≠ 0

def hasBias : Bool := t.bias ≠ 0

def hasInfs : Bool := !t.finiteValuesOnly

/-- `self.nan_repr != NanRepr.NONE.value`. -/
def hasNans : Bool := !t.nanRepr.eqInt NanRepr.none.value

/-- `self.nan_repr == NanRepr.IEEE_754.value and not self._finite_values_only`. -/
def isIeee754 : Bool := t.nanRepr.eqInt NanRepr.ieee754.value && !t.finiteValuesOnly

/-- `__str__`. -/
def str : String := if t.isFloatingPoint then
    "float" ++ toString t.sizeBits ++ "_e" ++ toString t.exponent ++ "m" ++ toString t.mantissa ++
      if !t.isIeee754 then
        (if t.finiteValuesOnly then "f" else "") ++ if t.nanRepr ≠ .none then "n" else ""
      else ""
  else
    (if t.signed then "int" else "uint") ++ toString t.sizeBits ++
      if t.hasBias then "b" ++ toString t.bias else ""

/-- `_floating_point_max_int`. -/
def floatingPointMaxInt : Except LimitError ℤ :=
  let error := .error (.assertionError ("Cannot represent max/min as a double for type " ++ t.str))
  if ¬(t.mantissa ≤ 52 ∧ t.exponent ≤ 11) then error
  else
    let maxMantissa : ℤ := 2 ^ t.mantissa - 1
    let maxMantissa := if t.nanRepr = .extdRangeMaxMin then maxMantissa - 1 else maxMantissa
    let maxExponent : ℤ := 2 ^ t.exponent - 2
    let extended := t.nanRepr = .extdRangeMaxMin ∨ t.nanRepr = .none
    if extended ∧ ¬t.exponent < 11 then error
    else
      let maxExponent := if extended then maxExponent + 1 else maxExponent
      let exponentBias : ℤ := 2 ^ (t.exponent - 1) - 1
      let exponentBiasDouble : ℤ := 2 ^ 10 - 1
      let maxExponentDouble := maxExponent - exponentBias + exponentBiasDouble
      .ok ((maxMantissa * 2 ^ (52 - t.mantissa)).lor (maxExponentDouble * 2 ^ 52))

/-- `_raw_max`. -/
def rawMax : Except LimitError Number := if t.isFloatingPoint then do
    let raw ← t.floatingPointMaxInt
    let max ← packDouble raw
    .ok (.float max)
  else if t.sizeBits < 64 ∨ t.sizeBits = 64 ∧ t.signed then .ok (.int (2 ^ t.mantissa - 1))
  else .error (.assertionError "Cannot represent max as an int")

/-- `_raw_min`. -/
def rawMin : Except LimitError Number := if t.isFloatingPoint then
    if t.signed then do
      let maxRaw ← t.floatingPointMaxInt
      let min ← packDouble (maxRaw.lor (2 ^ 63))
      .ok (.float min)
    else .error (.assertionError "We currently assume all floating point types are signed")
  else if !t.signed ∨ t.sizeBits ≤ 64 then
    .ok (.int (if t.signed then -2 ^ (t.sizeBits - 1) else 0))
  else .error (.assertionError "Cannot represent min as a int64_t")

variable (sub : Double → ℤ → Double)

/-- `x - self.bias`. -/
def unbias : Number → Number
  | .int n => .int (n - t.bias)
  | .float d => .float (sub d t.bias)

def min : Except LimitError Number := t.rawMin.map (t.unbias sub)

def max : Except LimitError Number := t.rawMax.map (t.unbias sub)

end ScalarType

end Python

end LoptVllm.ScalarTypes
