import Mathlib.Algebra.Group.Nat.Defs
import Mathlib.Algebra.Group.Int.Defs
import Mathlib.Data.Rat.Defs
import Mathlib.Algebra.Order.Ring.Unbundled.Rat

/-!
# Double precision numbers

The 64-bit patterns of the C type `double`, what they denote, and the
conversion from an integer.
-/

namespace LuaSandbox
namespace Foundation

/-- A 64-bit pattern read as a floating point number. -/
structure Double where
  bits : UInt64
  deriving DecidableEq

namespace Double

/-- What a pattern denotes; finite numbers are exact. -/
inductive Value where
  | nan
  | inf (negative : Bool)
  | fin (q : Rat)
  deriving DecidableEq

def negative (d : Double) : Bool := 2 ^ 63 <= d.bits.toNat

def exponent (d : Double) : Nat := d.bits.toNat / 2 ^ 52 % 2 ^ 11

def fraction (d : Double) : Nat := d.bits.toNat % 2 ^ 52

/-- The integer `m`, or its opposite, scaled by `2 ^ (e - 1075)`. -/
def scaled (negative : Bool) (m e : Nat) : Rat :=
  if 1075 <= e then
    ((if negative then -(m : Int) else m) * 2 ^ (e - 1075) : Int)
  else
    mkRat (if negative then -(m : Int) else m) (2 ^ (1075 - e))

def value (d : Double) : Value :=
  if d.exponent = 2047 then
    if d.fraction = 0 then Value.inf d.negative else Value.nan
  else if d.exponent = 0 then
    Value.fin (scaled d.negative d.fraction 1)
  else
    Value.fin (scaled d.negative (2 ^ 52 + d.fraction) d.exponent)

/-- The significand of a positive integer, rounded to nearest, ties to even. -/
def roundedSignificand (m e : Nat) : Nat :=
  if e <= 52 then
    m * 2 ^ (52 - e)
  else
    let half := 2 ^ (e - 53)
    let q := m / 2 ^ (e - 52)
    let rest := m % 2 ^ (e - 52)
    if half < rest ∨ rest = half ∧ q % 2 = 1 then q + 1 else q

/-- The conversion of an integer, `(double)i`. -/
def ofInt (i : Int) : Double :=
  if i = 0 then
    ⟨0⟩
  else
    let e := i.natAbs.log2
    -- a significand rounded up to `2 ^ 53` carries into the exponent
    ⟨UInt64.ofNat ((if i < 0 then 2 ^ 63 else 0) +
      ((e + 1022) * 2 ^ 52 + roundedSignificand i.natAbs e))⟩

/-- A finite number without its fraction. -/
def truncate (d : Double) : Option Int :=
  match d.value with
  | Value.fin q => some (q.num.tdiv q.den)
  | _ => none

/-- The conversion `(long long)d`; numbers out of range give the smallest. -/
def toLongLong (d : Double) : Int :=
  match d.truncate with
  | some i => if -2 ^ 63 <= i ∧ i < 2 ^ 63 then i else -2 ^ 63
  | none => -2 ^ 63

/-- The conversion `(unsigned long long)d`; negative numbers wrap around. -/
def toUnsigned (d : Double) : Nat :=
  match d.truncate with
  | some i =>
      if -2 ^ 63 <= i ∧ i < 2 ^ 64 then (i % 2 ^ 64).toNat else 2 ^ 63
  | none => 2 ^ 63

theorem toUnsigned_lt (d : Double) : d.toUnsigned < 2 ^ 64 := by
  unfold toUnsigned
  split
  · split <;> omega
  · decide

/-- The pattern of eight bytes, lowest first. -/
def ofBytes (xs : List UInt8) : Double :=
  ⟨UInt64.ofNat (xs.foldr (fun b n => b.toNat + 256 * n) 0)⟩

/-- The eight bytes of a pattern, lowest first. -/
def toBytes (d : Double) : List UInt8 :=
  (List.range 8).map (fun i => UInt8.ofNat (d.bits.toNat / 256 ^ i))

/-!
## Comparison

Every comparison with a pattern that is not a number fails.
-/

namespace Value

def eq : Value -> Value -> Bool
  | fin p, fin q => p == q
  | inf a, inf b => a == b
  | _, _ => false

def lt : Value -> Value -> Bool
  | fin p, fin q => p < q
  | fin _, inf b => !b
  | inf a, fin _ => a
  | inf a, inf b => a && !b
  | _, _ => false

def le (x y : Value) : Bool := lt x y || eq x y

end Value

end Double

end Foundation
end LuaSandbox
