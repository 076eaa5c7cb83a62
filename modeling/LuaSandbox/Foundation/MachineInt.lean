import Mathlib.Data.Nat.Bitwise

/-!
# Machine integers

Unsigned machine words are natural numbers below a power of two; the signed
types of C are integers, reached from a word by two's complement.
-/

namespace LuaSandbox
namespace Foundation

/-- The largest value of the C type `int`. -/
def intMax : Int := 2147483647

/-- The smallest value of the C type `int`. -/
def intMin : Int := -2147483648

/-- A 64-bit word read as a signed number. -/
def toLongLong (word : Nat) : Int :=
  if word % 2 ^ 64 < 2 ^ 63 then (word % 2 ^ 64 : Nat)
  else (word % 2 ^ 64 : Nat) - 2 ^ 64

/-- A number stored in a 64-bit word. -/
def ofLongLong (i : Int) : Nat :=
  (i % 2 ^ 64).toNat

/-- A number cut down to the C type `int`. -/
def toInt (i : Int) : Int :=
  if i % 2 ^ 32 < 2 ^ 31 then i % 2 ^ 32 else i % 2 ^ 32 - 2 ^ 32

/-- A `char`, which is signed, converted to a 64-bit size. -/
def charToSize (c : UInt8) : Nat :=
  if c.toNat < 128 then c.toNat else 2 ^ 64 - 256 + c.toNat

theorem ofLongLong_lt (i : Int) : ofLongLong i < 2 ^ 64 := by
  unfold ofLongLong
  omega

theorem toLongLong_of_lt {word : Nat} (h : word < 2 ^ 63) :
    toLongLong word = word := by
  unfold toLongLong
  rw [Nat.mod_eq_of_lt (by omega), if_pos h]

theorem toLongLong_ofLongLong {i : Int} (hlow : -2 ^ 63 <= i)
    (hhigh : i < 2 ^ 63) : toLongLong (ofLongLong i) = i := by
  unfold toLongLong ofLongLong
  split <;> omega

theorem toLongLong_range (word : Nat) :
    -2 ^ 63 <= toLongLong word ∧ toLongLong word < 2 ^ 63 := by
  unfold toLongLong
  split <;> omega

theorem toLongLong_natAbs (w : Nat) : (toLongLong w).natAbs < 2 ^ 64 := by
  have hrange := toLongLong_range w
  omega

theorem toLongLong_eq_iff {w : Nat} (hw : w < 2 ^ 64) {j : Nat}
    (hj : j < 2 ^ 63) : toLongLong w = j <-> w = j := by
  unfold toLongLong
  rw [Nat.mod_eq_of_lt hw]
  split <;> omega

theorem toInt_of_range {i : Int} (hlow : intMin <= i) (hhigh : i <= intMax) :
    toInt i = i := by
  unfold toInt intMin intMax at *
  split <;> omega

theorem intMin_le_toInt (i : Int) : intMin <= toInt i := by
  unfold toInt intMin
  split <;> omega

theorem toInt_le_intMax (i : Int) : toInt i <= intMax := by
  unfold toInt intMax
  split <;> omega

end Foundation
end LuaSandbox
