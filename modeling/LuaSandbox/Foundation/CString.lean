import Mathlib.Algebra.Group.Nat.Defs
import Mathlib.Algebra.Group.Int.Defs
import Mathlib.Data.Rat.Defs
import Mathlib.Data.List.Basic

/-!
# C strings

The functions of the C library that the utilities call on byte strings.
-/

namespace LuaSandbox
namespace Foundation

/-- The bytes of a literal. -/
def ascii (s : String) : List UInt8 :=
  s.toList.map (fun c => c.toNat.toUInt8)

/-- The difference at the first of `n` bytes that differs, up to a NUL. -/
def strncmp : List UInt8 -> List UInt8 -> Nat -> Int
  | _, _, 0 => 0
  | [], [], _ + 1 => 0
  | [], b :: _, _ + 1 => -b.toNat
  | a :: _, [], _ + 1 => a.toNat
  | a :: as, b :: bs, n + 1 =>
      if a ≠ b then
        (a.toNat : Int) - b.toNat
      else if a = 0 then
        0
      else
        strncmp as bs n

def isDigit (b : UInt8) : Bool := 0x30 <= b && b <= 0x39

/-- The leading decimal digits, accumulated onto `acc`. -/
def digits : Nat -> List UInt8 -> Nat × List UInt8
  | acc, [] => (acc, [])
  | acc, b :: rest =>
      if isDigit b then digits (10 * acc + (b.toNat - 0x30)) rest
      else (acc, b :: rest)

/-- An optional sign. -/
def sign : List UInt8 -> Int × List UInt8
  | 0x2d :: rest => (-1, rest)
  | 0x2b :: rest => (1, rest)
  | rest => (1, rest)

def atoi (s : List UInt8) : Int :=
  (sign s).1 * (digits 0 (sign s).2).1

/-- The fraction behind a decimal point. -/
def fractionPart : List UInt8 -> Rat × List UInt8
  | 0x2e :: rest =>
      (mkRat (digits 0 rest).1 (10 ^ (rest.length - (digits 0 rest).2.length)),
        (digits 0 rest).2)
  | rest => (0, rest)

/-- The power of ten of an exponent. -/
def exponentPart : List UInt8 -> Int
  | 0x65 :: rest => (sign rest).1 * (digits 0 (sign rest).2).1
  | 0x45 :: rest => (sign rest).1 * (digits 0 (sign rest).2).1
  | _ => 0

def powerOfTen (e : Int) : Rat :=
  if 0 <= e then (10 ^ e.toNat : Int) else mkRat 1 (10 ^ (-e).toNat)

/-- The decimal number at the front of a text, without rounding. -/
def strtod (s : List UInt8) : Rat :=
  let whole := digits 0 (sign s).2
  let fraction := fractionPart whole.2
  (sign s).1 * ((whole.1 : Rat) + fraction.1) *
    powerOfTen (exponentPart fraction.2)

end Foundation
end LuaSandbox
