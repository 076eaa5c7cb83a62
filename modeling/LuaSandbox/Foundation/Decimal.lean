import LuaSandbox.Foundation.CString
import Mathlib.Data.Rat.Lemmas
import Mathlib.Tactic.Ring
import Mathlib.Tactic.NormNum
import Mathlib.Tactic.FieldSimp

/-!
# Decimal numbers

The number that a text denotes, and the digits of a text from its end.
-/

namespace LuaSandbox
namespace Foundation

/-- The number without a sign that a text denotes, if it is nothing more. -/
def unsignedValue (s : List UInt8) : Option Rat :=
  let whole := digits 0 s
  let fraction := fractionPart whole.2
  if whole.2.length < s.length ∧ fraction.2 = [] then
    some (whole.1 + fraction.1)
  else
    none

/-- The number that a text denotes, if it is nothing more. -/
def decimalValue (s : List UInt8) : Option Rat :=
  (unsignedValue (sign s).2).map (fun q => (sign s).1 * q)

def AllDigits (ds : List UInt8) : Prop :=
  forall b, b ∈ ds -> isDigit b = true

theorem AllDigits.tail {b : UInt8} {ds : List UInt8}
    (h : AllDigits (b :: ds)) : AllDigits ds :=
  fun c hc => h c (List.mem_cons_of_mem b hc)

theorem AllDigits.append {ds es : List UInt8} (h : AllDigits ds)
    (h' : AllDigits es) : AllDigits (ds ++ es) := by
  intro b hb
  rcases List.mem_append.mp hb with hb | hb
  · exact h b hb
  · exact h' b hb

theorem AllDigits.reverse {ds : List UInt8} (h : AllDigits ds) :
    AllDigits ds.reverse :=
  fun b hb => h b (List.mem_reverse.mp hb)

theorem digits_append {ds rest : List UInt8} (h : AllDigits ds)
    (hrest : forall b, rest.head? = some b -> isDigit b = false) :
    forall acc, digits acc (ds ++ rest) = ((digits acc ds).1, rest) := by
  induction ds with
  | nil =>
      intro acc
      cases rest with
      | nil => rfl
      | cons b rest =>
          change digits acc (b :: rest) = (acc, b :: rest)
          rw [digits, hrest b rfl, if_neg Bool.false_ne_true]
  | cons d ds ih =>
      intro acc
      rw [List.cons_append, digits, digits, if_pos (h d List.mem_cons_self),
        if_pos (h d List.mem_cons_self), ih h.tail]

theorem digits_eq {ds : List UInt8} (h : AllDigits ds) (acc : Nat) :
    digits acc ds = ((digits acc ds).1, []) := by
  have hempty : forall b, List.head? [] = some b -> isDigit b = false := by
    intro b hb
    cases hb
  have happend := digits_append h hempty acc
  rwa [List.append_nil] at happend

/-- One more digit. -/
theorem digits_concat {ds : List UInt8} {b : UInt8} (h : AllDigits ds)
    (hb : isDigit b = true) : forall acc,
    (digits acc (ds ++ [b])).1 =
      10 * (digits acc ds).1 + (b.toNat - 0x30) := by
  induction ds with
  | nil =>
      intro acc
      change (digits acc [b]).1 = 10 * acc + (b.toNat - 0x30)
      rw [digits, if_pos hb, digits]
  | cons d ds ih =>
      intro acc
      rw [List.cons_append, digits, digits, if_pos (h d List.mem_cons_self),
        if_pos (h d List.mem_cons_self), ih h.tail]

theorem unsignedValue_whole {ds : List UInt8} (h : AllDigits ds)
    (hne : ds ≠ []) : unsignedValue ds = some ((digits 0 ds).1 : Rat) := by
  have hzero : fractionPart [] = (0, []) := rfl
  unfold unsignedValue
  rw [digits_eq h]
  dsimp only
  rw [hzero, if_pos ⟨List.length_pos_iff.mpr hne, rfl⟩, add_zero]

theorem unsignedValue_fraction {ds fs : List UInt8} (h : AllDigits ds)
    (hne : ds ≠ []) (hfs : AllDigits fs) :
    unsignedValue (ds ++ 0x2e :: fs) =
      some (((digits 0 ds).1 : Rat) + (digits 0 fs).1 / 10 ^ fs.length) := by
  have hpoint : forall b, (0x2e :: fs).head? = some b -> isDigit b = false := by
    intro b hb
    cases hb
    decide
  have hpart : fractionPart (0x2e :: fs) =
      (((digits 0 fs).1 : Rat) / 10 ^ fs.length, []) := by
    change (mkRat (digits 0 fs).1
      (10 ^ (fs.length - (digits 0 fs).2.length)), (digits 0 fs).2) = _
    rw [digits_eq hfs, Rat.mkRat_eq_div]
    norm_num
  have hlength : (0x2e :: fs).length < (ds ++ 0x2e :: fs).length := by
    rw [List.length_append]
    exact Nat.lt_add_of_pos_left (List.length_pos_iff.mpr hne)
  unfold unsignedValue
  rw [digits_append h hpoint]
  dsimp only
  rw [hpart, if_pos ⟨hlength, rfl⟩]

/-- A digit is no sign. -/
theorem sign_digit {d : UInt8} {s : List UInt8} (h : isDigit d = true) :
    sign (d :: s) = (1, d :: s) := by
  unfold sign
  split
  · rename_i heq
    rw [(List.cons_eq_cons.mp heq).1] at h
    exact absurd h (by decide)
  · rename_i heq
    rw [(List.cons_eq_cons.mp heq).1] at h
    exact absurd h (by decide)
  · rfl

theorem decimalValue_positive {d : UInt8} {s : List UInt8}
    (h : isDigit d = true) :
    decimalValue (d :: s) = unsignedValue (d :: s) := by
  unfold decimalValue
  rw [sign_digit h]
  simp

theorem decimalValue_negative (s : List UInt8) :
    decimalValue (0x2d :: s) = (unsignedValue s).map (fun q => -q) := by
  have hsign : sign (0x2d :: s) = (-1, s) := rfl
  unfold decimalValue
  rw [hsign]
  simp

end Foundation
end LuaSandbox
