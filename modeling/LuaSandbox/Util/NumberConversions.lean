import LuaSandbox.Util.NumberText

/-!
# Conversions of a number

The numbers that `lsb_outputfd` writes digit by digit are converted to `int`
and to `unsigned`.  All of them are in range but the smallest `int`, which has
no opposite, and a pattern that is not a number.
-/

namespace LuaSandbox
namespace Util

open Foundation
open Foundation.Double (Value)

/-- The conversions `(int)d` and `(unsigned)tmp` and the increment of the whole
number stay in the range of their type. -/
structure ConversionsInRange (r : Rounding) (d : Value) : Prop where
  whole : exists i, (absolute d).truncate = some i ∧ intMin <= i ∧ i <= intMax
  fraction : exists i, (scaledFraction r d).truncate = some i ∧ 0 <= i ∧
    i < 2 ^ 32
  number : intMin <= (numberParts r d).number ∧
    (numberParts r d).number <= intMax

/-- The texts of an integer denote it. -/
def ParsesBack (format : Value -> List UInt8) (r : Rounding) (d : Value) :
    Prop :=
  forall n : Int, d = Value.fin n ->
    decimalValue (outputfdText format r d) = some n ∧
      decimalValue (serializeDoubleText format r d) = some n

theorem scaledRat_intCast (r : Rounding) (n : Int) : scaledRat r n = 0 := by
  unfold scaledRat
  rw [Int.floor_intCast, sub_self, r.round_zero, zero_mul, r.round_zero]

/-- The text of an integer has no fraction. -/
theorem numberParts_intCast (r : Rounding) {n : Int} (h : |n| <= intMax) :
    numberParts r (Value.fin n) = ⟨decide ((n : Rat) < 0), |n|, 0⟩ := by
  have hfloor : ⌊|(n : Rat)|⌋ = |n| := by
    rw [← Int.cast_abs, Int.floor_intCast]
  have hscaled : scaledRat r |(n : Rat)| = 0 := by
    rw [← Int.cast_abs, scaledRat_intCast]
  have hparts := numberParts_rounded r (d := n) (f := 0) (hfloor ▸ h) hscaled
    (by rw [Int.floor_zero]; rfl)
  have hzero : r.round ((0 : Rat) - (0 : Nat)) = 0 := by
    rw [Nat.cast_zero, sub_zero, r.round_zero]
  generalize numberParts r (Value.fin n) = p at hparts
  cases hparts with
  | carried hup hcarry =>
      rw [hzero] at hup
      norm_num at hup
  | up hup hcarry =>
      rw [hzero] at hup
      norm_num at hup
  | tie htie hodd =>
      rw [hzero] at htie
      norm_num at htie
  | down hdown heven => rw [hfloor]

theorem outputfdText_intCast (format : Value -> List UInt8) (r : Rounding)
    {n : Int} (h : |n| <= intMax) :
    decimalValue (outputfdText format r (Value.fin n)) = some (n : Rat) := by
  have hbounds := abs_le.mp h
  have hmin : intMin <= n := by
    unfold intMin intMax at *
    omega
  rw [outputfdText_parts (Int.cast_le.mpr hmin) (Int.cast_le.mpr hbounds.2),
    numberParts_intCast r h, decimalValue_parts (abs_nonneg n) (by
      unfold intMax at h
      omega), Nat.zero_mod, Nat.cast_zero, zero_div, add_zero, Int.cast_abs,
    sign_mul_abs]

theorem parsesBack_of_ne {format : Value -> List UInt8} {r : Rounding}
    {d : Value} (h : outOfRange d = false) (hne : d ≠ Value.fin intMin) :
    ParsesBack format r d := by
  rintro n rfl
  have hrange : intMin <= n ∧ n <= intMax := by
    unfold outOfRange at h
    change (decide ((n : Rat) < (intMin : Int)) ||
      decide (((intMax : Int) : Rat) < n)) = false at h
    rw [Bool.or_eq_false_iff, decide_eq_false_iff_not,
      decide_eq_false_iff_not, not_lt, not_lt, Int.cast_le, Int.cast_le] at h
    exact h
  have hmin : n ≠ intMin := fun heq => hne (heq ▸ rfl)
  have habs : |n| <= intMax := by
    unfold intMin intMax at *
    rw [abs_le]
    omega
  exact ⟨outputfdText_intCast format r habs, outputfdText_intCast format r habs⟩

/-!
## Doubles
-/

/-- A finite number in range is no larger than the largest `int`, up to its
fraction. -/
theorem floor_abs_le {q : Rat} (h : outOfRange (Value.fin q) = false)
    (hne : Value.fin q ≠ Value.fin intMin) : ⌊|q|⌋ <= intMax := by
  unfold outOfRange at h
  change (decide (q < (intMin : Int)) ||
    decide (((intMax : Int) : Rat) < q)) = false at h
  rw [Bool.or_eq_false_iff, decide_eq_false_iff_not,
    decide_eq_false_iff_not, not_lt, not_lt] at h
  have hlt : |q| < ((intMax + 1 : Int) : Rat) := by
    have hmin : ((intMin : Int) : Rat) < q :=
      lt_of_le_of_ne h.1 (fun heq => hne (congrArg Value.fin heq.symm))
    have hopposite : (((intMax + 1 : Int) : Rat)) = -((intMin : Int) : Rat) := by
      unfold intMax intMin
      norm_num
    rw [abs_lt, hopposite, neg_neg]
    refine ⟨hmin, lt_of_le_of_lt h.2 ?_⟩
    unfold intMax intMin
    norm_num
  have hfloor := Int.floor_lt.mpr hlt
  omega

/-- The largest whole number has a fraction of few bits, which is not rounded
up to one. -/
theorem scaledRat_largest {d : Double} {q : Rat}
    (h : d.value = Value.fin q) (hlarge : ⌊|q|⌋ = intMax) :
    scaledRat Rounding.nearest |q| <= ((99999977 : Int) : Rat) := by
  have hfloor := Int.floor_le |q|
  have hlt := Int.fract_lt_one |q|
  have hfract := Int.fract_nonneg |q|
  have hq : (2 : Rat) ^ 30 <= |q| := by
    rw [hlarge] at hfloor
    refine le_trans ?_ hfloor
    unfold intMax
    norm_num
  rcases Double.value_multiple h hq with ⟨n, hn⟩
  have hbits : exists m : Int, Int.fract |q| = m * 2 ^ (-22 : Int) := by
    refine ⟨|n| - intMax * 2 ^ 22, ?_⟩
    have habs : |q| = (|n| : Int) * 2 ^ (-22 : Int) := by
      have hpow : (0 : Rat) < 2 ^ (-22 : Int) := zpow_pos (by norm_num) _
      rw [hn, abs_mul, abs_of_pos hpow, Int.cast_abs]
    unfold Int.fract
    rw [hlarge, habs]
    push_cast
    rw [sub_mul, mul_assoc]
    norm_num
  rcases hbits with ⟨m, hm⟩
  have hm' : 0 <= m ∧ m <= 2 ^ 22 - 1 := by
    rw [hm] at hlt hfract
    have hpow : (2 : Rat) ^ (-22 : Int) = 1 / 4194304 := by norm_num
    rw [hpow] at hlt hfract
    have hlow : (0 : Rat) <= m := by linarith
    have hhigh : (m : Rat) < ((4194304 : Int) : Rat) := by
      push_cast
      linarith
    have hlow' := Int.cast_nonneg_iff.mp hlow
    have hhigh' := Int.cast_lt.mp hhigh
    omega
  have hkept : Rounding.nearest.round (Int.fract |q|) = Int.fract |q| := by
    rw [hm]
    exact Rounding.nearest.keeps (by omega) (by decide)
  have hscaled : Int.fract |q| * magnitude <= ((99999977 : Int) : Rat) := by
    have hm'' : (m : Rat) <= 4194303 := by exact_mod_cast hm'.2
    rw [hm]
    unfold magnitude
    norm_num
    linarith
  unfold scaledRat
  change Rounding.nearest.round
    (Rounding.nearest.round (Int.fract |q|) * magnitude) <= _
  rw [hkept]
  exact Rounding.nearest.round_le_intCast (by decide) hscaled

/-- The whole number is not counted beyond the largest `int`. -/
theorem number_le_intMax {d : Double} {q : Rat} (h : d.value = Value.fin q)
    (hfloor : ⌊|q|⌋ <= intMax) :
    (numberParts Rounding.nearest (Value.fin q)).number <= intMax := by
  have hrange := scaledRat_range Rounding.nearest |q|
  rcases Int.eq_ofNat_of_zero_le (Int.floor_nonneg.mpr hrange.1) with ⟨f, hf⟩
  have hparts := numberParts_rounded Rounding.nearest hfloor rfl hf.symm
  generalize numberParts Rounding.nearest (Value.fin q) = p at hparts
  cases hparts with
  | carried hup hcarry =>
      change ⌊|q|⌋ + 1 <= intMax
      rcases lt_or_eq_of_le hfloor with hlt | heq
      · omega
      · exfalso
        have hscaled := scaledRat_largest h heq
        have hle : (f : Int) <= 99999977 := by
          rw [← hf, ← Int.floor_intCast (R := Rat) 99999977]
          exact Int.floor_le_floor hscaled
        unfold magnitude at hcarry
        omega
  | up hup hcarry => exact hfloor
  | tie htie hodd => exact hfloor
  | down hdown heven => exact hfloor

theorem number_nonneg {r : Rounding} {q : Rat} (hfloor : ⌊|q|⌋ <= intMax) :
    0 <= (numberParts r (Value.fin q)).number := by
  have hrange := scaledRat_range r |q|
  have hnonneg : 0 <= ⌊|q|⌋ := Int.floor_nonneg.mpr (abs_nonneg q)
  rcases Int.eq_ofNat_of_zero_le (Int.floor_nonneg.mpr hrange.1) with ⟨f, hf⟩
  have hparts := numberParts_rounded r hfloor rfl hf.symm
  generalize numberParts r (Value.fin q) = p at hparts
  cases hparts with
  | carried hup hcarry =>
      change 0 <= ⌊|q|⌋ + 1
      omega
  | up hup hcarry => exact hnonneg
  | tie htie hodd => exact hnonneg
  | down hdown heven => exact hnonneg

theorem conversionsInRange {d : Double} {q : Rat} (h : d.value = Value.fin q)
    (hfloor : ⌊|q|⌋ <= intMax) :
    ConversionsInRange Rounding.nearest (Value.fin q) := by
  have hnonneg : 0 <= ⌊|q|⌋ := Int.floor_nonneg.mpr (abs_nonneg q)
  have hrange := scaledRat_range Rounding.nearest |q|
  have hnumber := number_nonneg (r := Rounding.nearest) hfloor
  refine ⟨⟨⌊|q|⌋, ?_, ?_, hfloor⟩, ⟨⌊scaledRat Rounding.nearest |q|⌋, ?_,
    Int.floor_nonneg.mpr hrange.1, ?_⟩, ?_, number_le_intMax h hfloor⟩
  · rw [absolute_fin, Value.truncate_of_nonneg (abs_nonneg q)]
  · unfold intMin
    omega
  · rw [scaledFraction_fin _ hfloor, Value.truncate_of_nonneg hrange.1]
  · have hmono := Int.floor_le_floor hrange.2
    rw [Int.floor_natCast] at hmono
    unfold magnitude at hmono
    omega
  · unfold intMin
    omega

/-- The smallest `int` has no opposite. -/
theorem not_conversionsInRange_least {r : Rounding} :
    ¬ ConversionsInRange r (Value.fin intMin) := by
  rintro ⟨⟨i, hi, -, hmax⟩, -, -⟩
  have hopposite : |((intMin : Int) : Rat)| = ((2147483648 : Int) : Rat) := by
    unfold intMin
    rw [← Int.cast_abs]
    rfl
  rw [absolute_fin, hopposite,
    Value.truncate_of_nonneg (Int.cast_nonneg (by decide)),
    Int.floor_intCast] at hi
  cases hi
  exact absurd hmax (by decide)

theorem not_conversionsInRange_nan {r : Rounding} :
    ¬ ConversionsInRange r Value.nan := by
  rintro ⟨⟨i, hi, -⟩, -, -⟩
  cases hi

/-- A number that passes the check of the range is converted in range, and
integers are read back, unless it is the smallest `int` or not a number. -/
theorem conversions_iff (format : Value -> List UInt8) {d : Double}
    (h : outOfRange d.value = false) :
    ConversionsInRange Rounding.nearest d.value ∧
        ParsesBack format Rounding.nearest d.value <->
      d.value ≠ Value.nan ∧ d.value ≠ Value.fin intMin := by
  constructor
  · rintro ⟨hconversions, -⟩
    constructor
    · intro hnan
      rw [hnan] at hconversions
      exact not_conversionsInRange_nan hconversions
    · intro hmin
      rw [hmin] at hconversions
      exact not_conversionsInRange_least hconversions
  · rintro ⟨hnan, hmin⟩
    refine ⟨?_, parsesBack_of_ne h hmin⟩
    cases hvalue : d.value with
    | nan => exact absurd hvalue hnan
    | inf negative =>
        rw [hvalue] at h
        cases negative <;> cases h
    | fin q =>
        rw [hvalue] at h hmin
        exact conversionsInRange hvalue (floor_abs_le h hmin)

theorem conversions_one :
    outOfRange (Double.ofInt (-2147483647)).value = false ∧
      ConversionsInRange Rounding.nearest
        (Double.ofInt (-2147483647)).value ∧
      ParsesBack (fun _ => []) Rounding.nearest
        (Double.ofInt (-2147483647)).value := by
  have h : outOfRange (Double.ofInt (-2147483647)).value = false := by
    decide
  exact ⟨h, (conversions_iff _ h).mpr (by decide)⟩

/-- The smallest `int` passes the check, and its text is not a number. -/
theorem outputfdText_least :
    outOfRange (Double.ofInt intMin).value = false ∧
      (Double.ofInt intMin).value = Value.fin intMin ∧
      outputfdText (fun _ => []) Rounding.nearest
        (Double.ofInt intMin).value = ascii "-(.00000001" ∧
      ¬ (ConversionsInRange Rounding.nearest (Double.ofInt intMin).value ∧
        ParsesBack (fun _ => []) Rounding.nearest
          (Double.ofInt intMin).value) := by
  have hvalue : (Double.ofInt intMin).value = Value.fin intMin := by
    decide
  refine ⟨by decide +kernel, hvalue, by decide +kernel, ?_⟩
  rintro ⟨-, hparses⟩
  have htext : decimalValue (outputfdText (fun _ => []) Rounding.nearest
      (Double.ofInt intMin).value) = none := by
    decide +kernel
  have hback := (hparses intMin hvalue).1
  rw [htext] at hback
  cases hback

end Util
end LuaSandbox
