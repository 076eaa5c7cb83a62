import LuaSandbox.Foundation.Double
import LuaSandbox.Foundation.MachineInt
import Mathlib.Data.Int.Log
import Mathlib.Data.Rat.Floor
import Mathlib.Tactic.Linarith
import Mathlib.Tactic.Positivity

/-!
# Rounding

How the results of floating point arithmetic are rounded.  What is said about
a program is often true of every rounding that keeps the order and the numbers
of the format; exact arithmetic is one of them, double precision another.
-/

namespace LuaSandbox
namespace Foundation

/-- The numbers of the format have 53 bits and no bit below `2 ^ -1074`. -/
structure Rounding where
  round : Rat -> Rat
  mono : forall {p q : Rat}, p <= q -> round p <= round q
  keeps : forall {m e : Int}, m.natAbs < 2 ^ 53 -> -1074 <= e ->
    round (m * 2 ^ e) = m * 2 ^ e

namespace Rounding

/-- Exact arithmetic. -/
def exact : Rounding where
  round q := q
  mono h := h
  keeps _ _ := rfl

section

variable (r : Rounding)

theorem round_intCast {m : Int} (h : m.natAbs < 2 ^ 53) :
    r.round m = m := by
  have hkept := r.keeps (e := 0) h (by decide)
  rwa [zpow_zero, mul_one] at hkept

theorem round_zero : r.round 0 = 0 := by
  have h := r.round_intCast (m := 0) (by decide)
  rwa [Int.cast_zero] at h

theorem round_nonneg {q : Rat} (h : 0 <= q) : 0 <= r.round q := by
  rw [← r.round_zero]
  exact r.mono h

theorem round_le_intCast {q : Rat} {m : Int} (h : m.natAbs < 2 ^ 53)
    (hle : q <= m) : r.round q <= m := by
  rw [← r.round_intCast h]
  exact r.mono hle

end

/-!
## Nearest integers
-/

/-- The nearest integer, the even one of two. -/
def nearestInt (x : Rat) : Int :=
  if 1 / 2 < x - ⌊x⌋ ∨ x - ⌊x⌋ = 1 / 2 ∧ ⌊x⌋ % 2 = 1 then ⌊x⌋ + 1 else ⌊x⌋

theorem nearestInt_intCast (n : Int) : nearestInt n = n := by
  unfold nearestInt
  rw [Int.floor_intCast, sub_self, if_neg]
  rintro (h | h)
  · norm_num at h
  · norm_num at h

theorem floor_le_nearestInt (x : Rat) : ⌊x⌋ <= nearestInt x := by
  unfold nearestInt
  split <;> omega

theorem nearestInt_le_succ (x : Rat) : nearestInt x <= ⌊x⌋ + 1 := by
  unfold nearestInt
  split <;> omega

theorem nearestInt_mono {p q : Rat} (h : p <= q) :
    nearestInt p <= nearestInt q := by
  rcases lt_or_eq_of_le (Int.floor_le_floor h) with hlt | heq
  · have hp := nearestInt_le_succ p
    have hq := floor_le_nearestInt q
    omega
  · unfold nearestInt
    rw [heq]
    split
    · rename_i hup
      rw [if_pos]
      rcases hup with hup | ⟨hup, hodd⟩
      · exact Or.inl (lt_of_lt_of_le hup (by linarith))
      · rcases lt_or_eq_of_le (show p - ⌊q⌋ <= q - ⌊q⌋ by linarith) with
          hlt | htie
        · exact Or.inl (hup ▸ hlt)
        · exact Or.inr ⟨htie ▸ hup, hodd⟩
    · split <;> omega

/-!
## Double precision
-/

/-- The exponent of the last of 53 bits. -/
def unitExponent (q : Rat) : Int :=
  max (Int.log 2 |q| - 52) (-1074)

/-- The last of 53 bits. -/
def unit (q : Rat) : Rat :=
  2 ^ unitExponent q

theorem unit_pos (q : Rat) : 0 < unit q :=
  zpow_pos (by norm_num) _

/-- The nearest double precision number; the exponent has no upper limit. -/
def nearestDouble (q : Rat) : Rat :=
  nearestInt (q / unit q) * unit q

theorem nearestDouble_of_multiple {q : Rat} {n : Int} (h : q = n * unit q) :
    nearestDouble q = q := by
  have hquotient : q / unit q = n :=
    (div_eq_iff (unit_pos q).ne').mpr h
  unfold nearestDouble
  rw [hquotient, nearestInt_intCast]
  exact h.symm

theorem nearestDouble_le {q b : Rat} {n : Int} (hb : b = n * unit q)
    (h : q <= b) : nearestDouble q <= b := by
  have hquotient : q / unit q <= n :=
    (div_le_iff₀ (unit_pos q)).mpr (hb ▸ h)
  have hint := nearestInt_mono hquotient
  rw [nearestInt_intCast] at hint
  rw [hb]
  unfold nearestDouble
  exact mul_le_mul_of_nonneg_right (Int.cast_le.mpr hint) (unit_pos q).le

theorem le_nearestDouble {q b : Rat} {n : Int} (hb : b = n * unit q)
    (h : b <= q) : b <= nearestDouble q := by
  have hquotient : (n : Rat) <= q / unit q :=
    (le_div_iff₀ (unit_pos q)).mpr (hb ▸ h)
  have hint := nearestInt_mono hquotient
  rw [nearestInt_intCast] at hint
  rw [hb]
  unfold nearestDouble
  exact mul_le_mul_of_nonneg_right (Int.cast_le.mpr hint) (unit_pos q).le

/-- A power of two is a multiple of every smaller one. -/
theorem zpow_multiple {e e' : Int} (h : e' <= e) :
    exists n : Int, (2 : Rat) ^ e = n * 2 ^ e' := by
  refine ⟨2 ^ (e - e').toNat, ?_⟩
  have hsum : e = (e - e').toNat + e' := by omega
  rw [Int.cast_pow, Int.cast_ofNat, ← zpow_natCast, ← zpow_add₀ (by norm_num),
    ← hsum]

/-- Between numbers whose units differ there is a number of both. -/
theorem between_units {p q : Rat} (hq : q ≠ 0)
    (h : unitExponent p < unitExponent q) :
    exists b : Rat, |p| <= b ∧ b <= |q| ∧ (exists n : Int, b = n * unit p) ∧
      exists n : Int, b = n * unit q := by
  have hlogs : unitExponent q = Int.log 2 |q| - 52 ∧
      Int.log 2 |p| < Int.log 2 |q| := by
    unfold unitExponent at h ⊢
    omega
  refine ⟨2 ^ Int.log 2 |q|, ?_, ?_, ?_, ?_⟩
  · refine le_trans (Int.lt_zpow_succ_log_self (b := 2) (by decide) |p|).le ?_
    rw [Nat.cast_ofNat]
    exact zpow_le_zpow_right₀ (by norm_num) hlogs.2
  · have hself := Int.zpow_log_le_self (b := 2) (by decide) (abs_pos.mpr hq)
    rwa [Nat.cast_ofNat] at hself
  · exact zpow_multiple (by omega)
  · exact zpow_multiple (by omega)

theorem nearestDouble_mono_of_unit {p q : Rat} (h : p <= q)
    (hunit : unit p = unit q) : nearestDouble p <= nearestDouble q := by
  unfold nearestDouble
  rw [hunit]
  refine mul_le_mul_of_nonneg_right (Int.cast_le.mpr (nearestInt_mono ?_))
    (unit_pos q).le
  exact div_le_div_of_nonneg_right h (unit_pos q).le

theorem unitExponent_mono {p q : Rat} (hp : p ≠ 0) (h : |p| <= |q|) :
    unitExponent p <= unitExponent q := by
  have hlog := Int.log_mono_right (b := 2) (abs_pos.mpr hp) h
  unfold unitExponent
  omega

theorem nearestDouble_mono {p q : Rat} (h : p <= q) :
    nearestDouble p <= nearestDouble q := by
  have hzero : forall x : Rat, (0 : Rat) = (0 : Int) * unit x := by
    intro x
    rw [Int.cast_zero, zero_mul]
  rcases le_or_gt p 0 with hp | hp
  · rcases le_or_gt 0 q with hq | hq
    · exact le_trans (nearestDouble_le (hzero p) hp)
        (le_nearestDouble (hzero q) hq)
    · have habs : |q| <= |p| := by
        rw [abs_of_neg hq, abs_of_nonpos hp]
        exact neg_le_neg h
      rcases lt_or_eq_of_le (unitExponent_mono hq.ne habs) with hlt | heq
      · rcases between_units (lt_of_le_of_lt h hq).ne hlt with
          ⟨b, hqb, hbp, ⟨n, hn⟩, m, hm⟩
        rw [abs_of_neg hq] at hqb
        rw [abs_of_nonpos hp] at hbp
        have hnegp : -b = (-m : Int) * unit p := by
          rw [hm, Int.cast_neg, neg_mul]
        have hnegq : -b = (-n : Int) * unit q := by
          rw [hn, Int.cast_neg, neg_mul]
        exact le_trans (nearestDouble_le hnegp (by linarith))
          (le_nearestDouble hnegq (by linarith))
      · exact nearestDouble_mono_of_unit h (congrArg (2 ^ ·) heq.symm)
  · have hq : 0 < q := lt_of_lt_of_le hp h
    have habs : |p| <= |q| := by
      rw [abs_of_pos hp, abs_of_pos hq]
      exact h
    rcases lt_or_eq_of_le (unitExponent_mono hp.ne' habs) with hlt | heq
    · rcases between_units hq.ne' hlt with ⟨b, hpb, hbq, ⟨n, hn⟩, m, hm⟩
      rw [abs_of_pos hp] at hpb
      rw [abs_of_pos hq] at hbq
      exact le_trans (nearestDouble_le hn hpb) (le_nearestDouble hm hbq)
    · exact nearestDouble_mono_of_unit h (congrArg (2 ^ ·) heq)

/-- The numbers of the format are kept. -/
theorem nearestDouble_keeps {m e : Int} (hm : m.natAbs < 2 ^ 53)
    (he : -1074 <= e) : nearestDouble (m * 2 ^ e) = m * 2 ^ e := by
  by_cases hzero : m = 0
  · subst hzero
    apply nearestDouble_of_multiple (n := 0)
    rw [Int.cast_zero, zero_mul, zero_mul]
  have hpow : (0 : Rat) < 2 ^ e := zpow_pos (by norm_num) e
  have habs : |(m : Rat) * 2 ^ e| = (m.natAbs : Rat) * 2 ^ e := by
    rw [abs_mul, abs_of_pos hpow, Nat.cast_natAbs, Int.cast_abs]
  have hlt : (m.natAbs : Rat) * 2 ^ e < (2 : Nat) ^ (53 + e) := by
    rw [Nat.cast_ofNat, zpow_add₀ (by norm_num)]
    refine mul_lt_mul_of_pos_right ?_ hpow
    exact_mod_cast hm
  have hlog : Int.log 2 |(m : Rat) * 2 ^ e| < 53 + e := by
    rw [habs]
    refine (Int.lt_zpow_iff_log_lt (by decide) ?_).mp hlt
    exact mul_pos (Nat.cast_pos.mpr (Int.natAbs_pos.mpr hzero)) hpow
  have hexponent : unitExponent ((m : Rat) * 2 ^ e) <= e := by
    unfold unitExponent
    omega
  rcases zpow_multiple hexponent with ⟨n, hn⟩
  apply nearestDouble_of_multiple (n := m * n)
  rw [Int.cast_mul, mul_assoc]
  exact congrArg _ hn

/-- Double precision. -/
def nearest : Rounding where
  round := nearestDouble
  mono := nearestDouble_mono
  keeps := nearestDouble_keeps

end Rounding

/-!
## The numbers of the format
-/

namespace Double

theorem scaled_eq_zpow (negative : Bool) (m e : Nat) :
    scaled negative m e =
      ((if negative then -(m : Int) else m : Int) : Rat) *
        2 ^ ((e : Int) - 1075) := by
  unfold scaled
  generalize (if negative then -(m : Int) else m) = i
  split
  · rename_i h
    have hexponent : (e : Int) - 1075 = ((e - 1075 : Nat) : Int) := by omega
    rw [hexponent, zpow_natCast]
    push_cast
    rfl
  · rename_i h
    have hexponent : (e : Int) - 1075 = -((1075 - e : Nat) : Int) := by omega
    rw [hexponent, zpow_neg, zpow_natCast, Rat.mkRat_eq_div]
    push_cast
    rw [div_eq_mul_inv]

/-- A finite number belongs to the format. -/
theorem value_format {d : Double} {q : Rat} (h : d.value = Value.fin q) :
    exists m e : Int, m.natAbs < 2 ^ 53 ∧ -1074 <= e ∧ q = m * 2 ^ e := by
  have hfraction : d.fraction < 2 ^ 52 := Nat.mod_lt _ (by decide)
  have hscaled : forall m e : Nat, m < 2 ^ 53 -> 1 <= e ->
      Value.fin (scaled d.negative m e) = Value.fin q ->
        exists m e : Int, m.natAbs < 2 ^ 53 ∧ -1074 <= e ∧ q = m * 2 ^ e := by
    intro m e hm he heq
    rw [← Value.fin.inj heq, scaled_eq_zpow]
    refine ⟨_, _, ?_, ?_, rfl⟩
    · split <;> omega
    · omega
  unfold value at h
  split at h
  · split at h <;> cases h
  split at h
  · exact hscaled _ _ (by omega) (Nat.le_refl 1) h
  · exact hscaled _ _ (by omega) (by omega) h

/-- A large number has few bits behind the point. -/
theorem value_multiple {d : Double} {q : Rat} (h : d.value = Value.fin q)
    (hq : 2 ^ 30 <= |q|) : exists n : Int, q = n * 2 ^ (-22 : Int) := by
  rcases value_format h with ⟨m, e, hm, -, rfl⟩
  have hpow : (0 : Rat) < 2 ^ e := zpow_pos (by norm_num) e
  have hlt : (2 : Rat) ^ (30 : Int) < 2 ^ (53 + e) := by
    rw [abs_mul, abs_of_pos hpow] at hq
    have hm' : |(m : Rat)| < 2 ^ (53 : Int) := by
      rw [← Int.cast_abs, Int.abs_eq_natAbs, Int.cast_natCast]
      exact_mod_cast hm
    rw [zpow_add₀ (by norm_num)]
    exact lt_of_le_of_lt (by exact_mod_cast hq)
      (mul_lt_mul_of_pos_right hm' hpow)
  have he : -22 <= e := by
    have hexponent := (zpow_lt_zpow_iff_right₀ (by norm_num)).mp hlt
    omega
  rcases Rounding.zpow_multiple he with ⟨n, hn⟩
  refine ⟨m * n, ?_⟩
  rw [hn, Int.cast_mul, mul_assoc]

end Double

/-!
## Arithmetic
-/

namespace Double
namespace Value

def neg : Value -> Value
  | nan => nan
  | inf negative => inf !negative
  | fin q => fin (-q)

def sub (r : Rounding) : Value -> Value -> Value
  | fin p, fin q => fin (r.round (p - q))
  | fin _, inf negative => inf !negative
  | inf negative, fin _ => inf negative
  | inf a, inf b => if a = b then nan else inf a
  | _, _ => nan

def mul (r : Rounding) : Value -> Value -> Value
  | fin p, fin q => fin (r.round (p * q))
  | fin p, inf b => if p = 0 then nan else inf (decide (p < 0) ^^ b)
  | inf a, fin q => if q = 0 then nan else inf (a ^^ decide (q < 0))
  | inf a, inf b => inf (a ^^ b)
  | _, _ => nan

/-- A finite number without its fraction. -/
def truncate : Value -> Option Int
  | fin q => some (q.num.tdiv q.den)
  | _ => none

/-- The conversion `(int)d`; numbers out of range give the smallest. -/
def toInt (d : Value) : Int :=
  match d.truncate with
  | some i => if intMin <= i ∧ i <= intMax then i else intMin
  | none => intMin

/-- The conversion `(unsigned)d`: the low half of a conversion to 64 bits,
where numbers out of range give the smallest. -/
def toUnsigned (d : Value) : Nat :=
  match d.truncate with
  | some i => if -2 ^ 63 <= i ∧ i < 2 ^ 63 then (i % 2 ^ 32).toNat else 0
  | none => 0

theorem truncate_of_nonneg {q : Rat} (h : 0 <= q) :
    (fin q).truncate = some ⌊q⌋ := by
  change some (q.num.tdiv q.den) = some ⌊q⌋
  rw [Int.tdiv_eq_ediv_of_nonneg (Rat.num_nonneg.mpr h), Rat.floor_def']

theorem toInt_of_nonneg {q : Rat} (h : 0 <= q) (hmax : ⌊q⌋ <= intMax) :
    (fin q).toInt = ⌊q⌋ := by
  have hfloor : 0 <= ⌊q⌋ := Int.floor_nonneg.mpr h
  unfold toInt
  rw [truncate_of_nonneg h]
  refine if_pos ⟨?_, hmax⟩
  unfold intMin
  omega

theorem toUnsigned_of_nonneg {q : Rat} (h : 0 <= q) (hmax : ⌊q⌋ < 2 ^ 32) :
    ((fin q).toUnsigned : Int) = ⌊q⌋ := by
  have hfloor : 0 <= ⌊q⌋ := Int.floor_nonneg.mpr h
  unfold toUnsigned
  rw [truncate_of_nonneg h]
  dsimp only
  rw [if_pos (by omega)]
  omega

end Value
end Double
end Foundation
end LuaSandbox
