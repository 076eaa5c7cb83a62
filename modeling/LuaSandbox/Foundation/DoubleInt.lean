import LuaSandbox.Foundation.Double
import LuaSandbox.Foundation.MachineInt
import Mathlib.Tactic.NormNum
import Mathlib.Tactic.Linarith
import Mathlib.Data.Rat.Cast.Defs

/-!
# Integers as doubles

What the conversion of an integer denotes: the integer itself up to `2 ^ 53`,
and nothing smaller beyond.
-/

namespace LuaSandbox
namespace Foundation
namespace Double

/-- The pattern of a sign, an exponent and a fraction. -/
def pattern (negative : Bool) (e f : Nat) : Double :=
  ⟨UInt64.ofNat ((if negative then 2 ^ 63 else 0) + (e * 2 ^ 52 + f))⟩

theorem value_pattern (negative : Bool) {e f : Nat} (he : 0 < e)
    (he' : e < 2047) (hf : f < 2 ^ 52) :
    (pattern negative e f).value =
      Value.fin (scaled negative (2 ^ 52 + f) e) := by
  have hbits : (pattern negative e f).bits.toNat =
      (if negative then 2 ^ 63 else 0) + (e * 2 ^ 52 + f) := by
    unfold pattern
    rw [UInt64.toNat_ofNat']
    apply Nat.mod_eq_of_lt
    split <;> omega
  have hexponent : (pattern negative e f).exponent = e := by
    unfold exponent
    rw [hbits]
    split <;> omega
  have hfraction : (pattern negative e f).fraction = f := by
    unfold fraction
    rw [hbits]
    split <;> omega
  have hnegative : (pattern negative e f).negative = negative := by
    unfold Double.negative
    rw [hbits]
    cases negative with
    | false =>
        rw [if_neg Bool.false_ne_true]
        exact decide_eq_false (by omega)
    | true =>
        rw [if_pos rfl]
        exact decide_eq_true (by omega)
  unfold value
  rw [hexponent, hfraction, hnegative, if_neg (by omega), if_neg (by omega)]

/-- The significand has 53 bits, or it is rounded up to `2 ^ 53`. -/
theorem roundedSignificand_range {m : Nat} (h : m ≠ 0) :
    2 ^ 52 <= roundedSignificand m m.log2 ∧
      roundedSignificand m m.log2 <= 2 ^ 53 ∧
      (m.log2 <= 52 -> roundedSignificand m m.log2 < 2 ^ 53) := by
  have hlow := Nat.log2_self_le h
  have hhigh : m < 2 ^ (m.log2 + 1) := Nat.lt_log2_self
  generalize m.log2 = e at hlow hhigh
  unfold roundedSignificand
  by_cases he : e <= 52
  · rw [if_pos he]
    have hpow : 2 ^ 52 = 2 ^ e * 2 ^ (52 - e) := by
      rw [← Nat.pow_add, Nat.add_sub_cancel' he]
    have hpow' : 2 ^ 53 = 2 ^ (e + 1) * 2 ^ (52 - e) := by
      rw [← Nat.pow_add]
      congr 1
      omega
    have hpos : 0 < 2 ^ (52 - e) := Nat.two_pow_pos _
    have hlt : m * 2 ^ (52 - e) < 2 ^ 53 := by
      rw [hpow']
      exact Nat.mul_lt_mul_of_pos_right hhigh hpos
    refine ⟨?_, Nat.le_of_lt hlt, fun _ => hlt⟩
    rw [hpow]
    exact Nat.mul_le_mul_right _ hlow
  · rw [if_neg he]
    have hpow : 2 ^ e = 2 ^ (e - 52) * 2 ^ 52 := by
      rw [← Nat.pow_add, Nat.sub_add_cancel (by omega)]
    have hpow' : 2 ^ (e + 1) = 2 ^ (e - 52) * 2 ^ 53 := by
      rw [← Nat.pow_add]
      congr 1
      omega
    have hq : 2 ^ 52 <= m / 2 ^ (e - 52) := by
      rw [Nat.le_div_iff_mul_le (Nat.two_pow_pos _), Nat.mul_comm, ← hpow]
      exact hlow
    have hq' : m / 2 ^ (e - 52) < 2 ^ 53 := by
      rw [Nat.div_lt_iff_lt_mul (Nat.two_pow_pos _), Nat.mul_comm, ← hpow']
      exact hhigh
    dsimp only
    refine ⟨?_, ?_, fun h => absurd h he⟩
    · split <;> omega
    · split <;> omega

/-- The conversion as a pattern: rounding up may carry into the exponent. -/
theorem ofInt_eq_pattern {i : Int} (h : i ≠ 0) {s : Nat}
    (hs : roundedSignificand i.natAbs i.natAbs.log2 = s) :
    ofInt i =
      if s < 2 ^ 53 then
        pattern (decide (i < 0)) (i.natAbs.log2 + 1023) (s - 2 ^ 52)
      else
        pattern (decide (i < 0)) (i.natAbs.log2 + 1024) 0 := by
  rcases roundedSignificand_range (m := i.natAbs) (by omega) with
    ⟨hlow, hhigh, -⟩
  rw [hs] at hlow hhigh
  have hsign : (if decide (i < 0) = true then 2 ^ 63 else 0) =
      if i < 0 then 2 ^ 63 else 0 := by
    by_cases hi : i < 0 <;> simp [hi]
  unfold ofInt pattern
  rw [if_neg h, hsign]
  dsimp only
  rw [hs]
  generalize i.natAbs.log2 = e
  generalize (if i < 0 then 2 ^ 63 else 0) = sign
  by_cases hcarry : s < 2 ^ 53
  · have hbits : (e + 1022) * 2 ^ 52 + s =
        (e + 1023) * 2 ^ 52 + (s - 2 ^ 52) := by
      omega
    rw [if_pos hcarry, hbits]
  · have hbits : (e + 1022) * 2 ^ 52 + s = (e + 1024) * 2 ^ 52 + 0 := by
      omega
    rw [if_neg hcarry, hbits]

theorem scaled_large (negative : Bool) (m : Nat) {e : Nat} (h : 1075 <= e) :
    scaled negative m e =
      ((if negative then -(m : Int) else m) * 2 ^ (e - 1075) : Int) := by
  unfold scaled
  rw [if_pos h]

/-- A significand with zeros at the end that the scale takes off. -/
theorem scaled_exact (negative : Bool) (m : Nat) {e : Nat} (h : e <= 1075) :
    scaled negative (m * 2 ^ (1075 - e)) e =
      ((if negative then -(m : Int) else m : Int) : Rat) := by
  unfold scaled
  by_cases heq : 1075 <= e
  · have hzero : 1075 - e = 0 := by omega
    have hzero' : e - 1075 = 0 := by omega
    rw [if_pos heq, hzero, hzero', Nat.pow_zero, Nat.mul_one, pow_zero,
      mul_one]
  · have hpos : 2 ^ (1075 - e) ≠ 0 := Nat.two_pow_pos _ |>.ne'
    have hfactor : (if negative then -((m * 2 ^ (1075 - e) : Nat) : Int)
        else (m * 2 ^ (1075 - e) : Nat)) =
          (if negative then -(m : Int) else m) *
            ((2 ^ (1075 - e) : Nat) : Int) := by
      cases negative with
      | false => exact Int.natCast_mul _ _
      | true =>
          change -((m * 2 ^ (1075 - e) : Nat) : Int) = -(m : Int) * _
          rw [Int.natCast_mul, Int.neg_mul]
    have hone := Rat.mkRat_mul_right
      (n := if negative then -(m : Int) else m) (d := 1) hpos
    rw [Nat.one_mul] at hone
    rw [if_neg heq, hfactor, hone]
    exact Rat.mkRat_one _

theorem sign_natAbs (i : Int) :
    (if decide (i < 0) = true then -(i.natAbs : Int) else i.natAbs) = i := by
  by_cases hi : i < 0
  · rw [if_pos (decide_eq_true hi)]
    omega
  · rw [if_neg (by simpa using hi)]
    omega

/-- Small integers are exact. -/
theorem value_ofInt {i : Int} (h : i.natAbs <= 2 ^ 53) :
    (ofInt i).value = Value.fin i := by
  by_cases hzero : i = 0
  · subst hzero
    decide +kernel
  have hne : i.natAbs ≠ 0 := by omega
  have hsign := sign_natAbs i
  rw [ofInt_eq_pattern hzero rfl]
  rcases roundedSignificand_range hne with ⟨hlow, -, hsmall⟩
  by_cases he : i.natAbs.log2 <= 52
  · have hs : 2 ^ 52 + (roundedSignificand i.natAbs i.natAbs.log2 - 2 ^ 52) =
        i.natAbs * 2 ^ (1075 - (i.natAbs.log2 + 1023)) := by
      have hshift : 1075 - (i.natAbs.log2 + 1023) = 52 - i.natAbs.log2 := by
        omega
      rw [Nat.add_sub_cancel' hlow, hshift]
      unfold roundedSignificand
      rw [if_pos he]
    rw [if_pos (hsmall he), value_pattern _ (by omega) (by omega) (by
        have := hsmall he
        omega), hs, scaled_exact _ _ (by omega), hsign]
  · -- beyond 52 bits only the power itself is left
    have hpow : 2 ^ 53 <= i.natAbs := by
      have hself := Nat.log2_self_le hne
      have hmono : 2 ^ 53 <= 2 ^ i.natAbs.log2 :=
        Nat.pow_le_pow_right (by omega) (by omega)
      omega
    have heq : i.natAbs = 2 ^ 53 := by omega
    have hlog : (2 ^ 53).log2 = 53 := by decide
    have hs : roundedSignificand (2 ^ 53) 53 = 2 ^ 52 := by decide
    rw [heq, hlog, hs, if_pos (by decide),
      value_pattern _ (by decide) (by decide) (by decide),
      scaled_large _ _ (by decide)]
    have hscale : forall b : Bool,
        (if b = true then -((2 ^ 52 : Nat) : Int) else (2 ^ 52 : Nat)) *
            2 ^ (53 + 1023 - 1075) =
          if b = true then -((2 ^ 53 : Nat) : Int) else (2 ^ 53 : Nat) := by
      decide
    have hzero : 2 ^ 52 + (2 ^ 52 - 2 ^ 52) = 2 ^ 52 := by decide
    rw [heq] at hsign
    rw [hzero, hscale, hsign]

/-- Large integers stay large. -/
theorem value_ofInt_large {i : Int} (h : 2 ^ 53 <= i.natAbs)
    (h' : i.natAbs < 2 ^ 64) :
    exists j : Int, (ofInt i).value = Value.fin j ∧ 2 ^ 53 <= j.natAbs := by
  have hzero : i ≠ 0 := by
    rintro rfl
    exact absurd h (by decide)
  have hne : i.natAbs ≠ 0 := by omega
  have hlog : i.natAbs.log2 < 64 := Nat.log2_lt hne |>.2 h'
  have hlog' : 53 <= i.natAbs.log2 := Nat.le_log2 hne |>.2 h
  rw [ofInt_eq_pattern hzero rfl]
  rcases roundedSignificand_range hne with ⟨hlow, hhigh, -⟩
  generalize roundedSignificand i.natAbs i.natAbs.log2 = s at *
  generalize i.natAbs.log2 = e at *
  have hlarge : forall (negative : Bool) (m k : Nat), 2 ^ 52 <= m -> 1 <= k ->
      2 ^ 53 <= ((if negative then -(m : Int) else m) * 2 ^ k).natAbs := by
    intro negative m k hm hk
    have habs : (if negative then -(m : Int) else m).natAbs = m := by
      cases negative with
      | false => exact Int.natAbs_natCast m
      | true => exact (Int.natAbs_neg _).trans (Int.natAbs_natCast m)
    have hk' : 2 ^ 1 <= 2 ^ k := Nat.pow_le_pow_right (by omega) hk
    rw [Int.natAbs_mul, habs, Int.natAbs_pow]
    exact Nat.mul_le_mul hm hk'
  by_cases hs : s < 2 ^ 53
  · rw [if_pos hs, value_pattern _ (by omega) (by omega) (by omega),
      scaled_large _ _ (by omega)]
    exact ⟨_, rfl, hlarge _ _ _ (by omega) (by omega)⟩
  · rw [if_neg hs, value_pattern _ (by omega) (by omega) (by decide),
      scaled_large _ _ (by omega)]
    exact ⟨_, rfl, hlarge _ _ _ (by omega) (by omega)⟩

theorem value_ofInt_eq {i : Int} (hi : i.natAbs < 2 ^ 64) {j : Int}
    (hj : j.natAbs < 2 ^ 53) :
    (ofInt i).value.eq (Value.fin j) = decide (i = j) := by
  by_cases hsmall : i.natAbs <= 2 ^ 53
  · rw [value_ofInt hsmall]
    change ((i : Rat) == (j : Rat)) = decide (i = j)
    rw [beq_eq_decide]
    exact decide_eq_decide.mpr Int.cast_inj
  · rcases value_ofInt_large (by omega) hi with ⟨k, hvalue, hk⟩
    rw [hvalue]
    change ((k : Rat) == (j : Rat)) = decide (i = j)
    rw [beq_eq_decide]
    apply decide_eq_decide.mpr
    rw [Int.cast_inj]
    constructor
    · intro heq
      omega
    · intro heq
      omega

/-!
## Conversion back
-/

theorem truncate_of_value {d : Double} {i : Int}
    (h : d.value = Value.fin i) : d.truncate = some i := by
  unfold truncate
  rw [h]
  dsimp only
  rw [Rat.num_intCast, Rat.den_intCast]
  exact congrArg some (Int.tdiv_one i)

theorem truncate_ofInt {i : Int} (h : i.natAbs <= 2 ^ 53) :
    (ofInt i).truncate = some i :=
  truncate_of_value (value_ofInt h)

theorem toLongLong_ofInt {i : Int} (h : i.natAbs <= 2 ^ 53) :
    (ofInt i).toLongLong = i := by
  unfold toLongLong
  rw [truncate_ofInt h]
  exact if_pos (by omega)

theorem toUnsigned_ofInt {i : Int} (h : i.natAbs <= 2 ^ 53) :
    (ofInt i).toUnsigned = ofLongLong i := by
  unfold toUnsigned
  rw [truncate_ofInt h]
  exact if_pos (by omega)

end Double
end Foundation
end LuaSandbox
