import LuaSandbox.Foundation.Decimal
import LuaSandbox.Foundation.Rounding

/-!
# The text of a number

A number is written with at most eight digits behind the decimal point.  The
arithmetic is that of doubles; with exact arithmetic it is idealised.
-/

namespace LuaSandbox
namespace Util

open Foundation
open Foundation.Double (Value)

/-!
## The parts of a number
-/

def precision : Nat := 8

def magnitude : Nat := 100000000

structure NumberParts where
  negative : Bool
  number : Int
  fraction : Nat
  deriving DecidableEq

/-- Out of the range that is written digit by digit. -/
def outOfRange (d : Value) : Bool :=
  d.lt (Value.fin intMin) || Value.lt (Value.fin intMax) d

def absolute (d : Value) : Value :=
  if d.lt (Value.fin 0) then d.neg else d

def wholeNumber (d : Value) : Int :=
  (absolute d).toInt

/-- The fraction with eight digits in front of the decimal point. -/
def scaledFraction (r : Rounding) (d : Value) : Value :=
  ((absolute d).sub r (Value.fin (wholeNumber d))).mul r (Value.fin magnitude)

/-- The whole number and the fraction, rounded; a fraction that is rounded up
to one is carried, but not if it was half way. -/
def numberParts (r : Rounding) (d : Value) : NumberParts :=
  let negative := d.lt (Value.fin 0)
  let number := wholeNumber d
  let tmp := scaledFraction r d
  let fraction := tmp.toUnsigned
  let diff := tmp.sub r (Value.fin fraction)
  if Value.lt (Value.fin (1 / 2)) diff then
    if magnitude <= fraction + 1 then ⟨negative, number + 1, 0⟩
    else ⟨negative, number, fraction + 1⟩
  else if diff.eq (Value.fin (1 / 2)) ∧ (fraction = 0 ∨ fraction % 2 = 1) then
    ⟨negative, number, fraction + 1⟩
  else
    ⟨negative, number, fraction⟩

/-!
## The digits
-/

def digitChar (c : Int) : UInt8 :=
  UInt8.ofNat (0x30 + c).toNat

/-- The digits of the fraction from the last one on, without zeros at the
end. -/
def fractionLoop : Nat -> Bool -> Nat -> List UInt8
  | 0, _, _ => []
  | x + 1, nodigits, fraction =>
      let c := fraction % 10
      if c = 0 ∧ nodigits then
        fractionLoop x nodigits (fraction / 10)
      else
        digitChar c :: fractionLoop x false (fraction / 10)

def fractionDigits (fraction : Nat) : List UInt8 :=
  if fraction ≠ 0 then fractionLoop precision true fraction ++ [0x2e] else []

/-- The digits of a number from the last one on. -/
def numberLoop : Nat -> Int -> List UInt8
  | 0, _ => []
  | n + 1, number =>
      digitChar (number.tmod 10) ::
        if 0 < number.tdiv 10 then numberLoop n (number.tdiv 10) else []

/-- An `int` has at most ten digits. -/
def numberDigits (number : Int) : List UInt8 :=
  numberLoop 10 number

/-- What stands in the buffer of 20 characters, in reverse. -/
def NumberParts.buffer (p : NumberParts) : List UInt8 :=
  fractionDigits p.fraction ++ numberDigits p.number

def NumberParts.text (p : NumberParts) : List UInt8 :=
  (if p.negative then [0x2d] else []) ++ p.buffer.reverse

/-- The text that `lsb_outputfd` writes; `format` stands for `"%0.17g"`. -/
def outputfdText (format : Value -> List UInt8) (r : Rounding) (d : Value) :
    List UInt8 :=
  if outOfRange d then format d else (numberParts r d).text

/-- The text that `lsb_serialize_double` writes. -/
def serializeDoubleText (format : Value -> List UInt8) (r : Rounding)
    (d : Value) : List UInt8 :=
  match d with
  | Value.nan => ascii "0/0"
  | Value.inf false => ascii "1/0"
  | Value.inf true => ascii "-1/0"
  | Value.fin q => outputfdText format r (Value.fin q)

theorem fractionLoop_length (x : Nat) :
    forall nodigits fraction,
      (fractionLoop x nodigits fraction).length <= x := by
  induction x with
  | zero =>
      intro nodigits fraction
      exact Nat.le_refl 0
  | succ x ih =>
      intro nodigits fraction
      unfold fractionLoop
      dsimp only
      split
      · exact Nat.le_succ_of_le (ih _ _)
      · exact Nat.succ_le_succ (ih _ _)

theorem numberLoop_length (n : Nat) :
    forall number, (numberLoop n number).length <= n := by
  induction n with
  | zero =>
      intro number
      exact Nat.le_refl 0
  | succ n ih =>
      intro number
      unfold numberLoop
      rw [List.length_cons]
      split
      · exact Nat.succ_le_succ (ih _)
      · exact Nat.succ_le_succ (Nat.zero_le n)

/-- The buffer of 20 characters is large enough. -/
theorem NumberParts.buffer_length (p : NumberParts) : p.buffer.length < 20 := by
  have hnumber := numberLoop_length 10 p.number
  have hfraction := fractionLoop_length precision true p.fraction
  unfold NumberParts.buffer fractionDigits numberDigits
  rw [List.length_append]
  unfold precision at *
  split
  · rw [List.length_append, List.length_singleton]
    omega
  · rw [List.length_nil]
    omega

/-!
## What the digits denote
-/

theorem isDigit_digitChar : forall c : Nat, c < 10 ->
    isDigit (digitChar c) = true := by
  decide

theorem toNat_digitChar : forall c : Nat, c < 10 ->
    (digitChar c).toNat - 0x30 = c := by
  decide

theorem numberLoop_digits (n : Nat) :
    forall number : Nat, AllDigits (numberLoop n number) := by
  induction n with
  | zero =>
      intro number b hb
      cases hb
  | succ n ih =>
      intro number b hb
      unfold numberLoop at hb
      rcases List.mem_cons.mp hb with rfl | hb
      · exact isDigit_digitChar (number % 10) (Nat.mod_lt _ (by decide))
      · split at hb
        · exact ih (number / 10) b hb
        · cases hb

/-- The digits spell the number. -/
theorem digits_numberLoop (n : Nat) :
    forall number : Nat, number < 10 ^ (n + 1) ->
      (digits 0 (numberLoop (n + 1) number).reverse).1 = number := by
  induction n with
  | zero =>
      intro number hlt
      have hten : number < 10 := by omega
      have hquotient : ¬ 0 < (number : Int).tdiv 10 := by
        change ¬ 0 < ((number / 10 : Nat) : Int)
        omega
      have hmod : (number : Int).tmod 10 = (number : Nat) := by
        change ((number % 10 : Nat) : Int) = number
        omega
      unfold numberLoop
      rw [if_neg hquotient, hmod, List.reverse_singleton, digits,
        isDigit_digitChar number hten, if_pos rfl, toNat_digitChar number hten]
      exact Nat.zero_add _
  | succ n ih =>
      intro number hlt
      have hmod := Nat.mod_lt number (show 0 < 10 by decide)
      have hdiv : number / 10 < 10 ^ (n + 1) := by
        rw [Nat.div_lt_iff_lt_mul (by decide)]
        rwa [Nat.pow_succ] at hlt
      unfold numberLoop
      change (digits 0 (digitChar ((number % 10 : Nat) : Int) ::
        if 0 < ((number / 10 : Nat) : Int) then
          numberLoop (n + 1) ((number / 10 : Nat) : Int) else []).reverse).1 = _
      rw [List.reverse_cons, digits_concat _ (isDigit_digitChar _ hmod),
        toNat_digitChar _ hmod]
      · split
        · rw [ih _ hdiv]
          omega
        · change 10 * 0 + number % 10 = number
          omega
      · split
        · exact (numberLoop_digits _ _).reverse
        · exact fun b hb => absurd hb List.not_mem_nil

theorem fractionLoop_digits (x : Nat) :
    forall nodigits fraction,
      AllDigits (fractionLoop x nodigits fraction) := by
  induction x with
  | zero =>
      intro nodigits fraction b hb
      cases hb
  | succ x ih =>
      intro nodigits fraction b hb
      unfold fractionLoop at hb
      dsimp only at hb
      split at hb
      · exact ih _ _ b hb
      · rcases List.mem_cons.mp hb with rfl | hb
        · exact isDigit_digitChar (fraction % 10) (Nat.mod_lt _ (by decide))
        · exact ih _ _ b hb

/-- With zeros at the end there are as many digits as places. -/
theorem fractionLoop_length_false (x : Nat) :
    forall fraction, (fractionLoop x false fraction).length = x := by
  induction x with
  | zero =>
      intro fraction
      rfl
  | succ x ih =>
      intro fraction
      unfold fractionLoop
      dsimp only
      rw [if_neg (fun h => Bool.false_ne_true h.2), List.length_cons, ih]

/-- The value of digits that are given from the last one on. -/
def fractionValue (ds : List UInt8) : Rat :=
  ((digits 0 ds.reverse).1 : Rat) / 10 ^ ds.length

theorem fractionValue_cons {c : Nat} {ds : List UInt8} (hc : c < 10)
    (h : AllDigits ds) :
    fractionValue (digitChar c :: ds) =
      fractionValue ds + (c : Rat) / 10 ^ (ds.length + 1) := by
  unfold fractionValue
  rw [List.reverse_cons, digits_concat h.reverse (isDigit_digitChar c hc),
    toNat_digitChar c hc, List.length_cons]
  push_cast
  rw [pow_succ]
  field_simp

/-- The last eight digits are the fraction. -/
theorem fractionValue_loop (x : Nat) :
    forall nodigits fraction,
      fractionValue (fractionLoop x nodigits fraction) =
        ((fraction % 10 ^ x : Nat) : Rat) / 10 ^ x := by
  induction x with
  | zero =>
      intro nodigits fraction
      rw [Nat.pow_zero, Nat.mod_one]
      simp [fractionLoop, fractionValue, digits]
  | succ x ih =>
      intro nodigits fraction
      have hsplit : ((fraction % 10 ^ (x + 1) : Nat) : Rat) =
          (fraction % 10 : Nat) + 10 * (fraction / 10 % 10 ^ x : Nat) := by
        rw [Nat.pow_succ, Nat.mul_comm, Nat.mod_mul]
        push_cast
        rfl
      unfold fractionLoop
      dsimp only
      split
      · rename_i hzero
        rw [ih, hsplit, hzero.1, pow_succ]
        push_cast
        field_simp
        ring
      · rw [fractionValue_cons (Nat.mod_lt _ (by decide))
          (fractionLoop_digits _ _ _), ih, fractionLoop_length_false, hsplit,
          pow_succ]
        field_simp
        ring

/-- The digits in front of the decimal point. -/
theorem numberDigits_spell {n : Nat} (h : n < 10 ^ 10) :
    AllDigits (numberDigits n).reverse ∧ (numberDigits n).reverse ≠ [] ∧
      (digits 0 (numberDigits n).reverse).1 = n :=
  ⟨(numberLoop_digits 10 n).reverse,
    fun h => List.cons_ne_nil _ _ (List.reverse_eq_nil_iff.mp h),
    digits_numberLoop 9 n h⟩

theorem unsignedValue_buffer {p : NumberParts} {n : Nat} (hn : p.number = n)
    (hlt : n < 10 ^ 10) :
    unsignedValue p.buffer.reverse =
      some (n + ((p.fraction % 10 ^ 8 : Nat) : Rat) / 10 ^ 8) := by
  rcases numberDigits_spell hlt with ⟨hdigits, hne, hvalue⟩
  unfold NumberParts.buffer fractionDigits
  rw [hn, List.reverse_append]
  split
  · have hfraction := fractionValue_loop precision true p.fraction
    unfold fractionValue at hfraction
    rw [List.reverse_append, List.reverse_singleton, List.singleton_append,
      unsignedValue_fraction hdigits hne (fractionLoop_digits _ _ _).reverse,
      hvalue, List.length_reverse, hfraction]
    rfl
  · rename_i hzero
    rw [List.reverse_nil, List.append_nil, unsignedValue_whole hdigits hne,
      hvalue, not_not.mp hzero]
    simp

/-- The number that the text of the parts denotes. -/
theorem decimalValue_text {p : NumberParts} {n : Nat} (hn : p.number = n)
    (hlt : n < 10 ^ 10) :
    decimalValue p.text = some ((if p.negative then -1 else 1) *
      (n + ((p.fraction % 10 ^ 8 : Nat) : Rat) / 10 ^ 8)) := by
  have hunsigned := unsignedValue_buffer hn hlt
  unfold NumberParts.text
  cases p.negative with
  | true =>
      change decimalValue (0x2d :: p.buffer.reverse) = _
      rw [decimalValue_negative, hunsigned]
      simp
  | false =>
      rcases numberDigits_spell hlt with ⟨hdigits, hne, -⟩
      rcases List.exists_cons_of_ne_nil hne with ⟨c, cs, hcons⟩
      have hbuffer : p.buffer.reverse =
          c :: (cs ++ (fractionDigits p.fraction).reverse) := by
        unfold NumberParts.buffer
        rw [hn, List.reverse_append, hcons, List.cons_append]
      change decimalValue p.buffer.reverse = _
      rw [hbuffer, decimalValue_positive, ← hbuffer, hunsigned]
      · simp
      · exact hdigits c (hcons ▸ List.mem_cons_self)

/-!
## The parts of a finite number
-/

/-- The fraction of a positive number with eight digits in front of the
decimal point. -/
def scaledRat (r : Rounding) (q : Rat) : Rat :=
  r.round (r.round (q - ⌊q⌋) * magnitude)

theorem absolute_fin (d : Rat) : absolute (Value.fin d) = Value.fin |d| := by
  unfold absolute
  change (if decide (d < 0) = true then Value.fin (-d) else Value.fin d) = _
  by_cases hneg : d < 0
  · rw [if_pos (decide_eq_true hneg), abs_of_neg hneg]
  · rw [if_neg (by simpa using hneg), abs_of_nonneg (not_lt.mp hneg)]

theorem wholeNumber_fin {d : Rat} (h : ⌊|d|⌋ <= intMax) :
    wholeNumber (Value.fin d) = ⌊|d|⌋ := by
  unfold wholeNumber
  rw [absolute_fin]
  exact Value.toInt_of_nonneg (abs_nonneg d) h

theorem scaledFraction_fin (r : Rounding) {d : Rat} (h : ⌊|d|⌋ <= intMax) :
    scaledFraction r (Value.fin d) = Value.fin (scaledRat r |d|) := by
  unfold scaledFraction
  rw [absolute_fin, wholeNumber_fin h]
  rfl

theorem scaledRat_range (r : Rounding) (q : Rat) :
    0 <= scaledRat r q ∧ scaledRat r q <= magnitude := by
  have hlow : 0 <= r.round (q - ⌊q⌋) :=
    r.round_nonneg (Int.fract_nonneg q)
  have hhigh : r.round (q - ⌊q⌋) <= (1 : Int) :=
    r.round_le_intCast (by decide) (by
      rw [Int.cast_one]
      exact (Int.fract_lt_one q).le)
  have hmagnitude : ((magnitude : Int) : Rat) = magnitude := Int.cast_natCast _
  unfold scaledRat
  refine ⟨r.round_nonneg (mul_nonneg hlow (Nat.cast_nonneg _)), ?_⟩
  rw [← hmagnitude]
  refine r.round_le_intCast (by decide) ?_
  rw [hmagnitude]
  rw [Int.cast_one] at hhigh
  exact mul_le_of_le_one_left (Nat.cast_nonneg _) hhigh

/-- How a fraction is rounded: down, up, up and carried, or half way. -/
inductive Rounded (r : Rounding) (d : Rat) (t : Rat) (f : Nat) :
    NumberParts -> Prop where
  | carried (h : 1 / 2 < r.round (t - f)) (hcarry : magnitude <= f + 1) :
      Rounded r d t f ⟨decide (d < 0), ⌊|d|⌋ + 1, 0⟩
  | up (h : 1 / 2 < r.round (t - f)) (hcarry : f + 1 < magnitude) :
      Rounded r d t f ⟨decide (d < 0), ⌊|d|⌋, f + 1⟩
  | tie (h : r.round (t - f) = 1 / 2) (hodd : f = 0 ∨ f % 2 = 1) :
      Rounded r d t f ⟨decide (d < 0), ⌊|d|⌋, f + 1⟩
  | down (h : r.round (t - f) <= 1 / 2)
      (heven : r.round (t - f) = 1 / 2 -> f ≠ 0 ∧ f % 2 = 0) :
      Rounded r d t f ⟨decide (d < 0), ⌊|d|⌋, f⟩

theorem numberParts_rounded (r : Rounding) {d t : Rat} {f : Nat}
    (h : ⌊|d|⌋ <= intMax) (ht : scaledRat r |d| = t) (hf : (f : Int) = ⌊t⌋) :
    Rounded r d t f (numberParts r (Value.fin d)) := by
  have hrange := scaledRat_range r |d|
  rw [ht] at hrange
  have hunsigned : (Value.fin t).toUnsigned = f := by
    have hfloor : ⌊t⌋ < 2 ^ 32 := by
      have hmono := Int.floor_le_floor hrange.2
      rw [Int.floor_natCast] at hmono
      unfold magnitude at hmono
      omega
    have hvalue := Value.toUnsigned_of_nonneg hrange.1 hfloor
    omega
  unfold numberParts
  rw [wholeNumber_fin h, scaledFraction_fin r h, ht]
  dsimp only
  rw [hunsigned]
  change Rounded r d t f
    (if decide (1 / 2 < r.round (t - f)) = true then
      if magnitude <= f + 1 then ⟨decide (d < 0), ⌊|d|⌋ + 1, 0⟩
      else ⟨decide (d < 0), ⌊|d|⌋, f + 1⟩
    else if (r.round (t - f) == 1 / 2) = true ∧ (f = 0 ∨ f % 2 = 1) then
      ⟨decide (d < 0), ⌊|d|⌋, f + 1⟩
    else ⟨decide (d < 0), ⌊|d|⌋, f⟩)
  by_cases hup : 1 / 2 < r.round (t - f)
  · rw [if_pos (decide_eq_true hup)]
    split
    · rename_i hcarry
      exact Rounded.carried hup hcarry
    · rename_i hcarry
      exact Rounded.up hup (Nat.lt_of_not_le hcarry)
  · rw [if_neg (by simpa using hup)]
    split
    · rename_i htie
      exact Rounded.tie (eq_of_beq htie.1) htie.2
    · rename_i htie
      refine Rounded.down (not_lt.mp hup) (fun heq => ?_)
      have hodd : ¬ (f = 0 ∨ f % 2 = 1) :=
        fun hodd => htie ⟨beq_iff_eq.mpr heq, hodd⟩
      omega

/-!
## Exact arithmetic
-/

/-- The text denotes a number within half a unit of the eighth place, an
integer is kept, and a fraction that rounds up to one is carried. -/
structure RoundsCorrectly (d : Rat) (text : List UInt8) : Prop where
  near : exists v, decimalValue text = some v ∧ |v - d| <= 1 / 2 / 10 ^ 8
  whole : forall n : Int, d = n -> decimalValue text = some d
  carry : 10 ^ 8 - 1 / 2 <= Int.fract |d| * 10 ^ 8 ->
    decimalValue text =
      some ((if d < 0 then -1 else 1) * ((⌊|d|⌋ : Rat) + 1))

theorem not_outOfRange {d : Rat} (hlow : intMin <= d) (hhigh : d <= intMax) :
    outOfRange (Value.fin d) = false := by
  unfold outOfRange
  change (decide (d < intMin) || decide ((intMax : Rat) < d)) = false
  rw [decide_eq_false (not_lt.mpr hlow), decide_eq_false (not_lt.mpr hhigh)]
  rfl

theorem outputfdText_parts {format : Value -> List UInt8} {r : Rounding}
    {d : Rat} (hlow : intMin <= d) (hhigh : d <= intMax) :
    outputfdText format r (Value.fin d) =
      (numberParts r (Value.fin d)).text := by
  unfold outputfdText
  rw [not_outOfRange hlow hhigh, if_neg Bool.false_ne_true]

theorem sign_mul_abs (d : Rat) : (if d < 0 then -1 else 1) * |d| = d := by
  split
  · rename_i h
    rw [abs_of_neg h]
    ring
  · rename_i h
    rw [abs_of_nonneg (not_lt.mp h), one_mul]

/-- The number of the text, when the parts are `n` and `f`. -/
theorem decimalValue_parts {d : Rat} {number : Int} {f : Nat}
    (hlow : 0 <= number) (hhigh : number < 10 ^ 10) :
    decimalValue (NumberParts.text ⟨decide (d < 0), number, f⟩) =
      some ((if d < 0 then -1 else 1) *
        (number + ((f % 10 ^ 8 : Nat) : Rat) / 10 ^ 8)) := by
  have hnumber : number = (number.toNat : Int) := by omega
  have htext := decimalValue_text
    (p := ⟨decide (d < 0), number, f⟩) hnumber (by omega)
  rw [htext]
  have hcast : ((number.toNat : Nat) : Rat) = number := by
    rw [← Int.cast_natCast, ← hnumber]
  rw [hcast]
  by_cases hneg : d < 0
  · simp [hneg]
  · simp [hneg]

/-- Only the distance to the absolute value counts. -/
theorem near_of_abs {d x : Rat}
    (h : abs (x - |d|) <= 1 / 2 / 10 ^ 8) :
    |(if d < 0 then -1 else 1) * x - d| <= 1 / 2 / 10 ^ 8 := by
  have hd := sign_mul_abs d
  have hsplit : (if d < 0 then -1 else 1) * x - d =
      (if d < 0 then -1 else 1) * (x - |d|) := by
    rw [mul_sub, hd]
  have hone : |(if d < 0 then -1 else 1 : Rat)| = 1 := by
    split <;> simp
  rwa [hsplit, abs_mul, hone, one_mul]

/-- A text whose number has the fraction `y`, in units of the eighth place. -/
theorem RoundsCorrectly.of_value {d y : Rat} {text : List UInt8}
    (hvalue : decimalValue text =
      some ((if d < 0 then -1 else 1) * (⌊|d|⌋ + y / 10 ^ 8)))
    (hlow : Int.fract |d| * 10 ^ 8 - 1 / 2 <= y)
    (hhigh : y <= Int.fract |d| * 10 ^ 8 + 1 / 2)
    (hwhole : Int.fract |d| = 0 -> y = 0)
    (hcarry : 10 ^ 8 - 1 / 2 <= Int.fract |d| * 10 ^ 8 -> y = 10 ^ 8) :
    RoundsCorrectly d text := by
  have hsum := Int.floor_add_fract |d|
  refine ⟨⟨_, hvalue, near_of_abs ?_⟩, ?_, ?_⟩
  · have hdistance : (⌊|d|⌋ : Rat) + y / 10 ^ 8 - |d| =
        (y - Int.fract |d| * 10 ^ 8) / 10 ^ 8 := by
      rw [sub_div, mul_div_cancel_right₀ _ (by norm_num)]
      linarith
    rw [hdistance, abs_div, abs_of_pos (show (0 : Rat) < 10 ^ 8 by norm_num)]
    refine div_le_div_of_nonneg_right (abs_le.mpr ⟨?_, ?_⟩) (by norm_num)
    · linarith
    · linarith
  · rintro n rfl
    have hfract : Int.fract |(n : Rat)| = 0 := by
      rw [← Int.cast_abs, Int.fract_intCast]
    rw [hfract, add_zero] at hsum
    rw [hvalue, hwhole hfract, zero_div, add_zero, hsum, sign_mul_abs]
  · intro h
    rw [hvalue, hcarry h, div_self (by norm_num)]

theorem scaledRat_exact (q : Rat) :
    scaledRat Rounding.exact q = Int.fract q * 10 ^ 8 := by
  change Int.fract q * ((100000000 : Nat) : Rat) = _
  norm_num

/-- The fraction in whole units of the eighth place. -/
theorem scaled_floor (d : Rat) :
    exists f : Nat, (f : Int) = ⌊Int.fract |d| * 10 ^ 8⌋ ∧
      (f : Rat) <= Int.fract |d| * 10 ^ 8 ∧
      Int.fract |d| * 10 ^ 8 < f + 1 ∧ f < 10 ^ 8 := by
  have hnonneg : 0 <= Int.fract |d| * 10 ^ 8 :=
    mul_nonneg (Int.fract_nonneg _) (by norm_num)
  rcases Int.eq_ofNat_of_zero_le (Int.floor_nonneg.mpr hnonneg) with ⟨f, hf⟩
  have hlow : (f : Rat) <= Int.fract |d| * 10 ^ 8 := by
    rw [← Int.cast_natCast, ← hf]
    exact Int.floor_le _
  have hhigh : Int.fract |d| * 10 ^ 8 < f + 1 := by
    rw [← Int.cast_natCast, ← hf]
    exact Int.lt_floor_add_one _
  refine ⟨f, hf.symm, hlow, hhigh, ?_⟩
  have hlt := Int.fract_lt_one |d|
  have hf' : (f : Rat) < ((10 ^ 8 : Nat) : Rat) := by
    push_cast
    linarith
  exact Nat.cast_lt.mp hf'

theorem int_range {d : Rat} (h : |d| <= intMax) :
    ((intMin : Int) : Rat) <= d ∧ d <= intMax ∧ 0 <= ⌊|d|⌋ ∧
      ⌊|d|⌋ <= intMax := by
  have hbounds := abs_le.mp h
  have hmono := Int.floor_le_floor h
  rw [Int.floor_intCast] at hmono
  refine ⟨le_trans ?_ hbounds.1, hbounds.2,
    Int.floor_nonneg.mpr (abs_nonneg d), hmono⟩
  unfold intMin intMax
  norm_num

/-- Half way to one the fraction is rounded up and not carried. -/
theorem not_roundsCorrectly {format : Value -> List UInt8} {d : Rat}
    (h : |d| <= intMax) (hhalf : Int.fract |d| * 10 ^ 8 = 10 ^ 8 - 1 / 2) :
    ¬ RoundsCorrectly d
      (outputfdText format Rounding.exact (Value.fin d)) := by
  rcases int_range h with ⟨hmin, hmax, hnonneg, hfloor⟩
  rcases scaled_floor d with ⟨f, hf, hlow, hhigh, hlt⟩
  have hsum := Int.floor_add_fract |d|
  have hfval : f = 99999999 := by
    rw [hhalf] at hlow hhigh
    have hlow' : (f : Rat) < ((100000000 : Nat) : Rat) := by
      push_cast
      linarith
    have hhigh' : ((99999998 : Nat) : Rat) < f := by
      push_cast
      linarith
    have hle := Nat.cast_lt.mp hlow'
    have hge := Nat.cast_lt.mp hhigh'
    omega
  have hparts := numberParts_rounded Rounding.exact hfloor
    (scaledRat_exact |d|) hf
  have hdiff : Rounding.exact.round (Int.fract |d| * 10 ^ 8 - f) = 1 / 2 := by
    change Int.fract |d| * 10 ^ 8 - f = 1 / 2
    rw [hhalf, hfval]
    norm_num
  rw [outputfdText_parts hmin hmax]
  unfold intMax at hfloor
  generalize numberParts Rounding.exact (Value.fin d) = p at hparts
  -- eight zeros are written, so nothing is behind the point
  have hlost : forall p, Rounded Rounding.exact d (Int.fract |d| * 10 ^ 8) f p ->
      p = ⟨decide (d < 0), ⌊|d|⌋, f + 1⟩ := by
    intro p hp
    cases hp with
    | carried hup hcarry => exact absurd hup (hdiff ▸ lt_irrefl _)
    | up hup hcarry => exact absurd hup (hdiff ▸ lt_irrefl _)
    | tie htie hodd => rfl
    | down hdown heven =>
        have hodd := (heven hdiff).2
        rw [hfval] at hodd
        exact absurd hodd (by decide)
  rw [hlost p hparts]
  rintro ⟨-, -, hcarry⟩
  have hvalue := hcarry hhalf.ge
  rw [decimalValue_parts hnonneg (by omega), hfval] at hvalue
  have hzero : ((99999999 + 1) % 10 ^ 8 : Nat) = 0 := by decide
  rw [hzero] at hvalue
  have heq := Option.some.inj hvalue
  split at heq <;> · push_cast at heq; linarith

/-- Elsewhere the number is rounded correctly. -/
theorem roundsCorrectly_of_ne {format : Value -> List UInt8} {d : Rat}
    (h : |d| <= intMax) (hhalf : Int.fract |d| * 10 ^ 8 ≠ 10 ^ 8 - 1 / 2) :
    RoundsCorrectly d
      (outputfdText format Rounding.exact (Value.fin d)) := by
  rcases int_range h with ⟨hmin, hmax, hnonneg, hfloor⟩
  rcases scaled_floor d with ⟨f, hf, hlow, hhigh, hlt⟩
  have hparts := numberParts_rounded Rounding.exact hfloor
    (scaledRat_exact |d|) hf
  have hmost : (f : Rat) <= 10 ^ 8 - 1 := by
    have hle : (f : Rat) <= ((10 ^ 8 - 1 : Nat) : Rat) :=
      Nat.cast_le.mpr (by omega)
    norm_num at hle ⊢
    exact hle
  have hzero : Int.fract |d| = 0 -> (f : Rat) = 0 := by
    intro hfract
    rw [hfract, zero_mul] at hlow
    exact le_antisymm hlow (Nat.cast_nonneg f)
  rw [outputfdText_parts hmin hmax]
  unfold intMax at hfloor
  generalize numberParts Rounding.exact (Value.fin d) = p at hparts
  cases hparts with
  | carried hup hcarry =>
      change 1 / 2 < Int.fract |d| * 10 ^ 8 - f at hup
      have hfval : (f : Rat) = 10 ^ 8 - 1 := by
        have hnat : f = 99999999 := by
          unfold magnitude at hcarry
          omega
        rw [hnat]
        norm_num
      refine RoundsCorrectly.of_value (y := 10 ^ 8) ?_ ?_ ?_ ?_ ?_
      · rw [decimalValue_parts (by omega) (by omega)]
        norm_num
      · linarith
      · linarith
      · intro hfract
        rw [hfract] at hup
        linarith
      · exact fun _ => rfl
  | up hup hcarry =>
      change 1 / 2 < Int.fract |d| * 10 ^ 8 - f at hup
      have hnext : (f : Rat) + 1 <= 10 ^ 8 - 1 := by
        have hle : ((f + 1 : Nat) : Rat) <= ((10 ^ 8 - 1 : Nat) : Rat) :=
          Nat.cast_le.mpr (by
            unfold magnitude at hcarry
            omega)
        push_cast at hle
        norm_num at hle ⊢
        exact hle
      refine RoundsCorrectly.of_value (y := f + 1) ?_ ?_ ?_ ?_ ?_
      · have hmod : (f + 1) % 10 ^ 8 = f + 1 := Nat.mod_eq_of_lt hcarry
        rw [decimalValue_parts hnonneg (by omega), hmod, Nat.cast_add,
          Nat.cast_one]
      · linarith
      · linarith
      · intro hfract
        rw [hfract] at hup
        linarith
      · intro hover
        linarith
  | tie htie hodd =>
      change Int.fract |d| * 10 ^ 8 - f = 1 / 2 at htie
      have hnext : f + 1 < 10 ^ 8 := by
        rcases Nat.lt_or_eq_of_le (Nat.succ_le_of_lt hlt) with hlt | heq
        · exact hlt
        · exfalso
          apply hhalf
          have hcast : (f : Rat) + 1 = 10 ^ 8 := by
            have hnat := congrArg (Nat.cast (R := Rat)) heq
            push_cast at hnat
            exact hnat
          linarith
      refine RoundsCorrectly.of_value (y := f + 1) ?_ ?_ ?_ ?_ ?_
      · rw [decimalValue_parts hnonneg (by omega), Nat.mod_eq_of_lt hnext,
          Nat.cast_add, Nat.cast_one]
      · linarith
      · linarith
      · intro hfract
        rw [hfract, zero_mul] at htie
        linarith [hzero hfract]
      · intro hover
        have hcast : (f : Rat) + 1 < 10 ^ 8 := by
          have hnat : ((f + 1 : Nat) : Rat) < ((10 ^ 8 : Nat) : Rat) :=
            Nat.cast_lt.mpr hnext
          push_cast at hnat
          exact hnat
        linarith
  | down hdown heven =>
      change Int.fract |d| * 10 ^ 8 - f <= 1 / 2 at hdown
      refine RoundsCorrectly.of_value (y := f) ?_ ?_ ?_ hzero ?_
      · rw [decimalValue_parts hnonneg (by omega), Nat.mod_eq_of_lt hlt]
      · linarith
      · linarith
      · intro hover
        exfalso
        apply hhalf
        linarith

/-- A number is rounded correctly unless its fraction is half way between the
last eight digits and one. -/
theorem roundsCorrectly_iff {d : Rat} (h : |d| <= intMax)
    (format : Value -> List UInt8) :
    RoundsCorrectly d
        (outputfdText format Rounding.exact (Value.fin d)) <->
      Int.fract |d| * 10 ^ 8 ≠ 10 ^ 8 - 1 / 2 :=
  ⟨fun hcorrect hhalf => not_roundsCorrectly h hhalf hcorrect,
    roundsCorrectly_of_ne h⟩

theorem roundsCorrectly_half :
    |(1 / 2 : Rat)| <= intMax ∧ RoundsCorrectly (1 / 2)
      (outputfdText (fun _ => []) Rounding.exact (Value.fin (1 / 2))) := by
  have habs : |(1 / 2 : Rat)| = 1 / 2 := abs_of_pos (by norm_num)
  have hmax : |(1 / 2 : Rat)| <= intMax := by
    rw [habs]
    unfold intMax
    norm_num
  have hfract : Int.fract |(1 / 2 : Rat)| = 1 / 2 := by
    rw [habs, Int.fract_eq_self]
    norm_num
  refine ⟨hmax, (roundsCorrectly_iff hmax _).mpr ?_⟩
  rw [hfract]
  norm_num

/-- Five units of the ninth place below one, nothing is left. -/
theorem outputfdText_lost :
    |(199999999 / 200000000 : Rat)| <= intMax ∧
      outputfdText (fun _ => []) Rounding.exact
        (Value.fin (199999999 / 200000000)) = ascii "0." ∧
      ¬ RoundsCorrectly (199999999 / 200000000)
        (outputfdText (fun _ => []) Rounding.exact
          (Value.fin (199999999 / 200000000))) := by
  have htext : outputfdText (fun _ => []) Rounding.exact
      (Value.fin (199999999 / 200000000)) = ascii "0." := by
    decide +kernel
  have hvalue : decimalValue (ascii "0.") = some 0 := by decide +kernel
  have habs : |(199999999 / 200000000 : Rat)| = 199999999 / 200000000 :=
    abs_of_pos (by norm_num)
  refine ⟨?_, htext, ?_⟩
  · rw [habs]
    unfold intMax
    norm_num
  · rw [htext]
    rintro ⟨⟨v, hv, hnear⟩, -, -⟩
    rw [hvalue] at hv
    cases hv
    rw [zero_sub, abs_neg, habs] at hnear
    norm_num at hnear

end Util
end LuaSandbox
