import LuaSandbox.Matcher.QuotedLiteral
import Mathlib.Tactic.IntervalCases
import Mathlib.Tactic.Ring
import Mathlib.Algebra.Order.Ring.Rat

/-!
# Timestamp constants

What a date in a test of `Timestamp` compiles to, and the instant that it
stands for.
-/

namespace LuaSandbox
namespace Matcher

open Foundation Util
open Peg

/-!
## The calendar
-/

def IsLeapYear (year : Nat) : Prop :=
  year % 4 = 0 ∧ (year % 100 ≠ 0 ∨ year % 400 = 0)

instance (year : Nat) : Decidable (IsLeapYear year) :=
  inferInstanceAs (Decidable (_ ∧ _))

def daysInMonth (year month : Nat) : Nat :=
  if month = 2 then
    if IsLeapYear year then 29 else 28
  else if month = 4 ∨ month = 6 ∨ month = 9 ∨ month = 11 then
    30
  else
    31

def daysInYear (year : Nat) : Nat :=
  if IsLeapYear year then 366 else 365

/-- The days from the start of the year 0. -/
def daysBeforeYear : Nat -> Nat
  | 0 => 0
  | year + 1 => daysBeforeYear year + daysInYear year

/-- The days from the start of the year to the start of a month. -/
def daysBeforeMonth (year : Nat) : Nat -> Nat
  | 0 => 0
  | 1 => 0
  | month + 2 => daysBeforeMonth year (month + 1) + daysInMonth year (month + 1)

/-- The number of a day, which is zero for 1970-01-01. -/
def dayNumber (year month day : Nat) : Int :=
  daysBeforeYear year + daysBeforeMonth year month + day - 1 -
    daysBeforeYear 1970

theorem daysBeforeYear_eq (year : Nat) :
    daysBeforeYear year = 365 * year + (year + 3) / 4 - (year + 99) / 100 +
      (year + 399) / 400 := by
  induction year with
  | zero => rfl
  | succ year ih =>
      rw [daysBeforeYear, ih, daysInYear]
      by_cases hleap : IsLeapYear year
      · rw [if_pos hleap]
        unfold IsLeapYear at hleap
        omega
      · rw [if_neg hleap]
        unfold IsLeapYear at hleap
        omega

/-- From March on the lengths of the months repeat after five months. -/
theorem daysBeforeMonth_eq (year : Nat) {month : Nat} (h : 1 <= month)
    (h' : month <= 12) :
    daysBeforeMonth year month =
      if month <= 2 then 31 * (month - 1)
      else (if IsLeapYear year then 60 else 59) +
        (153 * (month - 3) + 2) / 5 := by
  by_cases hleap : IsLeapYear year
  · interval_cases month <;> simp [daysBeforeMonth, daysInMonth, hleap]
  · interval_cases month <;> simp [daysBeforeMonth, daysInMonth, hleap]

/-- The arithmetic of the era counts the days of the calendar. -/
theorem daysFromCivil_eq_dayNumber {year month : Nat} (day : Nat)
    (h : 1 <= month) (h' : month <= 12) :
    daysFromCivil year month day = dayNumber year month day := by
  rw [dayNumber, daysBeforeYear_eq, daysBeforeYear_eq,
    daysBeforeMonth_eq year h h', daysFromCivil]
  by_cases hmonth : month <= 2
  · have hmonth' : (month : Int) <= 2 := by omega
    rw [if_pos hmonth, if_pos hmonth']
    omega
  · have hmonth' : ¬ (month : Int) <= 2 := by omega
    rw [if_neg hmonth, if_neg hmonth']
    by_cases hleap : IsLeapYear year
    · rw [if_pos hleap]
      unfold IsLeapYear at hleap
      omega
    · rw [if_neg hleap]
      unfold IsLeapYear at hleap
      omega

/-!
## Dates and times
-/

/-- A time offset of the grammar. -/
inductive Offset where
  | zulu
  | signed (negative : Bool) (hour minute : Nat) (hour_lt : hour < 24)
      (minute_lt : minute < 60)

namespace Offset

/-- The seconds that the local time is ahead of UTC. -/
def seconds : Offset -> Int
  | zulu => 0
  | signed negative hour minute _ _ =>
      (if negative then -1 else 1) * (hour * 3600 + minute * 60)

end Offset

/-- A valid date and time; the digits behind the decimal point may be missing,
and a minute may have a leap second. -/
structure DateTime where
  year : Nat
  month : Nat
  day : Nat
  hour : Nat
  minute : Nat
  second : Nat
  fraction : List Nat
  offset : Offset
  year_lt : year < 10000
  month_pos : 1 <= month
  month_le : month <= 12
  day_pos : 1 <= day
  day_le : day <= daysInMonth year month
  hour_lt : hour < 24
  minute_lt : minute < 60
  second_le : second <= 60
  fraction_lt : forall d, d ∈ fraction -> d < 10

theorem DateTime.day_lt (t : DateTime) : t.day < 32 := by
  have := t.day_le
  unfold daysInMonth at this
  split at this
  · split at this <;> omega
  · split at this <;> omega

/-- The number that a list of digits spells. -/
def spelled (ds : List Nat) : Nat := ds.foldl (fun n d => 10 * n + d) 0

namespace DateTime

/-- The seconds since 1970-01-01T00:00:00Z. -/
def instant (t : DateTime) : Rat :=
  ((dayNumber t.year t.month t.day * 86400 + t.hour * 3600 + t.minute * 60 +
    t.second - t.offset.seconds : Int) : Rat) +
    mkRat (spelled t.fraction) (10 ^ t.fraction.length)

end DateTime

/-!
## The text of a date
-/

def digitByte (d : Nat) : UInt8 := UInt8.ofNat (0x30 + d)

def twoDigits (n : Nat) : List UInt8 := [n / 10, n % 10].map digitByte

def fourDigits (n : Nat) : List UInt8 :=
  [n / 1000, n / 100 % 10, n / 10 % 10, n % 10].map digitByte

namespace Offset

def text : Offset -> List UInt8
  | zulu => ascii "Z"
  | signed negative hour minute _ _ =>
      (if negative then 0x2d else 0x2b) :: (twoDigits hour ++ twoDigits minute)

end Offset

namespace DateTime

def fractionText (t : DateTime) : List UInt8 :=
  match t.fraction with
  | [] => []
  | ds => 0x2e :: ds.map digitByte

def text (t : DateTime) : List UInt8 :=
  fourDigits t.year ++ (0x2d :: (twoDigits t.month ++ (0x2d ::
    (twoDigits t.day ++ (0x54 :: (twoDigits t.hour ++ (0x3a ::
      (twoDigits t.minute ++ (0x3a :: (twoDigits t.second ++
        (t.fractionText ++ t.offset.text)))))))))))

end DateTime

theorem isDigit_digitByte : forall d, d < 10 -> isDigit (digitByte d) = true := by
  decide

theorem toNat_digitByte : forall d, d < 10 ->
    (digitByte d).toNat - 0x30 = d := by
  decide

/-- The digits of a list are read as the number that they spell. -/
theorem digits_digitBytes (ds : List Nat) : forall (acc : Nat)
    (_ : forall d, d ∈ ds -> d < 10),
      digits acc (ds.map digitByte) =
        (ds.foldl (fun n d => 10 * n + d) acc, []) := by
  induction ds with
  | nil =>
      intro acc _
      rfl
  | cons d ds ih =>
      intro acc hds
      have hd := hds d List.mem_cons_self
      rw [List.map_cons, digits, isDigit_digitByte d hd, if_pos rfl,
        toNat_digitByte d hd, ih _ (fun e he => hds e (List.mem_cons_of_mem d he)),
        List.foldl_cons]

/-- A digit is no sign. -/
theorem sign_digitBytes {d : Nat} (ds : List Nat) (hd : d < 10) :
    Foundation.sign ((d :: ds).map digitByte) = (1, (d :: ds).map digitByte) := by
  have hne : forall d, d < 10 -> digitByte d ≠ 0x2d ∧ digitByte d ≠ 0x2b := by
    decide
  rw [List.map_cons]
  unfold Foundation.sign
  split
  · rename_i heq
    exact absurd (List.cons_eq_cons.mp heq).1 (hne d hd).1
  · rename_i heq
    exact absurd (List.cons_eq_cons.mp heq).1 (hne d hd).2
  · rfl

theorem atoi_digitBytes {d : Nat} {ds : List Nat}
    (h : forall e, e ∈ d :: ds -> e < 10) :
    atoi ((d :: ds).map digitByte) = spelled (d :: ds) := by
  rw [atoi, sign_digitBytes ds (h d List.mem_cons_self),
    digits_digitBytes (d :: ds) 0 h]
  exact Int.one_mul _

theorem atoi_twoDigits {n : Nat} (h : n < 100) : atoi (twoDigits n) = n := by
  have hdigits : forall e, e ∈ [n / 10, n % 10] -> e < 10 := by
    simp only [List.mem_cons, List.not_mem_nil, or_false]
    omega
  rw [twoDigits, atoi_digitBytes hdigits]
  simp only [spelled, List.foldl_cons, List.foldl_nil]
  omega

theorem atoi_fourDigits {n : Nat} (h : n < 10000) :
    atoi (fourDigits n) = n := by
  have hdigits : forall e,
      e ∈ [n / 1000, n / 100 % 10, n / 10 % 10, n % 10] -> e < 10 := by
    simp only [List.mem_cons, List.not_mem_nil, or_false]
    omega
  rw [fourDigits, atoi_digitBytes hdigits]
  simp only [spelled, List.foldl_cons, List.foldl_nil]
  omega

theorem strtod_fraction {ds : List Nat} (h : forall d, d ∈ ds -> d < 10) :
    strtod (0x2e :: ds.map digitByte) =
      mkRat (spelled ds) (10 ^ ds.length) := by
  have hsign : Foundation.sign (0x2e :: ds.map digitByte) =
      (1, 0x2e :: ds.map digitByte) := rfl
  have hwhole : digits 0 (0x2e :: ds.map digitByte) =
      (0, 0x2e :: ds.map digitByte) := rfl
  have hfraction : fractionPart (0x2e :: ds.map digitByte) =
      (mkRat (spelled ds) (10 ^ ds.length), []) := by
    rw [fractionPart, digits_digitBytes ds 0 h, List.length_map]
    rfl
  have hexponent : powerOfTen (exponentPart []) = 1 := rfl
  unfold strtod
  rw [hsign, hwhole]
  dsimp only
  rw [hfraction, hexponent]
  simp

/-!
## The parse of a date
-/

variable {env : Rule -> Parser Nat Action} {A B : Kept Nat -> Prop}
variable {r gap : List UInt8}

/-- A number of the grammar and its semantic value. -/
theorem succeeds_numeral {p : Grammar} {v : List UInt8}
    (h : captures v p = true) :
    Succeeds env (Grammar.numeral p) A (v ++ r) r [Action.atoi v]
      (TextIs v) :=
  succeeds_seq (succeeds_of_captures p h) (succeeds_act Action.atoi v)

theorem succeeds_digit {d : Nat} (h : d < 10) :
    Succeeds env Grammar.digit A (digitByte d :: r) r [] A := by
  apply succeeds_cls
  revert d
  decide

theorem succeeds_year {n : Nat} (h : n < 10000) :
    Succeeds env Grammar.year A (fourDigits n ++ r) r
      [Action.atoi (fourDigits n)] (TextIs (fourDigits n)) := by
  have hdigits : Succeeds env (Grammar.seqs Grammar.digit
      [Grammar.digit, Grammar.digit, Grammar.digit]) Anything
      (fourDigits n ++ r) r [] Anything :=
    succeeds_seq (succeeds_digit (by omega))
      (succeeds_seq (succeeds_digit (Nat.mod_lt _ (by decide)))
        (succeeds_seq (succeeds_digit (Nat.mod_lt _ (by decide)))
          (succeeds_digit (Nat.mod_lt _ (by decide)))))
  exact succeeds_seq (succeeds_capture hdigits) (succeeds_act Action.atoi _)

theorem succeeds_month {n : Nat} (h : n < 13) (hpos : 1 <= n) :
    Succeeds env Grammar.month A (twoDigits n ++ r) r
      [Action.atoi (twoDigits n)] (TextIs (twoDigits n)) := by
  apply succeeds_numeral
  revert n
  decide

theorem succeeds_day {n : Nat} (h : n < 32) (hpos : 1 <= n) :
    Succeeds env Grammar.day A (twoDigits n ++ r) r
      [Action.atoi (twoDigits n)] (TextIs (twoDigits n)) := by
  apply succeeds_numeral
  revert n
  decide

theorem succeeds_hour {n : Nat} (h : n < 24) :
    Succeeds env Grammar.hour A (twoDigits n ++ r) r
      [Action.atoi (twoDigits n)] (TextIs (twoDigits n)) := by
  apply succeeds_numeral
  revert n
  decide

theorem succeeds_minute {n : Nat} (h : n < 60) :
    Succeeds env Grammar.minute A (twoDigits n ++ r) r
      [Action.atoi (twoDigits n)] (TextIs (twoDigits n)) := by
  apply succeeds_numeral
  revert n
  decide

theorem succeeds_second {n : Nat} (h : n < 61) :
    Succeeds env Grammar.second A (twoDigits n ++ r) r
      [Action.atoi (twoDigits n)] (TextIs (twoDigits n)) := by
  apply succeeds_numeral
  revert n
  decide

/-- The rest does not go on with a fraction or with its digits. -/
def NoFraction (r : List UInt8) : Prop :=
  forall b, r.head? = some b -> b ≠ 0x2e ∧ isDigit b = false

namespace DateTime

/-- The texts that the actions of a date see: the offset is looked at for its
sign where the minute was captured. -/
def rfc3339 (t : DateTime) : Rfc3339 where
  year := fourDigits t.year
  month := twoDigits t.month
  day := twoDigits t.day
  hour := twoDigits t.hour
  minute := twoDigits t.minute
  second := twoDigits t.second
  secondFrac :=
    match t.fraction with
    | [] => none
    | ds => some (0x2e :: ds.map digitByte)
  offset :=
    match t.offset with
    | Offset.zulu => none
    | Offset.signed _ hour minute _ _ =>
        some (twoDigits hour, twoDigits minute, twoDigits minute)

end DateTime

variable (t : DateTime)

theorem succeeds_secondFrac (hr : NoFraction r) :
    Succeeds env (Peg.opt Grammar.secondFrac) A (t.fractionText ++ r) r
      (secondFracActions t.rfc3339.secondFrac) Anything := by
  unfold DateTime.fractionText DateTime.rfc3339
  have hlt := t.fraction_lt
  match t.fraction, hlt with
  | [], _ =>
      apply succeeds_opt_none
      apply fails_seq_left
      apply fails_capture
      apply fails_seq_left
      cases r with
      | nil => exact fails_lit (by decide)
      | cons b rest => exact fails_token (by decide) (hr b rfl).1.symm
  | d :: ds, hlt =>
      have hdigits : Succeeds env Grammar.decimal Anything
          ((0x2e :: (d :: ds).map digitByte) ++ r) r [] Anything := by
        apply succeeds_seq (succeeds_token (A := Anything) (by decide))
        apply succeeds_seq (succeeds_digit (hlt d List.mem_cons_self))
        apply succeeds_star_members
        · intro b hb
          rcases List.mem_map.mp hb with ⟨e, he, rfl⟩
          exact isDigit_digitByte e (hlt e (List.mem_cons_of_mem d he))
        · exact fun b hb => (hr b hb).2
      exact (succeeds_opt_some (succeeds_seq (succeeds_capture hdigits)
        (succeeds_act Action.addSecondFrac _))).anything

theorem noFraction_offset (r : List UInt8) :
    NoFraction (t.offset.text ++ r) := by
  intro b hb
  cases hoffset : t.offset with
  | zulu =>
      rw [hoffset] at hb
      cases hb
      decide
  | signed negative hour minute hhour hminute =>
      rw [hoffset] at hb
      cases negative <;> cases hb <;> decide

theorem succeeds_timeoffset :
    Succeeds env Grammar.timeoffset A (t.offset.text ++ r) r
      ([Action.yyPush 2] ++ offsetActions t.rfc3339.offset ++
        [Action.yyPop 2]) Anything := by
  unfold DateTime.rfc3339
  cases t.offset with
  | zulu =>
      have hzulu : Succeeds env (Grammar.seqs (Grammar.token "Z")
          [Grammar.act Action.updateOffsetZ]) A (ascii "Z" ++ r) r
          [Action.updateOffsetZ] A :=
        succeeds_seq (succeeds_lit (ascii "Z")) (succeeds_act_const _)
      exact (succeeds_seq (succeeds_act_const _)
        (succeeds_seq (succeeds_alt_left hzulu)
          (succeeds_act_const _))).anything
  | signed negative hour minute hhour hminute =>
      have hsign : forall r, Succeeds env Grammar.sign Anything
          ([if negative then 0x2d else 0x2b] ++ r) r [] Anything := by
        intro r
        apply succeeds_of_takes
        cases negative <;> decide
      have hnumbers := succeeds_seq (A := Anything)
        (succeeds_capture (hsign (twoDigits hour ++ (twoDigits minute ++ r))))
        (succeeds_seq (succeeds_hour hhour)
          (succeeds_seq (succeeds_act_const (Action.yySet 2))
            (succeeds_seq (succeeds_minute hminute)
              (succeeds_seq (succeeds_act_const (Action.yySet 1))
                (succeeds_act Action.updateOffset _)))))
      have htext : (Offset.signed negative hour minute hhour hminute).text ++
          r = [if negative then 0x2d else 0x2b] ++
            (twoDigits hour ++ (twoDigits minute ++ r)) := by
        simp [Offset.text]
      rw [htext]
      apply succeeds_seq (succeeds_act_const (A := A) (Action.yyPush 2))
      refine succeeds_seq (succeeds_alt_right ?_ hnumbers.anything)
        (succeeds_act_const _)
      apply fails_of_rejects
      cases negative <;> decide

theorem succeeds_fulldate :
    Succeeds env Grammar.fulldate A
      (fourDigits t.year ++ (0x2d :: (twoDigits t.month ++
        (0x2d :: (twoDigits t.day ++ r))))) r
      [Action.yyPush 3, Action.atoi (fourDigits t.year), Action.yySet 3,
        Action.atoi (twoDigits t.month), Action.yySet 2,
        Action.atoi (twoDigits t.day), Action.yySet 1, Action.updateDate,
        Action.yyPop 3] Anything := by
  exact (succeeds_seq (succeeds_act_const _)
    (succeeds_seq (succeeds_year t.year_lt)
      (succeeds_seq (succeeds_act_const _)
        (succeeds_seq (succeeds_token (by decide))
          (succeeds_seq (succeeds_month (Nat.lt_succ_of_le t.month_le)
              t.month_pos)
            (succeeds_seq (succeeds_act_const _)
              (succeeds_seq (succeeds_token (by decide))
                (succeeds_seq (succeeds_day t.day_lt t.day_pos)
                  (succeeds_seq (succeeds_act_const _)
                    (succeeds_seq (succeeds_act_const _)
                      (succeeds_act_const _))))))))))).anything

theorem succeeds_partialtime (hr : NoFraction r) :
    Succeeds env Grammar.partialtime A
      (twoDigits t.hour ++ (0x3a :: (twoDigits t.minute ++
        (0x3a :: (twoDigits t.second ++ (t.fractionText ++ r)))))) r
      ([Action.yyPush 3, Action.atoi (twoDigits t.hour), Action.yySet 3,
        Action.atoi (twoDigits t.minute), Action.yySet 2,
        Action.atoi (twoDigits t.second), Action.yySet 1] ++
        secondFracActions t.rfc3339.secondFrac ++
        [Action.updateTime, Action.yyPop 3]) Anything := by
  have htime : Succeeds env Grammar.partialtime A _ _ _ _ := succeeds_seq
    (succeeds_act_const (Action.yyPush 3))
    (succeeds_seq (succeeds_hour t.hour_lt)
      (succeeds_seq (succeeds_act_const (Action.yySet 3))
        (succeeds_seq (succeeds_token (s := ":") (d := 0x3a) (by decide))
          (succeeds_seq (succeeds_minute t.minute_lt)
            (succeeds_seq (succeeds_act_const (Action.yySet 2))
              (succeeds_seq (succeeds_token (s := ":") (d := 0x3a) (by decide))
                (succeeds_seq (succeeds_second (Nat.lt_succ_of_le t.second_le))
                  (succeeds_seq (succeeds_act_const (Action.yySet 1))
                    (succeeds_seq (succeeds_secondFrac t hr)
                      (succeeds_seq (succeeds_act_const Action.updateTime)
                        (succeeds_act_const (Action.yyPop 3))))))))))))
  exact Succeeds.actions_eq htime (by simp)

theorem succeeds_rfc3339 :
    Succeeds env Grammar.rfc3339 A (t.text ++ r) r t.rfc3339.actions
      Anything := by
  have hdate : Succeeds env Grammar.rfc3339 A _ _ _ _ := succeeds_seq
    (succeeds_fulldate t)
    (succeeds_seq (succeeds_token (s := "T") (d := 0x54) (by decide))
      (succeeds_seq (succeeds_partialtime t (noFraction_offset t r))
        (succeeds_timeoffset t)))
  have htext : t.text ++ r = fourDigits t.year ++ (0x2d ::
      (twoDigits t.month ++ (0x2d :: (twoDigits t.day ++ (0x54 ::
        (twoDigits t.hour ++ (0x3a :: (twoDigits t.minute ++ (0x3a ::
          (twoDigits t.second ++ (t.fractionText ++
            (t.offset.text ++ r)))))))))))) := by
    simp [DateTime.text]
  rw [htext]
  exact Succeeds.actions_eq hdate (by simp [Rfc3339.actions, DateTime.rfc3339])

/-!
## The test
-/

/-- A test that compares the timestamp with a date. -/
structure TimestampTest where
  relation : Relation
  quote : Quote
  time : DateTime
  before : List UInt8
  before_gap : Gap before
  behind : List UInt8
  behind_gap : Gap behind

namespace TimestampTest

def source (test : TimestampTest) : List UInt8 :=
  ascii "Timestamp" ++ (test.before ++ (ascii test.relation.text ++
    (test.behind ++ (test.quote.byte ::
      (test.time.text ++ [test.quote.byte])))))

def form (test : TimestampTest) : TestForm :=
  TestForm.timestamp
    ⟨[Action.setOp test.relation.op], by
      rw [List.forall_mem_singleton]
      cases test.relation <;> rfl⟩
    (some test.time.rfc3339)

end TimestampTest

variable (test : TimestampTest)

theorem succeeds_tsQuoted (quote : Quote) :
    Succeeds env Grammar.tsQuoted A (quote.byte :: (t.text ++ [quote.byte])) []
      t.rfc3339.actions Anything := by
  have hquoted : forall {s : String} {A : Kept Nat -> Prop},
      ascii s = [quote.byte] -> Succeeds env
        (Grammar.seqs (Grammar.token s) [Grammar.rfc3339, Grammar.token s]) A
        (quote.byte :: (t.text ++ [quote.byte])) [] t.rfc3339.actions
        Anything := by
    intro s A hs
    have hdate : Succeeds env (Grammar.seqs (Grammar.token s)
        [Grammar.rfc3339, Grammar.token s]) A _ _ _ _ :=
      succeeds_seq (succeeds_token hs)
        (succeeds_seq (succeeds_rfc3339 t) (succeeds_token (r := []) hs))
    exact Succeeds.actions_eq hdate (by simp)
  cases quote with
  | double => exact succeeds_alt_left (hquoted (by decide))
  | single =>
      exact succeeds_alt_right
        (fails_seq_left (fails_token (d := 0x22) (by decide) (by decide)))
        (hquoted (by decide))

theorem succeeds_timestamp :
    Succeeds env Grammar.timestamp A test.source [] test.form.body
      Anything := by
  have hrelation : NoSpace (ascii test.relation.text ++ (test.behind ++
      (test.quote.byte :: (test.time.text ++ [test.quote.byte])))) := by
    cases test.relation <;> exact noSpace_cons (by decide)
  have hvalue : forall A : Kept Nat -> Prop, Succeeds env
      (Grammar.alts Grammar.numericValue [Grammar.tsQuoted]) A
      (test.quote.byte :: (test.time.text ++ [test.quote.byte])) []
      test.time.rfc3339.actions Anything :=
    fun _ => succeeds_alt_right (fails_numericValue test.quote)
      (succeeds_tsQuoted test.time test.quote)
  have htest : Succeeds env Grammar.timestamp A _ _ _ _ := succeeds_seq
    (succeeds_lit (ascii "Timestamp"))
    (succeeds_seq (succeeds_sp test.before_gap hrelation)
      (succeeds_seq
        (succeeds_relational test.relation test.behind_gap
          (noSpace_quote test.quote)
          (noEquals_gap test.behind_gap (noEquals_quote test.quote)))
        (succeeds_seq (succeeds_sp_nil (noSpace_quote test.quote))
          (succeeds_seq (hvalue Anything)
            (succeeds_act_const Action.setTimestamp)))))
  exact Succeeds.actions_eq htest
    (by simp [TimestampTest.form, TestForm.body, dateActions])

theorem succeeds_timestampTest :
    Succeeds env Grammar.test Anything test.source [] test.form.actions
      Anything :=
  succeeds_test
    (succeeds_alt_right
      (fails_of_rejects (v := ascii "Timestamp") _ (by decide))
      (succeeds_alt_left (succeeds_timestamp test)))

/-!
## The constant
-/

/-- The seconds that the compiler adds: it takes every offset as one behind
UTC. -/
def Offset.added : Offset -> Int
  | zulu => 0
  | signed _ hour minute _ _ => hour * 3600 + minute * 60

/-- What is added takes the offset back only behind UTC. -/
theorem Offset.added_add_seconds (offset : Offset) :
    offset.added + offset.seconds = 0 <-> offset.seconds <= 0 := by
  cases offset with
  | zulu => decide
  | signed negative hour minute hhour hminute =>
      cases negative with
      | false =>
          rw [added, seconds, if_neg Bool.false_ne_true]
          omega
      | true =>
          rw [added, seconds, if_pos rfl]
          omega

/-- The minute does not start with a sign. -/
theorem twoDigits_head {n : Nat} (h : n < 60) :
    ((twoDigits n).head? == some 0x2d) = false := by
  revert n
  decide

theorem number_addFraction (mn : MatchNodeTmp) :
    (match t.rfc3339.secondFrac with
      | none => mn
      | some text => addToNumber mn (strtod text)).val.number =
    mn.val.number + mkRat (spelled t.fraction) (10 ^ t.fraction.length) := by
  unfold DateTime.rfc3339
  have hlt := t.fraction_lt
  revert hlt
  cases t.fraction with
  | nil =>
      intro _
      simp [spelled, MatchValue.number]
  | cons d ds =>
      intro hlt
      change mn.val.number + strtod (0x2e :: (d :: ds).map digitByte) = _
      rw [strtod_fraction hlt]

theorem number_addOffset (mn : MatchNodeTmp) :
    (match t.rfc3339.offset with
      | none => updateOffset mn false 0 0
      | some (hour, minute, text) =>
          updateOffset mn (text.head? == some 0x2d) (atoi hour)
            (atoi minute)).val.number =
    mn.val.number + t.offset.added := by
  unfold DateTime.rfc3339
  cases t.offset with
  | zulu => rfl
  | signed negative hour minute hhour hminute =>
      dsimp only
      rw [twoDigits_head hminute, atoi_twoDigits (by omega),
        atoi_twoDigits (by omega)]
      change _ + ((_ * 1 : Int) : Rat) = _
      rw [Int.mul_one]
      rfl

theorem number_addTo (mn : MatchNodeTmp) :
    (t.rfc3339.addTo mn).val.number =
      mn.val.number + mkRat (spelled t.fraction) (10 ^ t.fraction.length) +
        t.offset.added := by
  unfold Rfc3339.addTo
  rw [← number_addFraction t mn]
  exact number_addOffset t _

theorem op_addTo (mn : MatchNodeTmp) : (t.rfc3339.addTo mn).op = mn.op := by
  unfold Rfc3339.addTo
  cases t.rfc3339.secondFrac <;> cases t.rfc3339.offset <;> rfl

theorem mktime_rfc3339 : mktime t.rfc3339.tm =
    dayNumber t.year t.month t.day * 86400 + t.hour * 3600 + t.minute * 60 +
      t.second := by
  have hmonth := t.month_le
  have hday : t.day < 100 := by
    have := t.day_lt
    omega
  have hhour := t.hour_lt
  have hminute := t.minute_lt
  have hsecond := t.second_le
  rw [← daysFromCivil_eq_dayNumber t.day t.month_pos t.month_le]
  simp only [mktime, Rfc3339.tm, updateTime, updateDate, DateTime.rfc3339,
    atoi_fourDigits t.year_lt, atoi_twoDigits hday,
    atoi_twoDigits (show t.month < 100 by omega),
    atoi_twoDigits (show t.hour < 100 by omega),
    atoi_twoDigits (show t.minute < 100 by omega),
    atoi_twoDigits (show t.second < 100 by omega), Int.sub_add_cancel]

/-- The node under construction when the date is reached. -/
def relationNode (rel : Relation) : MatchNodeTmp :=
  { initMatchNode with op := rel.op }

theorem node_timestampTest :
    test.form.node 0 0 =
      { test.time.rfc3339.addTo (relationNode test.relation) with
        id := UInt8.ofNat lsbPbTimestamp,
        valType := MatchType.typeNumeric,
        val := MatchValue.d
          (((test.time.rfc3339.addTo
              (relationNode test.relation)).val.number +
            mktime test.time.rfc3339.tm) * 1000000000) } :=
  rfl

/-- The constant of the compiled node. -/
theorem timestamp_compiles :
    exists mm mn, lsbCreateMessageMatcher test.source = some mm ∧
      mm.testNodes = [mn] ∧ mn.fieldId = UInt8.ofNat lsbPbTimestamp ∧
      mn.op = test.relation.op ∧
      mn.val = MatchValue.d ((test.time.instant +
        (test.time.offset.added + test.time.offset.seconds : Int)) *
          1000000000) := by
  have hcompiled : exists mm, lsbCreateMessageMatcher test.source = some mm ∧
      mm.testNodes = [copyNode 0 (test.form.node 0 0)] :=
    compiled_of_succeeds (fun _ _ => succeeds_timestampTest test)
  rcases hcompiled with ⟨mm, hcreate, hnodes⟩
  rw [node_timestampTest] at hnodes
  refine ⟨mm, _, hcreate, hnodes, rfl, ?_, ?_⟩
  · exact op_addTo test.time (relationNode test.relation)
  · dsimp only [copyNode]
    rw [number_addTo, mktime_rfc3339]
    apply congrArg MatchValue.d
    simp only [relationNode, initMatchNode, MatchValue.number,
      DateTime.instant]
    push_cast
    ring

/--
The constant is the instant that the date stands for exactly if the offset is
not ahead of UTC.
-/
theorem timestamp_instant_iff :
    exists mm mn, lsbCreateMessageMatcher test.source = some mm ∧
      mm.testNodes = [mn] ∧ mn.fieldId = UInt8.ofNat lsbPbTimestamp ∧
      mn.op = test.relation.op ∧
      (mn.val = MatchValue.d (test.time.instant * 1000000000) <->
        test.time.offset.seconds <= 0) := by
  rcases timestamp_compiles test with ⟨mm, mn, hcreate, hnodes, hid, hop, hval⟩
  refine ⟨mm, mn, hcreate, hnodes, hid, hop, ?_⟩
  rw [hval, MatchValue.d.injEq, mul_left_inj' (by decide), add_eq_left,
    Rat.intCast_eq_zero_iff]
  exact Offset.added_add_seconds test.time.offset

/-- A date at one hour ahead of UTC. -/
def aheadTest : TimestampTest where
  relation := Relation.eq
  quote := Quote.double
  time :=
    { year := 2016, month := 5, day := 24, hour := 21, minute := 51,
      second := 0, fraction := [], offset := Offset.signed false 1 0
        (by decide) (by decide),
      year_lt := by decide, month_pos := by decide, month_le := by decide,
      day_pos := by decide, day_le := by decide, hour_lt := by decide,
      minute_lt := by decide, second_le := by decide,
      fraction_lt := by decide }
  before := ascii " "
  before_gap := gap_space
  behind := ascii " "
  behind_gap := gap_space

/-- `Timestamp == "2016-05-24T21:51:00+0100"` compiles to an instant that is
two hours late. -/
theorem timestamp_instant_ahead :
    aheadTest.source = ascii "Timestamp == \"2016-05-24T21:51:00+0100\"" ∧
    ¬ forall test : TimestampTest, exists mm mn,
      lsbCreateMessageMatcher test.source = some mm ∧ mm.testNodes = [mn] ∧
        mn.val = MatchValue.d (test.time.instant * 1000000000) := by
  constructor
  · decide
  · intro h
    rcases h aheadTest with ⟨mm, mn, hcreate, hnodes, hval⟩
    rcases timestamp_compiles aheadTest with
      ⟨mm', mn', hcreate', hnodes', -, -, hval'⟩
    rw [hcreate] at hcreate'
    cases hcreate'
    rw [hnodes] at hnodes'
    cases hnodes'
    rw [hval, MatchValue.d.injEq, mul_left_inj' (by decide), left_eq_add,
      Rat.intCast_eq_zero_iff] at hval'
    revert hval'
    decide

end Matcher
end LuaSandbox
