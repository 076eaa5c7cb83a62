import LuaSandbox.Foundation.Computation
import LuaSandbox.Util.EscapeLanguage

/-!
# Unescaping Lua strings

The loop that decodes a C string into an array.  An access outside of the two
arrays, and a position that is no `int`, stop it with errors of their own.
-/

namespace LuaSandbox
namespace Util

open Foundation
open Foundation.Computation (run run_pure run_throw run_bind run_bind_ok
  run_bind_error run_ofFun)

namespace Unescape

/-- What ends the function but its last line. -/
inductive Stop where
  /-- `return NULL` -/
  | null
  /-- a byte outside of an array is accessed -/
  | outOfBounds
  /-- a position is no `int` -/
  | overflow
  | outOfFuel
  deriving DecidableEq

abbrev Decoder (α : Type) : Type := Computation Stop (List UInt8) α

/-- The largest position. -/
def maxInt : Nat := 2147483647

/-- `++x` -/
def increment (x : Nat) : Decoder Nat :=
  if x + 1 <= maxInt then pure (x + 1) else throw Stop.overflow

/-- `s[x]` -/
def source (s : List UInt8) (x : Nat) : Decoder UInt8 :=
  match s[x]? with
  | some c => pure c
  | none => throw Stop.outOfBounds

/-- `d[y] = c` -/
def write (y : Nat) (c : UInt8) : Decoder Unit :=
  Computation.ofFun (fun d =>
    if y < d.length then (Except.ok (), d.set y c)
    else (Except.error Stop.outOfBounds, d))

/-- `d[y++] = c` -/
def writeNext (y : Nat) (c : UInt8) : Decoder Nat := do
  let y' <- increment y
  write y c
  pure y'

/-- The `do` loop over the digits; `turns` is `3 - n`. -/
def decimalLoop (s : List UInt8) : Nat -> Nat -> Nat -> Decoder (Nat × Nat)
  | 0, c, x => pure (c, x)
  | turns + 1, c, x => do
      let digit <- source s x
      let c := 10 * c + (digit.toNat - 0x30)
      let x <- increment x
      if turns = 0 then
        pure (c, x)
      else
        let next <- source s x
        if isDigit next then decimalLoop s turns c x
        else pure (c, x)

/-- The escape behind a backslash, up to its last byte. -/
def escape (s : List UInt8) (x y : Nat) : Decoder (Nat × Nat) := do
  let c <- source s x
  match controlEscape c with
  | some b => do
      let y <- writeNext y b
      pure (x, y)
  | none =>
      if isDigit c then do
        let r <- decimalLoop s 3 0 x
        if 255 < r.1 then throw Stop.null
        else do
          let y <- writeNext y (UInt8.ofNat r.1)
          pure (r.2 - 1, y)
      else if standsForItself c then do
        let y <- writeNext y c
        pure (x, y)
      else throw Stop.null

/-- The `while` loop; the last NUL is written behind it. -/
def unescapeLoop (s : List UInt8) : Nat -> Nat -> Nat -> Decoder Nat
  | 0, _, _ => throw Stop.outOfFuel
  | fuel + 1, x, y => do
      let c <- source s x
      if c = 0 then do
        write y 0
        pure y
      else if c = 0x5c then do
        let x <- increment x
        let r <- escape s x y
        let x <- increment r.1
        unescapeLoop s fuel x r.2
      else do
        let y <- writeNext y c
        let x <- increment x
        unescapeLoop s fuel x y

end Unescape

open Unescape

/-- The result is the new `*dlen`, beside the bytes of `d`. -/
def lsbLuaStringUnescape (d s : Option (List UInt8)) (dlen : Option Nat) :
    Except Stop Nat × Option (List UInt8) :=
  match d, s, dlen with
  | some d, some s, some dlen =>
      match s.idxOf? 0 with
      | none => (Except.error Stop.outOfBounds, some d)
      | some strlen =>
          if dlen <= strlen then
            (Except.error Stop.null, some d)
          else
            let r := run (unescapeLoop s s.length 0 0) d
            (r.1, some r.2)
  | d, _, _ => (Except.error Stop.null, d)

namespace Unescape

/-!
## The two arrays
-/

theorem source_run (p r : List UInt8) (c : UInt8) (d : List UInt8) :
    run (source (p ++ c :: r) p.length) d = (Except.ok c, d) := by
  have hget : (p ++ c :: r)[p.length]? = some c := by
    rw [List.getElem?_append_right (Nat.le_refl _), Nat.sub_self]
    rfl
  unfold source
  rw [hget]
  rfl

theorem write_run (t e : List UInt8) (x b : UInt8) :
    run (write t.length b) (t ++ x :: e) =
      (Except.ok (), t ++ b :: e) := by
  have hlt : t.length < (t ++ x :: e).length := by
    rw [List.length_append]
    exact Nat.lt_add_of_pos_right (Nat.succ_pos _)
  have hset : (t ++ x :: e).set t.length b = t ++ b :: e := by
    rw [List.set_append_right _ _ (Nat.le_refl _), Nat.sub_self]
    rfl
  unfold write
  rw [run_ofFun, if_pos hlt, hset]

theorem increment_run {x : Nat} (h : x + 1 <= maxInt) (d : List UInt8) :
    run (increment x) d = (Except.ok (x + 1), d) := by
  rw [increment, if_pos h, run_pure]

theorem increment_overflow {x : Nat} (h : ¬ x + 1 <= maxInt) (d : List UInt8) :
    run (increment x) d = (Except.error Stop.overflow, d) := by
  rw [increment, if_neg h, run_throw]

theorem writeNext_run (t e : List UInt8) (x b : UInt8)
    (h : t.length + 1 <= maxInt) :
    run (writeNext t.length b) (t ++ x :: e) =
      (Except.ok (t.length + 1), t ++ b :: e) := by
  rw [writeNext, run_bind_ok (increment_run h _),
    run_bind_ok (write_run t e x b), run_pure]

/-!
## The digits of an escape
-/

/-- The loop takes a run of digits, while the position is an `int`. -/
theorem decimalLoop_run (turns : Nat) : forall (p ds rest d : List UInt8)
    (acc : Nat), DigitRun (turns + 1) ds rest ->
      run
          (decimalLoop (p ++ (ds ++ rest) ++ [0]) (turns + 1) acc p.length) d =
        (if p.length + ds.length <= maxInt then
          Except.ok ((digits acc ds).1, p.length + ds.length)
        else Except.error Stop.overflow, d) := by
  induction turns with
  | zero =>
      intro p ds rest d acc hrun
      rcases List.length_eq_one_iff.mp (Nat.le_antisymm hrun.short
        (List.length_pos_iff.mpr hrun.nonempty)) with ⟨b, rfl⟩
      have hb := hrun.digits b List.mem_cons_self
      have hsource : run
          (source (p ++ ([b] ++ rest) ++ [0]) p.length) d =
            (Except.ok b, d) := by
        rw [List.append_assoc]
        exact source_run p (rest ++ [0]) b d
      rw [decimalLoop, run_bind_ok hsource, List.length_singleton]
      by_cases hlt : p.length + 1 <= maxInt
      · rw [run_bind_ok (increment_run hlt d), if_pos rfl,
          if_pos hlt, digits, if_pos hb]
        rfl
      · rw [run_bind_error (increment_overflow hlt d), if_neg hlt]
  | succ turns ih =>
      intro p ds rest d acc hrun
      cases ds with
      | nil => exact absurd rfl hrun.nonempty
      | cons b ds =>
          have hb := hrun.digits b List.mem_cons_self
          have hsource : run
              (source (p ++ (b :: ds ++ rest) ++ [0]) p.length) d =
                (Except.ok b, d) := by
            rw [List.append_assoc]
            exact source_run p (ds ++ rest ++ [0]) b d
          have htext : p ++ (b :: ds ++ rest) ++ [0] =
              p ++ [b] ++ (ds ++ rest) ++ [0] := by
            simp only [List.append_assoc, List.cons_append, List.nil_append]
          have hlength : (p ++ [b]).length = p.length + 1 := by
            rw [List.length_append, List.length_singleton]
          rw [decimalLoop, run_bind_ok hsource]
          by_cases hlt : p.length + 1 <= maxInt
          · rw [run_bind_ok (increment_run hlt d),
              if_neg (Nat.succ_ne_zero turns), htext, <- hlength]
            cases ds with
            | nil =>
                -- the byte behind the run, or the NUL, is no digit
                have hnext : exists c u, rest ++ [0] = c :: u ∧
                    isDigit c = false := by
                  cases rest with
                  | nil => exact ⟨0, [], rfl, rfl⟩
                  | cons c rest =>
                      exact ⟨c, rest ++ [0], rfl, hrun.maximal
                        (Nat.succ_lt_succ (Nat.succ_pos turns)) c rfl⟩
                rcases hnext with ⟨c, u, hu, hc⟩
                rw [List.nil_append, List.append_assoc (p ++ [b]), hu,
                  run_bind_ok (source_run (p ++ [b]) u c d),
                  if_neg (by rw [hc]; exact Bool.false_ne_true),
                  hlength, List.length_singleton, if_pos hlt, digits,
                  if_pos hb]
                rfl
            | cons c ds =>
                have hc := hrun.tail.digits c List.mem_cons_self
                have hnext : run
                    (source (p ++ [b] ++ (c :: ds ++ rest) ++ [0])
                      (p ++ [b]).length) d = (Except.ok c, d) := by
                  rw [List.append_assoc (p ++ [b])]
                  exact source_run (p ++ [b]) (ds ++ rest ++ [0]) c d
                rw [run_bind_ok hnext, if_pos hc,
                  ih (p ++ [b]) (c :: ds) rest d _ hrun.tail, hlength,
                  Nat.add_assoc, Nat.add_comm 1]
                rw [List.length_cons (a := b), digits.eq_2 acc b, if_pos hb]
          · have hover : ¬ p.length + (b :: ds).length <= maxInt :=
              fun hle => hlt (Nat.le_trans
                (Nat.add_le_add_left (Nat.succ_pos ds.length) p.length) hle)
            rw [run_bind_error (increment_overflow hlt d),
              if_neg hover]

/-!
## One escape
-/

theorem escape_letter (p r d : List UInt8) {c b : UInt8} {y : Nat}
    (hletter : letterEscape c = some b) :
    run (escape (p ++ c :: r ++ [0]) p.length y) d =
      run (do
        let y <- writeNext y b
        pure (p.length, y)) d := by
  have hdigit : ¬ isDigit c = true := by
    intro h
    rw [letterEscape_digit h] at hletter
    cases hletter
  rw [List.append_assoc, List.cons_append, escape,
    run_bind_ok (source_run p (r ++ [0]) c d)]
  unfold letterEscape at hletter
  cases hcontrol : controlEscape c with
  | some b' =>
      rw [hcontrol] at hletter
      cases hletter
      rfl
  | none =>
      rw [hcontrol] at hletter
      dsimp only at hletter ⊢
      rw [if_neg hdigit]
      by_cases hself : standsForItself c = true
      · rw [if_pos hself] at hletter ⊢
        cases hletter
        rfl
      · rw [if_neg hself] at hletter
        cases hletter

theorem escape_decimal (p d : List UInt8) {ds rest : List UInt8} {y : Nat}
    (h : DigitRun 3 ds rest) :
    run (escape (p ++ (ds ++ rest) ++ [0]) p.length y) d =
      if p.length + ds.length <= maxInt then
        if 255 < (digits 0 ds).1 then (Except.error Stop.null, d)
        else run (do
          let y <- writeNext y (UInt8.ofNat (digits 0 ds).1)
          pure (p.length + ds.length - 1, y)) d
      else (Except.error Stop.overflow, d) := by
  have hloop := decimalLoop_run 2 p ds rest d 0 h
  rcases h.head with ⟨c, hc, hdigit⟩
  rcases List.head?_eq_some_iff.mp hc with ⟨u, hu⟩
  have hsource : run
      (source (p ++ (ds ++ rest) ++ [0]) p.length) d = (Except.ok c, d) := by
    rw [hu, List.append_assoc, List.cons_append]
    exact source_run p (u ++ [0]) c d
  rw [escape, run_bind_ok hsource, controlEscape_digit hdigit]
  dsimp only
  rw [if_pos hdigit]
  by_cases hle : p.length + ds.length <= maxInt
  · rw [if_pos hle] at hloop ⊢
    rw [run_bind_ok hloop]
    by_cases hvalue : 255 < (digits 0 ds).1
    · rw [if_pos hvalue, if_pos hvalue, run_throw]
    · rw [if_neg hvalue, if_neg hvalue]
  · rw [if_neg hle] at hloop ⊢
    rw [run_bind_error hloop]

/-- An escape is decoded while its end is an `int`. -/
theorem escape_run {q s : List UInt8} {b : UInt8} (he : Escape (q ++ s) b s)
    (p t e : List UInt8) (x : UInt8) (f : Nat -> Nat -> Decoder Nat)
    (ht : t.length + 1 <= maxInt) (hle : p.length + q.length <= maxInt) :
    run (do
        let r <- escape (p ++ (q ++ s) ++ [0]) p.length t.length
        let x <- increment r.1
        f x r.2) (t ++ x :: e) =
      run (f (p.length + q.length) (t.length + 1))
        (t ++ b :: e) := by
  generalize htext : q ++ s = text at he
  cases he with
  | @letter c b rest hletter =>
      have hq : q = [c] := List.append_cancel_right htext
      subst hq
      have hrun := escape_letter p s (t ++ x :: e) (y := t.length) hletter
      rw [run_bind_ok (writeNext_run t e x b ht)] at hrun
      rw [run_bind_ok hrun,
        run_bind_ok (increment_run hle _)]
      rfl
  | @decimal ds rest hrun hvalue =>
      have hq : q = ds := List.append_cancel_right htext
      subst hq
      have hrun' := escape_decimal p (t ++ x :: e) (y := t.length) hrun
      rw [if_pos hle, if_neg (Nat.not_lt.mpr hvalue),
        run_bind_ok (writeNext_run t e x _ ht)] at hrun'
      have hpos : p.length + q.length - 1 + 1 = p.length + q.length :=
        Nat.sub_add_cancel (Nat.le_trans
          (List.length_pos_iff.mpr hrun.nonempty) (Nat.le_add_left _ _))
      rw [run_bind_ok hrun', run_bind_ok
        (increment_run (by rw [hpos]; exact hle) _), hpos]

theorem escape_overflow {q s : List UInt8} {b : UInt8}
    (he : Escape (q ++ s) b s) (p t e : List UInt8) (x : UInt8)
    (f : Nat -> Nat -> Decoder Nat) (ht : t.length + 1 <= maxInt)
    (hle : ¬ p.length + q.length <= maxInt) :
    (run (do
        let r <- escape (p ++ (q ++ s) ++ [0]) p.length t.length
        let x <- increment r.1
        f x r.2) (t ++ x :: e)).1 = Except.error Stop.overflow := by
  generalize htext : q ++ s = text at he
  cases he with
  | @letter c b rest hletter =>
      have hq : q = [c] := List.append_cancel_right htext
      subst hq
      have hrun := escape_letter p s (t ++ x :: e) (y := t.length) hletter
      rw [run_bind_ok (writeNext_run t e x b ht)] at hrun
      rw [run_bind_ok hrun,
        run_bind_error (increment_overflow hle _)]
  | @decimal ds rest hrun hvalue =>
      have hq : q = ds := List.append_cancel_right htext
      subst hq
      have hrun' := escape_decimal p (t ++ x :: e) (y := t.length) hrun
      rw [if_neg hle] at hrun'
      rw [run_bind_error hrun']

/-- A text that is no escape gives `NULL` while its digits are in reach. -/
theorem escape_invalid {r : List UInt8} {m : Nat} (h : Invalid r m)
    (p d : List UInt8) {y : Nat} (hp : p.length <= maxInt) :
    (run (escape (p ++ r ++ [0]) p.length y) d).1 =
      Except.error
        (if p.length + m <= maxInt then Stop.null else Stop.overflow) := by
  cases h with
  | nil =>
      -- the text ends in the backslash
      rw [List.append_nil, escape, run_bind_ok (source_run p [] 0 d),
        Nat.add_zero, if_pos hp]
      rfl
  | @letter c rest hdigit hletter =>
      rw [List.append_assoc, List.cons_append, escape,
        run_bind_ok (source_run p (rest ++ [0]) c d),
        Nat.add_zero, if_pos hp]
      unfold letterEscape at hletter
      cases hcontrol : controlEscape c with
      | some b =>
          rw [hcontrol] at hletter
          cases hletter
      | none =>
          rw [hcontrol] at hletter
          dsimp only at hletter ⊢
          rw [if_neg (by rw [hdigit]; exact Bool.false_ne_true)]
          by_cases hself : standsForItself c = true
          · rw [if_pos hself] at hletter
            cases hletter
          · rw [if_neg hself]
            rfl
  | @decimal ds rest hrun hvalue =>
      rw [escape_decimal p d hrun]
      by_cases hle : p.length + ds.length <= maxInt
      · rw [if_pos hle, if_pos hvalue, if_pos hle]
      · rw [if_neg hle, if_neg hle]

/-!
## One turn of the loop
-/

theorem unescapeLoop_end (p t e : List UInt8) (x : UInt8) (fuel : Nat) :
    run (unescapeLoop (p ++ [0]) (fuel + 1) p.length t.length)
        (t ++ x :: e) =
      (Except.ok t.length, t ++ 0 :: e) := by
  unfold unescapeLoop
  rw [run_bind_ok (source_run p [] 0 _), if_pos rfl,
    run_bind_ok (write_run t e x 0)]
  rfl

section Turn

variable (p r t e : List UInt8) (x : UInt8) (fuel : Nat)

/-- An ordinary byte is copied. -/
theorem unescapeLoop_byte {c : UInt8} (hzero : c ≠ 0) (hc : c ≠ 0x5c)
    (ht : t.length <= p.length) (hp : p.length + 1 <= maxInt) :
    run
        (unescapeLoop (p ++ c :: r ++ [0]) (fuel + 1) p.length t.length)
        (t ++ x :: e) =
      run
        (unescapeLoop (p ++ [c] ++ r ++ [0]) fuel (p ++ [c]).length
          (t ++ [c]).length)
        (t ++ [c] ++ e) := by
  have hsource : run (source (p ++ c :: r ++ [0]) p.length)
      (t ++ x :: e) = (Except.ok c, t ++ x :: e) := by
    rw [List.append_assoc]
    exact source_run p (r ++ [0]) c _
  have ht' : t.length + 1 <= maxInt :=
    Nat.le_trans (Nat.succ_le_succ ht) hp
  rw [unescapeLoop, run_bind_ok hsource, if_neg hzero, if_neg hc,
    run_bind_ok (writeNext_run t e x c ht'),
    run_bind_ok (increment_run hp _)]
  simp only [List.append_assoc, List.singleton_append, List.length_append,
    List.length_singleton]

theorem unescapeLoop_byte_overflow {c : UInt8} (hzero : c ≠ 0)
    (hc : c ≠ 0x5c) (hp : ¬ p.length + 1 <= maxInt) :
    (run
        (unescapeLoop (p ++ c :: r ++ [0]) (fuel + 1) p.length t.length)
        (t ++ x :: e)).1 = Except.error Stop.overflow := by
  have hsource : run (source (p ++ c :: r ++ [0]) p.length)
      (t ++ x :: e) = (Except.ok c, t ++ x :: e) := by
    rw [List.append_assoc]
    exact source_run p (r ++ [0]) c _
  rw [unescapeLoop, run_bind_ok hsource, if_neg hzero, if_neg hc]
  by_cases ht : t.length + 1 <= maxInt
  · rw [run_bind_ok (writeNext_run t e x c ht),
      run_bind_error (increment_overflow hp _)]
  · rw [writeNext, run_bind_error
      (run_bind_error (increment_overflow ht _))]

/-- A backslash leads to what stands behind it. -/
theorem unescapeLoop_backslash :
    run
        (unescapeLoop (p ++ 0x5c :: r ++ [0]) (fuel + 1) p.length t.length)
        (t ++ x :: e) =
      run (do
        let x <- increment p.length
        let next <- escape (p ++ 0x5c :: r ++ [0]) x t.length
        let x <- increment next.1
        unescapeLoop (p ++ 0x5c :: r ++ [0]) fuel x next.2) (t ++ x :: e) := by
  have hsource : run (source (p ++ 0x5c :: r ++ [0]) p.length)
      (t ++ x :: e) = (Except.ok 0x5c, t ++ x :: e) := by
    rw [List.append_assoc]
    exact source_run p (r ++ [0]) 0x5c _
  rw [unescapeLoop, run_bind_ok hsource, if_neg (by decide),
    if_pos rfl]

/-- An escape is replaced by the byte that it denotes. -/
theorem unescapeLoop_escape {q s : List UInt8} {b : UInt8}
    (he : Escape (q ++ s) b s) (ht : t.length <= p.length)
    (hle : p.length + 1 + q.length <= maxInt) :
    run
        (unescapeLoop (p ++ 0x5c :: (q ++ s) ++ [0]) (fuel + 1) p.length
          t.length)
        (t ++ x :: e) =
      run
        (unescapeLoop (p ++ 0x5c :: q ++ s ++ [0]) fuel
          (p ++ 0x5c :: q).length (t ++ [b]).length)
        (t ++ [b] ++ e) := by
  have hp : p.length + 1 <= maxInt := Nat.le_trans (Nat.le_add_right _ _) hle
  have hlength : (p ++ [0x5c]).length = p.length + 1 := by
    rw [List.length_append, List.length_singleton]
  have htext : p ++ 0x5c :: (q ++ s) ++ [0] =
      p ++ [0x5c] ++ (q ++ s) ++ [0] := by
    simp only [List.append_assoc, List.cons_append, List.nil_append]
  have hrun := escape_run he (p ++ [0x5c]) t e x
    (unescapeLoop (p ++ 0x5c :: (q ++ s) ++ [0]) fuel)
    (Nat.le_trans (Nat.succ_le_succ ht) hp) (by rw [hlength]; exact hle)
  rw [hlength, <- htext] at hrun
  rw [unescapeLoop_backslash, run_bind_ok (increment_run hp _),
    hrun]
  simp only [List.append_assoc, List.cons_append, List.nil_append,
    List.length_append, List.length_cons, List.length_nil, Nat.add_assoc,
    Nat.add_comm 1, Nat.zero_add]

theorem unescapeLoop_escape_overflow {q s : List UInt8} {b : UInt8}
    (he : Escape (q ++ s) b s) (ht : t.length <= p.length)
    (hle : ¬ p.length + 1 + q.length <= maxInt) :
    (run
        (unescapeLoop (p ++ 0x5c :: (q ++ s) ++ [0]) (fuel + 1) p.length
          t.length)
        (t ++ x :: e)).1 = Except.error Stop.overflow := by
  have hlength : (p ++ [0x5c]).length = p.length + 1 := by
    rw [List.length_append, List.length_singleton]
  have htext : p ++ 0x5c :: (q ++ s) ++ [0] =
      p ++ [0x5c] ++ (q ++ s) ++ [0] := by
    simp only [List.append_assoc, List.cons_append, List.nil_append]
  rw [unescapeLoop_backslash]
  by_cases hp : p.length + 1 <= maxInt
  · have hrun := escape_overflow he (p ++ [0x5c]) t e x
      (unescapeLoop (p ++ 0x5c :: (q ++ s) ++ [0]) fuel)
      (Nat.le_trans (Nat.succ_le_succ ht) hp) (by rw [hlength]; exact hle)
    rw [hlength, <- htext] at hrun
    rw [run_bind_ok (increment_run hp _), hrun]
  · rw [run_bind_error (increment_overflow hp _)]

/-- An invalid escape gives `NULL` while its digits are in reach. -/
theorem unescapeLoop_invalid {m : Nat} (h : Invalid r m) :
    (run
        (unescapeLoop (p ++ 0x5c :: r ++ [0]) (fuel + 1) p.length t.length)
        (t ++ x :: e)).1 =
      Except.error
        (if p.length + 1 + m <= maxInt then Stop.null
        else Stop.overflow) := by
  have hlength : (p ++ [0x5c]).length = p.length + 1 := by
    rw [List.length_append, List.length_singleton]
  have htext : p ++ 0x5c :: r ++ [0] = p ++ [0x5c] ++ r ++ [0] := by
    simp only [List.append_assoc, List.cons_append, List.nil_append]
  rw [unescapeLoop_backslash]
  by_cases hp : p.length + 1 <= maxInt
  · have hrun := escape_invalid h (p ++ [0x5c]) (t ++ x :: e) (y := t.length)
      (by rw [hlength]; exact hp)
    rw [hlength, <- htext] at hrun
    rw [run_bind_ok (increment_run hp _), run_bind]
    generalize run _ _ = o at hrun ⊢
    rcases o with ⟨result, d⟩
    change result = _ at hrun
    rw [hrun]
  · rw [run_bind_error (increment_overflow hp _),
      if_neg (fun hle => hp (Nat.le_trans (Nat.le_add_right _ _) hle))]

end Turn

/-!
## The whole text
-/

/-- The result behind one byte more. -/
theorem decoded_cons (t u e : List UInt8) (b x : UInt8) :
    ((Except.ok ((t ++ [b]).length + u.length),
        t ++ [b] ++ u ++ 0 :: e.drop (u.length + 1)) :
        Except Stop Nat × List UInt8) =
      (Except.ok (t.length + (b :: u).length),
        t ++ b :: u ++ 0 :: (x :: e).drop ((b :: u).length + 1)) := by
  have hlength : (t ++ [b]).length + u.length =
      t.length + (b :: u).length := by
    rw [List.length_append, List.length_singleton, List.length_cons,
      Nat.add_assoc, Nat.add_comm 1]
  rw [hlength, List.append_assoc t, List.singleton_append]
  rfl

/-- Both positions move on, the one in the source by one byte at least. -/
theorem length_le_of_unit {p t q : List UInt8} (b c : UInt8)
    (ht : t.length <= p.length) :
    (t ++ [b]).length <= (p ++ c :: q).length := by
  rw [List.length_append, List.length_append, List.length_singleton,
    List.length_cons]
  exact Nat.add_le_add ht (Nat.succ_pos _)

/-- A text that splits is decoded behind what is decoded before. -/
theorem unescapeLoop_decodes {r u : List UInt8} (h : Unescapes r u) :
    forall (p t e : List UInt8) (fuel : Nat), 0 ∉ r ->
      t.length <= p.length -> p.length + r.length <= maxInt ->
      r.length < e.length -> r.length < fuel ->
      run (unescapeLoop (p ++ r ++ [0]) fuel p.length t.length)
          (t ++ e) =
        (Except.ok (t.length + u.length),
          t ++ u ++ 0 :: e.drop (u.length + 1)) := by
  induction h with
  | nil =>
      intro p t e fuel hr ht hp he hfuel
      cases e with
      | nil => exact absurd he (Nat.lt_irrefl 0)
      | cons x e =>
          cases fuel with
          | zero => exact absurd hfuel (Nat.lt_irrefl 0)
          | succ fuel =>
              rw [List.append_nil, unescapeLoop_end, List.append_nil]
              rfl
  | @byte c r u hc h ih =>
      intro p t e fuel hr ht hp he hfuel
      rw [List.length_cons] at hp he hfuel
      cases e with
      | nil => exact absurd he (Nat.not_lt_zero _)
      | cons x e =>
          cases fuel with
          | zero => exact absurd hfuel (Nat.not_lt_zero _)
          | succ fuel =>
              have hzero : c ≠ 0 := fun hz => hr (hz ▸ List.mem_cons_self)
              have htail : 0 ∉ r := fun hz => hr (List.mem_cons_of_mem c hz)
              have hp' : (p ++ [c]).length + r.length <= maxInt := by
                rw [List.length_append, List.length_singleton]
                omega
              rw [unescapeLoop_byte p r t e x fuel hzero hc ht (by omega),
                ih (p ++ [c]) (t ++ [c]) e fuel htail
                  (length_le_of_unit c c ht) hp'
                  (Nat.lt_of_succ_lt_succ he)
                  (Nat.lt_of_succ_lt_succ hfuel)]
              exact decoded_cons t u e c x
  | @escape b r s u hesc h ih =>
      intro p t e fuel hr ht hp he hfuel
      rcases hesc.split with ⟨q, rfl⟩
      rw [List.length_cons, List.length_append] at hp he hfuel
      cases e with
      | nil => exact absurd he (Nat.not_lt_zero _)
      | cons x e =>
          cases fuel with
          | zero => exact absurd hfuel (Nat.not_lt_zero _)
          | succ fuel =>
              rw [List.length_cons] at he
              have hs : 0 ∉ s := fun hz =>
                hr (List.mem_cons_of_mem _ (List.mem_append_right q hz))
              have hp' : (p ++ 0x5c :: q).length + s.length <= maxInt := by
                rw [List.length_append, List.length_cons]
                omega
              rw [unescapeLoop_escape p t e x fuel hesc ht (by omega),
                ih (p ++ 0x5c :: q) (t ++ [b]) e fuel hs
                  (length_le_of_unit b 0x5c ht) hp' (by omega) (by omega)]
              exact decoded_cons t u e b x

/-- A text that is rejected gives `NULL`. -/
theorem unescapeLoop_rejects {n : Nat} {r : List UInt8}
    (h : RejectedWithin n r) : forall (p t e : List UInt8) (fuel : Nat),
      0 ∉ r -> t.length <= p.length -> p.length + n <= maxInt ->
      r.length < e.length -> r.length < fuel ->
      (run (unescapeLoop (p ++ r ++ [0]) fuel p.length t.length)
        (t ++ e)).1 = Except.error Stop.null := by
  induction h with
  | @byte n c r hc h ih =>
      intro p t e fuel hr ht hp he hfuel
      rw [List.length_cons] at he hfuel
      cases e with
      | nil => exact absurd he (Nat.not_lt_zero _)
      | cons x e =>
          cases fuel with
          | zero => exact absurd hfuel (Nat.not_lt_zero _)
          | succ fuel =>
              have hzero : c ≠ 0 := fun hz => hr (hz ▸ List.mem_cons_self)
              have htail : 0 ∉ r := fun hz => hr (List.mem_cons_of_mem c hz)
              have hp' : (p ++ [c]).length + n <= maxInt := by
                rw [List.length_append, List.length_singleton]
                omega
              rw [unescapeLoop_byte p r t e x fuel hzero hc ht (by omega)]
              exact ih (p ++ [c]) (t ++ [c]) e fuel htail
                (length_le_of_unit c c ht) hp' (Nat.lt_of_succ_lt_succ he)
                (Nat.lt_of_succ_lt_succ hfuel)
  | @escape n b q s hesc h ih =>
      intro p t e fuel hr ht hp he hfuel
      rw [List.length_cons, List.length_append] at he hfuel
      cases e with
      | nil => exact absurd he (Nat.not_lt_zero _)
      | cons x e =>
          cases fuel with
          | zero => exact absurd hfuel (Nat.not_lt_zero _)
          | succ fuel =>
              rw [List.length_cons] at he
              have hs : 0 ∉ s := fun hz =>
                hr (List.mem_cons_of_mem _ (List.mem_append_right q hz))
              have hp' : (p ++ 0x5c :: q).length + n <= maxInt := by
                rw [List.length_append, List.length_cons]
                omega
              rw [unescapeLoop_escape p t e x fuel hesc ht (by omega)]
              exact ih (p ++ 0x5c :: q) (t ++ [b]) e fuel hs
                (length_le_of_unit b 0x5c ht) hp' (by omega) (by omega)
  | @invalid n m r h hm =>
      intro p t e fuel hr ht hp he hfuel
      cases e with
      | nil => exact absurd he (Nat.not_lt_zero _)
      | cons x e =>
          cases fuel with
          | zero => exact absurd hfuel (Nat.not_lt_zero _)
          | succ fuel =>
              rw [unescapeLoop_invalid p r t e x fuel h, if_pos (by omega)]

/-- Of any other text the scan leaves the positions; `n` of them are left. -/
theorem unescapeLoop_overflows (k : Nat) : forall (n fuel : Nat)
    (r p t e : List UInt8), r.length <= k -> 0 ∉ r ->
      t.length <= p.length -> p.length + n = maxInt ->
      r.length < e.length -> r.length < fuel ->
      ¬ r.length <= n -> ¬ RejectedWithin n r ->
      (run (unescapeLoop (p ++ r ++ [0]) fuel p.length t.length)
        (t ++ e)).1 = Except.error Stop.overflow := by
  induction k with
  | zero =>
      intro n fuel r p t e hk hr ht hp he hfuel hlong hreject
      exact absurd (Nat.le_trans hk (Nat.zero_le n)) hlong
  | succ k ih =>
      intro n fuel r p t e hk hr ht hp he hfuel hlong hreject
      cases r with
      | nil => exact absurd (Nat.zero_le n) hlong
      | cons c r =>
          have htail : 0 ∉ r := fun hz => hr (List.mem_cons_of_mem c hz)
          rw [List.length_cons] at hk he hfuel hlong
          cases e with
          | nil => exact absurd he (Nat.not_lt_zero _)
          | cons x e =>
              rw [List.length_cons] at he
              cases fuel with
              | zero => exact absurd hfuel (Nat.not_lt_zero _)
              | succ fuel =>
                  by_cases hc : c = 0x5c
                  · subst hc
                    rcases escape_or_invalid r with
                      ⟨b, q, s, rfl, hesc⟩ | ⟨m, hm⟩
                    · rw [List.length_append] at hk he hfuel hlong
                      have hs : 0 ∉ s := fun hz =>
                        htail (List.mem_append_right q hz)
                      by_cases hle : p.length + 1 + q.length <= maxInt
                      · rw [unescapeLoop_escape p t e x fuel hesc ht hle]
                        refine ih (n - q.length - 1) fuel s (p ++ 0x5c :: q)
                          (t ++ [b]) e (by omega) hs
                          (length_le_of_unit b 0x5c ht) ?_ (by omega)
                          (by omega) (by omega) ?_
                        · rw [List.length_append, List.length_cons]
                          omega
                        · intro h
                          apply hreject
                          have hrest := RejectedWithin.escape hesc h
                          have hn : n - q.length - 1 + q.length + 1 = n := by
                            omega
                          rwa [hn] at hrest
                      · exact unescapeLoop_escape_overflow p t e x fuel hesc
                          ht hle
                    · have hover : ¬ p.length + 1 + m <= maxInt := by
                        intro hle
                        exact hreject
                          (RejectedWithin.invalid hm (by omega))
                      rw [unescapeLoop_invalid p r t e x fuel hm,
                        if_neg hover]
                  · have hzero : c ≠ 0 :=
                      fun hz => hr (hz ▸ List.mem_cons_self)
                    cases n with
                    | zero =>
                        exact unescapeLoop_byte_overflow p r t e x fuel hzero
                          hc (by omega)
                    | succ n =>
                        rw [unescapeLoop_byte p r t e x fuel hzero hc ht
                          (by omega)]
                        refine ih n fuel r (p ++ [c]) (t ++ [c]) e (by omega)
                          htail (length_le_of_unit c c ht) ?_ (by omega)
                          (by omega) (by omega) ?_
                        · rw [List.length_append, List.length_singleton]
                          omega
                        · exact fun h => hreject (RejectedWithin.byte hc h)

end Unescape

theorem strlen_append {s : List UInt8} (hs : 0 ∉ s) :
    (s ++ [0]).idxOf? 0 = some s.length := by
  induction s with
  | nil => rfl
  | cons c s ih =>
      have hc : (c == 0) = false :=
        beq_false_of_ne (fun hz => hs (hz ▸ List.mem_cons_self))
      rw [List.cons_append, List.idxOf?_cons, hc,
        ih (fun hz => hs (List.mem_cons_of_mem c hz))]
      rfl

/-- The call on a C string, the destination one byte larger at least. -/
theorem lsbLuaStringUnescape_loop {s d : List UInt8} (hs : 0 ∉ s)
    (hd : s.length < d.length) :
    lsbLuaStringUnescape (some d) (some (s ++ [0])) (some d.length) =
      ((run (unescapeLoop ([] ++ s ++ [0]) (s.length + 1)
          ([] : List UInt8).length ([] : List UInt8).length) ([] ++ d)).1,
        some (run (unescapeLoop ([] ++ s ++ [0]) (s.length + 1)
          ([] : List UInt8).length ([] : List UInt8).length) ([] ++ d)).2) := by
  unfold lsbLuaStringUnescape
  dsimp only
  rw [strlen_append hs]
  dsimp only
  rw [if_neg (Nat.not_le.mpr hd), List.length_append]
  rfl

/-- Exactly the texts that split are decoded, into what they denote with a NUL
behind it; no access is outside of the source with its NUL or of the
destination. -/
structure DecodesExactly (s d : List UInt8)
    (r : Except Stop Nat × Option (List UInt8)) : Prop where
  result : (exists n, r.1 = Except.ok n) <-> exists t, Unescapes s t
  text : forall t, Unescapes s t ->
    r = (Except.ok t.length, some (t ++ 0 :: d.drop (t.length + 1)))
  inBounds : r.1 ≠ Except.error Stop.outOfBounds
  noOverflow : r.1 ≠ Except.error Stop.overflow
  ends : r.1 ≠ Except.error Stop.outOfFuel

section

variable {s d : List UInt8}

theorem lsbLuaStringUnescape_unescapes {t : List UInt8} (ht : Unescapes s t)
    (hs : 0 ∉ s) (hd : s.length < d.length) (hlength : s.length <= maxInt) :
    lsbLuaStringUnescape (some d) (some (s ++ [0])) (some d.length) =
      (Except.ok t.length, some (t ++ 0 :: d.drop (t.length + 1))) := by
  have hrun := unescapeLoop_decodes ht [] [] d (s.length + 1) hs
    (Nat.le_refl 0) (by rw [List.length_nil, Nat.zero_add]; exact hlength) hd
    (Nat.lt_succ_self _)
  rw [lsbLuaStringUnescape_loop hs hd, hrun, List.nil_append, List.length_nil,
    Nat.zero_add]

theorem lsbLuaStringUnescape_rejects (h : RejectedWithin maxInt s)
    (hs : 0 ∉ s) (hd : s.length < d.length) :
    (lsbLuaStringUnescape (some d) (some (s ++ [0])) (some d.length)).1 =
      Except.error Stop.null := by
  rw [lsbLuaStringUnescape_loop hs hd]
  exact unescapeLoop_rejects h [] [] d (s.length + 1) hs (Nat.le_refl 0)
    (Nat.le_of_eq (Nat.zero_add _)) hd (Nat.lt_succ_self _)

theorem lsbLuaStringUnescape_overflows (hlong : ¬ s.length <= maxInt)
    (h : ¬ RejectedWithin maxInt s) (hs : 0 ∉ s) (hd : s.length < d.length) :
    (lsbLuaStringUnescape (some d) (some (s ++ [0])) (some d.length)).1 =
      Except.error Stop.overflow := by
  rw [lsbLuaStringUnescape_loop hs hd]
  exact unescapeLoop_overflows s.length maxInt (s.length + 1) s [] [] d
    (Nat.le_refl _) hs (Nat.le_refl 0) (Nat.zero_add _) hd
    (Nat.lt_succ_self _) hlong h

theorem DecodesExactly.of_rejected
    {r : Except Stop Nat × Option (List UInt8)}
    (hr : r.1 = Except.error Stop.null) (h : forall t, ¬ Unescapes s t) :
    DecodesExactly s d r where
  result := by
    constructor
    · intro hok
      rcases hok with ⟨n, hn⟩
      rw [hr] at hn
      cases hn
    · intro hsplit
      rcases hsplit with ⟨t, ht⟩
      exact absurd ht (h t)
  text := fun t ht => absurd ht (h t)
  inBounds := by
    rw [hr]
    exact fun hstop => by cases hstop
  noOverflow := by
    rw [hr]
    exact fun hstop => by cases hstop
  ends := by
    rw [hr]
    exact fun hstop => by cases hstop

theorem DecodesExactly.of_unescapes {t : List UInt8} (ht : Unescapes s t)
    (hs : 0 ∉ s) (hd : s.length < d.length) (hlength : s.length <= maxInt) :
    DecodesExactly s d
      (lsbLuaStringUnescape (some d) (some (s ++ [0])) (some d.length)) where
  result := by
    rw [lsbLuaStringUnescape_unescapes ht hs hd hlength]
    exact ⟨fun _ => ⟨t, ht⟩, fun _ => ⟨t.length, rfl⟩⟩
  text := fun u hu => lsbLuaStringUnescape_unescapes hu hs hd hlength
  inBounds := by
    rw [lsbLuaStringUnescape_unescapes ht hs hd hlength]
    exact fun hstop => by cases hstop
  noOverflow := by
    rw [lsbLuaStringUnescape_unescapes ht hs hd hlength]
    exact fun hstop => by cases hstop
  ends := by
    rw [lsbLuaStringUnescape_unescapes ht hs hd hlength]
    exact fun hstop => by cases hstop

end

/-- The escape language is decoded exactly if and only if the text is shorter
than `2 ^ 31` bytes, or an invalid escape is met before that. -/
theorem lsbLuaStringUnescape_decodes_iff (s d : List UInt8) (hs : 0 ∉ s)
    (hd : s.length < d.length) :
    DecodesExactly s d
        (lsbLuaStringUnescape (some d) (some (s ++ [0])) (some d.length)) <->
      s.length <= maxInt ∨ RejectedWithin maxInt s := by
  constructor
  · intro h
    by_contra hcondition
    exact h.noOverflow (lsbLuaStringUnescape_overflows
      (fun hle => hcondition (Or.inl hle))
      (fun hreject => hcondition (Or.inr hreject)) hs hd)
  · intro hcondition
    by_cases hsplit : exists t, Unescapes s t
    · rcases hsplit with ⟨t, ht⟩
      rcases hcondition with hle | hreject
      · exact DecodesExactly.of_unescapes ht hs hd hle
      · exact absurd ht (hreject.not_unescapes t)
    · have hnone : forall t, ¬ Unescapes s t := fun t ht => hsplit ⟨t, ht⟩
      have hreject : RejectedWithin maxInt s := by
        rcases hcondition with hle | hreject
        · exact rejectedWithin_of_not_unescapes s.length maxInt s
            (Nat.le_refl _) hle hnone
        · exact hreject
      exact DecodesExactly.of_rejected
        (lsbLuaStringUnescape_rejects hreject hs hd) hnone

/-- The text `1\000M`. -/
theorem lsbLuaStringUnescape_decodes_nul :
    DecodesExactly [0x31, 0x5c, 0x30, 0x30, 0x30, 0x4d]
        [9, 9, 9, 9, 9, 9, 9]
        (lsbLuaStringUnescape (some [9, 9, 9, 9, 9, 9, 9])
          (some ([0x31, 0x5c, 0x30, 0x30, 0x30, 0x4d] ++ [0])) (some 7)) :=
  (lsbLuaStringUnescape_decodes_iff [0x31, 0x5c, 0x30, 0x30, 0x30, 0x4d]
    [9, 9, 9, 9, 9, 9, 9] (by decide) (by decide)).mpr
    (Or.inl (by decide))

/-- A text of `2 ^ 31` letters leaves the positions. -/
theorem lsbLuaStringUnescape_decodes_long :
    ¬ (forall s d : List UInt8, 0 ∉ s -> s.length < d.length ->
      DecodesExactly s d
        (lsbLuaStringUnescape (some d) (some (s ++ [0])) (some d.length))) := by
  intro h
  have hmem : forall b : UInt8, b ≠ 0x61 ->
      b ∉ List.replicate 2147483648 (0x61 : UInt8) :=
    fun b hb hz => hb (List.eq_of_mem_replicate hz)
  have hs := hmem 0 (by decide)
  have hlength : (List.replicate 2147483648 (0x61 : UInt8)).length =
      2147483648 := List.length_replicate
  have hd : (List.replicate 2147483648 (0x61 : UInt8)).length <
      (List.replicate 2147483649 (0 : UInt8)).length := by
    rw [hlength, List.length_replicate]
    decide
  exact (h _ _ hs hd).noOverflow (lsbLuaStringUnescape_overflows
    (by rw [hlength]; decide)
    (fun hreject => hreject.not_ordinary (hmem 0x5c (by decide))) hs hd)

end Util
end LuaSandbox
