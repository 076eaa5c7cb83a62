import LuaSandbox.Util.Writer
import Mathlib.Data.List.TakeWhile

/-!
# The text of a uuid

The text that `lsb_heka_cat` prints for a uuid is read as that uuid.
-/

namespace LuaSandbox
namespace Util

open Foundation

/-- A hexadecimal digit in lower case. -/
def hexChar (v : Nat) : UInt8 :=
  UInt8.ofNat (if v < 10 then 0x30 + v else 0x61 + (v - 10))

/-- The conversion `%02hhx`. -/
def printHexDigits (b : UInt8) : List UInt8 :=
  [hexChar (b.toNat / 16), hexChar (b.toNat % 16)]

/-- `true` stands for a conversion, `false` for a hyphen. -/
def printFormat : List Bool -> List UInt8 -> List UInt8
  | true :: format, b :: bs => printHexDigits b ++ printFormat format bs
  | false :: format, bs => 0x2d :: printFormat format bs
  | _, _ => []

def uuidText (uuid : List UInt8) : List UInt8 := printFormat uuidFormat uuid

/-!
## Digits
-/

/-- The characters that a uuid is printed with. -/
def IsUuidChar (c : UInt8) : Prop :=
  isBlank c = false ∧ c ≠ 0

theorem hexChar_spec : forall v, v < 16 ->
    hexDigit (hexChar v) = some v ∧ IsUuidChar (hexChar v) ∧
      hexChar v ≠ 0x2d ∧ hexChar v ≠ 0x2b := by
  unfold IsUuidChar
  decide

theorem digits_lt (b : UInt8) : b.toNat / 16 < 16 ∧ b.toNat % 16 < 16 := by
  have hlt := b.toNat_lt
  omega

theorem scanHexDigits_print (b : UInt8) (rest : List UInt8) :
    scanHexDigits (printHexDigits b ++ rest) = some (b, rest) := by
  rcases hexChar_spec _ (digits_lt b).1 with ⟨hhigh, _, hminus, hplus⟩
  rcases hexChar_spec _ (digits_lt b).2 with ⟨hlow, _⟩
  change scanHexDigits (hexChar (b.toNat / 16) ::
    hexChar (b.toNat % 16) :: rest) = _
  generalize hexChar (b.toNat / 16) = c at hhigh hminus hplus
  generalize hexChar (b.toNat % 16) = d at hlow
  unfold scanHexDigits
  split
  · rename_i heq
    cases heq
  · rename_i heq
    cases heq
    exact absurd rfl hminus
  · rename_i heq
    cases heq
    exact absurd rfl hplus
  · rename_i heq
    cases heq
  · rename_i heq
    cases heq
    rw [hhigh, hlow]
    dsimp only
    rw [Nat.div_add_mod, UInt8.ofNat_toNat]

/-- The digits of a byte are not skipped as white space. -/
theorem dropWhile_print (b : UInt8) (rest : List UInt8) :
    (printHexDigits b ++ rest).dropWhile isBlank =
      printHexDigits b ++ rest := by
  rcases hexChar_spec _ (digits_lt b).1 with ⟨_, hchar, _⟩
  change (hexChar (b.toNat / 16) :: _).dropWhile isBlank = _
  rw [List.dropWhile_cons_of_neg (by rw [hchar.1]; exact Bool.false_ne_true)]
  rfl

/-!
## Uuids
-/

theorem scanFormat_print {format : List Bool} :
    forall {bs : List UInt8}, bs.length = format.count true ->
      scanFormat format (printFormat format bs) = some bs := by
  induction format with
  | nil =>
      intro bs h
      cases List.length_eq_zero_iff.mp h
      rfl
  | cons c format ih =>
      intro bs h
      cases c with
      | true =>
          rw [List.count_cons_self] at h
          rcases List.exists_of_length_succ bs h with ⟨b, bs, rfl⟩
          rw [List.length_cons] at h
          change scanFormat (true :: format)
            (printHexDigits b ++ printFormat format bs) = _
          unfold scanFormat
          rw [dropWhile_print, scanHexDigits_print]
          dsimp only
          rw [ih (Nat.succ.inj h)]
          rfl
      | false =>
          rw [List.count_cons_of_ne (by decide)] at h
          change (if (0x2d : UInt8) = 0x2d then
            scanFormat format (printFormat format bs) else none) = _
          rw [if_pos rfl, ih h]

theorem printFormat_char {format : List Bool} :
    forall {bs : List UInt8} {c : UInt8}, c ∈ printFormat format bs ->
      IsUuidChar c := by
  induction format with
  | nil =>
      intro bs c h
      cases bs <;> cases h
  | cons b format ih =>
      intro bs c h
      cases b with
      | true =>
          cases bs with
          | nil => cases h
          | cons b bs =>
              rcases List.mem_append.mp h with hdigits | hrest
              · rcases List.mem_pair.mp hdigits with rfl | rfl
                · exact (hexChar_spec _ (digits_lt b).1).2.1
                · exact (hexChar_spec _ (digits_lt b).2).2.1
              · exact ih hrest
      | false =>
          rcases List.mem_cons.mp h with rfl | hrest
          · unfold IsUuidChar
            decide
          · exact ih hrest

theorem printFormat_length {format : List Bool} :
    forall {bs : List UInt8}, bs.length = format.count true ->
      (printFormat format bs).length =
        2 * format.count true + format.count false := by
  induction format with
  | nil =>
      intro bs _
      cases bs <;> rfl
  | cons c format ih =>
      intro bs h
      cases c with
      | true =>
          rw [List.count_cons_self] at h
          rcases List.exists_of_length_succ bs h with ⟨b, bs, rfl⟩
          rw [List.length_cons] at h
          change (_ :: _ :: printFormat format bs).length = _
          rw [List.length_cons, List.length_cons, ih (Nat.succ.inj h),
            List.count_cons_self, List.count_cons_of_ne (by decide)]
          omega
      | false =>
          rw [List.count_cons_of_ne (by decide)] at h
          change (_ :: printFormat format bs).length = _
          rw [List.length_cons, ih h, List.count_cons_of_ne (by decide),
            List.count_cons_self]
          omega

/-- A uuid is taken as it is, and its text is read. -/
theorem uuidBytes_text (random : Nat -> UInt8) {uuid : List UInt8}
    (h : uuid.length = lsbUuidSize) :
    uuidBytes random (some (uuidText uuid)) = uuid := by
  have hcount : uuid.length = uuidFormat.count true := h
  have hlength : (uuidText uuid).length = lsbUuidStrSize :=
    printFormat_length hcount
  have hall : (uuidText uuid).takeWhile (fun b => b ≠ 0) = uuidText uuid :=
    List.takeWhile_eq_self_iff.mpr
      (fun c hc => decide_eq_true (printFormat_char hc).2)
  have hne : ¬ (uuidText uuid).length = lsbUuidSize := by
    rw [hlength]
    decide
  unfold uuidBytes
  dsimp only
  rw [if_neg hne, if_pos hlength, hall]
  exact congrArg (fun o => o.getD (randomUuid random))
    (scanFormat_print hcount)

theorem uuidBytes_raw (random : Nat -> UInt8) {uuid : List UInt8}
    (h : uuid.length = lsbUuidSize) :
    uuidBytes random (some uuid) = uuid :=
  if_pos h

end Util
end LuaSandbox
