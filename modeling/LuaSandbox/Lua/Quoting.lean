import LuaSandbox.Foundation.CString

/-!
# Quoted strings

The literal that `%q` writes for a string, and how the lexer reads a literal.
-/

namespace LuaSandbox
namespace Lua

open Foundation

/-!
## Writing
-/

/-- The `switch` of `addquoted` over a byte. -/
def quotedByte (c : UInt8) : List UInt8 :=
  match c with
  | 0x22 => [0x5c, 0x22]
  | 0x5c => [0x5c, 0x5c]
  | 0x0a => [0x5c, 0x0a]
  | 0x0d => [0x5c, 0x72]
  | 0x00 => [0x5c, 0x30, 0x30, 0x30]
  | c => [c]

def addquoted (s : List UInt8) : List UInt8 :=
  0x22 :: (s.flatMap quotedByte ++ [0x22])

/-!
## Reading
-/

def currIsNewline (c : UInt8) : Bool := c = 0x0a || c = 0x0d

/-- An end of line takes a second one of the other kind with it. -/
def inclinenumber (old : UInt8) : List UInt8 -> List UInt8
  | [] => []
  | c :: rest => if currIsNewline c ∧ c ≠ old then rest else c :: rest

/-- The letters behind a backslash. -/
def escapeLetter : UInt8 -> Option UInt8
  | 0x61 => some 7
  | 0x62 => some 8
  | 0x66 => some 12
  | 0x6e => some 10
  | 0x72 => some 13
  | 0x74 => some 9
  | 0x76 => some 11
  | _ => none

/-- At most `n` more digits. -/
def decimalEscape : Nat -> Nat -> List UInt8 -> Nat × List UInt8
  | n + 1, c, b :: rest =>
      if isDigit b then decimalEscape n (10 * c + (b.toNat - 0x30)) rest
      else (c, b :: rest)
  | _, c, rest => (c, rest)

/-- The byte behind a backslash and what is left; `none` is an error. -/
def readEscape : List UInt8 -> Option (UInt8 × List UInt8)
  | [] => none
  | c :: rest =>
      match escapeLetter c with
      | some b => some (b, rest)
      | none =>
          if currIsNewline c then some (0x0a, inclinenumber c rest)
          else if isDigit c then
            let r := decimalEscape 3 0 (c :: rest)
            if 255 < r.1 then none else some (UInt8.ofNat r.1, r.2)
          -- handles \\, \", \', and \?
          else some (c, rest)

theorem inclinenumber_length (old : UInt8) (s : List UInt8) :
    (inclinenumber old s).length <= s.length := by
  cases s with
  | nil => exact Nat.le_refl 0
  | cons c rest =>
      rw [inclinenumber]
      split
      · exact Nat.le_succ rest.length
      · exact Nat.le_refl _

theorem decimalEscape_length (n : Nat) :
    forall c s, (decimalEscape n c s).2.length <= s.length := by
  induction n with
  | zero =>
      intro c s
      cases s <;> exact Nat.le_refl _
  | succ n ih =>
      intro c s
      cases s with
      | nil => exact Nat.le_refl 0
      | cons b rest =>
          unfold decimalEscape
          split
          · exact Nat.le_succ_of_le (ih _ rest)
          · exact Nat.le_refl _

theorem readEscape_length {s rest : List UInt8} {b : UInt8}
    (h : readEscape s = some (b, rest)) : rest.length <= s.length := by
  cases s with
  | nil => cases h
  | cons c s =>
      rw [readEscape] at h
      split at h
      · cases h
        exact Nat.le_succ _
      · split at h
        · cases h
          exact Nat.le_succ_of_le (inclinenumber_length c s)
        · split at h
          · change (if 255 < (decimalEscape 3 0 (c :: s)).1 then none
              else some _) = some _ at h
            split at h
            · cases h
            · cases h
              exact decimalEscape_length 3 0 (c :: s)
          · cases h
            exact Nat.le_succ _

/-- The string from behind its opening delimiter on, and what is behind its
closing one; `none` is an error. -/
def readString (del : UInt8) (s : List UInt8) :
    Option (List UInt8 × List UInt8) :=
  match s with
  | [] => none
  | c :: rest =>
      if c = del then some ([], rest)
      else if currIsNewline c then none
      else if c = 0x5c then
        match _hread : readEscape rest with
        | none => none
        | some (b, rest') =>
            (readString del rest').map (fun r => (b :: r.1, r.2))
      else (readString del rest).map (fun r => (c :: r.1, r.2))
termination_by s.length
decreasing_by
  · have hle := readEscape_length _hread
    exact Nat.lt_succ_of_le hle
  · exact Nat.lt_succ_self rest.length

/-!
## What is written is read
-/

section

variable {del c b : UInt8} {s rest rest' : List UInt8}

theorem readString_delimiter (del : UInt8) (rest : List UInt8) :
    readString del (del :: rest) = some ([], rest) := by
  rw [readString, if_pos rfl]

theorem readString_byte (hdel : c ≠ del) (hline : currIsNewline c = false)
    (hslash : c ≠ 0x5c) (h : readString del rest = some (s, rest')) :
    readString del (c :: rest) = some (c :: s, rest') := by
  rw [readString, if_neg hdel, if_neg (Bool.eq_false_iff.mp hline),
    if_neg hslash, h]
  rfl

theorem readString_escape {r : List UInt8} (hdel : del ≠ 0x5c)
    (he : readEscape r = some (b, rest))
    (h : readString del rest = some (s, rest')) :
    readString del (0x5c :: r) = some (b :: s, rest') := by
  rw [readString, if_neg (Ne.symm hdel), if_neg (by decide), if_pos rfl]
  split
  · rename_i hnone
    rw [he] at hnone
    cases hnone
  · rename_i b' r' hsome
    rw [he] at hsome
    cases hsome
    rw [h]
    rfl

end

/-- A literal does not go on with an end of line. -/
theorem inclinenumber_quoted (s rest : List UInt8) :
    inclinenumber 0x0a (s.flatMap quotedByte ++ 0x22 :: rest) =
      s.flatMap quotedByte ++ 0x22 :: rest := by
  cases s with
  | nil => rfl
  | cons c s =>
      rw [List.flatMap_cons, List.append_assoc]
      unfold quotedByte
      split
      · rfl
      · rfl
      · rfl
      · rfl
      · rfl
      · rename_i hline hreturn _
        have hnot : ¬ (currIsNewline c = true ∧ c ≠ 0x0a) := by
          unfold currIsNewline
          rw [Bool.or_eq_true, decide_eq_true_iff, decide_eq_true_iff]
          rintro ⟨h | h, _⟩
          · exact hline h
          · exact hreturn h
        exact if_neg hnot

theorem readString_quotedBytes (s rest : List UInt8) :
    readString 0x22 (s.flatMap quotedByte ++ 0x22 :: rest) =
      some (s, rest) := by
  induction s with
  | nil => exact readString_delimiter 0x22 rest
  | cons c s ih =>
      rw [List.flatMap_cons, List.append_assoc]
      unfold quotedByte
      split
      · exact readString_escape (by decide) rfl ih
      · exact readString_escape (by decide) rfl ih
      · apply readString_escape (by decide) _ ih
        exact congrArg (fun r => some (10, r)) (inclinenumber_quoted s rest)
      · exact readString_escape (by decide) rfl ih
      · exact readString_escape (by decide) rfl ih
      · rename_i hquote hslash hline hreturn _
        apply readString_byte hquote _ hslash ih
        unfold currIsNewline
        rw [decide_eq_false hline, decide_eq_false hreturn]
        rfl

/-- The literal is a C string. -/
theorem zero_not_mem_addquoted (s : List UInt8) : 0 ∉ addquoted s := by
  have hbyte : forall c : UInt8, 0 ∉ quotedByte c := by
    intro c
    unfold quotedByte
    split
    · decide
    · decide
    · decide
    · decide
    · decide
    · rename_i hzero
      rw [List.mem_singleton]
      exact fun h => hzero h.symm
  unfold addquoted
  rw [List.mem_cons, List.mem_append, List.mem_flatMap, List.mem_singleton]
  rintro (h | ⟨c, _, h⟩ | h)
  · cases h
  · exact hbyte c h
  · cases h

end Lua
end LuaSandbox
