import Mathlib.Data.List.Basic

/-!
# Scans from the end

A scan that goes down from a position and stops at the hit with a given
number, and the same scan in two parts.
-/

namespace LuaSandbox
namespace Foundation

/-- Go down from `n` with `cnt` hits behind, up to hit number `num`; the hits
are counted. -/
def seekDown (p : Nat -> Bool) (num : Nat) : Nat -> Nat -> Option Nat × Nat
  | 0, cnt => (none, cnt)
  | i + 1, cnt =>
      if p i then
        if cnt + 1 = num then (some i, cnt + 1)
        else seekDown p num i (cnt + 1)
      else seekDown p num i cnt

section

variable {p : Nat -> Bool} {num : Nat}

theorem seekDown_congr {q : Nat -> Bool} {n : Nat}
    (h : forall i, i < n -> p i = q i) (cnt : Nat) :
    seekDown p num n cnt = seekDown q num n cnt := by
  induction n generalizing cnt with
  | zero => rfl
  | succ n ih =>
      have hn := fun i hi => h i (Nat.lt_succ_of_lt hi)
      rw [seekDown, seekDown, h n (Nat.lt_succ_self n), ih hn, ih hn]

theorem seekDown_lt {n cnt i c : Nat}
    (h : seekDown p num n cnt = (some i, c)) : i < n := by
  induction n generalizing cnt with
  | zero => cases h
  | succ n ih =>
      rw [seekDown] at h
      split at h
      · split at h
        · cases h
          exact Nat.lt_succ_self _
        · exact Nat.lt_succ_of_lt (ih h)
      · exact Nat.lt_succ_of_lt (ih h)

/-- A hit in the upper part ends the scan. -/
theorem seekDown_add_some {a b i cnt c : Nat}
    (h : seekDown (fun j => p (a + j)) num b cnt = (some i, c)) :
    seekDown p num (a + b) cnt = (some (a + i), c) := by
  induction b generalizing cnt with
  | zero => cases h
  | succ b ih =>
      rw [seekDown] at h
      rw [<- Nat.add_assoc, seekDown]
      by_cases hp : p (a + b) = true
      · rw [if_pos hp] at h ⊢
        by_cases hcnt : cnt + 1 = num
        · rw [if_pos hcnt] at h ⊢
          cases h
          rfl
        · rw [if_neg hcnt] at h ⊢
          exact ih h
      · rw [if_neg hp] at h ⊢
        exact ih h

/-- Without one it goes on with the lower part. -/
theorem seekDown_add_none {a b cnt c : Nat}
    (h : seekDown (fun j => p (a + j)) num b cnt = (none, c)) :
    seekDown p num (a + b) cnt = seekDown p num a c := by
  induction b generalizing cnt with
  | zero =>
      cases h
      rfl
  | succ b ih =>
      rw [seekDown] at h
      rw [<- Nat.add_assoc, seekDown]
      by_cases hp : p (a + b) = true
      · rw [if_pos hp] at h ⊢
        by_cases hcnt : cnt + 1 = num
        · rw [if_pos hcnt] at h
          cases h
        · rw [if_neg hcnt] at h ⊢
          exact ih h
      · rw [if_neg hp] at h ⊢
        exact ih h

/-- The scan stops at the hit with its number counted from the end. -/
theorem seekDown_eq (n : Nat) {cnt : Nat} (h : cnt < num) :
    (seekDown p num n cnt).1 =
      ((List.range n).filter p).reverse[num - cnt - 1]? := by
  induction n generalizing cnt with
  | zero => rfl
  | succ n ih =>
      rw [seekDown, List.range_succ, List.filter_append, List.reverse_append]
      by_cases hp : p n = true
      · rw [if_pos hp, List.filter_singleton, hp]
        by_cases hcnt : cnt + 1 = num
        · rw [if_pos hcnt, <- hcnt, Nat.add_sub_cancel_left]
          rfl
        · have hnext : num - cnt - 1 = num - (cnt + 1) - 1 + 1 := by omega
          rw [if_neg hcnt, ih (by omega), hnext]
          rfl
      · rw [if_neg hp, List.filter_singleton, Bool.eq_false_iff.mpr hp, ih h]
        rfl

end

end Foundation
end LuaSandbox
