import Mathlib.Algebra.BigOperators.Group.List.Basic
import Mathlib.Algebra.Field.Basic
import Mathlib.Algebra.CharZero.Defs
import Mathlib.Algebra.Order.BigOperators.Group.List
import Mathlib.Algebra.Order.Field.Basic
import Mathlib.Tactic.FieldSimp
import Mathlib.Tactic.Ring

/-!
# Mean and squared deviations

The mean of a list of samples and the sum of the squared deviations from it,
with what one more sample does to both.
-/

namespace LuaSandbox
namespace Foundation
namespace Statistics

section Field

variable {K : Type _} [Field K]

/-- The arithmetic mean; zero without a sample. -/
def mean (xs : List K) : K :=
  xs.sum / xs.length

/-- The sum of the squared deviations from the mean. -/
def deviation (xs : List K) : K :=
  (xs.map (fun x => (x - mean xs) ^ 2)).sum

@[simp] theorem mean_nil : mean ([] : List K) = 0 := by
  simp [mean]

@[simp] theorem deviation_nil : deviation ([] : List K) = 0 := rfl

/-- Squared deviations from any centre, by the sums of the powers. -/
theorem sum_squares_about (c : K) (xs : List K) :
    (xs.map (fun x => (x - c) ^ 2)).sum =
      (xs.map (fun x => x ^ 2)).sum - 2 * c * xs.sum + xs.length * c ^ 2 := by
  induction xs with
  | nil => simp
  | cons x xs ih =>
      simp only [List.map_cons, List.sum_cons, List.length_cons, ih]
      push_cast
      ring

theorem mean_perm {xs ys : List K} (h : xs.Perm ys) : mean xs = mean ys := by
  rw [mean, mean, h.sum_eq, h.length_eq]

theorem deviation_perm {xs ys : List K} (h : xs.Perm ys) :
    deviation xs = deviation ys := by
  rw [deviation, deviation, mean_perm h]
  exact (h.map _).sum_eq

variable [CharZero K]

theorem length_mul_mean (xs : List K) : xs.length * mean xs = xs.sum := by
  cases xs with
  | nil => simp
  | cons x xs =>
      have hlength : ((x :: xs).length : K) ≠ 0 :=
        Nat.cast_ne_zero.mpr (Nat.succ_ne_zero _)
      exact mul_div_cancel₀ _ hlength

/-- The squared deviations by the mean and the sum of the squares. -/
theorem deviation_eq (xs : List K) :
    deviation xs = (xs.map (fun x => x ^ 2)).sum - xs.length * mean xs ^ 2 := by
  rw [deviation, sum_squares_about, <- length_mul_mean xs]
  ring

/-- One more sample moves the mean by its share of the distance. -/
theorem mean_concat (xs : List K) (x : K) :
    mean (xs ++ [x]) = mean xs + (x - mean xs) / (xs.length + 1) := by
  have hlength : (xs.length : K) + 1 ≠ 0 := Nat.cast_add_one_ne_zero _
  have hsum : (xs ++ [x]).sum = xs.length * mean xs + x := by
    rw [List.sum_append, List.sum_singleton, length_mul_mean]
  rw [mean, hsum, List.length_append, List.length_singleton]
  push_cast
  field_simp
  ring

/-- One more sample adds the product of its distances to both means. -/
theorem deviation_concat (xs : List K) (x : K) :
    deviation (xs ++ [x]) =
      deviation xs + (x - mean xs) * (x - mean (xs ++ [x])) := by
  have hlength : (xs.length : K) + 1 ≠ 0 := Nat.cast_add_one_ne_zero _
  rw [deviation_eq, deviation_eq, mean_concat]
  simp only [List.map_append, List.map_singleton, List.sum_append,
    List.sum_singleton, List.length_append, List.length_singleton]
  push_cast
  field_simp
  ring

end Field

theorem deviation_nonneg {K : Type _} [Field K] [LinearOrder K]
    [IsStrictOrderedRing K] (xs : List K) : 0 <= deviation xs := by
  apply List.sum_nonneg
  intro y hy
  rcases List.mem_map.mp hy with ⟨x, -, rfl⟩
  exact sq_nonneg _

end Statistics
end Foundation
end LuaSandbox
