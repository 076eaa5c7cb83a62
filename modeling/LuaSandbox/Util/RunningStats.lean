import LuaSandbox.Foundation.Double
import LuaSandbox.Foundation.Statistics
import Mathlib.Analysis.Real.Sqrt

/-!
# Running statistics

The count, the mean and the accumulated sum that one sample after another
updates, over exact numbers.  After any calls they are those of all samples
taken together.
-/

namespace LuaSandbox
namespace Util

open Foundation

structure RunningStats where
  count : Rat
  mean : Rat
  sum : Rat
  deriving DecidableEq

def lsbInitRunningStats : RunningStats :=
  { count := 0, mean := 0, sum := 0 }

def lsbUpdateRunningStats (s : RunningStats) (d : Double.Value) :
    RunningStats :=
  match d with
  | Double.Value.fin d =>
      let count := s.count + 1
      if count = 1 then
        { s with count := count, mean := d }
      else
        let mean := s.mean + (d - s.mean) / count
        { count := count, mean := mean,
          sum := s.sum + (d - s.mean) * (d - mean) }
  -- `isfinite` fails
  | Double.Value.nan => s
  | Double.Value.inf _ => s

/-- The standard deviation, with the square root of the C library. -/
def lsbSdRunningStats {α : Type _} [Zero α] (sqrt : Rat -> α)
    (s : RunningStats) : α :=
  if s.count < 2 then 0 else sqrt (s.sum / (s.count - 1))

/-!
## The batch definitions
-/

/-- The numbers among the arguments, which alone are samples. -/
def samples (ds : List Double.Value) : List Rat :=
  ds.filterMap (fun d => match d with
    | Double.Value.fin q => some q
    | _ => none)

/-- The statistics of all samples at once. -/
def batchStats (xs : List Rat) : RunningStats :=
  { count := xs.length
    mean := Statistics.mean xs
    sum := Statistics.deviation xs }

/-- A sample after others updates their statistics to those of them all. -/
theorem lsbUpdateRunningStats_fin (xs : List Rat) (x : Rat) :
    lsbUpdateRunningStats (batchStats xs) (Double.Value.fin x) =
      batchStats (xs ++ [x]) := by
  have hcount : ((xs ++ [x]).length : Rat) = xs.length + 1 := by
    rw [List.length_append, List.length_singleton, Nat.cast_add, Nat.cast_one]
  cases xs with
  | nil =>
      -- the first sample is the mean, and the sum stays zero
      simp [lsbUpdateRunningStats, batchStats, Statistics.mean,
        Statistics.deviation]
  | cons y ys =>
      have hne : ((y :: ys).length : Rat) + 1 ≠ 1 := by
        intro h
        have : ((y :: ys).length : Rat) = 0 := by linarith
        exact absurd this (Nat.cast_ne_zero.mpr (Nat.succ_ne_zero _))
      have hbatch : batchStats ((y :: ys) ++ [x]) =
          RunningStats.mk _ _ _ := rfl
      rw [hbatch, Statistics.deviation_concat, Statistics.mean_concat, hcount]
      change (if ((y :: ys).length : Rat) + 1 = 1 then _ else _) = _
      rw [if_neg hne]
      rfl

/-- The state after the calls is the batch state of their samples. -/
theorem lsbUpdateRunningStats_foldl (ds : List Double.Value) (xs : List Rat) :
    ds.foldl lsbUpdateRunningStats (batchStats xs) =
      batchStats (xs ++ samples ds) := by
  induction ds generalizing xs with
  | nil => simp [samples]
  | cons d ds ih =>
      cases d with
      | nan => exact ih xs
      | inf b => exact ih xs
      | fin q =>
          rw [List.foldl_cons, lsbUpdateRunningStats_fin, ih]
          simp [samples]

theorem lsbInitRunningStats_batch :
    lsbInitRunningStats = batchStats [] := by
  simp [lsbInitRunningStats, batchStats]

theorem lsbUpdateRunningStats_run (ds : List Double.Value) :
    ds.foldl lsbUpdateRunningStats lsbInitRunningStats =
      batchStats (samples ds) := by
  rw [lsbInitRunningStats_batch, lsbUpdateRunningStats_foldl, List.nil_append]

theorem samples_perm {ds es : List Double.Value} (h : ds.Perm es) :
    (samples ds).Perm (samples es) :=
  h.filterMap _

theorem batchStats_perm {xs ys : List Rat} (h : xs.Perm ys) :
    batchStats xs = batchStats ys := by
  rw [batchStats, batchStats, Statistics.mean_perm h,
    Statistics.deviation_perm h, h.length_eq]

/-- The square of the standard deviation of the batch state. -/
theorem lsbSdRunningStats_batch (xs : List Rat) :
    lsbSdRunningStats (fun q => Real.sqrt q) (batchStats xs) ^ 2 =
      if xs.length < 2 then 0
      else ((Statistics.deviation xs / (xs.length - 1) : Rat) : ℝ) := by
  have hcount : (batchStats xs).count < 2 <-> xs.length < 2 := by
    change (xs.length : Rat) < 2 <-> _
    exact_mod_cast Iff.rfl
  unfold lsbSdRunningStats
  by_cases h : xs.length < 2
  · rw [if_pos (hcount.mpr h), if_pos h]
    exact zero_pow two_ne_zero
  · rw [if_neg (mt hcount.mp h), if_neg h]
    have hone : (1 : Rat) <= xs.length := by
      exact_mod_cast (by omega : 1 <= xs.length)
    have hquotient : 0 <= Statistics.deviation xs / ((xs.length : Rat) - 1) :=
      div_nonneg (Statistics.deviation_nonneg xs) (sub_nonneg.mpr hone)
    exact Real.sq_sqrt (Rat.cast_nonneg.mpr hquotient)

/-- After any calls the count, the mean and the sum are those of the samples
taken together, the square of the standard deviation is the sum over one less
than the count, and no other order of the calls gives another state. -/
theorem lsbUpdateRunningStats_batch (ds : List Double.Value) :
    let s := ds.foldl lsbUpdateRunningStats lsbInitRunningStats
    s.count = (samples ds).length ∧
      s.mean = (samples ds).sum / (samples ds).length ∧
      s.sum = ((samples ds).map (fun x => (x - s.mean) ^ 2)).sum ∧
      lsbSdRunningStats (fun q => Real.sqrt q) s ^ 2 =
        (if (samples ds).length < 2 then 0
          else (s.sum : ℝ) / ((samples ds).length - 1)) ∧
      forall es : List Double.Value, es.Perm ds ->
        es.foldl lsbUpdateRunningStats lsbInitRunningStats = s := by
  intro s
  have hs : s = batchStats (samples ds) := lsbUpdateRunningStats_run ds
  refine ⟨by rw [hs]; rfl, by rw [hs]; rfl, by rw [hs]; rfl, ?_, ?_⟩
  · rw [hs, lsbSdRunningStats_batch]
    split
    · rfl
    · exact_mod_cast rfl
  · intro es hperm
    rw [hs, lsbUpdateRunningStats_run]
    exact batchStats_perm (samples_perm hperm)

end Util
end LuaSandbox
