import Mathlib.Data.List.Basic
import Mathlib.Tactic.Common

/-!
# Resynchronising scanners

A scanner looks for frames in a stream.  What it says about the start of a
stream does not change when more of the stream arrives, so the frames it finds
do not depend on how the stream is cut into pieces.
-/

namespace LuaSandbox
namespace Foundation

/-- What stands at the start of a stream. -/
inductive Verdict where
  | reject
  | undecided
  | frame (n : Nat)
  deriving DecidableEq

open Verdict

/-- A recogniser of frames; `n` elements of the stream make up a frame. -/
structure Scanner (alpha : Type) where
  verdict : List alpha -> Verdict
  verdict_nil : verdict [] = undecided
  frame_pos : forall {xs n}, verdict xs = frame n -> 0 < n
  frame_le : forall {xs n}, verdict xs = frame n -> n <= xs.length
  stable : forall {xs} (ys), verdict xs ≠ undecided ->
    verdict (xs ++ ys) = verdict xs

/-- The elements that were skipped, the frame and what stands behind it. -/
structure Sought (alpha : Type) where
  skipped : Nat
  found : Option (List alpha)
  rest : List alpha

/-- The frames of a stream, the elements that were skipped, and the end of
the stream that is not decided. -/
structure Drained (alpha : Type) where
  frames : List (List alpha)
  skipped : Nat
  pending : List alpha

variable {alpha : Type}

namespace Sought

def skip (d : Nat) (r : Sought alpha) : Sought alpha :=
  ⟨d + r.skipped, r.found, r.rest⟩

@[simp] theorem skip_zero (r : Sought alpha) : r.skip 0 = r := by
  simp [skip]

@[simp] theorem skip_skip (d d' : Nat) (r : Sought alpha) :
    (r.skip d').skip d = r.skip (d + d') := by
  simp [skip, Nat.add_assoc]

end Sought

namespace Drained

/-- The result for a stream of which a first part is drained already. -/
def append (r r' : Drained alpha) : Drained alpha :=
  ⟨r.frames ++ r'.frames, r.skipped + r'.skipped, r'.pending⟩

theorem append_assoc (a b c : Drained alpha) :
    (a.append b).append c = a.append (b.append c) := by
  simp [append, Nat.add_assoc]

end Drained

namespace Scanner

variable (s : Scanner alpha)

/-!
## The leftmost frame
-/

/-- Skip what is rejected, up to a frame or an undecided rest. -/
def seek : List alpha -> Sought alpha
  | [] => ⟨0, none, []⟩
  | x :: xs =>
      match s.verdict (x :: xs) with
      | reject => (seek xs).skip 1
      | undecided => ⟨0, none, x :: xs⟩
      | frame n => ⟨0, some ((x :: xs).take n), (x :: xs).drop n⟩

theorem seek_reject {x : alpha} {xs : List alpha}
    (h : s.verdict (x :: xs) = reject) :
    s.seek (x :: xs) = (s.seek xs).skip 1 := by
  simp only [seek, h]

theorem seek_undecided {xs : List alpha} (h : s.verdict xs = undecided) :
    s.seek xs = ⟨0, none, xs⟩ := by
  cases xs with
  | nil => rfl
  | cons x xs => simp only [seek, h]

theorem seek_frame {xs : List alpha} {n : Nat}
    (h : s.verdict xs = frame n) :
    s.seek xs = ⟨0, some (xs.take n), xs.drop n⟩ := by
  cases xs with
  | nil =>
      rw [s.verdict_nil] at h
      cases h
  | cons x xs => simp only [seek, h]

/-- Rejected elements in front are skipped. -/
theorem seek_drop {xs : List alpha} :
    forall {d : Nat}, d <= xs.length ->
      (forall j, j < d -> s.verdict (xs.drop j) = reject) ->
      s.seek xs = (s.seek (xs.drop d)).skip d := by
  induction xs with
  | nil =>
      intro d hd _
      have hzero : d = 0 := Nat.le_zero.mp hd
      simp [hzero]
  | cons x xs ih =>
      intro d hd hreject
      cases d with
      | zero => simp
      | succ d =>
          have hrest := ih (Nat.le_of_succ_le_succ hd)
            (fun j hj => hreject (j + 1) (Nat.succ_lt_succ hj))
          rw [s.seek_reject (hreject 0 (Nat.succ_pos d)), hrest,
            Sought.skip_skip, Nat.add_comm 1 d]
          rfl

/-- Nothing is lost: a stream is what was skipped, the frame and the rest. -/
theorem seek_conserves (xs : List alpha) :
    xs = xs.take (s.seek xs).skipped ++ (s.seek xs).found.getD [] ++
      (s.seek xs).rest := by
  induction xs with
  | nil => rfl
  | cons x xs ih =>
      cases h : s.verdict (x :: xs) with
      | reject =>
          rw [s.seek_reject h, Sought.skip, Nat.add_comm]
          simp only [List.take_succ_cons, List.cons_append]
          exact congrArg (x :: ·) ih
      | undecided => simp [s.seek_undecided h]
      | frame n => simp [s.seek_frame h]

theorem seek_skipped_le (xs : List alpha) :
    (s.seek xs).skipped <= xs.length := by
  induction xs with
  | nil => exact Nat.le_refl 0
  | cons x xs ih =>
      cases h : s.verdict (x :: xs) with
      | reject =>
          rw [s.seek_reject h, Sought.skip, Nat.add_comm]
          exact Nat.succ_le_succ ih
      | undecided =>
          rw [s.seek_undecided h]
          exact Nat.zero_le _
      | frame n =>
          rw [s.seek_frame h]
          exact Nat.zero_le _

theorem seek_rejects {xs : List alpha} :
    forall {j : Nat}, j < (s.seek xs).skipped ->
      s.verdict (xs.drop j) = reject := by
  induction xs with
  | nil =>
      intro j hj
      cases hj
  | cons x xs ih =>
      intro j hj
      cases h : s.verdict (x :: xs) with
      | reject =>
          rw [s.seek_reject h, Sought.skip, Nat.add_comm] at hj
          cases j with
          | zero => exact h
          | succ j => exact ih (Nat.lt_of_succ_lt_succ hj)
      | undecided =>
          rw [s.seek_undecided h] at hj
          cases hj
      | frame n =>
          rw [s.seek_frame h] at hj
          cases hj

theorem seek_found {xs f : List alpha} (h : (s.seek xs).found = some f) :
    s.verdict (xs.drop (s.seek xs).skipped) = frame f.length ∧
      f = (xs.drop (s.seek xs).skipped).take f.length := by
  induction xs with
  | nil => cases h
  | cons x xs ih =>
      cases hv : s.verdict (x :: xs) with
      | reject =>
          rw [s.seek_reject hv, Sought.skip] at h ⊢
          rw [Nat.add_comm]
          exact ih h
      | undecided =>
          rw [s.seek_undecided hv] at h
          cases h
      | frame n =>
          rw [s.seek_frame hv] at h ⊢
          cases h
          have hlength : ((x :: xs).take n).length = n :=
            List.length_take_of_le (s.frame_le hv)
          rw [hlength]
          exact ⟨hv, rfl⟩

theorem seek_rest_undecided {xs : List alpha}
    (h : (s.seek xs).found = none) :
    s.verdict (s.seek xs).rest = undecided := by
  induction xs with
  | nil => exact s.verdict_nil
  | cons x xs ih =>
      cases hv : s.verdict (x :: xs) with
      | reject =>
          rw [s.seek_reject hv] at h ⊢
          exact ih h
      | undecided =>
          rw [s.seek_undecided hv]
          exact hv
      | frame n =>
          rw [s.seek_frame hv] at h
          cases h

/-- A frame makes the stream shorter. -/
theorem seek_rest_lt {xs f : List alpha} (h : (s.seek xs).found = some f) :
    (s.seek xs).rest.length < xs.length := by
  have hpos := s.frame_pos (s.seek_found h).1
  have hle := s.seek_skipped_le xs
  have hlength := congrArg List.length (s.seek_conserves xs)
  rw [h] at hlength
  simp only [List.length_append, List.length_take, Option.getD_some,
    Nat.min_eq_left hle] at hlength
  omega

/-!
## More input
-/

theorem seek_append_found {xs f : List alpha} (ys : List alpha)
    (h : (s.seek xs).found = some f) :
    s.seek (xs ++ ys) =
      ⟨(s.seek xs).skipped, some f, (s.seek xs).rest ++ ys⟩ := by
  induction xs with
  | nil => cases h
  | cons x xs ih =>
      cases hv : s.verdict (x :: xs) with
      | reject =>
          have hv' : s.verdict (x :: (xs ++ ys)) = reject := by
            rw [← List.cons_append, s.stable ys (by rw [hv]; nofun), hv]
          rw [s.seek_reject hv] at h ⊢
          rw [List.cons_append, s.seek_reject hv', ih h]
          rfl
      | undecided =>
          rw [s.seek_undecided hv] at h
          cases h
      | frame n =>
          have hv' : s.verdict (x :: xs ++ ys) = frame n := by
            rw [s.stable ys (by rw [hv]; nofun), hv]
          have hle := s.frame_le hv
          rw [s.seek_frame hv] at h ⊢
          cases h
          rw [s.seek_frame hv', List.take_append_of_le_length hle,
            List.drop_append_of_le_length hle]

theorem seek_append_none {xs : List alpha} (ys : List alpha)
    (h : (s.seek xs).found = none) :
    s.seek (xs ++ ys) =
      (s.seek ((s.seek xs).rest ++ ys)).skip (s.seek xs).skipped := by
  induction xs with
  | nil => simp [seek]
  | cons x xs ih =>
      cases hv : s.verdict (x :: xs) with
      | reject =>
          have hv' : s.verdict (x :: (xs ++ ys)) = reject := by
            rw [← List.cons_append, s.stable ys (by rw [hv]; nofun), hv]
          rw [s.seek_reject hv] at h ⊢
          rw [List.cons_append, s.seek_reject hv', ih h, Sought.skip_skip]
          rfl
      | undecided =>
          rw [s.seek_undecided hv, Sought.skip_zero]
      | frame n =>
          rw [s.seek_frame hv] at h
          cases h

theorem seek_drop_skipped (xs : List alpha) :
    xs.drop (s.seek xs).skipped =
      (s.seek xs).found.getD [] ++ (s.seek xs).rest := by
  have hsplit := congrArg (List.drop (s.seek xs).skipped) (s.seek_conserves xs)
  have hlength : (xs.take (s.seek xs).skipped).length = (s.seek xs).skipped :=
    List.length_take_of_le (s.seek_skipped_le xs)
  rw [List.append_assoc, List.drop_left' hlength] at hsplit
  exact hsplit

/-- What was rejected stays rejected. -/
theorem seek_rejects_append {xs : List alpha} (ys : List alpha) {j : Nat}
    (hj : j < (s.seek xs).skipped) :
    s.verdict ((xs ++ ys).drop j) = reject := by
  have hle := s.seek_skipped_le xs
  have hreject := s.seek_rejects hj
  rw [List.drop_append_of_le_length (by omega),
    s.stable ys (by rw [hreject]; nofun), hreject]

/-- What was found stays a frame. -/
theorem seek_frame_append {xs f : List alpha} (ys : List alpha)
    (h : (s.seek xs).found = some f) :
    s.verdict (f ++ ((s.seek xs).rest ++ ys)) = frame f.length := by
  have hframe := (s.seek_found h).1
  rw [s.seek_drop_skipped, h, Option.getD_some] at hframe
  rw [← List.append_assoc, s.stable ys (by rw [hframe]; nofun), hframe]

/-!
## All frames
-/

/-- Look for frames until there is none. -/
def drain (xs : List alpha) : Drained alpha :=
  match h : (s.seek xs).found with
  | none => ⟨[], (s.seek xs).skipped, (s.seek xs).rest⟩
  | some f =>
      have := s.seek_rest_lt h
      Drained.append ⟨[f], (s.seek xs).skipped, []⟩ (drain (s.seek xs).rest)
termination_by xs.length

theorem drain_of_none {xs : List alpha} (h : (s.seek xs).found = none) :
    s.drain xs = ⟨[], (s.seek xs).skipped, (s.seek xs).rest⟩ := by
  rw [drain]
  split
  · rfl
  · rename_i hsome
    rw [h] at hsome
    cases hsome

theorem drain_of_some {xs f : List alpha}
    (h : (s.seek xs).found = some f) :
    s.drain xs = Drained.append ⟨[f], (s.seek xs).skipped, []⟩
      (s.drain (s.seek xs).rest) := by
  rw [drain]
  split
  · rename_i hnone
    rw [h] at hnone
    cases hnone
  · rename_i hsome
    rw [h] at hsome
    cases hsome
    rfl

theorem drain_undecided {xs : List alpha} (h : s.verdict xs = undecided) :
    s.drain xs = ⟨[], 0, xs⟩ := by
  have hseek := s.seek_undecided h
  rw [s.drain_of_none (by rw [hseek]), hseek]

/-- The rest of a drained stream is undecided. -/
theorem drain_pending (xs : List alpha) :
    s.verdict (s.drain xs).pending = undecided := by
  induction h : xs.length using Nat.strongRecOn generalizing xs with
  | ind n ih =>
      cases hfound : (s.seek xs).found with
      | none =>
          rw [s.drain_of_none hfound]
          exact s.seek_rest_undecided hfound
      | some f =>
          rw [s.drain_of_some hfound]
          exact ih _ (h ▸ s.seek_rest_lt hfound) _ rfl

/-- A stream can be drained in two parts: the undecided rest of the first one
is put in front of the second. -/
theorem drain_append (xs ys : List alpha) :
    s.drain (xs ++ ys) =
      (s.drain xs).append (s.drain ((s.drain xs).pending ++ ys)) := by
  induction h : xs.length using Nat.strongRecOn generalizing xs with
  | ind n ih =>
      cases hfound : (s.seek xs).found with
      | none =>
          have hseek := s.seek_append_none ys hfound
          rw [s.drain_of_none hfound]
          cases hrest : (s.seek ((s.seek xs).rest ++ ys)).found with
          | none =>
              rw [s.drain_of_none hrest,
                s.drain_of_none (by rw [hseek]; exact hrest), hseek]
              rfl
          | some f =>
              rw [s.drain_of_some hrest,
                s.drain_of_some (by rw [hseek]; exact hrest), hseek,
                ← Drained.append_assoc]
              rfl
      | some f =>
          have hseek := s.seek_append_found ys hfound
          have hrest := ih _ (h ▸ s.seek_rest_lt hfound) (s.seek xs).rest rfl
          rw [s.drain_of_some hfound, s.drain_of_some (by rw [hseek]), hseek,
            hrest, Drained.append_assoc]
          rfl

/-!
## Streams in pieces
-/

/-- Drain a stream that arrives in pieces behind a pending rest. -/
def drainChunks (pending : List alpha) : List (List alpha) -> Drained alpha
  | [] => ⟨[], 0, pending⟩
  | xs :: rest =>
      (s.drain (pending ++ xs)).append
        (drainChunks (s.drain (pending ++ xs)).pending rest)

/-- Only the whole stream matters, not its pieces. -/
theorem drainChunks_eq (chunks : List (List alpha)) :
    forall {pending : List alpha}, s.verdict pending = undecided ->
      s.drainChunks pending chunks =
        s.drain (pending ++ chunks.flatten) := by
  induction chunks with
  | nil =>
      intro pending h
      rw [drainChunks, List.flatten_nil, List.append_nil, s.drain_undecided h]
  | cons xs rest ih =>
      intro pending h
      rw [drainChunks, ih (s.drain_pending _), List.flatten_cons,
        ← List.append_assoc, s.drain_append (pending ++ xs)]

end Scanner

end Foundation
end LuaSandbox
