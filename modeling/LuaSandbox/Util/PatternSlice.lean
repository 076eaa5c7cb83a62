import LuaSandbox.Util.PatternAccepts

/-!
# Patterns and the end of the slice

The matcher reads one byte behind its slice, and only where a frontier is tried
at the end of the slice.
-/

namespace LuaSandbox
namespace Util

open Foundation

/-!
## Memories with the same slice
-/

section

variable {mem mem' : Memory} {srcInit srcEnd s : Nat}

theorem Repeats.congr {p ep : List UInt8} {i : Nat}
    (hmem : forall a, srcInit <= a -> a < srcEnd -> mem a = mem' a)
    (hs : srcInit <= s) (h : Repeats mem srcEnd p ep s i) :
    Repeats mem' srcEnd p ep s i := by
  intro j hj
  rcases h j hj with ⟨hin, hsingle⟩
  rw [hmem _ (Nat.le_add_right_of_le hs) hin] at hsingle
  exact ⟨hin, hsingle⟩

theorem matchbalanceLoop_congr {b e : UInt8} {n : Nat} :
    forall {s cont : Nat},
      (forall a, s <= a -> a < s + n -> mem a = mem' a) ->
      matchbalanceLoop mem b e n s cont =
        matchbalanceLoop mem' b e n s cont := by
  induction n with
  | zero =>
      intro s cont _
      rfl
  | succ n ih =>
      intro s cont hmem
      have hrest : forall cont, matchbalanceLoop mem b e n (s + 1) cont =
          matchbalanceLoop mem' b e n (s + 1) cont := by
        intro cont
        exact ih (fun a ha ha' => hmem a (by omega) (by omega))
      rw [matchbalanceLoop, matchbalanceLoop,
        hmem s (Nat.le_refl s) (Nat.lt_add_of_pos_right (Nat.succ_pos n)),
        hrest, hrest, hrest]

/-- At the end of the slice the delimiter is read in vain. -/
theorem matchbalance_congr {args : List UInt8}
    (hmem : forall a, srcInit <= a -> a < srcEnd -> mem a = mem' a)
    (hs : srcInit <= s) :
    matchbalance mem srcEnd s args = matchbalance mem' srcEnd s args := by
  match args with
  | [] => rfl
  | [_] => rfl
  | b :: e :: _ =>
      rw [matchbalance, matchbalance]
      rcases Nat.lt_or_ge s srcEnd with hin | hend
      · rw [hmem s hs hin, matchbalanceLoop_congr]
        intro a ha ha'
        exact hmem a (by omega) (by omega)
      · rw [Nat.sub_eq_zero_of_le (Nat.le_succ_of_le hend)]
        simp [matchbalanceLoop]

theorem Frontier.congr {edge : Option UInt8} {set ep : List UInt8}
    (hmem : forall a, srcInit <= a -> a < srcEnd -> mem a = mem' a)
    (hs : srcInit <= s) (hle : s <= srcEnd)
    (h : Frontier mem srcInit srcEnd edge set ep s) :
    Frontier mem' srcInit srcEnd edge set ep s := by
  have hprevious : previousByte mem srcInit s = previousByte mem' srcInit s := by
    unfold previousByte
    split
    · rfl
    · exact hmem _ (by omega) (by omega)
  have hnext : nextByte mem srcEnd edge s = nextByte mem' srcEnd edge s := by
    unfold nextByte
    split
    · rename_i hin
      rw [hmem s hs hin]
    · rfl
  unfold Frontier
  rw [← hprevious, ← hnext]
  exact h

/-- Acceptance depends on the bytes of the slice alone. -/
theorem AcceptsPattern.congr {edge : Option UInt8} {p : List UInt8}
    (hmem : forall a, srcInit <= a -> a < srcEnd -> mem a = mem' a)
    (h : AcceptsPattern mem srcInit srcEnd edge s p) :
    srcInit <= s -> s <= srcEnd -> AcceptsPattern mem' srcInit srcEnd edge s p := by
  induction h with
  | finish s =>
      intro _ _
      exact AcceptsPattern.finish s
  | stop =>
      intro _ _
      exact AcceptsPattern.stop
  | balance hbalance _ ih =>
      intro hs hle
      have hbound := matchbalance_le hbalance
      rw [matchbalance_congr hmem hs] at hbalance
      exact AcceptsPattern.balance hbalance (ih (by omega) hbound.2)
  | frontier hep hfrontier _ ih =>
      intro hs hle
      exact AcceptsPattern.frontier hep (hfrontier.congr hmem hs hle) (ih hs hle)
  | item hitem hep hallows hrepeats _ ih =>
      intro hs hle
      exact AcceptsPattern.item hitem hep hallows (hrepeats.congr hmem hs)
        (ih (Nat.le_add_right_of_le hs) (hrepeats.le hle))

/-- What matches without a byte behind the slice matches with any. -/
theorem AcceptsPattern.widen {edge : Option UInt8} {p : List UInt8}
    (h : AcceptsPattern mem srcInit srcEnd none s p) :
    AcceptsPattern mem srcInit srcEnd edge s p := by
  induction h with
  | finish s => exact AcceptsPattern.finish s
  | stop => exact AcceptsPattern.stop
  | balance hbalance _ ih => exact AcceptsPattern.balance hbalance ih
  | frontier hep hfrontier _ ih =>
      refine AcceptsPattern.frontier hep ?_ ih
      rcases hfrontier with ⟨hprevious, c, hnext, hc⟩
      refine ⟨hprevious, c, ?_, hc⟩
      unfold nextByte at hnext ⊢
      split
      · rename_i hin
        rwa [if_pos hin] at hnext
      · rename_i hin
        rw [if_neg hin] at hnext
        cases hnext
  | item hitem hep hallows hrepeats _ ih =>
      exact AcceptsPattern.item hitem hep hallows hrepeats ih

/--
A frontier at the end rejects the last byte of the slice, so that a match which
that byte continues tries none there.
-/
theorem AcceptsPattern.narrow {p : List UInt8}
    (h : AcceptsPattern mem srcInit srcEnd
      (some (previousByte mem srcInit srcEnd)) s p) :
    s <= srcEnd -> AcceptsPattern mem srcInit srcEnd none s p := by
  induction h with
  | finish s =>
      intro _
      exact AcceptsPattern.finish s
  | stop =>
      intro _
      exact AcceptsPattern.stop
  | balance hbalance _ ih =>
      intro _
      exact AcceptsPattern.balance hbalance (ih (matchbalance_le hbalance).2)
  | @frontier s _ _ hep hfrontier _ ih =>
      intro hle
      refine AcceptsPattern.frontier hep ?_ (ih hle)
      rcases hfrontier with ⟨hprevious, c, hnext, hc⟩
      refine ⟨hprevious, c, ?_, hc⟩
      unfold nextByte at hnext ⊢
      split at hnext
      · rename_i hin
        rwa [if_pos hin]
      · rename_i hin
        have hend : s = srcEnd := Nat.le_antisymm hle (Nat.not_lt.mp hin)
        rw [Option.some_inj] at hnext
        rw [hend, hnext, hc] at hprevious
        cases hprevious
  | item hitem hep hallows hrepeats _ ih =>
      intro hle
      exact AcceptsPattern.item hitem hep hallows hrepeats (ih (hrepeats.le hle))

end

/-!
## Matching a slice
-/

/--
Either the pattern matches with no frontier tried at the end of the slice, or no
byte behind the slice makes it match.
-/
def IgnoresEdge (mem : Memory) (subject : ConstString)
    (p : List UInt8) : Prop :=
  match subject.s with
  | none => True
  | some s =>
      AcceptsSlice mem s (s + subject.len) none p ∨
        forall c, ¬ AcceptsSlice mem s (s + subject.len) (some c) p

theorem AcceptsSlice.congr {mem mem' : Memory} {s len : Nat}
    {edge : Option UInt8} {p : List UInt8}
    (hmem : mem.bytes s len = mem'.bytes s len)
    (h : AcceptsSlice mem s (s + len) edge p) :
    AcceptsSlice mem' s (s + len) edge p := by
  rcases h with ⟨i, hi, hanchor, h⟩
  refine ⟨i, hi, hanchor, h.congr ?_ (Nat.le_add_right s i) hi⟩
  intro a ha ha'
  have := Memory.apply_eq_of_bytes_eq hmem (show a - s < len by omega)
  rwa [Nat.add_sub_cancel' ha] at this

theorem bytes_write_behind {mem : Memory} {s len : Nat} {c : UInt8} :
    (mem.write (s + len) [c]).bytes s len = mem.bytes s len := by
  apply Memory.bytes_congr
  intro i hi
  exact Memory.write_of_lt (Nat.add_lt_add_left hi s)

theorem acceptsSlice_write {mem : Memory} {s len : Nat} {c : UInt8}
    {p : List UInt8} :
    lsbStringMatch (mem.write (s + len) [c]) ⟨some s, len⟩ p = true <->
      AcceptsSlice mem s (s + len) (some c) p := by
  have hedge : mem.write (s + len) [c] (s + len) = c := by
    simp [Memory.write]
  rw [lsbStringMatch_iff, hedge]
  constructor
  · exact AcceptsSlice.congr bytes_write_behind
  · exact AcceptsSlice.congr bytes_write_behind.symm

/--
The result is the same for all memories that hold the slice exactly when the
pattern ignores the byte behind it.
-/
theorem lsbStringMatch_slice_iff (mem : Memory) (subject : ConstString)
    (p : List UInt8) :
    (forall mem', subject.bytes mem' = subject.bytes mem ->
      lsbStringMatch mem' subject p = lsbStringMatch mem subject p) <->
      IgnoresEdge mem subject p := by
  rcases subject with ⟨_ | s, len⟩
  · exact iff_of_true (fun _ _ => rfl) trivial
  · constructor
    · intro hsame
      have hwrite : forall c,
          lsbStringMatch (mem.write (s + len) [c]) ⟨some s, len⟩ p =
            lsbStringMatch mem ⟨some s, len⟩ p := by
        intro c
        exact hsame _ bytes_write_behind
      cases hmatch : lsbStringMatch mem ⟨some s, len⟩ p with
      | true =>
          have hlast := hwrite (previousByte mem s (s + len))
          rw [hmatch, acceptsSlice_write] at hlast
          rcases hlast with ⟨i, hi, hanchor, h⟩
          exact Or.inl ⟨i, hi, hanchor, h.narrow hi⟩
      | false =>
          refine Or.inr (fun c h => ?_)
          rw [← acceptsSlice_write, hwrite c, hmatch] at h
          cases h
    · intro hedge mem' hbytes
      have hiff : forall mem'', mem''.bytes s len = mem.bytes s len ->
          (lsbStringMatch mem'' ⟨some s, len⟩ p = true <->
            AcceptsSlice mem s (s + len) (some (mem'' (s + len))) p) := by
        intro mem'' h
        rw [lsbStringMatch_iff]
        exact ⟨AcceptsSlice.congr h, AcceptsSlice.congr h.symm⟩
      rw [Bool.eq_iff_iff, hiff mem' hbytes, hiff mem rfl]
      rcases hedge with ⟨i, hi, hanchor, h⟩ | hnever
      · exact iff_of_true ⟨i, hi, hanchor, h.widen⟩ ⟨i, hi, hanchor, h.widen⟩
      · exact iff_of_false (hnever _) (hnever _)

/-- The byte behind an `a` decides whether a quote begins there. -/
theorem lsbStringMatch_edge :
    ¬ forall (mem mem' : Memory) (subject : ConstString) (p : List UInt8),
      subject.bytes mem' = subject.bytes mem ->
        lsbStringMatch mem' subject p = lsbStringMatch mem subject p := by
  intro h
  have := h (Memory.ofList (ascii "a\"")) (Memory.ofList (ascii "a2"))
    ⟨some 0, 1⟩ (ascii "%f[\"]") (by decide)
  revert this
  decide

end Util
end LuaSandbox
