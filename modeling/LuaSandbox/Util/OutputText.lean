import LuaSandbox.Util.NumberText
import LuaSandbox.Util.Piece

/-!
# Text in an output buffer

The writers of text as computations on a buffer that carries its invariant.
-/

namespace LuaSandbox
namespace Util

open Foundation

/-!
## Growth by doubling
-/

/-- A size is doubled until it is larger than `n`. -/
def doubledPast (n : Nat) : Nat -> Nat -> Nat
  | 0, size => size
  | fuel + 1, size =>
      if size <= n then doubledPast n fuel (size * 2) else size

theorem lt_doubledPast (n fuel : Nat) :
    forall size, n < size * 2 ^ fuel -> n < doubledPast n fuel size := by
  induction fuel with
  | zero =>
      intro size h
      rwa [Nat.pow_zero, Nat.mul_one] at h
  | succ fuel ih =>
      intro size h
      unfold doubledPast
      split
      · apply ih
        rwa [Nat.mul_assoc, ← Nat.pow_succ']
      · rename_i hlarge
        exact Nat.lt_of_not_le hlarge

namespace OutputBuffer

theorem size_pos (b : OutputBuffer) : 0 < b.size := by
  have hinitial := b.initial_le
  unfold initialSize lsbOutputSize at hinitial
  split at hinitial <;> omega

/-- The size to which the buffer grows for `n` bytes and a NUL; no object is
larger. -/
def doubledSize (b : OutputBuffer) (n : Nat) : Nat :=
  min (b.capped (doubledPast n n (b.size * 2))) maxObjectSize

theorem lt_doubledSize {b : OutputBuffer} {n : Nat}
    (hlimit : b.maxsize = 0 ∨ n < b.maxsize) (hobject : n < maxObjectSize) :
    n < b.doubledSize n := by
  have hsize := b.size_pos
  have hpow : n < 2 ^ n := Nat.lt_two_pow_self
  have hscaled : 2 ^ n <= b.size * 2 * 2 ^ n :=
    Nat.le_mul_of_pos_left _ (by omega)
  have hpast : n < doubledPast n n (b.size * 2) :=
    lt_doubledPast n n _ (Nat.lt_of_lt_of_le hpow hscaled)
  exact Nat.lt_min.mpr ⟨le_capped hlimit hpast, hobject⟩

end OutputBuffer

/-- Make room for `n` bytes and a NUL as `lsb_outputf` does. -/
def expandDoubled (alloc : Nat -> Bool) (b : OutputBuffer) (n : Nat) :
    Except LsbErr (Room (n + 1)) :=
  if hroom : b.pos + (n + 1) <= b.size then
    Except.ok ⟨b, hroom⟩
  else if hfull : b.maxsize ≠ 0 ∧
      (b.maxsize <= b.size ∨ b.maxsize <= b.pos + n) then
    Except.error LsbErr.utilFull
  else if hsize : maxObjectSize <= b.pos + n ∨
      alloc (b.doubledSize (b.pos + n)) = false then
    Except.error LsbErr.utilOom
  else
    have hlarge : b.pos + n < b.doubledSize (b.pos + n) :=
      OutputBuffer.lt_doubledSize (by omega)
        (Nat.lt_of_not_le (fun h => hsize (Or.inl h)))
    Except.ok ⟨{ b with
      size := b.doubledSize (b.pos + n)
      pos_le := Nat.le_of_lt (Nat.lt_of_le_of_lt (Nat.le_add_right _ _) hlarge)
      size_le := (b.capped_le _).imp_right (Nat.le_trans (Nat.min_le_left _ _))
      size_le_object := Nat.min_le_right _ _
      initial_le := Nat.le_trans b.initial_le (by omega) },
      hlarge⟩

section

variable {alloc : Nat -> Bool} {b : OutputBuffer} {n : Nat}

theorem expandDoubled_kept {r : Room (n + 1)}
    (h : expandDoubled alloc b n = Except.ok r) :
    r.val.buf = b.buf ∧ r.val.pos = b.pos ∧ r.val.maxsize = b.maxsize := by
  unfold expandDoubled at h
  split at h
  · cases h
    exact ⟨rfl, rfl, rfl⟩
  split at h
  · cases h
  split at h
  · cases h
  · cases h
    exact ⟨rfl, rfl, rfl⟩

theorem expandDoubled_fits {r : Room (n + 1)}
    (h : expandDoubled alloc b n = Except.ok r) :
    b.pos + (n + 1) <= b.capacity := by
  have hkept := expandDoubled_kept h
  have hroom := r.property
  rw [hkept.2.1] at hroom
  rw [← OutputBuffer.capacity_congr hkept.2.2]
  exact Nat.le_trans hroom r.val.size_le_capacity

theorem expandDoubled_full {e : LsbErr}
    (h : expandDoubled alloc b n = Except.error e)
    (halloc : forall n, alloc n = true) : b.capacity < b.pos + (n + 1) := by
  have hsize := b.size_le
  unfold expandDoubled at h
  split at h
  · cases h
  split at h
  · unfold OutputBuffer.capacity
    split <;> omega
  split at h
  · rename_i hobject
    rw [halloc] at hobject
    rcases hobject with hobject | hfailed
    · unfold OutputBuffer.capacity
      split <;> omega
    · cases hfailed
  · cases h

end

/-!
## Writers
-/

namespace Writer

/-- The part of a text for which there is room, with a NUL behind it. -/
def cutText (b : OutputBuffer) (text : List UInt8) : OutputBuffer :=
  if b.pos = b.size then b
  else b.overwrite b.pos (text.take (b.size - b.pos - 1) ++ [0])

/-- The text of a format; what was written of a text that does not fit stays
behind the contents. -/
def lsbOutputf (text : List UInt8) : Writer Unit :=
  Computation.ofFun (fun s =>
    match expandDoubled s.alloc s.ob text.length with
    | Except.error e => (Except.error e, { s with ob := cutText s.ob text })
    | Except.ok r => (Except.ok (), { s with
        ob := (r.val.append text (Nat.le_of_succ_le r.property)).overwrite
          (r.val.pos + text.length) [0]
        writes := s.writes ++ [⟨r.val.pos, text.length + 1, r.val.size⟩] }))

section

variable (format : Double.Value -> List UInt8)

/-- The two ways in which a number in range and one out of range are
written. -/
def lsbOutputfd (d : Double.Value) : Writer Unit :=
  if outOfRange d then lsbOutputf (format d)
  else lsbOutputs (numberParts Rounding.nearest d).text

def lsbOutputd (d : Double.Value) : Writer Unit :=
  match d with
  | Double.Value.nan => lsbOutputs (ascii "nan")
  | Double.Value.inf false => lsbOutputs (ascii "inf")
  | Double.Value.inf true => lsbOutputs (ascii "-inf")
  | Double.Value.fin q => lsbOutputfd format (Double.Value.fin q)

/-- The text that `lsb_outputd` writes. -/
def outputdText (d : Double.Value) : List UInt8 :=
  match d with
  | Double.Value.nan => ascii "nan"
  | Double.Value.inf false => ascii "inf"
  | Double.Value.inf true => ascii "-inf"
  | Double.Value.fin q =>
      outputfdText format Rounding.nearest (Double.Value.fin q)

end

end Writer

theorem Piece.text_fits (s : List UInt8) : s.length <= s.length + 1 :=
  Nat.le_succ s.length

/-- A text with room for a NUL behind it. -/
def Piece.text (s : List UInt8) : Piece :=
  ⟨s, s.length + 1, Piece.text_fits s⟩

theorem contents_cutText (b : OutputBuffer) (text : List UInt8) :
    (Writer.cutText b text).contents = b.contents := by
  unfold Writer.cutText
  split
  · rfl
  · exact OutputBuffer.contents_overwrite_pos _ _

theorem maxsize_cutText (b : OutputBuffer) (text : List UInt8) :
    (Writer.cutText b text).maxsize = b.maxsize := by
  unfold Writer.cutText
  split
  · rfl
  · rfl

/-- The text is written as a whole, or the contents stay as they are. -/
structure WritesText (x : Writer Unit) (text : List UInt8) : Prop where
  emits : Emits x (Piece.text text)
  kept : forall {s e t}, x.run s = (Except.error e, t) ->
    Emitted Piece.empty s t

theorem writesText_outputs (text : List UInt8) :
    WritesText (lsbOutputs text) text where
  emits := emits_outputs text
  kept := by
    intro s e t hrun
    rw [run_lsbOutputs] at hrun
    split at hrun
    · cases hrun
      exact Emitted.refl s
    · cases hrun

theorem writesText_outputf (text : List UInt8) :
    WritesText (Writer.lsbOutputf text) text where
  emits := by
    constructor
    · intro s t hrun
      unfold Writer.lsbOutputf at hrun
      rw [Computation.run_ofFun] at hrun
      split at hrun
      · cases hrun
      · rename_i r hexpand
        cases hrun
        have hkept := expandDoubled_kept hexpand
        have hsame : r.val.contents = s.ob.contents := by
          unfold OutputBuffer.contents
          rw [hkept.1, hkept.2.1]
        have happend := r.val.contents_append text
          (Nat.le_of_succ_le r.property)
        rw [hsame] at happend
        refine ⟨⟨?_, hkept.2.2, rfl⟩, expandDoubled_fits hexpand⟩
        change _ = s.ob.contents ++ text
        rw [← happend]
        exact OutputBuffer.contents_overwrite_pos _ _
    · intro s e t hrun halloc
      unfold Writer.lsbOutputf at hrun
      rw [Computation.run_ofFun] at hrun
      split at hrun
      · rename_i hexpand
        cases hrun
        exact Nat.not_le_of_lt (expandDoubled_full hexpand halloc)
      · cases hrun
  kept := by
    intro s e t hrun
    unfold Writer.lsbOutputf at hrun
    rw [Computation.run_ofFun] at hrun
    split at hrun
    · cases hrun
      have hcontents := contents_cutText s.ob text
      exact ⟨hcontents.trans (List.append_nil _).symm,
        maxsize_cutText s.ob text, rfl⟩
    · cases hrun

theorem writesText_outputd (format : Double.Value -> List UInt8)
    (d : Double.Value) :
    WritesText (Writer.lsbOutputd format d)
      (Writer.outputdText format d) := by
  cases d with
  | nan => exact writesText_outputs _
  | inf negative =>
      cases negative with
      | false => exact writesText_outputs _
      | true => exact writesText_outputs _
  | fin q =>
      change WritesText (Writer.lsbOutputfd format (Double.Value.fin q))
        (outputfdText format Rounding.nearest (Double.Value.fin q))
      unfold Writer.lsbOutputfd outputfdText
      split
      · exact writesText_outputf _
      · exact writesText_outputs _

end Util
end LuaSandbox
