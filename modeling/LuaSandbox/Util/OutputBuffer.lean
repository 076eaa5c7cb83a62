import LuaSandbox.Util.InputBuffer

/-!
# Output buffers

The growing buffer that messages and payloads are built in.
-/

namespace LuaSandbox
namespace Util

open Foundation

/-- The error values of the library. -/
inductive LsbErr where
  | utilNull
  | utilOom
  | utilFull
  | utilPrange
  | init
  | lua
  | terminated
  | hekaInput
  deriving DecidableEq

namespace LsbErr

def message : LsbErr -> String
  | utilNull => "pointer is NULL"
  | utilOom => "memory allocation failed"
  | utilFull => "buffer full"
  | utilPrange => "parameter out of range"
  | init => "already initialized"
  | lua => "lua error"
  | terminated => "sandbox already terminated"
  | hekaInput => "invalid input"

end LsbErr

def lsbOutputSize : Nat := 1024

/-- The size of a new buffer. -/
def initialSize (maxMessageSize : Nat) : Nat :=
  if maxMessageSize ≠ 0 ∧ maxMessageSize < lsbOutputSize then maxMessageSize
  else lsbOutputSize

theorem initialSize_le (maxMessageSize : Nat) :
    maxMessageSize = 0 ∨ initialSize maxMessageSize <= maxMessageSize := by
  unfold initialSize
  split <;> omega

/-- No object is larger. -/
def maxObjectSize : Nat := 2 ^ 63

/-- A buffer without a limit has the maximum size 0. -/
structure OutputBuffer where
  buf : Memory
  size : Nat
  maxsize : Nat
  pos : Nat
  pos_le : pos <= size
  size_le : maxsize = 0 ∨ size <= maxsize
  size_le_object : size <= maxObjectSize
  initial_le : initialSize maxsize <= size

namespace OutputBuffer

/-- The bytes that were written. -/
def contents (b : OutputBuffer) : List UInt8 :=
  b.buf.bytes 0 b.pos

theorem length_contents (b : OutputBuffer) : b.contents.length = b.pos :=
  Memory.length_bytes b.buf 0 b.pos

theorem contents_eq_iff {b : OutputBuffer} {xs : List UInt8} :
    b.contents = xs <-> b.pos = xs.length ∧ Memory.BytesAt b.buf 0 xs := by
  constructor
  · rintro rfl
    exact ⟨b.length_contents.symm, Memory.bytesAt_bytes b.buf 0 b.pos⟩
  · rintro ⟨hpos, hbytes⟩
    unfold contents
    rw [hpos]
    exact Memory.bytes_of_bytesAt hbytes

/-- Throw the contents away. -/
def clear (b : OutputBuffer) : OutputBuffer :=
  { b with pos := 0, pos_le := Nat.zero_le _ }

/-- Write behind the contents. -/
def append (b : OutputBuffer) (xs : List UInt8)
    (h : b.pos + xs.length <= b.size) : OutputBuffer :=
  { b with
    buf := b.buf.write b.pos xs
    pos := b.pos + xs.length
    pos_le := h }

/-- Write somewhere else. -/
def overwrite (b : OutputBuffer) (i : Nat) (xs : List UInt8) : OutputBuffer :=
  { b with buf := b.buf.write i xs }

/-- Move `n` bytes, and the position by `shift`. -/
def shift (b : OutputBuffer) (dst src n shift : Nat)
    (h : b.pos + shift <= b.size) : OutputBuffer :=
  { b with buf := b.buf.move dst src n, pos := b.pos + shift, pos_le := h }

/-- How large the buffer may get. -/
def capacity (b : OutputBuffer) : Nat :=
  if b.maxsize = 0 then maxObjectSize else min b.maxsize maxObjectSize

theorem size_le_capacity (b : OutputBuffer) : b.size <= b.capacity := by
  have hsize := b.size_le
  have hobject := b.size_le_object
  unfold capacity
  split <;> omega

theorem capacity_le (b : OutputBuffer) : b.capacity <= maxObjectSize := by
  unfold capacity
  split <;> omega

theorem pos_le_capacity (b : OutputBuffer) : b.pos <= b.capacity :=
  Nat.le_trans b.pos_le b.size_le_capacity

theorem capacity_congr {b c : OutputBuffer} (h : c.maxsize = b.maxsize) :
    c.capacity = b.capacity := by
  unfold capacity
  rw [h]

theorem contents_append (b : OutputBuffer) (xs : List UInt8)
    (h : b.pos + xs.length <= b.size) :
    (b.append xs h).contents = b.contents ++ xs := by
  rw [contents_eq_iff, List.length_append, length_contents,
    Memory.bytesAt_append, length_contents, Nat.zero_add]
  refine ⟨rfl, ?_, Memory.bytesAt_write b.buf b.pos xs⟩
  apply Memory.bytesAt_write_of_disjoint (Memory.bytesAt_bytes b.buf 0 b.pos)
  rw [Memory.length_bytes]
  omega

/-- Bytes in the contents are replaced by as many others. -/
theorem contents_overwrite {b : OutputBuffer} {A X Y B : List UInt8}
    (h : b.contents = A ++ X ++ B) (hlength : Y.length = X.length) :
    (b.overwrite A.length Y).contents = A ++ Y ++ B := by
  rw [contents_eq_iff] at h ⊢
  rw [Memory.bytesAt_append, Memory.bytesAt_append] at h ⊢
  rcases h with ⟨hpos, ⟨hA, _⟩, hB⟩
  refine ⟨?_, ⟨?_, ?_⟩, ?_⟩
  · change b.pos = _
    rw [hpos]
    simp [hlength]
  · apply Memory.bytesAt_write_of_disjoint hA
    omega
  · rw [Nat.zero_add]
    exact Memory.bytesAt_write b.buf A.length Y
  · have hsame : 0 + (A ++ Y).length = 0 + (A ++ X).length := by
      simp [hlength]
    rw [hsame]
    apply Memory.bytesAt_write_of_disjoint hB
    right
    simp [hlength]

/-- A byte behind the contents is written. -/
theorem contents_overwrite_pos (b : OutputBuffer) (xs : List UInt8) :
    (b.overwrite b.pos xs).contents = b.contents := by
  rw [contents_eq_iff]
  refine ⟨b.length_contents.symm, ?_⟩
  apply Memory.bytesAt_write_of_disjoint (Memory.bytesAt_bytes b.buf 0 b.pos)
  rw [Memory.length_bytes]
  omega

/-- Room is made in the contents: the bytes `B` are moved. -/
theorem contents_shift {b : OutputBuffer} {A X B : List UInt8} {n : Nat}
    (h : b.contents = A ++ X ++ B) (hroom : b.pos + n <= b.size) :
    exists Y, Y.length = X.length + n ∧
      (b.shift (A.length + X.length + n) (A.length + X.length) B.length n
        hroom).contents = A ++ Y ++ B := by
  rw [contents_eq_iff] at h
  rw [Memory.bytesAt_append, Memory.bytesAt_append] at h
  rcases h with ⟨hpos, ⟨hA, _⟩, hB⟩
  rw [Nat.zero_add, List.length_append] at hB
  rw [List.length_append, List.length_append] at hpos
  refine ⟨(b.buf.move (A.length + X.length + n) (A.length + X.length)
    B.length).bytes A.length (X.length + n), Memory.length_bytes _ _ _, ?_⟩
  rw [contents_eq_iff]
  rw [Memory.bytesAt_append, Memory.bytesAt_append, List.length_append,
    List.length_append, Memory.length_bytes]
  refine ⟨?_, ⟨?_, ?_⟩, ?_⟩
  · change b.pos + n = _
    omega
  · apply Memory.bytesAt_move_of_disjoint hA
    omega
  · rw [Nat.zero_add]
    exact Memory.bytesAt_bytes _ _ _
  · rw [Nat.zero_add, ← Nat.add_assoc]
    exact Memory.bytesAt_move hB

end OutputBuffer

/-- A buffer whose memory is `buf`. -/
def lsbInitOutputBuffer (buf : Memory) (maxMessageSize : Nat) :
    OutputBuffer where
  buf := buf
  size := initialSize maxMessageSize
  maxsize := maxMessageSize
  pos := 0
  pos_le := Nat.zero_le _
  size_le := initialSize_le maxMessageSize
  size_le_object := by
    unfold initialSize maxObjectSize lsbOutputSize
    split <;> omega
  initial_le := Nat.le_refl _

/-- A buffer with room for `needed` more bytes. -/
abbrev Room (needed : Nat) : Type :=
  { b : OutputBuffer // b.pos + needed <= b.size }

/-- A new size, cut down to the maximum. -/
def OutputBuffer.capped (b : OutputBuffer) (newsize : Nat) : Nat :=
  if b.maxsize ≠ 0 ∧ b.maxsize < newsize then b.maxsize else newsize

theorem OutputBuffer.capped_le (b : OutputBuffer) (newsize : Nat) :
    b.maxsize = 0 ∨ b.capped newsize <= b.maxsize := by
  unfold capped
  split
  · exact Or.inr (Nat.le_refl _)
  · omega

theorem OutputBuffer.capped_le_self (b : OutputBuffer) (newsize : Nat) :
    b.capped newsize <= newsize := by
  unfold capped
  split
  · rename_i h
    exact Nat.le_of_lt h.2
  · exact Nat.le_refl _

theorem OutputBuffer.le_capped {b : OutputBuffer} {n newsize : Nat}
    (hlimit : b.maxsize = 0 ∨ n <= b.maxsize) (h : n <= newsize) :
    n <= b.capped newsize := by
  unfold capped
  split <;> omega

/-- Make room for `needed` more bytes; `alloc` tells for which sizes a
reallocation succeeds. -/
def lsbExpandOutputBuffer (alloc : Nat -> Bool) (b : OutputBuffer)
    (needed : Nat) : Except LsbErr (Room needed) :=
  if hroom : needed <= b.size - b.pos then
    Except.ok ⟨b, by have := b.pos_le; omega⟩
  else if hfull : b.maxsize ≠ 0 ∧ b.maxsize < needed + b.pos then
    Except.error LsbErr.utilFull
  else if hsize : maxObjectSize < b.pos + needed ∨
      alloc (b.capped (lsbLp2 (b.pos + needed))) = false then
    Except.error LsbErr.utilOom
  else
    have hneeded : b.pos + needed <= b.capped (lsbLp2 (b.pos + needed)) :=
      OutputBuffer.le_capped (by omega)
        (le_lsbLp2 (Nat.le_of_not_lt (fun h => hsize (Or.inl h))))
    Except.ok ⟨{ b with
      size := b.capped (lsbLp2 (b.pos + needed))
      pos_le := Nat.le_of_add_right_le hneeded
      size_le := b.capped_le _
      size_le_object :=
        Nat.le_trans (b.capped_le_self _)
          (lsbLp2_le (Nat.le_of_not_lt (fun h => hsize (Or.inl h))))
      initial_le := by
        have hinitial := b.initial_le
        have hpos := b.pos_le
        exact Nat.le_trans (Nat.le_trans hinitial (by omega)) hneeded },
      hneeded⟩

section

variable {alloc : Nat -> Bool} {b : OutputBuffer} {needed : Nat}

/-- Making room changes nothing but the size. -/
theorem lsbExpandOutputBuffer_kept {r : Room needed}
    (h : lsbExpandOutputBuffer alloc b needed = Except.ok r) :
    r.val.buf = b.buf ∧ r.val.pos = b.pos ∧ r.val.maxsize = b.maxsize := by
  unfold lsbExpandOutputBuffer at h
  split at h
  · cases h
    exact ⟨rfl, rfl, rfl⟩
  split at h
  · cases h
  split at h
  · cases h
  · cases h
    exact ⟨rfl, rfl, rfl⟩

theorem lsbExpandOutputBuffer_room (h : b.pos + needed <= b.size) :
    lsbExpandOutputBuffer alloc b needed = Except.ok ⟨b, h⟩ := by
  unfold lsbExpandOutputBuffer
  rw [dif_pos (by omega)]

theorem lsbExpandOutputBuffer_fits {r : Room needed}
    (h : lsbExpandOutputBuffer alloc b needed = Except.ok r) :
    b.pos + needed <= b.capacity := by
  have hkept := lsbExpandOutputBuffer_kept h
  have hroom := r.property
  rw [hkept.2.1] at hroom
  rw [← OutputBuffer.capacity_congr hkept.2.2]
  exact Nat.le_trans hroom r.val.size_le_capacity

/-- Room is made unless the buffer would get too large or memory runs out. -/
theorem lsbExpandOutputBuffer_full {e : LsbErr}
    (h : lsbExpandOutputBuffer alloc b needed = Except.error e)
    (halloc : forall n, alloc n = true) : b.capacity < b.pos + needed := by
  unfold lsbExpandOutputBuffer at h
  split at h
  · cases h
  split at h
  · unfold OutputBuffer.capacity
    split <;> omega
  split at h
  · rename_i hobject
    rw [halloc] at hobject
    rcases hobject with hobject | hfailed
    · unfold OutputBuffer.capacity
      split <;> omega
    · cases hfailed
  · cases h

end

end Util
end LuaSandbox
