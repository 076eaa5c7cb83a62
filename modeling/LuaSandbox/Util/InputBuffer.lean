import LuaSandbox.Util.HekaMessage
import Mathlib.Data.Nat.Bitwise

/-!
# Input buffers

The buffer that a data stream is read into.  The bytes from `scanpos` to
`readpos` are still to be scanned; room for more is made by shifting them to
the start of the buffer and by reallocating it.
-/

namespace LuaSandbox
namespace Util

open Foundation

/-!
## The buffer
-/

/-- The size of a stream buffer of the C library. -/
def bufsiz : Nat := 8192

structure InputBuffer where
  buf : Nat
  size : Nat
  maxsize : Nat
  readpos : Nat
  scanpos : Nat
  msglen : Nat
  scanpos_le : scanpos <= readpos
  readpos_le : readpos <= size
  size_le : size <= maxsize
  hdr_lt : lsbMaxHdrSize < maxsize
  -- no object is larger, so sums of positions do not wrap around
  maxsize_le : maxsize <= 2 ^ 63

theorem scanpos_zero : (0 : Nat) <= 0 :=
  Nat.le_refl 0

theorem InputBuffer.zero_le_size (b : InputBuffer) : 0 <= b.size :=
  Nat.zero_le _

/-- An empty buffer, if the allocation at `alloc` succeeds. -/
def lsbInitInputBuffer (alloc : Option Nat) (maxMessageSize : Nat)
    (h : maxMessageSize + lsbMaxHdrSize <= 2 ^ 63) : Option InputBuffer :=
  if hzero : maxMessageSize = 0 then
    none
  else
    alloc.map (fun buf => {
      buf := buf
      size := min (maxMessageSize + lsbMaxHdrSize) bufsiz
      maxsize := maxMessageSize + lsbMaxHdrSize
      readpos := 0
      scanpos := 0
      msglen := 0
      scanpos_le := Nat.le_refl 0
      readpos_le := Nat.zero_le _
      size_le := Nat.min_le_left _ _
      hdr_lt := by omega
      maxsize_le := h })

/-- The bytes that are still to be scanned. -/
def InputBuffer.unread (mem : Memory) (b : InputBuffer) : List UInt8 :=
  mem.bytes (b.buf + b.scanpos) (b.readpos - b.scanpos)

theorem InputBuffer.length_unread (mem : Memory) (b : InputBuffer) :
    (b.unread mem).length = b.readpos - b.scanpos :=
  Memory.length_bytes mem _ _

/-!
## Expansion
-/

/-- The least power of two that is not less than a 64-bit number. -/
def lsbLp2 (x : Nat) : Nat :=
  if x = 0 then
    0
  else
    let x := x - 1
    let x := x ||| x >>> 1
    let x := x ||| x >>> 2
    let x := x ||| x >>> 4
    let x := x ||| x >>> 8
    let x := x ||| x >>> 16
    let x := x ||| x >>> 32
    (x + 1) % 2 ^ 64

theorem or_shiftRight_bounds {x y k : Nat} (h : x <= y ∧ y < 2 ^ 63) :
    x <= (y ||| y >>> k) ∧ (y ||| y >>> k) < 2 ^ 63 := by
  have hshift : y >>> k < 2 ^ 63 :=
    Nat.lt_of_le_of_lt (Nat.shiftRight_le y k) h.2
  exact ⟨Nat.le_trans h.1 Nat.left_le_or, Nat.or_lt_two_pow h.2 hshift⟩

theorem le_lsbLp2 {x : Nat} (h : x <= 2 ^ 63) : x <= lsbLp2 x := by
  unfold lsbLp2
  split
  · omega
  · have hstart : x - 1 <= x - 1 ∧ x - 1 < 2 ^ 63 := by omega
    rcases or_shiftRight_bounds (k := 32) (or_shiftRight_bounds (k := 16)
      (or_shiftRight_bounds (k := 8) (or_shiftRight_bounds (k := 4)
      (or_shiftRight_bounds (k := 2) (or_shiftRight_bounds (k := 1)
      hstart))))) with ⟨hle, hlt⟩
    dsimp only
    rw [Nat.mod_eq_of_lt (by omega)]
    omega

theorem lsbLp2_le {x : Nat} (h : x <= 2 ^ 63) : lsbLp2 x <= 2 ^ 63 := by
  unfold lsbLp2
  split
  · omega
  · have hstart : x - 1 <= x - 1 ∧ x - 1 < 2 ^ 63 := by omega
    rcases or_shiftRight_bounds (k := 32) (or_shiftRight_bounds (k := 16)
      (or_shiftRight_bounds (k := 8) (or_shiftRight_bounds (k := 4)
      (or_shiftRight_bounds (k := 2) (or_shiftRight_bounds (k := 1)
      hstart))))) with ⟨_, hlt⟩
    exact Nat.le_trans (Nat.mod_le _ _) hlt

inductive InputBufferError where
  | full
  | oom
  deriving DecidableEq

/-- Shift the data to the beginning of the buffer. -/
def shiftData (mem : Memory) (b : InputBuffer) : Memory × InputBuffer :=
  if b.scanpos ≠ 0 then
    if b.scanpos = b.readpos then
      (mem, { b with
        scanpos := 0
        readpos := 0
        scanpos_le := Nat.le_refl 0
        readpos_le := Nat.zero_le _ })
    else
      (mem.move b.buf (b.buf + b.scanpos) (b.readpos - b.scanpos), { b with
        readpos := b.readpos - b.scanpos
        scanpos := 0
        scanpos_le := Nat.zero_le _
        readpos_le := Nat.le_trans (Nat.sub_le _ _) b.readpos_le })
  else
    (mem, b)

/-- The size of the buffer that has room for `newsize` bytes. -/
def expandedSize (b : InputBuffer) (newsize : Nat) : Nat :=
  if lsbLp2 newsize > b.maxsize then b.maxsize else lsbLp2 newsize

theorem le_expandedSize {b : InputBuffer} {newsize : Nat}
    (h : newsize <= b.maxsize) : newsize <= expandedSize b newsize := by
  unfold expandedSize
  split
  · exact h
  · exact le_lsbLp2 (Nat.le_trans h b.maxsize_le)

theorem expandedSize_le (b : InputBuffer) (newsize : Nat) :
    expandedSize b newsize <= b.maxsize := by
  unfold expandedSize
  split
  · exact Nat.le_refl _
  · omega

/-- Make room for `len` bytes behind the data; `alloc` is the address that a
reallocation returns. -/
def lsbExpandInputBuffer (mem : Memory) (alloc : Option Nat)
    (b : InputBuffer) (len : Nat) :
    Option InputBufferError × Memory × InputBuffer :=
  match shiftData mem b with
  | (mem, b) =>
      -- the sum of two sizes wraps around
      if hroom : (b.readpos + len) % 2 ^ 64 > b.size then
        if h : (b.readpos + len) % 2 ^ 64 > b.maxsize then
          (some InputBufferError.full, mem, b)
        else
          match alloc with
          | none => (some InputBufferError.oom, mem, b)
          | some tmp =>
              (none, mem.move tmp b.buf b.size, { b with
                buf := tmp
                size := expandedSize b ((b.readpos + len) % 2 ^ 64)
                readpos_le := by
                  have hsize := le_expandedSize (Nat.not_lt.mp h)
                  have hread := b.readpos_le
                  omega
                size_le := expandedSize_le b _ })
      else
        (none, mem, b)

/-- The bytes of an object; no object is larger. -/
def Chunk : Type := { xs : List UInt8 // xs.length < 2 ^ 63 }

/-- Copy data behind the data in the buffer. -/
def addData (mem : Memory) (b : InputBuffer) (data : List UInt8)
    (h : b.readpos + data.length <= b.size) : Memory × InputBuffer :=
  (mem.write (b.buf + b.readpos) data, { b with
    readpos := b.readpos + data.length
    scanpos_le := Nat.le_trans b.scanpos_le (Nat.le_add_right _ _)
    readpos_le := h })

/-!
## What expansion keeps
-/

theorem shiftData_keeps (mem : Memory) (b : InputBuffer) :
    (shiftData mem b).2.unread (shiftData mem b).1 = b.unread mem ∧
      (shiftData mem b).2.msglen = b.msglen ∧
      (shiftData mem b).2.maxsize = b.maxsize := by
  unfold shiftData
  split
  · split
    · rename_i hempty
      refine ⟨?_, rfl, rfl⟩
      simp only [InputBuffer.unread, hempty, Nat.sub_self]
      rfl
    · exact ⟨Memory.bytes_move mem _ _ _, rfl, rfl⟩
  · exact ⟨rfl, rfl, rfl⟩

/-- The buffer of `b` is moved to `tmp`. -/
structure Reallocated (tmp len : Nat) (b b' : InputBuffer) : Prop where
  buf : b'.buf = tmp
  readpos : b'.readpos = b.readpos
  scanpos : b'.scanpos = b.scanpos
  msglen : b'.msglen = b.msglen
  maxsize : b'.maxsize = b.maxsize
  fits : (b'.readpos + len) % 2 ^ 64 <= b'.size
  size : b'.size = expandedSize b ((b.readpos + len) % 2 ^ 64)

/-- What an expansion can do to the shifted data. -/
theorem lsbExpandInputBuffer_cases (mem : Memory) (alloc : Option Nat)
    (b : InputBuffer) (len : Nat) {mem' : Memory} {b' : InputBuffer}
    (hshift : shiftData mem b = (mem', b')) :
    (lsbExpandInputBuffer mem alloc b len = (none, mem', b') ∧
        (b'.readpos + len) % 2 ^ 64 <= b'.size) ∨
      (exists e, lsbExpandInputBuffer mem alloc b len =
          (some e, mem', b') ∧
        b'.size < (b'.readpos + len) % 2 ^ 64 ∧
        (b'.maxsize < (b'.readpos + len) % 2 ^ 64 ∨ alloc = none)) ∨
      (exists tmp b₂, alloc = some tmp ∧
        b'.size < (b'.readpos + len) % 2 ^ 64 ∧
        (b'.readpos + len) % 2 ^ 64 <= b'.maxsize ∧
        lsbExpandInputBuffer mem alloc b len =
          (none, mem'.move tmp b'.buf b'.size, b₂) ∧
        Reallocated tmp len b' b₂) := by
  unfold lsbExpandInputBuffer
  rw [hshift]
  dsimp only
  split
  · rename_i hroom
    split
    · rename_i hfull
      exact Or.inr (Or.inl ⟨_, rfl, hroom, Or.inl hfull⟩)
    · rename_i hfull
      cases alloc with
      | none => exact Or.inr (Or.inl ⟨_, rfl, hroom, Or.inr rfl⟩)
      | some tmp =>
          have hle := Nat.not_lt.mp hfull
          refine Or.inr (Or.inr ⟨tmp, _, rfl, hroom, hle, rfl, ?_⟩)
          exact ⟨rfl, rfl, rfl, rfl, rfl, le_expandedSize hle, rfl⟩
  · rename_i hroom
    exact Or.inl ⟨rfl, Nat.not_lt.mp hroom⟩

theorem unread_reallocated {mem : Memory} {tmp len : Nat}
    {b b' : InputBuffer} (h : Reallocated tmp len b b') :
    b'.unread (mem.move tmp b.buf b.size) = b.unread mem := by
  have hscan := b.scanpos_le
  have hread := b.readpos_le
  rw [InputBuffer.unread, h.buf, h.readpos, h.scanpos]
  refine Memory.bytes_congr (fun i hi => ?_)
  simp only [Memory.move]
  rw [if_pos (by omega)]
  congr 1
  omega

/-- Expansion keeps the data, also if it fails. -/
theorem lsbExpandInputBuffer_keeps {mem mem' : Memory} {alloc : Option Nat}
    {b b' : InputBuffer} {len : Nat} {e : Option InputBufferError}
    (h : lsbExpandInputBuffer mem alloc b len = (e, mem', b')) :
    b'.unread mem' = b.unread mem ∧ b'.msglen = b.msglen ∧
      b'.maxsize = b.maxsize := by
  have hkeeps := shiftData_keeps mem b
  generalize hshift : shiftData mem b = r at hkeeps
  rcases r with ⟨mem₁, b₁⟩
  rcases lsbExpandInputBuffer_cases mem alloc b len hshift with
    ⟨hexpand, _⟩ | ⟨e', hexpand, _⟩ |
      ⟨tmp, b₂, _, _, _, hexpand, hreallocated⟩
  · rw [hexpand] at h
    cases h
    exact hkeeps
  · rw [hexpand] at h
    cases h
    exact hkeeps
  · rw [hexpand] at h
    cases h
    rw [unread_reallocated hreallocated, hreallocated.msglen,
      hreallocated.maxsize]
    exact hkeeps

theorem lsbExpandInputBuffer_fits {mem mem' : Memory} {alloc : Option Nat}
    {b b' : InputBuffer} {len : Nat}
    (h : lsbExpandInputBuffer mem alloc b len = (none, mem', b')) :
    (b'.readpos + len) % 2 ^ 64 <= b'.size := by
  generalize hshift : shiftData mem b = r
  rcases r with ⟨mem₁, b₁⟩
  rcases lsbExpandInputBuffer_cases mem alloc b len hshift with
    ⟨hexpand, hfits⟩ | ⟨e', hexpand, _⟩ |
      ⟨tmp, b₂, _, _, _, hexpand, hreallocated⟩
  · rw [hexpand] at h
    cases h
    exact hfits
  · rw [hexpand] at h
    cases h
  · rw [hexpand] at h
    cases h
    exact hreallocated.fits

/-- The bytes of an object fit behind the data. -/
theorem lsbExpandInputBuffer_fits_chunk {mem mem' : Memory}
    {alloc : Option Nat} {b b' : InputBuffer} {chunk : Chunk}
    (h : lsbExpandInputBuffer mem alloc b chunk.1.length = (none, mem', b')) :
    b'.readpos + chunk.1.length <= b'.size := by
  have hfits := lsbExpandInputBuffer_fits h
  have hread := b'.readpos_le
  have hsize := b'.size_le
  have hmaxsize := b'.maxsize_le
  have hchunk := chunk.2
  rwa [Nat.mod_eq_of_lt (by omega)] at hfits

theorem unread_addData {mem : Memory} {b : InputBuffer} {data : List UInt8}
    (h : b.readpos + data.length <= b.size) :
    (addData mem b data h).2.unread (addData mem b data h).1 =
      b.unread mem ++ data := by
  have hscan := b.scanpos_le
  have hsplit : b.readpos + data.length - b.scanpos =
      (b.readpos - b.scanpos) + data.length := by omega
  have haddress : b.buf + b.scanpos + (b.readpos - b.scanpos) =
      b.buf + b.readpos := by omega
  simp only [InputBuffer.unread, addData, hsplit, Memory.bytes_add, haddress,
    Memory.bytes_write]
  congr 1
  refine Memory.bytes_congr (fun i hi => ?_)
  exact Memory.write_of_lt (by omega)

end Util
end LuaSandbox
