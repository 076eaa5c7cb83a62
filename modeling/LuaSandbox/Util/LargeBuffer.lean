import LuaSandbox.Util.InputBuffer

/-!
# Input buffers of any maximum size

The maximum size of an input buffer is any size that its user asks for.  The
size of a reallocation is rounded up to a power of two, and beyond the largest
power it wraps around.
-/

namespace LuaSandbox
namespace Util

open Foundation

/-!
## Rounding up
-/

/-- The `k` highest bits of a word are set. -/
def TopBits (k y : Nat) : Prop :=
  forall i, 64 - k <= i -> i < 64 -> y.testBit i = true

theorem topBits_or {k y : Nat} (h : TopBits k y) :
    TopBits (k + k) (y ||| y >>> k) := by
  intro i hlow hhigh
  rw [Nat.testBit_or, Nat.testBit_shiftRight]
  by_cases hi : 64 - k <= i
  · rw [h i hi hhigh, Bool.true_or]
  · rw [h (k + i) (by omega) (by omega), Bool.or_true]

theorem eq_of_topBits {y : Nat} (h : TopBits 64 y) (hlt : y < 2 ^ 64) :
    y = 2 ^ 64 - 1 := by
  apply Nat.eq_of_testBit_eq
  intro i
  rw [Nat.testBit_two_pow_sub_one]
  by_cases hi : i < 64
  · rw [h i (by omega) hi, decide_eq_true hi]
  · rw [decide_eq_false hi]
    exact Nat.testBit_lt_two_pow
      (Nat.lt_of_lt_of_le hlt (Nat.pow_le_pow_right (by decide) (by omega)))

theorem or_shiftRight_lt {y k : Nat} (h : y < 2 ^ 64) :
    y ||| y >>> k < 2 ^ 64 :=
  Nat.or_lt_two_pow h (Nat.lt_of_le_of_lt (Nat.shiftRight_le y k) h)

/-- Beyond the largest power of two nothing is left. -/
theorem lsbLp2_wrap {x : Nat} (h : 2 ^ 63 < x) (hlt : x < 2 ^ 64) :
    lsbLp2 x = 0 := by
  have hstart : TopBits 1 (x - 1) := by
    intro i hlow hhigh
    have hi : i = 63 := by omega
    subst hi
    rw [Nat.testBit_eq_decide_div_mod_eq]
    apply decide_eq_true
    omega
  have hbits := topBits_or (topBits_or (topBits_or (topBits_or (topBits_or
    (topBits_or hstart)))))
  have hword : x - 1 < 2 ^ 64 := by omega
  have hall := eq_of_topBits hbits (or_shiftRight_lt (or_shiftRight_lt
    (or_shiftRight_lt (or_shiftRight_lt (or_shiftRight_lt
      (or_shiftRight_lt hword))))))
  unfold lsbLp2
  rw [if_neg (by omega)]
  exact congrArg (fun y => (y + 1) % 2 ^ 64) hall

/-!
## The buffer
-/

/-- An input buffer and the number of bytes that are allocated for it, if its
memory was not freed. -/
structure LargeBuffer where
  buf : Nat
  block : Option Nat
  size : Nat
  maxsize : Nat
  readpos : Nat
  scanpos : Nat
  msglen : Nat
  deriving DecidableEq

/-- The positions are in order and lie in the buffer. -/
structure LargeBuffer.Ordered (b : LargeBuffer) : Prop where
  scanpos_le : b.scanpos <= b.readpos
  readpos_le : b.readpos <= b.size
  size_le : b.size <= b.maxsize
  maxsize_lt : b.maxsize < 2 ^ 64
  block : b.block = some b.size

/-- The bytes that are still to be scanned. -/
def LargeBuffer.pending (mem : Memory) (b : LargeBuffer) :
    Option (List UInt8) :=
  b.block.map (fun _ => mem.bytes (b.buf + b.scanpos) (b.readpos - b.scanpos))

namespace LargeBuffer

/-- A new buffer; `alloc` is the address that the allocation returns. -/
def lsbInitInputBuffer (alloc : Option Nat) (maxMessageSize : Nat) : Option LargeBuffer :=
  if maxMessageSize = 0 then
    none
  else
    let max := (maxMessageSize + lsbMaxHdrSize) % 2 ^ 64
    alloc.map (fun buf => {
      buf := buf
      block := some (if max < bufsiz then max else bufsiz)
      size := if max < bufsiz then max else bufsiz
      maxsize := max
      readpos := 0
      scanpos := 0
      msglen := 0 })

/-- Shift the data to the beginning of the buffer. -/
def shift (mem : Memory) (b : LargeBuffer) : Memory × LargeBuffer :=
  if b.scanpos ≠ 0 then
    if b.scanpos = b.readpos then
      (mem, { b with scanpos := 0, readpos := 0 })
    else
      (mem.move b.buf (b.buf + b.scanpos) (b.readpos - b.scanpos),
        { b with readpos := b.readpos - b.scanpos, scanpos := 0 })
  else
    (mem, b)

/-- Reallocate the buffer; a reallocation to no bytes frees it, whatever it
returns. -/
def reallocate (mem : Memory) (alloc : Nat -> Option Nat) (b : LargeBuffer)
    (newsize : Nat) : Option InputBufferError × Memory × LargeBuffer :=
  match alloc newsize with
  | some tmp =>
      (none, mem.move tmp b.buf (min b.size newsize),
        { b with buf := tmp, block := some newsize, size := newsize })
  | none =>
      (some InputBufferError.oom, mem,
        if newsize = 0 then { b with block := none } else b)

/-- Make room for `len` bytes behind the data; `alloc` tells what a
reallocation to a size returns. -/
def lsbExpandInputBuffer (mem : Memory) (alloc : Nat -> Option Nat) (b : LargeBuffer)
    (len : Nat) : Option InputBufferError × Memory × LargeBuffer :=
  match shift mem b with
  | (mem, b) =>
      let newsize := (b.readpos + len) % 2 ^ 64
      if newsize > b.size then
        if newsize > b.maxsize then
          (some InputBufferError.full, mem, b)
        else
          let newsize := lsbLp2 newsize
          reallocate mem alloc b
            (if newsize > b.maxsize then b.maxsize else newsize)
      else
        (none, mem, b)

end LargeBuffer

/-- An expansion keeps what is pending, and makes room if it can. -/
structure Expands (mem : Memory) (b : LargeBuffer) (len : Nat)
    (r : Option InputBufferError × Memory × LargeBuffer) : Prop where
  pending : r.2.2.pending r.2.1 = b.pending mem
  msglen : r.2.2.msglen = b.msglen
  ordered : r.2.2.Ordered
  size_le : b.size <= r.2.2.size
  full : r.1 = some InputBufferError.full <->
    b.maxsize < b.readpos - b.scanpos + len
  room : r.1 = none -> r.2.2.readpos + len <= r.2.2.size

/-!
## What an expansion does
-/

section

variable {mem : Memory} {alloc : Nat -> Option Nat} {b : LargeBuffer}
  {len : Nat}

theorem LargeBuffer.lsbInitInputBuffer_ordered {b : LargeBuffer} {alloc : Option Nat}
    {max : Nat} (h : LargeBuffer.lsbInitInputBuffer alloc max = some b) : b.Ordered := by
  unfold LargeBuffer.lsbInitInputBuffer at h
  split at h
  · cases h
  rcases Option.map_eq_some_iff.mp h with ⟨buf, _, rfl⟩
  refine ⟨Nat.le_refl 0, Nat.zero_le _, ?_, Nat.mod_lt _ (by decide), rfl⟩
  dsimp only
  split <;> omega

/-- The data are moved to the start of the buffer. -/
structure Shifted (mem mem' : Memory) (b b' : LargeBuffer) : Prop where
  buf : b'.buf = b.buf
  block : b'.block = b.block
  size : b'.size = b.size
  maxsize : b'.maxsize = b.maxsize
  msglen : b'.msglen = b.msglen
  scanpos : b'.scanpos = 0
  readpos : b'.readpos = b.readpos - b.scanpos
  bytes : mem'.bytes b'.buf b'.readpos =
    mem.bytes (b.buf + b.scanpos) (b.readpos - b.scanpos)

theorem LargeBuffer.shift_shifted (mem : Memory) (b : LargeBuffer) :
    Shifted mem (b.shift mem).1 b (b.shift mem).2 := by
  unfold LargeBuffer.shift
  split
  · split
    · rename_i hempty
      have hzero : 0 = b.readpos - b.scanpos := by omega
      refine ⟨rfl, rfl, rfl, rfl, rfl, rfl, hzero, ?_⟩
      rw [← hzero]
      rfl
    · exact ⟨rfl, rfl, rfl, rfl, rfl, rfl, rfl, Memory.bytes_move mem _ _ _⟩
  · rename_i hscan
    have hzero : b.scanpos = 0 := not_not.mp hscan
    refine ⟨rfl, rfl, rfl, rfl, rfl, hzero, ?_, ?_⟩
    · rw [hzero, Nat.sub_zero]
    · rw [hzero, Nat.sub_zero, Nat.add_zero]

/-- The rounding to a power of two wraps around. -/
def LargeBuffer.Wraps (b : LargeBuffer) (len : Nat) : Prop :=
  b.size < b.readpos - b.scanpos + len ∧
    2 ^ 63 < b.readpos - b.scanpos + len ∧
    b.readpos - b.scanpos + len <= b.maxsize

theorem Shifted.ordered {mem mem' : Memory} {b b' : LargeBuffer}
    (h : Shifted mem mem' b b') (hb : b.Ordered) : b'.Ordered where
  scanpos_le := by
    rw [h.scanpos]
    exact Nat.zero_le _
  readpos_le := by
    have hread := hb.readpos_le
    rw [h.readpos, h.size]
    omega
  size_le := by
    rw [h.size, h.maxsize]
    exact hb.size_le
  maxsize_lt := by
    rw [h.maxsize]
    exact hb.maxsize_lt
  block := by
    rw [h.block, h.size]
    exact hb.block

theorem Shifted.pending {mem mem' : Memory} {b b' : LargeBuffer}
    (h : Shifted mem mem' b b') : b'.pending mem' = b.pending mem := by
  unfold LargeBuffer.pending
  rw [h.block, h.scanpos, Nat.add_zero, Nat.sub_zero, h.bytes]

/-- An expansion that only shifts the data. -/
theorem expands_shifted {e : Option InputBufferError} {mem' : Memory}
    {b' : LargeBuffer} (h : Shifted mem mem' b b') (hb : b.Ordered)
    (hfull : e = some InputBufferError.full <->
      b.maxsize < b.readpos - b.scanpos + len)
    (hroom : e = none -> b'.readpos + len <= b'.size) :
    Expands mem b len (e, mem', b') where
  pending := h.pending
  msglen := h.msglen
  ordered := h.ordered hb
  size_le := Nat.le_of_eq h.size.symm
  full := hfull
  room := hroom

theorem pending_reallocated (mem : Memory) {b : LargeBuffer} {n : Nat}
    (tmp : Nat) (hb : b.Ordered) (hle : b.size <= n) :
    ({ b with buf := tmp, block := some n, size := n } :
        LargeBuffer).pending (mem.move tmp b.buf (min b.size n)) =
      b.pending mem := by
  have hscan := hb.scanpos_le
  have hread := hb.readpos_le
  unfold LargeBuffer.pending
  rw [hb.block, Nat.min_eq_left hle]
  refine congrArg some (Memory.bytes_congr (fun i hi => ?_))
  dsimp only at hi ⊢
  simp only [Memory.move]
  rw [if_pos (by omega)]
  congr 1
  omega

/-- A reallocation to a size that is not smaller. -/
theorem expands_reallocated {mem' : Memory} {b' : LargeBuffer} {n : Nat}
    (h : Shifted mem mem' b b') (hb : b.Ordered)
    (hroom : b'.readpos + len <= n) (hn : b.size < n) (hmax : n <= b.maxsize)
    (hfit : b.readpos - b.scanpos + len <= b.maxsize) :
    Expands mem b len (b'.reallocate mem' alloc n) := by
  have hb' := h.ordered hb
  have hread := hb'.readpos_le
  have hsize := h.size
  unfold LargeBuffer.reallocate
  cases alloc n with
  | none =>
      dsimp only
      rw [if_neg (by omega)]
      apply expands_shifted h hb
      · exact iff_of_false nofun (Nat.not_lt.mpr hfit)
      · exact nofun
  | some tmp =>
      have hpending := pending_reallocated mem' (n := n) tmp
        hb' (by omega)
      refine ⟨hpending.trans h.pending, h.msglen, ?_, ?_, ?_, fun _ => hroom⟩
      · refine ⟨hb'.scanpos_le, ?_, ?_, hb'.maxsize_lt, rfl⟩
        · change b'.readpos <= n
          omega
        · change n <= b'.maxsize
          rw [h.maxsize]
          exact hmax
      · exact Nat.le_of_lt hn
      · exact iff_of_false nofun (Nat.not_lt.mpr hfit)

/-- A reallocation to no bytes loses the buffer. -/
theorem not_expands_zero {mem' : Memory} {b' : LargeBuffer}
    (hlen : 0 < b'.readpos + len) :
    ¬ Expands mem b len (b'.reallocate mem' alloc 0) := by
  intro h
  unfold LargeBuffer.reallocate at h
  cases halloc : alloc 0 with
  | none =>
      rw [halloc] at h
      cases h.ordered.block
  | some tmp =>
      rw [halloc] at h
      have hroom : b'.readpos + len <= 0 := h.room rfl
      omega

/-- An expansion does what it has to do exactly if the rounding of the new size
does not wrap around. -/
theorem lsbExpandInputBuffer_expands_iff (mem : Memory)
    (alloc : Nat -> Option Nat) {b : LargeBuffer} {len : Nat}
    (hb : b.Ordered) (hlen : b.readpos + len < 2 ^ 64) :
    Expands mem b len (b.lsbExpandInputBuffer mem alloc len) <->
      ¬ b.Wraps len := by
  have hshift := b.shift_shifted mem
  generalize hs : b.shift mem = s at hshift
  rcases s with ⟨mem', b'⟩
  have hsum : (b'.readpos + len) % 2 ^ 64 = b.readpos - b.scanpos + len := by
    rw [hshift.readpos]
    omega
  have hreadpos := hshift.readpos
  have hsize := hb.size_le
  have hmax := hb.maxsize_lt
  have hsize' := hshift.size
  have hmaxsize' := hshift.maxsize
  unfold LargeBuffer.lsbExpandInputBuffer
  rw [hs]
  dsimp only at hshift hreadpos hsum hsize' hmaxsize' ⊢
  rw [hsum]
  unfold LargeBuffer.Wraps
  by_cases hgrow : b.size < b.readpos - b.scanpos + len
  · rw [if_pos (by omega)]
    by_cases hfull : b.maxsize < b.readpos - b.scanpos + len
    · rw [if_pos (by omega)]
      refine iff_of_true ?_ (by omega)
      exact expands_shifted hshift hb (iff_of_true rfl hfull) nofun
    · rw [if_neg (by omega)]
      by_cases hwrap : 2 ^ 63 < b.readpos - b.scanpos + len
      · refine iff_of_false ?_ (by omega)
        rw [lsbLp2_wrap hwrap (by omega), if_neg (by omega)]
        exact not_expands_zero (by omega)
      · refine iff_of_true ?_ (by omega)
        have hround := le_lsbLp2 (Nat.not_lt.mp hwrap)
        apply expands_reallocated hshift hb
        · split <;> omega
        · split <;> omega
        · split <;> omega
        · omega
  · rw [if_neg (by omega)]
    refine iff_of_true ?_ (by omega)
    apply expands_shifted hshift hb
    · exact iff_of_false nofun (by omega)
    · intro _
      omega

end

/-!
A buffer for messages of `2 ^ 63` bytes that holds one byte.
-/

def largeSample : LargeBuffer :=
  ⟨0, some bufsiz, bufsiz, 2 ^ 63 + lsbMaxHdrSize, 1, 0, 0⟩

theorem largeSample_ordered : largeSample.Ordered :=
  ⟨by decide, by decide, by decide, by decide, rfl⟩

theorem lsbExpandInputBuffer_expands_one :
    Expands (fun _ => 0) largeSample 1
      (largeSample.lsbExpandInputBuffer (fun _ => 0) (fun _ => none) 1) :=
  (lsbExpandInputBuffer_expands_iff (fun _ => 0) (fun _ => none)
    largeSample_ordered (by decide)).mpr (by
      unfold LargeBuffer.Wraps
      decide)

theorem lsbExpandInputBuffer_freed :
    ¬ Expands (fun _ => 0) largeSample (2 ^ 63)
      (largeSample.lsbExpandInputBuffer (fun _ => 0) (fun _ => none)
        (2 ^ 63)) := by
  intro h
  have hblock := h.ordered.block
  exact absurd hblock (by decide)

/-!
## Buffers below the largest power of two
-/

def InputBuffer.toLarge (b : InputBuffer) : LargeBuffer :=
  ⟨b.buf, some b.size, b.size, b.maxsize, b.readpos, b.scanpos, b.msglen⟩

theorem InputBuffer.toLarge_ordered (b : InputBuffer) :
    b.toLarge.Ordered :=
  ⟨b.scanpos_le, b.readpos_le, b.size_le,
    Nat.lt_of_le_of_lt b.maxsize_le (by decide), rfl⟩

theorem shift_toLarge (mem : Memory) (b : InputBuffer) :
    b.toLarge.shift mem =
      ((shiftData mem b).1, (shiftData mem b).2.toLarge) := by
  unfold LargeBuffer.shift shiftData
  change (if b.scanpos ≠ 0 then _ else _) = _
  split
  · change (if b.scanpos = b.readpos then _ else _) = _
    split <;> rfl
  · rfl

/-- A buffer whose maximum is no larger than an object is expanded as its
model without overflow is. -/
theorem lsbExpandInputBuffer_toLarge (mem : Memory) (alloc : Option Nat)
    (b : InputBuffer) (len : Nat) :
    b.toLarge.lsbExpandInputBuffer mem (fun _ => alloc) len =
      ((lsbExpandInputBuffer mem alloc b len).1,
        (lsbExpandInputBuffer mem alloc b len).2.1,
        (lsbExpandInputBuffer mem alloc b len).2.2.toLarge) := by
  unfold LargeBuffer.lsbExpandInputBuffer Util.lsbExpandInputBuffer
  rw [shift_toLarge]
  generalize shiftData mem b = s
  rcases s with ⟨mem', b'⟩
  dsimp only
  change (if (b'.readpos + len) % 2 ^ 64 > b'.size then
    if (b'.readpos + len) % 2 ^ 64 > b'.maxsize then _ else _ else _) = _
  by_cases hroom : (b'.readpos + len) % 2 ^ 64 > b'.size
  · rw [if_pos hroom, dif_pos hroom]
    by_cases hfull : (b'.readpos + len) % 2 ^ 64 > b'.maxsize
    · rw [if_pos hfull, dif_pos hfull]
    · rw [if_neg hfull, dif_neg hfull]
      have hsize := le_expandedSize (Nat.not_lt.mp hfull)
      change b'.toLarge.reallocate mem' (fun _ => alloc)
        (expandedSize b' ((b'.readpos + len) % 2 ^ 64)) = _
      unfold LargeBuffer.reallocate
      cases alloc with
      | none =>
          dsimp only
          rw [if_neg (by omega)]
      | some tmp =>
          have hmin : min b'.toLarge.size
              (expandedSize b' ((b'.readpos + len) % 2 ^ 64)) = b'.size := by
            change min b'.size _ = b'.size
            omega
          dsimp only
          rw [hmin]
          rfl
  · rw [if_neg hroom, dif_neg hroom]

end Util
end LuaSandbox
