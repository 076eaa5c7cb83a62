import LuaSandbox.Util.NumberText
import LuaSandbox.Util.OutputBuffer

/-!
# Calls that write to an output buffer

The four writers of an output buffer, with the sizes as 64-bit words, the
arithmetic of `int` and allocations that may fail at any time.
-/

namespace LuaSandbox
namespace Util

open Foundation
open Foundation.Double (Value)

/-!
## The buffer
-/

/-- A size is a 64-bit word. -/
def sizeSub (m n : Nat) : Nat :=
  (m + (2 ^ 64 - n)) % 2 ^ 64

theorem sizeSub_of_le {m n : Nat} (h : n <= m) (hm : m < 2 ^ 64) :
    sizeSub m n = m - n := by
  unfold sizeSub
  omega

structure GrowingBuffer where
  buf : Memory
  size : Nat
  maxsize : Nat
  pos : Nat

/-- What an allocation of a size gives, if it succeeds; nothing is known about
the bytes. -/
abbrev Allocator : Type := Nat -> Option Memory

namespace GrowingBuffer

/-- The bytes that were written. -/
def contents (b : GrowingBuffer) : List UInt8 :=
  b.buf.bytes 0 b.pos

/-- A new size, cut down to the maximum. -/
def capped (b : GrowingBuffer) (newsize : Nat) : Nat :=
  if b.maxsize ≠ 0 ∧ b.maxsize < newsize then b.maxsize else newsize

/-- Write behind the contents, with a NUL at the end. -/
def push (b : GrowingBuffer) (xs : List UInt8) : GrowingBuffer :=
  { b with
    buf := (b.buf.write b.pos xs).write (b.pos + xs.length) [0]
    pos := b.pos + xs.length }

/-- Other memory with the first `n` bytes of the buffer. -/
def moveTo (b : GrowingBuffer) (fresh : Memory) (n size : Nat) :
    GrowingBuffer :=
  { b with buf := fresh.write 0 (b.buf.bytes 0 n), size := size }

end GrowingBuffer

def lsbInitGrowing (malloc : Allocator) (maxMessageSize : Nat) :
    Option GrowingBuffer :=
  (malloc (initialSize maxMessageSize)).map (fun buf =>
    ⟨buf, initialSize maxMessageSize, maxMessageSize, 0⟩)

def lsbExpandGrowing (realloc : Allocator) (b : GrowingBuffer) (needed : Nat) :
    Except LsbErr GrowingBuffer :=
  if needed <= sizeSub b.size b.pos then
    Except.ok b
  else if b.maxsize ≠ 0 ∧ b.maxsize < (needed + b.pos) % 2 ^ 64 then
    Except.error LsbErr.utilFull
  else
    let newsize := b.capped (lsbLp2 ((b.pos + needed) % 2 ^ 64))
    match realloc newsize with
    | none => Except.error LsbErr.utilOom
    | some fresh => Except.ok (b.moveTo fresh (min b.size newsize) newsize)

/-!
## The writers
-/

/-- An error, or nothing, and the buffer. -/
abbrev Outcome : Type := Except LsbErr Unit × GrowingBuffer

/-- Make room for the text and a NUL, and write both. -/
def pushExpanded (realloc : Allocator) (b : GrowingBuffer)
    (xs : List UInt8) : Outcome :=
  match lsbExpandGrowing realloc b ((xs.length + 1) % 2 ^ 64) with
  | Except.error e => (Except.error e, b)
  | Except.ok b' => (Except.ok (), b'.push xs)

def lsbOutputc (realloc : Allocator) (b : GrowingBuffer) (ch : UInt8) :
    Outcome :=
  pushExpanded realloc b [ch]

def GrowingBuffer.lsbOutputs (realloc : Allocator) (b : GrowingBuffer)
    (str : List UInt8) : Outcome :=
  pushExpanded realloc b str

/-- The text cut down to a size, which counts the NUL. -/
def vsnprintf (buf : Memory) (ptr size : Nat) (text : List UInt8) : Memory :=
  if size = 0 then buf else buf.write ptr (text.take (size - 1) ++ [0])

/-- The length of the whole text; one that is no `int` is an error. -/
def vsnprintfResult (text : List UInt8) : Int :=
  if (text.length : Int) <= intMax then text.length else -1

/-- The size is doubled until the text fits. -/
def doubled : Nat -> Nat -> Nat -> Int -> Option Nat
  | 0, _, _, _ => none
  | fuel + 1, newsize, pos, needed =>
      if sizeSub newsize pos <= ofLongLong needed then
        doubled fuel (newsize * 2 % 2 ^ 64) pos needed
      else
        some newsize

/-- The text is written again each time that the buffer has grown. -/
def lsbOutputf (malloc : Allocator) (text : List UInt8) :
    Nat -> GrowingBuffer -> Option Outcome
  | 0, _ => none
  | fuel + 1, b =>
      let remaining := toInt (sizeSub b.size b.pos)
      let b := { b with
        buf := vsnprintf b.buf b.pos (ofLongLong remaining) text }
      let needed :=
        if vsnprintfResult text = -1 then remaining else vsnprintfResult text
      if remaining <= needed then
        if b.maxsize ≠ 0 ∧ (b.maxsize <= b.size ∨
            b.maxsize <= (b.pos + ofLongLong needed) % 2 ^ 64) then
          some (Except.error LsbErr.utilFull, b)
        else
          match doubled fuel (b.size * 2 % 2 ^ 64) b.pos needed with
          | none => none
          | some newsize =>
              match malloc (b.capped newsize) with
              | none => some (Except.error LsbErr.utilOom, b)
              | some p =>
                  lsbOutputf malloc text fuel
                    (b.moveTo p b.pos (b.capped newsize))
      else
        some (Except.ok (), { b with
          pos := (b.pos + ofLongLong needed) % 2 ^ 64 })

section

variable (format : Value -> List UInt8)

/-- A number in range is written digit by digit into the room for it. -/
def lsbOutputfd (alloc : Allocator) (d : Value) (fuel : Nat)
    (b : GrowingBuffer) : Option Outcome :=
  if outOfRange d then
    lsbOutputf alloc (format d) fuel b
  else
    some (pushExpanded alloc b (numberParts Rounding.nearest d).text)

/-- A call of one of the writers. -/
inductive OutputCall where
  | outputc (ch : UInt8)
  | outputs (str : List UInt8)
  | outputf (text : List UInt8)
  | outputfd (d : Value)

namespace OutputCall

/-- What the call writes if it succeeds. -/
def text : OutputCall -> List UInt8
  | outputc ch => [ch]
  | outputs str => str
  | outputf text => text
  | outputfd d => outputfdText format Rounding.nearest d

def run (alloc : Allocator) (fuel : Nat) (b : GrowingBuffer) :
    OutputCall -> Option Outcome
  | outputc ch => some (lsbOutputc alloc b ch)
  | outputs str => some (b.lsbOutputs alloc str)
  | outputf text => lsbOutputf alloc text fuel b
  | outputfd d => lsbOutputfd format alloc d fuel b

end OutputCall

end

/-!
## Memory
-/

namespace GrowingBuffer

theorem contents_congr {b c : GrowingBuffer} (hpos : c.pos = b.pos)
    (h : forall i, i < b.pos -> c.buf i = b.buf i) :
    c.contents = b.contents := by
  unfold contents
  rw [hpos]
  refine Memory.bytes_congr (fun i hi => ?_)
  rw [Nat.zero_add]
  exact h i hi

theorem contents_moveTo (b : GrowingBuffer) (fresh : Memory) {n size : Nat}
    (h : b.pos <= n) : (b.moveTo fresh n size).contents = b.contents := by
  refine contents_congr rfl (fun i hi => ?_)
  have hi' : i < (b.buf.bytes 0 n).length := by
    rw [Memory.length_bytes]
    omega
  have hcopied := Memory.bytesAt_iff.mp
    (Memory.bytesAt_write fresh 0 (b.buf.bytes 0 n)) i hi'
  rw [Nat.zero_add, Memory.getElem_bytes, Nat.zero_add] at hcopied
  exact hcopied

/-- Text behind the contents, with a NUL behind it. -/
theorem contents_of_bytesAt {b c : GrowingBuffer} {xs : List UInt8}
    (hpos : c.pos = b.pos + xs.length)
    (hkept : forall i, i < b.pos -> c.buf i = b.buf i)
    (h : Memory.BytesAt c.buf b.pos (xs ++ [0])) :
    c.contents = b.contents ++ xs ∧ c.buf c.pos = 0 := by
  rw [Memory.bytesAt_append] at h
  unfold contents
  rw [hpos, Memory.bytes_add, Nat.zero_add, Memory.bytes_of_bytesAt h.1]
  refine ⟨congrArg (· ++ xs) (Memory.bytes_congr (fun i hi => ?_)), h.2.1⟩
  rw [Nat.zero_add]
  exact hkept i hi

theorem push_written (b : GrowingBuffer) (xs : List UInt8) :
    (b.push xs).contents = b.contents ++ xs ∧
      (b.push xs).buf (b.push xs).pos = 0 := by
  refine contents_of_bytesAt rfl (fun i hi => ?_) ?_
  · change (b.buf.write b.pos xs).write (b.pos + xs.length) [0] i = b.buf i
    rw [Memory.write_of_lt (Nat.lt_add_right _ hi), Memory.write_of_lt hi]
  · rw [Memory.bytesAt_append]
    refine ⟨?_, Memory.bytesAt_write _ _ _⟩
    exact Memory.bytesAt_write_of_disjoint (Memory.bytesAt_write _ _ _)
      (Or.inl (Nat.le_refl _))

end GrowingBuffer

/-!
## Sizes
-/

theorem or_shiftRight_lt_two_pow {y k m : Nat} (h : y < 2 ^ m) :
    y ||| y >>> k < 2 ^ m :=
  Nat.or_lt_two_pow h (Nat.lt_of_le_of_lt (Nat.shiftRight_le y k) h)

/-- The next power of two is less than twice as large. -/
theorem lsbLp2_le_double {x : Nat} (h : 2 <= x) (hx : x <= 2 ^ 63) :
    lsbLp2 x <= 2 * (x - 1) := by
  have hne : x - 1 ≠ 0 := by omega
  have hself := Nat.log2_self_le hne
  have hstart : x - 1 < 2 ^ ((x - 1).log2 + 1) := Nat.lt_log2_self
  have hlt := or_shiftRight_lt_two_pow (k := 32)
    (or_shiftRight_lt_two_pow (k := 16) (or_shiftRight_lt_two_pow (k := 8)
      (or_shiftRight_lt_two_pow (k := 4) (or_shiftRight_lt_two_pow (k := 2)
        (or_shiftRight_lt_two_pow (k := 1) hstart)))))
  rw [Nat.pow_succ] at hlt
  unfold lsbLp2
  rw [if_neg (by omega)]
  refine Nat.le_trans (Nat.mod_le _ _) (Nat.le_trans (Nat.succ_le_of_lt hlt) ?_)
  omega

/-- Room for a NUL is left, and the size is in proportion to the contents. -/
structure GrowingBuffer.Sound (b : GrowingBuffer) : Prop where
  pos_lt : b.pos < b.size
  size_le : b.maxsize = 0 ∨ b.size <= b.maxsize
  size_small : b.size <= max lsbOutputSize (2 * b.pos)
  size_le_object : b.size <= 2 ^ 63

/-- What a call does to the buffer, whether it succeeds or fails. -/
structure Performs (b : GrowingBuffer) (xs : List UInt8) (o : Outcome) :
    Prop where
  sound : o.2.Sound
  maxsize : o.2.maxsize = b.maxsize
  size_le : b.size <= o.2.size
  written : o.1 = Except.ok () ->
    o.2.contents = b.contents ++ xs ∧ o.2.buf o.2.pos = 0
  kept : forall e, o.1 = Except.error e ->
    o.2.pos = b.pos ∧ o.2.contents = b.contents

theorem Performs.of_error {b : GrowingBuffer} {xs : List UInt8} {e : LsbErr}
    (h : b.Sound) : Performs b xs (Except.error e, b) where
  sound := h
  maxsize := rfl
  size_le := Nat.le_refl _
  written := nofun
  kept _ _ := ⟨rfl, rfl⟩

theorem lsbInitGrowing_sound {malloc : Allocator} {maxMessageSize : Nat}
    {b : GrowingBuffer} (h : lsbInitGrowing malloc maxMessageSize = some b) :
    b.Sound ∧ b.contents = [] ∧ b.maxsize = maxMessageSize := by
  unfold lsbInitGrowing at h
  rcases Option.map_eq_some_iff.mp h with ⟨buf, -, rfl⟩
  refine ⟨⟨?_, initialSize_le maxMessageSize, ?_, ?_⟩, rfl, rfl⟩
  · change 0 < initialSize maxMessageSize
    unfold initialSize lsbOutputSize
    split <;> omega
  · change initialSize maxMessageSize <= max lsbOutputSize 0
    unfold initialSize
    split <;> omega
  · change initialSize maxMessageSize <= 2 ^ 63
    unfold initialSize lsbOutputSize
    split <;> omega

/-- Room is made, and nothing else changes. -/
theorem lsbExpandGrowing_ok {realloc : Allocator} {b b' : GrowingBuffer}
    {needed : Nat} (hb : b.Sound) (hpos : 0 < needed)
    (hfits : b.pos + needed <= 2 ^ 63)
    (h : lsbExpandGrowing realloc b needed = Except.ok b') :
    b'.contents = b.contents ∧ b'.pos = b.pos ∧ b'.maxsize = b.maxsize ∧
      b.size <= b'.size ∧ b.pos + needed <= b'.size ∧
      b'.size <= max lsbOutputSize (2 * (b.pos + needed - 1)) ∧
      (b'.maxsize = 0 ∨ b'.size <= b'.maxsize) ∧ b'.size <= 2 ^ 63 := by
  rcases hb with ⟨hlt, hmax, hsmall, hobject⟩
  unfold lsbExpandGrowing at h
  rw [sizeSub_of_le (Nat.le_of_lt hlt) (by omega)] at h
  split at h
  · cases h
    exact ⟨rfl, rfl, rfl, Nat.le_refl _, by omega, by omega, hmax, hobject⟩
  split at h
  · cases h
  rename_i hroom hfull
  rw [Nat.mod_eq_of_lt (by omega)] at hfull
  rw [Nat.mod_eq_of_lt (by omega)] at h
  have hlow := le_lsbLp2 hfits
  have hhigh := lsbLp2_le hfits
  have hdouble := lsbLp2_le_double (x := b.pos + needed) (by omega) hfits
  have hcapped : b.pos + needed <= b.capped (lsbLp2 (b.pos + needed)) ∧
      b.capped (lsbLp2 (b.pos + needed)) <= lsbLp2 (b.pos + needed) ∧
      (b.maxsize = 0 ∨
        b.capped (lsbLp2 (b.pos + needed)) <= b.maxsize) := by
    unfold GrowingBuffer.capped
    split <;> omega
  dsimp only at h
  split at h
  · cases h
  · cases h
    refine ⟨b.contents_moveTo _ (by omega), rfl, rfl, ?_, hcapped.1, ?_,
      hcapped.2.2, Nat.le_trans hcapped.2.1 hhigh⟩
    · exact Nat.le_trans (by omega) hcapped.1
    · exact Nat.le_trans hcapped.2.1 (Nat.le_trans hdouble (Nat.le_max_right _ _))

/-- The same buffer without its invariant. -/
def OutputBuffer.toGrowing (b : OutputBuffer) : GrowingBuffer :=
  ⟨b.buf, b.size, b.maxsize, b.pos⟩

/-- While the sizes are held by their type, making room is what it is for the
buffer that carries its invariant. -/
theorem lsbExpandGrowing_toGrowing (realloc : Allocator) (b : OutputBuffer)
    {needed : Nat} (hfits : b.pos + needed <= maxObjectSize) :
    match lsbExpandOutputBuffer (fun n => (realloc n).isSome) b needed with
    | Except.error e =>
        lsbExpandGrowing realloc b.toGrowing needed = Except.error e
    | Except.ok r =>
        exists g, lsbExpandGrowing realloc b.toGrowing needed = Except.ok g ∧
          g.size = r.val.size ∧ g.maxsize = r.val.maxsize ∧
          g.pos = r.val.pos ∧ g.contents = r.val.contents := by
  have hpos := b.pos_le
  have hobject := b.size_le_object
  unfold maxObjectSize at hfits hobject
  have hsub : sizeSub b.toGrowing.size b.toGrowing.pos = b.size - b.pos :=
    sizeSub_of_le hpos (by
      change b.size < 2 ^ 64
      omega)
  have hsum : (needed + b.toGrowing.pos) % 2 ^ 64 = needed + b.pos :=
    Nat.mod_eq_of_lt (by
      change needed + b.pos < 2 ^ 64
      omega)
  have hsum' : (b.toGrowing.pos + needed) % 2 ^ 64 = b.pos + needed :=
    Nat.mod_eq_of_lt (by
      change b.pos + needed < 2 ^ 64
      omega)
  have hcapped : b.toGrowing.capped = b.capped := rfl
  unfold lsbExpandOutputBuffer lsbExpandGrowing
  rw [hsub, hsum, hsum', hcapped]
  dsimp only
  by_cases hroom : needed <= b.size - b.pos
  · rw [dif_pos hroom, if_pos hroom]
    exact ⟨_, rfl, rfl, rfl, rfl, rfl⟩
  rw [dif_neg hroom, if_neg hroom]
  by_cases hfull : b.maxsize ≠ 0 ∧ b.maxsize < needed + b.pos
  · rw [dif_pos hfull]
    exact if_pos hfull
  have hfull' : ¬ (b.toGrowing.maxsize ≠ 0 ∧
      b.toGrowing.maxsize < needed + b.pos) := hfull
  rw [dif_neg hfull, if_neg hfull']
  rcases Option.eq_none_or_eq_some
    (realloc (b.capped (lsbLp2 (b.pos + needed)))) with hfailed | ⟨fresh, hfresh⟩
  · rw [dif_pos (Or.inr (by rw [hfailed]; rfl)), hfailed]
  · have hsize : ¬ (maxObjectSize < b.pos + needed ∨
        (realloc (b.capped (lsbLp2 (b.pos + needed)))).isSome = false) := by
      rw [hfresh]
      rintro (hlarge | hfailed)
      · unfold maxObjectSize at hlarge
        omega
      · cases hfailed
    have hlarge : b.pos + needed <= b.capped (lsbLp2 (b.pos + needed)) :=
      OutputBuffer.le_capped (by omega) (le_lsbLp2 hfits)
    rw [dif_neg hsize, hfresh]
    refine ⟨_, rfl, rfl, rfl, rfl, ?_⟩
    exact b.toGrowing.contents_moveTo fresh (by
      change b.pos <= min b.size _
      omega)

/-- The step of the three writers that make room first. -/
theorem pushExpanded_performs {realloc : Allocator} {b : GrowingBuffer}
    {xs : List UInt8} (hb : b.Sound)
    (hfits : b.pos + xs.length + 1 <= 2 ^ 63) :
    Performs b xs (pushExpanded realloc b xs) := by
  unfold pushExpanded
  rw [Nat.mod_eq_of_lt (by omega)]
  cases hexpand : lsbExpandGrowing realloc b (xs.length + 1) with
  | error e => exact Performs.of_error hb
  | ok b' =>
      rcases lsbExpandGrowing_ok hb (by omega) (by omega) hexpand with
        ⟨hcontents, hpos, hmaxsize, hsize, hroom, hsmall, hmax, hobject⟩
      have hwritten := b'.push_written xs
      have hpos' : (b'.push xs).pos = b.pos + xs.length := by
        change b'.pos + xs.length = _
        rw [hpos]
      refine ⟨⟨?_, hmax, ?_, hobject⟩, hmaxsize, hsize, fun _ => ?_, nofun⟩
      · rw [hpos']
        change b.pos + xs.length < b'.size
        omega
      · rw [hpos']
        exact hsmall
      · rw [← hcontents]
        exact hwritten

/-!
## The loop of the formatted text
-/

theorem ofLongLong_natCast {n : Nat} (h : n < 2 ^ 64) :
    ofLongLong n = n := by
  unfold ofLongLong
  omega

/-- Doubling ends at a size that is not twice as large as needed. -/
theorem doubled_some (pos needed : Nat) (hsmall : pos + needed < 2 ^ 32) :
    forall (fuel newsize : Nat), 0 < newsize -> pos <= newsize ->
      newsize <= 2 * (pos + needed) -> pos + needed < newsize * 2 ^ fuel ->
        exists n, doubled (fuel + 1) newsize pos needed = some n ∧
          newsize <= n ∧ pos + needed < n ∧ n <= 2 * (pos + needed) := by
  intro fuel
  induction fuel with
  | zero =>
      intro newsize hzero hpos hle hlt
      unfold doubled
      rw [sizeSub_of_le hpos (by omega), ofLongLong_natCast (by omega),
        if_neg (by omega)]
      exact ⟨newsize, rfl, Nat.le_refl _, by omega, hle⟩
  | succ fuel ih =>
      intro newsize hzero hpos hle hlt
      unfold doubled
      rw [sizeSub_of_le hpos (by omega), ofLongLong_natCast (by omega)]
      split
      · rw [Nat.mod_eq_of_lt (by omega)]
        have hlt' : pos + needed < newsize * 2 * 2 ^ fuel := by
          rwa [Nat.mul_assoc, ← Nat.pow_succ']
        rcases ih (newsize * 2) (by omega) (by omega) (by omega) hlt' with
          ⟨n, hn, hle', hbounds⟩
        exact ⟨n, hn, by omega, hbounds⟩
      · exact ⟨newsize, rfl, Nat.le_refl _, by omega, hle⟩

/-- A buffer in which text was written behind the contents, with the size
that is left there. -/
def GrowingBuffer.printed (b : GrowingBuffer) (text : List UInt8) :
    GrowingBuffer :=
  { b with buf := vsnprintf b.buf b.pos (b.size - b.pos) text }

theorem vsnprintf_of_lt {buf : Memory} {ptr size i : Nat}
    {text : List UInt8} (h : i < ptr) :
    vsnprintf buf ptr size text i = buf i := by
  unfold vsnprintf
  split
  · rfl
  · exact Memory.write_of_lt h

theorem GrowingBuffer.contents_printed (b : GrowingBuffer)
    (text : List UInt8) : (b.printed text).contents = b.contents :=
  contents_congr rfl (fun _ hi => vsnprintf_of_lt hi)

/-- While the lengths fit into `int`, a step of the loop compares them. -/
theorem lsbOutputf_step {malloc : Allocator} {text : List UInt8}
    {fuel : Nat} {b : GrowingBuffer} (hpos : b.pos < b.size)
    (hsize : b.size < 2 ^ 62) (hroom : (b.size : Int) - b.pos <= intMax)
    (hlength : (text.length : Int) <= intMax) :
    lsbOutputf malloc text (fuel + 1) b =
      if b.size - b.pos <= text.length then
        if b.maxsize ≠ 0 ∧
            (b.maxsize <= b.size ∨ b.maxsize <= b.pos + text.length) then
          some (Except.error LsbErr.utilFull, b.printed text)
        else
          match doubled fuel (b.size * 2) b.pos text.length with
          | none => none
          | some newsize =>
              match malloc (b.capped newsize) with
              | none => some (Except.error LsbErr.utilOom, b.printed text)
              | some p =>
                  lsbOutputf malloc text fuel
                    ((b.printed text).moveTo p b.pos (b.capped newsize))
      else
        some (Except.ok (), { b.printed text with
          pos := b.pos + text.length }) := by
  unfold intMax at hroom hlength
  have hsub : sizeSub b.size b.pos = b.size - b.pos :=
    sizeSub_of_le (Nat.le_of_lt hpos) (by omega)
  have hremaining : toInt ((b.size - b.pos : Nat) : Int) =
      ((b.size - b.pos : Nat) : Int) := by
    apply toInt_of_range
    · unfold intMin
      omega
    · unfold intMax
      omega
  have hresult : vsnprintfResult text = text.length := by
    unfold vsnprintfResult
    exact if_pos (by
      unfold intMax
      omega)
  have hne : ¬ ((text.length : Int) = -1) := by omega
  have hmod : b.size * 2 % 2 ^ 64 = b.size * 2 := Nat.mod_eq_of_lt (by omega)
  have hmod' : (b.pos + text.length) % 2 ^ 64 = b.pos + text.length :=
    Nat.mod_eq_of_lt (by omega)
  rw [lsbOutputf, hsub, hremaining, hresult, if_neg hne,
    ofLongLong_natCast (by omega), ofLongLong_natCast (by omega)]
  dsimp only
  rw [hmod, hmod']
  simp only [Int.ofNat_le]
  rfl

/-- The text fits: it is written once. -/
theorem lsbOutputf_fits (malloc : Allocator) (text : List UInt8)
    (fuel : Nat) (b : GrowingBuffer) (hpos : b.pos + text.length < b.size)
    (hsize : b.size < 2 ^ 62) (hroom : (b.size : Int) - b.pos <= intMax) :
    exists b', lsbOutputf malloc text (fuel + 1) b =
        some (Except.ok (), b') ∧
      b'.size = b.size ∧ b'.maxsize = b.maxsize ∧
      b'.pos = b.pos + text.length ∧
      b'.contents = b.contents ++ text ∧ b'.buf b'.pos = 0 := by
  have hwhole : vsnprintf b.buf b.pos (b.size - b.pos) text =
      b.buf.write b.pos (text ++ [0]) := by
    unfold vsnprintf
    rw [if_neg (by omega), List.take_of_length_le (by omega)]
  refine ⟨{ b.printed text with pos := b.pos + text.length }, ?_, rfl, rfl,
    rfl, ?_⟩
  · rw [lsbOutputf_step (by omega) hsize hroom (by omega),
      if_neg (by omega)]
  · refine GrowingBuffer.contents_of_bytesAt rfl
      (fun i hi => vsnprintf_of_lt hi) ?_
    change Memory.BytesAt (vsnprintf b.buf b.pos (b.size - b.pos) text) _ _
    rw [hwhole]
    exact Memory.bytesAt_write _ _ _

theorem GrowingBuffer.Sound.printed {b : GrowingBuffer} {text : List UInt8}
    (h : b.Sound) : (b.printed text).Sound :=
  ⟨h.pos_lt, h.size_le, h.size_small, h.size_le_object⟩

/-- The loop ends: it fails, or the text fits at the latest after the buffer
has grown once. -/
theorem lsbOutputf_performs (malloc : Allocator) {text : List UInt8}
    {fuel : Nat} {b : GrowingBuffer} (hb : b.Sound) (hfuel : 33 <= fuel)
    (hfits : (b.pos : Int) + 2 * text.length <= intMax) :
    exists o, lsbOutputf malloc text fuel b = some o ∧ Performs b text o := by
  rcases hb with ⟨hlt, hmax, hsmall, hobject⟩
  have hint : intMax = 2147483647 := rfl
  unfold lsbOutputSize at hsmall
  obtain ⟨fuel, rfl⟩ : exists n, fuel = n + 32 + 1 := ⟨fuel - 33, by omega⟩
  by_cases hroom : b.pos + text.length < b.size
  · rcases lsbOutputf_fits malloc text (fuel + 32) b hroom (by omega)
      (by omega) with
      ⟨b', hrun, hsize, hmaxsize, hpos, hwritten⟩
    refine ⟨_, hrun, ⟨?_, ?_, ?_, ?_⟩, hmaxsize, ?_, fun _ => hwritten, nofun⟩
    · change b'.pos < b'.size
      omega
    · change b'.maxsize = 0 ∨ b'.size <= b'.maxsize
      omega
    · change b'.size <= max lsbOutputSize (2 * b'.pos)
      unfold lsbOutputSize
      omega
    · change b'.size <= 2 ^ 63
      omega
    · change b.size <= b'.size
      omega
  have hprinted : forall e, Performs b text (Except.error e, b.printed text) :=
    fun e => ⟨⟨hlt, hmax, hsmall, hobject⟩, rfl, Nat.le_refl _, nofun,
      fun _ _ => ⟨rfl, b.contents_printed text⟩⟩
  rw [lsbOutputf_step hlt (by omega) (by omega) (by omega), if_pos (by omega)]
  split
  · exact ⟨_, rfl, hprinted _⟩
  rename_i hfull
  have hpow : 2 ^ 31 <= 2 ^ (fuel + 31) :=
    Nat.pow_le_pow_right (by decide) (Nat.le_add_left 31 fuel)
  have hscaled : 2 ^ (fuel + 31) <= b.size * 2 * 2 ^ (fuel + 31) :=
    Nat.le_mul_of_pos_left _ (by omega)
  rcases doubled_some b.pos text.length (by omega) (fuel + 31) (b.size * 2) (by omega) (by omega) (by omega) (by omega) with
    ⟨newsize, hdoubled, hle, hmore, hless⟩
  have hcapped : b.pos + text.length < b.capped newsize ∧
      b.size <= b.capped newsize ∧ b.capped newsize <= newsize ∧
      (b.maxsize = 0 ∨ b.capped newsize <= b.maxsize) := by
    unfold GrowingBuffer.capped
    split <;> omega
  rw [hdoubled]
  dsimp only
  cases malloc (b.capped newsize) with
  | none => exact ⟨_, rfl, hprinted _⟩
  | some p =>
      dsimp only
      generalize b.capped newsize = n at hcapped ⊢
      have hcontents : ((b.printed text).moveTo p b.pos n).contents =
          b.contents :=
        ((b.printed text).contents_moveTo p (Nat.le_refl _)).trans
          (b.contents_printed text)
      have hsize : ((b.printed text).moveTo p b.pos n).size = n := rfl
      have hpos : ((b.printed text).moveTo p b.pos n).pos = b.pos := rfl
      have hmaxsize : ((b.printed text).moveTo p b.pos n).maxsize =
          b.maxsize := rfl
      generalize (b.printed text).moveTo p b.pos n = c at *
      rcases lsbOutputf_fits malloc text (fuel + 31) c (by omega) (by omega) (by omega) with
        ⟨b', hrun, hsize', hmaxsize', hpos', hwritten⟩
      rw [hcontents] at hwritten
      refine ⟨_, hrun, ⟨?_, ?_, ?_, ?_⟩, ?_, ?_, fun _ => hwritten, nofun⟩
      · change b'.pos < b'.size
        omega
      · change b'.maxsize = 0 ∨ b'.size <= b'.maxsize
        omega
      · change b'.size <= max lsbOutputSize (2 * b'.pos)
        omega
      · change b'.size <= 2 ^ 63
        omega
      · change b'.maxsize = b.maxsize
        omega
      · change b.size <= b'.size
        omega

/-!
## Runs
-/

section

variable (format : Value -> List UInt8)

/-- The lengths are held by the types of the code: the size of a buffer by
`size_t`, and by `int` the room for formatted text, which is doubled. -/
def OutputCall.Fits (b : GrowingBuffer) : OutputCall -> Prop
  | outputc _ => b.pos + 2 <= 2 ^ 63
  | outputs str => b.pos + str.length + 1 <= 2 ^ 63
  | outputf text => (b.pos : Int) + 2 * text.length <= intMax
  | outputfd d =>
      if outOfRange d then (b.pos : Int) + 2 * (format d).length <= intMax
      else b.pos + 21 <= 2 ^ 63

/-- Less than `2 ^ 30` bytes are held by all types. -/
theorem OutputCall.fits_of_total {b : GrowingBuffer} (call : OutputCall)
    (h : b.pos + (call.text format).length < 2 ^ 30) : call.Fits format b := by
  cases call with
  | outputc ch =>
      change b.pos + 1 < 2 ^ 30 at h
      change b.pos + 2 <= 2 ^ 63
      omega
  | outputs str =>
      change b.pos + str.length < 2 ^ 30 at h
      change b.pos + str.length + 1 <= 2 ^ 63
      omega
  | outputf text =>
      change b.pos + text.length < 2 ^ 30 at h
      change (b.pos : Int) + 2 * text.length <= 2147483647
      omega
  | outputfd d =>
      change b.pos + (outputfdText format Rounding.nearest d).length <
        2 ^ 30 at h
      change if outOfRange d then
        (b.pos : Int) + 2 * (format d).length <= 2147483647
        else b.pos + 21 <= 2 ^ 63
      unfold outputfdText at h
      split at h
      · rename_i hout
        rw [if_pos hout]
        omega
      · rename_i hout
        rw [if_neg hout]
        omega

/-- The sign and what stands in the buffer of 20 characters. -/
theorem text_length (p : NumberParts) : p.text.length <= 20 := by
  have hbuffer := p.buffer_length
  unfold NumberParts.text
  rw [List.length_append, List.length_reverse]
  split
  · rw [List.length_singleton]
    omega
  · rw [List.length_nil]
    omega

/-- The step of every call. -/
theorem OutputCall.run_performs {b : GrowingBuffer} (hb : b.Sound)
    {fuel : Nat} (hfuel : 33 <= fuel) (alloc : Allocator) (call : OutputCall)
    (hfits : call.Fits format b) :
    exists o, call.run format alloc fuel b = some o ∧
      Performs b (call.text format) o := by
  cases call with
  | outputc ch =>
      change b.pos + 2 <= 2 ^ 63 at hfits
      exact ⟨_, rfl, pushExpanded_performs hb hfits⟩
  | outputs str => exact ⟨_, rfl, pushExpanded_performs hb hfits⟩
  | outputf text => exact lsbOutputf_performs alloc hb hfuel hfits
  | outputfd d =>
      change if outOfRange d then
        (b.pos : Int) + 2 * (format d).length <= intMax
        else b.pos + 21 <= 2 ^ 63 at hfits
      change exists o, lsbOutputfd format alloc d fuel b = some o ∧
        Performs b (outputfdText format Rounding.nearest d) o
      unfold lsbOutputfd outputfdText
      split at hfits
      · rename_i hout
        rw [if_pos hout, if_pos hout]
        exact lsbOutputf_performs alloc hb hfuel hfits
      · rename_i hout
        have hlength := text_length (numberParts Rounding.nearest d)
        rw [if_neg hout, if_neg hout]
        exact ⟨_, rfl, pushExpanded_performs hb (by omega)⟩

/-- The buffer after a run of calls, and what the successful ones wrote. -/
inductive OutputRun (fuel maxMessageSize : Nat) :
    GrowingBuffer -> List UInt8 -> Prop where
  | init {malloc : Allocator} {b : GrowingBuffer}
      (h : lsbInitGrowing malloc maxMessageSize = some b) :
      OutputRun fuel maxMessageSize b []
  | ok {b b' : GrowingBuffer} {xs : List UInt8} {alloc : Allocator}
      {call : OutputCall} (hrun : OutputRun fuel maxMessageSize b xs)
      (hfits : call.Fits format b)
      (h : call.run format alloc fuel b = some (Except.ok (), b')) :
      OutputRun fuel maxMessageSize b' (xs ++ call.text format)
  | error {b b' : GrowingBuffer} {xs : List UInt8} {alloc : Allocator}
      {call : OutputCall} {e : LsbErr}
      (hrun : OutputRun fuel maxMessageSize b xs)
      (hfits : call.Fits format b)
      (h : call.run format alloc fuel b = some (Except.error e, b')) :
      OutputRun fuel maxMessageSize b' xs

/-- A run keeps the invariant and holds what was written. -/
theorem OutputRun.sound {fuel maxMessageSize : Nat} {b : GrowingBuffer}
    {xs : List UInt8} (hfuel : 33 <= fuel)
    (hrun : OutputRun format fuel maxMessageSize b xs) :
    b.Sound ∧ b.contents = xs ∧ b.maxsize = maxMessageSize := by
  induction hrun with
  | init h => exact lsbInitGrowing_sound h
  | ok hrun hfits h ih =>
      rename_i call
      rcases call.run_performs format ih.1 hfuel _ hfits with
        ⟨o, ho, hperforms⟩
      cases ho.symm.trans h
      refine ⟨hperforms.sound, ?_, hperforms.maxsize.trans ih.2.2⟩
      rw [(hperforms.written rfl).1, ih.2.1]
  | error hrun hfits h ih =>
      rename_i call _
      rcases call.run_performs format ih.1 hfuel _ hfits with
        ⟨o, ho, hperforms⟩
      cases ho.symm.trans h
      refine ⟨hperforms.sound, ?_, hperforms.maxsize.trans ih.2.2⟩
      rw [(hperforms.kept _ rfl).2, ih.2.1]

/-- After any run, every call ends; if it succeeds the buffer holds all that
was written, with a NUL behind it, and if it fails the contents are as they
were. -/
theorem outputCall_atomic {fuel maxMessageSize : Nat} {b : GrowingBuffer}
    {xs : List UInt8} (hfuel : 33 <= fuel)
    (hrun : OutputRun format fuel maxMessageSize b xs) (alloc : Allocator)
    (call : OutputCall) (hfits : call.Fits format b) :
    exists result b', call.run format alloc fuel b = some (result, b') ∧
      b.size <= b'.size ∧
      (result = Except.ok () ->
        b'.pos < b'.size ∧
          (maxMessageSize ≠ 0 -> b'.size <= maxMessageSize) ∧
          b'.buf b'.pos = 0 ∧ b'.contents = xs ++ call.text format) ∧
      (forall e, result = Except.error e ->
        b'.pos = b.pos ∧ b'.buf.bytes 0 b.pos = b.buf.bytes 0 b.pos) := by
  rcases hrun.sound format hfuel with ⟨hsound, hcontents, hmaxsize⟩
  rcases call.run_performs format hsound hfuel alloc hfits with
    ⟨⟨result, b'⟩, ho, hperforms⟩
  refine ⟨result, b', ho, hperforms.size_le, fun hok => ?_, fun e he => ?_⟩
  · have hwritten := hperforms.written hok
    refine ⟨hperforms.sound.pos_lt, fun hmax => ?_, hwritten.2, ?_⟩
    · have hsize := hperforms.sound.size_le
      rw [hperforms.maxsize, hmaxsize] at hsize
      exact hsize.resolve_left hmax
    · rw [hwritten.1, hcontents]
  · have hkept := hperforms.kept e he
    refine ⟨hkept.1, ?_⟩
    have hbytes := hkept.2
    unfold GrowingBuffer.contents at hbytes
    rwa [hkept.1] at hbytes

end

/-- The first byte in a buffer without a maximum, when no memory is left for
more. -/
theorem outputCall_atomic_first :
    exists result b',
      (OutputCall.outputc 0x61).run (fun _ => []) (fun _ => none) 33
          ⟨fun _ => 0, 1024, 0, 0⟩ = some (result, b') ∧
        b'.contents = [0x61] := by
  have hinit : lsbInitGrowing (fun _ => some (fun _ => 0)) 0 =
      some ⟨fun _ => 0, 1024, 0, 0⟩ := rfl
  have hrun : OutputRun (fun _ => []) 33 0 ⟨fun _ => 0, 1024, 0, 0⟩ [] :=
    OutputRun.init hinit
  rcases outputCall_atomic (fun _ => []) (Nat.le_refl 33) hrun (fun _ => none)
    (OutputCall.outputc 0x61) (by
      change 0 + 2 <= 2 ^ 63
      decide) with ⟨result, b', h, -, hok, -⟩
  refine ⟨result, b', h, ?_⟩
  cases h
  exact (hok rfl).2.2.2

end Util
end LuaSandbox
