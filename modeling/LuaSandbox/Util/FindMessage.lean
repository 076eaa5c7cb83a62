import LuaSandbox.Foundation.Scanner
import LuaSandbox.Util.InputBuffer
import LuaSandbox.Util.Relocation

/-!
# Finding messages

The scanner for framed messages in an input buffer.  It skips what is not a
frame and stops where a frame is not in the buffer yet.
-/

namespace LuaSandbox
namespace Util

open Foundation

/-!
## The scanner
-/

/-- The length of the message that a header of `len` bytes at `buf` announces,
or zero. -/
def decodeHeader (mem : Memory) (buf len maxMessageSize : Nat) : Nat :=
  if mem buf ≠ 0x08 then
    0
  else if buf < buf + len - 1 then
    match lsbPbReadVarint mem (buf + 1) (buf + len) with
    | none => 0
    | some (_, vi) =>
        if 0 < toLongLong vi ∧ toLongLong vi <= maxMessageSize then vi else 0
  else
    0

/-- What a search leaves behind. -/
structure Finding where
  found : Bool
  m : HekaMessage
  ib : InputBuffer
  discardedBytes : Nat

/-- Everything in the buffer is skipped. -/
def InputBuffer.skipAll (ib : InputBuffer) : InputBuffer :=
  { ib with
    scanpos := 0
    readpos := 0
    scanpos_le := scanpos_zero
    readpos_le := ib.zero_le_size }

/-- Continue at `scanpos`, with a message of `msglen` bytes announced there. -/
def InputBuffer.scanAt (ib : InputBuffer) (scanpos msglen : Nat)
    (h : scanpos <= ib.readpos) : InputBuffer :=
  { ib with scanpos := scanpos, msglen := msglen, scanpos_le := h }

/-- A search that started `n` bytes earlier. -/
def Finding.discard (n : Nat) (r : Finding) : Finding :=
  { r with discardedBytes := n + r.discardedBytes }

/-- What stands at a record separator: a frame that is not in the buffer yet,
no frame, or a message that ends in front of `mend`. -/
inductive Examined (ib : InputBuffer) where
  | wait (msglen : Nat)
  | resync (m : HekaMessage) (msglen : Nat)
  | message (m : HekaMessage) (mend : Nat)
      (h : ib.scanpos < mend ∧ mend <= ib.readpos)

/-- Look at the record separator at `scanpos`. -/
def examine (mem : Memory) (m : HekaMessage) (ib : InputBuffer)
    (decode : Bool) : Examined ib :=
  if ib.readpos - ib.scanpos < 2 then
    Examined.wait ib.msglen
  else
    let hlen := (mem (ib.buf + ib.scanpos + 1)).toNat
    let hend := ib.scanpos + hlen + 3
    if hend > ib.readpos then
      Examined.wait ib.msglen
    else if mem (ib.buf + (hend - 1)) ≠ 0x1f then
      -- invalid header length
      Examined.resync m ib.msglen
    else
      let msglen :=
        if ib.msglen = 0 then
          decodeHeader mem (ib.buf + (ib.scanpos + 2)) hlen
            (ib.maxsize - lsbMaxHdrSize)
        else
          ib.msglen
      if msglen ≠ 0 then
        let mend := hend + msglen
        if hmend : mend > ib.readpos then
          Examined.wait msglen
        else if decode then
          match lsbDecodeHekaMessage mem (ib.buf + hend) msglen with
          | (true, m) => Examined.message m mend (by omega)
          | (false, m) => Examined.resync m 0
        else
          -- a framed message need not be in the Heka format
          Examined.message
            { lsbClearHekaMessage with
              raw := ⟨some (ib.buf + hend), msglen⟩ }
            mend (by omega)
      else
        -- header decode failure
        Examined.resync m 0

def lsbFindHekaMessage (mem : Memory) (m : HekaMessage) (ib : InputBuffer)
    (decode : Bool) : Finding :=
  if ib.readpos = ib.scanpos then
    ⟨false, m, ib, 0⟩
  else
    match hp : mem.memchr 0x1e (ib.buf + ib.scanpos)
        (ib.readpos - ib.scanpos) with
    | none => ⟨false, m, ib.skipAll, ib.readpos - ib.scanpos⟩
    | some p =>
        have hbounds := Memory.memchr_some hp
        have hlt : p - ib.buf < ib.readpos := by omega
        let discarded := p - ib.buf - ib.scanpos
        let start := ib.scanAt (p - ib.buf) ib.msglen (Nat.le_of_lt hlt)
        match examine mem m start decode with
        | Examined.wait msglen =>
            ⟨false, m, start.scanAt start.scanpos msglen start.scanpos_le,
              discarded⟩
        | Examined.resync m msglen =>
            (lsbFindHekaMessage mem m
              (start.scanAt (start.scanpos + 1) msglen hlt)
              decode).discard (discarded + 1)
        | Examined.message m mend h =>
            ⟨true, m, start.scanAt mend 0 h.2, discarded⟩
termination_by ib.readpos - ib.scanpos
decreasing_by
  simp only [InputBuffer.scanAt]
  omega

/-!
## Frames

A frame is the record separator `0x1e`, the length of the header, the header,
the unit separator `0x1f` and the bytes of the message.
-/

/-- The length of the message that a complete frame header announces, or
zero. -/
def announced (maxMessageSize : Nat) (xs : List UInt8) : Nat :=
  let mem := Memory.ofList xs
  let hlen := (mem 1).toNat
  if xs.length < hlen + 3 ∨ mem 0 ≠ 0x1e ∨ mem (hlen + 2) ≠ 0x1f then
    0
  else
    decodeHeader mem 2 hlen maxMessageSize

/-- The number of bytes in front of the message of a frame. -/
def headerSize (xs : List UInt8) : Nat :=
  (Memory.ofList xs 1).toNat + 3

def payload (frame : List UInt8) : List UInt8 :=
  frame.drop (headerSize frame)

/-- What stands at the start of the unread bytes. -/
def frameVerdict (decode : Bool) (maxMessageSize : Nat) (xs : List UInt8) :
    Verdict :=
  let n := announced maxMessageSize xs
  if xs.length = 0 then
    Verdict.undecided
  else if Memory.ofList xs 0 ≠ 0x1e then
    Verdict.reject
  else if xs.length < headerSize xs then
    Verdict.undecided
  else if n = 0 then
    Verdict.reject
  else if xs.length < headerSize xs + n then
    Verdict.undecided
  else if decode && !decodes ((xs.drop (headerSize xs)).take n) then
    Verdict.reject
  else
    Verdict.frame (headerSize xs + n)

theorem ofList_append (xs ys : List UInt8) :
    SameBytes (Memory.ofList (xs ++ ys)) 0 (Memory.ofList xs) 0
      xs.length := by
  intro i hi
  rw [Nat.zero_add, Memory.ofList, Memory.ofList,
    List.getD_append _ _ _ _ hi]

theorem decodeHeader_same {mem mem' : Memory} {b b' n i len max : Nat}
    (h : SameBytes mem b mem' b' n) (hi : i + len < n) :
    decodeHeader mem (b + i) len max = decodeHeader mem' (b' + i) len max := by
  unfold decodeHeader
  rw [h i (by omega)]
  split
  · rfl
  · by_cases hlen : i < i + len - 1
    · have hvarint := lsbPbReadVarint_bothRead (i := i + 1) (e := i + len) h
        (Nat.le_of_lt hi) (by omega)
      rw [if_pos (by omega), if_pos (by omega), Nat.add_assoc, Nat.add_assoc,
        Nat.add_assoc, Nat.add_assoc]
      generalize lsbPbReadVarint mem (b + (i + 1)) (b + (i + len)) = r
        at hvarint ⊢
      generalize lsbPbReadVarint mem' (b' + (i + 1)) (b' + (i + len)) = r'
        at hvarint ⊢
      cases hvarint with
      | none => rfl
      | some _ hvi =>
          cases hvi
          rfl
    · rw [if_neg (by omega), if_neg (by omega)]

theorem announced_append (max : Nat) {xs : List UInt8} (ys : List UInt8)
    (h : headerSize xs <= xs.length) (hpos : 0 < xs.length) :
    announced max (xs ++ ys) = announced max xs ∧
      headerSize (xs ++ ys) = headerSize xs := by
  have hsame := ofList_append xs ys
  have hat : forall i, i < xs.length ->
      Memory.ofList (xs ++ ys) i = Memory.ofList xs i := by
    intro i hi
    have := hsame i hi
    simpa only [Nat.zero_add] using this
  have hlen : headerSize (xs ++ ys) = headerSize xs := by
    unfold headerSize at h ⊢
    rw [hat 1 (by omega)]
  refine ⟨?_, hlen⟩
  unfold headerSize at h
  have hheader : decodeHeader (Memory.ofList (xs ++ ys)) (0 + 2)
      (Memory.ofList xs 1).toNat max =
        decodeHeader (Memory.ofList xs) (0 + 2)
          (Memory.ofList xs 1).toNat max :=
    decodeHeader_same hsame (by omega)
  simp only [Nat.zero_add] at hheader
  simp only [announced]
  rw [hat 1 (by omega), hat 0 hpos, hat _ (by omega), hheader,
    List.length_append]
  refine if_congr (or_congr_left ?_) rfl rfl
  omega

theorem frameVerdict_frame {decode : Bool} {max n : Nat}
    {xs : List UInt8} (h : frameVerdict decode max xs = Verdict.frame n) :
    n = headerSize xs + announced max xs ∧ n <= xs.length ∧
      announced max xs ≠ 0 ∧
      (decode = true ->
        decodes ((xs.drop (headerSize xs)).take (announced max xs)) = true) := by
  unfold frameVerdict at h
  dsimp only at h
  split at h
  · cases h
  split at h
  · cases h
  split at h
  · cases h
  split at h
  · cases h
  rename_i hne
  split at h
  · cases h
  rename_i hle
  split at h
  · cases h
  rename_i hdecode
  cases h
  refine ⟨rfl, Nat.not_lt.mp hle, hne, fun hd => ?_⟩
  simpa [hd] using hdecode

theorem frameVerdict_append {decode : Bool} {max : Nat} {xs : List UInt8}
    (ys : List UInt8)
    (h : frameVerdict decode max xs ≠ Verdict.undecided) :
    frameVerdict decode max (xs ++ ys) = frameVerdict decode max xs := by
  by_cases hpos : xs.length = 0
  · exact absurd (if_pos hpos) h
  have hpos' : 0 < xs.length := Nat.pos_of_ne_zero hpos
  have hfirst : Memory.ofList (xs ++ ys) 0 = Memory.ofList xs 0 :=
    ofList_append xs ys 0 hpos'
  have hlength : (xs ++ ys).length = xs.length + ys.length :=
    List.length_append
  unfold frameVerdict at h ⊢
  dsimp only at h ⊢
  rw [if_neg hpos] at h ⊢
  rw [hfirst, if_neg (by omega)]
  by_cases hmark : Memory.ofList xs 0 ≠ 0x1e
  · rw [if_pos hmark, if_pos hmark]
  rw [if_neg hmark] at h ⊢
  rw [if_neg hmark]
  by_cases hheader : xs.length < headerSize xs
  · rw [if_pos hheader] at h
    exact absurd rfl h
  rcases announced_append max ys (Nat.not_lt.mp hheader) hpos' with
    ⟨hannounced, hsize⟩
  rw [if_neg hheader] at h ⊢
  rw [hannounced, hsize, if_neg (by omega)]
  by_cases hzero : announced max xs = 0
  · rw [if_pos hzero, if_pos hzero]
  rw [if_neg hzero] at h ⊢
  rw [if_neg hzero]
  by_cases hmessage : xs.length < headerSize xs + announced max xs
  · rw [if_pos hmessage] at h
    exact absurd rfl h
  have htake : ((xs ++ ys).drop (headerSize xs)).take (announced max xs) =
      (xs.drop (headerSize xs)).take (announced max xs) := by
    rw [List.drop_append_of_le_length (by omega),
      List.take_append_of_le_length (by rw [List.length_drop]; omega)]
  rw [if_neg hmessage, if_neg (by omega), htake]

/-- The scanner for the frames in the unread bytes. -/
def frames (decode : Bool) (maxMessageSize : Nat) : Scanner UInt8 where
  verdict := frameVerdict decode maxMessageSize
  verdict_nil := rfl
  frame_pos := fun h => by
    have hsize := (frameVerdict_frame h).1
    unfold headerSize at hsize
    omega
  frame_le := fun h => (frameVerdict_frame h).2.1
  stable := fun ys h => frameVerdict_append ys h

end Util
end LuaSandbox
