import LuaSandbox.Foundation.Computation
import LuaSandbox.Util.OutputBuffer

/-!
# Writing to an output buffer

The writers of protobuf data.  Every byte that is written is recorded, with
the size that the buffer has at that time.
-/

namespace LuaSandbox
namespace Util

open Foundation

/-- The indices from `first` on, `count` of them, in a buffer of size `size`. -/
structure Write where
  first : Nat
  count : Nat
  size : Nat
  deriving DecidableEq

def Write.InBounds (w : Write) : Prop :=
  w.first + w.count <= w.size

/-- The buffer, the sizes for which a reallocation succeeds, and the writes
until now. -/
structure WriteState where
  ob : OutputBuffer
  alloc : Nat -> Bool
  writes : List Write

/-- A writer changes the buffer, and fails or gives a value. -/
abbrev Writer (α : Type) : Type := Computation LsbErr WriteState α

/-!
## Writers
-/

/-- Make room for `needed` bytes and write at most as many. -/
def put (needed : Nat) (xs : List UInt8) (h : xs.length <= needed) :
    Writer Unit :=
  Computation.ofFun (fun s =>
    match lsbExpandOutputBuffer s.alloc s.ob needed with
    | Except.error e => (Except.error e, s)
    | Except.ok r =>
        (Except.ok (), { s with
          ob := r.val.append xs
            (Nat.le_trans (Nat.add_le_add_left h _) r.property)
          writes := s.writes ++ [⟨r.val.pos, xs.length, r.val.size⟩] }))

/-- Write at an index without looking at the size. -/
def store (i : Nat) (xs : List UInt8) : Writer Unit :=
  Computation.ofFun (fun s => (Except.ok (), { s with
    ob := s.ob.overwrite i xs
    writes := s.writes ++ [⟨i, xs.length, s.ob.size⟩] }))

def getBuffer : Writer OutputBuffer :=
  Computation.ofFun (fun s => (Except.ok s.ob, s))

def clearBuffer : Writer Unit :=
  Computation.ofFun (fun s => (Except.ok (), { s with ob := s.ob.clear }))

/-- `lsb_expand_output_buffer` on its own. -/
def expand (needed : Nat) : Writer Unit :=
  Computation.ofFun (fun s =>
    match lsbExpandOutputBuffer s.alloc s.ob needed with
    | Except.error e => (Except.error e, s)
    | Except.ok r => (Except.ok (), { s with ob := r.val }))

theorem outputVarintLoop_length (n i : Nat) :
    (outputVarintLoop n i).length <= n := by
  induction n generalizing i with
  | zero => exact Nat.le_refl 0
  | succ n ih =>
      unfold outputVarintLoop
      split
      · exact Nat.zero_le _
      · exact Nat.succ_le_succ (ih _)

theorem endVarint_length (xs : List UInt8) :
    (endVarint xs).length = xs.length := by
  fun_induction endVarint xs with
  | case1 => rfl
  | case2 b => rfl
  | case3 b rest hne ih => rw [List.length_cons, ih, List.length_cons]

theorem lsbPbOutputVarint_length_le_ten (i : Nat) :
    (lsbPbOutputVarint i).length <= lsbMaxVarintBytes := by
  unfold lsbPbOutputVarint
  split
  · decide
  · rw [endVarint_length]
    exact outputVarintLoop_length lsbMaxVarintBytes i

def lsbPbKey (tag wiretype : Nat) : UInt8 :=
  UInt8.ofNat (wiretype ||| tag <<< 3)

def lsbPbWriteKey (tag wiretype : Nat) : Writer Unit :=
  put 1 [lsbPbKey tag wiretype] (Nat.le_refl 1)

def lsbPbWriteVarint (i : Nat) : Writer Unit :=
  put lsbMaxVarintBytes (lsbPbOutputVarint i)
    (lsbPbOutputVarint_length_le_ten i)

def lsbPbWriteBool (b : Bool) : Writer Unit :=
  put 1 [if b then 1 else 0] (Nat.le_refl 1)

theorem toBytes_length (d : Double) : d.toBytes.length = 8 := by
  unfold Double.toBytes
  rw [List.length_map, List.length_range]

def lsbPbWriteDouble (d : Double) : Writer Unit :=
  put 8 d.toBytes (Nat.le_of_eq (toBytes_length d))

def lsbPbWriteString (tag : Nat) (s : List UInt8) : Writer Unit := do
  lsbPbWriteKey tag lsbPbWtLength
  lsbPbWriteVarint s.length
  put s.length s (Nat.le_refl _)

/-- The number of bytes that a varint of a length takes. -/
def varintCount : Nat -> Nat -> Nat
  | 0, _ => 0
  | n + 1, l => if l = 0 then 0 else varintCount n (l >>> 7) + 1

theorem varintCount_loop (n i : Nat) :
    varintCount n i = (outputVarintLoop n i).length := by
  induction n generalizing i with
  | zero => rfl
  | succ n ih =>
      unfold varintCount outputVarintLoop
      split
      · rfl
      · rw [ih, List.length_cons]

theorem varintCount_eq_length {i : Nat} (hi : i ≠ 0) :
    varintCount lsbMaxVarintBytes i = (lsbPbOutputVarint i).length := by
  unfold lsbPbOutputVarint
  rw [if_neg hi, endVarint_length, varintCount_loop]

theorem varintCount_pos {i : Nat} (hi : i ≠ 0) :
    0 < varintCount lsbMaxVarintBytes i := by
  unfold lsbMaxVarintBytes varintCount
  rw [if_neg hi]
  exact Nat.succ_pos _

/-- Put the length `len` at `lenPos`, where one byte is kept for it. -/
def putFieldLength (lenPos len : Nat) : Writer Unit :=
  Computation.ofFun (fun s =>
    if len < 128 then
      (store lenPos [UInt8.ofNat len]).run s
    else
      let cnt := varintCount lsbMaxVarintBytes len
      let needed := cnt - 1
      match lsbExpandOutputBuffer s.alloc s.ob needed with
      | Except.error e => (Except.error e, s)
      | Except.ok r =>
          let moved := r.val.shift (lenPos + cnt) (lenPos + 1) len needed
            r.property
          (store lenPos (lsbPbOutputVarint len)).run { s with
            ob := moved
            writes := s.writes ++ [⟨lenPos + cnt, len, r.val.size⟩] })

/-- Put the number of bytes behind `lenPos` in its place. -/
def lsbPbUpdateFieldLength (lenPos : Nat) : Writer Unit :=
  Computation.ofFun (fun s =>
    if s.ob.pos <= lenPos then
      (Except.error LsbErr.utilPrange, s)
    else
      (putFieldLength lenPos (s.ob.pos - lenPos - 1)).run s)

/-- Write a string and a NUL behind it. -/
def lsbOutputs (s : List UInt8) : Writer Unit := do
  expand (s.length + 1)
  let b <- getBuffer
  put s.length s (Nat.le_refl _)
  store (b.pos + s.length) [0]

theorem run_put_room {needed : Nat} {xs : List UInt8}
    {h : xs.length <= needed} {s : WriteState}
    (hroom : s.ob.pos + needed <= s.ob.size) :
    (put needed xs h).run s = (Except.ok (), { s with
      ob := s.ob.append xs (Nat.le_trans (Nat.add_le_add_left h _) hroom)
      writes := s.writes ++ [⟨s.ob.pos, xs.length, s.ob.size⟩] }) := by
  unfold put
  rw [Computation.run_ofFun, lsbExpandOutputBuffer_room hroom]

theorem run_lsbOutputs (xs : List UInt8) (s : WriteState) :
    (lsbOutputs xs).run s =
      match lsbExpandOutputBuffer s.alloc s.ob (xs.length + 1) with
      | Except.error e => (Except.error e, s)
      | Except.ok r => (Except.ok (), { s with
          ob := (r.val.append xs (Nat.le_of_succ_le r.property)).overwrite
            (r.val.pos + xs.length) [0]
          writes := s.writes ++ [⟨r.val.pos, xs.length, r.val.size⟩,
            ⟨r.val.pos + xs.length, 1, r.val.size⟩] }) := by
  unfold lsbOutputs
  rw [Computation.run_bind, expand, Computation.run_ofFun]
  generalize lsbExpandOutputBuffer s.alloc s.ob (xs.length + 1) = x
  rcases x with e | r
  · rfl
  · have hroom : r.val.pos + xs.length <= r.val.size :=
      Nat.le_of_succ_le r.property
    change (put xs.length xs (Nat.le_refl _) >>= fun _ =>
      store (r.val.pos + xs.length) [0]).run ⟨r.val, s.alloc, s.writes⟩ = _
    rw [Computation.run_bind_ok (run_put_room hroom), store,
      Computation.run_ofFun]
    change (Except.ok (), WriteState.mk _ _ ((s.writes ++ _) ++ _)) = _
    rw [List.append_assoc]
    rfl

/-!
## Uuids
-/

def isBlank (b : UInt8) : Bool :=
  b = 0x20 ∨ 0x09 <= b ∧ b <= 0x0d

def hexDigit (b : UInt8) : Option Nat :=
  if 0x30 <= b ∧ b <= 0x39 then some (b.toNat - 0x30)
  else if 0x61 <= b ∧ b <= 0x66 then some (b.toNat - 0x61 + 10)
  else if 0x41 <= b ∧ b <= 0x46 then some (b.toNat - 0x41 + 10)
  else none

/-- The conversion `%02hhx` of the C library without the optional white space:
an optional sign and hexadecimal digits, two characters together. -/
def scanHexDigits : List UInt8 -> Option (UInt8 × List UInt8)
  | [] => none
  | 0x2d :: b :: rest =>
      (hexDigit b).map (fun v => (UInt8.ofNat (256 - v), rest))
  | 0x2b :: b :: rest => (hexDigit b).map (fun v => (UInt8.ofNat v, rest))
  | [a] => (hexDigit a).map (fun v => (UInt8.ofNat v, []))
  | a :: b :: rest =>
      match hexDigit a, hexDigit b with
      | some v, some w => some (UInt8.ofNat (16 * v + w), rest)
      | some v, none => some (UInt8.ofNat v, b :: rest)
      | none, _ => none

/-- `true` stands for a conversion, `false` for a hyphen. -/
def scanFormat : List Bool -> List UInt8 -> Option (List UInt8)
  | [], _ => some []
  | true :: format, s =>
      match scanHexDigits (s.dropWhile isBlank) with
      | none => none
      | some (v, rest) => (scanFormat format rest).map (fun vs => v :: vs)
  | false :: _, [] => none
  | false :: format, b :: rest =>
      if b = 0x2d then scanFormat format rest else none

def uuidFormat : List Bool :=
  [true, true, true, true, false, true, true, false, true, true, false,
    true, true, false, true, true, true, true, true, true]

theorem scanFormat_length {format : List Bool} :
    forall {s vs : List UInt8}, scanFormat format s = some vs ->
      vs.length = format.count true := by
  induction format with
  | nil =>
      intro s vs h
      cases h
      rfl
  | cons c format ih =>
      intro s vs h
      cases c with
      | true =>
          unfold scanFormat at h
          split at h
          · cases h
          · rcases Option.map_eq_some_iff.mp h with ⟨ws, hrest, rfl⟩
            rw [List.length_cons, ih hrest, List.count_cons_self]
      | false =>
          rw [List.count_cons_of_ne (by decide)]
          cases s with
          | nil => cases h
          | cons b rest =>
              unfold scanFormat at h
              split at h
              · exact ih h
              · cases h

/-- A random uuid of version 4. -/
def randomUuid (random : Nat -> UInt8) : List UInt8 :=
  (List.range lsbUuidSize).map (fun i =>
    if i = 6 then random i &&& 0x0f ||| 0x40
    else if i = 8 then random i &&& 0x0f ||| 0xa0
    else random i)

/-- The bytes of a uuid, a random one if there is none that can be read. -/
def uuidBytes (random : Nat -> UInt8) (uuid : Option (List UInt8)) :
    List UInt8 :=
  match uuid with
  | none => randomUuid random
  | some s =>
      if s.length = lsbUuidSize then
        s
      else if s.length = lsbUuidStrSize then
        (scanFormat uuidFormat (s.takeWhile (fun b => b ≠ 0))).getD
          (randomUuid random)
      else
        randomUuid random

theorem uuidBytes_length (random : Nat -> UInt8)
    (uuid : Option (List UInt8)) :
    (uuidBytes random uuid).length = lsbUuidSize := by
  have hrandom : (randomUuid random).length = lsbUuidSize := by
    unfold randomUuid
    rw [List.length_map, List.length_range]
  unfold uuidBytes
  split
  · exact hrandom
  split
  · assumption
  split
  · generalize hscan : scanFormat uuidFormat _ = r
    cases r with
    | none => exact hrandom
    | some vs => exact scanFormat_length hscan
  · exact hrandom

/-- The uuid starts a message. -/
def lsbWriteHekaUuid (random : Nat -> UInt8) (uuid : Option (List UInt8)) :
    Writer Unit := do
  clearBuffer
  put 18 (lsbPbKey lsbPbUuid lsbPbWtLength :: UInt8.ofNat lsbUuidSize ::
      uuidBytes random uuid) (by
    rw [List.length_cons, List.length_cons, uuidBytes_length]
    decide)

end Util
end LuaSandbox
