import LuaSandbox.Foundation.Memory
import LuaSandbox.Foundation.MachineInt
import Mathlib.Tactic.Ring
import Mathlib.Tactic.NormNum

/-!
# Protobuf primitives

Keys and base-128 varints as the generic protobuf functions read and produce
them.  Pointers are addresses; a `NULL` result is `none`.  A varint is a 64-bit
word, and its readers convert it to the signed type they store it in.
-/

namespace LuaSandbox
namespace Util

open Foundation

/-!
## Wire types
-/

def lsbMaxVarintBytes : Nat := 10

def lsbPbWtVarint : Nat := 0
def lsbPbWtFixed64 : Nat := 1
def lsbPbWtLength : Nat := 2

/-!
## Reading
-/

/-- The key at `p`: the next address, the tag and the wire type. -/
def lsbPbReadKey (mem : Memory) (p : Nat) : Nat × Nat × Nat :=
  (p + 1, (mem p).toNat >>> 3, (mem p).toNat &&& 7)

/-- The loop of `lsbPbReadVarint` with `n` bytes left to look at. -/
def readVarintLoop (mem : Memory) (e : Nat) :
    Nat -> Nat -> Nat -> Nat -> Option (Nat × Nat)
  | 0, _, _, _ => none
  | n + 1, p, shift, vi =>
      if p = e then
        none
      else if mem p &&& 0x80 = 0 then
        some (p + 1,
          (vi ||| (mem p &&& 0x7f).toNat <<< shift) % 2 ^ 64)
      else
        readVarintLoop mem e n (p + 1) (shift + 7)
          ((vi ||| (mem p &&& 0x7f).toNat <<< shift) % 2 ^ 64)

/-- The varint at `p`: the address behind it and its value. -/
def lsbPbReadVarint (mem : Memory) (p e : Nat) : Option (Nat × Nat) :=
  readVarintLoop mem e lsbMaxVarintBytes p 0 0

/-!
## Writing
-/

/-- The loop of `lsbPbOutputVarint`: every byte with its continuation bit. -/
def outputVarintLoop : Nat -> Nat -> List UInt8
  | 0, _ => []
  | n + 1, i =>
      if i = 0 then
        []
      else
        UInt8.ofNat (i &&& 0x7f ||| 0x80) :: outputVarintLoop n (i >>> 7)

/-- Clear the continuation bit of the last byte. -/
def endVarint : List UInt8 -> List UInt8
  | [] => []
  | [b] => [b &&& 0x7f]
  | b :: rest => b :: endVarint rest

/-- The varint of a 64-bit word. -/
def lsbPbOutputVarint (i : Nat) : List UInt8 :=
  if i = 0 then [0] else endVarint (outputVarintLoop lsbMaxVarintBytes i)

/-!
## Byte arithmetic
-/

theorem toNat_and_7f (b : UInt8) : (b &&& 0x7f).toNat = b.toNat % 128 := by
  rw [UInt8.toNat_and]
  exact Nat.and_two_pow_sub_one_eq_mod b.toNat 7

theorem and_80_eq_zero_iff (b : UInt8) :
    b &&& 0x80 = 0 <-> b.toNat < 128 := by
  have hbits : forall n : Fin 256, n.val &&& 128 = 0 <-> n.val < 128 := by
    decide +kernel
  rw [← UInt8.toNat_inj, UInt8.toNat_and]
  exact hbits ⟨b.toNat, b.toNat_lt⟩

theorem payload_or_80 (n : Nat) : n &&& 0x7f ||| 0x80 = n % 128 + 128 := by
  have hand : n &&& 0x7f = n % 128 := Nat.and_two_pow_sub_one_eq_mod n 7
  have hlt : n % 128 < 2 ^ 7 := Nat.mod_lt _ (by decide)
  have hor := Nat.two_pow_add_eq_or_of_lt hlt 1
  rw [hand, Nat.or_comm, Nat.add_comm]
  exact hor.symm

/-!
## The bytes of a varint

Seven bits a byte, lowest first, every byte but the last one with its
continuation bit.
-/

theorem outputVarintLoop_fuel {n m i : Nat} (hi : i < 128 ^ n)
    (hnm : n <= m) : outputVarintLoop m i = outputVarintLoop n i := by
  induction n generalizing m i with
  | zero =>
      have hzero : i = 0 := by simpa using hi
      cases m <;> simp [outputVarintLoop, hzero]
  | succ n ih =>
      obtain ⟨k, rfl⟩ : exists k, m = k + 1 := ⟨m - 1, by omega⟩
      have hshift : i >>> 7 < 128 ^ n := by
        rw [Nat.shiftRight_eq_div_pow]
        apply Nat.div_lt_of_lt_mul
        rw [Nat.pow_succ] at hi
        omega
      simp only [outputVarintLoop]
      rw [ih hshift (by omega)]

theorem outputVarintLoop_ne_nil {n i : Nat} (hi : i ≠ 0) :
    outputVarintLoop (n + 1) i ≠ [] := by
  simp [outputVarintLoop, hi]

theorem endVarint_cons {b : UInt8} {rest : List UInt8} (h : rest ≠ []) :
    endVarint (b :: rest) = b :: endVarint rest := by
  cases rest with
  | nil => exact absurd rfl h
  | cons c tail => rfl

theorem lsbPbOutputVarint_small {i : Nat} (hi : i < 128) :
    lsbPbOutputVarint i = [UInt8.ofNat i] := by
  by_cases hzero : i = 0
  · simp [lsbPbOutputVarint, hzero]
  · have hshift : i >>> 7 = 0 := by
      rw [Nat.shiftRight_eq_div_pow]
      exact Nat.div_eq_of_lt hi
    simp only [lsbPbOutputVarint, if_neg hzero, lsbMaxVarintBytes,
      outputVarintLoop, hshift, if_true, endVarint, payload_or_80]
    congr 1
    apply UInt8.toNat_inj.mp
    rw [toNat_and_7f, UInt8.toNat_ofNat', UInt8.toNat_ofNat']
    omega

theorem lsbPbOutputVarint_step {i : Nat} (hlow : 128 <= i)
    (hhigh : i < 2 ^ 64) :
    lsbPbOutputVarint i =
      UInt8.ofNat (i % 128 + 128) :: lsbPbOutputVarint (i / 128) := by
  have hshift : i >>> 7 = i / 128 := Nat.shiftRight_eq_div_pow i 7
  have hne : i / 128 ≠ 0 := by omega
  have hfuel : outputVarintLoop 10 (i / 128) =
      outputVarintLoop 9 (i / 128) := by
    apply outputVarintLoop_fuel _ (by decide)
    have hpow : (2 : Nat) ^ 64 <= 128 * 128 ^ 9 := by norm_num
    omega
  unfold lsbPbOutputVarint
  rw [if_neg (by omega), if_neg hne]
  simp only [lsbMaxVarintBytes]
  rw [hfuel]
  conv_lhs => unfold outputVarintLoop
  rw [if_neg (by omega), hshift,
    endVarint_cons (outputVarintLoop_ne_nil hne), payload_or_80]

theorem lsbPbOutputVarint_length {i k : Nat} (hi : i < 128 ^ (k + 1))
    (hhigh : i < 2 ^ 64) :
    0 < (lsbPbOutputVarint i).length ∧
      (lsbPbOutputVarint i).length <= k + 1 := by
  induction k generalizing i with
  | zero => simp [lsbPbOutputVarint_small (by simpa using hi)]
  | succ k ih =>
      by_cases hsmall : i < 128
      · simp [lsbPbOutputVarint_small hsmall]
      · have hdiv : i / 128 < 128 ^ (k + 1) := by
          apply Nat.div_lt_of_lt_mul
          rw [Nat.pow_succ] at hi
          omega
        have := ih hdiv (by omega)
        rw [lsbPbOutputVarint_step (by omega) hhigh, List.length_cons]
        omega

theorem lsbPbOutputVarint_length_le {i : Nat} (hhigh : i < 2 ^ 64) :
    (lsbPbOutputVarint i).length <= lsbMaxVarintBytes := by
  have hpow : (2 : Nat) ^ 64 <= 128 ^ (9 + 1) := by norm_num
  exact (lsbPbOutputVarint_length (k := 9) (by omega) hhigh).2

theorem lsbPbOutputVarint_length_pos {i : Nat} (hhigh : i < 2 ^ 64) :
    0 < (lsbPbOutputVarint i).length := by
  have hpow : (2 : Nat) ^ 64 <= 128 ^ (9 + 1) := by norm_num
  exact (lsbPbOutputVarint_length (k := 9) (by omega) hhigh).1

/-- Only the last byte may be zero. -/
theorem lsbPbOutputVarint_ne_zero (i : Nat) :
    forall {j : Nat}, i < 2 ^ 64 -> j + 1 < (lsbPbOutputVarint i).length ->
      (lsbPbOutputVarint i).getD j 0 ≠ 0 := by
  induction i using Nat.strongRecOn with
  | ind i ih =>
      intro j hi hj
      by_cases hsmall : i < 128
      · rw [lsbPbOutputVarint_small hsmall, List.length_singleton] at hj
        omega
      · have hstep := lsbPbOutputVarint_step (Nat.not_lt.mp hsmall) hi
        rw [hstep, List.length_cons] at hj
        rw [hstep]
        cases j with
        | zero =>
            rw [List.getD_cons_zero]
            intro hzero
            have htoNat := congrArg UInt8.toNat hzero
            rw [UInt8.toNat_ofNat'] at htoNat
            change (i % 128 + 128) % 2 ^ 8 = 0 at htoNat
            omega
        | succ j =>
            rw [List.getD_cons_succ]
            exact ih (i / 128) (by omega) (by omega) (by omega)

/-!
## Reading back a written varint
-/

theorem accumulate_eq_add {vi x s : Nat} (hvi : vi < 2 ^ s)
    (hfit : vi + x * 2 ^ s < 2 ^ 64) :
    (vi ||| x <<< s) % 2 ^ 64 = vi + x * 2 ^ s := by
  have hor := Nat.two_pow_add_eq_or_of_lt hvi x
  rw [Nat.shiftLeft_eq, Nat.or_comm, Nat.mul_comm x, ← hor,
    Nat.mod_eq_of_lt (by rw [Nat.mul_comm]; omega)]
  omega

theorem readVarintLoop_output {mem : Memory} {e : Nat} (i : Nat) :
    forall {n p s vi : Nat},
      Memory.BytesAt mem p (lsbPbOutputVarint i) ->
      p + (lsbPbOutputVarint i).length <= e ->
      (lsbPbOutputVarint i).length <= n ->
      vi < 2 ^ s -> vi + i * 2 ^ s < 2 ^ 64 ->
      readVarintLoop mem e n p s vi =
        some (p + (lsbPbOutputVarint i).length, vi + i * 2 ^ s) := by
  induction i using Nat.strongRecOn with
  | ind i ih =>
      intro n p s vi hbytes hend hfuel hvi hfit
      have hpow : 0 < 2 ^ s := Nat.two_pow_pos s
      have hle : i <= i * 2 ^ s := Nat.le_mul_of_pos_right i hpow
      by_cases hsmall : i < 128
      · rw [lsbPbOutputVarint_small hsmall] at hbytes hend hfuel ⊢
        obtain ⟨m, rfl⟩ : exists m, n = m + 1 :=
          ⟨n - 1, by simp at hfuel; omega⟩
        have hbyte : (mem p).toNat = i := by
          rw [(Memory.bytesAt_cons.mp hbytes).1, UInt8.toNat_ofNat']
          omega
        have hlast : mem p &&& 0x80 = 0 := by
          rw [and_80_eq_zero_iff, hbyte]
          exact hsmall
        have hne : p ≠ e := by
          simp only [List.length_singleton] at hend
          omega
        simp only [readVarintLoop]
        rw [if_neg hne, if_pos hlast, toNat_and_7f, hbyte,
          Nat.mod_eq_of_lt hsmall, accumulate_eq_add hvi hfit]
        rfl
      · have hstep := lsbPbOutputVarint_step (Nat.not_lt.mp hsmall)
          (Nat.lt_of_le_of_lt (Nat.le_trans hle (Nat.le_add_left _ vi)) hfit)
        rw [hstep] at hbytes hend hfuel ⊢
        simp only [List.length_cons] at hend hfuel ⊢
        obtain ⟨m, rfl⟩ : exists m, n = m + 1 := ⟨n - 1, by omega⟩
        rcases Memory.bytesAt_cons.mp hbytes with ⟨hhead, htail⟩
        have hbyte : (mem p).toNat = i % 128 + 128 := by
          rw [hhead, UInt8.toNat_ofNat']
          omega
        have hmore : ¬ mem p &&& 0x80 = 0 := by
          rw [and_80_eq_zero_iff, hbyte]
          omega
        have hpayload : (mem p &&& 0x7f).toNat = i % 128 := by
          rw [toNat_and_7f, hbyte]
          omega
        have hsplit : i * 2 ^ s =
            i % 128 * 2 ^ s + i / 128 * 2 ^ (s + 7) := by
          calc
            i * 2 ^ s = (i % 128 + 128 * (i / 128)) * 2 ^ s := by
              rw [Nat.mod_add_div]
            _ = i % 128 * 2 ^ s + i / 128 * 2 ^ (s + 7) := by
              rw [Nat.add_mul, Nat.pow_add]
              ring
        have hacc : (vi ||| (i % 128) <<< s) % 2 ^ 64 =
            vi + i % 128 * 2 ^ s :=
          accumulate_eq_add hvi (by omega)
        have hvi' : vi + i % 128 * 2 ^ s < 2 ^ (s + 7) := by
          have hmod : i % 128 * 2 ^ s <= 127 * 2 ^ s :=
            Nat.mul_le_mul_right _ (by omega)
          rw [Nat.pow_add]
          omega
        simp only [readVarintLoop]
        rw [if_neg (by omega), if_neg hmore, hpayload, hacc,
          ih (i / 128) (by omega) htail (by omega) (by omega) hvi'
            (by omega)]
        congr 2 <;> omega

/-- A written varint is read back, whatever stands around it. -/
theorem lsbPbReadVarint_output {mem : Memory} {p e i : Nat}
    (hi : i < 2 ^ 64) (hbytes : Memory.BytesAt mem p (lsbPbOutputVarint i))
    (hend : p + (lsbPbOutputVarint i).length <= e) :
    lsbPbReadVarint mem p e =
      some (p + (lsbPbOutputVarint i).length, i) := by
  have h : readVarintLoop mem e lsbMaxVarintBytes p 0 0 =
      some (p + (lsbPbOutputVarint i).length, 0 + i * 2 ^ 0) :=
    readVarintLoop_output i hbytes hend (lsbPbOutputVarint_length_le hi)
      (by decide) (by simpa using hi)
  simpa [lsbPbReadVarint] using h

/-!
## What a read depends on
-/

theorem readVarintLoop_lt {mem : Memory} {e : Nat} :
    forall {n p s vi p' v : Nat},
      readVarintLoop mem e n p s vi = some (p', v) -> p < p'
  | 0, _, _, _, _, _, h => by simp [readVarintLoop] at h
  | n + 1, p, s, vi, p', v, h => by
      simp only [readVarintLoop] at h
      split at h
      · cases h
      · split at h
        · cases h
          exact Nat.lt_succ_self p
        · exact Nat.lt_of_succ_lt (readVarintLoop_lt h)

theorem readVarintLoop_bounds {mem : Memory} {e : Nat} :
    forall {n p s vi p' v : Nat},
      readVarintLoop mem e n p s vi = some (p', v) -> p <= e ->
      p < p' ∧ p' <= e ∧ v < 2 ^ 64
  | 0, _, _, _, _, _, h, _ => by simp [readVarintLoop] at h
  | n + 1, p, s, vi, p', v, h, hle => by
      simp only [readVarintLoop] at h
      split at h
      · cases h
      · split at h
        · cases h
          refine ⟨by omega, by omega, Nat.mod_lt _ (by decide)⟩
        · have := readVarintLoop_bounds h (by omega)
          omega

theorem lsbPbReadVarint_bounds {mem : Memory} {p e p' v : Nat}
    (h : lsbPbReadVarint mem p e = some (p', v)) (hle : p <= e) :
    p < p' ∧ p' <= e ∧ v < 2 ^ 64 :=
  readVarintLoop_bounds h hle

end Util
end LuaSandbox
