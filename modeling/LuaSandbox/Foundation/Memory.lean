import Mathlib.Data.List.Basic

/-!
# Byte memory

A flat byte memory, the byte strings that stand in it, and the two block
operations of C, a copy from elsewhere and a copy inside the memory.
-/

namespace LuaSandbox
namespace Foundation

/-- The bytes behind the addresses of a C program. -/
abbrev Memory := Nat -> UInt8

namespace Memory

/-- The `n` bytes from address `p` on. -/
def bytes (mem : Memory) (p n : Nat) : List UInt8 :=
  (List.range n).map (fun i => mem (p + i))

/-- The bytes `xs` stand at address `p`. -/
def BytesAt (mem : Memory) : Nat -> List UInt8 -> Prop
  | _, [] => True
  | p, x :: xs => mem p = x ∧ BytesAt mem (p + 1) xs

/-- A memory whose first bytes are the given ones. -/
def ofList (xs : List UInt8) : Memory :=
  fun i => xs.getD i 0

/-- Copy the bytes `xs` to address `p`. -/
def write (mem : Memory) (p : Nat) (xs : List UInt8) : Memory :=
  fun a => if p <= a ∧ a < p + xs.length then xs.getD (a - p) 0 else mem a

/-- Copy `n` bytes from `src` to `dst`; the two regions may overlap. -/
def move (mem : Memory) (dst src n : Nat) : Memory :=
  fun a => if dst <= a ∧ a < dst + n then mem (src + (a - dst)) else mem a

/-- The address of the first of `n` bytes at `p` that is `c`. -/
def memchr (mem : Memory) (c : UInt8) : Nat -> Nat -> Option Nat
  | _, 0 => none
  | p, n + 1 => if mem p = c then some p else memchr mem c (p + 1) n

example : (ofList [1, 2, 3]).memchr 2 0 3 = some 1 := by decide +kernel

@[simp] theorem bytesAt_nil (mem : Memory) (p : Nat) : BytesAt mem p [] :=
  trivial

@[simp] theorem bytesAt_cons {mem : Memory} {p : Nat} {x : UInt8}
    {xs : List UInt8} :
    BytesAt mem p (x :: xs) <-> mem p = x ∧ BytesAt mem (p + 1) xs :=
  Iff.rfl

@[simp] theorem bytesAt_append {mem : Memory} {xs ys : List UInt8} :
    forall {p : Nat}, BytesAt mem p (xs ++ ys) <->
      BytesAt mem p xs ∧ BytesAt mem (p + xs.length) ys := by
  induction xs with
  | nil => simp
  | cons x rest ih =>
      intro p
      simp only [List.cons_append, bytesAt_cons, ih, List.length_cons,
        and_assoc, Nat.add_assoc, Nat.add_comm 1]

theorem bytesAt_iff {mem : Memory} {xs : List UInt8} :
    forall {p : Nat}, BytesAt mem p xs <->
      forall i (h : i < xs.length), mem (p + i) = xs[i] := by
  induction xs with
  | nil => simp
  | cons x rest ih =>
      intro p
      rw [bytesAt_cons, ih]
      constructor
      · intro h i hi
        cases i with
        | zero => exact h.1
        | succ i =>
            have := h.2 i (by simpa using hi)
            simpa [Nat.add_assoc, Nat.add_comm 1] using this
      · intro h
        refine ⟨h 0 (by simp), ?_⟩
        intro i hi
        have := h (i + 1) (by simpa using hi)
        simpa [Nat.add_assoc, Nat.add_comm 1] using this

@[simp] theorem length_bytes (mem : Memory) (p n : Nat) :
    (mem.bytes p n).length = n := by
  simp [bytes]

@[simp] theorem getElem_bytes (mem : Memory) (p n i : Nat)
    (h : i < (mem.bytes p n).length) : (mem.bytes p n)[i] = mem (p + i) := by
  simp [bytes]

example : (ofList [1, 2, 3]).bytes 1 2 = [2, 3] := by decide +kernel

theorem bytesAt_bytes (mem : Memory) (p n : Nat) :
    BytesAt mem p (mem.bytes p n) :=
  bytesAt_iff.mpr (fun i h => (getElem_bytes mem p n i h).symm)

theorem bytes_of_bytesAt {mem : Memory} {p : Nat} {xs : List UInt8}
    (h : BytesAt mem p xs) : mem.bytes p xs.length = xs := by
  apply List.ext_getElem
  · simp
  · intro i hi hi'
    rw [getElem_bytes]
    exact bytesAt_iff.mp h i hi'

theorem bytesAt_ofList (xs : List UInt8) : BytesAt (ofList xs) 0 xs := by
  apply bytesAt_iff.mpr
  intro i h
  simp [ofList, h]

theorem bytes_add (mem : Memory) (p m n : Nat) :
    mem.bytes p (m + n) = mem.bytes p m ++ mem.bytes (p + m) n := by
  have h : BytesAt mem p (mem.bytes p m ++ mem.bytes (p + m) n) := by
    rw [bytesAt_append, length_bytes]
    exact ⟨bytesAt_bytes mem p m, bytesAt_bytes mem (p + m) n⟩
  simpa using bytes_of_bytesAt h

theorem bytes_one (mem : Memory) (p : Nat) : mem.bytes p 1 = [mem p] :=
  rfl

theorem bytes_congr {mem mem' : Memory} {p p' n : Nat}
    (h : forall i, i < n -> mem (p + i) = mem' (p' + i)) :
    mem.bytes p n = mem'.bytes p' n := by
  apply List.ext_getElem
  · simp
  · intro i hi hi'
    rw [getElem_bytes, getElem_bytes]
    exact h i (by simpa using hi)

theorem apply_eq_of_bytes_eq {mem mem' : Memory} {p p' n : Nat}
    (h : mem.bytes p n = mem'.bytes p' n) {i : Nat} (hi : i < n) :
    mem (p + i) = mem' (p' + i) := by
  have := congrArg (fun xs => xs[i]?) h
  simpa [bytes, hi] using this

theorem bytes_write (mem : Memory) (p : Nat) (xs : List UInt8) :
    (mem.write p xs).bytes p xs.length = xs := by
  apply bytes_of_bytesAt
  apply bytesAt_iff.mpr
  intro i h
  simp [write, h]

theorem write_of_lt {mem : Memory} {p a : Nat} {xs : List UInt8}
    (h : a < p) : mem.write p xs a = mem a := by
  simp only [write]
  rw [if_neg (by omega)]

theorem bytesAt_write (mem : Memory) (p : Nat) (xs : List UInt8) :
    BytesAt (mem.write p xs) p xs := by
  apply bytesAt_iff.mpr
  intro i h
  simp [write, h]

theorem bytesAt_write_of_disjoint {mem : Memory} {p q : Nat}
    {xs ys : List UInt8} (h : BytesAt mem q xs)
    (hdisjoint : q + xs.length <= p ∨ p + ys.length <= q) :
    BytesAt (mem.write p ys) q xs := by
  apply bytesAt_iff.mpr
  intro i hi
  rw [← bytesAt_iff.mp h i hi]
  simp only [write]
  rw [if_neg (by omega)]

theorem bytesAt_move {mem : Memory} {dst src : Nat} {xs : List UInt8}
    (h : BytesAt mem src xs) : BytesAt (mem.move dst src xs.length) dst xs := by
  apply bytesAt_iff.mpr
  intro i hi
  rw [← bytesAt_iff.mp h i hi]
  simp only [move]
  rw [if_pos (by omega), Nat.add_sub_cancel_left]

theorem bytesAt_move_of_disjoint {mem : Memory} {dst src n q : Nat}
    {xs : List UInt8} (h : BytesAt mem q xs)
    (hdisjoint : q + xs.length <= dst ∨ dst + n <= q) :
    BytesAt (mem.move dst src n) q xs := by
  apply bytesAt_iff.mpr
  intro i hi
  rw [← bytesAt_iff.mp h i hi]
  simp only [move]
  rw [if_neg (by omega)]

theorem bytes_move (mem : Memory) (dst src n : Nat) :
    (mem.move dst src n).bytes dst n = mem.bytes src n := by
  apply bytes_congr
  intro i hi
  simp only [move]
  rw [if_pos (by omega), Nat.add_sub_cancel_left]

example : ((ofList [1, 2, 3]).move 1 0 2).bytes 0 3 = [1, 1, 2] := by
  decide +kernel

theorem drop_bytes (mem : Memory) (p n i : Nat) :
    (mem.bytes p n).drop i = mem.bytes (p + i) (n - i) := by
  apply List.ext_getElem
  · simp
  · intro j hj hj'
    simp [Nat.add_assoc]

theorem take_bytes (mem : Memory) (p : Nat) {n i : Nat} (h : i <= n) :
    (mem.bytes p n).take i = mem.bytes p i := by
  apply List.ext_getElem
  · simp [h]
  · intro j hj hj'
    simp

theorem memchr_some {mem : Memory} {c : UInt8} {n : Nat} :
    forall {p q : Nat}, mem.memchr c p n = some q ->
      p <= q ∧ q < p + n ∧ mem q = c ∧
        forall a, p <= a -> a < q -> mem a ≠ c := by
  induction n with
  | zero =>
      intro p q h
      cases h
  | succ n ih =>
      intro p q h
      simp only [memchr] at h
      split at h
      · rename_i hfound
        cases h
        exact ⟨Nat.le_refl p, by omega, hfound, fun a ha ha' => by omega⟩
      · rename_i hne
        rcases ih h with ⟨hlow, hhigh, hfound, hbefore⟩
        refine ⟨by omega, by omega, hfound, fun a ha ha' => ?_⟩
        rcases Nat.lt_or_eq_of_le ha with hlt | heq
        · exact hbefore a hlt ha'
        · exact heq ▸ hne

theorem memchr_none {mem : Memory} {c : UInt8} {n : Nat} :
    forall {p : Nat}, mem.memchr c p n = none ->
      forall a, p <= a -> a < p + n -> mem a ≠ c := by
  induction n with
  | zero =>
      intro p _ a ha ha'
      omega
  | succ n ih =>
      intro p h a ha ha'
      simp only [memchr] at h
      split at h
      · cases h
      · rename_i hne
        rcases Nat.lt_or_eq_of_le ha with hlt | heq
        · exact ih h a hlt (by omega)
        · exact heq ▸ hne

end Memory

end Foundation
end LuaSandbox
