import LuaSandbox.Foundation.BlockHeap

/-!
# The memory manager

The allocator of a sandbox and its accounts, over the blocks that Lua holds.
Sizes are 64-bit words, and the reallocation of the C library is an argument of
each request.
-/

namespace LuaSandbox
namespace Core

open Foundation

/-- The memory usage of a sandbox, and the blocks of its Lua state. -/
structure MemoryState where
  limit : Nat
  current : Nat
  maximum : Nat
  heap : BlockHeap (2 ^ 64)

/-- A difference of two 64-bit words. -/
def wordSub (m n : Nat) : Nat :=
  (m + (2 ^ 64 - n)) % 2 ^ 64

/-- The pointer is the result; `none` is `NULL`. -/
def memoryManager (realloc : Reallocator (2 ^ 64)) (s : MemoryState)
    (ptr : Option Nat) (osize nsize : Nat) : Option Nat × MemoryState :=
  if nsize = 0 then
    (none, { s with
      heap := s.heap.free ptr
      current := wordSub s.current osize })
  else
    let newStateMemory := wordSub ((s.current + nsize) % 2 ^ 64) osize
    if s.limit = 0 ∨ newStateMemory <= s.limit then
      match realloc.run s.heap ptr nsize with
      | (some nptr, heap) =>
          (some nptr, { s with
            heap := heap
            current := newStateMemory
            maximum :=
              if s.maximum < newStateMemory then newStateMemory
              else s.maximum })
      | (none, heap) => (none, { s with heap := heap })
    else
      (none, s)

/-- The old size that Lua gives with a pointer is the size of its block; there
is none without a block. -/
inductive Granted (h : BlockHeap (2 ^ 64)) : Option Nat -> Nat -> Prop where
  | null : Granted h none 0
  | block {b : Block} (hb : b ∈ h.blocks) : Granted h (some b.addr) b.size

/-- The accounts are exact. -/
structure Accounted (s : MemoryState) : Prop where
  current_eq : s.current = s.heap.total
  current_le : s.current <= s.maximum

theorem Granted.total {h : BlockHeap (2 ^ 64)} {ptr : Option Nat}
    {osize : Nat} (hg : Granted h ptr osize) :
    (h.free ptr).total + osize = h.total := by
  cases hg with
  | null => rw [BlockHeap.free_none, Nat.add_zero]
  | block hb => exact h.total_free hb

theorem total_lt_word (h : BlockHeap (2 ^ 64)) : h.total < 2 ^ 64 :=
  h.total_lt (Nat.two_pow_pos 64)

/-- A difference that does not wrap around. -/
theorem wordSub_eq {m n : Nat} (h : n <= m) (hm : m < 2 ^ 64) :
    wordSub m n = m - n := by
  unfold wordSub
  omega

/-- A sum less a part of it is exact again if it fits in a word. -/
theorem wordSub_add {m n k : Nat} (hn : n <= m) (hk : m - n + k < 2 ^ 64)
    (hm : m < 2 ^ 64) : wordSub ((m + k) % 2 ^ 64) n = m - n + k := by
  unfold wordSub
  omega

/-!
## One request
-/

/-- What one request can do. -/
theorem memoryManager_cases (realloc : Reallocator (2 ^ 64))
    (s : MemoryState) (ptr : Option Nat) (osize nsize : Nat) :
    (nsize = 0 ∧ memoryManager realloc s ptr osize nsize =
      (none, { s with
        heap := s.heap.free ptr
        current := wordSub s.current osize })) ∨
    (nsize ≠ 0 ∧ (memoryManager realloc s ptr osize nsize).1 = none ∧
      (memoryManager realloc s ptr osize nsize).2 = s) ∨
    (exists a, nsize ≠ 0 ∧
      (realloc.run s.heap ptr nsize).1 = some a ∧
      (s.limit = 0 ∨
        wordSub ((s.current + nsize) % 2 ^ 64) osize <= s.limit) ∧
      memoryManager realloc s ptr osize nsize =
        (some a, { s with
          heap := (realloc.run s.heap ptr nsize).2
          current := wordSub ((s.current + nsize) % 2 ^ 64) osize
          maximum :=
            if s.maximum < wordSub ((s.current + nsize) % 2 ^ 64) osize then
              wordSub ((s.current + nsize) % 2 ^ 64) osize
            else s.maximum })) := by
  unfold memoryManager
  by_cases hzero : nsize = 0
  · rw [if_pos hzero]
    exact Or.inl ⟨hzero, rfl⟩
  · rw [if_neg hzero]
    dsimp only
    by_cases hlimit : s.limit = 0 ∨
        wordSub ((s.current + nsize) % 2 ^ 64) osize <= s.limit
    · rw [if_pos hlimit]
      cases hrun : realloc.run s.heap ptr nsize with
      | mk result heap =>
          cases result with
          | none =>
              have hheap := realloc.failed s.heap ptr nsize (by rw [hrun])
              rw [hrun] at hheap
              change heap = s.heap at hheap
              subst hheap
              exact Or.inr (Or.inl ⟨hzero, rfl, rfl⟩)
          | some a =>
              exact Or.inr (Or.inr ⟨a, hzero, rfl, hlimit, rfl⟩)
    · rw [if_neg hlimit]
      exact Or.inr (Or.inl ⟨hzero, rfl, rfl⟩)

section

variable {s : MemoryState} {ptr : Option Nat} {osize nsize : Nat}

/-- A request that is granted adds the difference of the sizes. -/
theorem Accounted.granted (h : Accounted s) (hg : Granted s.heap ptr osize)
    {realloc : Reallocator (2 ^ 64)} {a : Nat}
    (hrun : (realloc.run s.heap ptr nsize).1 = some a) :
    wordSub ((s.current + nsize) % 2 ^ 64) osize =
      (realloc.run s.heap ptr nsize).2.total := by
  have htotal := hg.total
  have hnew := realloc.total_granted hrun
  have hlt := total_lt_word s.heap
  have hlt' := total_lt_word (realloc.run s.heap ptr nsize).2
  rw [h.current_eq, wordSub_add (by omega) (by omega) hlt]
  omega

/-- The accounts stay exact over a request. -/
theorem memoryManager_accounted (h : Accounted s)
    (hg : Granted s.heap ptr osize) (realloc : Reallocator (2 ^ 64))
    (nsize : Nat) :
    Accounted (memoryManager realloc s ptr osize nsize).2 ∧
      s.maximum <= (memoryManager realloc s ptr osize nsize).2.maximum ∧
      (memoryManager realloc s ptr osize nsize).2.limit = s.limit := by
  rcases memoryManager_cases realloc s ptr osize nsize with
    ⟨-, heq⟩ | ⟨-, -, heq⟩ | ⟨a, -, hrun, -, heq⟩
  · have htotal := hg.total
    have hlt := total_lt_word s.heap
    have hcurrent : wordSub s.current osize = (s.heap.free ptr).total := by
      rw [h.current_eq, wordSub_eq (by omega) hlt]
      omega
    have hle := h.current_le
    have heq' := h.current_eq
    rw [heq]
    refine ⟨⟨hcurrent, ?_⟩, Nat.le_refl _, rfl⟩
    change wordSub s.current osize <= s.maximum
    omega
  · rw [heq]
    exact ⟨h, Nat.le_refl _, rfl⟩
  · rw [heq]
    refine ⟨⟨h.granted hg hrun, ?_⟩, ?_, rfl⟩
    · dsimp only
      split <;> omega
    · dsimp only
      split <;> omega

/-- Above the limit is only what was there before. -/
theorem memoryManager_limited (realloc : Reallocator (2 ^ 64))
    (hlimit : s.limit ≠ 0) (hgrow : osize < nsize) :
    (memoryManager realloc s ptr osize nsize).2.current <= s.limit ∨
      (memoryManager realloc s ptr osize nsize).2 = s := by
  rcases memoryManager_cases realloc s ptr osize nsize with
    ⟨hzero, -⟩ | ⟨-, -, heq⟩ | ⟨a, -, hrun, hle, heq⟩
  · omega
  · exact Or.inr heq
  · rw [heq]
    exact Or.inl (hle.resolve_left hlimit)

/-- A request that is refused or fails changes nothing. -/
theorem memoryManager_refused {realloc : Reallocator (2 ^ 64)}
    (hsize : nsize ≠ 0)
    (hnull : (memoryManager realloc s ptr osize nsize).1 = none) :
    (memoryManager realloc s ptr osize nsize).2 = s := by
  rcases memoryManager_cases realloc s ptr osize nsize with
    ⟨hzero, -⟩ | ⟨-, -, heq⟩ | ⟨a, -, -, -, heq⟩
  · exact absurd hzero hsize
  · exact heq
  · rw [heq] at hnull
    cases hnull

end

/-!
## Every sequence of requests
-/

/-- The usage of a new sandbox. -/
def startMemory : MemoryState where
  limit := 0
  current := 0
  maximum := 0
  heap := BlockHeap.empty (2 ^ 64)

/-- The state after requests under any limits, and the current usage after
each of them. -/
inductive Reaches : MemoryState -> List Nat -> Prop where
  | start : Reaches startMemory [0]
  | limit {s : MemoryState} {seen : List Nat} (h : Reaches s seen)
      (limit : Nat) : Reaches { s with limit := limit } seen
  | request {s : MemoryState} {seen : List Nat} {ptr : Option Nat}
      {osize : Nat} (h : Reaches s seen) (hg : Granted s.heap ptr osize)
      (realloc : Reallocator (2 ^ 64)) (nsize : Nat) :
      Reaches (memoryManager realloc s ptr osize nsize).2
        ((memoryManager realloc s ptr osize nsize).2.current :: seen)

theorem startMemory_accounted : Accounted startMemory where
  current_eq := rfl
  current_le := Nat.le_refl 0

theorem Reaches.accounted {s : MemoryState} {seen : List Nat}
    (h : Reaches s seen) :
    Accounted s ∧ forall c, c ∈ seen -> c <= s.maximum := by
  induction h with
  | start =>
      refine ⟨startMemory_accounted, ?_⟩
      intro c hc
      exact Nat.le_of_eq (List.mem_singleton.mp hc)
  | limit h limit ih => exact ⟨⟨ih.1.current_eq, ih.1.current_le⟩, ih.2⟩
  | request h hg realloc nsize ih =>
      rcases memoryManager_accounted ih.1 hg realloc nsize with
        ⟨haccounted, hmaximum, -⟩
      refine ⟨haccounted, ?_⟩
      intro c hc
      rcases List.mem_cons.mp hc with rfl | hc
      · exact haccounted.current_le
      · exact Nat.le_trans (ih.2 c hc) hmaximum

/-- After any requests the usage is the sum of the sizes of the live blocks and
the maximum is no less than any usage before; the next request does not grow
the usage above a limit, and changes nothing if it is refused or fails. -/
theorem memoryManager_exact {s : MemoryState} {seen : List Nat}
    (h : Reaches s seen) :
    s.current = s.heap.total ∧ (forall c, c ∈ seen -> c <= s.maximum) ∧
      forall (realloc : Reallocator (2 ^ 64)) (ptr : Option Nat)
        (osize nsize : Nat), Granted s.heap ptr osize ->
        (s.limit ≠ 0 -> osize < nsize ->
          (memoryManager realloc s ptr osize nsize).2.current <= s.limit ∨
            (memoryManager realloc s ptr osize nsize).2 = s) ∧
        (nsize ≠ 0 -> (memoryManager realloc s ptr osize nsize).1 = none ->
          (memoryManager realloc s ptr osize nsize).2 = s) := by
  rcases h.accounted with ⟨haccounted, hseen⟩
  refine ⟨haccounted.current_eq, hseen, ?_⟩
  intro realloc ptr osize nsize hg
  exact ⟨memoryManager_limited realloc, memoryManager_refused⟩

/-- The first request of a Lua state. -/
theorem memoryManager_exact_first :
    (memoryManager (Reallocator.bump (2 ^ 64)) startMemory none 0 10).2.current =
      (memoryManager (Reallocator.bump (2 ^ 64)) startMemory none 0
        10).2.heap.total :=
  (memoryManager_exact (Reaches.request Reaches.start Granted.null
    (Reallocator.bump (2 ^ 64)) 10)).1

end Core
end LuaSandbox
