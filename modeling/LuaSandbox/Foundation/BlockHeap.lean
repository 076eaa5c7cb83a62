import Mathlib.Algebra.GroupWithZero.Nat
import Mathlib.Order.Interval.Finset.Nat

/-!
# Heaps of blocks

The blocks that an allocator handed out: nonempty, apart from each other and
inside of the address space.  Hence their sizes never add up to the size of the
space.
-/

namespace LuaSandbox
namespace Foundation

structure Block where
  addr : Nat
  size : Nat
  deriving DecidableEq

namespace Block

def stop (b : Block) : Nat := b.addr + b.size

def Apart (a b : Block) : Prop :=
  a.stop <= b.addr ∨ b.stop <= a.addr

instance : Std.Symm Apart where
  symm _ _ h := Or.symm h

def cells (b : Block) : Finset Nat := Finset.Ico b.addr b.stop

theorem card_cells (b : Block) : b.cells.card = b.size := by
  rw [cells, Nat.card_Ico, stop, Nat.add_sub_cancel_left]

theorem Apart.disjoint {a b : Block} (h : a.Apart b) :
    Disjoint a.cells b.cells := by
  rw [Finset.disjoint_left]
  intro x ha hb
  rw [cells, Finset.mem_Ico] at ha hb
  rcases h with h | h <;> omega

end Block

/-- The address 0 is no block. -/
structure BlockHeap (space : Nat) where
  blocks : List Block
  apart : blocks.Pairwise Block.Apart
  nonempty : forall b, b ∈ blocks -> 0 < b.size
  positive : forall b, b ∈ blocks -> 0 < b.addr
  inSpace : forall b, b ∈ blocks -> b.stop <= space

namespace BlockHeap

variable {space : Nat}

theorem ext_blocks {h h' : BlockHeap space} (heq : h.blocks = h'.blocks) :
    h = h' := by
  cases h
  cases h'
  cases heq
  rfl

/-- No block yet. -/
def empty (space : Nat) : BlockHeap space where
  blocks := []
  apart := List.Pairwise.nil
  nonempty := by
    intro b hb
    cases hb
  positive := by
    intro b hb
    cases hb
  inSpace := by
    intro b hb
    cases hb

/-- The sum of the sizes. -/
def total (h : BlockHeap space) : Nat :=
  (h.blocks.map Block.size).sum

/-- All addresses of the blocks. -/
def allCells (bs : List Block) : Finset Nat :=
  bs.foldr (fun b cells => b.cells ∪ cells) ∅

theorem mem_allCells {bs : List Block} {x : Nat} :
    x ∈ allCells bs <-> exists b, b ∈ bs ∧ x ∈ b.cells := by
  induction bs with
  | nil => simp [allCells]
  | cons b bs ih =>
      change x ∈ b.cells ∪ allCells bs <-> _
      rw [Finset.mem_union, ih]
      simp

theorem card_allCells {bs : List Block} (h : bs.Pairwise Block.Apart) :
    (allCells bs).card = (bs.map Block.size).sum := by
  induction bs with
  | nil => rfl
  | cons b bs ih =>
      rcases List.pairwise_cons.mp h with ⟨hfirst, hrest⟩
      have hdisjoint : Disjoint b.cells (allCells bs) := by
        rw [Finset.disjoint_left]
        intro x hx hmem
        rcases mem_allCells.mp hmem with ⟨c, hc, hxc⟩
        exact Finset.disjoint_left.mp (hfirst c hc).disjoint hx hxc
      change (b.cells ∪ allCells bs).card = _
      rw [Finset.card_union_of_disjoint hdisjoint, ih hrest, b.card_cells,
        List.map_cons, List.sum_cons]

/-- The blocks do not fill the space. -/
theorem total_lt (h : BlockHeap space) (hspace : 0 < space) :
    h.total < space := by
  have hsubset : allCells h.blocks ⊆ Finset.Ico 1 space := by
    intro x hx
    rcases mem_allCells.mp hx with ⟨b, hb, hxb⟩
    have hlow := h.positive b hb
    have hhigh := h.inSpace b hb
    rw [Block.cells, Finset.mem_Ico] at hxb
    rw [Finset.mem_Ico]
    omega
  have hcard := Finset.card_le_card hsubset
  rw [card_allCells h.apart, Nat.card_Ico] at hcard
  change (h.blocks.map Block.size).sum < space
  omega

/-!
## Freeing
-/

/-- The block at an address is given back; `none` is the null pointer. -/
def free (h : BlockHeap space) (ptr : Option Nat) : BlockHeap space where
  blocks := h.blocks.filter (fun b => some b.addr ≠ ptr)
  apart := h.apart.filter _
  nonempty := fun b hb => h.nonempty b (List.mem_of_mem_filter hb)
  positive := fun b hb => h.positive b (List.mem_of_mem_filter hb)
  inSpace := fun b hb => h.inSpace b (List.mem_of_mem_filter hb)

@[simp] theorem free_none (h : BlockHeap space) : h.free none = h := by
  apply ext_blocks
  exact List.filter_eq_self.mpr (fun b hb => by simp)

/-- What is apart and nonempty starts elsewhere. -/
theorem filter_addr {b : Block} {bs : List Block} (hb : 0 < b.size)
    (hbs : forall c, c ∈ bs -> 0 < c.size)
    (h : forall c, c ∈ bs -> b.Apart c) :
    bs.filter (fun c => some c.addr ≠ some b.addr) = bs := by
  apply List.filter_eq_self.mpr
  intro c hc
  have hsize := hbs c hc
  have hne : c.addr ≠ b.addr := by
    intro heq
    rcases h c hc with h | h
    · unfold Block.stop at h
      omega
    · unfold Block.stop at h
      omega
  simpa using hne

theorem sum_filter_addr {b : Block} {bs : List Block}
    (hapart : bs.Pairwise Block.Apart)
    (hsize : forall c, c ∈ bs -> 0 < c.size) (hb : b ∈ bs) :
    ((bs.filter (fun c => some c.addr ≠ some b.addr)).map Block.size).sum +
      b.size = (bs.map Block.size).sum := by
  induction bs with
  | nil => cases hb
  | cons c bs ih =>
      rcases List.pairwise_cons.mp hapart with ⟨hfirst, hrest⟩
      have hsize' := fun d hd => hsize d (List.mem_cons_of_mem c hd)
      rcases List.mem_cons.mp hb with heq | hmem
      · subst heq
        rw [List.filter_cons_of_neg (by simp),
          filter_addr (hsize b List.mem_cons_self) hsize' hfirst,
          List.map_cons, List.sum_cons, Nat.add_comm]
      · have hne : c.addr ≠ b.addr := by
          have hcsize := hsize c List.mem_cons_self
          have hbsize := hsize b hb
          intro heq
          rcases hfirst b hmem with h | h
          · unfold Block.stop at h
            omega
          · unfold Block.stop at h
            omega
        rw [List.filter_cons_of_pos (by simpa using hne), List.map_cons,
          List.map_cons, List.sum_cons, List.sum_cons, Nat.add_assoc,
          ih hrest hsize' hmem]

theorem total_free (h : BlockHeap space) {b : Block} (hb : b ∈ h.blocks) :
    (h.free (some b.addr)).total + b.size = h.total :=
  sum_filter_addr h.apart h.nonempty hb

end BlockHeap

/-!
## Reallocation
-/

/-- A reallocation function: it fails and changes nothing, or gives a block of
the new size instead of the old one. -/
structure Reallocator (space : Nat) where
  run : BlockHeap space -> Option Nat -> Nat -> Option Nat × BlockHeap space
  failed : forall h ptr n, (run h ptr n).1 = none -> (run h ptr n).2 = h
  granted : forall h ptr n a, (run h ptr n).1 = some a ->
    (run h ptr n).2.blocks = ⟨a, n⟩ :: (h.free ptr).blocks

namespace Reallocator

variable {space : Nat}

theorem total_granted (r : Reallocator space) {h : BlockHeap space}
    {ptr : Option Nat} {n a : Nat} (hrun : (r.run h ptr n).1 = some a) :
    (r.run h ptr n).2.total = n + (h.free ptr).total := by
  unfold BlockHeap.total
  rw [r.granted h ptr n a hrun, List.map_cons, List.sum_cons]

/-- The first address behind all blocks. -/
def top (bs : List Block) : Nat :=
  bs.foldr (fun b n => max b.stop n) 1

theorem stop_le_top {bs : List Block} {b : Block} (hb : b ∈ bs) :
    b.stop <= top bs := by
  induction bs with
  | nil => cases hb
  | cons c bs ih =>
      change b.stop <= max c.stop (top bs)
      rcases List.mem_cons.mp hb with rfl | hmem
      · exact Nat.le_max_left _ _
      · exact Nat.le_trans (ih hmem) (Nat.le_max_right _ _)

theorem top_pos (bs : List Block) : 0 < top bs := by
  induction bs with
  | nil => exact Nat.one_pos
  | cons c bs ih => exact Nat.lt_of_lt_of_le ih (Nat.le_max_right _ _)

/-- One more block behind all others. -/
def push (h : BlockHeap space) (n : Nat)
    (hn : 0 < n ∧ top h.blocks + n <= space) : BlockHeap space where
  blocks := ⟨top h.blocks, n⟩ :: h.blocks
  apart := List.pairwise_cons.mpr
    ⟨fun _ hb => Or.inr (stop_le_top hb), h.apart⟩
  nonempty := by
    intro b hb
    rcases List.mem_cons.mp hb with rfl | hmem
    · exact hn.1
    · exact h.nonempty b hmem
  positive := by
    intro b hb
    rcases List.mem_cons.mp hb with rfl | hmem
    · exact top_pos h.blocks
    · exact h.positive b hmem
  inSpace := by
    intro b hb
    rcases List.mem_cons.mp hb with rfl | hmem
    · exact hn.2
    · exact h.inSpace b hmem

/-- Every block is put behind all others, while there is space. -/
def bump (space : Nat) : Reallocator space where
  run := fun h ptr n =>
    if hn : 0 < n ∧ top (h.free ptr).blocks + n <= space then
      (some (top (h.free ptr).blocks), push (h.free ptr) n hn)
    else
      (none, h)
  failed := by
    intro h ptr n
    split
    · intro hnone
      cases hnone
    · intro _
      rfl
  granted := by
    intro h ptr n a
    split
    · intro hsome
      cases hsome
      rfl
    · intro hsome
      cases hsome

/-- The blocks but the one at the address of `b` are apart from it. -/
theorem apart_free (h : BlockHeap space) {b : Block} (hb : b ∈ h.blocks) :
    forall c, c ∈ (h.free (some b.addr)).blocks -> b.Apart c := by
  intro c hc
  rcases List.mem_filter.mp hc with ⟨hmem, haddr⟩
  have hne : b ≠ c := by
    intro heq
    subst heq
    simp at haddr
  exact h.apart.forall hb hmem hne

/-- A block is cut down where it is. -/
def shrink (h : BlockHeap space) {b : Block} (hb : b ∈ h.blocks) (n : Nat)
    (hn : 0 < n ∧ n <= b.size) : BlockHeap space where
  blocks := ⟨b.addr, n⟩ :: (h.free (some b.addr)).blocks
  apart := by
    refine List.pairwise_cons.mpr ⟨?_, (h.free (some b.addr)).apart⟩
    intro c hc
    have happart := apart_free h hb c hc
    have hle := hn.2
    unfold Block.Apart Block.stop at happart ⊢
    dsimp only
    omega
  nonempty := by
    intro c hc
    rcases List.mem_cons.mp hc with rfl | hmem
    · exact hn.1
    · exact (h.free (some b.addr)).nonempty c hmem
  positive := by
    intro c hc
    rcases List.mem_cons.mp hc with rfl | hmem
    · exact h.positive b hb
    · exact (h.free (some b.addr)).positive c hmem
  inSpace := by
    intro c hc
    rcases List.mem_cons.mp hc with rfl | hmem
    · have hstop := h.inSpace b hb
      have hle := hn.2
      unfold Block.stop at hstop ⊢
      dsimp only
      omega
    · exact (h.free (some b.addr)).inSpace c hmem

/-- One block can be cut down where it is; nothing else is granted. -/
def inPlace {space : Nat} (b : Block) (n : Nat) (hn : 0 < n ∧ n <= b.size) :
    Reallocator space where
  run := fun h ptr m =>
    if hb : b ∈ h.blocks ∧ ptr = some b.addr ∧ m = n then
      (some b.addr, shrink h hb.1 n hn)
    else
      (none, h)
  failed := by
    intro h ptr m
    split
    · intro hnone
      cases hnone
    · intro _
      rfl
  granted := by
    intro h ptr m a
    split
    · rename_i hb
      intro hsome
      cases hsome
      rcases hb with ⟨-, rfl, rfl⟩
      rfl
    · intro hsome
      cases hsome

theorem inPlace_run {h : BlockHeap space} {b : Block} (hb : b ∈ h.blocks)
    {n : Nat} (hn : 0 < n ∧ n <= b.size) :
    ((inPlace b n hn).run h (some b.addr) n).1 = some b.addr := by
  change (if hb : b ∈ h.blocks ∧ some b.addr = some b.addr ∧ n = n then
    ((some b.addr, shrink h hb.1 n hn) : Option Nat × BlockHeap space)
    else (none, h)).1 = some b.addr
  rw [dif_pos ⟨hb, rfl, rfl⟩]

end Reallocator

end Foundation
end LuaSandbox
