import LuaSandbox.Core.MemoryManager

/-!
# The memory limit over the life of a sandbox

The limit is set when a sandbox is created, lifted while the base library and
the preserved data are loaded, and imposed again behind both.  A block can be
refused to shrink only where a limit is below the usage.
-/

namespace LuaSandbox
namespace Core

open Foundation

/-- Where the life of a sandbox is, with the limit that is kept meanwhile. -/
inductive Phase where
  /-- in `lsb_create` -/
  | creating
  | created
  /-- in `lsb_init`, before the main chunk -/
  | loading (memLimit : Nat)
  /-- the main chunk -/
  | chunk
  /-- in `restore_global_data` -/
  | restoring (limit : Nat)
  | running
  /-- in `preserve_global_data` and after it -/
  | preserving

structure Life where
  phase : Phase
  memory : MemoryState

def MemoryState.setLimit (m : MemoryState) (limit : Nat) : MemoryState :=
  { m with limit := limit }

/-- The end of `restore_global_data`, which starts the maximum anew. -/
def MemoryState.restored (m : MemoryState) (limit : Nat) : MemoryState :=
  { m with limit := limit, maximum := m.current }

/-- A request of Lua, or a step to another phase.  An error leaves a sandbox in
the phase where it happens. -/
inductive Step : Life -> Life -> Prop where
  | request {phase : Phase} {m : MemoryState} {ptr : Option Nat}
      {osize : Nat} (hg : Granted m.heap ptr osize)
      (realloc : Reallocator (2 ^ 64)) (nsize : Nat) :
      Step ⟨phase, m⟩ ⟨phase, (memoryManager realloc m ptr osize nsize).2⟩
  | create {m : MemoryState} (ml : Nat) :
      Step ⟨Phase.creating, m⟩ ⟨Phase.created, m.setLimit ml⟩
  | load {m : MemoryState} :
      Step ⟨Phase.created, m⟩ ⟨Phase.loading m.limit, m.setLimit 0⟩
  | loaded {m : MemoryState} {memLimit : Nat} :
      Step ⟨Phase.loading memLimit, m⟩ ⟨Phase.chunk, m.setLimit memLimit⟩
  | restore {m : MemoryState} :
      Step ⟨Phase.chunk, m⟩ ⟨Phase.restoring m.limit, m.setLimit 0⟩
  | restored {m : MemoryState} {limit : Nat} :
      Step ⟨Phase.restoring limit, m⟩ ⟨Phase.running, m.restored limit⟩
  | run {m : MemoryState} : Step ⟨Phase.chunk, m⟩ ⟨Phase.running, m⟩
  | preserve {m : MemoryState} :
      Step ⟨Phase.running, m⟩ ⟨Phase.preserving, m.setLimit 0⟩

/-- The states of a sandbox, the latest first. -/
inductive Run : List Life -> Prop where
  | start : Run [⟨Phase.creating, startMemory⟩]
  | step {a b : Life} {rest : List Life} (h : Run (a :: rest))
      (hstep : Step a b) : Run (b :: a :: rest)

/-- No request to shrink a block that the reallocation grants is refused. -/
def NeverRefused (m : MemoryState) : Prop :=
  forall (realloc : Reallocator (2 ^ 64)) (ptr : Option Nat)
    (osize nsize : Nat), Granted m.heap ptr osize -> nsize ≠ 0 ->
    nsize <= osize -> (realloc.run m.heap ptr nsize).1 ≠ none ->
    (memoryManager realloc m ptr osize nsize).1 ≠ none

/-- A limit that a step imposes is not below the usage. -/
def ImposesFitting (a b : Life) : Prop :=
  b.memory.limit = a.memory.limit ∨ b.memory.limit = 0 ∨
    a.memory.current <= b.memory.limit

/-!
## One state
-/

/-- The limit, if there is one, is not below the usage. -/
def MemoryState.Within (m : MemoryState) : Prop :=
  m.limit = 0 ∨ m.current <= m.limit

theorem Accounted.neverRefused {m : MemoryState} (h : Accounted m)
    (hwithin : m.Within) : NeverRefused m := by
  intro realloc ptr osize nsize hg hsize hle hrun hnull
  rcases Option.ne_none_iff_exists'.mp hrun with ⟨a, ha⟩
  have hnew := h.granted hg ha
  have htotal := hg.total
  have hgranted := realloc.total_granted ha
  have hcurrent := h.current_eq
  have hallowed : m.limit = 0 ∨
      wordSub ((m.current + nsize) % 2 ^ 64) osize <= m.limit := by
    rcases hwithin with hzero | hwithin
    · exact Or.inl hzero
    · exact Or.inr (by omega)
  rw [memoryManager, if_neg hsize] at hnull
  dsimp only at hnull
  rw [if_pos hallowed] at hnull
  generalize realloc.run m.heap ptr nsize = r at ha hnull
  rcases r with ⟨result, heap⟩
  cases ha
  cases hnull

/-- Above the limit, some block is even refused its own size. -/
theorem Accounted.refused {m : MemoryState} (h : Accounted m)
    (hwithin : ¬ m.Within) : ¬ NeverRefused m := by
  intro hnever
  have hlimit : m.limit ≠ 0 := fun hz => hwithin (Or.inl hz)
  have habove : ¬ m.current <= m.limit := fun hle => hwithin (Or.inr hle)
  have hcurrent := h.current_eq
  have hlt := total_lt_word m.heap
  have hblock : exists b, b ∈ m.heap.blocks := by
    apply List.exists_mem_of_ne_nil
    intro hnil
    have hzero : m.heap.total = 0 := by
      unfold BlockHeap.total
      rw [hnil]
      rfl
    omega
  rcases hblock with ⟨b, hb⟩
  have hpos := m.heap.nonempty b hb
  have hrun := Reallocator.inPlace_run hb ⟨hpos, Nat.le_refl b.size⟩
  have hsize : b.size ≠ 0 := Nat.ne_of_gt hpos
  apply hnever (Reallocator.inPlace b b.size ⟨hpos, Nat.le_refl _⟩)
    (some b.addr) b.size b.size (Granted.block hb) hsize (Nat.le_refl _)
    (by rw [hrun]; exact Option.some_ne_none _)
  have htotal := (Granted.block hb).total
  have hsame : wordSub ((m.current + b.size) % 2 ^ 64) b.size =
      m.current := by
    rw [wordSub_add (by omega) (by omega) (by omega)]
    omega
  have hrefused : ¬ (m.limit = 0 ∨
      wordSub ((m.current + b.size) % 2 ^ 64) b.size <= m.limit) := by
    rw [hsame]
    exact not_or_intro hlimit habove
  rw [memoryManager, if_neg hsize]
  dsimp only
  rw [if_neg hrefused]

theorem neverRefused_iff {m : MemoryState} (h : Accounted m) :
    NeverRefused m <-> m.Within := by
  constructor
  · intro hnever
    by_contra hwithin
    exact h.refused hwithin hnever
  · exact h.neverRefused

/-!
## One step
-/

theorem Step.accounted {a b : Life} (hstep : Step a b)
    (h : Accounted a.memory) : Accounted b.memory := by
  cases hstep with
  | request hg realloc nsize =>
      exact (memoryManager_accounted h hg realloc nsize).1
  | restored => exact ⟨h.current_eq, Nat.le_refl _⟩
  | create ml => exact ⟨h.current_eq, h.current_le⟩
  | load => exact ⟨h.current_eq, h.current_le⟩
  | loaded => exact ⟨h.current_eq, h.current_le⟩
  | restore => exact ⟨h.current_eq, h.current_le⟩
  | run => exact h
  | preserve => exact ⟨h.current_eq, h.current_le⟩

/-- A request keeps the usage within the limit. -/
theorem memoryManager_within {m : MemoryState} {ptr : Option Nat}
    {osize : Nat} (h : Accounted m) (hg : Granted m.heap ptr osize)
    (realloc : Reallocator (2 ^ 64)) (nsize : Nat) (hwithin : m.Within) :
    (memoryManager realloc m ptr osize nsize).2.Within := by
  rcases memoryManager_cases realloc m ptr osize nsize with
    ⟨-, heq⟩ | ⟨-, -, heq⟩ | ⟨a, -, -, hle, heq⟩
  · rw [heq]
    have htotal := hg.total
    have hlt := total_lt_word m.heap
    have hcurrent := h.current_eq
    have hsub : wordSub m.current osize = m.current - osize :=
      wordSub_eq (by omega) (by omega)
    rcases hwithin with hzero | hwithin
    · exact Or.inl hzero
    · refine Or.inr ?_
      change wordSub m.current osize <= m.limit
      omega
  · rw [heq]
    exact hwithin
  · rw [heq]
    exact hle

/-- A step that leaves the usage as it is keeps it within the limit if and only
if the limit fits. -/
theorem within_iff_fits {a b : Life} (hwithin : a.memory.Within)
    (hcurrent : b.memory.current = a.memory.current) :
    b.memory.Within <-> ImposesFitting a b := by
  unfold MemoryState.Within at hwithin ⊢
  unfold ImposesFitting
  rw [hcurrent]
  constructor
  · exact Or.inr
  · intro h
    rcases h with hsame | h
    · rwa [hsame]
    · exact h

theorem Step.within_iff {a b : Life} (hstep : Step a b)
    (h : Accounted a.memory) (hwithin : a.memory.Within) :
    b.memory.Within <-> ImposesFitting a b := by
  cases hstep with
  | request hg realloc nsize =>
      have hlimit := (memoryManager_accounted h hg realloc nsize).2.2
      exact ⟨fun _ => Or.inl hlimit,
        fun _ => memoryManager_within h hg realloc nsize hwithin⟩
  | create ml => exact within_iff_fits hwithin rfl
  | load => exact within_iff_fits hwithin rfl
  | loaded => exact within_iff_fits hwithin rfl
  | restore => exact within_iff_fits hwithin rfl
  | restored => exact within_iff_fits hwithin rfl
  | run => exact within_iff_fits hwithin rfl
  | preserve => exact within_iff_fits hwithin rfl

/-!
## Every run
-/

theorem Run.accounted {lives : List Life} (h : Run lives) :
    forall l, l ∈ lives -> Accounted l.memory := by
  induction h with
  | start =>
      intro l hl
      rw [List.mem_singleton.mp hl]
      exact startMemory_accounted
  | step h hstep ih =>
      intro l hl
      rcases List.mem_cons.mp hl with rfl | hmem
      · exact hstep.accounted (ih _ List.mem_cons_self)
      · exact ih l hmem

/-- In a run no block is refused to shrink if and only if every limit that is
imposed on the way is not below the usage at that time. -/
theorem neverRefused_iff_fits {lives : List Life} (h : Run lives) :
    (forall l, l ∈ lives -> NeverRefused l.memory) <->
      lives.IsChain (fun b a => ImposesFitting a b) := by
  induction h with
  | start =>
      refine ⟨fun _ => List.isChain_singleton _, ?_⟩
      intro _ l hl
      rw [List.mem_singleton.mp hl]
      exact startMemory_accounted.neverRefused (Or.inl rfl)
  | @step a b rest h hstep ih =>
      have ha := h.accounted a List.mem_cons_self
      have hb := hstep.accounted ha
      rw [List.isChain_cons_cons, <- ih]
      constructor
      · intro hnever
        have hrest := fun l hl => hnever l (List.mem_cons_of_mem b hl)
        have hwithin := (neverRefused_iff ha).mp (hrest a List.mem_cons_self)
        have hlatest := (neverRefused_iff hb).mp (hnever b List.mem_cons_self)
        exact ⟨(hstep.within_iff ha hwithin).mp hlatest, hrest⟩
      · rintro ⟨hfits, hrest⟩ l hl
        rcases List.mem_cons.mp hl with rfl | hmem
        · have hwithin := (neverRefused_iff ha).mp
            (hrest a List.mem_cons_self)
          exact (neverRefused_iff hb).mpr
            ((hstep.within_iff ha hwithin).mpr hfits)
        · exact hrest l hmem

/-- The usage with one block of ten bytes. -/
def oneBlock : MemoryState :=
  (memoryManager (Reallocator.bump (2 ^ 64)) startMemory none 0 10).2

/-- A sandbox that was created with one block and a limit. -/
def createdWith (limit : Nat) : List Life :=
  [⟨Phase.created, oneBlock.setLimit limit⟩, ⟨Phase.creating, oneBlock⟩,
    ⟨Phase.creating, startMemory⟩]

theorem createdWith_run (limit : Nat) : Run (createdWith limit) :=
  Run.step
    (Run.step Run.start
      (Step.request Granted.null (Reallocator.bump (2 ^ 64)) 10))
    (Step.create limit)

/-- With a limit of ten bytes it may shrink its block. -/
theorem neverRefused_createdWith : NeverRefused (oneBlock.setLimit 10) :=
  (neverRefused_iff_fits (createdWith_run 10)).mpr
    (List.isChain_cons_cons.mpr ⟨Or.inr (Or.inr (by decide)),
      List.isChain_cons_cons.mpr ⟨Or.inl rfl, List.isChain_singleton _⟩⟩)
    _ List.mem_cons_self

/-- With a limit of one byte the block is refused to shrink. -/
theorem not_neverRefused :
    ¬ (forall lives, Run lives ->
      forall l, l ∈ lives -> NeverRefused l.memory) := by
  intro h
  have hrun := createdWith_run 1
  have haccounted := hrun.accounted _ List.mem_cons_self
  have hwithin := (neverRefused_iff haccounted).mp
    (h (createdWith 1) hrun _ List.mem_cons_self)
  rcases hwithin with hzero | hle
  · exact absurd hzero (by decide)
  · exact absurd hle (by decide)

end Core
end LuaSandbox
