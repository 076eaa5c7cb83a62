import LuaSandbox.Matcher.Layout

/-!
# The compiled matcher refines its tree

Compiling the postfix form of a tree reserves exactly the units that are
written, truncates no index and no address, and the evaluation of the result is
the evaluation of the tree.
-/

namespace LuaSandbox
namespace Matcher

open Foundation Util
open BoolTree

/-!
## Compilation
-/

/-- The most leaves that the condition counter lets through. -/
def maxLeaves : Nat := 128

/-- The node array is the code of a tree. -/
structure Compiled (t : BoolTree LeafTest) (mm : LsbMessageMatcher) :
    Prop where
  bytes_eq : mm.bytes = matchNodeSize * t.units leafUnits
  holds : ShortCircuit.Holds (codeOf mm.nodes) unitsOf (compiledTree t) 0

theorem Compiled.stop_eq {t : BoolTree LeafTest} {mm : LsbMessageMatcher}
    (h : Compiled t mm) : mm.stop = t.units leafUnits := by
  rw [LsbMessageMatcher.stop, h.bytes_eq]
  exact Nat.mul_div_cancel_left _ (by decide)

theorem size_le_of_leaves {t : BoolTree LeafTest}
    (h : t.leaves.length <= maxLeaves) : t.size <= 255 := by
  have := size_eq_two_mul_leaves t
  unfold maxLeaves at h
  omega

theorem units_leafUnits_le (t : BoolTree LeafTest) :
    t.units leafUnits <= 65 * t.size := by
  induction t with
  | leaf a =>
      have := nodeUnits_le a.1
      simpa [units, BoolTree.size, leafUnits] using this
  | node c l r ihl ihr =>
      simp only [units, BoolTree.size]
      omega

theorem units_lt_of_leaves {t : BoolTree LeafTest}
    (h : t.leaves.length <= maxLeaves) : t.units leafUnits < 2 ^ 16 := by
  have hsize := size_le_of_leaves h
  have hunits := units_leafUnits_le t
  omega

/-- The operators' indices do not disturb the sizes. -/
theorem linked_getMatcherBytes {t : BoolTree LeafTest}
    (h : t.leaves.length <= maxLeaves) :
    Linked (getMatcherBytes 0 (linkedNodes t 0)).2 t 0 := by
  have hsize := size_le_of_leaves h
  have hlinked := linked_notedNodes t [] [] (by simp; omega)
  rw [getMatcherBytes_linkedNodes]
  simpa using hlinked

/-- The traversal writes exactly the reserved units. -/
theorem inorderTraverse_units {t : BoolTree LeafTest}
    (h : t.leaves.length <= maxLeaves) :
    exists lay,
      inorderTraverse (getMatcherBytes 0 (linkedNodes t 0)).2
          (linkedNodes t 0).length
          (UInt8.ofNat (linkedNodes t 0).length)
          ⟨fun _ => Cell.zero, 0, fun _ => none⟩
          ((linkedNodes t 0).length - 1) = some lay ∧
        lay.mn = t.units leafUnits ∧ Laid lay.nodes t 0 0 t.size ∧
        Marked lay.offsets t 0 0 := by
  have hsize := size_le_of_leaves h
  have htraverse := inorderTraverse_linked t (n := t.size) (s := 0)
    (UInt8.ofNat t.size) ⟨fun _ => Cell.zero, 0, fun _ => none⟩
    (linked_getMatcherBytes h) (Nat.le_refl _)
  rcases htraverse with ⟨lay, hlay, hmn, hlaid, hmarked, _, _⟩
  have hparent : (UInt8.ofNat t.size).toNat = t.size := by
    rw [UInt8.toNat_ofNat']
    omega
  rw [hparent] at hlaid
  refine ⟨lay, ?_, ?_, hlaid, hmarked⟩
  · simpa using hlay
  · simpa using hmn

/-- Compiling a linked tree gives its code. -/
theorem makeMatcher_linkedNodes {t : BoolTree LeafTest}
    (h : t.leaves.length <= maxLeaves) :
    exists mm, makeMatcher (linkedNodes t 0) = some mm ∧ Compiled t mm := by
  have hsize := size_le_of_leaves h
  have hunits := units_lt_of_leaves h
  rcases inorderTraverse_units h with ⟨lay, hlay, _, hlaid, hmarked⟩
  have htarget :
      branchTarget t.size (t.units leafUnits) lay.offsets t.size =
        some (0 + t.units leafUnits) := by
    simp [branchTarget]
  rcases populateOffsets_laid hunits hsize t hlaid hmarked htarget
      (by omega) (by omega) (by omega) with ⟨cells, hrun, hholds, _⟩
  have hbytes : (getMatcherBytes 0 (linkedNodes t 0)).1 =
      matchNodeSize * t.units leafUnits := by
    rw [getMatcherBytes_linkedNodes]
  have hstop : matchNodeSize * t.units leafUnits / matchNodeSize =
      t.units leafUnits :=
    Nat.mul_div_cancel_left _ (by decide)
  have hle := size_le_units leafUnits leafUnits_pos t
  -- the loop takes a turn for every node and stops behind the last one
  have hpopulate : populateOffsets (linkedNodes t 0).length
      (t.units leafUnits) lay.offsets (t.units leafUnits + 1) 0 lay.nodes =
        some cells := by
    have hfuel : t.units leafUnits + 1 =
        t.size + (t.units leafUnits - t.size + 1) := by
      omega
    rw [length_linkedNodes]
    conv_lhs => rw [hfuel]
    rw [hrun]
    simp [populateOffsets]
  refine ⟨⟨matchNodeSize * t.units leafUnits, cells⟩, ?_, rfl, hholds⟩
  simp only [makeMatcher, hbytes, hlay, hstop, hpopulate]

/-!
## Evaluation
-/

theorem isLogical_eq_false_iff {op : MatchOperation} :
    op.isLogical = false <->
      op ≠ MatchOperation.opAnd ∧ op ≠ MatchOperation.opOr := by
  cases op <;> decide

theorem instrOf_cases {mn : MatchNode} {i : Instr CompiledTest}
    (h : instrOf mn = some i) :
    (exists c off, mn.op = connectiveOp c ∧ mn.u = MatchIndex.off off ∧
      mn.units = 1 ∧ i = Instr.branch c off.toNat) ∨
    (mn.op.isLogical = false ∧
      exists hpos, i = Instr.test ⟨mn, hpos⟩ mn.units.toNat) := by
  unfold instrOf at h
  split at h
  · rename_i off hop hu
    split at h
    · rename_i hunits
      cases h
      exact Or.inl ⟨Connective.and, off, hop, hu, hunits, rfl⟩
    · cases h
  · rename_i off hop hu
    split at h
    · rename_i hunits
      cases h
      exact Or.inl ⟨Connective.or, off, hop, hu, hunits, rfl⟩
    · cases h
  · cases h
  · cases h
  · rename_i hand hor _ _
    split at h
    · rename_i hpos
      cases h
      exact Or.inr
        ⟨isLogical_eq_false_iff.mpr ⟨hand, hor⟩, hpos, rfl⟩
    · cases h

theorem evalStep_branch {v : Nat -> MatchNode -> Bool} {cells : Nat -> Cell}
    {p : Nat} {b : Bool} {mn : MatchNode} {c : Connective} {off : UInt16}
    (hcell : cells p = Cell.node mn) (hop : mn.op = connectiveOp c)
    (hu : mn.u = MatchIndex.off off) (hunits : mn.units = 1) :
    evalStep v cells (p, b) =
      if c.decided b then some (off.toNat, b) else some (p + 1, b) := by
  cases c <;> cases b <;>
    simp [evalStep, hcell, hop, hu, hunits, connectiveOp, Connective.decided]

theorem evalStep_test {v : Nat -> MatchNode -> Bool} {cells : Nat -> Cell}
    {p : Nat} {b : Bool} {mn : MatchNode} (hcell : cells p = Cell.node mn)
    (hlogical : mn.op.isLogical = false) :
    evalStep v cells (p, b) = some (p + mn.units.toNat, v p mn) := by
  rcases isLogical_eq_false_iff.mp hlogical with ⟨hand, hor⟩
  simp only [evalStep, hcell]
  split <;> simp_all

/-- At an instruction a turn of the loop is a step of short-circuit code. -/
theorem evalStep_eq_step {v : Nat -> MatchNode -> Bool} {cells : Nat -> Cell}
    {p : Nat} {b : Bool} (h : (codeOf cells p).isSome = true) :
    evalStep v cells (p, b) =
      ShortCircuit.step (fun q a => v q a.1) (codeOf cells) (p, b) := by
  rcases Option.isSome_iff_exists.mp h with ⟨i, hi⟩
  cases hcell : cells p with
  | zero => simp [codeOf, hcell] at hi
  | data => simp [codeOf, hcell] at hi
  | node mn =>
      have hinstr : instrOf mn = some i := by
        rw [← codeOf_node hcell]
        exact hi
      rcases instrOf_cases hinstr with
        ⟨c, off, hop, hu, hunits, rfl⟩ | ⟨hlogical, hpos, rfl⟩
      · rw [evalStep_branch hcell hop hu hunits]
        simp only [ShortCircuit.step, hi]
      · rw [evalStep_test hcell hlogical]
        simp only [ShortCircuit.step, hi]

/-- A run of the code is a run of the loop. -/
theorem evalLoop_of_run {v : Nat -> MatchNode -> Bool}
    {mm : LsbMessageMatcher} {result : Bool} :
    forall {n : Nat} {s : Nat × Bool},
      ShortCircuit.run (fun q a => v q a.1) (codeOf mm.nodes) mm.stop n s =
        some result ->
      evalLoop v mm n s = some result
  | 0, s, h => by cases h
  | n + 1, s, h => by
      simp only [ShortCircuit.run] at h
      simp only [evalLoop]
      by_cases hstop : mm.stop <= s.1
      · rw [if_pos hstop] at h
        rw [if_neg (by omega)]
        exact h
      · rw [if_neg hstop] at h
        rw [if_pos (by omega)]
        cases hcode : codeOf mm.nodes s.1 with
        | none =>
            have hnone : ShortCircuit.step (fun q a => v q a.1)
                (codeOf mm.nodes) s = none := by
              simp only [ShortCircuit.step, hcode]
            rw [hnone] at h
            cases h
        | some i =>
            have hstep : evalStep v mm.nodes s =
                ShortCircuit.step (fun q a => v q a.1) (codeOf mm.nodes) s :=
              evalStep_eq_step (by rw [hcode]; rfl)
            rw [hstep]
            cases hnext : ShortCircuit.step (fun q a => v q a.1)
                (codeOf mm.nodes) s with
            | none =>
                rw [hnext] at h
                cases h
            | some s' =>
                rw [hnext] at h
                exact evalLoop_of_run h

/-- The loop over the code of a tree computes the value of the tree. -/
theorem Compiled.evalLoop_eq {t : BoolTree LeafTest}
    {mm : LsbMessageMatcher} (h : Compiled t mm)
    (v : Nat -> MatchNode -> Bool) (b : Bool) :
    evalLoop v mm (mm.stop + 1) (0, b) =
      some (((compiledTree t).locate unitsOf 0).eval
        (fun x => v x.1 x.2.1)) := by
  apply evalLoop_of_run
  have hstop : mm.stop = (compiledTree t).units unitsOf := by
    rw [h.stop_eq, units_compiledTree]
  have hsize : (compiledTree t).size < mm.stop + 1 := by
    have := size_le_units unitsOf unitsOf_pos (compiledTree t)
    omega
  rw [hstop] at hsize ⊢
  exact ShortCircuit.run_eq_eval unitsOf_pos h.holds hsize b

/-- A leaf test that does not look at its position evaluates by the tree. -/
theorem Compiled.evalLoop_eq_eval {t : BoolTree LeafTest}
    {mm : LsbMessageMatcher} (h : Compiled t mm) (v : MatchNode -> Bool)
    (b : Bool) :
    evalLoop (fun _ mn => v mn) mm (mm.stop + 1) (0, b) =
      some (t.eval (fun a => v (copyNode 0 a.1))) := by
  rw [h.evalLoop_eq, eval_locate unitsOf (fun a => v a.1), compiledTree,
    eval_map]
  rfl

/-- The states the evaluation loop passes through. -/
def Visits (v : Nat -> MatchNode -> Bool) (mm : LsbMessageMatcher) :
    Nat × Bool -> Nat × Bool -> Prop :=
  Relation.ReflTransGen
    (fun s s' => s.1 < mm.stop ∧ evalStep v mm.nodes s = some s')

/-- The loop stands on the start of a node until it is done. -/
theorem Compiled.visits_node {t : BoolTree LeafTest}
    {mm : LsbMessageMatcher} (h : Compiled t mm)
    {v : Nat -> MatchNode -> Bool} {b : Bool} {s : Nat × Bool}
    (hvisits : Visits v mm (0, b) s) :
    s.1 = mm.stop ∨ exists mn, mm.nodes s.1 = Cell.node mn := by
  have hstop : mm.stop = (compiledTree t).units unitsOf := by
    rw [h.stop_eq, units_compiledTree]
  have hstarts : ShortCircuit.Starts unitsOf (compiledTree t) 0 s.1 ∨
      s.1 = (compiledTree t).units unitsOf := by
    induction hvisits with
    | refl => exact Or.inl (ShortCircuit.starts_base _ 0)
    | @tail s1 s2 _ hlast ih =>
        rcases hlast with ⟨hlt, hstep⟩
        rcases ih with hs | hs
        · have hcode := ShortCircuit.code_of_starts h.holds hs
          have hstep' : ShortCircuit.step (fun q a => v q a.1)
              (codeOf mm.nodes) s1 = some s2 := by
            rw [← hstep]
            exact (evalStep_eq_step hcode).symm
          simpa using ShortCircuit.step_starts h.holds hs hstep'
        · omega
  rcases hstarts with hs | hs
  · right
    have hcode := ShortCircuit.code_of_starts h.holds hs
    cases hcell : mm.nodes s.1 with
    | zero => simp [codeOf, hcell] at hcode
    | data => simp [codeOf, hcell] at hcode
    | node mn => exact ⟨mn, rfl⟩
  · left
    rw [hs, hstop]

/-!
## The tests of a node array
-/

/-- The nodes that test, from unit `p` on and at most `n` nodes further. -/
def testNodesFrom (stop : Nat) (cells : Nat -> Cell) :
    Nat -> Nat -> List MatchNode
  | 0, _ => []
  | n + 1, p =>
      if p < stop then
        match cells p with
        | Cell.node mn =>
            if mn.op.isLogical then
              testNodesFrom stop cells n (p + mn.units.toNat)
            else
              mn :: testNodesFrom stop cells n (p + mn.units.toNat)
        | _ => []
      else
        []

/-- The nodes that test, from left to right. -/
def LsbMessageMatcher.testNodes (mm : LsbMessageMatcher) : List MatchNode :=
  testNodesFrom mm.stop mm.nodes (mm.stop + 1) 0

theorem testNodesFrom_test {stop n p : Nat} {cells : Nat -> Cell}
    {a : CompiledTest} {units : Nat} (hlt : p < stop)
    (hcode : codeOf cells p = some (Instr.test a units)) :
    testNodesFrom stop cells (n + 1) p =
      a.1 :: testNodesFrom stop cells n (p + unitsOf a) := by
  cases hcell : cells p with
  | zero => simp [codeOf, hcell] at hcode
  | data => simp [codeOf, hcell] at hcode
  | node mn =>
      rw [codeOf_node hcell] at hcode
      rcases instrOf_cases hcode with
        ⟨c, off, _, _, _, hinstr⟩ | ⟨hlogical, hpos, hinstr⟩
      · cases hinstr
      · cases hinstr
        simp [testNodesFrom, hlt, hcell, hlogical, unitsOf]

theorem testNodesFrom_branch {stop n p target : Nat} {cells : Nat -> Cell}
    {c : Connective} (hlt : p < stop)
    (hcode : codeOf cells p = some (Instr.branch c target)) :
    testNodesFrom stop cells (n + 1) p =
      testNodesFrom stop cells n (p + 1) := by
  cases hcell : cells p with
  | zero => simp [codeOf, hcell] at hcode
  | data => simp [codeOf, hcell] at hcode
  | node mn =>
      rw [codeOf_node hcell] at hcode
      rcases instrOf_cases hcode with
        ⟨c', off, hop, _, hunits, hinstr⟩ | ⟨_, hpos, hinstr⟩
      · simp [testNodesFrom, hlt, hcell, hop, hunits]
      · cases hinstr

theorem testNodesFrom_holds {stop : Nat} {cells : Nat -> Cell}
    (t : BoolTree CompiledTest) :
    forall {n base : Nat}, ShortCircuit.Holds (codeOf cells) unitsOf t base ->
      base + t.units unitsOf <= stop ->
      testNodesFrom stop cells (t.size + n) base =
        t.leaves.map Subtype.val ++
          testNodesFrom stop cells n (base + t.units unitsOf) := by
  induction t with
  | leaf a =>
      intro n base hholds hle
      have hpos := unitsOf_pos a
      simp only [units] at hle
      rw [size, Nat.add_comm 1 n, testNodesFrom_test (by omega) hholds]
      rfl
  | node c l r ihl ihr =>
      intro n base hholds hle
      rcases hholds with ⟨hl, hop, hr⟩
      simp only [units] at hle
      have hsize : (node c l r).size + n = l.size + (r.size + n + 1) := by
        simp only [size]
        omega
      rw [hsize, ihl hl (by omega), testNodesFrom_branch (by omega) hop,
        ihr hr (by omega)]
      simp [leaves, units, Nat.add_assoc]

/-- The tests of a compiled tree are its leaves. -/
theorem Compiled.testNodes_eq {t : BoolTree LeafTest}
    {mm : LsbMessageMatcher} (h : Compiled t mm) :
    mm.testNodes = t.leaves.map (fun a => copyNode 0 a.1) := by
  have hstop : mm.stop = (compiledTree t).units unitsOf := by
    rw [h.stop_eq, units_compiledTree]
  have hsize := size_le_units unitsOf unitsOf_pos (compiledTree t)
  obtain ⟨n, hn⟩ : exists n, mm.stop + 1 = (compiledTree t).size + (n + 1) :=
    ⟨mm.stop - (compiledTree t).size, by omega⟩
  have hend : testNodesFrom mm.stop mm.nodes (n + 1)
      (0 + (compiledTree t).units unitsOf) = [] := by
    simp [testNodesFrom, hstop]
  rw [LsbMessageMatcher.testNodes, hn,
    testNodesFrom_holds (compiledTree t) h.holds (by omega), hend]
  simp [compiledTree, leaves_map, compiledTest]

/-!
## Refinement
-/

/-- What compiling a tree of tests comes to. -/
structure Refines (t : BoolTree LeafTest) (linked : List MatchNodeTmp)
    (mm : LsbMessageMatcher) : Prop where
  /-- The number of nodes, which stands for the end of the array, fits a byte,
  and the number of units fits the offset of a branch. -/
  sizes_fit : linked.length < 2 ^ 8 ∧ mm.stop < 2 ^ 16
  /-- The operand and operator indices fit their bytes. -/
  indices_exact : Linked (getMatcherBytes 0 linked).2 t 0
  /-- The reserved units are those that are written. -/
  reserved_eq_written : exists lay,
    inorderTraverse (getMatcherBytes 0 linked).2 linked.length
        (UInt8.ofNat linked.length)
        ⟨fun _ => Cell.zero, 0, fun _ => none⟩ (linked.length - 1) =
      some lay ∧
    mm.bytes = matchNodeSize * lay.mn
  /-- A compiled test says how many units it takes. -/
  units_exact : forall a, a ∈ t.leaves -> forall parent,
    (copyNode parent a.1).units.toNat =
      1 + (matchNodeSize - 1 + a.1.varBytes + a.1.valBytes) / matchNodeSize
  /-- Every node stands where the units before it end, and the branches lead
  to the exact addresses. -/
  branches_exact :
    ShortCircuit.Holds (codeOf mm.nodes) unitsOf (compiledTree t) 0
  /-- The leaves stand at different addresses. -/
  addresses_increase :
    (((compiledTree t).locate unitsOf 0).leaves.map Prod.fst).Pairwise
      (· < ·)
  /-- The loop ends with the value of the tree, for any truth assignment to
  the leaves and their positions. -/
  evaluates : forall v : Nat -> MatchNode -> Bool,
    evalLoop v mm (mm.stop + 1) (0, false) =
      some (((compiledTree t).locate unitsOf 0).eval
        (fun x => v x.1 x.2.1))
  /-- The loop never lands inside a node. -/
  visits_nodes : forall (v : Nat -> MatchNode -> Bool) (s : Nat × Bool),
    Visits v mm (0, false) s ->
    s.1 = mm.stop ∨ exists mn, mm.nodes s.1 = Cell.node mn

/--
Every postfix sequence of tests and operators with as many leaves as the
condition counter lets through compiles to a node array that refines its tree.
-/
theorem makeMatcher_refines (t : BoolTree LeafTest)
    (hleaves : t.leaves.length <= maxLeaves) :
    exists linked mm, makeTree (postfixNodes t) = some linked ∧
      makeMatcher linked = some mm ∧ Refines t linked mm := by
  rcases makeMatcher_linkedNodes hleaves with ⟨mm, hmake, hcompiled⟩
  refine ⟨linkedNodes t 0, mm, makeTree_postfixNodes t, hmake, ?_⟩
  constructor
  · rw [length_linkedNodes, hcompiled.stop_eq]
    have := size_le_of_leaves hleaves
    exact ⟨by omega, units_lt_of_leaves hleaves⟩
  · exact linked_getMatcherBytes hleaves
  · rcases inorderTraverse_units hleaves with ⟨lay, hlay, hmn, _, _⟩
    exact ⟨lay, hlay, by rw [hcompiled.bytes_eq, hmn]⟩
  · intro a _ parent
    exact toNat_copyNode_units parent a.1
  · exact hcompiled.holds
  · exact locate_pairwise unitsOf unitsOf_pos (compiledTree t) 0
  · intro v
    exact hcompiled.evalLoop_eq v false
  · intro v s hvisits
    exact hcompiled.visits_node hvisits

/-- The tree of `TRUE && FALSE || TRUE`. -/
def sampleTree : BoolTree LeafTest :=
  node Connective.or
    (node Connective.and (leaf ⟨opNode MatchOperation.opTrue, rfl⟩)
      (leaf ⟨opNode MatchOperation.opFalse, rfl⟩))
    (leaf ⟨opNode MatchOperation.opTrue, rfl⟩)

theorem makeMatcher_refines_sample :
    exists linked mm, makeTree (postfixNodes sampleTree) = some linked ∧
      makeMatcher linked = some mm ∧ Refines sampleTree linked mm :=
  makeMatcher_refines sampleTree (by decide)

end Matcher
end LuaSandbox
