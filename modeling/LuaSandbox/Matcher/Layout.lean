import LuaSandbox.Foundation.ShortCircuit
import LuaSandbox.Matcher.Eval

/-!
# The layout of a compiled matcher

The compiler turns the postfix form of any tree of tests into the short-circuit
code of that tree: operands are linked by their indices, every node stands
where the traversal arrives, and an operator branches to the end of the operand
it is in.
-/

namespace LuaSandbox
namespace Matcher

open Foundation Util
open BoolTree

/-!
## Trees of tests
-/

/-- A node that tests; operators have nodes of their own. -/
abbrev LeafTest := { mnt : MatchNodeTmp // mnt.op.isLogical = false }

def connectiveOp : Connective -> MatchOperation
  | Connective.and => MatchOperation.opAnd
  | Connective.or => MatchOperation.opOr

@[simp] theorem isLogical_connectiveOp (c : Connective) :
    (connectiveOp c).isLogical = true := by
  cases c <;> rfl

def tokenNode : BoolTree.Token LeafTest -> MatchNodeTmp
  | Token.leaf a => a.1
  | Token.op c => opNode (connectiveOp c)

/-- The output of the parser that stands for a tree. -/
def postfixNodes (t : BoolTree LeafTest) : List MatchNodeTmp :=
  t.postfixOf.map tokenNode

@[simp] theorem postfixNodes_leaf (a : LeafTest) :
    postfixNodes (leaf a) = [a.1] := rfl

@[simp] theorem postfixNodes_node (c : Connective)
    (l r : BoolTree LeafTest) :
    postfixNodes (node c l r) =
      postfixNodes l ++ postfixNodes r ++ [opNode (connectiveOp c)] := by
  simp [postfixNodes, postfixOf, tokenNode]

@[simp] theorem length_postfixNodes (t : BoolTree LeafTest) :
    (postfixNodes t).length = t.size := by
  induction t with
  | leaf a => rfl
  | node c l r ihl ihr => simp [size, ihl, ihr, Nat.add_assoc]

/-!
## Linking
-/

/-- An operator with the indices of its operands. -/
def linkedOp (c : Connective) (fi ai : Nat) : MatchNodeTmp :=
  { opNode (connectiveOp c) with fi := UInt8.ofNat fi, ai := UInt8.ofNat ai }

/-- The nodes of a tree from index `s` on, once they are linked. -/
def linkedNodes : BoolTree LeafTest -> Nat -> List MatchNodeTmp
  | leaf a, _ => [a.1]
  | node c l r, s =>
      linkedNodes l s ++ linkedNodes r (s + l.size) ++
        [linkedOp c (s + l.size - 1) (s + l.size + r.size - 1)]

theorem makeTreeLoop_postfixNodes (t : BoolTree LeafTest) :
    forall (s : Nat) (stack : List Nat) (rest : List MatchNodeTmp),
      makeTreeLoop s stack (postfixNodes t ++ rest) =
        (makeTreeLoop (s + t.size) ((s + t.size - 1) :: stack) rest).map
          (fun nodes => linkedNodes t s ++ nodes) := by
  induction t with
  | leaf a =>
      intro s stack rest
      simp [makeTreeLoop, linkedNodes, size, a.2]
  | node c l r ihl ihr =>
      intro s stack rest
      rw [postfixNodes_node, List.append_assoc, List.append_assoc, ihl, ihr]
      simp only [List.cons_append, List.nil_append, makeTreeLoop, opNode,
        isLogical_connectiveOp, if_true, Option.map_map]
      have hend : s + (node c l r).size = s + l.size + r.size + 1 := by
        simp only [size]
        omega
      rw [hend, Nat.add_sub_cancel]
      congr 1
      funext nodes
      simp [linkedNodes, linkedOp, opNode]

theorem makeTree_postfixNodes (t : BoolTree LeafTest) :
    makeTree (postfixNodes t) = some (linkedNodes t 0) := by
  have h := makeTreeLoop_postfixNodes t 0 [] []
  simpa [makeTree, makeTreeLoop] using h

/-!
## Reserving units
-/

/-- The units of a node and its data. -/
def nodeUnits (mnt : MatchNodeTmp) : Nat :=
  1 + (matchNodeSize - 1 + mnt.varBytes + mnt.valBytes) / matchNodeSize

def leafUnits (a : LeafTest) : Nat := nodeUnits a.1

theorem leafUnits_pos (a : LeafTest) : 0 < leafUnits a :=
  Nat.lt_of_lt_of_le Nat.one_pos (Nat.le_add_right 1 _)

/-- A name and a value of at most 255 bytes and a NUL fit into 65 units. -/
theorem nodeUnits_le (mnt : MatchNodeTmp) : nodeUnits mnt <= 65 := by
  have hvar : mnt.varBytes <= 255 := by
    have := mnt.varLen.toNat_lt
    unfold MatchNodeTmp.varBytes
    split <;> omega
  have hval : mnt.valBytes <= 256 := by
    have := mnt.valLen.toNat_lt
    unfold MatchNodeTmp.valBytes
    split <;> omega
  simp only [nodeUnits, matchNodeSize]
  omega

/-- A node without data takes one unit. -/
theorem nodeUnits_of_nil {mnt : MatchNodeTmp} (hid : mnt.id = 0)
    (htype : mnt.valType = MatchType.typeNil) : nodeUnits mnt = 1 := by
  have hvar : mnt.varBytes = 0 := by
    simp [MatchNodeTmp.varBytes, hid, lsbPbFields]
  have hval : mnt.valBytes = 0 := by
    simp [MatchNodeTmp.valBytes, htype]
  rw [nodeUnits, hvar, hval]
  rfl

theorem toNat_copyNode_units (parent : UInt8) (mnt : MatchNodeTmp) :
    (copyNode parent mnt).units.toNat = nodeUnits mnt := by
  have hle := nodeUnits_le mnt
  change (UInt8.ofNat (nodeUnits mnt)).toNat = nodeUnits mnt
  rw [UInt8.toNat_ofNat']
  omega

theorem reservedBytes_eq (mnt : MatchNodeTmp) :
    (matchNodeSize * 2 + mnt.valBytes + mnt.varBytes - 1) / matchNodeSize *
      matchNodeSize = matchNodeSize * nodeUnits mnt := by
  simp only [nodeUnits, matchNodeSize]
  omega

/-- A linked operator that notes its own index. -/
def notedOp (c : Connective) (fi ai i : Nat) : MatchNodeTmp :=
  { linkedOp c fi ai with valLen := UInt8.ofNat i }

/-- The nodes of a tree from index `s` on, with the operators' own indices. -/
def notedNodes : BoolTree LeafTest -> Nat -> List MatchNodeTmp
  | leaf a, _ => [a.1]
  | node c l r, s =>
      notedNodes l s ++ notedNodes r (s + l.size) ++
        [notedOp c (s + l.size - 1) (s + l.size + r.size - 1)
          (s + l.size + r.size)]

@[simp] theorem length_notedNodes (t : BoolTree LeafTest) (s : Nat) :
    (notedNodes t s).length = t.size := by
  induction t generalizing s with
  | leaf a => rfl
  | node c l r ihl ihr => simp [notedNodes, size, ihl, ihr, Nat.add_assoc]

@[simp] theorem length_linkedNodes (t : BoolTree LeafTest) (s : Nat) :
    (linkedNodes t s).length = t.size := by
  induction t generalizing s with
  | leaf a => rfl
  | node c l r ihl ihr => simp [linkedNodes, size, ihl, ihr, Nat.add_assoc]

theorem getMatcherBytes_append (xs ys : List MatchNodeTmp) :
    forall i, getMatcherBytes i (xs ++ ys) =
      ((getMatcherBytes i xs).1 + (getMatcherBytes (i + xs.length) ys).1,
        (getMatcherBytes i xs).2 ++
          (getMatcherBytes (i + xs.length) ys).2) := by
  induction xs with
  | nil => simp [getMatcherBytes]
  | cons x rest ih =>
      intro i
      have hlen : i + (x :: rest).length = i + 1 + rest.length := by
        simp only [List.length_cons]
        omega
      rw [hlen]
      simp only [List.cons_append, getMatcherBytes, ih, Nat.add_assoc]

/-- The bytes reserved are those of the units the nodes take. -/
theorem getMatcherBytes_linkedNodes (t : BoolTree LeafTest) :
    forall s, getMatcherBytes s (linkedNodes t s) =
      (matchNodeSize * t.units leafUnits, notedNodes t s) := by
  induction t with
  | leaf a =>
      intro s
      simp [getMatcherBytes, linkedNodes, notedNodes, units, leafUnits,
        reservedBytes_eq, a.2]
  | node c l r ihl ihr =>
      intro s
      have hunit : nodeUnits
          (linkedOp c (s + l.size - 1) (s + l.size + r.size - 1)) = 1 :=
        nodeUnits_of_nil rfl rfl
      have hlogical :
          (linkedOp c (s + l.size - 1) (s + l.size + r.size - 1)).op.isLogical =
            true := isLogical_connectiveOp c
      have hlen : (linkedNodes l s ++ linkedNodes r (s + l.size)).length =
          l.size + r.size := by
        simp
      rw [linkedNodes, getMatcherBytes_append, getMatcherBytes_append, ihl,
        length_linkedNodes, ihr, hlen, ← Nat.add_assoc]
      simp only [getMatcherBytes, reservedBytes_eq, hunit, hlogical, if_true,
        notedNodes, notedOp, units]
      rw [Nat.mul_add, Nat.mul_add, Nat.add_zero, Nat.add_right_comm]

/-!
## The linked array
-/

/--
The nodes of a tree stand from index `s` on, its root last, and every operator
has the exact indices of its operands and of itself.
-/
def Linked (nodes : List MatchNodeTmp) : BoolTree LeafTest -> Nat -> Prop
  | leaf a, s => nodes[s]? = some a.1
  | node c l r, s =>
      Linked nodes l s ∧ Linked nodes r (s + l.size) ∧
        exists mnt, nodes[s + l.size + r.size]? = some mnt ∧
          mnt.id = 0 ∧ mnt.op = connectiveOp c ∧
          mnt.valType = MatchType.typeNil ∧
          mnt.fi.toNat = s + l.size - 1 ∧
          mnt.ai.toNat = s + l.size + r.size - 1 ∧
          mnt.valLen.toNat = s + l.size + r.size

theorem linked_notedNodes (t : BoolTree LeafTest) :
    forall (front back : List MatchNodeTmp),
      front.length + t.size <= 256 ->
      Linked (front ++ notedNodes t front.length ++ back) t front.length := by
  induction t with
  | leaf a =>
      intro front back _
      simp [Linked, notedNodes]
  | node c l r ihl ihr =>
      intro front back hsize
      simp only [size] at hsize
      have hsplit : front ++ notedNodes (node c l r) front.length ++ back =
          front ++ notedNodes l front.length ++
            (notedNodes r (front.length + l.size) ++
              (notedOp c (front.length + l.size - 1)
                (front.length + l.size + r.size - 1)
                (front.length + l.size + r.size) :: back)) := by
        simp [notedNodes]
      have hlenl : (front ++ notedNodes l front.length).length =
          front.length + l.size := by
        simp
      rw [hsplit]
      refine ⟨ihl front _ (by omega), ?_, ?_⟩
      · have h := ihr (front ++ notedNodes l front.length)
          (notedOp c (front.length + l.size - 1)
            (front.length + l.size + r.size - 1)
            (front.length + l.size + r.size) :: back) (by omega)
        rw [hlenl, List.append_assoc] at h
        exact h
      · refine ⟨notedOp c (front.length + l.size - 1)
            (front.length + l.size + r.size - 1)
            (front.length + l.size + r.size), ?_, rfl, rfl, rfl, ?_, ?_, ?_⟩
        · rw [← List.append_assoc,
            List.getElem?_append_right (by simp [Nat.add_assoc])]
          simp [Nat.add_assoc]
        all_goals
          simp only [notedOp, linkedOp, UInt8.toNat_ofNat']
          omega

/-!
## Traversal
-/

/--
The nodes of a tree stand from unit `base` on; the operators branch to the
index of the operator they are a left operand of.
-/
def Laid (cells : Nat -> Cell) :
    BoolTree LeafTest -> Nat -> Nat -> Nat -> Prop
  | leaf a, base, _, _ => cells base = Cell.node (copyNode 0 a.1)
  | node c l r, base, s, parent =>
      Laid cells l base s (s + l.size + r.size) ∧
        (exists mn, cells (base + l.units leafUnits) = Cell.node mn ∧
          mn.op = connectiveOp c ∧ mn.units = 1 ∧
          mn.u = MatchIndex.off (UInt16.ofNat parent)) ∧
        Laid cells r (base + l.units leafUnits + 1) (s + l.size) parent

/-- The positions of the operators of a tree are noted under their indices. -/
def Marked (offsets : Nat -> Option Nat) :
    BoolTree LeafTest -> Nat -> Nat -> Prop
  | leaf _, _, _ => True
  | node _ l r, base, s =>
      Marked offsets l base s ∧
        offsets (s + l.size + r.size) = some (base + l.units leafUnits) ∧
        Marked offsets r (base + l.units leafUnits + 1) (s + l.size)

theorem laid_congr {cells cells' : Nat -> Cell} (t : BoolTree LeafTest) :
    forall {base s parent : Nat},
      (forall p, base <= p -> p < base + t.units leafUnits ->
        cells' p = cells p) ->
      Laid cells t base s parent -> Laid cells' t base s parent := by
  induction t with
  | leaf a =>
      intro base s parent h hlaid
      have := leafUnits_pos a
      have hbase : cells' base = cells base :=
        h base (Nat.le_refl base) (by simp only [units]; omega)
      exact hbase.trans hlaid
  | node c l r ihl ihr =>
      intro base s parent h hlaid
      simp only [units] at h
      rcases hlaid with ⟨hl, ⟨mn, hmn, hrest⟩, hr⟩
      refine ⟨ihl (fun p hlow hhigh => h p hlow (by omega)) hl,
        ⟨mn, ?_, hrest⟩,
        ihr (fun p hlow hhigh => h p (by omega) (by omega)) hr⟩
      rw [h _ (by omega) (by omega)]
      exact hmn

theorem marked_congr {offsets offsets' : Nat -> Option Nat}
    (t : BoolTree LeafTest) :
    forall {base s : Nat},
      (forall j, s <= j -> j < s + t.size -> offsets' j = offsets j) ->
      Marked offsets t base s -> Marked offsets' t base s := by
  induction t with
  | leaf a =>
      intro base s _ _
      trivial
  | node c l r ihl ihr =>
      intro base s h hmarked
      simp only [size] at h
      rcases hmarked with ⟨hl, hop, hr⟩
      refine ⟨ihl (fun j hlow hhigh => h j hlow (by omega)) hl, ?_,
        ihr (fun j hlow hhigh => h j (by omega) (by omega)) hr⟩
      rw [h _ (by omega) (by omega)]
      exact hop

theorem copyNode_of_not_logical {parent : UInt8} {mnt : MatchNodeTmp}
    (h : mnt.op.isLogical = false) : copyNode parent mnt = copyNode 0 mnt := by
  simp [copyNode, h]

theorem Layout.put_nodes_of_lt {l : Layout} {mn : MatchNode} {p : Nat}
    (h : p < l.mn) : (l.put mn).nodes p = l.nodes p := by
  simp only [Layout.put]
  rw [if_neg (by omega), if_neg (by omega)]

/-- Laying out a linked tree takes its units and touches nothing before. -/
theorem inorderTraverse_linked {nodes : List MatchNodeTmp}
    (t : BoolTree LeafTest) :
    forall {n s : Nat} (parent : UInt8) (lay : Layout),
      Linked nodes t s -> t.size <= n ->
      exists lay', inorderTraverse nodes n parent lay (s + t.size - 1) =
          some lay' ∧
        lay'.mn = lay.mn + t.units leafUnits ∧
        Laid lay'.nodes t lay.mn s parent.toNat ∧
        Marked lay'.offsets t lay.mn s ∧
        (forall p, p < lay.mn -> lay'.nodes p = lay.nodes p) ∧
        (forall j, j < s ∨ s + t.size <= j ->
          lay'.offsets j = lay.offsets j) := by
  induction t with
  | leaf a =>
      intro n s parent lay hlinked hfuel
      have hnode : nodes[s]? = some a.1 := hlinked
      obtain ⟨m, rfl⟩ : exists m, n = m + 1 :=
        ⟨n - 1, by simp only [size] at hfuel; omega⟩
      refine ⟨lay.put (copyNode parent a.1), ?_, ?_, ?_, trivial,
        fun p hp => Layout.put_nodes_of_lt hp, fun j _ => rfl⟩
      · simp [inorderTraverse, size, hnode, a.2]
      · simp [Layout.put, toNat_copyNode_units, units, leafUnits]
      · simp [Laid, Layout.put, copyNode_of_not_logical a.2]
  | node c l r ihl ihr =>
      intro n s parent lay hlinked hfuel
      rcases hlinked with
        ⟨hl, hr, mnt, hnode, hid, hop, htype, hfi, hai, hidx⟩
      have hlpos := size_pos l
      have hrpos := size_pos r
      simp only [size] at hfuel
      obtain ⟨m, rfl⟩ : exists m, n = m + 1 := ⟨n - 1, by omega⟩
      rcases ihl (n := m) mnt.valLen lay hl (by omega) with
        ⟨left, hleft, hleftmn, hleftlaid, hleftmarked, hleftcells,
          hleftoffs⟩
      let marked : Layout :=
        { left with
          offsets := fun j =>
            if j = mnt.valLen.toNat then some left.mn else left.offsets j }
      let opMn := copyNode parent { mnt with valLen := 0 }
      have hunits : opMn.units.toNat = 1 := by
        rw [toNat_copyNode_units]
        exact nodeUnits_of_nil hid htype
      rcases ihr (n := m) parent (marked.put opMn) hr (by omega)
        with ⟨last, hlast, hlastmn, hlastlaid, hlastmarked, hlastcells,
          hlastoffs⟩
      have hputmn : (marked.put opMn).mn =
          lay.mn + l.units leafUnits + 1 := by
        change left.mn + opMn.units.toNat = _
        rw [hunits, hleftmn]
      rw [hputmn] at hlastmn hlastlaid hlastmarked hlastcells
      refine ⟨last, ?_, ?_, ⟨?_, ⟨opMn, ?_, hop, ?_, ?_⟩, hlastlaid⟩,
        ⟨?_, ?_, hlastmarked⟩, ?_, ?_⟩
      · have hroot : s + (node c l r).size - 1 = s + l.size + r.size := by
          simp only [size]
          omega
        have hlogical : mnt.op.isLogical = true := by
          rw [hop]
          exact isLogical_connectiveOp c
        have hright : s + l.size + r.size - 1 = mnt.ai.toNat := hai.symm
        rw [hroot]
        simp only [inorderTraverse, hnode]
        rw [if_pos ⟨hid, hlogical⟩, hfi, hleft]
        rw [hright] at hlast
        exact hlast
      · rw [hlastmn]
        simp only [units]
        omega
      · -- the operator and the right operand are laid out behind the left one
        rw [hidx] at hleftlaid
        apply laid_congr l _ hleftlaid
        intro p _ hhigh
        rw [hlastcells p (by omega)]
        exact Layout.put_nodes_of_lt (by change p < left.mn; omega)
      · rw [hlastcells _ (by omega), ← hleftmn]
        simp [Layout.put, marked]
      · exact UInt8.toNat_inj.mp hunits
      · have hlogical : mnt.op.isLogical = true := by
          rw [hop]
          exact isLogical_connectiveOp c
        simp [opMn, copyNode, hlogical]
      · apply marked_congr l _ hleftmarked
        intro j _ hhigh
        rw [hlastoffs j (by omega)]
        change (if j = mnt.valLen.toNat then _ else _) = _
        rw [if_neg (by omega)]
      · rw [hlastoffs _ (by omega), ← hidx, ← hleftmn]
        simp [Layout.put, marked]
      · intro p hp
        rw [hlastcells p (by omega)]
        rw [Layout.put_nodes_of_lt (by change p < left.mn; omega)]
        exact hleftcells p hp
      · intro j hj
        simp only [size] at hj
        rw [hlastoffs j (by omega)]
        change (if j = mnt.valLen.toNat then _ else _) = _
        rw [if_neg (by omega)]
        exact hleftoffs j (by omega)

/-!
## The finished code
-/

/-- A node that the evaluator moves past. -/
abbrev CompiledTest := { mn : MatchNode // 0 < mn.units.toNat }

/-- The units a node says it takes. -/
def unitsOf (a : CompiledTest) : Nat := a.1.units.toNat

theorem unitsOf_pos (a : CompiledTest) : 0 < unitsOf a := a.2

/-- A node as an instruction of short-circuit code. -/
def instrOf (mn : MatchNode) : Option (Instr CompiledTest) :=
  match mn.op, mn.u with
  | MatchOperation.opAnd, MatchIndex.off off =>
      if mn.units = 1 then some (Instr.branch Connective.and off.toNat)
      else none
  | MatchOperation.opOr, MatchIndex.off off =>
      if mn.units = 1 then some (Instr.branch Connective.or off.toNat)
      else none
  | MatchOperation.opAnd, _ => none
  | MatchOperation.opOr, _ => none
  | _, _ =>
      if h : 0 < mn.units.toNat then
        some (Instr.test ⟨mn, h⟩ mn.units.toNat)
      else
        none

/-- The instructions of a node array. -/
def codeOf (cells : Nat -> Cell) (p : Nat) : Option (Instr CompiledTest) :=
  match cells p with
  | Cell.node mn => instrOf mn
  | _ => none

theorem codeOf_node {cells : Nat -> Cell} {p : Nat} {mn : MatchNode}
    (h : cells p = Cell.node mn) : codeOf cells p = instrOf mn := by
  simp only [codeOf, h]

theorem codeOf_congr {cells cells' : Nat -> Cell} {p : Nat}
    (h : cells' p = cells p) : codeOf cells' p = codeOf cells p := by
  simp only [codeOf, h]

theorem copyNode_units_pos (parent : UInt8) (mnt : MatchNodeTmp) :
    0 < (copyNode parent mnt).units.toNat := by
  rw [toNat_copyNode_units]
  exact Nat.lt_of_lt_of_le Nat.one_pos (Nat.le_add_right 1 _)

/-- The compiled form of a test. -/
def compiledTest (a : LeafTest) : CompiledTest :=
  ⟨copyNode 0 a.1, copyNode_units_pos 0 a.1⟩

/-- The tree with its tests compiled. -/
def compiledTree (t : BoolTree LeafTest) : BoolTree CompiledTest :=
  t.map compiledTest

@[simp] theorem units_compiledTree (t : BoolTree LeafTest) :
    (compiledTree t).units unitsOf = t.units leafUnits := by
  rw [compiledTree, units_map]
  congr 1
  funext a
  exact toNat_copyNode_units 0 a.1

theorem instrOf_leaf (a : LeafTest) :
    instrOf (copyNode 0 a.1) =
      some (Instr.test (compiledTest a) (unitsOf (compiledTest a))) := by
  have hpos := copyNode_units_pos 0 a.1
  have hlogical : (copyNode 0 a.1).op.isLogical = false := a.2
  unfold instrOf
  split
  · rename_i h _
    rw [h] at hlogical
    cases hlogical
  · rename_i h _
    rw [h] at hlogical
    cases hlogical
  · rename_i h _
    rw [h] at hlogical
    cases hlogical
  · rename_i h _
    rw [h] at hlogical
    cases hlogical
  · rw [dif_pos hpos]
    rfl

theorem instrOf_branch {mn : MatchNode} {c : Connective} {off : UInt16}
    (hop : mn.op = connectiveOp c) (hunits : mn.units = 1)
    (hu : mn.u = MatchIndex.off off) :
    instrOf mn = some (Instr.branch c off.toNat) := by
  cases c <;> simp [instrOf, hop, hunits, hu, connectiveOp]

/-- Where a branch to the operator index `parent` leads. -/
def branchTarget (size stop : Nat) (offsets : Nat -> Option Nat)
    (parent : Nat) : Option Nat :=
  if parent < size then offsets parent else some stop

theorem resolveOffset_branch {size stop target : Nat}
    {offsets : Nat -> Option Nat} {mn : MatchNode} {c : Connective}
    {parent : Nat} (hop : mn.op = connectiveOp c)
    (hu : mn.u = MatchIndex.off (UInt16.ofNat parent)) (hparent : parent < 256)
    (htarget : branchTarget size stop offsets parent = some target) :
    resolveOffset size stop offsets mn =
      some { mn with u := MatchIndex.off (UInt16.ofNat target) } := by
  have hoff : (UInt16.ofNat parent).toNat = parent := by
    rw [UInt16.toNat_ofNat']
    omega
  have hlogical : mn.op.isLogical = true := by
    rw [hop]
    exact isLogical_connectiveOp c
  simp only [resolveOffset, hlogical, hu, hoff]
  unfold branchTarget at htarget
  split at htarget
  · rename_i h
    simp [h, htarget]
  · rename_i h
    cases htarget
    simp [h]

theorem populateOffsets_step {size stop n p : Nat}
    {offsets : Nat -> Option Nat} {cells : Nat -> Cell} {mn mn' : MatchNode}
    (hp : p < stop) (hcell : cells p = Cell.node mn)
    (hresolve : resolveOffset size stop offsets mn = some mn') :
    populateOffsets size stop offsets (n + 1) p cells =
      populateOffsets size stop offsets n (p + mn'.units.toNat)
        (fun q => if q = p then Cell.node mn' else cells q) := by
  simp only [populateOffsets, if_pos hp, hcell, hresolve]

/--
Resolving the branches of a tree that is laid out makes its code, given that
the branch it inherits leads to its end.
-/
theorem populateOffsets_laid {size stop : Nat} {offsets : Nat -> Option Nat}
    (hstop : stop < 2 ^ 16) (hsize : size <= 255) (t : BoolTree LeafTest) :
    forall {base s parent : Nat} {cells : Nat -> Cell},
      Laid cells t base s parent -> Marked offsets t base s ->
      branchTarget size stop offsets parent =
        some (base + t.units leafUnits) ->
      parent < 256 -> base + t.units leafUnits <= stop ->
      s + t.size <= size ->
      exists cells', (forall k,
          populateOffsets size stop offsets (t.size + k) base cells =
            populateOffsets size stop offsets k
              (base + t.units leafUnits) cells') ∧
        ShortCircuit.Holds (codeOf cells') unitsOf (compiledTree t) base ∧
        (forall q, q < base ∨ base + t.units leafUnits <= q ->
          cells' q = cells q) := by
  induction t with
  | leaf a =>
      intro base s parent cells hlaid _ _ _ hend _
      have hcell : cells base = Cell.node (copyNode 0 a.1) := hlaid
      have hunits : (copyNode 0 a.1).units.toNat = leafUnits a :=
        toNat_copyNode_units 0 a.1
      have hpos := leafUnits_pos a
      have hresolve : resolveOffset size stop offsets (copyNode 0 a.1) =
          some (copyNode 0 a.1) := by
        have hop : (copyNode 0 a.1).op.isLogical = false := a.2
        simp [resolveOffset, hop]
      have hsame : (fun q => if q = base then Cell.node (copyNode 0 a.1)
          else cells q) = cells := by
        funext q
        split
        · rename_i h
          rw [h, hcell]
        · rfl
      simp only [units] at hend
      refine ⟨cells, ?_, ?_, fun q _ => rfl⟩
      · intro k
        rw [BoolTree.size, Nat.add_comm 1 k,
          populateOffsets_step (by omega) hcell hresolve, hsame, hunits]
        rfl
      · change codeOf cells base = _
        simp only [codeOf, hcell, instrOf_leaf]
  | node c l r ihl ihr =>
      intro base s parent cells hlaid hmarked htarget hparent hend hsizes
      rcases hlaid with ⟨hl, ⟨mn, hmn, hop, hmnunits, hu⟩, hr⟩
      rcases hmarked with ⟨hml, hmop, hmr⟩
      have hlpos := size_pos l
      have hrpos := size_pos r
      simp only [units] at hend htarget
      simp only [BoolTree.size] at hsizes
      have hleftTarget : branchTarget size stop offsets
          (s + l.size + r.size) = some (base + l.units leafUnits) := by
        unfold branchTarget
        rw [if_pos (by omega), hmop]
      rcases ihl hl hml hleftTarget (by omega) (by omega) (by omega) with
        ⟨cells1, hrun1, hholds1, hframe1⟩
      -- the operator between its operands
      have hcell1 : cells1 (base + l.units leafUnits) = Cell.node mn := by
        rw [hframe1 _ (Or.inr (Nat.le_refl _)), hmn]
      have hresolve := resolveOffset_branch hop hu hparent htarget
      let mn' : MatchNode :=
        { mn with
          u := MatchIndex.off (UInt16.ofNat
            (base + (l.units leafUnits + 1 + r.units leafUnits))) }
      let cells2 : Nat -> Cell := fun q =>
        if q = base + l.units leafUnits then Cell.node mn' else cells1 q
      have hunits : mn'.units.toNat = 1 := by
        change mn.units.toNat = 1
        rw [hmnunits]
        rfl
      have hcell2 : cells2 (base + l.units leafUnits) = Cell.node mn' :=
        if_pos rfl
      have hframe2 : forall q, q ≠ base + l.units leafUnits ->
          cells2 q = cells1 q := fun q hq => if_neg hq
      have hr2 : Laid cells2 r (base + l.units leafUnits + 1) (s + l.size)
          parent := by
        apply laid_congr r _ hr
        intro p hlow _
        rw [hframe2 p (by omega), hframe1 p (Or.inr (by omega))]
      rcases ihr hr2 hmr
          (by rw [htarget]; congr 1; omega) hparent (by omega) (by omega)
        with ⟨cells3, hrun3, hholds3, hframe3⟩
      refine ⟨cells3, ?_, ⟨?_, ?_, ?_⟩, ?_⟩
      · intro k
        have hfuel : (node c l r).size + k =
            l.size + (r.size + k + 1) := by
          simp only [BoolTree.size]
          omega
        rw [hfuel, hrun1, populateOffsets_step (by omega) hcell1 hresolve]
        change populateOffsets size stop offsets (r.size + k)
          (base + l.units leafUnits + mn'.units.toNat) cells2 = _
        rw [hunits, hrun3]
        congr 1
        simp only [units]
        omega
      · apply ShortCircuit.holds_congr unitsOf_pos _ _ hholds1
        intro p _ hhigh
        rw [units_compiledTree] at hhigh
        apply codeOf_congr
        rw [hframe3 p (Or.inl (by omega)), hframe2 p (by omega)]
      · have hinstr : instrOf mn' = some (Instr.branch c
            (UInt16.ofNat (base +
              (l.units leafUnits + 1 + r.units leafUnits))).toNat) :=
          instrOf_branch hop hmnunits rfl
        change codeOf cells3 (base + (compiledTree l).units unitsOf) =
          some (Instr.branch c
            (base + (compiledTree (node c l r)).units unitsOf))
        rw [units_compiledTree, units_compiledTree, codeOf_node
          (by rw [hframe3 _ (Or.inl (by omega)), hcell2]), hinstr,
          UInt16.toNat_ofNat', Nat.mod_eq_of_lt (by omega)]
        rfl
      · change ShortCircuit.Holds (codeOf cells3) unitsOf (compiledTree r)
          (base + (compiledTree l).units unitsOf + 1)
        rw [units_compiledTree]
        exact hholds3
      · intro q hq
        simp only [units] at hq
        rw [hframe3 q (by omega), hframe2 q (by omega),
          hframe1 q (by omega)]

end Matcher
end LuaSandbox
