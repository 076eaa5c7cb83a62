import LuaSandbox.Matcher.Grammar

/-!
# The matcher compiler

From the postfix output of the parser to the flat array of nodes: the operands
of every operator are linked, the tree is laid out in order, and the operators
get the address at which evaluation continues once they are decided.
-/

namespace LuaSandbox
namespace Matcher

open Foundation Util

/-!
## The tree of a postfix sequence
-/

/--
Link the nodes from index `i` on, with the indices of the pending operands on
the stack; popping an empty stack is an error.
-/
def makeTreeLoop :
    Nat -> List Nat -> List MatchNodeTmp -> Option (List MatchNodeTmp)
  | _, _, [] => some []
  | i, stack, mnt :: rest =>
      if mnt.op.isLogical then
        match stack with
        | ai :: fi :: stack =>
            (makeTreeLoop (i + 1) (i :: stack) rest).map
              (fun nodes =>
                { mnt with ai := UInt8.ofNat ai, fi := UInt8.ofNat fi } :: nodes)
        | _ => none
      else
        (makeTreeLoop (i + 1) (i :: stack) rest).map (fun nodes => mnt :: nodes)

def makeTree (nodes : List MatchNodeTmp) : Option (List MatchNodeTmp) :=
  makeTreeLoop 0 [] nodes

/-!
## Sizes
-/

/-- The bytes of a node's value, with the NUL of a string. -/
def MatchNodeTmp.valBytes (mnt : MatchNodeTmp) : Nat :=
  match mnt.valType with
  | MatchType.typeString => mnt.valLen.toNat + 1
  | MatchType.typeNumeric => 8
  | _ => 0

/-- The bytes of a node's variable name. -/
def MatchNodeTmp.varBytes (mnt : MatchNodeTmp) : Nat :=
  if mnt.id = UInt8.ofNat lsbPbFields then mnt.varLen.toNat else 0

/--
The bytes to reserve for the nodes from index `i` on.  Every operator notes its
own index in its unused value length.
-/
def getMatcherBytes :
    Nat -> List MatchNodeTmp -> Nat × List MatchNodeTmp
  | _, [] => (0, [])
  | i, mnt :: rest =>
      let len :=
        (matchNodeSize * 2 + mnt.valBytes + mnt.varBytes - 1) / matchNodeSize *
          matchNodeSize
      let noted :=
        if mnt.op.isLogical then { mnt with valLen := UInt8.ofNat i } else mnt
      (len + (getMatcherBytes (i + 1) rest).1,
        noted :: (getMatcherBytes (i + 1) rest).2)

/-!
## Layout
-/

/-- The compiled form of a node; `parent` is where an operator branches to. -/
def copyNode (parent : UInt8) (mnt : MatchNodeTmp) : MatchNode where
  op := mnt.op
  units :=
    UInt8.ofNat (1 +
      (matchNodeSize - 1 + mnt.varBytes + mnt.valBytes) / matchNodeSize)
  varLen := if mnt.id = UInt8.ofNat lsbPbFields then mnt.varLen else 0
  valLen :=
    match mnt.valType with
    | MatchType.typeString => mnt.valLen
    | MatchType.typeNumeric => 8
    | _ => 0
  fieldId := mnt.id
  valType := mnt.valType
  valMod := mnt.valMod
  u :=
    if mnt.op.isLogical then MatchIndex.off (UInt16.ofNat parent.toNat)
    else MatchIndex.idx mnt.fi mnt.ai
  var :=
    if mnt.id = UInt8.ofNat lsbPbFields then mnt.var.take mnt.varLen.toNat
    else []
  val :=
    match mnt.valType with
    | MatchType.typeString => MatchValue.s (mnt.val.string.take mnt.valLen.toNat)
    | MatchType.typeNumeric => MatchValue.d mnt.val.number
    | _ => MatchValue.d 0

/-- The array under construction: its units, the next one, and the positions
of the operators by index. -/
structure Layout where
  nodes : Nat -> Cell
  mn : Nat
  offsets : Nat -> Option Nat

/-- Put a node and its data at the next unit. -/
def Layout.put (l : Layout) (mn : MatchNode) : Layout :=
  { l with
    nodes := fun p =>
      if p = l.mn then Cell.node mn
      else if l.mn < p ∧ p < l.mn + mn.units.toNat then Cell.data
      else l.nodes p,
    mn := l.mn + mn.units.toNat }

/-- Lay out the tree at index `i`, at most `n` nodes deep. -/
def inorderTraverse (nodes : List MatchNodeTmp) :
    Nat -> UInt8 -> Layout -> Nat -> Option Layout
  | 0, _, _, _ => none
  | n + 1, parent, l, i =>
      match nodes[i]? with
      | none => none
      | some mnt =>
          if mnt.id = 0 ∧ mnt.op.isLogical = true then
            match inorderTraverse nodes n mnt.valLen l mnt.fi.toNat with
            | none => none
            | some left =>
                let marked :=
                  { left with
                    offsets := fun j =>
                      if j = mnt.valLen.toNat then some left.mn
                      else left.offsets j }
                inorderTraverse nodes n parent
                  (marked.put (copyNode parent { mnt with valLen := 0 }))
                  mnt.ai.toNat
          else
            some (l.put (copyNode parent mnt))

/-- An operator's branch, as an address instead of an operator's index. -/
def resolveOffset (size stop : Nat) (offsets : Nat -> Option Nat)
    (mn : MatchNode) : Option MatchNode :=
  match mn.op.isLogical, mn.u with
  | true, MatchIndex.off off =>
      if off.toNat < size then
        match offsets off.toNat with
        | none => none
        | some target =>
            some { mn with u := MatchIndex.off (UInt16.ofNat target) }
      else
        some { mn with u := MatchIndex.off (UInt16.ofNat stop) }
  | _, _ => some mn

/-- Populate the short-circuit offsets of the nodes from unit `p` on. -/
def populateOffsets (size stop : Nat) (offsets : Nat -> Option Nat) :
    Nat -> Nat -> (Nat -> Cell) -> Option (Nat -> Cell)
  | 0, _, _ => none
  | n + 1, p, cells =>
      if p < stop then
        match cells p with
        | Cell.node mn =>
            match resolveOffset size stop offsets mn with
            | none => none
            | some mn =>
                populateOffsets size stop offsets n (p + mn.units.toNat)
                  (fun q => if q = p then Cell.node mn else cells q)
        | _ => none
      else
        some cells

def makeMatcher (nodes : List MatchNodeTmp) : Option LsbMessageMatcher :=
  let bytes := (getMatcherBytes 0 nodes).1
  let stop := bytes / matchNodeSize
  match inorderTraverse (getMatcherBytes 0 nodes).2 nodes.length
      (UInt8.ofNat nodes.length) ⟨fun _ => Cell.zero, 0, fun _ => none⟩
      (nodes.length - 1) with
  | none => none
  | some l =>
      match populateOffsets nodes.length stop l.offsets (stop + 1) 0 l.nodes with
      | none => none
      | some cells => some ⟨bytes, cells⟩

def lsbCreateMessageMatcher (exp : List UInt8) : Option LsbMessageMatcher :=
  match yyparse exp with
  | none => none
  | some actions =>
      match makeTree (yyDone actions Context.init).out with
      | none => none
      | some nodes => makeMatcher nodes

end Matcher
end LuaSandbox
