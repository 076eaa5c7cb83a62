import LuaSandbox.Util.StringMatcher

/-!
# Matcher nodes

The nodes the parser puts out and the nodes of a compiled matcher.  Numeric
constants are exact rationals.
-/

namespace LuaSandbox
namespace Matcher

open Foundation Util

inductive MatchOperation where
  | opEq | opNe | opGte | opGt | opLte | opLt | opRe | opNre
  | opTrue | opFalse | opOpen | opOr | opAnd
  deriving DecidableEq, Repr

namespace MatchOperation

/-- The position of an operation in the enumeration. -/
def code : MatchOperation -> Nat
  | opEq => 0
  | opNe => 1
  | opGte => 2
  | opGt => 3
  | opLte => 4
  | opLt => 5
  | opRe => 6
  | opNre => 7
  | opTrue => 8
  | opFalse => 9
  | opOpen => 10
  | opOr => 11
  | opAnd => 12

/-- The operation joins two operands. -/
def isLogical (op : MatchOperation) : Bool := op == opAnd || op == opOr

end MatchOperation

inductive MatchType where
  | typeNil | typeString | typeNumeric | typeFalse | typeTrue
  deriving DecidableEq, Repr

inductive MatchPatternMod where
  | patternModNone | patternModEsc
  deriving DecidableEq, Repr

/-- The union of a string and a number; zeroed memory is the number zero. -/
inductive MatchValue where
  | s (bytes : List UInt8)
  | d (q : Rat)
  deriving DecidableEq

namespace MatchValue

def string : MatchValue -> List UInt8
  | s bytes => bytes
  | d _ => []

def number : MatchValue -> Rat
  | s _ => 0
  | d q => q

end MatchValue

/-- A node as the parser builds it. -/
structure MatchNodeTmp where
  id : UInt8
  op : MatchOperation
  valMod : MatchPatternMod
  valType : MatchType
  valLen : UInt8
  varLen : UInt8
  fi : UInt8
  ai : UInt8
  var : List UInt8
  val : MatchValue
  deriving DecidableEq

/-- A zeroed node. -/
def initMatchNode : MatchNodeTmp where
  id := 0
  op := MatchOperation.opEq
  valMod := MatchPatternMod.patternModNone
  valType := MatchType.typeNil
  valLen := 0
  varLen := 0
  fi := 0
  ai := 0
  var := []
  val := MatchValue.d 0

/-- The union of the indices of a field test and the offset of a branch. -/
inductive MatchIndex where
  | idx (f a : UInt8)
  | off (offset : UInt16)
  deriving DecidableEq

/-- A node of a compiled matcher with the data inlined behind it. -/
structure MatchNode where
  op : MatchOperation
  units : UInt8
  varLen : UInt8
  valLen : UInt8
  fieldId : UInt8
  valType : MatchType
  valMod : MatchPatternMod
  u : MatchIndex
  var : List UInt8
  val : MatchValue
  deriving DecidableEq

/-- The size of a node without its data, which is the unit of addresses. -/
def matchNodeSize : Nat := 8

/-- A unit of the node array. -/
inductive Cell where
  | zero
  | node (mn : MatchNode)
  | data
  deriving DecidableEq

structure LsbMessageMatcher where
  bytes : Nat
  nodes : Nat -> Cell

/-- The array ends here. -/
def LsbMessageMatcher.stop (mm : LsbMessageMatcher) : Nat :=
  mm.bytes / matchNodeSize

end Matcher
end LuaSandbox
