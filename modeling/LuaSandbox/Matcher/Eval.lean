import LuaSandbox.Matcher.Compile

/-!
# Matcher evaluation
-/

namespace LuaSandbox
namespace Matcher

open Foundation Util
open MatchOperation

/-!
## Tests
-/

/-- The value bytes of a node with their NUL. -/
def MatchNode.cString (mn : MatchNode) : List UInt8 := mn.val.string ++ [0]

def stringTest (mem : Memory) (mn : MatchNode) (val : ConstString) : Bool :=
  let cmp := strncmp (val.bytes mem) mn.cString val.len
  let valLen := mn.valLen.toNat
  match mn.op with
  | opEq =>
      if val.len ≠ valLen ∨ val.s = none then false else cmp == 0
  | opNe =>
      if val.len ≠ valLen ∨ val.s = none then true else cmp != 0
  | opLt =>
      if val.s = none then true
      else if cmp = 0 then val.len < valLen
      else cmp < 0
  | opLte => if val.s = none then true else cmp <= 0
  | opGt =>
      if val.s = none then false
      else if cmp = 0 then valLen < val.len
      else 0 < cmp
  | opGte =>
      if val.s = none then false
      else if cmp = 0 then valLen <= val.len
      else 0 < cmp
  | opRe =>
      if mn.valMod = MatchPatternMod.patternModEsc then
        lsbStringFind mem val mn.val.string
      else
        lsbStringMatch mem val mn.val.string
  | opNre =>
      if mn.valMod = MatchPatternMod.patternModEsc then
        !lsbStringFind mem val mn.val.string
      else
        !lsbStringMatch mem val mn.val.string
  | _ => false

def numericTest (mn : MatchNode) (val : Double) : Bool :=
  let v := val.value
  let d := Double.Value.fin mn.val.number
  match mn.op with
  | opEq => v.eq d
  | opNe => !v.eq d
  | opLt => v.lt d
  | opLte => v.le d
  | opGt => d.lt v
  | opGte => d.le v
  | _ => false

/-- A test of a header that may be absent. -/
def optionalStringTest (mem : Memory) (mn : MatchNode)
    (val : ConstString) : Bool :=
  if mn.valType = MatchType.typeNil then
    if mn.op = opEq then val.s = none else val.s ≠ none
  else
    stringTest mem mn val

/-- The comparison of a boolean or a number with a boolean constant. -/
def booleanTest (mn : MatchNode) (constant : Int) (val : Double) : Bool :=
  if mn.op = opEq then val.value.eq (Double.Value.fin constant)
  else !val.value.eq (Double.Value.fin constant)

def fieldTest (mem : Memory) (mn : MatchNode) (m : HekaMessage) : Bool :=
  match mn.u with
  | MatchIndex.off _ => false
  | MatchIndex.idx f a =>
      match lsbReadHekaField mem m mn.var f.toNat a.toNat with
      | none => if mn.valType = MatchType.typeNil then mn.op == opEq else false
      | some val =>
          match mn.valType, val with
          | MatchType.typeString, ReadValue.string s => stringTest mem mn s
          | MatchType.typeNumeric, ReadValue.numeric d => numericTest mn d
          | MatchType.typeTrue, ReadValue.bool d => booleanTest mn 1 d
          | MatchType.typeTrue, ReadValue.numeric d => booleanTest mn 1 d
          | MatchType.typeFalse, ReadValue.bool d => booleanTest mn 0 d
          | MatchType.typeFalse, ReadValue.numeric d => booleanTest mn 0 d
          | MatchType.typeNil, _ => mn.op == opNe
          | _, _ => false

def evalNode (mem : Memory) (mn : MatchNode) (m : HekaMessage) : Bool :=
  if mn.op = opTrue then
    true
  else if mn.op = opFalse then
    false
  else
    let id := mn.fieldId.toNat
    if id = lsbPbTimestamp then
      numericTest mn (Double.ofInt m.timestamp)
    else if id = lsbPbType then
      optionalStringTest mem mn m.type
    else if id = lsbPbLogger then
      optionalStringTest mem mn m.logger
    else if id = lsbPbSeverity then
      numericTest mn (Double.ofInt m.severity)
    else if id = lsbPbPayload then
      optionalStringTest mem mn m.payload
    else if id = lsbPbEnvVersion then
      optionalStringTest mem mn m.envVersion
    else if id = lsbPbPid then
      if mn.valType = MatchType.typeNil then
        if mn.op = opEq then m.pid = intMin else m.pid ≠ intMin
      else
        numericTest mn (Double.ofInt m.pid)
    else if id = lsbPbHostname then
      optionalStringTest mem mn m.hostname
    else if id = lsbPbUuid then
      stringTest mem mn m.uuid
    else
      fieldTest mem mn m

/-!
## Evaluation of the node array
-/

/-- One turn of the evaluation loop, from unit `p` with the running result. -/
def evalStep (v : Nat -> MatchNode -> Bool) (cells : Nat -> Cell) :
    Nat × Bool -> Option (Nat × Bool)
  | (p, result) =>
      match cells p with
      | Cell.node mn =>
          match mn.op, mn.u with
          | opOr, MatchIndex.off off =>
              if result then some (off.toNat, result)
              else some (p + mn.units.toNat, result)
          | opAnd, MatchIndex.off off =>
              if !result then some (off.toNat, result)
              else some (p + mn.units.toNat, result)
          | opOr, _ => none
          | opAnd, _ => none
          | _, _ => some (p + mn.units.toNat, v p mn)
      | _ => none

/--
The evaluation loop with the leaves evaluated by `v`; a turn that lands on
anything but a node is an error, as is running out of turns.
-/
def evalLoop (v : Nat -> MatchNode -> Bool) (mm : LsbMessageMatcher) :
    Nat -> Nat × Bool -> Option Bool
  | 0, _ => none
  | n + 1, s =>
      if s.1 < mm.stop then
        match evalStep v mm.nodes s with
        | none => none
        | some s => evalLoop v mm n s
      else
        some s.2

/-- Every turn moves forward, so there are no more turns than units. -/
def lsbEvalMessageMatcher (mem : Memory) (mm : LsbMessageMatcher)
    (m : HekaMessage) : Option Bool :=
  evalLoop (fun _ mn => evalNode mem mn m) mm (mm.stop + 1) (0, false)

end Matcher
end LuaSandbox
