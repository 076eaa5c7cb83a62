import LuaSandbox.Matcher.Node

/-!
# Parser actions

The semantic actions of the matcher grammar.  They run in the order in which
the parser recorded them, once the whole expression is accepted.
-/

namespace LuaSandbox
namespace Matcher

open Foundation Util

/-!
## Actions and the parser context
-/

/-- The actions; those that use the captured text carry it. -/
inductive Action where
  | yyPush (count : Nat)
  | yyPop (count : Nat)
  | yySet (count : Nat)
  | atoi (yytext : List UInt8)
  | pushOutput
  | pushOp (op : MatchOperation)
  | popToParen
  | popAllOps
  | setOp (op : MatchOperation)
  | setValType (valType : MatchType)
  | setId (id : UInt8)
  | setPatternModEsc
  | setStringValue (yytext : List UInt8)
  | setMatchMod
  | setNumericValue (yytext : List UInt8)
  | setField (yytext : List UInt8)
  | setFi
  | setAi
  | updateDate
  | updateTime
  | updateOffsetZ
  | updateOffset (yytext : List UInt8)
  | addSecondFrac (yytext : List UInt8)
  | setTimestamp
  deriving DecidableEq

/-- The broken-down time of a timestamp test. -/
structure Tm where
  tmIsdst : Int
  tmYear : Int
  tmMon : Int
  tmMday : Int
  tmHour : Int
  tmMin : Int
  tmSec : Int
  deriving DecidableEq

def Tm.zero : Tm := ⟨0, 0, 0, 0, 0, 0, 0⟩

/--
The parser context: the output and operator stacks (the latter with its top
first), the node under construction, and the semantic values with their
pointer.
-/
structure Context where
  out : List MatchNodeTmp
  ops : List MatchNodeTmp
  mn : MatchNodeTmp
  tms : Tm
  yyval : Int
  vals : Nat -> Int
  val : Nat

def Context.init : Context :=
  ⟨[], [], initMatchNode, Tm.zero, 0, fun _ => 0, 0⟩

/-!
## The operator stack
-/

/-- A zeroed node with an operation. -/
def opNode (op : MatchOperation) : MatchNodeTmp := { initMatchNode with op := op }

def pushOp (ctx : Context) (op : MatchOperation) : Context :=
  match ctx.ops with
  | [] => { ctx with ops := [opNode op] }
  | top :: rest =>
      if op = MatchOperation.opOpen ∨ top.op.code < op.code then
        { ctx with ops := opNode op :: top :: rest }
      else
        { ctx with out := ctx.out ++ [top], ops := opNode op :: rest }

/-- An entry of the operator stack that is not a parenthesis. -/
def notOpen (op : MatchNodeTmp) : Bool := op.op != MatchOperation.opOpen

/-- The operators above the topmost parenthesis go to the output. -/
def popToParen (ctx : Context) : Context :=
  { ctx with
    out := ctx.out ++ ctx.ops.takeWhile notOpen,
    ops := ctx.ops.dropWhile notOpen }

/-- All operators go to the output; the parentheses are dropped. -/
def popAllOps (ctx : Context) : Context :=
  { ctx with out := ctx.out ++ ctx.ops.filter notOpen, ops := [] }

/-!
## Values
-/

/-- Remove the backslash before a quote or a backslash. -/
def unescapeQuotes : List UInt8 -> List UInt8
  | [] => []
  | 0x5c :: 0x22 :: rest => 0x22 :: unescapeQuotes rest
  | 0x5c :: 0x27 :: rest => 0x27 :: unescapeQuotes rest
  | 0x5c :: 0x5c :: rest => 0x5c :: unescapeQuotes rest
  | c :: rest => c :: unescapeQuotes rest

def checkStringLen (s : List UInt8) : Bool :=
  (unescapeQuotes s).length <= 255

def setStringValue (mn : MatchNodeTmp) (s : List UInt8) : MatchNodeTmp :=
  { mn with
    valType := MatchType.typeString,
    valLen := UInt8.ofNat (unescapeQuotes s).length,
    val := MatchValue.s (unescapeQuotes s) }

def setNumericValue (mn : MatchNodeTmp) (s : List UInt8) : MatchNodeTmp :=
  { mn with
    valType := MatchType.typeNumeric,
    val := MatchValue.d (strtod s) }

/-- A pattern without any special character is searched for as it stands. -/
def setMatchMod (mn : MatchNodeTmp) : MatchNodeTmp :=
  if mn.valMod = MatchPatternMod.patternModNone ∧
      mn.val.string.all (fun c => !(ascii "^$*+?.[%-").contains c) = true then
    { mn with valMod := MatchPatternMod.patternModEsc }
  else
    mn

/-- The length of the name is kept in a byte, and so many bytes of it. -/
def setField (mn : MatchNodeTmp) (name : List UInt8) : MatchNodeTmp :=
  { mn with
    id := UInt8.ofNat lsbPbFields,
    varLen := UInt8.ofNat name.length,
    var := name.take (UInt8.ofNat name.length).toNat }

def addToNumber (mn : MatchNodeTmp) (q : Rat) : MatchNodeTmp :=
  { mn with val := MatchValue.d (mn.val.number + q) }

/-!
## Time
-/

/-- The days from 1970-01-01 to a day of the proleptic Gregorian calendar. -/
def daysFromCivil (year month day : Int) : Int :=
  let y := if month <= 2 then year - 1 else year
  let yearOfEra := y % 400
  let dayOfYear := (153 * ((month + 9) % 12) + 2) / 5 + day - 1
  y / 400 * 146097 + yearOfEra * 365 + yearOfEra / 4 - yearOfEra / 100 +
    dayOfYear - 719468

/-- The C function `mktime` in the time zone UTC. -/
def mktime (tms : Tm) : Int :=
  daysFromCivil (tms.tmYear + 1900) (tms.tmMon + 1) tms.tmMday * 86400 +
    tms.tmHour * 3600 + tms.tmMin * 60 + tms.tmSec

def updateDate (tms : Tm) (year mon day : Int) : Tm :=
  { tms with
    tmIsdst := -1, tmYear := year - 1900, tmMon := mon - 1, tmMday := day }

def updateTime (tms : Tm) (hour minute sec : Int) : Tm :=
  { tms with tmHour := hour, tmMin := minute, tmSec := sec }

def updateOffset (mn : MatchNodeTmp) (negative : Bool)
    (hour minute : Int) : MatchNodeTmp :=
  addToNumber mn
    ((hour * 3600 + minute * 60) * (if negative then -1 else 1) : Int)

def setTimestamp (ctx : Context) : Context :=
  let mn :=
    { ctx.mn with
      id := UInt8.ofNat lsbPbTimestamp, valType := MatchType.typeNumeric }
  let mn :=
    if ctx.tms.tmIsdst = -1 then
      { mn with
        val := MatchValue.d ((mn.val.number + mktime ctx.tms) * 1000000000) }
    else
      mn
  { ctx with mn := mn, tms := Tm.zero }

/-!
## Running
-/

/-- The value `yy->__val[-count]`. -/
def Context.slot (ctx : Context) (count : Nat) : Int :=
  ctx.vals (ctx.val - count)

def Action.run (ctx : Context) : Action -> Context
  | yyPush count => { ctx with val := ctx.val + count }
  | yyPop count => { ctx with val := ctx.val - count }
  | yySet count =>
      { ctx with
        vals := fun i => if i = ctx.val - count then ctx.yyval else ctx.vals i }
  | atoi yytext => { ctx with yyval := Foundation.atoi yytext }
  | pushOutput =>
      { ctx with out := ctx.out ++ [ctx.mn], mn := initMatchNode }
  | pushOp op => Matcher.pushOp ctx op
  | popToParen => Matcher.popToParen ctx
  | popAllOps => Matcher.popAllOps ctx
  | setOp op => { ctx with mn := { ctx.mn with op := op } }
  | setValType valType => { ctx with mn := { ctx.mn with valType := valType } }
  | setId id => { ctx with mn := { ctx.mn with id := id } }
  | setPatternModEsc =>
      { ctx with
        mn := { ctx.mn with valMod := MatchPatternMod.patternModEsc } }
  | setStringValue yytext =>
      { ctx with mn := Matcher.setStringValue ctx.mn yytext }
  | setMatchMod => { ctx with mn := Matcher.setMatchMod ctx.mn }
  | setNumericValue yytext =>
      { ctx with mn := Matcher.setNumericValue ctx.mn yytext }
  | setField yytext => { ctx with mn := Matcher.setField ctx.mn yytext }
  | setFi => { ctx with mn := { ctx.mn with fi := UInt8.ofInt (ctx.slot 2) } }
  | setAi => { ctx with mn := { ctx.mn with ai := UInt8.ofInt (ctx.slot 1) } }
  | updateDate =>
      { ctx with
        tms := Matcher.updateDate ctx.tms (ctx.slot 3) (ctx.slot 2) (ctx.slot 1) }
  | updateTime =>
      { ctx with
        tms := Matcher.updateTime ctx.tms (ctx.slot 3) (ctx.slot 2) (ctx.slot 1) }
  | updateOffsetZ => { ctx with mn := Matcher.updateOffset ctx.mn false 0 0 }
  | updateOffset yytext =>
      { ctx with
        mn := Matcher.updateOffset ctx.mn (yytext.head? == some 0x2d)
          (ctx.slot 2) (ctx.slot 1) }
  | addSecondFrac yytext =>
      { ctx with mn := addToNumber ctx.mn (strtod yytext) }
  | setTimestamp => Matcher.setTimestamp ctx

/-- The recorded actions, in order. -/
def yyDone (actions : List Action) (ctx : Context) : Context :=
  actions.foldl Action.run ctx

end Matcher
end LuaSandbox
