import LuaSandbox.Foundation.Peg
import LuaSandbox.Matcher.Action

/-!
# The matcher grammar

The rules of the expression parser, from the lexical ones up.
-/

namespace LuaSandbox
namespace Matcher

open Foundation Util
open MatchType

/-- The rules that recurse. -/
inductive Rule where
  | ored
  deriving DecidableEq

/-- Expressions over the condition counter and the parser actions. -/
abbrev Grammar := Peg Nat Action Rule

namespace Grammar

/-!
## Building blocks
-/

def token (s : String) : Grammar := Peg.lit (ascii s)

def oneOf (s : String) : Grammar := Peg.cls (fun b => (ascii s).contains b)

/-- A byte between two characters. -/
def range (low high : Char) : Grammar :=
  Peg.cls (fun b => low.toNat.toUInt8 <= b && b <= high.toNat.toUInt8)

def digit : Grammar := range '0' '9'

def any : Grammar := Peg.cls (fun _ => true)

def act (a : Action) : Grammar := Peg.act (fun _ => a)

def actText (f : List UInt8 -> Action) : Grammar := Peg.act f

/-- A sequence of expressions. -/
def seqs : Grammar -> List Grammar -> Grammar
  | p, [] => p
  | p, q :: rest => Peg.seq p (seqs q rest)

/-- Ordered alternatives. -/
def alts : Grammar -> List Grammar -> Grammar
  | p, [] => p
  | p, q :: rest => Peg.alt p (alts q rest)

def sp : Grammar := Peg.star (oneOf " \r\n\t")

def eol : Grammar := Peg.notAt any

def trueRule : Grammar := seqs (token "TRUE") [sp]

def falseRule : Grammar := seqs (token "FALSE") [sp]

def nilRule : Grammar := seqs (token "NIL") [act (Action.setValType typeNil), sp]

/-!
## Operators
-/

def opRule (s : String) (op : MatchOperation) : Grammar :=
  seqs (token s) [sp, act (Action.setOp op)]

def opEq : Grammar := opRule "==" MatchOperation.opEq
def opNe : Grammar := opRule "!=" MatchOperation.opNe
def opSeq : Grammar := opRule "=~" MatchOperation.opRe
def opSne : Grammar := opRule "!~" MatchOperation.opNre
def opGte : Grammar := opRule ">=" MatchOperation.opGte
def opGt : Grammar := opRule ">" MatchOperation.opGt
def opLte : Grammar := opRule "<=" MatchOperation.opLte
def opLt : Grammar := opRule "<" MatchOperation.opLt

def relational : Grammar := alts opEq [opNe, opGte, opGt, opLte, opLt]

def booleanTest : Grammar :=
  alts (seqs trueRule [act (Action.setOp MatchOperation.opTrue)])
    [seqs falseRule [act (Action.setOp MatchOperation.opFalse)]]

def boolean : Grammar :=
  alts (seqs trueRule [act (Action.setValType typeTrue)])
    [seqs falseRule [act (Action.setValType typeFalse)]]

/-- At most 127 logical operators pass, counting abandoned ones. -/
def condCnt : Grammar :=
  Peg.check (fun _ cnt => (decide ((cnt + 1) * 2 + 1 <= 255), cnt + 1))

def andRule : Grammar :=
  seqs (token "&&") [condCnt, act (Action.pushOp MatchOperation.opAnd), sp]

def orRule : Grammar :=
  seqs (token "||") [condCnt, act (Action.pushOp MatchOperation.opOr), sp]

def openRule : Grammar :=
  seqs (token "(") [act (Action.pushOp MatchOperation.opOpen), sp]

def closeRule : Grammar := seqs (token ")") [act Action.popToParen, sp]

/-!
## String values
-/

/-- The text between two quote characters. -/
def quoted (quote : String) : Grammar :=
  seqs (token quote)
    [Peg.capture (Peg.star (alts
      (seqs (token "\\") [oneOf (quote ++ "\\")])
      [seqs (Peg.notAt (token quote)) [any]])),
    token quote]

def stringValue : Grammar :=
  seqs (alts (quoted "\"") [quoted "'"])
    [Peg.check (fun yytext cnt => (checkStringLen yytext, cnt)),
    actText Action.setStringValue]

def stringMatchMod : Grammar :=
  seqs (token "%") [act Action.setPatternModEsc]

def stringMatch : Grammar :=
  seqs (alts opSeq [opSne])
    [sp, stringValue, Peg.opt stringMatchMod, act Action.setMatchMod]

/-!
## Numeric values
-/

def sign : Grammar := oneOf "-+"

def number : Grammar :=
  alts (token "0") [seqs (range '1' '9') [Peg.star digit]]

def decimal : Grammar := seqs (token ".") [digit, Peg.star digit]

def exponent : Grammar :=
  seqs (oneOf "eE") [Peg.opt sign, digit, Peg.star digit]

def numericValue : Grammar :=
  seqs (Peg.capture (seqs (Peg.opt sign)
      [number, Peg.opt decimal, Peg.opt exponent]))
    [actText Action.setNumericValue]

/-!
## Headers
-/

def setId (id : Nat) : Grammar := act (Action.setId (UInt8.ofNat id))

def stringHeaders : Grammar :=
  alts (seqs (token "Type") [setId lsbPbType])
    [seqs (token "Logger") [setId lsbPbLogger],
    seqs (token "Hostname") [setId lsbPbHostname],
    seqs (token "EnvVersion") [setId lsbPbEnvVersion],
    seqs (token "Payload") [setId lsbPbPayload]]

def optionalStringHeaders : Grammar :=
  seqs stringHeaders [sp,
    alts (seqs relational [sp, stringValue])
      [stringMatch, seqs (alts opEq [opNe]) [sp, nilRule]]]

def uuid : Grammar :=
  seqs (token "Uuid") [setId lsbPbUuid, sp,
    alts (seqs relational [sp, stringValue]) [stringMatch]]

def severity : Grammar :=
  seqs (token "Severity")
    [setId lsbPbSeverity, sp, relational, sp, numericValue]

def pid : Grammar :=
  seqs (token "Pid") [setId lsbPbPid, sp,
    alts (seqs relational [sp, numericValue])
      [seqs (alts opEq [opNe]) [sp, nilRule]]]

/-!
## Fields
-/

def zeroTo255 : Grammar :=
  alts (seqs (token "2") [range '0' '5', range '0' '5'])
    [seqs (token "1") [digit, digit], seqs (range '1' '9') [digit], digit]

def index : Grammar :=
  seqs (token "[")
    [Peg.capture zeroTo255, token "]", actText Action.atoi]

def fields : Grammar :=
  seqs (act (Action.yyPush 2)) [token "Fields[",
    Peg.capture (Peg.star (Peg.cls (fun b => b != 0x5d))), token "]",
    actText Action.setField,
    Peg.opt (seqs index [act (Action.yySet 2)]), act Action.setFi,
    Peg.opt (seqs index [act (Action.yySet 1)]), act Action.setAi,
    act (Action.yyPop 2)]

def fieldTest : Grammar :=
  seqs fields [sp,
    alts (seqs relational [sp, alts stringValue [numericValue]])
      [stringMatch, seqs (alts opEq [opNe]) [sp, alts boolean [nilRule]]]]

/-!
## Timestamps
-/

/-- A number that becomes the semantic value. -/
def numeral (p : Grammar) : Grammar := seqs p [actText Action.atoi]

def year : Grammar :=
  numeral (Peg.capture (seqs digit [digit, digit, digit]))

def month : Grammar :=
  numeral (alts (Peg.capture (seqs (token "0") [range '1' '9']))
    [Peg.capture (seqs (token "1") [range '0' '2'])])

def day : Grammar :=
  numeral (alts (Peg.capture (seqs (range '1' '2') [digit]))
    [Peg.capture (seqs (token "0") [range '1' '9']),
    Peg.capture (seqs (token "3") [range '0' '1'])])

def hour : Grammar :=
  numeral (alts (Peg.capture (seqs (range '0' '1') [digit]))
    [Peg.capture (seqs (token "2") [range '0' '3'])])

def minute : Grammar :=
  numeral (Peg.capture (seqs (range '0' '5') [digit]))

def second : Grammar :=
  numeral (alts (Peg.capture (seqs (range '0' '5') [digit]))
    [Peg.capture (token "60")])

def secondFrac : Grammar :=
  seqs (Peg.capture decimal) [actText Action.addSecondFrac]

def fulldate : Grammar :=
  seqs (act (Action.yyPush 3)) [year, act (Action.yySet 3), token "-",
    month, act (Action.yySet 2), token "-", day, act (Action.yySet 1),
    act Action.updateDate, act (Action.yyPop 3)]

def partialtime : Grammar :=
  seqs (act (Action.yyPush 3)) [hour, act (Action.yySet 3), token ":",
    minute, act (Action.yySet 2), token ":", second, act (Action.yySet 1),
    Peg.opt secondFrac, act Action.updateTime, act (Action.yyPop 3)]

def timeoffset : Grammar :=
  seqs (act (Action.yyPush 2))
    [alts (seqs (token "Z") [act Action.updateOffsetZ])
      -- the text is what the minute captured, not the sign
      [seqs (Peg.capture sign) [hour, act (Action.yySet 2),
        minute, act (Action.yySet 1), actText Action.updateOffset]],
    act (Action.yyPop 2)]

def fulltime : Grammar := seqs partialtime [timeoffset]

def rfc3339 : Grammar := seqs fulldate [token "T", fulltime]

def tsQuoted : Grammar :=
  alts (seqs (token "\"") [rfc3339, token "\""])
    [seqs (token "'") [rfc3339, token "'"]]

def timestamp : Grammar :=
  seqs (token "Timestamp") [sp, relational, sp,
    alts numericValue [tsQuoted], act Action.setTimestamp]

/-!
## Expressions
-/

def test : Grammar :=
  seqs (alts uuid [timestamp, optionalStringHeaders, severity, pid,
      fieldTest, booleanTest])
    [act Action.pushOutput, sp]

def expr : Grammar :=
  alts test [seqs openRule [Peg.call Rule.ored, closeRule]]

def anded : Grammar := seqs expr [Peg.star (seqs andRule [expr]), sp]

def ored : Grammar := seqs anded [Peg.star (seqs orRule [anded]), sp]

def matchRule : Grammar :=
  seqs sp [Peg.call Rule.ored, eol, act Action.popAllOps]

/-- The right-hand sides of the recursive rules. -/
def rules : Rule -> Grammar
  | Rule.ored => ored

end Grammar

/-- Parse an expression with the rules nested at most `n` deep: the recorded
actions if it is accepted. -/
def yyparseWithin (n : Nat) (exp : List UInt8) : Option (List Action) :=
  (Peg.denote (Peg.parse Grammar.rules n) Grammar.matchRule exp
    ⟨exp, exp, 0⟩).1.map Prod.snd

/-- Every nested parenthesis takes a byte, so the rules nest less deep than
the text is long. -/
def yyparse (exp : List UInt8) : Option (List Action) :=
  yyparseWithin (exp.length + 1) exp

end Matcher
end LuaSandbox
