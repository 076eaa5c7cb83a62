import LuaSandbox.Core.Sandbox

/-!
# Heka sandboxes

The calls of a host into an input, analysis or output plugin.
-/

namespace LuaSandbox
namespace Heka

open Foundation
open Lua
open Util
open Core

inductive PluginType where
  | input
  | analysis
  | output
  deriving DecidableEq

structure HekaStats where
  pmCnt : Nat
  pmFailures : Nat
  deriving DecidableEq

structure HekaSandbox where
  type : PluginType
  lsb : Sandbox
  msg : Option Nat
  stats : HekaStats
  deriving DecidableEq

def lsbHekaPmFail : Int := -1

def lsbHekaPmRetry : Int := -3

def pmFuncName : List UInt8 := ascii "process_message"

def teFuncName : List UInt8 := ascii "timer_event"

def lsbShuttingDown : List UInt8 := ascii "shutting down"

/-- A sandbox before `lsb_init`. -/
def hekaCreate (type : PluginType) (luaFile : List UInt8)
    (instructionLimit : Nat) : HekaSandbox :=
  ⟨type, lsbCreate luaFile instructionLimit, none, ⟨0, 0⟩⟩

def HekaSandbox.terminate (hsb : HekaSandbox) (err : List UInt8) :
    HekaSandbox :=
  { hsb with lsb := lsbTerminate hsb.lsb (some err) }

def HekaSandbox.push (hsb : HekaSandbox) (v : Value) : HekaSandbox :=
  { hsb with lsb := { hsb.lsb with stack := hsb.lsb.stack ++ [v] } }

/-- The error value of an aborted input plugin. -/
def isShuttingDown (fmt : NumberFormat) (v : Value) : Bool :=
  (v.tostring fmt).map (fun s => s.takeWhile (fun b => b ≠ 0)) =
    some lsbShuttingDown

/-- The end of `process_message` with a status code. -/
def countStatus (hsb : HekaSandbox) (status : Int) : Int × HekaSandbox :=
  if 0 < status then
    (1, hsb.terminate
      (pmFuncName ++ ascii "() received a termination status code"))
  else if status = lsbHekaPmFail then
    (status, { hsb with
      stats := ⟨hsb.stats.pmCnt + 1, hsb.stats.pmFailures + 1⟩ })
  else if hsb.type ≠ PluginType.output ∨ status ≠ lsbHekaPmRetry then
    (status, { hsb with stats := { hsb.stats with pmCnt := hsb.stats.pmCnt + 1 } })
  else
    (status, hsb)

/-- The results of `process_message`, at the indices 1 and 2. -/
def readResults (fmt : NumberFormat) (hsb : HekaSandbox) :
    Int × HekaSandbox :=
  let stack := hsb.lsb.stack
  if typeAt stack 1 ≠ LuaType.number then
    (1, hsb.terminate
      (pmFuncName ++ ascii "() must return a numeric status code"))
  else
    let status := toInt ((stack.getD 0 Value.nil).tointeger fmt)
    let popped := stack.take (stack.length - 2)
    let finish (err : Option (List UInt8)) :=
      countStatus { hsb with
        lsb := { lsbSetError hsb.lsb err with stack := popped } } status
    match typeAt stack 2 with
    | LuaType.nil => finish none
    | LuaType.string => finish ((stack.getD 1 Value.nil).tostring fmt)
    | _ =>
        (1, hsb.terminate (pmFuncName ++
          ascii "() must return a nil or string error message"))

/-- Call the function on the stack, which ends with `r`. -/
def processMessage (fmt : NumberFormat) (hsb : HekaSandbox)
    (msg : Option Nat) (nargs : Nat) (r : CallResult) :
    Int × HekaSandbox × List Event :=
  let call := Event.pcall pmFuncName
  let stack := pcallStack hsb.lsb.stack nargs 2 r
  let hsb := { hsb with msg := msg, lsb := { hsb.lsb with stack := stack } }
  match r with
  | CallResult.error v =>
      if hsb.type = PluginType.input ∧ isShuttingDown fmt v then
        (0, hsb, [call])
      else
        (1, hsb.terminate (pmFuncName ++ ascii "() " ++ nilError fmt v),
          [call])
  | CallResult.returned values =>
      let (status, hsb) := readResults fmt { hsb with msg := none }
      (status, hsb, [call, Event.results stack[0]? stack[1]? values])

def notFound (name : List UInt8) : List UInt8 :=
  name ++ ascii "() function was not found"

def lsbHekaPmInput (fmt : NumberFormat) (hsb : HekaSandbox)
    (cpNumeric : Double) (cpString : Option (List UInt8)) (f : Value)
    (r : CallResult) : Int × HekaSandbox × List Event :=
  if hsb.type ≠ PluginType.input then
    (1, hsb, [])
  else
    match lsbPcallSetup hsb.lsb pmFuncName f with
    | (some err, lsb, events) =>
        let hsb := { hsb with lsb := lsb }
        if err ≠ LsbErr.terminated then
          (1, hsb.terminate (notFound pmFuncName), events)
        else
          (1, hsb, events)
    | (none, lsb, events) =>
        let arg :=
          if cpNumeric.value ≠ Double.Value.nan then
            Value.number cpNumeric
          else
            match cpString with
            | some s => Value.string s
            | none => Value.nil
        let hsb := HekaSandbox.push { hsb with lsb := lsb } arg
        let (status, hsb, called) := processMessage fmt hsb none 1 r
        (status, hsb, events ++ called)

def lsbHekaPmAnalysis (fmt : NumberFormat) (hsb : HekaSandbox)
    (msg : Option Nat) (f : Value) (r : CallResult) :
    Int × HekaSandbox × List Event :=
  if msg = none ∨ hsb.type ≠ PluginType.analysis then
    (1, hsb, [])
  else
    match lsbPcallSetup hsb.lsb pmFuncName f with
    | (some _, lsb, events) =>
        let hsb := { hsb with lsb := lsb }
        (1, hsb.terminate (notFound pmFuncName), events)
    | (none, lsb, events) =>
        let (status, hsb, called) :=
          processMessage fmt { hsb with lsb := lsb } msg 0 r
        (status, hsb, events ++ called)

def lsbHekaPmOutput (fmt : NumberFormat) (hsb : HekaSandbox)
    (msg sequenceId : Option Nat) (f : Value) (r : CallResult) :
    Int × HekaSandbox × List Event :=
  if msg = none ∨ hsb.type ≠ PluginType.output then
    (1, hsb, [])
  else
    match lsbPcallSetup hsb.lsb pmFuncName f with
    | (some _, lsb, events) =>
        let hsb := { hsb with lsb := lsb }
        (1, hsb.terminate (notFound pmFuncName), events)
    | (none, lsb, events) =>
        let hsb := { hsb with lsb := lsb }
        let (status, hsb, called) :=
          match sequenceId with
          | some id =>
              processMessage fmt (hsb.push (Value.lightuserdata id)) msg 1 r
          | none => processMessage fmt hsb msg 0 r
        (status, hsb, events ++ called)

def lsbHekaTimerEvent (fmt : NumberFormat) (hsb : HekaSandbox) (t : Int)
    (shutdown : Bool) (f : Value) (r : CallResult) :
    Int × HekaSandbox × List Event :=
  if hsb.type ≠ PluginType.output ∧ hsb.type ≠ PluginType.analysis then
    (1, hsb, [])
  else
    match lsbPcallSetup hsb.lsb teFuncName f with
    | (some _, lsb, events) =>
        let hsb := { hsb with lsb := lsb }
        (1, hsb.terminate (notFound teFuncName), events)
    | (none, lsb, events) =>
        let hsb := { hsb with lsb := lsb }
        let hsb := hsb.push (Value.number (Double.ofInt (t * 10 ^ 9)))
        let hsb := hsb.push (Value.boolean shutdown)
        let stack := pcallStack hsb.lsb.stack 2 0 r
        let hsb := { hsb with lsb := { hsb.lsb with stack := stack } }
        let events := events ++ [Event.pcall teFuncName]
        match r with
        | CallResult.error v =>
            (1, hsb.terminate (teFuncName ++ ascii "() " ++ nilError fmt v),
              events)
        | CallResult.returned _ => (0, hsb, events)

/-!
## Sequences of calls

The arguments of a call tell what it meets: the global that is called, and how
that ends.
-/

/-- The calls that run code of the plugin. -/
inductive EntryCall where
  | init (stateFile : Option (List UInt8)) (o : InitOutcome)
  | pmInput (cpNumeric : Double) (cpString : Option (List UInt8)) (f : Value)
      (r : CallResult)
  | pmAnalysis (msg : Option Nat) (f : Value) (r : CallResult)
  | pmOutput (msg sequenceId : Option Nat) (f : Value) (r : CallResult)
  | timerEvent (t : Int) (shutdown : Bool) (f : Value) (r : CallResult)
  deriving DecidableEq

def EntryCall.run (fmt : NumberFormat) (hsb : HekaSandbox) :
    EntryCall -> HekaSandbox × List Event
  | init stateFile o =>
      let (_, lsb, events) := lsbInit fmt hsb.lsb stateFile o
      ({ hsb with lsb := lsb }, events)
  | pmInput cpNumeric cpString f r =>
      (lsbHekaPmInput fmt hsb cpNumeric cpString f r).2
  | pmAnalysis msg f r => (lsbHekaPmAnalysis fmt hsb msg f r).2
  | pmOutput msg sequenceId f r =>
      (lsbHekaPmOutput fmt hsb msg sequenceId f r).2
  | timerEvent t shutdown f r => (lsbHekaTimerEvent fmt hsb t shutdown f r).2

inductive HostCall where
  | entry (c : EntryCall)
  | stopSandbox
  | stopSandboxClean
  | terminate (err : Option (List UInt8))
  | destroy (o : PreserveOutcome)
  deriving DecidableEq

/-- A sandbox that was destroyed is gone. -/
def HostCall.run (fmt : NumberFormat) (hsb : HekaSandbox) :
    HostCall -> Option HekaSandbox × List Event
  | entry c =>
      let (hsb, events) := c.run fmt hsb
      (some hsb, events)
  | stopSandbox => (some { hsb with lsb := lsbStopSandbox hsb.lsb }, [])
  | stopSandboxClean =>
      (some { hsb with lsb := lsbStopSandboxClean hsb.lsb }, [])
  | terminate err => (some { hsb with lsb := lsbTerminate hsb.lsb err }, [])
  | destroy o => (none, (lsbDestroy hsb.lsb o).2)

end Heka
end LuaSandbox
