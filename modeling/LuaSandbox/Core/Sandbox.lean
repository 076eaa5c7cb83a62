import LuaSandbox.Lua.Value
import LuaSandbox.Util.OutputBuffer

/-!
# The sandbox

Creation, initialization, protected calls, termination and destruction.  What
the Lua code of the plugin does is an argument of each function that calls it.
-/

namespace LuaSandbox
namespace Core

open Foundation
open Lua
open Util

inductive LsbState where
  | unknown
  | running
  | terminated
  | stop
  deriving DecidableEq

def lsbErrorSize : Nat := 256

/-- The hook that is set on the Lua state. -/
inductive Hook where
  | none
  | instructionManager (count : Nat)
  | stopHook
  deriving DecidableEq

/-- The part of a sandbox that its functions read and write; the first value
of the stack has index 1. -/
structure Sandbox where
  state : LsbState
  luaFile : List UInt8
  stateFile : Option (List UInt8)
  errorMessage : List UInt8
  instructionLimit : Nat
  hook : Hook
  stack : List Value
  deriving DecidableEq

/-- What a function does with the Lua state and the file system. -/
inductive Event where
  | getglobal (name : List UInt8)
  | setglobal (name : List UInt8)
  | pcall (name : List UInt8)
  | dofile (name : List UInt8)
  | writeFile (name : List UInt8)
  | results (status message : Option Value) (returned : List Value)
  deriving DecidableEq

/-- Events in which Lua code may run, metamethods of the globals included. -/
def Event.callsLua : Event -> Bool
  | getglobal _ => true
  | setglobal _ => true
  | pcall _ => true
  | dofile _ => true
  | writeFile _ => false
  | results _ _ _ => false

def Event.writesFile : Event -> Bool
  | writeFile _ => true
  | _ => false

/-- A text as a C string, cut off to fit the error message. -/
def errorText (s : List UInt8) : List UInt8 :=
  (s.takeWhile (fun b => b ≠ 0)).take (lsbErrorSize - 1)

/-- A sandbox as `lsb_create` returns it. -/
def lsbCreate (luaFile : List UInt8) (instructionLimit : Nat) : Sandbox :=
  ⟨LsbState.unknown, luaFile, none, [], instructionLimit, Hook.none, []⟩

def lsbSetError (lsb : Sandbox) (err : Option (List UInt8)) : Sandbox :=
  match err with
  | some s => { lsb with errorMessage := errorText s }
  | none => { lsb with errorMessage := [] }

def lsbTerminate (lsb : Sandbox) (err : Option (List UInt8)) : Sandbox :=
  match err with
  | some s =>
      { lsb with errorMessage := errorText s, state := LsbState.terminated }
  | none => { lsb with state := LsbState.terminated }

def instructionHook (lsb : Sandbox) : Hook :=
  if lsb.instructionLimit ≠ 0 then
    Hook.instructionManager lsb.instructionLimit
  else
    Hook.none

/-!
## Initialization
-/

/-- What happens to a state file that exists. -/
inductive RestoreResult where
  | missing
  | unreadable (v : Value)
  | ran (r : CallResult)
  deriving DecidableEq

/-- What `lsb_init` meets on its way. -/
structure InitOutcome where
  allocated : Bool
  require : Value
  base : CallResult
  chunk : CallResult
  restore : RestoreResult
  deriving DecidableEq

def luaError (fmt : NumberFormat) (v : Value) : List UInt8 :=
  (v.tostring fmt).getD (ascii "(null)")

def nilError (fmt : NumberFormat) (v : Value) : List UInt8 :=
  (v.tostring fmt).getD (ascii "<nil error message>")

def restoreGlobalData (fmt : NumberFormat) (lsb : Sandbox)
    (r : RestoreResult) : Option LsbErr × Sandbox × List Event :=
  match lsb.stateFile, r with
  | none, _ => (none, lsb, [])
  | some _, RestoreResult.missing => (none, lsb, [])
  | some file, RestoreResult.unreadable v =>
      (none, { lsb with hook := Hook.none, stack := lsb.stack ++ [v] },
        [Event.dofile file])
  | some file, RestoreResult.ran (CallResult.error v) =>
      let lsb := { lsb with
        hook := Hook.none
        stack := lsb.stack ++ [v]
        errorMessage :=
          errorText (ascii "restore_global_data " ++ luaError fmt v) }
      (some LsbErr.lua, lsbTerminate lsb none, [Event.dofile file])
  | some file, RestoreResult.ran (CallResult.returned values) =>
      (none, { lsb with hook := Hook.none, stack := lsb.stack ++ values },
        [Event.dofile file])

/-- From the call of the main chunk on. -/
def runChunk (fmt : NumberFormat) (lsb : Sandbox) (o : InitOutcome) :
    Option LsbErr × Sandbox × List Event :=
  let event := Event.dofile lsb.luaFile
  match o.chunk with
  | CallResult.error v =>
      let lsb := { lsb with
        stack := lsb.stack ++ [v]
        errorMessage := errorText (luaError fmt v) }
      (some LsbErr.lua, lsbTerminate lsb none, [event])
  | CallResult.returned values =>
      -- the chunk is called for all its results
      let lsb := { lsb with
        stack := lsb.stack ++ values
        state := LsbState.running }
      let (err, lsb, events) := restoreGlobalData fmt lsb o.restore
      (err, lsb, event :: events)

def lsbInit (fmt : NumberFormat) (lsb : Sandbox)
    (stateFile : Option (List UInt8)) (o : InitOutcome) :
    Option LsbErr × Sandbox × List Event :=
  if lsb.state ≠ LsbState.unknown then
    (some LsbErr.init,
      lsbTerminate lsb (some (ascii LsbErr.init.message)), [])
  else
    let file := stateFile.filter (fun s => s ≠ [])
    if file.isSome ∧ o.allocated = false then
      (some LsbErr.utilOom,
        lsbTerminate lsb (some (ascii LsbErr.utilOom.message)), [])
    else
      let lsb :=
        if file.isSome then { lsb with stateFile := file } else lsb
      let require := ascii "require"
      let events := [Event.getglobal require]
      let lsb := { lsb with stack := lsb.stack ++ [o.require] }
      if o.require.isCFunction = false then
        let lsb := { lsb with
          errorMessage := ascii "lsb_init() 'require' not found" }
        (some LsbErr.lua, lsbTerminate lsb none, events)
      else
        let events := events ++ [Event.pcall require]
        match o.base with
        | CallResult.error v =>
            let lsb := { lsb with
              stack := lsb.stack.dropLast ++ [v]
              errorMessage := errorText (ascii "lsb_init " ++ nilError fmt v) }
            (some LsbErr.lua, lsbTerminate lsb none, events)
        | CallResult.returned _ =>
            let events := events ++ [Event.setglobal (ascii "print")]
            let lsb := { lsb with
              stack := lsb.stack.dropLast
              hook := instructionHook lsb }
            let (err, lsb, chunkEvents) := runChunk fmt lsb o
            (err, lsb, events ++ chunkEvents)

/-!
## Stopping and destruction
-/

def lsbStopSandboxClean (lsb : Sandbox) : Sandbox :=
  { lsb with state := LsbState.stop }

def lsbStopSandbox (lsb : Sandbox) : Sandbox :=
  { lsb with hook := Hook.stopHook }

/-- What `preserve_global_data` meets on its way: the globals `string` and
`require`, the result of loading the string library, whether the file could be
opened, and the error of the serialization. -/
structure PreserveOutcome where
  string : Value
  require : Value
  load : CallResult
  opened : Bool
  written : Option LsbErr
  deriving DecidableEq

def preserveGlobalData (lsb : Sandbox) (o : PreserveOutcome) :
    Option LsbErr × Sandbox × List Event :=
  match lsb.stateFile with
  | none => (none, lsb, [])
  | some file =>
      if lsb.state = LsbState.terminated then
        (none, lsb, [])
      else
        let lsb := { lsb with hook := Hook.none }
        let save (events : List Event) :=
          if o.opened then
            (o.written, lsb, events ++ [Event.writeFile file])
          else
            let lsb := { lsb with
              errorMessage := errorText
                (ascii "preserve_global_data could not open: " ++ file) }
            (some LsbErr.lua, lsb, events)
        let events := [Event.getglobal (ascii "string")]
        if o.string.type = LuaType.table then
          save events
        else
          let require := ascii "require"
          let events := events ++ [Event.getglobal require]
          if o.require.isCFunction = false then
            let lsb := { lsb with
              errorMessage :=
                ascii "preserve_global_data 'require' function not found" }
            (some LsbErr.lua, lsb, events)
          else
            let events := events ++ [Event.pcall require]
            match o.load with
            | CallResult.error _ =>
                let lsb := { lsb with
                  errorMessage :=
                    ascii "preserve_global_data failed loading 'string'" }
                (some LsbErr.lua, lsb, events)
            | CallResult.returned _ => save events

/-- The sandbox is gone afterwards; an error of the preservation is returned. -/
def lsbDestroy (lsb : Sandbox) (o : PreserveOutcome) :
    Option (List UInt8) × List Event :=
  match preserveGlobalData lsb o with
  | (none, _, events) => (none, events)
  | (some _, lsb, events) => (some lsb.errorMessage, events)

/-!
## Protected calls
-/

/-- Set up the call of a global function; `f` is its value. -/
def lsbPcallSetup (lsb : Sandbox) (name : List UInt8) (f : Value) :
    Option LsbErr × Sandbox × List Event :=
  if lsb.state = LsbState.terminated then
    (some LsbErr.terminated, lsb, [])
  else
    let lsb := { lsb with
      hook := instructionHook lsb
      stack := lsb.stack ++ [f] }
    if f.type ≠ LuaType.function then
      let lsb := { lsb with
        errorMessage := errorText (name ++ ascii "() not found") }
      (some LsbErr.lua, lsb, [Event.getglobal name])
    else
      (none, lsb, [Event.getglobal name])

/-- The stack after a protected call with `nargs` arguments, and whether the
call succeeded. -/
def pcallStack (stack : List Value) (nargs nresults : Nat) (r : CallResult) :
    List Value :=
  let rest := stack.take (stack.length - (nargs + 1))
  match r with
  | CallResult.error v => rest ++ [v]
  | CallResult.returned values => rest ++ adjust nresults values

end Core
end LuaSandbox
