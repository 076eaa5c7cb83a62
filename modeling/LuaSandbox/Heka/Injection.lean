import LuaSandbox.Core.Output
import LuaSandbox.Heka.EncodeMessage
import LuaSandbox.Heka.ReadMessage
import LuaSandbox.Lua.NewTable

/-!
# Injecting messages

The functions with which a plugin hands messages to its host.  They share the
output buffer of the sandbox: messages are encoded in it, and the text of the
next payload is kept in it.
-/

namespace LuaSandbox
namespace Heka

open Foundation
open Lua
open Util
open Core

/-!
## State
-/

/-- The callback is handed a message, and returns `result`. -/
structure Injected where
  mem : Memory
  start : Nat
  len : Nat
  result : Int

/-- The text of an injected message. -/
def Injected.bytes (i : Injected) : List UInt8 := i.mem.bytes i.start i.len

/-- What the functions of the sandbox work on, and the messages that the host
was handed. -/
structure Injector where
  lua : LuaState
  ob : OutputBuffer
  errorMessage : List UInt8
  imCnt : Nat
  imBytes : Nat
  injected : List Injected

/-- What does not change during a run; `format` stands for `"%0.17g"`, and
`alloc` tells for which sizes a reallocation succeeds. -/
structure InjectEnv where
  encode : EncodeEnv
  cfg : HekaConfig
  format : Double.Value -> List UInt8
  alloc : Nat -> Bool
  fuel : Nat

abbrev Api (α : Type) : Type := Computation ApiError Injector α

def lsbHekaImSuccess : Int := 0

def lsbHekaImLimit : Int := 3

def imFuncName : List UInt8 := ascii "inject_message"

def ipFuncName : List UInt8 := ascii "inject_payload"

def getErrorMessage : Api (List UInt8) :=
  Computation.ofFun (fun s => (Except.ok s.errorMessage, s))

/-- The contents of the output buffer, which is reset. -/
def lsbGetOutput : Api (Memory × Nat) :=
  Computation.ofFun (fun s =>
    (Except.ok (s.ob.buf, s.ob.pos), { s with ob := s.ob.clear }))

/-- `luaL_checktype` -/
def checktype (args : List Value) (index : Nat) (t : LuaType) : Api Unit :=
  if typeAt args index = t then
    pure ()
  else
    throw (ApiError.argument index (ascii
      (typename t ++ " expected, got " ++ typename (typeAt args index))))

section

variable (env : InjectEnv)

/-- Run an encoder; the result is the error value that it returns. -/
def encoding (x : Enc Unit) : Api (Option LsbErr) :=
  Computation.ofFun (fun s =>
    let (r, e) := x.run (EncState.start s.lua s.ob env.alloc s.errorMessage)
    let s := { s with
      lua := e.lua
      ob := e.w.ob
      errorMessage := e.errorMessage }
    match r with
    | Except.ok _ => (Except.ok none, s)
    | Except.error (Stop.err e) => (Except.ok (some e), s)
    | Except.error (Stop.raised v) => (Except.error (ApiError.raised v), s)
    | Except.error Stop.depth => (Except.error ApiError.depth, s))

def output (start : Nat) (args : List Value) : Api Unit :=
  Computation.ofFun (fun s =>
    let (r, w) := (lsbOutputCoroutine env.encode.plugin env.format s.lua
      s.errorMessage start args true).run ⟨s.ob, env.alloc, []⟩
    (r, { s with ob := w.ob }))

/-- The function `output` of a plugin, which an analysis plugin knows as
`add_to_payload`. -/
def addToPayload (args : List Value) : Api Unit :=
  if args.length = 0 then
    throw (ApiError.argument 0 (ascii "must have at least one argument"))
  else
    output env 1 args

/-!
## Messages
-/

/-- The callback takes the output and returns `rv`. -/
def callback (rv : Int) : Api Unit := do
  let (mem, len) <- lsbGetOutput
  Computation.ofFun (fun s =>
    let s := { s with injected := s.injected ++ [⟨mem, 0, len, rv⟩] }
    if rv = lsbHekaImSuccess then
      (Except.ok (), { s with
        imCnt := s.imCnt + 1
        imBytes := s.imBytes + len })
    else if rv = lsbHekaImLimit then
      (Except.error (ApiError.message (imFuncName ++
        ascii "() failed: injection limit exceeded")), s)
    else
      (Except.error (ApiError.message (imFuncName ++
        ascii "() failed: rejected by the callback rv: " ++ decimal rv)), s))

/-- The value on top of the stack is the last argument. -/
def encodeArgument (args : List Value) : Enc Unit :=
  hekaEncodeMessageTable env.encode env.cfg env.fuel
    (args.getLastD Value.nil) (args.headD Value.nil)

def injectMessageAnalysis (rv : Int) (args : List Value) : Api Unit := do
  checktype args 1 LuaType.table
  match <- encoding env (encodeArgument env args) with
  | some _ =>
      let err <- getErrorMessage
      throw (ApiError.message (imFuncName ++ ascii "() failed: " ++ err))
  | none => callback rv

def checkEncodeArguments (args : List Value) : Api Unit :=
  if args.length = 2 then do
    checktype args 2 LuaType.boolean
    checktype args 1 LuaType.table
  else if args.length = 1 then
    checktype args 1 LuaType.table
  else
    throw (ApiError.argument args.length
      (ascii "incorrect number of arguments"))

/-- The encoded message; a framed one has a header in front. -/
def hekaEncodeMessage (args : List Value) : Api (List UInt8) := do
  checkEncodeArguments args
  match <- encoding env (encodeArgument env args) with
  | some e =>
      let err <- getErrorMessage
      throw (ApiError.message (ascii "encode_message() failed: " ++
        (if err = [] then ascii e.message else err)))
  | none =>
      let (mem, len) <- lsbGetOutput
      let framed := (args.getD 1 Value.nil).toboolean
      pure ((if framed then lsbWriteHekaHeader len else []) ++
        mem.bytes 0 len)

/-!
## Payloads
-/

/-- The addresses of two new tables. -/
structure NewTables where
  message : Nat
  fields : Nat
  distinct : message ≠ fields
  deriving DecidableEq

/-- The message table of a payload. -/
def payloadTable (L : LuaState) (new : NewTables) (type : Value)
    (name : Option Value) (payload : List UInt8) : LuaState :=
  let L := (L.newTable new.message).newTable new.fields
  let L := L.setString new.fields (ascii "payload_type") type
  let L := L.setOptional new.fields (ascii "payload_name") name
  let L := L.setString new.message (ascii "Fields") (Value.table new.fields)
  let L := L.setString new.message (ascii "Type")
    (Value.string (ascii "inject_payload"))
  L.setString new.message (ascii "Payload") (Value.string payload)

/-- The arguments in front of the text are strings. -/
def checkNames (args : List Value) : Api Unit :=
  if 0 < args.length ∧ typeAt args 1 ≠ LuaType.string then
    throw (ApiError.message (ipFuncName ++
      ascii "() payload_type argument must be a string"))
  else if 1 < args.length ∧ typeAt args 2 ≠ LuaType.string then
    throw (ApiError.message (ipFuncName ++
      ascii "() payload_name argument must be a string"))
  else
    pure ()

def outputRest (args : List Value) : Api Unit :=
  if 2 < args.length then output env 3 (args.drop 2) else pure ()

def defaultType : Value := Value.string (ascii "txt")

/-- The table takes the place of the type on the stack. -/
def injectTable (rv : Int) (new : NewTables) (args : List Value)
    (payload : List UInt8) : Api Unit := do
  Computation.ofFun (fun s => (Except.ok (), { s with
    lua := payloadTable s.lua new (args.headD defaultType) args[1]?
      payload }))
  injectMessageAnalysis env rv
    (Value.table new.message :: (args.drop 1).take 1)

/-- The text that was added becomes the payload of a message of its own. -/
def injectPayload (rv : Int) (new : NewTables) (args : List Value) :
    Api Unit := do
  checkNames args
  outputRest env args
  let (mem, len) <- lsbGetOutput
  if len = 0 then pure () else injectTable env rv new args (mem.bytes 0 len)

end

/-!
## Runs
-/

/-- The calls of a plugin, and what else it does to its state.  Only an output
plugin has `encode_message`, only an analysis plugin `inject_payload`. -/
inductive PluginCall where
  | addToPayload (args : List Value)
  | injectMessage (rv : Int) (args : List Value)
  | injectPayload (rv : Int) (new : NewTables) (args : List Value)
  | encodeMessage (args : List Value)
  | other (lua : LuaState) (errorMessage : List UInt8)

/-- The state behind a call, whether an error was raised or not. -/
def PluginCall.run (env : InjectEnv) (s : Injector) : PluginCall -> Injector
  | addToPayload args => ((Heka.addToPayload env args).run s).2
  | injectMessage rv args => ((injectMessageAnalysis env rv args).run s).2
  | injectPayload rv new args =>
      ((Heka.injectPayload env rv new args).run s).2
  | encodeMessage args => ((hekaEncodeMessage env args).run s).2
  | other lua errorMessage =>
      { s with lua := lua, errorMessage := errorMessage }

end Heka
end LuaSandbox
