import LuaSandbox.Lua.Access
import LuaSandbox.Core.Sandbox
import LuaSandbox.Util.Writer

/-!
# Encoding a message table

The encoder of the message tables of a plugin.  The recursion over field values
may be without end, so it is given fuel.
-/

namespace LuaSandbox
namespace Heka

open Foundation
open Lua
open Util
open Core

/-!
## Encoders
-/

/-- Why an encoder stops: an error value is returned, a Lua error is raised, or
the fuel is used up. -/
inductive Stop where
  | err (e : LsbErr)
  | raised (v : Value)
  | depth
  deriving DecidableEq

/-- `failures` are the error values of the writes until now. -/
structure EncState where
  lua : LuaState
  w : WriteState
  errorMessage : List UInt8
  failures : List LsbErr

abbrev Enc (α : Type) : Type := Computation Stop EncState α

/-- A writer; a failure is recorded. -/
def write {α : Type} (x : Writer α) : Enc α :=
  Computation.ofFun (fun s =>
    match x.run s.w with
    | (Except.ok a, w) => (Except.ok a, { s with w := w })
    | (Except.error e, w) =>
        (Except.error (Stop.err e),
          { s with w := w, failures := s.failures ++ [e] }))

/-- An access to a table, which may run Lua code. -/
def access {α : Type} (f : LuaState -> OutputBuffer -> Accessed α) : Enc α :=
  Computation.ofFun (fun s =>
    let (r, L, ob) := f s.lua s.w.ob
    let s := { s with lua := L, w := { s.w with ob := ob } }
    match r with
    | Except.ok a => (Except.ok a, s)
    | Except.error v => (Except.error (Stop.raised v), s))

def getLua : Enc LuaState :=
  Computation.ofFun (fun s => (Except.ok s.lua, s))

def getPos : Enc Nat :=
  Computation.ofFun (fun s => (Except.ok s.w.ob.pos, s))

def getBuf : Enc Memory :=
  Computation.ofFun (fun s => (Except.ok s.w.ob.buf, s))

/-- A state before an encoder. -/
def EncState.start (L : LuaState) (ob : OutputBuffer) (alloc : Nat -> Bool)
    (errorMessage : List UInt8) : EncState :=
  ⟨L, ⟨ob, alloc, []⟩, errorMessage, []⟩

/-- An error with a message. -/
def failWith {α : Type} (message : List UInt8) (e : LsbErr) : Enc α :=
  Computation.ofFun (fun s =>
    (Except.error (Stop.err e), { s with errorMessage := errorText message }))

/-- The error value that an encoder returns; Lua errors go on. -/
def attempt (x : Enc Unit) : Enc (Option LsbErr) :=
  Computation.ofFun (fun s =>
    match x.run s with
    | (Except.ok _, s) => (Except.ok none, s)
    | (Except.error (Stop.err e), s) => (Except.ok (some e), s)
    | (Except.error stop, s) => (Except.error stop, s))

/-- What the encoder takes from the C library and the plugin. -/
structure EncodeEnv where
  fmt : NumberFormat
  plugin : Plugin
  now : Int
  random : Nat -> UInt8

/-- The configuration of a sandbox. -/
structure HekaConfig where
  name : Option (List UInt8)
  hostname : Option (List UInt8)
  pid : Int
  restrictedHeaders : Bool
  pid_range : intMin <= pid ∧ pid <= intMax
  deriving DecidableEq

theorem pid_range_one : intMin <= 1 ∧ 1 <= intMax := by
  decide

def decimal (i : Int) : List UInt8 := ascii (toString i)

/-- The text of a value up to its first NUL. -/
def cString (s : List UInt8) : List UInt8 := s.takeWhile (fun b => b ≠ 0)

section

variable (env : EncodeEnv)

def getfield (t : Value) (name : String) : Enc Value :=
  access (luaGetfield env.plugin t (ascii name))

def setfield (t : Value) (name : String) (value : Value) : Enc Unit :=
  access (luaSetfield env.plugin t (ascii name) value)

/-!
## Headers
-/

def encodeString (tag : Nat) (name : String) (t : Value) : Enc Unit := do
  let v <- getfield env t name
  match v.tostring env.fmt with
  | some s => write (lsbPbWriteString tag s)
  | none => pure ()

def encodeInt (tag : Nat) (name : String) (t : Value) : Enc Unit := do
  let v <- getfield env t name
  match v.tonumber env.fmt with
  | some d =>
      write (lsbPbWriteKey tag lsbPbWtVarint)
      write (lsbPbWriteVarint d.toUnsigned)
  | none => pure ()

/-- Set a header that the table does not have. -/
def setMissing (t : Value) (name : String) (value : Option Value) :
    Enc Unit := do
  let v <- getfield env t name
  match v, value with
  | Value.nil, some value => setfield env t name value
  | _, _ => pure ()

def setMissingHeaders (cfg : HekaConfig) (t : Value) : Enc Unit := do
  setMissing env t "Logger" (cfg.name.map Value.string)
  setMissing env t "Hostname" (cfg.hostname.map Value.string)
  setMissing env t "Pid" (some (integer cfg.pid))

/-!
## Field values
-/

/-- What comes in front of the first value of a field. -/
def encodeRepresentation (representation : Option (List UInt8)) : Enc Unit :=
  match representation with
  | some s => write (lsbPbWriteString lsbPbRepresentation s)
  | none => pure ()

def encodeValueType (valueType : Nat) : Enc Unit := do
  write (lsbPbWriteKey lsbPbValueType lsbPbWtVarint)
  write (lsbPbWriteVarint valueType)

/-- Contents behind their length, which is put in at the end. -/
def lengthPrefixed (contents : Enc Unit) : Enc Unit := do
  let lenPos <- getPos
  write (lsbPbWriteVarint 0)
  contents
  write (lsbPbUpdateFieldLength lenPos)

/-- An `if` without an `else`. -/
def onlyIf (p : Prop) [Decidable p] (x : Enc Unit) : Enc Unit :=
  if p then x else pure ()

def encodeStringValue (first : Int) (representation : Option (List UInt8))
    (valueType : Int) (s : List UInt8) : Enc Unit :=
  if valueType ≠ -1 ∧ valueType ≠ 0 ∧ valueType ≠ 1 then
    failWith (ascii "invalid string value_type: " ++ decimal valueType)
      LsbErr.hekaInput
  else do
    onlyIf (first ≠ 0) (do
      onlyIf (valueType = lsbPbBytes) (encodeValueType 1)
      encodeRepresentation representation)
    if valueType = lsbPbBytes then
      write (lsbPbWriteString lsbPbValueBytes s)
    else
      write (lsbPbWriteString lsbPbValueString s)

/-- The key of a number, and the length of a packed array. -/
def encodeNumberKey (first : Int) (valueType : Int) : Enc Unit :=
  if first = 1 then
    if valueType = lsbPbInteger then
      write (lsbPbWriteKey lsbPbValueInteger lsbPbWtVarint)
    else
      write (lsbPbWriteKey lsbPbValueDouble lsbPbWtFixed64)
  else
    if valueType = lsbPbInteger then do
      write (lsbPbWriteKey lsbPbValueInteger lsbPbWtLength)
      -- the length is put in later
      write (lsbPbWriteVarint 0)
    else do
      write (lsbPbWriteKey lsbPbValueDouble lsbPbWtLength)
      write (lsbPbWriteVarint (ofLongLong (first * 8)))

def encodeNumberValue (first : Int) (representation : Option (List UInt8))
    (valueType : Int) (d : Double) : Enc Unit :=
  if valueType ≠ -1 ∧ valueType ≠ 2 ∧ valueType ≠ 3 then
    failWith (ascii "invalid numeric value_type: " ++ decimal valueType)
      LsbErr.hekaInput
  else do
    let valueType := if valueType = -1 then lsbPbDouble else valueType
    onlyIf (first ≠ 0) (do
      encodeValueType valueType.toNat
      encodeRepresentation representation
      encodeNumberKey first valueType)
    if valueType = lsbPbInteger then
      write (lsbPbWriteVarint (ofLongLong d.toLongLong))
    else
      write (lsbPbWriteDouble d)

def encodeBooleanKey (first : Int) : Enc Unit :=
  if first = 1 then
    write (lsbPbWriteKey lsbPbValueBool lsbPbWtVarint)
  else do
    write (lsbPbWriteKey lsbPbValueBool lsbPbWtLength)
    write (lsbPbWriteVarint (ofLongLong first))

def encodeBooleanValue (first : Int) (representation : Option (List UInt8))
    (valueType : Int) (b : Bool) : Enc Unit :=
  if valueType ≠ -1 ∧ valueType ≠ lsbPbBool then
    failWith (ascii "invalid boolean value_type: " ++ decimal valueType)
      LsbErr.hekaInput
  else do
    onlyIf (first ≠ 0) (do
      encodeValueType 4
      encodeRepresentation representation
      encodeBooleanKey first)
    write (lsbPbWriteBool b)

def outputFailed (result : Int) : Enc Unit :=
  failWith (ascii "userdata output callback failed: " ++ decimal result)
    LsbErr.lua

/-- The output function writes its text to the buffer. -/
def encodeOutput (text : Except Int (List UInt8)) : Enc Unit :=
  match text with
  | Except.error result => outputFailed result
  | Except.ok s => do
      match <- attempt (write (lsbOutputs s)) with
      | some _ => outputFailed 1
      | none => pure ()

def encodeUserdata (first : Int) (representation : Option (List UInt8))
    (v : Value) : Enc Unit := do
  let L <- getLua
  match env.plugin.output L v with
  | none =>
      failWith (ascii "userdata object does not implement lsb_output")
        LsbErr.lua
  | some text =>
      onlyIf (first ≠ 0) (do
        encodeValueType 1
        encodeRepresentation representation)
      write (lsbPbWriteKey lsbPbValueBytes lsbPbWtLength)
      lengthPrefixed (encodeOutput text)

/-- Look for the length byte of a packed array, backwards from `i`. -/
def findLengthByte (buf : Memory) : Nat -> Nat -> Option Nat
  | 0, _ => none
  | n + 1, i =>
      if buf i = 0 then some i
      else findLengthByte buf n ((i + (2 ^ 64 - 1)) % 2 ^ 64)

/-- The elements from `idx` on, `n` of them. -/
def encodeElements (value : Int -> Value -> Enc Unit) (a : Nat) (t : LuaType) :
    Nat -> Int -> Enc Unit
  | 0, _ => pure ()
  | n + 1, idx => do
      let L <- getLua
      let v := L.rawgeti a idx
      if v.type ≠ t then
        failWith (ascii "array has mixed types") LsbErr.hekaInput
      else
        value 0 v
        encodeElements value a t n (idx + 1)

/-- Put in the length of a packed array of integers whose first element ends
at `lenPos`. -/
def encodePackedLength (lenPos : Nat) : Enc Unit := do
  let buf <- getBuf
  match findLengthByte buf lsbMaxVarintBytes
    ((lenPos + (2 ^ 64 - 2)) % 2 ^ 64) with
  | none =>
      failWith (ascii "unable set the length of the packed integer array")
        LsbErr.lua
  | some i => write (lsbPbUpdateFieldLength i)

/-- An array whose first element is `e`; `value` encodes an element. -/
def encodeFieldArray (value : Int -> Value -> Enc Unit) (a : Nat)
    (valueType : Int) (e : Value) : Enc Unit := do
  let L <- getLua
  let alen := toInt (L.objlen a)
  value alen e
  let lenPos <- getPos
  encodeElements value a e.type (alen - 1).toNat 2
  onlyIf (1 < alen ∧ valueType = lsbPbInteger) (encodePackedLength lenPos)

def objectRepresentation (v : Value) : Option (List UInt8) :=
  (v.tostring env.fmt).map cString

def objectValueType (v : Value) : Int :=
  if v.isnumber env.fmt then toInt (v.tointeger env.fmt) else -1

/-- An object; `value` encodes its value. -/
def encodeFieldObject
    (value : Option (List UInt8) -> Int -> Value -> Enc Unit)
    (obj : Value) : Enc Unit := do
  let representation <- getfield env obj "representation"
  let valueType <- getfield env obj "value_type"
  let v <- getfield env obj "value"
  value (objectRepresentation env representation)
    (objectValueType env valueType) v

/-- A field value; `below` is the value at the stack index -4, and `first` is 0
for all elements of an array but the first one. -/
def encodeFieldValue :
    Nat -> Value -> Int -> Option (List UInt8) -> Int -> Value -> Enc Unit
  | 0, _, _, _, _, _ => throw Stop.depth
  | n + 1, below, first, representation, valueType, v =>
      match v with
      | Value.string s => encodeStringValue first representation valueType s
      | Value.number d => encodeNumberValue first representation valueType d
      | Value.boolean b => encodeBooleanValue first representation valueType b
      | Value.table t => do
          let L <- getLua
          let e := L.rawgeti t 1
          match e.type with
          | LuaType.nil =>
              encodeFieldObject env (encodeFieldValue n v 1) v
          | LuaType.number | LuaType.string | LuaType.boolean =>
              encodeFieldArray
                (fun first => encodeFieldValue n v first representation
                  valueType) t valueType e
          | type =>
              failWith (ascii ("unsupported array type: " ++ typename type))
                LsbErr.lua
      | Value.lightuserdata _ => do
          let u <- getfield env below "userdata"
          if u.type ≠ LuaType.userdata then
            failWith (ascii
              "a lightuserdata output must also specify a userdata value")
              LsbErr.lua
          else
            encodeUserdata env first representation u
      | Value.userdata _ => encodeUserdata env first representation v
      | _ =>
          failWith (ascii ("unsupported type: " ++ typename v.type)) LsbErr.lua

/-!
## Fields
-/

def fieldNameError : Enc Unit :=
  failWith (ascii "field name must be a string") LsbErr.hekaInput

/-- A field record around its contents. -/
def encodeFieldRecord (tag : Nat) (contents : Enc Unit) : Enc Unit := do
  write (lsbPbWriteKey tag lsbPbWtLength)
  lengthPrefixed contents

def encodeName (name : Value) : Enc Unit :=
  match name.tostring env.fmt with
  | some s => write (lsbPbWriteString lsbPbName s)
  | none => fieldNameError

/-- The objects of an array from the element `e` with the index `i` on. -/
def encodeFieldObjects (tag f : Nat) : Nat -> Int -> Value -> Enc Unit
  | 0, _, _ => throw Stop.depth
  | n + 1, i, e => do
      encodeFieldRecord tag (do
        let name <- getfield env e "name"
        encodeName env name
        encodeFieldObject env (encodeFieldValue env n e 1) e)
      let L <- getLua
      let next := L.rawgeti f (i + 1)
      onlyIf (next ≠ Value.nil) (encodeFieldObjects tag f n (i + 1) next)

/-- A key that is a number is converted where it stands. -/
def convertedKey (k : Value) : Value :=
  match k with
  | Value.number d => Value.string (env.fmt.number2str d)
  | _ => k

/-- The entries of a hash behind the key `k`. -/
def encodeFieldEntries (tag : Nat) (below : Value) (f : Nat) :
    Nat -> Value -> Enc Unit
  | 0, _ => throw Stop.depth
  | n + 1, k => do
      let e <- access (fun L ob => (L.next f k, L, ob))
      match e with
      | none => pure ()
      | some (k, v) =>
          encodeFieldRecord tag (do
            encodeName env k
            encodeFieldValue env n below 1 none (-1) v)
          encodeFieldEntries tag below f n (convertedKey env k)

/-- `below` is the value on top of the stack. -/
def encodeFields (fuel : Nat) (tag : Nat) (name : String) (below t : Value) :
    Enc Unit := do
  let fields <- getfield env t name
  match fields with
  | Value.table f =>
      let L <- getLua
      let e := L.rawgeti f 1
      if e.type = LuaType.table then
        encodeFieldObjects env tag f fuel 1 e
      else
        encodeFieldEntries env tag below f fuel Value.nil
  | _ => pure ()

/-!
## Messages
-/

def timestampOf (v : Value) : Int :=
  match v.tonumber env.fmt with
  | some d => d.toLongLong
  | none => env.now

def stringOrNil (s : Option (List UInt8)) : Value :=
  match s with
  | some s => Value.string s
  | none => Value.nil

/-- The uuid and the timestamp, and the headers that are set in the table. -/
def encodePrologue (cfg : HekaConfig) (t : Value) : Enc Int := do
  write clearBuffer
  if cfg.restrictedHeaders then
    write (lsbWriteHekaUuid env.random none)
    setfield env t "Logger" (stringOrNil cfg.name)
    setfield env t "Hostname" (stringOrNil cfg.hostname)
    setfield env t "Pid" (integer cfg.pid)
    pure env.now
  else
    let uuid <- getfield env t "Uuid"
    -- the result of the write is not looked at
    let _ <- attempt (write
      (lsbWriteHekaUuid env.random (uuid.tostring env.fmt)))
    let timestamp <- getfield env t "Timestamp"
    setMissingHeaders env cfg t
    pure (timestampOf env timestamp)

/-- The records behind the uuid. -/
def encodeRecords (fuel : Nat) (ts : Int) (below t : Value) : Enc Unit := do
  write (lsbPbWriteKey lsbPbTimestamp lsbPbWtVarint)
  write (lsbPbWriteVarint (ofLongLong ts))
  encodeString env lsbPbType "Type" t
  encodeString env lsbPbLogger "Logger" t
  encodeInt env lsbPbSeverity "Severity" t
  encodeString env lsbPbPayload "Payload" t
  encodeString env lsbPbEnvVersion "EnvVersion" t
  encodeInt env lsbPbPid "Pid" t
  encodeString env lsbPbHostname "Hostname" t
  encodeFields env fuel lsbPbFields "Fields" below t

/-- The sections behind the uuid, with room for one more byte. -/
def encodeSections (fuel : Nat) (ts : Int) (below t : Value) : Enc Unit := do
  encodeRecords env fuel ts below t
  write (expand 1)

/-- Put a NUL behind the message. -/
def terminateMessage : Enc Unit := do
  let pos <- getPos
  write (store pos [0])

def hekaEncodeMessageTable (cfg : HekaConfig) (fuel : Nat)
    (below t : Value) : Enc Unit := do
  let ts <- encodePrologue env cfg t
  let ret <- attempt (encodeSections env fuel ts below t)
  terminateMessage
  match ret with
  | none => pure ()
  | some e => throw (Stop.err e)

/-!
## Runs
-/

/-- The NUL is put behind the contents, without a look at the size. -/
def terminated (s : EncState) : EncState :=
  { s with w := { s.w with
      ob := s.w.ob.overwrite s.w.ob.pos [0]
      writes := s.w.writes ++ [⟨s.w.ob.pos, 1, s.w.ob.size⟩] } }

theorem run_attempt_ok {x : Enc Unit} {s u : EncState}
    (h : x.run s = (Except.ok (), u)) :
    (attempt x).run s = (Except.ok none, u) := by
  unfold attempt
  rw [Computation.run_ofFun, h]

theorem run_attempt_err {x : Enc Unit} {s u : EncState} {e : LsbErr}
    (h : x.run s = (Except.error (Stop.err e), u)) :
    (attempt x).run s = (Except.ok (some e), u) := by
  unfold attempt
  rw [Computation.run_ofFun, h]

theorem run_attempt_stop {x : Enc Unit} {s u : EncState} {stop : Stop}
    (h : x.run s = (Except.error stop, u))
    (hstop : forall e, stop ≠ Stop.err e) :
    (attempt x).run s = (Except.error stop, u) := by
  unfold attempt
  rw [Computation.run_ofFun, h]
  split
  · rename_i hrun
    cases hrun
  · rename_i e _ hrun
    cases hrun
    exact absurd rfl (hstop e)
  · rename_i hrun
    cases hrun
    rfl

variable {env} {cfg : HekaConfig} {fuel : Nat} {below t : Value}
  {s s1 s2 : EncState} {ts : Int}

theorem run_hekaEncodeMessageTable_prologue {stop : Stop}
    (h : (encodePrologue env cfg t).run s = (Except.error stop, s1)) :
    (hekaEncodeMessageTable env cfg fuel below t).run s =
      (Except.error stop, s1) :=
  Computation.run_bind_error h

theorem run_hekaEncodeMessageTable_ok
    (h : (encodePrologue env cfg t).run s = (Except.ok ts, s1))
    (hsections : (encodeSections env fuel ts below t).run s1 =
      (Except.ok (), s2)) :
    (hekaEncodeMessageTable env cfg fuel below t).run s =
      (Except.ok (), terminated s2) := by
  unfold hekaEncodeMessageTable
  rw [Computation.run_bind_ok h,
    Computation.run_bind_ok (run_attempt_ok hsections)]
  rfl

theorem run_hekaEncodeMessageTable_err {e : LsbErr}
    (h : (encodePrologue env cfg t).run s = (Except.ok ts, s1))
    (hsections : (encodeSections env fuel ts below t).run s1 =
      (Except.error (Stop.err e), s2)) :
    (hekaEncodeMessageTable env cfg fuel below t).run s =
      (Except.error (Stop.err e), terminated s2) := by
  unfold hekaEncodeMessageTable
  rw [Computation.run_bind_ok h,
    Computation.run_bind_ok (run_attempt_err hsections)]
  rfl

theorem run_hekaEncodeMessageTable_stop {stop : Stop}
    (h : (encodePrologue env cfg t).run s = (Except.ok ts, s1))
    (hsections : (encodeSections env fuel ts below t).run s1 =
      (Except.error stop, s2))
    (hstop : forall e, stop ≠ Stop.err e) :
    (hekaEncodeMessageTable env cfg fuel below t).run s =
      (Except.error stop, s2) := by
  unfold hekaEncodeMessageTable
  rw [Computation.run_bind_ok h,
    Computation.run_bind_error (run_attempt_stop hsections hstop)]

end

end Heka
end LuaSandbox
