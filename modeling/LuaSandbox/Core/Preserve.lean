import LuaSandbox.Foundation.FailingLoop
import LuaSandbox.Lua.Quoting
import LuaSandbox.Lua.RawTable
import LuaSandbox.Lua.Traversal
import LuaSandbox.Util.NumberText

/-!
# Preservation of the global data

The pass over the tables of a Lua state that writes the assignments of the
state file.  The names of the tables stay in one buffer, one behind the other,
and are known by their positions.
-/

namespace LuaSandbox
namespace Core

open Foundation Lua
open Util (serializeDoubleText)

/-!
## What is preserved
-/

/-- The part of a Lua state that the pass reads.  The function of a userdata is
given the name; what it writes counts if it returns zero. -/
structure LuaGlobals where
  tables : Nat -> RawTable
  hasMetatable : Nat -> Bool
  isArray : Nat -> Bool
  objlen : Nat -> Nat
  getSerializeFunction : Nat -> Option (List UInt8 -> Option (List UInt8))
  globals : Nat

/-- What ends the pass.  The result of `lua_checkstack` is not looked at. -/
inductive PreserveStop where
  | stackOverflow
  | error (message : List UInt8)
  deriving DecidableEq

def preservationVersion : List UInt8 := ascii "_PRESERVATION_VERSION"

namespace LuaGlobals

variable (g : LuaGlobals)

def ignoreValueType : Value -> Bool
  | Value.string _ => false
  | Value.number _ => false
  | Value.boolean _ => false
  | Value.table t => g.hasMetatable t || t = g.globals
  | Value.userdata u => (g.getSerializeFunction u).isNone
  | _ => true

/-- An array without elements, as far as its length tells. -/
def isEmptyArray (t : Nat) : Bool := g.isArray t && g.objlen t = 0

/-- The version, and the globals without it. -/
def getPreservationVersion : Int × RawTable :=
  let T := g.tables g.globals
  match T.rawget (Value.string preservationVersion) with
  | Value.nil => (0, T)
  | Value.number d =>
      (toInt d.toLongLong, T.setfield preservationVersion Value.nil)
  | _ => (0, T.setfield preservationVersion Value.nil)

/-- The entries that the loop over a table meets. -/
def entriesOf (t : Nat) : List (Value × Value) :=
  if t = g.globals then live g.getPreservationVersion.2.entries
  else live (g.tables t).entries

end LuaGlobals

/-!
## The pass
-/

/-- The string at a position. -/
def stringAt (buf : List UInt8) (pos : Nat) : List UInt8 :=
  (buf.drop pos).takeWhile (fun b => b ≠ 0)

/-- What is written so far, the names of the tables, and where the name of each
table or userdata is. -/
structure SerializationData where
  fh : List UInt8
  keys : List UInt8
  tables : List (Value × Nat)
  deriving DecidableEq

def findTableRef (tables : List (Value × Nat)) (ptr : Value) : Option Nat :=
  (tables.find? (fun ref => ref.1 = ptr)).map Prod.snd

def cannotPreserve (v : Value) : List UInt8 :=
  ascii "serialize_data cannot preserve type '" ++
    ascii (typename v.type) ++ ascii "'"

section

variable (format : Double.Value -> List UInt8) (r : Rounding)

/-- The text of a value that is no table. -/
def literal : Value -> List UInt8
  | Value.number d => serializeDoubleText format r d.value
  | Value.string s => addquoted s
  | Value.boolean true => ascii "true"
  | Value.boolean false => ascii "false"
  | _ => []

/-- A string is formatted with four more slots of the stack. -/
def serializeData (slots : Nat) (v : Value) :
    Except PreserveStop (List UInt8) :=
  match v with
  | Value.number _ => Except.ok (literal format r v)
  | Value.string _ =>
      if slots < 4 then Except.error PreserveStop.stackOverflow
      else Except.ok (literal format r v)
  | Value.boolean _ => Except.ok (literal format r v)
  | _ => Except.error (PreserveStop.error (cannotPreserve v))

variable (g : LuaGlobals)
variable (serializeTable : Nat -> Nat -> SerializationData ->
  Except PreserveStop SerializationData)

/-- Write an entry of the table whose name is at `parent`; the name of the
entry is kept in the buffer if it is the first one of an object. -/
def serializeKvp (slots parent : Nat) (data : SerializationData)
    (e : Value × Value) : Except PreserveStop SerializationData :=
  if g.ignoreValueType e.2 then Except.ok data
  else do
    let key <- serializeData format r slots e.1
    let pos := data.keys.length
    let name := stringAt data.keys parent ++ [0x5b] ++ key ++ [0x5d]
    match e.2 with
    | Value.table t =>
        match findTableRef data.tables e.2 with
        | none =>
            let keys := data.keys ++ name ++ [0]
            let tables := data.tables ++ [(e.2, pos)]
            if g.isEmptyArray t then
              Except.ok ⟨data.fh ++ (name ++ ascii " = {nil}\n"), keys, tables⟩
            else
              serializeTable t pos
                ⟨data.fh ++ (name ++ ascii " = {}\n"), keys, tables⟩
        | some seen =>
            Except.ok { data with
              fh := data.fh ++
                (name ++ ascii " = " ++ stringAt data.keys seen ++ [0x0a]) }
    | Value.userdata u =>
        match findTableRef data.tables e.2 with
        | none =>
            let written := (g.getSerializeFunction u).bind (fun fp => fp name)
            Except.ok ⟨data.fh ++ written.getD [], data.keys ++ name ++ [0],
              data.tables ++ [(e.2, pos)]⟩
        | some seen =>
            Except.ok { data with
              fh := data.fh ++
                (name ++ ascii " = " ++ stringAt data.keys seen ++ [0x0a]) }
    | _ => do
        let value <- serializeData format r slots e.2
        Except.ok { data with
          fh := data.fh ++ (name ++ ascii " = " ++ value ++ [0x0a]) }

end

section

variable (format : Double.Value -> List UInt8) (r : Rounding)
variable (g : LuaGlobals)

/-- The loop over a table whose name is at `parent`: a slot for the key and one
for the value. -/
def serializeTable :
    Nat -> Nat -> Nat -> SerializationData ->
      Except PreserveStop SerializationData
  | slots + 2, t, parent, data =>
      (g.entriesOf t).foldlM
        (serializeKvp format r g (serializeTable slots) slots parent) data
  | _, _, _, _ => Except.error PreserveStop.stackOverflow

end

/-- The first line: nothing is restored into another version. -/
def versionLine (version : Int) : List UInt8 :=
  ascii "if _PRESERVATION_VERSION and _PRESERVATION_VERSION ~= " ++
    ascii (toString version) ++ ascii " then return end\n"

/-- The state file, with `slots` free slots of the stack.  The globals have the
name at 0. -/
def LuaGlobals.preserveGlobalData (g : LuaGlobals)
    (format : Double.Value -> List UInt8) (r : Rounding) (slots : Nat) :
    Except PreserveStop (List UInt8) := do
  let data <- serializeTable format r g slots g.globals 0
    ⟨versionLine g.getPreservationVersion.1, ascii "_G" ++ [0], []⟩
  Except.ok data.fh

end Core
end LuaSandbox
