import LuaSandbox.Foundation.CString
import LuaSandbox.Foundation.Double
import LuaSandbox.Foundation.MachineInt

/-!
# Lua values

The values of Lua as its C interface shows them, and the conversions that the
interface makes.
-/

namespace LuaSandbox
namespace Lua

open Foundation

inductive LuaType where
  | none
  | nil
  | boolean
  | lightuserdata
  | number
  | string
  | table
  | function
  | userdata
  | thread
  deriving DecidableEq

def typename : LuaType -> String
  | LuaType.none => "no value"
  | LuaType.nil => "nil"
  | LuaType.boolean => "boolean"
  | LuaType.lightuserdata => "userdata"
  | LuaType.number => "number"
  | LuaType.string => "string"
  | LuaType.table => "table"
  | LuaType.function => "function"
  | LuaType.userdata => "userdata"
  | LuaType.thread => "thread"

/-- A value; objects are known by their addresses. -/
inductive Value where
  | nil
  | boolean (b : Bool)
  | lightuserdata (p : Nat)
  | number (d : Double)
  | string (s : List UInt8)
  | table (t : Nat)
  | function (f : Nat)
  | cfunction (f : Nat)
  | userdata (u : Nat)
  | thread (t : Nat)
  deriving DecidableEq

namespace Value

def type : Value -> LuaType
  | nil => LuaType.nil
  | boolean _ => LuaType.boolean
  | lightuserdata _ => LuaType.lightuserdata
  | number _ => LuaType.number
  | string _ => LuaType.string
  | table _ => LuaType.table
  | function _ => LuaType.function
  | cfunction _ => LuaType.function
  | userdata _ => LuaType.userdata
  | thread _ => LuaType.thread

def isCFunction : Value -> Bool
  | cfunction _ => true
  | _ => false

end Value

/-- How the C library writes and reads numbers. -/
structure NumberFormat where
  number2str : Double -> List UInt8
  str2number : List UInt8 -> Option Double

namespace Value

def tonumber (fmt : NumberFormat) : Value -> Option Double
  | number d => some d
  | string s => fmt.str2number s
  | _ => none

def isnumber (fmt : NumberFormat) (v : Value) : Bool :=
  (v.tonumber fmt).isSome

def tointeger (fmt : NumberFormat) (v : Value) : Int :=
  match v.tonumber fmt with
  | some d => d.toLongLong
  | none => 0

def tostring (fmt : NumberFormat) : Value -> Option (List UInt8)
  | string s => some s
  | number d => some (fmt.number2str d)
  | _ => none

def isstring (v : Value) : Bool :=
  v.type = LuaType.string ∨ v.type = LuaType.number

def toboolean : Value -> Bool
  | nil => false
  | boolean b => b
  | _ => true

end Value

/-!
## Calls
-/

/-- How a protected call ends. -/
inductive CallResult where
  | error (v : Value)
  | returned (values : List Value)
  deriving DecidableEq

/-- Exactly `n` results; missing ones are nil. -/
def adjust (n : Nat) (values : List Value) : List Value :=
  values.take n ++ List.replicate (n - values.length) Value.nil

theorem adjust_length (n : Nat) (values : List Value) :
    (adjust n values).length = n := by
  unfold adjust
  rw [List.length_append, List.length_take, List.length_replicate]
  omega

/-- The type at an absolute stack index. -/
def typeAt (stack : List Value) (index : Nat) : LuaType :=
  match stack[index - 1]? with
  | some v => v.type
  | none => LuaType.none

end Lua
end LuaSandbox
