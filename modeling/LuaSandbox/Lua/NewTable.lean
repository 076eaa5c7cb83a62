import LuaSandbox.Lua.Access

/-!
# New tables

Tables that a C function makes.  They have no metatable, so that no access to
them runs Lua code.
-/

namespace LuaSandbox
namespace Lua

open Foundation
open Util

namespace LuaState

/-- An empty table without a metatable. -/
def newTable (L : LuaState) (a : Nat) : LuaState where
  tables b := if b = a then LuaTable.empty else L.tables b
  metatable v := if v = Value.table a then none else L.metatable v

def setOptional (L : LuaState) (a : Nat) (name : List UInt8)
    (value : Option Value) : LuaState :=
  match value with
  | some v => L.setString a name v
  | none => L

/-- A table has no metatable. -/
def Bare (L : LuaState) (a : Nat) : Prop :=
  L.metatable (Value.table a) = none

section

variable {L : LuaState} {a b : Nat} {name other : List UInt8} {v : Value}

theorem bare_newTable (L : LuaState) (a : Nat) : (L.newTable a).Bare a :=
  if_pos rfl

theorem Bare.newTable (h : L.Bare a) : (L.newTable b).Bare a := by
  unfold Bare LuaState.newTable
  dsimp only
  split
  · rfl
  · exact h

theorem Bare.setString (h : L.Bare a) : (L.setString b name v).Bare a :=
  h

theorem Bare.setOptional {value : Option Value} (h : L.Bare a) :
    (L.setOptional b name value).Bare a := by
  cases value with
  | none => exact h
  | some v => exact h

theorem tables_newTable (L : LuaState) (a : Nat) :
    (L.newTable a).tables a = LuaTable.empty :=
  if_pos rfl

theorem tables_newTable_other (h : a ≠ b) :
    (L.newTable b).tables a = L.tables a :=
  if_neg h

theorem tables_setString (L : LuaState) (a : Nat) (name : List UInt8)
    (v : Value) :
    (L.setString a name v).tables a = (L.tables a).setString name v :=
  if_pos rfl

theorem tables_setString_other (h : a ≠ b) :
    (L.setString b name v).tables a = L.tables a :=
  if_neg h

theorem tables_setOptional_other {value : Option Value} (h : a ≠ b) :
    (L.setOptional b name value).tables a = L.tables a := by
  cases value with
  | none => rfl
  | some v => exact tables_setString_other h

/-- A field that was not there has the value that it is set to. -/
theorem get_setOptional {value : Option Value}
    (h : (L.tables a).get (Value.string name) = Value.nil) :
    ((L.setOptional a name value).tables a).get (Value.string name) =
      value.getD Value.nil := by
  cases value with
  | none => exact h
  | some v =>
      change ((L.setString a name v).tables a).get (Value.string name) = v
      rw [tables_setString, LuaTable.get_setString, if_pos rfl]

theorem get_setString_other (h : other ≠ name) :
    ((L.setString a name v).tables a).get (Value.string other) =
      (L.tables a).get (Value.string other) := by
  rw [tables_setString, LuaTable.get_setString, if_neg]
  intro hsame
  exact h (Value.string.inj hsame).symm

theorem get_setOptional_other {value : Option Value} (h : other ≠ name) :
    ((L.setOptional a name value).tables a).get (Value.string other) =
      (L.tables a).get (Value.string other) := by
  cases value with
  | none => rfl
  | some v => exact get_setString_other h

variable {P : Plugin} {ob : OutputBuffer}

theorem luaGetfield_bare (h : L.Bare a) :
    luaGetfield P (Value.table a) name L ob =
      (Except.ok ((L.tables a).get (Value.string name)), L, ob) := by
  have htm : L.metamethod (Value.table a) (ascii "__index") = Value.nil := by
    unfold metamethod
    rw [h]
  unfold luaGetfield maxTagLoop gettable
  dsimp only
  rw [htm]
  split
  · rfl
  · rename_i hnil
    rw [if_pos rfl, not_not.mp hnil]
    rfl

theorem luaSetfield_bare (h : L.Bare a) :
    luaSetfield P (Value.table a) name v L ob =
      (Except.ok (), L.setString a name v, ob) := by
  have htm : L.metamethod (Value.table a) (ascii "__newindex") =
      Value.nil := by
    unfold metamethod
    rw [h]
  unfold luaSetfield maxTagLoop settable
  dsimp only
  rw [if_pos (Or.inr htm)]

end

end LuaState

end Lua
end LuaSandbox
