import LuaSandbox.Lua.Value
import Mathlib.Data.List.Nodup

/-!
# Lua tables

The tables of a Lua state, with the order in which they are traversed and the
length that is found for them, and the accesses that call no metamethod.
-/

namespace LuaSandbox
namespace Lua

open Foundation

/-!
## Entries
-/

def integer (i : Int) : Value := Value.number (Double.ofInt i)

/-- The value of a key; an entry whose value is nil is not there. -/
def lookup : List (Value × Value) -> Value -> Value
  | [], _ => Value.nil
  | (k, v) :: rest, key => if k = key then v else lookup rest key

/-- Replace the value of a key that is there, or add the key at the end. -/
def assign : List (Value × Value) -> Value -> Value -> List (Value × Value)
  | [], key, value => [(key, value)]
  | (k, v) :: rest, key, value =>
      if k = key then (k, value) :: rest
      else (k, v) :: assign rest key value

/-- A length that an array with holes may have. -/
def IsBorder (entries : List (Value × Value)) (n : Nat) : Prop :=
  (n = 0 ∨ lookup entries (integer n) ≠ Value.nil) ∧
    lookup entries (integer (n + 1)) = Value.nil

section

variable {entries : List (Value × Value)} {key value : Value}

theorem lookup_assign (entries : List (Value × Value))
    (key value k : Value) :
    lookup (assign entries key value) k =
      if key = k then value else lookup entries k := by
  induction entries with
  | nil => rfl
  | cons e rest ih =>
      rcases e with ⟨k', v'⟩
      unfold assign
      by_cases hsame : k' = key
      · rw [if_pos hsame, lookup, lookup, hsame]
        split
        · rfl
        · rfl
      · rw [if_neg hsame, lookup, lookup, ih]
        by_cases hk : k' = k
        · have hne : ¬ key = k := fun h => hsame (hk.trans h.symm)
          rw [if_pos hk, if_pos hk, if_neg hne]
        · rw [if_neg hk, if_neg hk]

theorem mem_keys_assign {k : Value} :
    k ∈ (assign entries key value).map Prod.fst <->
      k = key ∨ k ∈ entries.map Prod.fst := by
  induction entries with
  | nil => simp [assign]
  | cons e rest ih =>
      rcases e with ⟨k', v'⟩
      unfold assign
      split
      · rename_i hsame
        simp [hsame]
      · rw [List.map_cons, List.mem_cons, ih, List.map_cons, List.mem_cons]
        exact or_left_comm

theorem nodup_assign (h : (entries.map Prod.fst).Nodup) :
    ((assign entries key value).map Prod.fst).Nodup := by
  induction entries with
  | nil => exact List.nodup_singleton key
  | cons e rest ih =>
      rcases e with ⟨k', v'⟩
      rw [List.map_cons, List.nodup_cons] at h
      unfold assign
      split
      · exact List.nodup_cons.mpr h
      · rename_i hne
        rw [List.map_cons, List.nodup_cons, mem_keys_assign]
        refine ⟨?_, ih h.2⟩
        rintro (hsame | hrest)
        · exact hne hsame
        · exact h.1 hrest

end

/-!
## Tables
-/

/-- The entries in the order of traversal, and the border that is found for
the length, which is an `int`. -/
structure LuaTable where
  entries : List (Value × Value)
  length : Nat
  keys_nodup : (entries.map Prod.fst).Nodup
  nil_not_key : Value.nil ∉ entries.map Prod.fst
  border : IsBorder entries length
  length_lt : length < 2 ^ 31

namespace LuaTable

def empty : LuaTable where
  entries := []
  length := 0
  keys_nodup := List.nodup_nil
  nil_not_key := List.not_mem_nil
  border := ⟨Or.inl rfl, rfl⟩
  length_lt := by decide

def get (t : LuaTable) (key : Value) : Value := lookup t.entries key

/-- Assign to a string key; the length does not change. -/
def setString (t : LuaTable) (name : List UInt8) (value : Value) :
    LuaTable where
  entries := assign t.entries (Value.string name) value
  length := t.length
  keys_nodup := nodup_assign t.keys_nodup
  nil_not_key := by
    rw [mem_keys_assign]
    rintro (h | h)
    · cases h
    · exact t.nil_not_key h
  border := by
    unfold IsBorder integer
    rw [lookup_assign, lookup_assign, if_neg nofun, if_neg nofun]
    exact t.border
  length_lt := t.length_lt

/-- The first entry whose value is not nil. -/
def firstEntry : List (Value × Value) -> Option (Value × Value)
  | [] => none
  | (k, v) :: rest => if v = Value.nil then firstEntry rest else some (k, v)

/-- The entries behind a key. -/
def behind : List (Value × Value) -> Value -> Option (List (Value × Value))
  | [], _ => none
  | (k, _) :: rest, key => if k = key then some rest else behind rest key

/-- The entry behind a key, or the first one; `none` if there is no such key. -/
def next (t : LuaTable) (key : Value) :
    Option (Option (Value × Value)) :=
  if key = Value.nil then
    some (firstEntry t.entries)
  else
    (behind t.entries key).map firstEntry

@[simp] theorem get_empty (key : Value) : empty.get key = Value.nil :=
  rfl

theorem get_setString (t : LuaTable) (name : List UInt8)
    (value key : Value) :
    (t.setString name value).get key =
      if Value.string name = key then value else t.get key :=
  lookup_assign t.entries (Value.string name) value key

end LuaTable

/-!
## States
-/

/-- The tables by their addresses, and the metatable of each value. -/
structure LuaState where
  tables : Nat -> LuaTable
  metatable : Value -> Option Nat

namespace LuaState

def setString (L : LuaState) (t : Nat) (name : List UInt8) (value : Value) :
    LuaState :=
  { L with tables := fun a =>
      if a = t then (L.tables t).setString name value else L.tables a }

/-- The metamethod of a value, nil if there is none. -/
def metamethod (L : LuaState) (v : Value) (event : List UInt8) : Value :=
  match L.metatable v with
  | none => Value.nil
  | some m => (L.tables m).get (Value.string event)

/-- The element `i` of a table. -/
def rawgeti (L : LuaState) (t : Nat) (i : Int) : Value :=
  (L.tables t).get (integer i)

def objlen (L : LuaState) (t : Nat) : Nat := (L.tables t).length

def next (L : LuaState) (t : Nat) (key : Value) :
    Except Value (Option (Value × Value)) :=
  match (L.tables t).next key with
  | some e => Except.ok e
  | none => Except.error (Value.string (ascii "invalid key to 'next'"))

end LuaState

end Lua
end LuaSandbox
