import LuaSandbox.Lua.Table
import LuaSandbox.Util.OutputBuffer

/-!
# Table accesses

The accesses that call the metamethods of a plugin.  A Lua function may change
the state and, through the functions of the sandbox, the output buffer.
-/

namespace LuaSandbox
namespace Lua

open Foundation
open Util

/-- The Lua functions of a plugin, and the output functions of its userdata
values, which give a text or an error code.  The output limit does not
change. -/
structure Plugin where
  call : Value -> List Value -> LuaState -> OutputBuffer ->
    CallResult × LuaState × OutputBuffer
  output : LuaState -> Value -> Option (Except Int (List UInt8))
  call_maxsize : forall tm args L ob,
    (call tm args L ob).2.2.maxsize = ob.maxsize

/-- What an access leaves: the error or the value, the state and the buffer. -/
abbrev Accessed (α : Type) : Type := Except Value α × LuaState × OutputBuffer

def maxTagLoop : Nat := 100

def luaString (s : String) : Value := Value.string (ascii s)

/-- `luaG_typeerror` for an index operation. -/
def indexError (v : Value) : Value :=
  luaString ("attempt to index a " ++ typename v.type ++ " value")

def callMetamethod (P : Plugin) (tm : Value) (args : List Value)
    (L : LuaState) (ob : OutputBuffer) : Accessed Value :=
  match P.call tm args L ob with
  | (CallResult.error v, L, ob) => (Except.error v, L, ob)
  | (CallResult.returned values, L, ob) =>
      (Except.ok (values.headD Value.nil), L, ob)

def gettable (P : Plugin) (key : Value) (L : LuaState) (ob : OutputBuffer) :
    Nat -> Value -> Accessed Value
  | 0, _ => (Except.error (luaString "loop in gettable"), L, ob)
  | n + 1, t =>
      let res :=
        match t with
        | Value.table a => (L.tables a).get key
        | _ => Value.nil
      let tm := L.metamethod t (ascii "__index")
      if res ≠ Value.nil then
        (Except.ok res, L, ob)
      else if tm = Value.nil then
        if t.type = LuaType.table then (Except.ok Value.nil, L, ob)
        else (Except.error (indexError t), L, ob)
      else if tm.type = LuaType.function then
        callMetamethod P tm [t, key] L ob
      else
        gettable P key L ob n tm

/-- Get the field of a value. -/
def luaGetfield (P : Plugin) (t : Value) (name : List UInt8) (L : LuaState)
    (ob : OutputBuffer) : Accessed Value :=
  gettable P (Value.string name) L ob maxTagLoop t

def settable (P : Plugin) (name : List UInt8) (value : Value)
    (L : LuaState) (ob : OutputBuffer) : Nat -> Value -> Accessed Unit
  | 0, _ => (Except.error (luaString "loop in settable"), L, ob)
  | n + 1, t =>
      let key := Value.string name
      let tm := L.metamethod t (ascii "__newindex")
      let other :=
        if tm.type = LuaType.function then
          match callMetamethod P tm [t, key, value] L ob with
          | (Except.error v, L, ob) => (Except.error v, L, ob)
          | (Except.ok _, L, ob) => (Except.ok (), L, ob)
        else
          settable P name value L ob n tm
      match t with
      | Value.table a =>
          if (L.tables a).get key ≠ Value.nil ∨ tm = Value.nil then
            (Except.ok (), L.setString a name value, ob)
          else
            -- the key is created before the metamethod runs
            other
      | _ =>
          if tm = Value.nil then (Except.error (indexError t), L, ob)
          else other

/-- Set the field of a value. -/
def luaSetfield (P : Plugin) (t : Value) (name : List UInt8) (value : Value)
    (L : LuaState) (ob : OutputBuffer) : Accessed Unit :=
  settable P name value L ob maxTagLoop t

/-!
## The output limit
-/

theorem maxsize_ite {α : Type} {p : Prop} [Decidable p] {x y : Accessed α}
    {n : Nat} (hx : x.2.2.maxsize = n) (hy : y.2.2.maxsize = n) :
    (if p then x else y).2.2.maxsize = n := by
  split
  · exact hx
  · exact hy

theorem callMetamethod_maxsize (P : Plugin) (tm : Value) (args : List Value)
    (L : LuaState) (ob : OutputBuffer) :
    (callMetamethod P tm args L ob).2.2.maxsize = ob.maxsize := by
  have hcall := P.call_maxsize tm args L ob
  unfold callMetamethod
  split
  · rename_i hres
    rw [hres] at hcall
    exact hcall
  · rename_i hres
    rw [hres] at hcall
    exact hcall

theorem gettable_maxsize (P : Plugin) (key : Value) (L : LuaState)
    (ob : OutputBuffer) (n : Nat) :
    forall t, (gettable P key L ob n t).2.2.maxsize = ob.maxsize := by
  induction n with
  | zero =>
      intro t
      rfl
  | succ n ih =>
      intro t
      unfold gettable
      apply maxsize_ite
      · rfl
      apply maxsize_ite
      · exact maxsize_ite rfl rfl
      · exact maxsize_ite (callMetamethod_maxsize P _ _ L ob) (ih _)

theorem luaGetfield_maxsize (P : Plugin) (t : Value) (name : List UInt8)
    (L : LuaState) (ob : OutputBuffer) :
    (luaGetfield P t name L ob).2.2.maxsize = ob.maxsize :=
  gettable_maxsize P _ L ob _ t

/-!
## Accesses that leave the buffer alone
-/

/-- An access neither writes nor reads the output buffer. -/
def Undisturbed {β : Type} (f : OutputBuffer -> β × LuaState × OutputBuffer) :
    Prop :=
  exists r L', forall ob, f ob = (r, L', ob)

/-- The Lua functions of a plugin leave the output buffer alone. -/
def Plugin.Quiet (P : Plugin) : Prop :=
  forall tm args L, Undisturbed (P.call tm args L)

theorem undisturbed_const {β : Type} (r : β) (L : LuaState) :
    Undisturbed (fun ob => (r, L, ob)) :=
  ⟨r, L, fun _ => rfl⟩

theorem undisturbed_ite {β : Type} {p : Prop} [Decidable p]
    {f g : OutputBuffer -> β × LuaState × OutputBuffer}
    (hf : Undisturbed f) (hg : Undisturbed g) :
    Undisturbed (fun ob => if p then f ob else g ob) := by
  by_cases hp : p
  · simp only [if_pos hp]
    exact hf
  · simp only [if_neg hp]
    exact hg

section

variable {P : Plugin} (hquiet : P.Quiet)

include hquiet

theorem callMetamethod_quiet (tm : Value) (args : List Value)
    (L : LuaState) : Undisturbed (callMetamethod P tm args L) := by
  rcases hquiet tm args L with ⟨r, L', hcall⟩
  cases r with
  | error v =>
      refine ⟨Except.error v, L', fun ob => ?_⟩
      unfold callMetamethod
      rw [hcall]
  | returned values =>
      refine ⟨Except.ok (values.headD Value.nil), L', fun ob => ?_⟩
      unfold callMetamethod
      rw [hcall]

theorem gettable_quiet (key : Value) (L : LuaState) (n : Nat) :
    forall t, Undisturbed (fun ob => gettable P key L ob n t) := by
  induction n with
  | zero =>
      intro t
      exact undisturbed_const _ L
  | succ n ih =>
      intro t
      unfold gettable
      apply undisturbed_ite
      · exact undisturbed_const _ L
      apply undisturbed_ite
      · exact undisturbed_ite (undisturbed_const _ L) (undisturbed_const _ L)
      · exact undisturbed_ite (callMetamethod_quiet hquiet _ _ L) (ih _)

theorem luaGetfield_quiet (t : Value) (name : List UInt8) (L : LuaState) :
    Undisturbed (luaGetfield P t name L) :=
  gettable_quiet hquiet _ L _ t

theorem setMetamethod_quiet (tm : Value) (args : List Value)
    (L : LuaState) :
    Undisturbed (fun ob =>
      match callMetamethod P tm args L ob with
      | (Except.error v, L, ob) => (Except.error v, L, ob)
      | (Except.ok _, L, ob) => ((Except.ok () : Except Value Unit), L, ob)) := by
  rcases callMetamethod_quiet hquiet tm args L with ⟨r, L', hcall⟩
  simp only [hcall]
  cases r with
  | error v => exact undisturbed_const _ L'
  | ok v => exact undisturbed_const _ L'

theorem settable_quiet (name : List UInt8) (value : Value) (L : LuaState)
    (n : Nat) :
    forall t, Undisturbed (fun ob => settable P name value L ob n t) := by
  induction n with
  | zero =>
      intro t
      exact undisturbed_const _ L
  | succ n ih =>
      intro t
      have hother := undisturbed_ite
        (p := (L.metamethod t (ascii "__newindex")).type = LuaType.function)
        (setMetamethod_quiet hquiet (L.metamethod t (ascii "__newindex"))
          [t, Value.string name, value] L)
        (ih (L.metamethod t (ascii "__newindex")))
      unfold settable
      cases t with
      | table a => exact undisturbed_ite (undisturbed_const _ _) hother
      | nil | boolean | lightuserdata | number | string | function
      | cfunction | userdata | thread =>
          exact undisturbed_ite (undisturbed_const _ _) hother

theorem luaSetfield_quiet (t : Value) (name : List UInt8) (value : Value)
    (L : LuaState) : Undisturbed (luaSetfield P t name value L) :=
  settable_quiet hquiet _ _ L _ t

end

/-!
## Accesses without metamethods
-/

/-- No access to a table calls a metamethod. -/
def LuaState.Plain (L : LuaState) : Prop :=
  forall t, L.metatable (Value.table t) = none

section

variable {P : Plugin} {L : LuaState} {ob : OutputBuffer} {t : Nat}
  {name : List UInt8}

theorem luaGetfield_plain (h : L.Plain) :
    luaGetfield P (Value.table t) name L ob =
      (Except.ok ((L.tables t).get (Value.string name)), L, ob) := by
  have htm : L.metamethod (Value.table t) (ascii "__index") = Value.nil := by
    unfold LuaState.metamethod
    rw [h t]
  unfold luaGetfield maxTagLoop gettable
  dsimp only
  rw [htm]
  split
  · rfl
  · rename_i hnil
    rw [if_pos rfl, not_not.mp hnil]
    rfl

theorem luaSetfield_plain {value : Value} (h : L.Plain) :
    luaSetfield P (Value.table t) name value L ob =
      (Except.ok (), L.setString t name value, ob) := by
  have htm : L.metamethod (Value.table t) (ascii "__newindex") =
      Value.nil := by
    unfold LuaState.metamethod
    rw [h t]
  unfold luaSetfield maxTagLoop settable
  dsimp only
  rw [if_pos (Or.inr htm)]

end

end Lua
end LuaSandbox
