import LuaSandbox.Core.ConfigEqual
import LuaSandbox.Foundation.Computation
import LuaSandbox.Lua.Access

/-!
# Loading modules

A sandbox starts without libraries.  `require` opens them by their preloaded
functions, one entry after the other, and takes the entries that the
configuration restricts out again; modules that are disabled are not opened.
-/

namespace LuaSandbox
namespace Core

open Foundation Lua

/-!
## The state
-/

/-- What a function of `preload_module_list` registers, and under which
name. -/
structure Library where
  register : List UInt8
  functions : List (List UInt8 × Nat)

structure ModuleState where
  sb : SandboxTables
  metatable : Nat -> Option Nat
  /-- The values that functions of the plugin were called with or keep. -/
  given : List Value
  /-- The allocations up to the one that the memory limit refuses. -/
  room : Nat

/-- What ends a call; a metamethod may keep a loop going for ever. -/
inductive ModuleStop where
  | error (v : Value)
  | fuel
  deriving DecidableEq

abbrev ModuleCall (α : Type) : Type := Computation ModuleStop ModuleState α

/-- The tables that the registry and the threads of Lua hold, the libraries,
and what the functions of the plugin do when they are metamethods. -/
structure ModuleEnv where
  globals : Nat
  loaded : Nat
  config : Nat
  sentinel : Nat
  preloaded : List UInt8 -> Option Library
  call : Value -> List Value -> ModuleState -> CallResult × ModuleState

namespace ModuleState

variable (st : ModuleState)

def tables (t : Nat) : RawTable := st.sb.tables t

def rawget (t : Nat) (key : Value) : Value := (st.tables t).rawget key

def assign (t : Nat) (key value : Value) : ModuleState :=
  if h : IsTableKey key then
    { st with sb := st.sb.update t (fun T => T.rawset key value h) }
  else
    st

def setRoom (n : Nat) : ModuleState := { st with room := n }

def addTable : ModuleState := { st with sb := st.sb.newtable }

def setMetatable (t : Nat) (m : Option Nat) : ModuleState :=
  { st with metatable := fun x => if x = t then m else st.metatable x }

def give (values : List Value) : ModuleState :=
  { st with given := values ++ st.given }

/-- Only tables have metatables here. -/
def metamethod (v : Value) (event : String) : Value :=
  match v with
  | Value.table t =>
      match st.metatable t with
      | some m => st.rawget m (luaString event)
      | none => Value.nil
  | _ => Value.nil

end ModuleState

/-!
## Accesses
-/

def luaFailure (text : List UInt8) : ModuleStop :=
  ModuleStop.error (Value.string text)

def outOfMemory : ModuleStop := luaFailure (ascii "not enough memory")

def look {α : Type} (f : ModuleState -> α) : ModuleCall α :=
  Computation.ofFun (fun st => (Except.ok (f st), st))

def change (f : ModuleState -> ModuleState) : ModuleCall Unit :=
  Computation.ofFun (fun st => (Except.ok (), f st))

/-- The first allocation that is refused ends the call. -/
def allocate : ModuleCall Unit :=
  Computation.ofFun (fun st =>
    match st.room with
    | 0 => (Except.error outOfMemory, st)
    | n + 1 => (Except.ok (), st.setRoom n))

def luaNewtable : ModuleCall Nat := do
  allocate
  let t <- look (fun st => st.sb.fresh)
  change ModuleState.addTable
  pure t

section

variable (env : ModuleEnv)

def callFunction (f : Value) (args : List Value) : ModuleCall Value :=
  Computation.ofFun (fun st =>
    match env.call f args (st.give args) with
    | (CallResult.error v, st') => (Except.error (ModuleStop.error v), st')
    | (CallResult.returned values, st') =>
        (Except.ok (values.headD Value.nil), st'))

/-- `luaV_gettable` -/
def getEntry (key : Value) : Nat -> Value -> ModuleCall Value
  | 0, _ => throw (luaFailure (ascii "loop in gettable"))
  | n + 1, v =>
      Computation.ofFun (fun st =>
        let res :=
          match v with
          | Value.table t => st.rawget t key
          | _ => Value.nil
        let tm := st.metamethod v "__index"
        if res ≠ Value.nil then (Except.ok res, st)
        else if tm = Value.nil then
          if v.type = LuaType.table then (Except.ok Value.nil, st)
          else (Except.error (ModuleStop.error (indexError v)), st)
        else if tm.type = LuaType.function then
          (callFunction env tm [v, key]).run st
        else
          (getEntry key n tm).run st)

def getfield (v : Value) (name : List UInt8) : ModuleCall Value :=
  getEntry env (Value.string name) maxTagLoop v

/-- `luaH_set` finds the entry of a key, or makes one. -/
def findEntry (v key : Value) : ModuleCall Unit :=
  Computation.ofFun (fun st =>
    match v with
    | Value.table t =>
        if key = Value.nil then
          (Except.error (luaFailure (ascii "table index is nil")), st)
        else if rawequal key key = false then
          (Except.error (luaFailure (ascii "table index is NaN")), st)
        else if st.rawget t key = Value.nil then allocate.run st
        else (Except.ok (), st)
    | _ => (Except.ok (), st))

/-- `luaV_settable` -/
def setEntry (key value : Value) : Nat -> Value -> ModuleCall Unit
  | 0, _ => throw (luaFailure (ascii "loop in settable"))
  | n + 1, v => do
      findEntry v key
      Computation.ofFun (fun st =>
        let tm := st.metamethod v "__newindex"
        let other :=
          if tm.type = LuaType.function then
            (do let _ <- callFunction env tm [v, key, value]).run st
          else
            (setEntry key value n tm).run st
        match v with
        | Value.table t =>
            if st.rawget t key ≠ Value.nil ∨ tm = Value.nil then
              (Except.ok (), st.assign t key value)
            else other
        | _ =>
            if tm = Value.nil then
              (Except.error (ModuleStop.error (indexError v)), st)
            else other)

def setfield (v : Value) (name : List UInt8) (value : Value) :
    ModuleCall Unit :=
  setEntry env (Value.string name) value maxTagLoop v

end

def rawseti (t : Nat) (i : Int) (value : Value) : ModuleCall Unit := do
  findEntry (Value.table t) (integer (toInt i))
  change (fun st => st.assign t (integer (toInt i)) value)

/-!
## Opening a library
-/

section

variable (env : ModuleEnv)

/-- `luaL_findtable` in the table `t`, with the parts of the name. -/
def findtable (name : List UInt8) : List (List UInt8) -> Nat -> ModuleCall Nat
  | [], t => pure t
  | part :: rest, t => do
      let v <- look (fun st => st.rawget t (Value.string part))
      match v with
      | Value.nil => do
          let u <- luaNewtable
          setEntry env (Value.string part) (Value.table u) maxTagLoop
            (Value.table t)
          findtable name rest u
      | Value.table u => findtable name rest u
      | _ =>
          throw (luaFailure (ascii "name conflict for module '" ++ name ++
            ascii "'"))

def registerFunctions (t : Nat) :
    List (List UInt8 × Nat) -> ModuleCall Unit
  | [] => pure ()
  | (name, f) :: rest => do
      -- `lua_pushcclosure`
      allocate
      setfield env (Value.table t) name (Value.cfunction f)
      registerFunctions t rest

/-- `luaI_openlib`; the base library names the table of the globals first. -/
def openLibrary (lib : Library) : ModuleCall Nat := do
  if lib.register = ascii "_G" then
    setfield env (Value.table env.globals) (ascii "_G")
      (Value.table env.globals)
  let v <- getfield env (Value.table env.loaded) lib.register
  let t <- match v with
    | Value.table t => pure t
    | _ => do
        let t <- findtable env lib.register
          (lib.register.splitOn 46) env.globals
        setfield env (Value.table env.loaded) lib.register (Value.table t)
        pure t
  registerFunctions env t lib.functions
  pure t

/-- An empty metatable flags the table as one that is not preserved. -/
def addEmptyMetatable (t : Nat) : ModuleCall Unit := do
  let m <- look (fun st => st.metatable t)
  match m with
  | some _ => pure ()
  | none => do
      let m <- luaNewtable
      change (fun st => st.setMetatable t (some m))

/-- The list at `l` up to its first nil; what it names is taken out of `v`. -/
def removeLoop (l : Nat) (v : Value) : Nat -> Int -> ModuleCall Unit
  | 0, _ => throw ModuleStop.fuel
  | fuel + 1, n => do
      let x <- look (fun st => st.rawget l (integer (toInt n)))
      if x = Value.nil then
        pure ()
      else do
        setEntry env x Value.nil maxTagLoop v
        removeLoop l v fuel (n + 1)

def removeEntries (fuel : Nat) (name : List UInt8) (v : Value) :
    ModuleCall Unit := do
  let r <- getfield env (Value.table env.config) (ascii "remove_entries")
  if r.type ≠ LuaType.table then
    pure ()
  else do
    let l <- getfield env r name
    match l with
    | Value.table l => removeLoop env l v fuel 1
    | _ => pure ()

def isDisabled (name : List UInt8) : ModuleCall Bool := do
  let d <- getfield env (Value.table env.config) (ascii "disable_modules")
  if d.type ≠ LuaType.table then
    pure false
  else do
    let v <- getfield env d name
    pure (decide (v ≠ Value.nil))

def moduleError (before name after : List UInt8) : ModuleStop :=
  luaFailure (before ++ ascii "'" ++ name ++ ascii "'" ++ after)

/-- `ll_require` with the loader of preloaded functions, which give a table;
the name is a C string. -/
def require (fuel : Nat) (name : List UInt8) : ModuleCall Value := do
  let disabled <- isDisabled env name
  if disabled then
    throw (moduleError (ascii "module ") name (ascii " disabled"))
  let v <- getfield env (Value.table env.loaded) name
  if v.toboolean then
    if v = Value.lightuserdata env.sentinel then
      throw (moduleError (ascii "loop or previous error loading module ") name
        [])
    else
      pure v
  else
    match env.preloaded name with
    | none => throw (moduleError (ascii "module ") name (ascii " not found:"))
    | some lib => do
        setfield env (Value.table env.loaded) name
          (Value.lightuserdata env.sentinel)
        let t <- openLibrary env lib
        setfield env (Value.table env.loaded) name (Value.table t)
        addEmptyMetatable t
        removeEntries env fuel name (Value.table t)
        pure (Value.table t)

end

end Core
end LuaSandbox
