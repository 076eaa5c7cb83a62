import LuaSandbox.Core.PreserveOrder

/-!
# Restoration of the global data

What the lines of a state file do to the tables of another Lua state.
-/

namespace LuaSandbox
namespace Core

open Foundation Lua

/-!
## The assignments
-/

/-- The Lua state that is restored, in which the tables have no metamethods;
the next new table has the address `fresh`. -/
structure Restoring where
  fresh : Nat
  tables : Nat -> RawTable
  /-- a table made by `{nil}`: an array without elements -/
  arrays : Nat -> Bool
  globals : Nat
  globals_lt : globals < fresh

inductive RunError where
  | attemptToIndex (v : Value)
  | badIndex (key : Value)
  /-- in the code of a userdata -/
  | code (message : List UInt8)
  deriving DecidableEq

namespace Restoring

variable (L : Restoring)

def newtable (array : Bool) : Restoring where
  fresh := L.fresh + 1
  tables := fun x => if x = L.fresh then RawTable.empty else L.tables x
  arrays := fun x => if x = L.fresh then array else L.arrays x
  globals := L.globals
  globals_lt := Nat.lt_succ_of_lt L.globals_lt

def update (t : Nat) (f : RawTable -> RawTable) : Restoring :=
  { L with tables := fun x => if x = t then f (L.tables t) else L.tables x }

def getglobal (name : List UInt8) : Value :=
  (L.tables L.globals).rawget (Value.string name)

def gettable (v key : Value) : Except RunError Value :=
  match v with
  | Value.table t => Except.ok ((L.tables t).rawget key)
  | _ => Except.error (RunError.attemptToIndex v)

def settable (v key value : Value) : Except RunError Restoring :=
  match v with
  | Value.table t =>
      if h : IsTableKey key then
        Except.ok (L.update t (fun T => T.rawset key value h))
      else
        Except.error (RunError.badIndex key)
  | _ => Except.error (RunError.attemptToIndex v)

/-- `_G[k]` and so on, for the keys of a path. -/
def evalPath (path : List Value) : Except RunError Value :=
  path.foldlM L.gettable (L.getglobal (ascii "_G"))

/-- The value of a right side, and the state with its new table. -/
def evalRhs (rhs : Rhs) : Except RunError (Value × Restoring) :=
  match rhs with
  | Rhs.emptyTable =>
      Except.ok (Value.table L.fresh, L.newtable false)
  | Rhs.emptyArray =>
      Except.ok (Value.table L.fresh, L.newtable true)
  | Rhs.reference path => (L.evalPath path).map (fun v => (v, L))
  | Rhs.scalar v => Except.ok (v, L)

/-- Run a line.  What the code of a userdata does is `call`. -/
def runLine (call : List UInt8 -> Restoring -> Except RunError Restoring)
    (line : Line) : Except RunError Restoring :=
  match line with
  | Line.assign path key rhs => do
      let parent <- L.evalPath path
      let r <- L.evalRhs rhs
      r.2.settable parent key r.1
  | Line.code text => call text L

end Restoring

def runLines (call : List UInt8 -> Restoring -> Except RunError Restoring)
    (lines : List Line) (L : Restoring) : Except RunError Restoring :=
  lines.foldlM (fun L line => L.runLine call line) L

/-- The data are those of another version. -/
def OtherVersion (L : Restoring) (version : Value) : Prop :=
  (L.getglobal preservationVersion).toboolean = true ∧
    rawequal (L.getglobal preservationVersion) version = false

instance (L : Restoring) (version : Value) :
    Decidable (OtherVersion L version) :=
  inferInstanceAs (Decidable (_ ∧ _))

/-- The first line, and the others. -/
def runStateFile (call : List UInt8 -> Restoring -> Except RunError Restoring)
    (version : Value) (lines : List Line) (L : Restoring) :
    Except RunError Restoring :=
  if OtherVersion L version then Except.ok L else runLines call lines L

/-!
## Lines as they are read

The literals of a line are read as values; `read` is the value for what was
written for another one.
-/

def Rhs.map (read : Value -> Value) : Rhs -> Rhs
  | emptyTable => emptyTable
  | emptyArray => emptyArray
  | reference path => reference (path.map read)
  | scalar v => scalar (read v)

def Line.map (read : Value -> Value) : Line -> Line
  | assign path key rhs => assign (path.map read) (read key) (rhs.map read)
  | code text => code text

/-- A value and what stands for it in the restored state: numbers are equal, and
what is not a number stays so. -/
inductive Copies (phi : Nat -> Nat) : Value -> Value -> Prop where
  | string (s : List UInt8) : Copies phi (Value.string s) (Value.string s)
  | boolean (b : Bool) : Copies phi (Value.boolean b) (Value.boolean b)
  | number {a b : Double} (h : a.value = b.value) :
      Copies phi (Value.number a) (Value.number b)
  | table (t : Nat) : Copies phi (Value.table t) (Value.table (phi t))

/-- The value is read back from what is written for it. -/
def ReadsBack (read : Value -> Value) (v : Value) : Prop :=
  IsScalar v -> Copies id v (read v)

section

variable {phi psi : Nat -> Nat} {v w : Value}

theorem Copies.congr (h : Copies phi v w)
    (hsame : forall t, v = Value.table t -> phi t = psi t) :
    Copies psi v w := by
  cases h with
  | string s => exact Copies.string s
  | boolean b => exact Copies.boolean b
  | number h => exact Copies.number h
  | table t =>
      rw [hsame t rfl]
      exact Copies.table t

theorem Copies.ne_nil (h : Copies phi v w) : w ≠ Value.nil := by
  rintro rfl
  cases h

/-- A scalar that is a key is equal to its copy. -/
theorem Copies.rawequal (h : Copies phi v w) (hv : IsScalar v)
    (hkey : IsTableKey v) : Lua.rawequal v w = true := by
  cases h with
  | string s => exact hkey.2
  | boolean b => exact hkey.2
  | number hvalue =>
      rename_i a b
      have hself := hkey.2
      rw [rawequal_number] at hself ⊢
      rcases hself with ⟨_, _, _, hnan⟩
      exact ⟨b, rfl, hvalue, hnan⟩
  | table t => exact absurd hv (not_isScalar_table t)

theorem isTableKey_of_rawequal (h : Lua.rawequal v w = true)
    (hv : IsTableKey v) : IsTableKey w := by
  constructor
  · rintro rfl
    rw [rawequal_comm] at h
    exact hv.1 ((rawequal_of_ne_number (by decide)).mp h).symm
  · have hback := h
    rw [rawequal_comm] at hback
    exact rawequal_trans hback h

end

end Core
end LuaSandbox
