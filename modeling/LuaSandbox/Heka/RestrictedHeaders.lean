import LuaSandbox.Heka.EncodeDecodes
import LuaSandbox.Foundation.DoubleInt

/-!
# Restricted headers

The headers that the sandbox sets in the table of a plugin are read back from
the table; a metatable may answer with something else.
-/

namespace LuaSandbox
namespace Heka

open Foundation
open Lua
open Util
open Core

/-- The decoded headers are those of the configuration. -/
structure Configured (mem : Memory) (cfg : HekaConfig) (hm : HekaMessage) :
    Prop where
  logger : HoldsText mem hm.logger cfg.name
  hostname : HoldsText mem hm.hostname cfg.hostname
  pid : hm.pid = cfg.pid

/-- The table answers with the headers of the configuration. -/
structure AnswersConfigured (cfg : HekaConfig) (m : MessageContent) :
    Prop where
  logger : m.logger = cfg.name
  hostname : m.hostname = cfg.hostname
  pid : readInt intMin m.pid = cfg.pid

theorem holdsText_eq {mem : Memory} {v : ConstString}
    {s t : Option (List UInt8)} (h : HoldsText mem v s) :
    HoldsText mem v t <-> s = t := by
  refine ⟨fun ht => ?_, fun hst => hst ▸ h⟩
  cases s with
  | none =>
      cases t with
      | none => rfl
      | some t =>
          have hnull : v = ConstString.init := h
          rw [hnull] at ht
          exact absurd rfl ht.1
  | some s =>
      cases t with
      | none =>
          have hnull : v = ConstString.init := ht
          rw [hnull] at h
          exact absurd rfl h.1
      | some t => rw [← h.2, ht.2]

theorem configured_iff {mem : Memory} {cfg : HekaConfig} {hm : HekaMessage}
    {m : MessageContent} (h : HoldsMessage mem hm m) :
    Configured mem cfg hm <-> AnswersConfigured cfg m := by
  constructor
  · intro hcfg
    refine ⟨(holdsText_eq h.logger).mp hcfg.logger,
      (holdsText_eq h.hostname).mp hcfg.hostname, ?_⟩
    rw [← h.pid]
    exact hcfg.pid
  · intro hcfg
    refine ⟨(holdsText_eq h.logger).mpr hcfg.logger,
      (holdsText_eq h.hostname).mpr hcfg.hostname, ?_⟩
    rw [h.pid]
    exact hcfg.pid

section

variable {env : EncodeEnv} {cfg : HekaConfig} {L L' : LuaState} {a : Nat}
  {name : String} {v : Value}

theorem plain_setString (h : L.Plain) (a : Nat) (name : List UInt8)
    (v : Value) : (L.setString a name v).Plain :=
  h

theorem setsField_plain (h : L.Plain)
    (hset : SetsField env L (Value.table a) name v L') :
    L' = L.setString a (ascii name) v := by
  have hrun := hset (lsbInitOutputBuffer (fun _ => 0) 0)
  rw [luaSetfield_plain h] at hrun
  cases hrun
  rfl

theorem getsField_plain (h : L.Plain)
    (hget : GetsField env L (Value.table a) name v L') :
    v = (L.tables a).get (Value.string (ascii name)) ∧ L' = L := by
  have hrun := hget (lsbInitOutputBuffer (fun _ => 0) 0)
  rw [luaGetfield_plain h] at hrun
  cases hrun
  exact ⟨rfl, rfl⟩

theorem get_set_same (L : LuaState) (a : Nat) (name : List UInt8)
    (v : Value) :
    ((L.setString a name v).tables a).get (Value.string name) = v := by
  change (if a = a then (L.tables a).setString name v
    else L.tables a).get (Value.string name) = v
  rw [if_pos rfl, LuaTable.get_setString, if_pos rfl]

theorem get_set_other (L : LuaState) (a : Nat) {name name' : List UInt8}
    (v : Value) (hne : name ≠ name') :
    ((L.setString a name v).tables a).get (Value.string name') =
      (L.tables a).get (Value.string name') := by
  change (if a = a then (L.tables a).setString name v
    else L.tables a).get (Value.string name') = _
  rw [if_pos rfl, LuaTable.get_setString,
    if_neg (fun h => hne (Value.string.inj h))]

theorem tostring_stringOrNil (fmt : NumberFormat) (s : Option (List UInt8)) :
    (stringOrNil s).tostring fmt = s := by
  cases s <;> rfl

theorem readInt_pid (cfg : HekaConfig) (fmt : NumberFormat) (i : Int) :
    readInt i (((integer cfg.pid).tonumber fmt).map
      (fun d => (d.toUnsigned : Int))) = cfg.pid := by
  have hrange := cfg.pid_range
  unfold intMin intMax at hrange
  change toInt (toLongLong (ofLongLong ((Double.ofInt cfg.pid).toUnsigned))) =
    cfg.pid
  rw [Double.toUnsigned_ofInt (by omega)]
  have hword : ofLongLong (ofLongLong cfg.pid) = ofLongLong cfg.pid := by
    unfold ofLongLong
    omega
  rw [hword, toLongLong_ofLongLong (by omega) (by omega)]
  exact toInt_of_range (by unfold intMin; omega) (by unfold intMax; omega)

/-- A table without a metatable answers with the configuration. -/
theorem answersConfigured_plain {below : Value} {m : MessageContent}
    (hcfg : cfg.restrictedHeaders = true) (hplain : L.Plain)
    (h : MessageReads env cfg below (Value.table a) L m L') :
    AnswersConfigured cfg m := by
  rcases h with ⟨uuid, L1, hprologue, _, L2, hheaders, _⟩
  generalize m.timestamp = ts at hprologue
  cases hprologue with
  | unrestricted hfalse =>
      rw [hcfg] at hfalse
      cases hfalse
  | restricted _ hlogger hhostname hpid =>
      cases setsField_plain hplain hlogger
      cases setsField_plain (plain_setString hplain _ _ _) hhostname
      cases setsField_plain
        (plain_setString (plain_setString hplain _ _ _) _ _ _) hpid
      generalize hset : ((L.setString a (ascii "Logger")
        (stringOrNil cfg.name)).setString a (ascii "Hostname")
          (stringOrNil cfg.hostname)).setString a (ascii "Pid")
            (integer cfg.pid) = K at hheaders
      have hK : K.Plain := by
        rw [← hset]
        exact hplain
      have hlogger' : (K.tables a).get (Value.string (ascii "Logger")) =
          stringOrNil cfg.name := by
        rw [← hset, get_set_other _ _ _ (by decide),
          get_set_other _ _ _ (by decide), get_set_same]
      have hhostname' : (K.tables a).get (Value.string (ascii "Hostname")) =
          stringOrNil cfg.hostname := by
        rw [← hset, get_set_other _ _ _ (by decide), get_set_same]
      have hpid' : (K.tables a).get (Value.string (ascii "Pid")) =
          integer cfg.pid := by
        rw [← hset, get_set_same]
      rcases hheaders with ⟨K1, K2, K3, K4, K5, K6, ⟨_, h1, _⟩,
        ⟨_, h2, hread2⟩, ⟨_, h3, _⟩, ⟨_, h4, _⟩, ⟨_, h5, _⟩,
        ⟨_, h6, hread6⟩, ⟨_, h7, hread7⟩⟩
      cases (getsField_plain hK h1).2
      cases (getsField_plain hK h2).2
      cases (getsField_plain hK h3).2
      cases (getsField_plain hK h4).2
      cases (getsField_plain hK h5).2
      cases (getsField_plain hK h6).2
      rw [(getsField_plain hK h2).1, hlogger', tostring_stringOrNil] at hread2
      rw [(getsField_plain hK h7).1, hhostname', tostring_stringOrNil]
        at hread7
      rw [(getsField_plain hK h6).1, hpid'] at hread6
      refine ⟨hread2.symm, hread7.symm, ?_⟩
      rw [← hread6]
      exact readInt_pid cfg env.fmt intMin

end

/-!
A table whose metatable takes the headers that are set and answers with others.
-/

def spoofedConfig : HekaConfig :=
  ⟨some (ascii "l"), some (ascii "h"), 1, true, pid_range_one⟩

/-- Table 0 is the message, table 1 its metatable. -/
def spoofedState : LuaState where
  tables
    | 1 => (LuaTable.empty.setString (ascii "__newindex")
        (Value.table 2)).setString (ascii "__index") (Value.table 3)
    | 3 => LuaTable.empty.setString (ascii "Logger")
        (Value.string (ascii "x"))
    | _ => LuaTable.empty
  metatable v := if v = Value.table 0 then some 1 else none

def sampleStart (L : LuaState) : EncState :=
  EncState.start L (lsbInitOutputBuffer (fun _ => 0) 0) (fun _ => true) []

theorem noFunctions_quiet : noFunctions.Quiet :=
  fun _ _ L => ⟨_, L, fun _ => rfl⟩

end Heka
end LuaSandbox
