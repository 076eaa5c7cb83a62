import LuaSandbox.Heka.MessageEncodes
import LuaSandbox.Lua.NewTable

/-!
# Message tables without a metatable

What a message table says is what its fields say, if no access to it runs Lua
code.
-/

namespace LuaSandbox
namespace Heka

open Foundation
open Lua
open Util
open Core

/-- A field of a table. -/
def fieldOf (L : LuaState) (a : Nat) (name : String) : Value :=
  (L.tables a).get (Value.string (ascii name))

section

variable (env : EncodeEnv) {cfg : HekaConfig} {L K : LuaState} {a b : Nat}

theorem getsField_bare (h : L.Bare a) (name : String) :
    GetsField env L (Value.table a) name (fieldOf L a name) L :=
  fun _ => LuaState.luaGetfield_bare h

theorem setsField_bare (h : L.Bare a) (name : String) (v : Value) :
    SetsField env L (Value.table a) name v
      (L.setString a (ascii name) v) :=
  fun _ => LuaState.luaSetfield_bare h

/-!
## Headers that are set
-/

/-- The value of a header behind the prologue: the own one, or the one of the
table if the headers are not restricted. -/
def headerValue (cfg : HekaConfig) (old own : Value) : Value :=
  if cfg.restrictedHeaders = true ∨ old = Value.nil then own else old

def setHeader (cfg : HekaConfig) (L : LuaState) (a : Nat) (name : String)
    (own : Value) : LuaState :=
  if cfg.restrictedHeaders = true ∨
      fieldOf L a name = Value.nil ∧ own ≠ Value.nil then
    L.setString a (ascii name) own
  else
    L

/-- Setting a header leaves all else as it is. -/
structure HeaderSet (cfg : HekaConfig) (L K : LuaState) (a : Nat)
    (name : String) (own : Value) : Prop where
  metatable : K.metatable = L.metatable
  others : forall b, b ≠ a -> K.tables b = L.tables b
  value : fieldOf K a name = headerValue cfg (fieldOf L a name) own
  kept : forall other, ascii other ≠ ascii name ->
    fieldOf K a other = fieldOf L a other

theorem setHeader_set (cfg : HekaConfig) (L : LuaState) (a : Nat)
    (name : String) (own : Value) :
    HeaderSet cfg L (setHeader cfg L a name own) a name own := by
  have hsame : fieldOf (L.setString a (ascii name) own) a name = own := by
    unfold fieldOf
    rw [LuaState.tables_setString, LuaTable.get_setString, if_pos rfl]
  unfold setHeader
  split
  · rename_i hset
    refine ⟨rfl, fun b hb => LuaState.tables_setString_other hb, ?_,
      fun other hother => LuaState.get_setString_other hother⟩
    rw [hsame]
    exact (if_pos (hset.imp_right And.left)).symm
  · rename_i hset
    refine ⟨rfl, fun b _ => rfl, ?_, fun other _ => rfl⟩
    unfold headerValue
    split
    · rename_i hown
      rcases hown with hcfg | hnil
      · exact absurd (Or.inl hcfg) hset
      · rw [hnil]
        by_contra hne
        exact hset (Or.inr ⟨hnil, fun h => hne h.symm⟩)
    · rfl

theorem setsField_header (hcfg : cfg.restrictedHeaders = true)
    (h : L.Bare a) (name : String) (own : Value) :
    SetsField env L (Value.table a) name own
      (setHeader cfg L a name own) := by
  unfold setHeader
  rw [if_pos (Or.inl hcfg)]
  exact setsField_bare env h name own

theorem missingSet_header (hcfg : cfg.restrictedHeaders = false)
    (h : L.Bare a) (name : String) {value : Option Value}
    (hvalue : value ≠ some Value.nil) :
    MissingSet env (Value.table a) name L value
      (setHeader cfg L a name (value.getD Value.nil)) := by
  have hget := getsField_bare env h name
  have hfalse : ¬ cfg.restrictedHeaders = true := by
    rw [hcfg]
    exact Bool.false_ne_true
  unfold setHeader
  by_cases hnil : fieldOf L a name = Value.nil
  · rw [hnil] at hget
    cases value with
    | none =>
        rw [if_neg (fun hset => hset.elim hfalse (fun hown => hown.2 rfl))]
        exact MissingSet.unknown hget
    | some v =>
        have hown : v ≠ Value.nil := fun hv => hvalue (congrArg some hv)
        rw [if_pos (Or.inr ⟨hnil, hown⟩)]
        exact MissingSet.set hget (setsField_bare env h name v)
  · rw [if_neg (fun hset => hset.elim hfalse (fun hown => hnil hown.1))]
    exact MissingSet.there hget hnil

/-!
## The prologue
-/

/-- The state behind the prologue. -/
def prepared (cfg : HekaConfig) (L : LuaState) (a : Nat) : LuaState :=
  let L := setHeader cfg L a "Logger" (stringOrNil cfg.name)
  let L := setHeader cfg L a "Hostname" (stringOrNil cfg.hostname)
  setHeader cfg L a "Pid" (integer cfg.pid)

structure Prepared (cfg : HekaConfig) (L K : LuaState) (a : Nat) : Prop where
  metatable : K.metatable = L.metatable
  others : forall b, b ≠ a -> K.tables b = L.tables b
  logger : fieldOf K a "Logger" =
    headerValue cfg (fieldOf L a "Logger") (stringOrNil cfg.name)
  hostname : fieldOf K a "Hostname" =
    headerValue cfg (fieldOf L a "Hostname") (stringOrNil cfg.hostname)
  pid : fieldOf K a "Pid" =
    headerValue cfg (fieldOf L a "Pid") (integer cfg.pid)
  kept : forall other, ascii other ≠ ascii "Logger" ->
    ascii other ≠ ascii "Hostname" -> ascii other ≠ ascii "Pid" ->
      fieldOf K a other = fieldOf L a other

theorem prepared_spec (cfg : HekaConfig) (L : LuaState) (a : Nat) :
    Prepared cfg L (prepared cfg L a) a := by
  have h1 := setHeader_set cfg L a "Logger" (stringOrNil cfg.name)
  have h2 := setHeader_set cfg (setHeader cfg L a "Logger"
    (stringOrNil cfg.name)) a "Hostname" (stringOrNil cfg.hostname)
  have h3 := setHeader_set cfg (setHeader cfg (setHeader cfg L a "Logger"
    (stringOrNil cfg.name)) a "Hostname" (stringOrNil cfg.hostname)) a "Pid"
      (integer cfg.pid)
  change HeaderSet cfg _ (prepared cfg L a) a "Pid" _ at h3
  generalize prepared cfg L a = K at h3 ⊢
  generalize setHeader cfg (setHeader cfg L a "Logger"
    (stringOrNil cfg.name)) a "Hostname" (stringOrNil cfg.hostname) = L2
      at h2 h3
  generalize setHeader cfg L a "Logger" (stringOrNil cfg.name) = L1
    at h1 h2
  refine ⟨?_, ?_, ?_, ?_, ?_, ?_⟩
  · rw [h3.metatable, h2.metatable, h1.metatable]
  · intro b hb
    rw [h3.others b hb, h2.others b hb, h1.others b hb]
  · rw [h3.kept _ (by decide), h2.kept _ (by decide), h1.value]
  · rw [h3.kept _ (by decide), h2.value, h1.kept _ (by decide)]
  · rw [h3.value, h2.kept _ (by decide), h1.kept _ (by decide)]
  · intro other hlogger hhostname hpid
    rw [h3.kept _ hpid, h2.kept _ hhostname, h1.kept _ hlogger]

theorem Prepared.bare (h : Prepared cfg L K a) (hb : L.Bare b) :
    K.Bare b := by
  unfold LuaState.Bare
  rw [h.metatable]
  exact hb

theorem bare_setHeader (cfg : HekaConfig) (a : Nat) (name : String)
    (own : Value) (hb : L.Bare b) : (setHeader cfg L a name own).Bare b := by
  unfold LuaState.Bare
  rw [(setHeader_set cfg L a name own).metatable]
  exact hb

/-- The uuid and the timestamp that a table asks for. -/
def wantedUuid (env : EncodeEnv) (cfg : HekaConfig) (L : LuaState) (a : Nat) :
    Option (List UInt8) :=
  if cfg.restrictedHeaders then none
  else (fieldOf L a "Uuid").tostring env.fmt

def wantedTimestamp (env : EncodeEnv) (cfg : HekaConfig) (L : LuaState)
    (a : Nat) : Int :=
  if cfg.restrictedHeaders then env.now
  else timestampOf env (fieldOf L a "Timestamp")

theorem prologueReads_bare (h : L.Bare a) :
    PrologueReads env cfg (Value.table a) L (wantedUuid env cfg L a)
      (wantedTimestamp env cfg L a) (prepared cfg L a) := by
  unfold wantedUuid wantedTimestamp
  cases hcfg : cfg.restrictedHeaders with
  | true =>
      have h1 := bare_setHeader cfg a "Logger" (stringOrNil cfg.name) h
      have h2 := bare_setHeader cfg a "Hostname" (stringOrNil cfg.hostname)
        h1
      exact PrologueReads.restricted hcfg
        (setsField_header env hcfg h "Logger" _)
        (setsField_header env hcfg h1 "Hostname" _)
        (setsField_header env hcfg h2 "Pid" _)
  | false =>
      have hname : (cfg.name.map Value.string).getD Value.nil =
          stringOrNil cfg.name := by
        cases cfg.name <;> rfl
      have hhost : (cfg.hostname.map Value.string).getD Value.nil =
          stringOrNil cfg.hostname := by
        cases cfg.hostname <;> rfl
      have hsome : forall s : Option (List UInt8),
          s.map Value.string ≠ some Value.nil := by
        intro s
        cases s <;> nofun
      have hpid : some (integer cfg.pid) ≠ some Value.nil := nofun
      have h1 := bare_setHeader cfg a "Logger" (stringOrNil cfg.name) h
      have h2 := bare_setHeader cfg a "Hostname" (stringOrNil cfg.hostname)
        h1
      have hsetLogger := missingSet_header env hcfg h "Logger"
        (hsome cfg.name)
      have hsetHostname := missingSet_header env hcfg h1 "Hostname"
        (hsome cfg.hostname)
      rw [hname] at hsetLogger
      rw [hhost] at hsetHostname
      exact PrologueReads.unrestricted hcfg (getsField_bare env h "Uuid")
        (getsField_bare env h "Timestamp") hsetLogger hsetHostname
        (missingSet_header env hcfg h2 "Pid" hpid)

/-!
## The message
-/

def headerText (env : EncodeEnv) (L : LuaState) (a : Nat) (name : String) :
    Option (List UInt8) :=
  (fieldOf L a name).tostring env.fmt

def headerInt (env : EncodeEnv) (v : Value) : Option Int :=
  (v.tonumber env.fmt).map (fun d => (d.toUnsigned : Int))

/-- The message that a table says, with the given fields. -/
def tableContent (env : EncodeEnv) (cfg : HekaConfig) (L : LuaState)
    (a : Nat) (fields : List FieldContent) : MessageContent where
  uuid := uuidBytes env.random (wantedUuid env cfg L a)
  timestamp := wantedTimestamp env cfg L a
  type := headerText env L a "Type"
  logger := (headerValue cfg (fieldOf L a "Logger")
    (stringOrNil cfg.name)).tostring env.fmt
  severity := headerInt env (fieldOf L a "Severity")
  payload := headerText env L a "Payload"
  envVersion := headerText env L a "EnvVersion"
  pid := headerInt env (headerValue cfg (fieldOf L a "Pid")
    (integer cfg.pid))
  hostname := (headerValue cfg (fieldOf L a "Hostname")
    (stringOrNil cfg.hostname)).tostring env.fmt
  fields := fields
  uuid_length := uuidBytes_length env.random (wantedUuid env cfg L a)

theorem headersRead_bare (h : L.Bare a) (fields : List FieldContent) :
    HeadersRead env (Value.table a) (prepared cfg L a)
      (tableContent env cfg L a fields) (prepared cfg L a) := by
  have hspec := prepared_spec cfg L a
  have hbare := hspec.bare h
  have hget := fun name => getsField_bare env hbare name
  generalize prepared cfg L a = M at hspec hget ⊢
  refine ⟨M, M, M, M, M, M, ⟨_, hget "Type", ?_⟩, ⟨_, hget "Logger", ?_⟩,
    ⟨_, hget "Severity", ?_⟩, ⟨_, hget "Payload", ?_⟩,
    ⟨_, hget "EnvVersion", ?_⟩, ⟨_, hget "Pid", ?_⟩,
    ⟨_, hget "Hostname", ?_⟩⟩
  · rw [hspec.kept _ (by decide) (by decide) (by decide)]
    rfl
  · rw [hspec.logger]
    rfl
  · rw [hspec.kept _ (by decide) (by decide) (by decide)]
    rfl
  · rw [hspec.kept _ (by decide) (by decide) (by decide)]
    rfl
  · rw [hspec.kept _ (by decide) (by decide) (by decide)]
    rfl
  · rw [hspec.pid]
    rfl
  · rw [hspec.hostname]
    rfl

theorem messageReads_bare {below : Value} {fields : List FieldContent}
    (h : L.Bare a)
    (hfields : FieldsRead env below (Value.table a) (prepared cfg L a) fields
      K) :
    MessageReads env cfg below (Value.table a) L
      (tableContent env cfg L a fields) K :=
  ⟨wantedUuid env cfg L a, prepared cfg L a, prologueReads_bare env h, rfl,
    prepared cfg L a, headersRead_bare env h fields, hfields⟩

/-- How the encoding of the table ends, if its fields are encoded. -/
theorem messageOutcome_bare {below : Value} {fields : List FieldContent}
    {n : Nat} {s : EncState} (hL : s.lua = L) (h : L.Bare a)
    (hfields : Encodes (encodeFields env n lsbPbFields "Fields" below
        (Value.table a)) (prepared cfg L a)
      (Piece.concat (fields.map FieldContent.piece)) () K) :
    MessageOutcome cfg (tableContent env cfg L a fields) K (cleared s).w
      ((hekaEncodeMessageTable env cfg n below (Value.table a)).run s) := by
  have hrecords := encodes_records (m := tableContent env cfg L a fields)
    (headersRead_bare env h fields) hfields
  exact message_outcome (prologueReads_bare env h) rfl
    (hrecords.seq (encodes_write (emits_expand 1) K)) hL

end

end Heka
end LuaSandbox
