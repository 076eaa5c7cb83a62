import LuaSandbox.Heka.BareMessage
import LuaSandbox.Heka.Injection
import LuaSandbox.Heka.RestrictedHeaders

/-!
# The message of a payload

What the table says that is made for the text of a payload.
-/

namespace LuaSandbox
namespace Heka

open Foundation
open Lua
open Util
open Core

/-!
## The fields
-/

def textField (name : String) (text : List UInt8) : FieldContent :=
  ⟨ascii name, none, FieldValues.strings false [text]⟩

def payloadFields (type : List UInt8) (name : Option (List UInt8)) :
    List FieldContent :=
  textField "payload_type" type ::
    (name.map (textField "payload_name")).toList

def fieldsTable (type : List UInt8) (name : Option (List UInt8)) :
    LuaTable :=
  let t := LuaTable.empty.setString (ascii "payload_type")
    (Value.string type)
  match name with
  | none => t
  | some name => t.setString (ascii "payload_name") (Value.string name)

section

variable {env : EncodeEnv} {L : LuaState} {below : Value} {f : Nat}
  {type : List UInt8} {name : Option (List UInt8)}

theorem next_payloadType (h : L.tables f = fieldsTable type name) :
    L.next f Value.nil = Except.ok (some
      (Value.string (ascii "payload_type"), Value.string type)) := by
  unfold LuaState.next
  rw [h]
  cases name <;> rfl

theorem next_behindType (h : L.tables f = fieldsTable type name) :
    L.next f (Value.string (ascii "payload_type")) = Except.ok
      (name.map (fun name =>
        (Value.string (ascii "payload_name"), Value.string name))) := by
  unfold LuaState.next
  rw [h]
  cases name <;> rfl

theorem next_behindName {s : List UInt8}
    (h : L.tables f = fieldsTable type (some s)) :
    L.next f (Value.string (ascii "payload_name")) = Except.ok none := by
  unfold LuaState.next
  rw [h]
  rfl

theorem stringReads (s : List UInt8) :
    ValueReads env L below none (-1) (Value.string s) none
      (FieldValues.strings false [s]) L :=
  ValueReads.scalar (n := 0) rfl

theorem payloadFields_read (h : L.tables f = fieldsTable type name) :
    EntriesRead env below f L Value.nil (payloadFields type name) L := by
  refine EntriesRead.entry (next_payloadType h) rfl (stringReads type) ?_
  have hnext := next_behindType h
  cases name with
  | none => exact EntriesRead.done hnext
  | some s =>
      exact EntriesRead.entry hnext rfl (stringReads s)
        (EntriesRead.done (next_behindName h))

theorem rawgeti_fieldsTable (h : L.tables f = fieldsTable type name) :
    L.rawgeti f 1 = Value.nil := by
  unfold LuaState.rawgeti
  rw [h]
  cases name <;> rfl

/-!
## The table
-/

variable {cfg : HekaConfig} {new : NewTables} {payload : List UInt8}

theorem payloadTable_bare (L : LuaState) (new : NewTables) (type : Value)
    (name : Option Value) (payload : List UInt8) :
    (payloadTable L new type name payload).Bare new.message :=
  (LuaState.bare_newTable L new.message).newTable.setString.setOptional

theorem payloadTable_fields (L : LuaState) (new : NewTables)
    (type : List UInt8) (name : Option (List UInt8)) (payload : List UInt8) :
    (payloadTable L new (Value.string type) (name.map Value.string)
      payload).tables new.fields = fieldsTable type name := by
  have hne := new.distinct.symm
  unfold payloadTable
  dsimp only
  rw [LuaState.tables_setString_other hne,
    LuaState.tables_setString_other hne, LuaState.tables_setString_other hne]
  cases name with
  | none =>
      change (LuaState.setString _ _ _ _).tables new.fields = _
      rw [LuaState.tables_setString, LuaState.tables_newTable]
      rfl
  | some s =>
      change (LuaState.setString (LuaState.setString _ _ _ _) _ _ _).tables
        new.fields = _
      rw [LuaState.tables_setString, LuaState.tables_setString,
        LuaState.tables_newTable]
      rfl

/-- The fields that are set, in the order in which they are. -/
def messageEntries (new : NewTables) (payload : List UInt8) : LuaTable :=
  ((LuaTable.empty.setString (ascii "Fields")
    (Value.table new.fields)).setString (ascii "Type")
      (Value.string (ascii "inject_payload"))).setString (ascii "Payload")
        (Value.string payload)

theorem payloadTable_message (L : LuaState) (new : NewTables)
    (type : Value) (name : Option Value) (payload : List UInt8) :
    (payloadTable L new type name payload).tables new.message =
      messageEntries new payload := by
  unfold payloadTable
  dsimp only
  rw [LuaState.tables_setString, LuaState.tables_setString,
    LuaState.tables_setString,
    LuaState.tables_setOptional_other new.distinct,
    LuaState.tables_setString_other new.distinct,
    LuaState.tables_newTable_other new.distinct, LuaState.tables_newTable]
  rfl

theorem fieldOf_payloadTable (L : LuaState) (new : NewTables)
    (type : Value) (name : Option Value) (payload : List UInt8)
    (field : String) :
    fieldOf (payloadTable L new type name payload) new.message field =
      (messageEntries new payload).get (Value.string (ascii field)) := by
  unfold fieldOf
  rw [payloadTable_message]

/-- The message of a payload: the headers of the sandbox, and the names that
were given. -/
def payloadContent (env : EncodeEnv) (cfg : HekaConfig)
    (type : List UInt8) (name : Option (List UInt8)) (payload : List UInt8) :
    MessageContent where
  uuid := uuidBytes env.random none
  timestamp := env.now
  type := some (ascii "inject_payload")
  logger := cfg.name
  severity := none
  payload := some payload
  envVersion := none
  pid := headerInt env (integer cfg.pid)
  hostname := cfg.hostname
  fields := payloadFields type name
  uuid_length := uuidBytes_length env.random none

/-- A header that the table does not have. -/
theorem headerValue_nil (cfg : HekaConfig) (own : Value) :
    headerValue cfg Value.nil own = own :=
  if_pos (Or.inr rfl)

theorem tableContent_payload (env : EncodeEnv) (cfg : HekaConfig)
    (L : LuaState) (new : NewTables) (t : Value) (n : Option Value)
    (type : List UInt8) (name : Option (List UInt8)) (payload : List UInt8) :
    tableContent env cfg (payloadTable L new t n payload) new.message
        (payloadFields type name) =
      payloadContent env cfg type name payload := by
  have hfield := fieldOf_payloadTable L new t n payload
  have hnil : forall field, (messageEntries new payload).get
      (Value.string (ascii field)) = Value.nil ->
        fieldOf (payloadTable L new t n payload) new.message field =
          Value.nil := fun field h => (hfield field).trans h
  have huuid : wantedUuid env cfg (payloadTable L new t n payload)
      new.message = none := by
    unfold wantedUuid
    rw [hnil "Uuid" rfl]
    split <;> rfl
  have htimestamp : wantedTimestamp env cfg (payloadTable L new t n payload)
      new.message = env.now := by
    unfold wantedTimestamp
    rw [hnil "Timestamp" rfl]
    split <;> rfl
  unfold tableContent payloadContent headerText
  simp only [huuid, htimestamp, hnil "Logger" rfl, hnil "Hostname" rfl,
    hnil "Pid" rfl, hnil "Severity" rfl, hnil "EnvVersion" rfl,
    headerValue_nil, tostring_stringOrNil, hfield "Type", hfield "Payload"]
  rfl

/-!
## Its encoding
-/

theorem encodes_stringValue' (s : List UInt8) (n : Nat) :
    Encodes (encodeFieldValue env (n + 1) below 1 none (-1)
        (Value.string s)) L
      (valuesPiece none (FieldValues.strings false [s])) () L :=
  encodes_single (n := 0) rfl n

/-- Two entries and the end of the table need three units of fuel. -/
theorem encodes_payloadFields (h : L.tables f = fieldsTable type name)
    (n : Nat) :
    Encodes (encodeFieldEntries env lsbPbFields below f (n + 3) Value.nil) L
      (Piece.concat ((payloadFields type name).map FieldContent.piece)) ()
      L := by
  refine encodes_entry (next_payloadType h) rfl
    (encodes_stringValue' type (n + 1)) ?_
  have hnext := next_behindType h
  cases name with
  | none => exact encodes_noEntry hnext
  | some s =>
      exact encodes_entry hnext rfl (encodes_stringValue' s n)
        (encodes_noEntry (next_behindName h))

theorem encodes_fieldsEntries {t : Value} {n : Nat} {c : Piece}
    {L' : LuaState} (hget : GetsField env L t "Fields" (Value.table f) L)
    (htype : (L.rawgeti f 1).type ≠ LuaType.table)
    (hentries : Encodes (encodeFieldEntries env lsbPbFields below f n
      Value.nil) L c () L') :
    Encodes (encodeFields env n lsbPbFields "Fields" below t) L c () L' := by
  unfold encodeFields
  apply (encodes_getfield hget).bind_empty
  apply (encodes_getLua _).bind_empty
  rw [if_neg htype]
  exact hentries

/-- The encoding of the table of a payload ends, and nothing of its message is
lost if that fits. -/
theorem payload_outcome (env : EncodeEnv) (cfg : HekaConfig) {s : EncState}
    {fuel : Nat} (hfuel : 3 <= fuel) (below : Value) (L : LuaState)
    (hlua : s.lua = payloadTable L new (Value.string type)
      (name.map Value.string) payload) :
    MessageOutcome cfg (payloadContent env cfg type name payload)
      (prepared cfg s.lua new.message) (cleared s).w
      ((hekaEncodeMessageTable env cfg fuel below
        (Value.table new.message)).run s) := by
  obtain ⟨n, rfl⟩ : exists n, fuel = n + 3 := ⟨fuel - 3, by omega⟩
  have hbare := payloadTable_bare L new (Value.string type)
    (name.map Value.string) payload
  have hfields := payloadTable_fields L new type name payload
  have hget := fieldOf_payloadTable L new (Value.string type)
    (name.map Value.string) payload "Fields"
  have hcontent := tableContent_payload env cfg L new (Value.string type)
    (name.map Value.string) type name payload
  rw [← hlua] at hbare hfields hget hcontent
  have hspec := prepared_spec cfg s.lua new.message
  have hfields' : (prepared cfg s.lua new.message).tables new.fields =
      fieldsTable type name :=
    (hspec.others _ new.distinct.symm).trans hfields
  have hget' := getsField_bare env (hspec.bare hbare) "Fields"
  rw [hspec.kept _ (by decide) (by decide) (by decide), hget] at hget'
  rw [← hcontent]
  refine messageOutcome_bare env rfl hbare (encodes_fieldsEntries hget' ?_
    (encodes_payloadFields hfields' n))
  rw [rawgeti_fieldsTable hfields']
  decide

end

end Heka
end LuaSandbox
