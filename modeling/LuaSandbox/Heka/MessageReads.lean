import LuaSandbox.Heka.EncodeValues

/-!
# What a message table says

The reading of a message table as a message, access by access.  No access
touches the output buffer; every one may change the Lua state.
-/

namespace LuaSandbox
namespace Heka

open Foundation
open Lua
open Util
open Core

section

variable (env : EncodeEnv)

/-- A field of a value is read. -/
abbrev GetsField (L : LuaState) (t : Value) (name : String) (v : Value)
    (L' : LuaState) : Prop :=
  Reads (luaGetfield env.plugin t (ascii name)) L v L'

/-- A value that is read with a representation and a value type gives the
representation and the values of a field. -/
inductive ValueReads : LuaState -> Value -> Option (List UInt8) -> Int ->
    Value -> Option (List UInt8) -> FieldValues -> LuaState -> Prop where
  | scalar {L below representation valueType v n} :
      fieldType valueType v.type = some n ->
      ValueReads L below representation valueType v representation
        (fieldValues n [v]) L
  | array {L below representation valueType a e rest n} :
      ArrayOf L a (e :: rest) ->
      fieldType valueType e.type = some n ->
      (forall v, v ∈ rest -> v.type = e.type) ->
      ValueReads L below representation valueType (Value.table a)
        representation (fieldValues n (e :: rest)) L
  | object {L L1 L2 L3 L4 below representation valueType t r w v
      representation' values} :
      L.rawgeti t 1 = Value.nil ->
      GetsField env L (Value.table t) "representation" r L1 ->
      GetsField env L1 (Value.table t) "value_type" w L2 ->
      GetsField env L2 (Value.table t) "value" v L3 ->
      ValueReads L3 (Value.table t) (objectRepresentation env r)
        (objectValueType env w) v representation' values L4 ->
      ValueReads L below representation valueType (Value.table t)
        representation' values L4
  | userdata {L below representation valueType u text} :
      env.plugin.output L (Value.userdata u) = some (Except.ok text) ->
      ValueReads L below representation valueType (Value.userdata u)
        representation (FieldValues.output text) L
  | lightuserdata {L L' below representation valueType p u text} :
      GetsField env L below "userdata" (Value.userdata u) L' ->
      env.plugin.output L' (Value.userdata u) = some (Except.ok text) ->
      ValueReads L below representation valueType (Value.lightuserdata p)
        representation (FieldValues.output text) L'

/-- The representation, the value type and the value of an object. -/
def ObjectReads (L : LuaState) (obj : Value)
    (representation : Option (List UInt8)) (values : FieldValues)
    (L' : LuaState) : Prop :=
  exists r L1 w L2 v L3,
    GetsField env L obj "representation" r L1 ∧
      GetsField env L1 obj "value_type" w L2 ∧
      GetsField env L2 obj "value" v L3 ∧
      ValueReads env L3 obj (objectRepresentation env r)
        (objectValueType env w) v representation values L'

/-- An array of field objects from the element `e` with the index `i` on. -/
inductive ObjectsRead (f : Nat) : LuaState -> Int -> Value ->
    List FieldContent -> LuaState -> Prop where
  | last {L L1 L2 i e w name representation values} :
      GetsField env L e "name" w L1 ->
      w.tostring env.fmt = some name ->
      ObjectReads env L1 e representation values L2 ->
      L2.rawgeti f (i + 1) = Value.nil ->
      ObjectsRead f L i e [⟨name, representation, values⟩] L2
  | more {L L1 L2 L3 i e w name representation values fields} :
      GetsField env L e "name" w L1 ->
      w.tostring env.fmt = some name ->
      ObjectReads env L1 e representation values L2 ->
      L2.rawgeti f (i + 1) ≠ Value.nil ->
      ObjectsRead f L2 (i + 1) (L2.rawgeti f (i + 1)) fields L3 ->
      ObjectsRead f L i e (⟨name, representation, values⟩ :: fields) L3

/-- The entries of a table of fields behind the key `k`. -/
inductive EntriesRead (below : Value) (f : Nat) : LuaState -> Value ->
    List FieldContent -> LuaState -> Prop where
  | done {L k} :
      L.next f k = Except.ok none ->
      EntriesRead below f L k [] L
  | entry {L L1 L2 k k' v name representation values fields} :
      L.next f k = Except.ok (some (k', v)) ->
      k'.tostring env.fmt = some name ->
      ValueReads env L below none (-1) v representation values L1 ->
      EntriesRead below f L1 (convertedKey env k') fields L2 ->
      EntriesRead below f L k (⟨name, representation, values⟩ :: fields) L2

inductive FieldsRead (below t : Value) : LuaState -> List FieldContent ->
    LuaState -> Prop where
  | none {L L' v} :
      GetsField env L t "Fields" v L' ->
      v.type ≠ LuaType.table ->
      FieldsRead below t L [] L'
  | objects {L L' L'' f fields} :
      GetsField env L t "Fields" (Value.table f) L' ->
      (L'.rawgeti f 1).type = LuaType.table ->
      ObjectsRead env f L' 1 (L'.rawgeti f 1) fields L'' ->
      FieldsRead below t L fields L''
  | entries {L L' L'' f fields} :
      GetsField env L t "Fields" (Value.table f) L' ->
      (L'.rawgeti f 1).type ≠ LuaType.table ->
      EntriesRead env below f L' Value.nil fields L'' ->
      FieldsRead below t L fields L''

def StringReads (L : LuaState) (t : Value) (name : String)
    (s : Option (List UInt8)) (L' : LuaState) : Prop :=
  exists v, GetsField env L t name v L' ∧ v.tostring env.fmt = s

def IntReads (L : LuaState) (t : Value) (name : String) (i : Option Int)
    (L' : LuaState) : Prop :=
  exists v, GetsField env L t name v L' ∧
    (v.tonumber env.fmt).map (fun d => (d.toUnsigned : Int)) = i

/-- The headers behind the timestamp. -/
def HeadersRead (t : Value) (L : LuaState) (m : MessageContent)
    (L' : LuaState) : Prop :=
  exists L1 L2 L3 L4 L5 L6,
    StringReads env L t "Type" m.type L1 ∧
      StringReads env L1 t "Logger" m.logger L2 ∧
      IntReads env L2 t "Severity" m.severity L3 ∧
      StringReads env L3 t "Payload" m.payload L4 ∧
      StringReads env L4 t "EnvVersion" m.envVersion L5 ∧
      IntReads env L5 t "Pid" m.pid L6 ∧
      StringReads env L6 t "Hostname" m.hostname L'

def RecordsRead (below t : Value) (L : LuaState) (m : MessageContent)
    (L' : LuaState) : Prop :=
  exists L1, HeadersRead env t L m L1 ∧
    FieldsRead env below t L1 m.fields L'

/-- A field of the message table is set. -/
abbrev SetsField (L : LuaState) (t : Value) (name : String) (value : Value)
    (L' : LuaState) : Prop :=
  Reads (luaSetfield env.plugin t (ascii name) value) L () L'

/-- A header that the table does not have is set. -/
inductive MissingSet (t : Value) (name : String) :
    LuaState -> Option Value -> LuaState -> Prop where
  | set {L L1 L2 value} :
      GetsField env L t name Value.nil L1 ->
      SetsField env L1 t name value L2 ->
      MissingSet t name L (some value) L2
  | unknown {L L1} :
      GetsField env L t name Value.nil L1 ->
      MissingSet t name L none L1
  | there {L L1 v value} :
      GetsField env L t name v L1 ->
      v ≠ Value.nil ->
      MissingSet t name L value L1

/-- The uuid that is asked for, the timestamp, and the headers that are set. -/
inductive PrologueReads (cfg : HekaConfig) (t : Value) : LuaState ->
    Option (List UInt8) -> Int -> LuaState -> Prop where
  | restricted {L L1 L2 L3} :
      cfg.restrictedHeaders = true ->
      SetsField env L t "Logger" (stringOrNil cfg.name) L1 ->
      SetsField env L1 t "Hostname" (stringOrNil cfg.hostname) L2 ->
      SetsField env L2 t "Pid" (integer cfg.pid) L3 ->
      PrologueReads cfg t L none env.now L3
  | unrestricted {L L1 L2 L3 L4 L5 u w} :
      cfg.restrictedHeaders = false ->
      GetsField env L t "Uuid" u L1 ->
      GetsField env L1 t "Timestamp" w L2 ->
      MissingSet env t "Logger" L2 (cfg.name.map Value.string) L3 ->
      MissingSet env t "Hostname" L3 (cfg.hostname.map Value.string) L4 ->
      MissingSet env t "Pid" L4 (some (integer cfg.pid)) L5 ->
      PrologueReads cfg t L (u.tostring env.fmt) (timestampOf env w) L5

/-- The message that a table is read as. -/
def MessageReads (cfg : HekaConfig) (below t : Value) (L : LuaState)
    (m : MessageContent) (L' : LuaState) : Prop :=
  exists uuid L1,
    PrologueReads env cfg t L uuid m.timestamp L1 ∧
      m.uuid = uuidBytes env.random uuid ∧
      RecordsRead env below t L1 m L'

/-!
## Encoding what was read
-/

variable {env} {L L' : LuaState} {below : Value}
  {representation representation' : Option (List UInt8)} {valueType : Int}
  {v : Value} {values : FieldValues}

theorem encodes_getfield {t : Value} {name : String}
    (h : GetsField env L t name v L') :
    Encodes (getfield env t name) L Piece.empty v L' :=
  encodes_access h

def valuesPiece (representation : Option (List UInt8))
    (values : FieldValues) : Piece :=
  valuesHead values.valueType representation ++ values.piece

theorem encodes_object {value : Option (List UInt8) -> Int -> Value -> Enc Unit}
    {obj r w : Value} {L1 L2 L3 : LuaState} {c : Piece}
    (hr : GetsField env L obj "representation" r L1)
    (hw : GetsField env L1 obj "value_type" w L2)
    (hv : GetsField env L2 obj "value" v L3)
    (hvalue : Encodes (value (objectRepresentation env r)
      (objectValueType env w) v) L3 c () L') :
    Encodes (encodeFieldObject env value obj) L c () L' :=
  (encodes_getfield hr).bind_empty ((encodes_getfield hw).bind_empty
    ((encodes_getfield hv).bind_empty hvalue))

theorem encodes_userdata {u : Nat} {text : List UInt8}
    (h : env.plugin.output L (Value.userdata u) = some (Except.ok text)) :
    Encodes (encodeUserdata env 1 representation (Value.userdata u)) L
      (valuesPiece representation (FieldValues.output text)) () L := by
  have hhead : Encodes (onlyIf ((1 : Int) ≠ 0) (do
      encodeValueType 1
      encodeRepresentation representation)) L
      (valuesHead 1 representation) () L :=
    encodes_onlyIf_pos (by decide)
      ((encodes_valueType L 1).seq (encodes_representation L representation))
  unfold encodeUserdata
  apply (encodes_getLua L).bind_empty
  rw [h]
  exact hhead.seq ((encodes_key L _ _).seq
    (encodes_lengthPrefixed (encodes_output text L)))

theorem encodes_single {n : Nat} (h : fieldType valueType v.type = some n)
    (m : Nat) :
    Encodes (encodeFieldValue env (m + 1) below 1 representation valueType v)
      L (valuesPiece representation (fieldValues n [v])) () L := by
  have hpiece := arrayPiece_eq (fieldType_le h) representation v []
    (by decide) (fun _ => rfl)
  have hscalar := encodes_scalar L 1 representation env below h m
  rw [List.map_nil, Piece.concat_nil, Piece.append_empty] at hpiece
  unfold valuesPiece
  rw [valueType_fieldValues (fieldType_le h), ← hpiece]
  exact hscalar

theorem encodes_arrayValue {a n : Nat} {e : Value} {rest : List Value}
    (harray : ArrayOf L a (e :: rest))
    (h : fieldType valueType e.type = some n)
    (htype : forall v, v ∈ rest -> v.type = e.type) (m : Nat) :
    Encodes (encodeFieldValue env (m + 2) below 1 representation valueType
        (Value.table a)) L
      (valuesPiece representation (fieldValues n (e :: rest))) () L := by
  have hget : L.rawgeti a 1 = e := harray.element 0 (Nat.succ_pos _)
  have hencode := encodes_array env representation harray htype h
    (Value.table a) m
  unfold valuesPiece
  rw [valueType_fieldValues (fieldType_le h)]
  unfold encodeFieldValue
  apply (encodes_getLua L).bind_empty
  rw [hget]
  cases e with
  | string s | number d | boolean b => exact hencode
  | nil | lightuserdata | table | function | cfunction | userdata | thread =>
      cases h

/-- With enough fuel the encoder appends the values that were read. -/
theorem ValueReads.encodes
    (h : ValueReads env L below representation valueType v representation'
      values L') :
    exists n0, forall n, n0 <= n ->
      Encodes (encodeFieldValue env n below 1 representation valueType v) L
        (valuesPiece representation' values) () L' := by
  induction h with
  | scalar h =>
      refine ⟨1, fun n hn => ?_⟩
      obtain ⟨m, rfl⟩ : exists m, n = m + 1 := ⟨n - 1, by omega⟩
      exact encodes_single h m
  | array harray h htype =>
      refine ⟨2, fun n hn => ?_⟩
      obtain ⟨m, rfl⟩ : exists m, n = m + 2 := ⟨n - 2, by omega⟩
      exact encodes_arrayValue harray h htype m
  | object hnil hr hw hv _ ih =>
      rcases ih with ⟨n0, ih⟩
      refine ⟨n0 + 1, fun n hn => ?_⟩
      obtain ⟨m, rfl⟩ : exists m, n = m + 1 := ⟨n - 1, by omega⟩
      unfold encodeFieldValue
      apply (encodes_getLua _).bind_empty
      rw [hnil]
      exact encodes_object hr hw hv (ih m (by omega))
  | userdata h =>
      refine ⟨1, fun n hn => ?_⟩
      obtain ⟨m, rfl⟩ : exists m, n = m + 1 := ⟨n - 1, by omega⟩
      exact encodes_userdata h
  | lightuserdata hget h =>
      refine ⟨1, fun n hn => ?_⟩
      obtain ⟨m, rfl⟩ : exists m, n = m + 1 := ⟨n - 1, by omega⟩
      unfold encodeFieldValue
      apply (encodes_getfield hget).bind_empty
      exact encodes_userdata h

theorem ObjectReads.encodes {obj : Value}
    (h : ObjectReads env L obj representation values L') :
    exists n0, forall n, n0 <= n ->
      Encodes (encodeFieldObject env (encodeFieldValue env n obj 1) obj) L
        (valuesPiece representation values) () L' := by
  rcases h with ⟨r, L1, w, L2, v, L3, hr, hw, hv, hvalue⟩
  rcases hvalue.encodes with ⟨n0, hencode⟩
  exact ⟨n0, fun n hn => encodes_object hr hw hv (hencode n hn)⟩

/-!
## Fields
-/

theorem encodes_name {w : Value} {name : List UInt8}
    (h : w.tostring env.fmt = some name) (L : LuaState) :
    Encodes (encodeName env w) L (Piece.string lsbPbName name) () L := by
  unfold encodeName
  rw [h]
  exact encodes_string L lsbPbName name

theorem encodes_fieldRecord {contents : Enc Unit} {name : List UInt8}
    (h : Encodes contents L
      (Piece.string lsbPbName name ++ valuesPiece representation values) ()
      L') :
    Encodes (encodeFieldRecord lsbPbFields contents) L
      (FieldContent.piece ⟨name, representation, values⟩) () L' := by
  unfold valuesPiece at h
  rw [← Piece.append_assoc] at h
  exact (encodes_key L _ _).seq (encodes_lengthPrefixed h)

theorem encodes_objectRecord {e w : Value} {name : List UInt8}
    {L1 L2 : LuaState} {object : Enc Unit}
    (hname : GetsField env L e "name" w L1)
    (hstring : w.tostring env.fmt = some name)
    (hobject : Encodes object L1 (valuesPiece representation values) () L2) :
    Encodes (encodeFieldRecord lsbPbFields (do
        let w <- getfield env e "name"
        encodeName env w
        object)) L
      (FieldContent.piece ⟨name, representation, values⟩) () L2 := by
  apply encodes_fieldRecord
  apply (encodes_getfield hname).bind_empty
  exact (encodes_name hstring L1).seq hobject

theorem ObjectsRead.encodes {f : Nat} {i : Int} {e : Value}
    {fields : List FieldContent} (h : ObjectsRead env f L i e fields L') :
    exists n0, forall n, n0 <= n ->
      Encodes (encodeFieldObjects env lsbPbFields f n i e) L
        (Piece.concat (fields.map FieldContent.piece)) () L' := by
  induction h with
  | last hname hstring hobject hnil =>
      rcases hobject.encodes with ⟨n0, hobject⟩
      refine ⟨n0 + 1, fun n hn => ?_⟩
      obtain ⟨m, rfl⟩ : exists m, n = m + 1 := ⟨n - 1, by omega⟩
      have hrecord := encodes_objectRecord hname hstring
        (hobject m (by omega))
      unfold encodeFieldObjects
      apply hrecord.seq
      apply (encodes_getLua _).bind_empty
      exact encodes_onlyIf_neg (not_not.mpr hnil)
  | more hname hstring hobject hnext _ ih =>
      rcases hobject.encodes with ⟨n0, hobject⟩
      rcases ih with ⟨n1, ih⟩
      refine ⟨n0 + n1 + 1, fun n hn => ?_⟩
      obtain ⟨m, rfl⟩ : exists m, n = m + 1 := ⟨n - 1, by omega⟩
      have hrecord := encodes_objectRecord hname hstring
        (hobject m (by omega))
      unfold encodeFieldObjects
      apply hrecord.seq
      apply (encodes_getLua _).bind_empty
      exact encodes_onlyIf_pos hnext (ih m (by omega))

theorem encodes_next {f : Nat} {k : Value} {e : Option (Value × Value)}
    (h : L.next f k = Except.ok e) :
    Encodes (access (fun L ob => (L.next f k, L, ob))) L Piece.empty e L :=
  encodes_access (fun ob => by rw [h])

theorem EntriesRead.encodes {f : Nat} {k : Value}
    {fields : List FieldContent}
    (h : EntriesRead env below f L k fields L') :
    exists n0, forall n, n0 <= n ->
      Encodes (encodeFieldEntries env lsbPbFields below f n k) L
        (Piece.concat (fields.map FieldContent.piece)) () L' := by
  induction h with
  | done hnext =>
      refine ⟨1, fun n hn => ?_⟩
      obtain ⟨m, rfl⟩ : exists m, n = m + 1 := ⟨n - 1, by omega⟩
      unfold encodeFieldEntries
      apply (encodes_next hnext).bind_empty
      exact Encodes.pure () _
  | entry hnext hstring hvalue _ ih =>
      rcases hvalue.encodes with ⟨n0, hvalue⟩
      rcases ih with ⟨n1, ih⟩
      refine ⟨n0 + n1 + 1, fun n hn => ?_⟩
      obtain ⟨m, rfl⟩ : exists m, n = m + 1 := ⟨n - 1, by omega⟩
      have hrecord := encodes_fieldRecord
        ((encodes_name hstring _).seq (hvalue m (by omega)))
      unfold encodeFieldEntries
      apply (encodes_next hnext).bind_empty
      exact hrecord.seq (ih m (by omega))

theorem FieldsRead.encodes {t : Value} {fields : List FieldContent}
    (h : FieldsRead env below t L fields L') :
    exists n0, forall n, n0 <= n ->
      Encodes (encodeFields env n lsbPbFields "Fields" below t) L
        (Piece.concat (fields.map FieldContent.piece)) () L' := by
  cases h with
  | none hget htype =>
      refine ⟨0, fun n _ => ?_⟩
      unfold encodeFields
      apply (encodes_getfield hget).bind_empty
      split
      · exact absurd rfl htype
      · exact Encodes.pure () _
  | objects hget htype hfields =>
      rcases hfields.encodes with ⟨n0, hfields⟩
      refine ⟨n0, fun n hn => ?_⟩
      unfold encodeFields
      apply (encodes_getfield hget).bind_empty
      apply (encodes_getLua _).bind_empty
      rw [if_pos htype]
      exact hfields n hn
  | entries hget htype hfields =>
      rcases hfields.encodes with ⟨n0, hfields⟩
      refine ⟨n0, fun n hn => ?_⟩
      unfold encodeFields
      apply (encodes_getfield hget).bind_empty
      apply (encodes_getLua _).bind_empty
      rw [if_neg htype]
      exact hfields n hn

/-!
## Records
-/

theorem encodes_optionalString {t : Value} {name : String}
    {s : Option (List UInt8)} (h : StringReads env L t name s L')
    (tag : Nat) :
    Encodes (encodeString env tag name t) L (optionalString tag s) () L' := by
  rcases h with ⟨v, hget, rfl⟩
  unfold encodeString
  apply (encodes_getfield hget).bind_empty
  cases v.tostring env.fmt with
  | none => exact Encodes.pure () L'
  | some s => exact encodes_string L' tag s

theorem encodes_optionalInt {t : Value} {name : String} {i : Option Int}
    (h : IntReads env L t name i L') (tag : Nat) :
    Encodes (encodeInt env tag name t) L (optionalInt tag i) () L' := by
  rcases h with ⟨v, hget, rfl⟩
  unfold encodeInt
  apply (encodes_getfield hget).bind_empty
  cases v.tonumber env.fmt with
  | none => exact Encodes.pure () L'
  | some d =>
      have hword : ofLongLong (d.toUnsigned : Int) = d.toUnsigned :=
        ofLongLong_natCast d.toUnsigned_lt
      change Encodes _ L' (intPiece tag d.toUnsigned) () L'
      unfold intPiece
      rw [hword]
      exact (encodes_key L' _ _).seq (encodes_varint L' _)

/-- The headers and the fields one behind the other. -/
theorem encodes_records {t : Value} {m : MessageContent} {n : Nat}
    {L1 : LuaState} (hheaders : HeadersRead env t L m L1)
    (hfields : Encodes (encodeFields env n lsbPbFields "Fields" below t) L1
      (Piece.concat (m.fields.map FieldContent.piece)) () L') :
    Encodes (encodeRecords env n m.timestamp below t) L m.records () L' := by
  rcases hheaders with ⟨L1, L2, L3, L4, L5, L6, htype, hlogger, hseverity,
    hpayload, henvVersion, hpid, hhostname⟩
  have hencode := (encodes_key L lsbPbTimestamp lsbPbWtVarint).seq
    ((encodes_varint L (ofLongLong m.timestamp)).seq
    ((encodes_optionalString htype lsbPbType).seq
    ((encodes_optionalString hlogger lsbPbLogger).seq
    ((encodes_optionalInt hseverity lsbPbSeverity).seq
    ((encodes_optionalString hpayload lsbPbPayload).seq
    ((encodes_optionalString henvVersion lsbPbEnvVersion).seq
    ((encodes_optionalInt hpid lsbPbPid).seq
    ((encodes_optionalString hhostname lsbPbHostname).seq hfields))))))))
  unfold MessageContent.records intPiece
  simp only [Piece.append_assoc]
  exact hencode

theorem RecordsRead.encodes {t : Value} {m : MessageContent}
    (h : RecordsRead env below t L m L') :
    exists n0, forall n, n0 <= n ->
      Encodes (encodeRecords env n m.timestamp below t) L m.records () L' := by
  rcases h with ⟨L1, hheaders, hfields⟩
  rcases hfields.encodes with ⟨n0, hfields⟩
  exact ⟨n0, fun n hn => encodes_records hheaders (hfields n hn)⟩

theorem RecordsRead.encodesSections {t : Value} {m : MessageContent}
    (h : RecordsRead env below t L m L') :
    exists n0, forall n, n0 <= n ->
      Encodes (encodeSections env n m.timestamp below t) L
        (m.records ++ Piece.room 1) () L' := by
  rcases h.encodes with ⟨n0, hencode⟩
  exact ⟨n0, fun n hn =>
    (hencode n hn).seq (encodes_write (emits_expand 1) L')⟩

end

end Heka
end LuaSandbox
