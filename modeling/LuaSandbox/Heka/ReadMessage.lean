import LuaSandbox.Heka.DecodeMessage
import LuaSandbox.Heka.EncodeMessage

/-!
# Reading a message

The function that gives a plugin a header or a field value of the message it
is called with.
-/

namespace LuaSandbox
namespace Heka

open Foundation
open Util

inductive ReadError where
  | fieldIndex
  | arrayIndex
  | notSupported (field : List UInt8)
  deriving DecidableEq

/-- The text behind the name of the function or of the argument. -/
def ReadError.message : ReadError -> List UInt8
  | fieldIndex => ascii "field index must be >= 0"
  | arrayIndex => ascii "array index must be >= 0"
  | notSupported field =>
      ascii "field: '" ++ cString field ++ ascii "' not supported/recognized"

/-- The byte count and the header in front of a message of `len` bytes. -/
def lsbWriteHekaHeader (len : Nat) : List UInt8 :=
  let length := lsbPbOutputVarint len
  [0x1e, UInt8.ofNat (length.length + 1), 0x08] ++ length ++ [0x1f]

/-- The value of a slice; the null pointer gives nil. -/
def stringValue (mem : Memory) (s : ConstString) : Option TableValue :=
  (s.contents mem).map TableValue.string

def integerNumber (i : Int) : Option TableValue :=
  some (TableValue.number (Double.ofInt i))

/-- Any number but zero is true. -/
def isTrue (d : Double) : Bool := !d.value.eq (Double.Value.fin 0)

/-- The Lua value of a field value; everything else is nil. -/
def fieldValue (mem : Memory) : Option ReadValue -> Option TableValue
  | some (ReadValue.string s) => some (TableValue.string (s.bytes mem))
  | some (ReadValue.numeric d) => some (TableValue.number d)
  | some (ReadValue.bool d) => some (TableValue.boolean (isTrue d))
  | _ => none

/-- The name between the brackets of a field reference. -/
def fieldName (field : List UInt8) : Option (List UInt8) :=
  if 8 <= field.length ∧ field.take 7 = ascii "Fields[" ∧
      field.getLast? = some 0x5d then
    some ((field.drop 7).dropLast)
  else
    none

/-- The value that is read, `none` for nil; there may be no message. -/
def hekaReadMessage (mem : Memory) (m : Option HekaMessage)
    (field : List UInt8) (fi ai : Int) :
    Except ReadError (Option TableValue) :=
  if fi < 0 then
    Except.error ReadError.fieldIndex
  else if ai < 0 then
    Except.error ReadError.arrayIndex
  else
    match m with
    | none => Except.ok none
    | some m =>
        if m.raw.s = none then
          Except.ok none
        else if cString field = ascii "Uuid" then
          Except.ok (stringValue mem m.uuid)
        else if cString field = ascii "Timestamp" then
          Except.ok (integerNumber m.timestamp)
        else if cString field = ascii "Type" then
          Except.ok (stringValue mem m.type)
        else if cString field = ascii "Logger" then
          Except.ok (stringValue mem m.logger)
        else if cString field = ascii "Severity" then
          Except.ok (integerNumber m.severity)
        else if cString field = ascii "Payload" then
          Except.ok (stringValue mem m.payload)
        else if cString field = ascii "EnvVersion" then
          Except.ok (stringValue mem m.envVersion)
        else if cString field = ascii "Pid" then
          Except.ok (if m.pid = intMin then none else integerNumber m.pid)
        else if cString field = ascii "Hostname" then
          Except.ok (stringValue mem m.hostname)
        else if cString field = ascii "raw" then
          Except.ok (stringValue mem m.raw)
        else if cString field = ascii "framed" then
          Except.ok (some (TableValue.string
            (lsbWriteHekaHeader m.raw.len ++ m.raw.bytes mem)))
        else if cString field = ascii "size" then
          Except.ok (integerNumber m.raw.len)
        else
          match fieldName field with
          | some name => Except.ok
              (fieldValue mem (lsbReadHekaField mem m name fi.toNat ai.toNat))
          | none => Except.error (ReadError.notSupported field)

/-- The reference to the field of this name. -/
def fieldReference (name : List UInt8) : List UInt8 :=
  ascii "Fields[" ++ name ++ [0x5d]

theorem fieldName_fieldReference (name : List UInt8) :
    fieldName (fieldReference name) = some name := by
  have hlength : (fieldReference name).length = name.length + 8 := by
    unfold fieldReference
    rw [List.length_append, List.length_append, Nat.add_comm _ name.length]
    rfl
  have htake : (fieldReference name).take 7 = ascii "Fields[" := by
    unfold fieldReference
    rw [List.append_assoc]
    exact @List.take_left _ (ascii "Fields[") _
  have hdrop : (fieldReference name).drop 7 = name ++ [0x5d] := by
    unfold fieldReference
    rw [List.append_assoc]
    exact @List.drop_left _ (ascii "Fields[") _
  have hlast : (fieldReference name).getLast? = some 0x5d :=
    List.getLast?_concat
  unfold fieldName
  rw [if_pos ⟨by omega, htake, hlast⟩, hdrop, List.dropLast_concat]

/-- A reference to a field is not the name of a header. -/
theorem hekaReadMessage_field {mem : Memory} {m : HekaMessage}
    {name : List UInt8} {fi ai : Nat} (hraw : m.raw.s ≠ none) :
    hekaReadMessage mem (some m) (fieldReference name) fi ai =
      Except.ok (fieldValue mem (lsbReadHekaField mem m name fi ai)) := by
  have hheader : forall s : String, (ascii s).head? ≠ some 0x46 ->
      cString (fieldReference name) ≠ ascii s := by
    intro s hhead heq
    apply hhead
    rw [← heq]
    rfl
  unfold hekaReadMessage
  rw [if_neg (by omega), if_neg (by omega)]
  dsimp only
  rw [if_neg hraw]
  rw [if_neg (hheader _ (by decide)), if_neg (hheader _ (by decide)),
    if_neg (hheader _ (by decide)), if_neg (hheader _ (by decide)),
    if_neg (hheader _ (by decide)), if_neg (hheader _ (by decide)),
    if_neg (hheader _ (by decide)), if_neg (hheader _ (by decide)),
    if_neg (hheader _ (by decide)), if_neg (hheader _ (by decide)),
    if_neg (hheader _ (by decide)), if_neg (hheader _ (by decide)),
    fieldName_fieldReference]
  rfl

/-!
## The fields of a message
-/

/-- The field at `i` is the one that a name and a field index select. -/
structure SelectsField (mem : Memory) (m : HekaMessage) (name : List UInt8)
    (fi i : Nat) (f : HekaField) : Prop where
  field_eq : m.fields[i]? = some f
  matches_eq : nameMatches mem name f = true
  index_eq : fi = ((m.fields.take i).filter (nameMatches mem name)).length

theorem readHekaFieldLoop_at {mem : Memory} {name : List UInt8}
    {f : HekaField} {ai : Nat} (hname : nameMatches mem name f = true) :
    forall (fs : List HekaField) (i fcnt : Nat), fs[i]? = some f ->
      readHekaFieldLoop mem name
        (fcnt + ((fs.take i).filter (nameMatches mem name)).length) ai fcnt
        fs = readFieldValue mem f ai := by
  intro fs
  induction fs with
  | nil =>
      intro i fcnt h
      cases h
  | cons g fs ih =>
      intro i fcnt h
      unfold readHekaFieldLoop
      cases i with
      | zero =>
          cases h
          rw [if_pos hname]
          exact if_pos rfl
      | succ i =>
          rw [List.take_succ_cons, List.filter_cons]
          by_cases hg : nameMatches mem name g = true
          · rw [if_pos hg, if_pos hg, List.length_cons, if_neg (by omega),
              ← ih i (fcnt + 1) h]
            congr 1
            omega
          · rw [if_neg hg, if_neg hg]
            exact ih i fcnt h

theorem SelectsField.read {mem : Memory} {m : HekaMessage}
    {name : List UInt8} {fi i ai : Nat} {f : HekaField}
    (h : SelectsField mem m name fi i f) :
    lsbReadHekaField mem m name fi ai = readFieldValue mem f ai := by
  have hloop := @readHekaFieldLoop_at mem name f ai h.matches_eq m.fields i
    0 h.field_eq
  rw [Nat.zero_add, ← h.index_eq] at hloop
  exact hloop

end Heka
end LuaSandbox
