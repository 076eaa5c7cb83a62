import LuaSandbox.Util.ReadSets

/-!
# Decoding to a table

The decoder that gives a plugin a message as a Lua table.  It reads the field
values, too, and has parsers of its own for them.
-/

namespace LuaSandbox
namespace Heka

open Foundation
open Util

/-!
## Message tables
-/

/-- A field value in a table. -/
inductive TableValue where
  | string (s : List UInt8)
  | number (d : Double)
  | boolean (b : Bool)
  deriving DecidableEq

/-- An element of the array `Fields`. -/
structure TableField where
  name : Option (List UInt8)
  valueType : Option Double
  representation : Option (List UInt8)
  value : List TableValue
  deriving DecidableEq

def TableField.empty : TableField :=
  ⟨none, none, none, []⟩

/-- The table of a message; an entry that was not set is `none`. -/
structure MessageTable where
  uuid : Option (List UInt8)
  timestamp : Option Double
  type : Option (List UInt8)
  logger : Option (List UInt8)
  severity : Option Double
  payload : Option (List UInt8)
  envVersion : Option (List UInt8)
  pid : Option Double
  hostname : Option (List UInt8)
  fields : List TableField
  deriving DecidableEq

def MessageTable.empty : MessageTable :=
  ⟨none, none, none, none, none, none, none, none, none, []⟩

/-!
## Field records
-/

/-- The length of a string, a packed value or a record that ends in front of
`e`, and the address behind it. -/
def readLength (mem : Memory) (p e : Nat) : Option (Nat × Nat) :=
  match lsbPbReadVarint mem p e with
  | none => none
  | some (p, len) =>
      if toLongLong len < 0 ∨ e < p + len then none else some (p, len)

def readTableString (mem : Memory) (wiretype p e : Nat) :
    Option (Nat × List UInt8) :=
  if wiretype ≠ lsbPbWtLength then
    none
  else
    match readLength mem p e with
    | none => none
    | some (p, len) => some (p + len, mem.bytes p len)

def processTableVarint (mem : Memory) (wiretype p e : Nat) :
    Option (Nat × Double) :=
  if wiretype ≠ lsbPbWtVarint then
    none
  else
    match lsbPbReadVarint mem p e with
    | none => none
    | some (p, val) => some (p, Double.ofInt (toLongLong val))

def integerValue (val : Nat) : TableValue :=
  TableValue.number (Double.ofInt (toLongLong val))

def booleanValue (val : Nat) : TableValue :=
  TableValue.boolean (toInt (toLongLong val) ≠ 0)

/-- Packed varints are read up to the end of the record, each from `len` bytes
at most. -/
def packedVarints (mem : Memory) (e len : Nat) (value : Nat -> TableValue) :
    Nat -> Nat -> Option (Nat × List TableValue)
  | 0, _ => none
  | n + 1, p =>
      match lsbPbReadVarint mem p (p + len) with
      | none => none
      | some (p, val) =>
          if p < e then
            match packedVarints mem e len value n p with
            | none => none
            | some (p, values) => some (p, value val :: values)
          else
            some (p, [value val])

/-- Packed doubles are read up to the end of the record. -/
def packedDoubles (mem : Memory) (e : Nat) :
    Nat -> Nat -> Option (Nat × List TableValue)
  | 0, _ => none
  | n + 1, p =>
      let val := TableValue.number (Double.ofBytes (mem.bytes p 8))
      if p + 8 < e then
        match packedDoubles mem e n (p + 8) with
        | none => none
        | some (p, values) => some (p, val :: values)
      else
        some (p + 8, [val])

/-- The values of an integer or boolean entry, and what the variable `len`
holds afterwards. -/
def readVarintValues (mem : Memory) (e len : Nat)
    (value : Nat -> TableValue) (wiretype p : Nat) :
    Option (Nat × List TableValue × Nat) :=
  if wiretype = lsbPbWtVarint then
    match lsbPbReadVarint mem p (p + len) with
    | none => none
    | some (p, val) => some (p, [value val], len)
  else if wiretype = lsbPbWtLength then
    match readLength mem p e with
    | none => none
    | some (p, len) =>
        match packedVarints mem e len value (e - p + 1) p with
        | none => none
        | some (p, values) => some (p, values, len)
  else
    none

def readDoubleValues (mem : Memory) (e len wiretype p : Nat) :
    Option (Nat × List TableValue × Nat) :=
  if wiretype = lsbPbWtFixed64 then
    if e < p + 8 then
      none
    else
      some (p + 8,
        [TableValue.number (Double.ofBytes (mem.bytes p 8))], len)
  else if wiretype = lsbPbWtLength then
    match readLength mem p e with
    | none => none
    | some (p, len) =>
        if len % 8 ≠ 0 then
          none
        else
          match packedDoubles mem e (e - p + 1) p with
          | none => none
          | some (p, values) => some (p, values, len)
  else
    none

/-- The state of the loop over the entries of a field record. -/
structure FieldState where
  field : TableField
  len : Nat
  deriving DecidableEq

def FieldState.append (st : FieldState) (values : List TableValue)
    (len : Nat) : FieldState :=
  ⟨{ st.field with value := st.field.value ++ values }, len⟩

/-- One entry of a field record that ends at `e`. -/
def processTableEntry (mem : Memory) (e : Nat) (st : FieldState) (p : Nat) :
    Option (Nat × FieldState) :=
  let (p, tag, wiretype) := lsbPbReadKey mem p
  let values (r : Option (Nat × List TableValue × Nat)) :=
    match r with
    | none => none
    | some (p, values, len) => some (p, st.append values len)
  if tag = lsbPbName then
    match readTableString mem wiretype p e with
    | none => none
    | some (p, s) =>
        some (p, { st with field := { st.field with name := some s } })
  else if tag = lsbPbValueType then
    match processTableVarint mem wiretype p e with
    | none => none
    | some (p, val) =>
        some (p, { st with field := { st.field with valueType := some val } })
  else if tag = lsbPbRepresentation then
    match readTableString mem wiretype p e with
    | none => none
    | some (p, s) =>
        some (p,
          { st with field := { st.field with representation := some s } })
  else if tag = lsbPbValueString ∨ tag = lsbPbValueBytes then
    match readTableString mem wiretype p e with
    | none => none
    | some (p, s) => some (p, st.append [TableValue.string s] st.len)
  else if tag = lsbPbValueInteger then
    values (readVarintValues mem e st.len integerValue wiretype p)
  else if tag = lsbPbValueDouble then
    values (readDoubleValues mem e st.len wiretype p)
  else if tag = lsbPbValueBool then
    values (readVarintValues mem e st.len booleanValue wiretype p)
  else
    none

def processTableLoop (mem : Memory) (e : Nat) :
    Nat -> FieldState -> Nat -> Option (Nat × FieldState)
  | 0, _, _ => none
  | n + 1, st, p =>
      match processTableEntry mem e st p with
      | none => none
      | some (p, st) =>
          if p < e then processTableLoop mem e n st p else some (p, st)

/-- The field record at `p`, behind its key. -/
def processTableFields (mem : Memory) (p e : Nat) :
    Option (Nat × TableField) :=
  match readLength mem p e with
  | none => none
  | some (p, len) =>
      match processTableLoop mem (p + len) (len + 1)
        ⟨TableField.empty, len⟩ p with
      | none => none
      | some (p, st) =>
          if st.field.name = none then none else some (p, st.field)

/-!
## Messages
-/

inductive DecodeError where
  | tooShort
  | inTag (tag wiretype offset : Nat)
  | missing (uuid timestamp : Bool)
  deriving DecidableEq

def DecodeError.message : DecodeError -> String
  | tooShort => "invalid message, too short"
  | inTag tag wiretype offset =>
      s!"error in tag: {tag} wiretype: {wiretype} offset: {offset}"
  | missing uuid timestamp =>
      let text (found : Bool) := if found then "found" else "not found"
      "missing required field uuid: " ++ text uuid ++ " timestamp: " ++
        text timestamp

/-- One record of a message that ends at `e`; the one before ended at `p`. -/
def decodeTableRecord (mem : Memory) (e : Nat) (t : MessageTable) (p : Nat) :
    Option (Nat × MessageTable) :=
  let (q, tag, wiretype) := lsbPbReadKey mem p
  let string (set : List UInt8 -> MessageTable) :=
    match readTableString mem wiretype q e with
    | none => none
    | some (q, s) => some (q, set s)
  let number (set : Double -> MessageTable) :=
    match processTableVarint mem wiretype q e with
    | none => none
    | some (q, d) => some (q, set d)
  if tag = lsbPbUuid then
    match readTableString mem wiretype q e with
    | none => none
    | some (q, s) =>
        if q - p = 18 then some (q, { t with uuid := some s }) else none
  else if tag = lsbPbTimestamp then
    number (fun d => { t with timestamp := some d })
  else if tag = lsbPbType then
    string (fun s => { t with type := some s })
  else if tag = lsbPbLogger then
    string (fun s => { t with logger := some s })
  else if tag = lsbPbSeverity then
    number (fun d => { t with severity := some d })
  else if tag = lsbPbPayload then
    string (fun s => { t with payload := some s })
  else if tag = lsbPbEnvVersion then
    string (fun s => { t with envVersion := some s })
  else if tag = lsbPbPid then
    number (fun d => { t with pid := some d })
  else if tag = lsbPbHostname then
    string (fun s => { t with hostname := some s })
  else if tag = lsbPbFields then
    if wiretype ≠ lsbPbWtLength then
      none
    else
      match processTableFields mem q e with
      | none => none
      | some (q, f) => some (q, { t with fields := t.fields ++ [f] })
  else
    none

/-- The records of a message that starts at `pbstr`. -/
def decodeTableLoop (mem : Memory) (pbstr e : Nat) :
    Nat -> MessageTable -> Nat -> Except DecodeError MessageTable
  | 0, _, p => Except.error (DecodeError.inTag 0 0 (p - pbstr))
  | n + 1, t, p =>
      match decodeTableRecord mem e t p with
      | none =>
          let (_, tag, wiretype) := lsbPbReadKey mem p
          Except.error (DecodeError.inTag tag wiretype (p - pbstr))
      | some (p, t) =>
          if p < e then decodeTableLoop mem pbstr e n t p else Except.ok t

/-- The table of the message in the `len` bytes at `pbstr`. -/
def hekaDecodeMessage (mem : Memory) (pbstr len : Nat) :
    Except DecodeError MessageTable :=
  if len < 20 then
    Except.error DecodeError.tooShort
  else
    match decodeTableLoop mem pbstr (pbstr + len) len MessageTable.empty
      pbstr with
    | Except.error e => Except.error e
    | Except.ok t =>
        if t.uuid = none ∨ t.timestamp = none then
          Except.error
            (DecodeError.missing (t.uuid ≠ none) (t.timestamp ≠ none))
        else
          Except.ok t

/-!
## The bytes that are read
-/

def readTableStringReads (mem : Memory) (wiretype p e : Nat) : List Nat :=
  if wiretype ≠ lsbPbWtLength then
    []
  else
    readVarintReads mem p e ++
      match readLength mem p e with
      | none => []
      | some (p, len) => List.range' p len

def packedVarintsReads (mem : Memory) (e len : Nat) : Nat -> Nat -> List Nat
  | 0, _ => []
  | n + 1, p =>
      readVarintReads mem p (p + len) ++
        match lsbPbReadVarint mem p (p + len) with
        | none => []
        | some (p, _) => if p < e then packedVarintsReads mem e len n p else []

def packedDoublesReads (e : Nat) : Nat -> Nat -> List Nat
  | 0, _ => []
  | n + 1, p =>
      List.range' p 8 ++
        if p + 8 < e then packedDoublesReads e n (p + 8) else []

def readVarintValuesReads (mem : Memory) (e len wiretype p : Nat) :
    List Nat :=
  if wiretype = lsbPbWtVarint then
    readVarintReads mem p (p + len)
  else if wiretype = lsbPbWtLength then
    readVarintReads mem p e ++
      match readLength mem p e with
      | none => []
      | some (p, len) => packedVarintsReads mem e len (e - p + 1) p
  else
    []

def readDoubleValuesReads (mem : Memory) (e wiretype p : Nat) : List Nat :=
  if wiretype = lsbPbWtFixed64 then
    if e < p + 8 then [] else List.range' p 8
  else if wiretype = lsbPbWtLength then
    readVarintReads mem p e ++
      match readLength mem p e with
      | none => []
      | some (p, len) =>
          if len % 8 ≠ 0 then [] else packedDoublesReads e (e - p + 1) p
  else
    []

def processTableEntryReads (mem : Memory) (e len p : Nat) : List Nat :=
  let (q, tag, wiretype) := lsbPbReadKey mem p
  p ::
    if tag = lsbPbName ∨ tag = lsbPbRepresentation ∨
        tag = lsbPbValueString ∨ tag = lsbPbValueBytes then
      readTableStringReads mem wiretype q e
    else if tag = lsbPbValueType then
      processVarintReads mem wiretype q e
    else if tag = lsbPbValueInteger ∨ tag = lsbPbValueBool then
      readVarintValuesReads mem e len wiretype q
    else if tag = lsbPbValueDouble then
      readDoubleValuesReads mem e wiretype q
    else
      []

def processTableLoopReads (mem : Memory) (e : Nat) :
    Nat -> FieldState -> Nat -> List Nat
  | 0, _, _ => []
  | n + 1, st, p =>
      processTableEntryReads mem e st.len p ++
        match processTableEntry mem e st p with
        | none => []
        | some (p, st) => if p < e then processTableLoopReads mem e n st p else []

def processTableFieldsReads (mem : Memory) (p e : Nat) : List Nat :=
  readVarintReads mem p e ++
    match readLength mem p e with
    | none => []
    | some (p, len) =>
        processTableLoopReads mem (p + len) (len + 1)
          ⟨TableField.empty, len⟩ p

def decodeTableRecordReads (mem : Memory) (e p : Nat) : List Nat :=
  let (q, tag, wiretype) := lsbPbReadKey mem p
  p ::
    if tag = lsbPbUuid ∨ tag = lsbPbType ∨ tag = lsbPbLogger ∨
        tag = lsbPbPayload ∨ tag = lsbPbEnvVersion ∨ tag = lsbPbHostname then
      readTableStringReads mem wiretype q e
    else if tag = lsbPbTimestamp ∨ tag = lsbPbSeverity ∨ tag = lsbPbPid then
      processVarintReads mem wiretype q e
    else if tag = lsbPbFields ∧ wiretype = lsbPbWtLength then
      processTableFieldsReads mem q e
    else
      []

def decodeTableLoopReads (mem : Memory) (e : Nat) :
    Nat -> MessageTable -> Nat -> List Nat
  | 0, _, _ => []
  | n + 1, t, p =>
      decodeTableRecordReads mem e p ++
        match decodeTableRecord mem e t p with
        | none => []
        | some (p, t) => if p < e then decodeTableLoopReads mem e n t p else []

/-- The addresses of the bytes that are read to decode the `len` bytes at
`pbstr`, the contents of strings among them. -/
def hekaDecodeMessageReads (mem : Memory) (pbstr len : Nat) : List Nat :=
  if len < 20 then []
  else decodeTableLoopReads mem (pbstr + len) len MessageTable.empty pbstr

end Heka
end LuaSandbox
