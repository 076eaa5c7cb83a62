import LuaSandbox.Foundation.CString
import LuaSandbox.Foundation.Double
import LuaSandbox.Util.Protobuf

/-!
# Heka messages

The decoded form of a Heka message: slices of the buffer it was decoded from.
The field values are decoded when they are read.
-/

namespace LuaSandbox
namespace Util

open Foundation

/-!
## Tags and value types
-/

def lsbUuidSize : Nat := 16
def lsbUuidStrSize : Nat := 36
def lsbHdrFrameSize : Nat := 3
def lsbMaxHdrSize : Nat := 255 + lsbHdrFrameSize

def lsbPbUuid : Nat := 1
def lsbPbTimestamp : Nat := 2
def lsbPbType : Nat := 3
def lsbPbLogger : Nat := 4
def lsbPbSeverity : Nat := 5
def lsbPbPayload : Nat := 6
def lsbPbEnvVersion : Nat := 7
def lsbPbPid : Nat := 8
def lsbPbHostname : Nat := 9
def lsbPbFields : Nat := 10

def lsbPbName : Nat := 1
def lsbPbValueType : Nat := 2
def lsbPbRepresentation : Nat := 3
def lsbPbValueString : Nat := 4
def lsbPbValueBytes : Nat := 5
def lsbPbValueInteger : Nat := 6
def lsbPbValueDouble : Nat := 7
def lsbPbValueBool : Nat := 8

def lsbPbString : Int := 0
def lsbPbBytes : Int := 1
def lsbPbInteger : Int := 2
def lsbPbDouble : Int := 3
def lsbPbBool : Int := 4

/-!
## The message structure
-/

/-- A slice of memory; the null pointer is `none`. -/
structure ConstString where
  s : Option Nat
  len : Nat
  deriving DecidableEq

namespace ConstString

def init : ConstString := ⟨none, 0⟩

/-- The bytes of a slice. -/
def bytes (mem : Memory) (v : ConstString) : List UInt8 :=
  match v.s with
  | none => []
  | some p => mem.bytes p v.len

end ConstString

structure HekaField where
  name : ConstString
  representation : ConstString
  value : ConstString
  valueType : Int
  deriving DecidableEq

def HekaField.init : HekaField :=
  ⟨ConstString.init, ConstString.init, ConstString.init, lsbPbString⟩

structure HekaMessage where
  raw : ConstString
  uuid : ConstString
  type : ConstString
  logger : ConstString
  payload : ConstString
  envVersion : ConstString
  hostname : ConstString
  fields : List HekaField
  timestamp : Int
  severity : Int
  pid : Int
  deriving DecidableEq

/-- The state of a cleared message. -/
def lsbClearHekaMessage : HekaMessage where
  raw := ConstString.init
  uuid := ConstString.init
  type := ConstString.init
  logger := ConstString.init
  payload := ConstString.init
  envVersion := ConstString.init
  hostname := ConstString.init
  fields := []
  timestamp := 0
  severity := 7
  pid := intMin

/-- A value read from a message. -/
inductive ReadValue where
  | nil
  | numeric (d : Double)
  | string (s : ConstString)
  | bool (d : Double)
  deriving DecidableEq

/-!
## Decoding
-/

def readString (mem : Memory) (wiretype p e : Nat) :
    Option (Nat × ConstString) :=
  if wiretype ≠ lsbPbWtLength then
    none
  else
    match lsbPbReadVarint mem p e with
    | none => none
    | some (p, vi) =>
        if toLongLong vi < 0 ∨ e < p + vi then none
        else some (p + vi, ⟨some p, vi⟩)

def processVarint (mem : Memory) (wiretype p e : Nat) : Option (Nat × Int) :=
  if wiretype ≠ lsbPbWtVarint then
    none
  else
    match lsbPbReadVarint mem p e with
    | none => none
    | some (p, vi) => some (p, toLongLong vi)

/-- The region of a packed value. -/
def packedLength (mem : Memory) (p e : Nat) : Option Nat :=
  match lsbPbReadVarint mem p e with
  | none => none
  | some (p, vi) => if toLongLong vi < 0 ∨ e < p + vi then none else some p

/-- One entry of a field record that ends at `e`. -/
def processFieldsEntry (mem : Memory) (e : Nat) (f : HekaField) (p : Nat) :
    Option Nat × HekaField :=
  let (p, tag, wiretype) := lsbPbReadKey mem p
  if tag = lsbPbName then
    match readString mem wiretype p e with
    | none => (none, f)
    | some (p, s) => (some p, { f with name := s })
  else if tag = lsbPbValueType then
    match processVarint mem wiretype p e with
    | none => (none, f)
    | some (p, vi) => (some p, { f with valueType := toInt vi })
  else if tag = lsbPbRepresentation then
    match readString mem wiretype p e with
    | none => (none, f)
    | some (p, s) => (some p, { f with representation := s })
  else if tag = lsbPbValueString ∨ tag = lsbPbValueBytes then
    -- the slice keeps the key of its first element
    if wiretype ≠ lsbPbWtLength then (none, f)
    else (some e, { f with value := ⟨some (p - 1), e - (p - 1)⟩ })
  else if tag = lsbPbValueInteger ∨ tag = lsbPbValueBool ∨
      tag = lsbPbValueDouble then
    if tag ≠ lsbPbValueDouble ∧ wiretype ≠ lsbPbWtVarint ∧
        wiretype ≠ lsbPbWtLength then
      (none, f)
    else if tag = lsbPbValueDouble ∧ wiretype ≠ lsbPbWtFixed64 ∧
        wiretype ≠ lsbPbWtLength then
      (none, f)
    else if wiretype = lsbPbWtLength then
      match packedLength mem p e with
      | none => (none, f)
      | some p => (some e, { f with value := ⟨some p, e - p⟩ })
    else
      (some e, { f with value := ⟨some p, e - p⟩ })
  else
    (none, f)

/-- The entries of a field record; every one takes at least one byte. -/
def processFieldsLoop (mem : Memory) (e : Nat) :
    Nat -> HekaField -> Nat -> Option Nat × HekaField
  | 0, f, _ => (none, f)
  | n + 1, f, p =>
      match processFieldsEntry mem e f p with
      | (none, f) => (none, f)
      | (some p, f) => if p < e then processFieldsLoop mem e n f p else (some p, f)

def processFields (mem : Memory) (p e : Nat) : Option Nat × HekaField :=
  match lsbPbReadVarint mem p e with
  | none => (none, HekaField.init)
  | some (p, vi) =>
      if toLongLong vi < 0 ∨ e < p + vi then
        (none, HekaField.init)
      else
        match processFieldsLoop mem (p + vi) (vi + 1) HekaField.init p with
        | (none, f) => (none, f)
        | (some p, f) => (if f.name.s = none then none else some p, f)

/-- One record of a message that ends at `ep`; the flag is the timestamp's. -/
def decodeRecord (mem : Memory) (ep : Nat) (m : HekaMessage)
    (timestamp : Bool) (cp : Nat) : Option Nat × HekaMessage × Bool :=
  let (cp, tag, wiretype) := lsbPbReadKey mem cp
  let string (set : ConstString -> HekaMessage) :=
    match readString mem wiretype cp ep with
    | none => (none, m, timestamp)
    | some (cp, s) => (some cp, set s, timestamp)
  if tag = lsbPbUuid then
    match readString mem wiretype cp ep with
    | none => (none, m, timestamp)
    | some (cp, s) =>
        (if s.len ≠ lsbUuidSize then none else some cp,
          { m with uuid := s }, timestamp)
  else if tag = lsbPbTimestamp then
    match processVarint mem wiretype cp ep with
    | none => (none, m, timestamp)
    | some (cp, val) => (some cp, { m with timestamp := val }, true)
  else if tag = lsbPbType then
    string (fun s => { m with type := s })
  else if tag = lsbPbLogger then
    string (fun s => { m with logger := s })
  else if tag = lsbPbSeverity then
    match processVarint mem wiretype cp ep with
    | none => (none, m, timestamp)
    | some (cp, val) => (some cp, { m with severity := toInt val }, timestamp)
  else if tag = lsbPbPayload then
    string (fun s => { m with payload := s })
  else if tag = lsbPbEnvVersion then
    string (fun s => { m with envVersion := s })
  else if tag = lsbPbPid then
    match processVarint mem wiretype cp ep with
    | none => (none, m, timestamp)
    | some (cp, val) => (some cp, { m with pid := toInt val }, timestamp)
  else if tag = lsbPbHostname then
    string (fun s => { m with hostname := s })
  else if tag = lsbPbFields then
    if wiretype ≠ lsbPbWtLength then
      (none, m, timestamp)
    else
      match processFields mem cp ep with
      | (cp, f) => (cp, { m with fields := m.fields ++ [f] }, timestamp)
  else
    (none, m, timestamp)

/-- The records of a message; every one takes at least one byte. -/
def decodeLoop (mem : Memory) (ep : Nat) :
    Nat -> HekaMessage -> Bool -> Nat -> Bool × HekaMessage × Bool
  | 0, m, timestamp, _ => (false, m, timestamp)
  | n + 1, m, timestamp, cp =>
      match decodeRecord mem ep m timestamp cp with
      | (none, m, timestamp) => (false, m, timestamp)
      | (some cp, m, timestamp) =>
          if cp < ep then decodeLoop mem ep n m timestamp cp
          else (true, m, timestamp)

/--
The success of decoding the `len` bytes at `buf`, and the message left in the
structure.
-/
def lsbDecodeHekaMessage (mem : Memory) (buf len : Nat) :
    Bool × HekaMessage :=
  if len = 0 then
    (false, lsbClearHekaMessage)
  else
    match decodeLoop mem (buf + len) len lsbClearHekaMessage false buf with
    | (false, m, _) => (false, m)
    | (true, m, timestamp) =>
        if m.uuid.s = none then (false, m)
        else if timestamp = false then (false, m)
        else (true, { m with raw := ⟨some buf, len⟩ })

/-!
## Reading field values
-/

def readStringValueLoop (mem : Memory) (e ai : Nat) :
    Nat -> Nat -> Nat -> Option ReadValue
  | 0, _, _ => none
  | n + 1, p, acnt =>
      if p < e then
        let (p, _, wiretype) := lsbPbReadKey mem p
        match readString mem wiretype p e with
        | none => none
        | some (p, s) =>
            if ai = acnt then some (ReadValue.string s)
            else readStringValueLoop mem e ai n p (acnt + 1)
      else
        none

def readStringValue (mem : Memory) (p e ai : Nat) : Option ReadValue :=
  readStringValueLoop mem e ai (e - p) p 0

def readIntegerValueLoop (mem : Memory) (e ai : Nat) :
    Nat -> Nat -> Nat -> Option ReadValue
  | 0, _, _ => none
  | n + 1, p, acnt =>
      if p < e then
        match lsbPbReadVarint mem p e with
        | none => none
        | some (p, ll) =>
            if ai = acnt then
              some (ReadValue.numeric (Double.ofInt (toLongLong ll)))
            else
              readIntegerValueLoop mem e ai n p (acnt + 1)
      else
        none

def readIntegerValue (mem : Memory) (p e ai : Nat) : Option ReadValue :=
  readIntegerValueLoop mem e ai (e - p) p 0

def readDoubleValue (mem : Memory) (p e ai : Nat) : Option ReadValue :=
  -- `ai + 1` is an `int`
  if (p : Int) + 8 * toInt (ai + 1) > e then
    none
  else
    some (ReadValue.numeric (Double.ofBytes (mem.bytes (p + 8 * ai) 8)))

/-- The value at array index `ai` of a field. -/
def readFieldValue (mem : Memory) (f : HekaField) (ai : Nat) :
    Option ReadValue :=
  match f.value.s with
  | none => none
  | some p =>
      let e := p + f.value.len
      if f.valueType = lsbPbString ∨ f.valueType = lsbPbBytes then
        readStringValue mem p e ai
      else if f.valueType = lsbPbInteger then
        readIntegerValue mem p e ai
      else if f.valueType = lsbPbBool then
        match readIntegerValue mem p e ai with
        | some (ReadValue.numeric d) => some (ReadValue.bool d)
        | _ => none
      else if f.valueType = lsbPbDouble then
        readDoubleValue mem p e ai
      else
        none

/-- The field is called `name`. -/
def nameMatches (mem : Memory) (name : List UInt8) (f : HekaField) : Bool :=
  name.length = f.name.len &&
    strncmp name (f.name.bytes mem) f.name.len = 0

def readHekaFieldLoop (mem : Memory) (name : List UInt8) (fi ai : Nat) :
    Nat -> List HekaField -> Option ReadValue
  | _, [] => none
  | fcnt, f :: rest =>
      if nameMatches mem name f then
        if fi = fcnt then readFieldValue mem f ai
        else readHekaFieldLoop mem name fi ai (fcnt + 1) rest
      else
        readHekaFieldLoop mem name fi ai fcnt rest

/--
The value at array index `ai` of the field with the name `name` that follows
`fi` others of that name.
-/
def lsbReadHekaField (mem : Memory) (m : HekaMessage) (name : List UInt8)
    (fi ai : Nat) : Option ReadValue :=
  readHekaFieldLoop mem name fi ai 0 m.fields

end Util
end LuaSandbox
