import LuaSandbox.Util.Piece

/-!
# What a message says

Messages without regard to where their bytes stand, and the bytes that the
encoder writes for them.
-/

namespace LuaSandbox
namespace Util

open Foundation

/-- The values of a field.  Strings may have the type of strings or of bytes;
the text of a userdata value has the type of bytes. -/
inductive FieldValues where
  | strings (asBytes : Bool) (xs : List (List UInt8))
  | output (text : List UInt8)
  | integers (xs : List Int)
  | doubles (xs : List Double)
  | bools (xs : List Bool)
  deriving DecidableEq

structure FieldContent where
  name : List UInt8
  representation : Option (List UInt8)
  values : FieldValues
  deriving DecidableEq

/-- A header that is not set is `none`. -/
structure MessageContent where
  uuid : List UInt8
  timestamp : Int
  type : Option (List UInt8)
  logger : Option (List UInt8)
  severity : Option Int
  payload : Option (List UInt8)
  envVersion : Option (List UInt8)
  pid : Option Int
  hostname : Option (List UInt8)
  fields : List FieldContent
  uuid_length : uuid.length = lsbUuidSize
  deriving DecidableEq

/-!
## Pieces
-/

def optionalString (tag : Nat) : Option (List UInt8) -> Piece
  | some s => Piece.string tag s
  | none => Piece.empty

def intPiece (tag : Nat) (i : Int) : Piece :=
  Piece.key tag lsbPbWtVarint ++ Piece.varint (ofLongLong i)

def optionalInt (tag : Nat) : Option Int -> Piece
  | some i => intPiece tag i
  | none => Piece.empty

def valueTypePiece (valueType : Nat) : Piece :=
  Piece.key lsbPbValueType lsbPbWtVarint ++ Piece.varint valueType

/-- What stands in front of the values; strings have the default type. -/
def valuesHead (valueType : Nat) (representation : Option (List UInt8)) :
    Piece :=
  (if valueType = 0 then Piece.empty else valueTypePiece valueType) ++
    optionalString lsbPbRepresentation representation

namespace FieldValues

def valueType : FieldValues -> Nat
  | strings asBytes _ => if asBytes then 1 else 0
  | output _ => 1
  | integers _ => 2
  | doubles _ => 3
  | bools _ => 4

def stringTag (asBytes : Bool) : Nat :=
  if asBytes then lsbPbValueBytes else lsbPbValueString

/-- An output function asks for room for a NUL. -/
def outputPiece (text : List UInt8) : Piece :=
  Piece.key lsbPbValueBytes lsbPbWtLength ++
    Piece.prefixed ⟨text, text.length + 1, Nat.le_succ _⟩

/-- One value has a key of its own, several ones are packed. -/
def integersPiece : List Int -> Piece
  | [x] => intPiece lsbPbValueInteger x
  | xs =>
      Piece.key lsbPbValueInteger lsbPbWtLength ++
        Piece.prefixed (Piece.concat
          (xs.map (fun x => Piece.varint (ofLongLong x))))

def doublesPiece : List Double -> Piece
  | [x] => Piece.key lsbPbValueDouble lsbPbWtFixed64 ++ Piece.raw x.toBytes
  | xs =>
      Piece.key lsbPbValueDouble lsbPbWtLength ++
        Piece.varint (8 * xs.length) ++
        Piece.concat (xs.map (fun x => Piece.raw x.toBytes))

def boolPiece (b : Bool) : Piece := Piece.raw [if b then 1 else 0]

def boolsPiece : List Bool -> Piece
  | [x] => Piece.key lsbPbValueBool lsbPbWtVarint ++ boolPiece x
  | xs =>
      Piece.key lsbPbValueBool lsbPbWtLength ++ Piece.varint xs.length ++
        Piece.concat (xs.map boolPiece)

theorem integersPiece_many (x y : Int) (xs : List Int) :
    integersPiece (x :: y :: xs) =
      Piece.key lsbPbValueInteger lsbPbWtLength ++
        Piece.prefixed (Piece.concat ((x :: y :: xs).map
          (fun x => Piece.varint (ofLongLong x)))) :=
  rfl

theorem doublesPiece_many (x y : Double) (xs : List Double) :
    doublesPiece (x :: y :: xs) =
      Piece.key lsbPbValueDouble lsbPbWtLength ++
        Piece.varint (8 * (x :: y :: xs).length) ++
        Piece.concat ((x :: y :: xs).map (fun x => Piece.raw x.toBytes)) :=
  rfl

theorem boolsPiece_many (x y : Bool) (xs : List Bool) :
    boolsPiece (x :: y :: xs) =
      Piece.key lsbPbValueBool lsbPbWtLength ++
        Piece.varint (x :: y :: xs).length ++
        Piece.concat ((x :: y :: xs).map boolPiece) :=
  rfl

def piece : FieldValues -> Piece
  | strings asBytes xs =>
      Piece.concat (xs.map (Piece.string (stringTag asBytes)))
  | output text => outputPiece text
  | integers xs => integersPiece xs
  | doubles xs => doublesPiece xs
  | bools xs => boolsPiece xs

end FieldValues

def FieldContent.piece (f : FieldContent) : Piece :=
  Piece.key lsbPbFields lsbPbWtLength ++
    Piece.prefixed (Piece.string lsbPbName f.name ++
      valuesHead f.values.valueType f.representation ++ f.values.piece)

namespace MessageContent

def uuidPiece (uuid : List UInt8) : Piece :=
  Piece.raw (lsbPbKey lsbPbUuid lsbPbWtLength :: UInt8.ofNat lsbUuidSize ::
    uuid)

/-- The records behind the uuid. -/
def records (m : MessageContent) : Piece :=
  intPiece lsbPbTimestamp m.timestamp ++
    optionalString lsbPbType m.type ++
    optionalString lsbPbLogger m.logger ++
    optionalInt lsbPbSeverity m.severity ++
    optionalString lsbPbPayload m.payload ++
    optionalString lsbPbEnvVersion m.envVersion ++
    optionalInt lsbPbPid m.pid ++
    optionalString lsbPbHostname m.hostname ++
    Piece.concat (m.fields.map FieldContent.piece)

/-- The message with room for a NUL behind it. -/
def piece (m : MessageContent) : Piece :=
  uuidPiece m.uuid ++ m.records ++ Piece.room 1

end MessageContent

end Util
end LuaSandbox
