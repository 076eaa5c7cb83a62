import LuaSandbox.Heka.EncodePieces

/-!
# What field values append

The encoders of values, of arrays and of objects, for the values that can be
encoded.
-/

namespace LuaSandbox
namespace Heka

open Foundation
open Lua
open Util
open Core

/-!
## Parts of a field
-/

theorem Encodes.seq {β : Type} {x : Enc Unit} {y : Enc β}
    {L L' L'' : LuaState} {c d : Piece} {b : β} (hx : Encodes x L c () L')
    (hy : Encodes y L' d b L'') : Encodes (x >>= fun _ => y) L (c ++ d) b L'' :=
  hx.bind hy

theorem encodes_getPos {β : Type} {f : Nat -> Enc β} {L L' : LuaState}
    {c : Piece} {b : β} (h : forall pos, Encodes (f pos) L c b L') :
    Encodes (getPos >>= f) L c b L' where
  ok := by
    intro s a t hL hrun
    rw [Computation.run_bind_ok (run_getPos s)] at hrun
    exact (h s.w.ob.pos).ok hL hrun
  error := by
    intro s stop t hL hrun
    rw [Computation.run_bind_ok (run_getPos s)] at hrun
    exact (h s.w.ob.pos).error hL hrun

section

variable (L : LuaState)

theorem encodes_key (tag wiretype : Nat) :
    Encodes (write (lsbPbWriteKey tag wiretype)) L (Piece.key tag wiretype) ()
      L :=
  encodes_write (emits_key tag wiretype) L

theorem encodes_varint (i : Nat) :
    Encodes (write (lsbPbWriteVarint i)) L (Piece.varint i) () L :=
  encodes_write (emits_varint i) L

theorem encodes_string (tag : Nat) (s : List UInt8) :
    Encodes (write (lsbPbWriteString tag s)) L (Piece.string tag s) () L :=
  encodes_write (emits_string tag s) L

theorem encodes_representation (representation : Option (List UInt8)) :
    Encodes (encodeRepresentation representation) L
      (optionalString lsbPbRepresentation representation) () L := by
  cases representation with
  | none => exact Encodes.pure () L
  | some s => exact encodes_string L lsbPbRepresentation s

theorem encodes_valueType (valueType : Nat) :
    Encodes (encodeValueType valueType) L (valueTypePiece valueType) () L :=
  (encodes_key L _ _).seq (encodes_varint L _)

end

/-!
## Single values
-/

/-- The value type of a field whose values have a Lua type; a type of -1 is not
specified. -/
def fieldType (valueType : Int) : LuaType -> Option Nat
  | LuaType.string =>
      if valueType = -1 ∨ valueType = 0 then some 0
      else if valueType = 1 then some 1
      else none
  | LuaType.number =>
      if valueType = -1 ∨ valueType = 3 then some 3
      else if valueType = 2 then some 2
      else none
  | LuaType.boolean =>
      if valueType = -1 ∨ valueType = 4 then some 4 else none
  | _ => none

section

variable {valueType : Int} {n : Nat}

theorem fieldType_string :
    fieldType valueType LuaType.string = some n <->
      (valueType = -1 ∨ valueType = 0) ∧ n = 0 ∨ valueType = 1 ∧ n = 1 := by
  change (if valueType = -1 ∨ valueType = 0 then some 0
    else if valueType = 1 then some 1 else none) = some n <-> _
  split
  · rw [Option.some.injEq]
    omega
  split
  · rw [Option.some.injEq]
    omega
  · constructor
    · nofun
    · omega

theorem fieldType_number :
    fieldType valueType LuaType.number = some n <->
      (valueType = -1 ∨ valueType = 3) ∧ n = 3 ∨ valueType = 2 ∧ n = 2 := by
  change (if valueType = -1 ∨ valueType = 3 then some 3
    else if valueType = 2 then some 2 else none) = some n <-> _
  split
  · rw [Option.some.injEq]
    omega
  split
  · rw [Option.some.injEq]
    omega
  · constructor
    · nofun
    · omega

theorem fieldType_boolean :
    fieldType valueType LuaType.boolean = some n <->
      (valueType = -1 ∨ valueType = 4) ∧ n = 4 := by
  change (if valueType = -1 ∨ valueType = 4 then some 4 else none) = some n
    <-> _
  split
  · rw [Option.some.injEq]
    omega
  · constructor
    · nofun
    · omega

end

def stringOf : Value -> List UInt8
  | Value.string s => s
  | _ => []

def numberOf : Value -> Double
  | Value.number d => d
  | _ => ⟨0⟩

def booleanOf : Value -> Bool
  | Value.boolean b => b
  | _ => false

/-- Values of one Lua type as the values of a field. -/
def fieldValues (fieldType : Nat) (vs : List Value) : FieldValues :=
  match fieldType with
  | 0 => FieldValues.strings false (vs.map stringOf)
  | 1 => FieldValues.strings true (vs.map stringOf)
  | 2 => FieldValues.integers (vs.map (fun v => (numberOf v).toLongLong))
  | 3 => FieldValues.doubles (vs.map numberOf)
  | _ => FieldValues.bools (vs.map booleanOf)

def elementPiece (fieldType : Nat) (v : Value) : Piece :=
  match fieldType with
  | 0 => Piece.string lsbPbValueString (stringOf v)
  | 1 => Piece.string lsbPbValueBytes (stringOf v)
  | 2 => Piece.varint (ofLongLong (numberOf v).toLongLong)
  | 3 => Piece.raw (numberOf v).toBytes
  | _ => FieldValues.boolPiece (booleanOf v)

/-- The key of `first` numbers, without the length of packed integers. -/
def keyPiece (fieldType : Nat) (first : Int) : Piece :=
  match fieldType with
  | 2 =>
      if first = 1 then Piece.key lsbPbValueInteger lsbPbWtVarint
      else Piece.key lsbPbValueInteger lsbPbWtLength ++ Piece.varint 0
  | 3 =>
      if first = 1 then Piece.key lsbPbValueDouble lsbPbWtFixed64
      else Piece.key lsbPbValueDouble lsbPbWtLength ++
        Piece.varint (ofLongLong (first * 8))
  | 4 =>
      if first = 1 then Piece.key lsbPbValueBool lsbPbWtVarint
      else Piece.key lsbPbValueBool lsbPbWtLength ++
        Piece.varint (ofLongLong first)
  | _ => Piece.empty

theorem keyPiece_integers {first : Int} (h : first ≠ 1) :
    keyPiece 2 first = Piece.key lsbPbValueInteger lsbPbWtLength ++
      Piece.varint 0 :=
  if_neg h

theorem keyPiece_doubles {first : Int} (h : first ≠ 1) :
    keyPiece 3 first = Piece.key lsbPbValueDouble lsbPbWtLength ++
      Piece.varint (ofLongLong (first * 8)) :=
  if_neg h

theorem keyPiece_bools {first : Int} (h : first ≠ 1) :
    keyPiece 4 first = Piece.key lsbPbValueBool lsbPbWtLength ++
      Piece.varint (ofLongLong first) :=
  if_neg h

def startPiece (fieldType : Nat) (representation : Option (List UInt8))
    (first : Int) : Piece :=
  if first = 0 then Piece.empty
  else valuesHead fieldType representation ++ keyPiece fieldType first

section

variable (L : LuaState) (first : Int)
  (representation : Option (List UInt8)) {valueType : Int} {n : Nat}

/-- An encoder of what stands in front of the first value only. -/
theorem encodes_start {x : Enc Unit}
    (h : first ≠ 0 -> Encodes x L
      (valuesHead n representation ++ keyPiece n first) () L) :
    Encodes (onlyIf (first ≠ 0) x) L (startPiece n representation first) ()
      L := by
  unfold startPiece
  by_cases hzero : first = 0
  · rw [if_pos hzero]
    exact encodes_onlyIf_neg (not_not.mpr hzero)
  · rw [if_neg hzero]
    exact encodes_onlyIf_pos hzero (h hzero)

theorem encodes_stringValue (h : fieldType valueType LuaType.string = some n)
    (s : List UInt8) :
    Encodes (encodeStringValue first representation valueType s) L
      (startPiece n representation first ++ elementPiece n (Value.string s))
      () L := by
  have hrepresentation := encodes_representation L representation
  unfold encodeStringValue
  rcases fieldType_string.mp h with ⟨hvalid, rfl⟩ | ⟨hbytes, rfl⟩
  · have hnotBytes : valueType ≠ lsbPbBytes := by
      unfold lsbPbBytes
      omega
    rw [if_neg (by omega), if_neg hnotBytes]
    refine (encodes_start L first representation (fun _ => ?_)).seq
      (encodes_string L _ _)
    change Encodes _ L (Piece.empty ++ _ ++ Piece.empty) () L
    rw [Piece.append_empty]
    exact (encodes_onlyIf_neg hnotBytes).seq hrepresentation
  · have hbytes' : valueType = lsbPbBytes := hbytes
    rw [if_neg (by omega), if_pos hbytes']
    refine (encodes_start L first representation (fun _ => ?_)).seq
      (encodes_string L _ _)
    change Encodes _ L (valueTypePiece 1 ++ _ ++ Piece.empty) () L
    rw [Piece.append_empty]
    exact (encodes_onlyIf_pos hbytes' (encodes_valueType L 1)).seq
      hrepresentation

theorem encodes_numberKey (h : n = 2 ∨ n = 3) :
    Encodes (encodeNumberKey first n) L (keyPiece n first) () L := by
  unfold encodeNumberKey
  rcases h with rfl | rfl
  · have hinteger : ((2 : Nat) : Int) = lsbPbInteger := rfl
    rw [if_pos hinteger, if_pos hinteger]
    change Encodes _ L (if first = 1 then _ else _) () L
    split
    · exact encodes_key L _ _
    · exact (encodes_key L _ _).seq (encodes_varint L 0)
  · have hdouble : ((3 : Nat) : Int) ≠ lsbPbInteger := by decide
    rw [if_neg hdouble, if_neg hdouble]
    change Encodes _ L (if first = 1 then _ else _) () L
    split
    · exact encodes_key L _ _
    · exact (encodes_key L _ _).seq (encodes_varint L _)

theorem encodes_numberValue (h : fieldType valueType LuaType.number = some n)
    (d : Double) :
    Encodes (encodeNumberValue first representation valueType d) L
      (startPiece n representation first ++ elementPiece n (Value.number d))
      () L := by
  have hvalid : ¬ (valueType ≠ -1 ∧ valueType ≠ 2 ∧ valueType ≠ 3) ∧
      (if valueType = -1 then lsbPbDouble else valueType) = (n : Int) ∧
      (n = 2 ∨ n = 3) := by
    have hcases := fieldType_number.mp h
    unfold lsbPbDouble
    omega
  rcases hvalid with ⟨hvalid, htype, hn⟩
  unfold encodeNumberValue
  rw [if_neg hvalid]
  dsimp only
  rw [htype, Int.toNat_natCast]
  have hstart := encodes_start L first representation (n := n) (fun _ => by
    have hhead : Encodes (do
        encodeValueType n
        encodeRepresentation representation
        encodeNumberKey first n) L _ () L :=
      (encodes_valueType L n).seq ((encodes_representation L
        representation).seq (encodes_numberKey L first hn))
    unfold valuesHead
    rw [if_neg (by omega), Piece.append_assoc]
    exact hhead)
  refine hstart.seq ?_
  rcases hn with rfl | rfl
  · have hinteger : ((2 : Nat) : Int) = lsbPbInteger := rfl
    rw [if_pos hinteger]
    exact encodes_varint L _
  · rw [if_neg (by decide)]
    exact encodes_write (emits_put 8 _ _) L

theorem encodes_booleanKey :
    Encodes (encodeBooleanKey first) L (keyPiece 4 first) () L := by
  unfold encodeBooleanKey
  change Encodes _ L (if first = 1 then _ else _) () L
  split
  · exact encodes_key L _ _
  · exact (encodes_key L _ _).seq (encodes_varint L _)

theorem encodes_booleanValue
    (h : fieldType valueType LuaType.boolean = some n) (b : Bool) :
    Encodes (encodeBooleanValue first representation valueType b) L
      (startPiece n representation first ++ elementPiece n (Value.boolean b))
      () L := by
  rcases fieldType_boolean.mp h with ⟨hvalid, rfl⟩
  unfold encodeBooleanValue lsbPbBool
  rw [if_neg (by omega)]
  have hstart := encodes_start L first representation (n := 4) (fun _ => by
    have hhead : Encodes (do
        encodeValueType 4
        encodeRepresentation representation
        encodeBooleanKey first) L _ () L :=
      (encodes_valueType L 4).seq ((encodes_representation L
        representation).seq (encodes_booleanKey L first))
    unfold valuesHead
    rw [if_neg (by decide), Piece.append_assoc]
    exact hhead)
  exact hstart.seq (encodes_write (emits_put 1 _ _) L)

variable (env : EncodeEnv) (below : Value)

theorem encodes_scalar {v : Value}
    (h : fieldType valueType v.type = some n) (m : Nat) :
    Encodes (encodeFieldValue env (m + 1) below first representation valueType
        v) L
      (startPiece n representation first ++ elementPiece n v) () L := by
  cases v with
  | string s => exact encodes_stringValue L first representation h s
  | number d => exact encodes_numberValue L first representation h d
  | boolean b => exact encodes_booleanValue L first representation h b
  | nil | lightuserdata | table | function | cfunction | userdata | thread =>
      cases h

end

/-!
## Arrays
-/

/-- The elements of a table from index 1 up to its length. -/
structure ArrayOf (L : LuaState) (a : Nat) (vs : List Value) : Prop where
  length : L.objlen a = vs.length
  element : forall i (h : i < vs.length), L.rawgeti a (i + 1) = vs[i]

theorem toInt_objlen (L : LuaState) (a : Nat) :
    toInt (L.objlen a) = L.objlen a := by
  have hlt : L.objlen a < 2 ^ 31 := (L.tables a).length_lt
  have hlow : intMin <= (L.objlen a : Int) := by
    unfold intMin
    omega
  have hhigh : (L.objlen a : Int) <= intMax := by
    unfold intMax
    omega
  exact toInt_of_range hlow hhigh

theorem encodes_elements {L : LuaState} {value : Int -> Value -> Enc Unit}
    {p : Value -> Piece} {a : Nat} {t : LuaType}
    (hvalue : forall v, v.type = t -> Encodes (value 0 v) L (p v) () L)
    (vs : List Value) :
    forall {idx : Int},
      (forall i (h : i < vs.length), L.rawgeti a (idx + i) = vs[i]) ->
      (forall v, v ∈ vs -> v.type = t) ->
      Encodes (encodeElements value a t vs.length idx) L
        (Piece.concat (vs.map p)) () L := by
  induction vs with
  | nil =>
      intro idx _ _
      exact Encodes.pure () L
  | cons v rest ih =>
      intro idx hget htype
      have hfirst : L.rawgeti a idx = v := by
        have h := hget 0 (Nat.succ_pos _)
        rwa [Int.natCast_zero, Int.add_zero] at h
      have hv := htype v List.mem_cons_self
      rw [List.length_cons]
      unfold encodeElements
      apply (encodes_getLua L).bind_empty
      rw [hfirst, if_neg (not_not.mpr hv)]
      apply (hvalue v hv).seq
      apply ih
      · intro i hi
        have h := hget (i + 1) (Nat.succ_lt_succ hi)
        rw [List.getElem_cons_succ] at h
        have hindex : idx + 1 + i = idx + (i + 1 : Nat) := by omega
        rw [← h, hindex]
      · intro w hw
        exact htype w (List.mem_cons_of_mem v hw)

theorem valueType_fieldValues {n : Nat} (hn : n <= 4) (vs : List Value) :
    (fieldValues n vs).valueType = n := by
  match n, hn with
  | 0, _ | 1, _ | 2, _ | 3, _ | 4, _ => rfl

theorem ofLongLong_natCast {n : Nat} (h : n < 2 ^ 64) :
    ofLongLong n = n := by
  unfold ofLongLong
  omega

/-- The first element with what stands in front of it, and the others. -/
theorem arrayPiece_eq {n : Nat} (hn : n <= 4)
    (representation : Option (List UInt8)) (e : Value) (rest : List Value)
    (hlength : rest.length + 1 < 2 ^ 31) (hpacked : n = 2 -> rest = []) :
    startPiece n representation ((e :: rest).length : Nat) ++
        elementPiece n e ++ Piece.concat (rest.map (elementPiece n)) =
      valuesHead n representation ++ (fieldValues n (e :: rest)).piece := by
  have hne : (((e :: rest).length : Nat) : Int) ≠ 0 := by
    rw [List.length_cons]
    omega
  unfold startPiece
  rw [if_neg hne, Piece.append_assoc, Piece.append_assoc]
  congr 1
  match n, hn with
  | 0, _ | 1, _ =>
      change Piece.empty ++ _ = Piece.concat (List.map _ (List.map _ _))
      rw [Piece.empty_append, List.map_map]
      rfl
  | 2, _ =>
      rw [hpacked rfl]
      exact congrArg _ (Piece.append_empty _)
  | 3, _ =>
      cases rest with
      | nil => exact congrArg _ (Piece.append_empty _)
      | cons e' rest =>
          have hmany : (((e :: e' :: rest).length : Nat) : Int) ≠ 1 := by
            rw [List.length_cons, List.length_cons]
            omega
          have hword : ofLongLong (((e :: e' :: rest).length : Nat) * 8) =
              8 * ((e :: e' :: rest).map numberOf).length := by
            simp only [List.length_map, List.length_cons] at hlength ⊢
            unfold ofLongLong
            omega
          have hkey : keyPiece 3 ((e :: e' :: rest).length : Nat) =
              Piece.key lsbPbValueDouble lsbPbWtLength ++
                Piece.varint (8 * ((e :: e' :: rest).map numberOf).length) :=
            (keyPiece_doubles hmany).trans (by rw [hword])
          change _ = FieldValues.doublesPiece
            (List.map numberOf (e :: e' :: rest))
          rw [hkey, List.map_cons, List.map_cons,
            FieldValues.doublesPiece_many]
          simp only [List.map_cons, List.map_map]
          rfl
  | 4, _ =>
      cases rest with
      | nil => exact congrArg _ (Piece.append_empty _)
      | cons e' rest =>
          have hmany : (((e :: e' :: rest).length : Nat) : Int) ≠ 1 := by
            rw [List.length_cons, List.length_cons]
            omega
          have hword : ofLongLong ((e :: e' :: rest).length : Nat) =
              ((e :: e' :: rest).map booleanOf).length := by
            simp only [List.length_map, List.length_cons] at hlength ⊢
            exact ofLongLong_natCast (by omega)
          have hkey : keyPiece 4 ((e :: e' :: rest).length : Nat) =
              Piece.key lsbPbValueBool lsbPbWtLength ++
                Piece.varint ((e :: e' :: rest).map booleanOf).length :=
            (keyPiece_bools hmany).trans (by rw [hword])
          change _ = FieldValues.boolsPiece
            (List.map booleanOf (e :: e' :: rest))
          rw [hkey, List.map_cons, List.map_cons, FieldValues.boolsPiece_many]
          simp only [List.map_cons, List.map_map]
          rfl

/-- Several integers are packed behind their length. -/
theorem packedPiece_eq (representation : Option (List UInt8))
    {e : Value} {rest : List Value} (hrest : rest ≠ []) :
    valuesHead 2 representation ++
        Piece.key lsbPbValueInteger lsbPbWtLength ++
        Piece.prefixed (elementPiece 2 e ++
          Piece.concat (rest.map (elementPiece 2))) =
      valuesHead 2 representation ++ (fieldValues 2 (e :: rest)).piece := by
  cases rest with
  | nil => exact absurd rfl hrest
  | cons e' rest =>
      rw [Piece.append_assoc]
      congr 1
      change _ = Piece.key lsbPbValueInteger lsbPbWtLength ++
        Piece.prefixed (Piece.concat (List.map
          (fun x => Piece.varint (ofLongLong x))
          (List.map (fun v => (numberOf v).toLongLong) (e :: e' :: rest))))
      rw [List.map_map]
      rfl

section

variable {env : EncodeEnv} {L : LuaState} {a : Nat} {e : Value}
  {rest : List Value} {representation : Option (List UInt8)}
  {valueType : Int} {n : Nat}

theorem fieldType_le (h : fieldType valueType e.type = some n) :
    n <= 4 := by
  cases e with
  | string s =>
      have hcases := fieldType_string.mp h
      omega
  | number d =>
      have hcases := fieldType_number.mp h
      omega
  | boolean b =>
      have hcases := fieldType_boolean.mp h
      omega
  | nil | lightuserdata | table | function | cfunction | userdata | thread =>
      cases h

theorem fieldType_integer (hinteger : valueType = lsbPbInteger)
    (h : fieldType valueType e.type = some n) : n = 2 := by
  unfold lsbPbInteger at hinteger
  cases e with
  | string s =>
      have hcases := fieldType_string.mp h
      omega
  | number d =>
      have hcases := fieldType_number.mp h
      omega
  | boolean b =>
      have hcases := fieldType_boolean.mp h
      omega
  | nil | lightuserdata | table | function | cfunction | userdata | thread =>
      cases h

/-- Integers have the value type of integers. -/
theorem fieldType_eq_two (h : fieldType valueType e.type = some 2) :
    valueType = lsbPbInteger := by
  cases e with
  | string s =>
      have hcases := fieldType_string.mp h
      omega
  | number d =>
      have hcases := fieldType_number.mp h
      unfold lsbPbInteger
      omega
  | boolean b =>
      have hcases := fieldType_boolean.mp h
      omega
  | nil | lightuserdata | table | function | cfunction | userdata | thread =>
      cases h

variable (env representation)

/-- The elements behind the first one. -/
theorem encodes_rest (harray : ArrayOf L a (e :: rest))
    (htype : forall v, v ∈ rest -> v.type = e.type)
    (h : fieldType valueType e.type = some n) (below : Value) (m : Nat) :
    Encodes (encodeElements (fun first => encodeFieldValue env (m + 1) below
        first representation valueType) a e.type rest.length 2) L
      (Piece.concat (rest.map (elementPiece n))) () L := by
  apply encodes_elements
  · intro v hv
    have hnext := encodes_scalar L 0 representation env below (hv ▸ h) m
    change Encodes _ L (Piece.empty ++ _) () L at hnext
    rwa [Piece.empty_append] at hnext
  · intro i hi
    have hget := harray.element (i + 1) (Nat.succ_lt_succ hi)
    rw [List.getElem_cons_succ] at hget
    have hindex : (2 : Int) + i = ((i + 1 : Nat) : Int) + 1 := by omega
    rw [← hget, hindex]
  · exact htype

/-- The first of several integers, behind a byte that is kept for their
length. -/
theorem encodes_firstInteger (L : LuaState)
    (h : fieldType valueType e.type = some 2) {alen : Int} (halen : 1 < alen)
    (below : Value) (m : Nat) :
    Encodes (encodeFieldValue env (m + 1) below alen representation valueType
        e) L
      (valuesHead 2 representation ++
        Piece.key lsbPbValueInteger lsbPbWtLength ++
          keptLength (elementPiece 2 e)) () L := by
  have hpiece : startPiece 2 representation alen ++ elementPiece 2 e =
      valuesHead 2 representation ++
        Piece.key lsbPbValueInteger lsbPbWtLength ++
          keptLength (elementPiece 2 e) := by
    unfold startPiece
    rw [if_neg (by omega), keyPiece_integers (by omega)]
    unfold keptLength
    simp only [Piece.append_assoc]
  rw [← hpiece]
  exact encodes_scalar L alen representation env below h m

theorem encodes_array (harray : ArrayOf L a (e :: rest))
    (htype : forall v, v ∈ rest -> v.type = e.type)
    (h : fieldType valueType e.type = some n) (below : Value) (m : Nat) :
    Encodes (encodeFieldArray (fun first => encodeFieldValue env (m + 1) below
        first representation valueType) a valueType e) L
      (valuesHead n representation ++ (fieldValues n (e :: rest)).piece) ()
      L := by
  have hlength : rest.length + 1 < 2 ^ 31 := by
    have hlt := (L.tables a).length_lt
    change L.objlen a < 2 ^ 31 at hlt
    rwa [harray.length, List.length_cons] at hlt
  have helements := encodes_rest env representation harray htype h below m
  unfold encodeFieldArray
  apply (encodes_getLua L).bind_empty
  have hcount : (((e :: rest).length : Nat) - 1 : Int).toNat =
      rest.length := by
    rw [List.length_cons]
    omega
  rw [toInt_objlen, harray.length]
  dsimp only
  rw [hcount]
  by_cases hpacked : n = 2 ∧ rest ≠ []
  · rcases hpacked with ⟨rfl, hrest⟩
    have hpos : 0 < rest.length := List.length_pos_of_ne_nil hrest
    have hlong : (1 : Int) < ((e :: rest).length : Nat) := by
      rw [List.length_cons]
      omega
    have hmany : 1 < (((e :: rest).length : Nat) : Int) ∧
        valueType = lsbPbInteger := ⟨hlong, fieldType_eq_two h⟩
    rw [← packedPiece_eq representation hrest]
    simp only [onlyIf_pos hmany]
    exact encodes_packed (ofLongLong_lt _)
      (encodes_firstInteger env representation L h hlong below m) helements
  · have hfirst := encodes_scalar L ((e :: rest).length : Nat) representation
      env below h m
    have hsingle : n = 2 -> rest = [] :=
      fun hn => not_not.mp (fun hrest => hpacked ⟨hn, hrest⟩)
    have hnot : ¬ (1 < (((e :: rest).length : Nat) : Int) ∧
        valueType = lsbPbInteger) := by
      rintro ⟨hmany, hinteger⟩
      have hn : n = 2 := fieldType_integer hinteger h
      rw [hsingle hn, List.length_singleton] at hmany
      omega
    rw [← arrayPiece_eq (fieldType_le h) representation e rest hlength
      hsingle]
    simp only [onlyIf_neg hnot]
    have hrest := encodes_getPos (fun _ =>
      helements.seq (Encodes.pure () L))
    rw [Piece.append_empty] at hrest
    exact hfirst.seq hrest

end

end Heka
end LuaSandbox
