import LuaSandbox.Heka.DecodeTableBounds
import LuaSandbox.Util.DecodeBounds
import LuaSandbox.Util.Relocation
import LuaSandbox.Util.WireValues

/-!
# The two decoders

What the decoder of tables and the decoder of messages make of the same bytes,
when every field record has its name, its type and its representation in front
of its values.
-/

namespace LuaSandbox
namespace Heka

open Foundation
open Util

/-!
## Values
-/

/-- The values in the table of a field. -/
def tableValues (mem : Memory) : WireValues -> List TableValue
  | WireValues.strings ss =>
      ss.map (fun s => TableValue.string (s.bytes mem))
  | WireValues.integers ws => ws.map integerValue
  | WireValues.doubles xs => xs.map TableValue.number
  | WireValues.bools ws => ws.map booleanValue

section

variable {mem : Memory} {e p : Nat}

theorem readTableString_eq (mem : Memory) (wiretype p e : Nat) :
    readTableString mem wiretype p e =
      (readString mem wiretype p e).map (fun r => (r.1, r.2.bytes mem)) := by
  unfold readTableString readString readLength
  split
  · rfl
  cases lsbPbReadVarint mem p e with
  | none => rfl
  | some r =>
      rcases r with ⟨q, n⟩
      by_cases hlong : toLongLong n < 0 ∨ e < q + n
      · dsimp only
        rw [if_pos hlong, if_pos hlong]
        rfl
      · dsimp only
        rw [if_neg hlong, if_neg hlong]
        rfl

theorem processTableVarint_eq (mem : Memory) (wiretype p e : Nat) :
    processTableVarint mem wiretype p e =
      (processVarint mem wiretype p e).map
        (fun r => (r.1, Double.ofInt r.2)) := by
  unfold processTableVarint processVarint
  split
  · rfl
  cases lsbPbReadVarint mem p e <;> rfl

theorem readLength_of_read {p e r n : Nat}
    (h : lsbPbReadVarint mem p e = some (r, n))
    (hfits : ¬(toLongLong n < 0 ∨ e < r + n)) :
    readLength mem p e = some (r, n) := by
  unfold readLength
  rw [h]
  exact if_neg hfits

theorem readLength_of_holds {n r : Nat} (h : HoldsLength mem p n r)
    (hle : r + n <= e) : readLength mem p e = some (r, n) := by
  have hfits : ¬ (toLongLong n < 0 ∨ e < r + n) := by
    rintro (hneg | hlong)
    · exact h.not_neg hneg
    · omega
  exact readLength_of_read (h.1.read (by omega)) hfits

/-- The packed varints of a region that is as long as the limit says. -/
theorem packedVarints_eq {value : Nat -> TableValue} {ws : List Nat}
    (h : HoldsVarints mem e p ws) : forall {len n : Nat},
      e <= p + len -> e - p < n ->
      packedVarints mem e len value n p = some (e, ws.map value) := by
  induction h with
  | last hw =>
      intro len n hlen hn
      obtain ⟨n, rfl⟩ : exists m, n = m + 1 := ⟨n - 1, by omega⟩
      unfold packedVarints
      rw [hw.read hlen]
      dsimp only
      rw [if_neg (Nat.lt_irrefl e)]
      rfl
  | more hw hlt _ ih =>
      intro len n hlen hn
      have hlt' := hw.lt
      obtain ⟨n, rfl⟩ : exists m, n = m + 1 := ⟨n - 1, by omega⟩
      unfold packedVarints
      rw [hw.read (by omega)]
      dsimp only
      rw [if_pos hlt, ih (by omega) (by omega)]
      rfl

theorem packedDoubles_eq : forall {k p n : Nat}, p + 8 * (k + 1) = e ->
    e - p < n -> packedDoubles mem e n p =
      some (e, (doublesAt mem p (k + 1)).map TableValue.number) := by
  intro k
  induction k with
  | zero =>
      intro p n hend hn
      obtain ⟨n, rfl⟩ : exists m, n = m + 1 := ⟨n - 1, by omega⟩
      unfold packedDoubles
      rw [if_neg (by omega), show p + 8 = e by omega, doublesAt_succ]
      rfl
  | succ k ih =>
      intro p n hend hn
      obtain ⟨n, rfl⟩ : exists m, n = m + 1 := ⟨n - 1, by omega⟩
      unfold packedDoubles
      rw [if_pos (by omega), ih (by omega) (by omega),
        doublesAt_succ mem p (k + 1)]
      rfl

/-- The words of an entry, if the limit of a single one is not in front of the
end. -/
theorem readVarintValues_eq {tag len : Nat} {ws : List Nat}
    (value : Nat -> TableValue) (h : HoldsWords mem e tag p ws)
    (hlen : e <= p + 1 + len) :
    exists wiretype len', lsbPbReadKey mem p = (p + 1, tag, wiretype) ∧
      readVarintValues mem e len value wiretype (p + 1) =
        some (e, ws.map value, len') := by
  cases h with
  | single hkey hw =>
      refine ⟨_, len, hkey, ?_⟩
      unfold readVarintValues
      rw [if_pos rfl, hw.read hlen]
      rfl
  | packed hkey hlength hend hws =>
      rename_i n r
      refine ⟨_, n, hkey, ?_⟩
      unfold readVarintValues
      rw [if_neg (by decide), if_pos rfl,
        readLength_of_holds hlength (Nat.le_of_eq hend)]
      dsimp only
      have hlt := hlength.lt
      rw [packedVarints_eq hws (Nat.le_of_eq hend.symm) (by omega)]

theorem readDoubleValues_eq {len : Nat} {xs : List Double}
    (h : HoldsDoubles mem e p xs) :
    exists wiretype len',
      lsbPbReadKey mem p = (p + 1, lsbPbValueDouble, wiretype) ∧
      readDoubleValues mem e len wiretype (p + 1) =
        some (e, xs.map TableValue.number, len') := by
  cases h with
  | single hkey hend =>
      refine ⟨_, len, hkey, ?_⟩
      unfold readDoubleValues
      rw [if_pos rfl, if_neg (by omega), hend]
      rfl
  | packed hkey hlength hend hpos =>
      rename_i k r
      refine ⟨_, 8 * k, hkey, ?_⟩
      obtain ⟨k, rfl⟩ : exists m, k = m + 1 := ⟨k - 1, by omega⟩
      unfold readDoubleValues
      rw [if_neg (by decide), if_pos rfl,
        readLength_of_holds hlength (Nat.le_of_eq hend)]
      dsimp only
      have hlt := hlength.lt
      rw [if_neg (by omega), packedDoubles_eq hend (by omega)]

/-!
## Entries
-/

/-- The tags that stand in front of the values. -/
def HeadTag (tag : Nat) : Prop :=
  tag = lsbPbName ∨ tag = lsbPbValueType ∨ tag = lsbPbRepresentation

/-- No decoder takes an entry with this tag and wire type. -/
def RefusedEntry (tag wiretype : Nat) : Prop :=
  (StringTag tag ∧ wiretype ≠ lsbPbWtLength) ∨
    ((tag = lsbPbValueInteger ∨ tag = lsbPbValueBool) ∧
      wiretype ≠ lsbPbWtVarint ∧ wiretype ≠ lsbPbWtLength) ∨
    (tag = lsbPbValueDouble ∧ wiretype ≠ lsbPbWtFixed64 ∧
      wiretype ≠ lsbPbWtLength) ∨
    tag = 0 ∨ lsbPbValueBool < tag

/-- A number in a table and the number that a message keeps of it, which has a
default value. -/
def NumberAgrees (number : Option Double) (default value : Int) : Prop :=
  (number = none ∧ value = default) ∨
    exists v, number = some (Double.ofInt v) ∧ value = toInt v

/-- The name, the type and the representation are the same. -/
structure HeadAgrees (mem : Memory) (f : HekaField)
    (tf : TableField) : Prop where
  name : tf.name = f.name.contents mem
  representation : tf.representation = f.representation.contents mem
  valueType : NumberAgrees tf.valueType lsbPbString f.valueType

/-- What an entry in front of the values does to a field. -/
structure HeadStep (mem : Memory) (f f' : HekaField)
    (tf tf' : TableField) : Prop where
  agrees : HeadAgrees mem f tf -> HeadAgrees mem f' tf'
  slice : f'.value = f.value
  values : tf'.value = tf.value

theorem readString_contents {wiretype q : Nat} {s : ConstString}
    (h : readString mem wiretype p e = some (q, s)) :
    p < q ∧ s.contents mem = some (s.bytes mem) := by
  refine ⟨readString_position h, ?_⟩
  unfold readString at h
  split at h
  · cases h
  split at h
  · cases h
  split at h
  · cases h
  · cases h
    rfl

/-- Both decoders take an entry in front of the values alike. -/
theorem headEntry_agrees (f : HekaField) (st : FieldState)
    (htag : HeadTag (lsbPbReadKey mem p).2.1) :
    ((processFieldsEntry mem e f p).1 = none ∧
        processTableEntry mem e st p = none) ∨
      exists q f' tf', processFieldsEntry mem e f p = (some q, f') ∧
        processTableEntry mem e st p = some (q, ⟨tf', st.len⟩) ∧ p < q ∧
        HeadStep mem f f' st.field tf' := by
  generalize hkey : lsbPbReadKey mem p = key at htag
  rcases key with ⟨q, tag, wiretype⟩
  have hnext := lsbPbReadKey_next hkey
  subst hnext
  unfold processFieldsEntry processTableEntry
  rw [hkey]
  dsimp only
  rw [readTableString_eq, processTableVarint_eq]
  rcases htag with htag | htag | htag
  · change tag = lsbPbName at htag
    subst htag
    cases hread : readString mem wiretype (p + 1) e with
    | none => exact Or.inl ⟨rfl, rfl⟩
    | some r =>
        rcases r with ⟨q, s⟩
        rcases readString_contents hread with ⟨hlt, hcontents⟩
        refine Or.inr ⟨q, _, _, rfl, rfl, by omega, ?_, rfl, rfl⟩
        exact fun h => ⟨hcontents.symm, h.representation, h.valueType⟩
  · change tag = lsbPbValueType at htag
    subst htag
    cases hread : processVarint mem wiretype (p + 1) e with
    | none => exact Or.inl ⟨rfl, rfl⟩
    | some r =>
        rcases r with ⟨q, v⟩
        have hlt := processVarint_lt hread
        refine Or.inr ⟨q, _, _, rfl, rfl, by omega, ?_, rfl, rfl⟩
        exact fun h => ⟨h.name, h.representation, Or.inr ⟨v, rfl, rfl⟩⟩
  · change tag = lsbPbRepresentation at htag
    subst htag
    cases hread : readString mem wiretype (p + 1) e with
    | none => exact Or.inl ⟨rfl, rfl⟩
    | some r =>
        rcases r with ⟨q, s⟩
        rcases readString_contents hread with ⟨hlt, hcontents⟩
        refine Or.inr ⟨q, _, _, rfl, rfl, by omega, ?_, rfl, rfl⟩
        exact fun h => ⟨h.name, hcontents.symm, h.valueType⟩

theorem unknownTag {tag : Nat} (h : lsbPbValueBool < tag) :
    tag ≠ lsbPbName ∧ tag ≠ lsbPbValueType ∧ tag ≠ lsbPbRepresentation ∧
      tag ≠ lsbPbValueString ∧ tag ≠ lsbPbValueBytes ∧
      tag ≠ lsbPbValueInteger ∧ tag ≠ lsbPbValueDouble ∧
      tag ≠ lsbPbValueBool := by
  change 8 < tag at h
  change tag ≠ 1 ∧ tag ≠ 2 ∧ tag ≠ 3 ∧ tag ≠ 4 ∧ tag ≠ 5 ∧ tag ≠ 6 ∧
    tag ≠ 7 ∧ tag ≠ 8
  omega

theorem processFieldsEntry_refused {tag wiretype : Nat} (f : HekaField)
    (hkey : lsbPbReadKey mem p = (p + 1, tag, wiretype))
    (h : RefusedEntry tag wiretype) : (processFieldsEntry mem e f p).1 = none := by
  unfold processFieldsEntry
  rw [hkey]
  dsimp only
  rcases h with ⟨rfl | rfl, hwt⟩ | ⟨rfl | rfl, hvarint, hlen⟩ |
    ⟨rfl, hfixed, hlen⟩ | rfl | hbig
  · exact congrArg Prod.fst (if_pos hwt)
  · exact congrArg Prod.fst (if_pos hwt)
  · have hneither : lsbPbValueInteger ≠ lsbPbValueDouble ∧
        wiretype ≠ lsbPbWtVarint ∧ wiretype ≠ lsbPbWtLength :=
      ⟨by decide, hvarint, hlen⟩
    exact congrArg Prod.fst (if_pos hneither)
  · have hneither : lsbPbValueBool ≠ lsbPbValueDouble ∧
        wiretype ≠ lsbPbWtVarint ∧ wiretype ≠ lsbPbWtLength :=
      ⟨by decide, hvarint, hlen⟩
    exact congrArg Prod.fst (if_pos hneither)
  · have hneither : lsbPbValueDouble = lsbPbValueDouble ∧
        wiretype ≠ lsbPbWtFixed64 ∧ wiretype ≠ lsbPbWtLength :=
      ⟨rfl, hfixed, hlen⟩
    exact congrArg Prod.fst (if_pos hneither)
  · rfl
  · rcases unknownTag hbig with
      ⟨hname, htype, hrep, hstring, hbytes, hint, hdouble, hbool⟩
    rw [if_neg hname, if_neg htype, if_neg hrep, if_neg (by tauto),
      if_neg (by tauto)]

theorem processTableEntry_refused {tag wiretype : Nat} (st : FieldState)
    (hkey : lsbPbReadKey mem p = (p + 1, tag, wiretype))
    (h : RefusedEntry tag wiretype) : processTableEntry mem e st p = none := by
  unfold processTableEntry
  rw [hkey]
  dsimp only
  rcases h with ⟨rfl | rfl, hwt⟩ | ⟨rfl | rfl, hvarint, hlen⟩ |
    ⟨rfl, hfixed, hlen⟩ | rfl | hbig
  · have hread : readTableString mem wiretype (p + 1) e = none := if_pos hwt
    rw [hread]
    rfl
  · have hread : readTableString mem wiretype (p + 1) e = none := if_pos hwt
    rw [hread]
    rfl
  · have hread : readVarintValues mem e st.len integerValue wiretype
        (p + 1) = none := by
      unfold readVarintValues
      rw [if_neg hvarint, if_neg hlen]
    rw [hread]
    rfl
  · have hread : readVarintValues mem e st.len booleanValue wiretype
        (p + 1) = none := by
      unfold readVarintValues
      rw [if_neg hvarint, if_neg hlen]
    rw [hread]
    rfl
  · have hread : readDoubleValues mem e st.len wiretype (p + 1) = none := by
      unfold readDoubleValues
      rw [if_neg hfixed, if_neg hlen]
    rw [hread]
    rfl
  · rfl
  · rcases unknownTag hbig with
      ⟨hname, htype, hrep, hstring, hbytes, hint, hdouble, hbool⟩
    rw [if_neg hname, if_neg htype, if_neg hrep, if_neg (by tauto),
      if_neg hint, if_neg hdouble, if_neg hbool]

theorem FieldState.append_append (st : FieldState) (xs ys : List TableValue)
    (m n : Nat) : (st.append xs m).append ys n = st.append (xs ++ ys) n := by
  unfold FieldState.append
  rw [List.append_assoc]

theorem processTableEntry_string {tag n r : Nat} (st : FieldState)
    (hkey : lsbPbReadKey mem p = (p + 1, tag, lsbPbWtLength))
    (htag : StringTag tag) (hlen : HoldsLength mem (p + 1) n r)
    (hle : r + n <= e) :
    processTableEntry mem e st p = some (r + n,
      st.append [TableValue.string ((ConstString.mk (some r) n).bytes mem)]
        st.len) := by
  unfold processTableEntry
  rw [hkey]
  dsimp only
  rw [readTableString_eq, hlen.readString hle]
  rcases htag with rfl | rfl <;> rfl

/-- An entry that takes the rest of the record ends the loop. -/
theorem processTableLoop_last {st st' : FieldState} {n : Nat}
    (h : processTableEntry mem e st p = some (e, st')) :
    processTableLoop mem e (n + 1) st p = some (e, st') := by
  unfold processTableLoop
  rw [h]
  exact if_neg (Nat.lt_irrefl e)

theorem processTableLoop_strings {ss : List ConstString}
    (h : HoldsStrings mem e p ss) : forall {st : FieldState} {n : Nat},
      e - p < n -> processTableLoop mem e n st p =
        some (e, st.append (tableValues mem (WireValues.strings ss))
          st.len) := by
  induction h with
  | last hkey htag hlen hend =>
      intro st n hn
      obtain ⟨n, rfl⟩ : exists m, n = m + 1 := ⟨n - 1, by omega⟩
      have hentry := processTableEntry_string st hkey htag hlen
        (Nat.le_of_eq hend)
      rw [hend] at hentry
      exact processTableLoop_last hentry
  | more hkey htag hlen hlt _ ih =>
      intro st n hn
      have hlt' := hlen.lt
      obtain ⟨n, rfl⟩ : exists m, n = m + 1 := ⟨n - 1, by omega⟩
      unfold processTableLoop
      rw [processTableEntry_string st hkey htag hlen (Nat.le_of_lt hlt)]
      dsimp only
      rw [if_pos hlt, ih (by omega), FieldState.append_append]
      rfl

/-- The values at the end of a record go to the table. -/
theorem processTableLoop_values {vs : WireValues} {n : Nat} (st : FieldState)
    (h : HoldsValues mem e p vs) (hlen : e <= p + st.len) (hn : e - p < n) :
    exists len, processTableLoop mem e n st p =
      some (e, st.append (tableValues mem vs) len) := by
  obtain ⟨n, rfl⟩ : exists m, n = m + 1 := ⟨n - 1, by omega⟩
  have hlen' : e <= p + 1 + st.len := by omega
  cases vs with
  | strings ss => exact ⟨st.len, processTableLoop_strings h hn⟩
  | integers ws =>
      rcases readVarintValues_eq integerValue h hlen' with ⟨wiretype, len, hkey, hread⟩
      refine ⟨len, processTableLoop_last ?_⟩
      unfold processTableEntry
      rw [hkey]
      dsimp only
      rw [hread]
      rfl
  | doubles xs =>
      rcases readDoubleValues_eq h with ⟨wiretype, len, hkey, hread⟩
      refine ⟨len, processTableLoop_last ?_⟩
      unfold processTableEntry
      rw [hkey]
      dsimp only
      rw [hread]
      rfl
  | bools ws =>
      rcases readVarintValues_eq booleanValue h hlen' with ⟨wiretype, len, hkey, hread⟩
      refine ⟨len, processTableLoop_last ?_⟩
      unfold processTableEntry
      rw [hkey]
      dsimp only
      rw [hread]
      rfl

end

/-!
## Field records
-/

/-- Where an entry in front of the values ends, and the value type behind it. -/
def headEnd (mem : Memory) (e : Nat) (valueType : Int) (p : Nat) :
    Option (Nat × Int) :=
  let r := processFieldsEntry mem e
    { HekaField.init with valueType := valueType } p
  r.1.map (fun q => (q, r.2.valueType))

/-- From `p` on, the values take the rest of the record and are admitted with
the value type in front of them, or no decoder takes the record. -/
inductive Ordered (mem : Memory) (e : Nat) (admitted : Int -> WireValues -> Prop) :
    Int -> Nat -> Prop where
  | values {valueType p vs} : HoldsValues mem e p vs ->
      admitted valueType vs -> Ordered mem e admitted valueType p
  | head {valueType p} : HeadTag (lsbPbReadKey mem p).2.1 ->
      (forall q valueType', headEnd mem e valueType p = some (q, valueType') ->
        q < e -> Ordered mem e admitted valueType' q) ->
      Ordered mem e admitted valueType p
  | refused {valueType p} :
      RefusedEntry (lsbPbReadKey mem p).2.1 (lsbPbReadKey mem p).2.2 ->
      Ordered mem e admitted valueType p

/-- A field record behind its key has its values in order. -/
def OrderedField (mem : Memory) (ep : Nat)
    (admitted : Int -> WireValues -> Prop) (p : Nat) : Prop :=
  forall r n, readLength mem p ep = some (r, n) ->
    Ordered mem (r + n) admitted lsbPbString r

/-- The values of a message field and of a table field are the same, and
admitted with the type. -/
inductive ValuesAgree (mem : Memory) (admitted : Int -> WireValues -> Prop)
    (f : HekaField) (tf : TableField) : Prop where
  | none : f.value.s = none -> tf.value = [] -> ValuesAgree mem admitted f tf
  | some {vs} : admitted f.valueType vs -> SliceHolds mem f.value vs ->
      tf.value = tableValues mem vs -> ValuesAgree mem admitted f tf

structure FieldAgrees (mem : Memory) (admitted : Int -> WireValues -> Prop)
    (f : HekaField) (tf : TableField) : Prop where
  head : HeadAgrees mem f tf
  values : ValuesAgree mem admitted f tf

section

variable {mem : Memory} {e ep p : Nat} {admitted : Int -> WireValues -> Prop}

theorem headEnd_eq {f f' : HekaField} {q : Nat}
    (htag : HeadTag (lsbPbReadKey mem p).2.1)
    (h : processFieldsEntry mem e f p = (some q, f')) :
    headEnd mem e f.valueType p = some (q, f'.valueType) := by
  unfold headEnd
  unfold processFieldsEntry at h ⊢
  generalize lsbPbReadKey mem p = key at htag h ⊢
  rcases key with ⟨r, tag, wiretype⟩
  dsimp only at h ⊢
  generalize readString mem wiretype r e = string at h ⊢
  generalize processVarint mem wiretype r e = varint at h ⊢
  rcases htag with htag | htag | htag
  · change tag = lsbPbName at htag
    subst htag
    cases string with
    | none => cases h
    | some r =>
        cases h
        rfl
  · change tag = lsbPbValueType at htag
    subst htag
    cases varint with
    | none => cases h
    | some r =>
        cases h
        rfl
  · change tag = lsbPbRepresentation at htag
    subst htag
    cases string with
    | none => cases h
    | some r =>
        cases h
        rfl

/-- Both decoders fail on an ordered record, or they agree on the field. -/
theorem processLoops_agree {valueType : Int}
    (h : Ordered mem e admitted valueType p) :
    forall {f : HekaField} {st : FieldState} {m n : Nat},
      f.valueType = valueType -> HeadAgrees mem f st.field ->
      f.value.s = none -> st.field.value = [] -> e <= p + st.len ->
      e - p < m -> e - p < n ->
      ((processFieldsLoop mem e m f p).1 = none ∧
          processTableLoop mem e n st p = none) ∨
        exists q f' st', processFieldsLoop mem e m f p = (some q, f') ∧
          processTableLoop mem e n st p = some (q, st') ∧
          FieldAgrees mem admitted f' st'.field := by
  induction h with
  | @values valueType p vs hvalues hadmitted =>
      intro f st m n htype hhead hslice hvalue hlen hm hn
      subst htype
      obtain ⟨m, rfl⟩ : exists k, m = k + 1 := ⟨m - 1, by omega⟩
      rcases processFieldsEntry_values f hvalues with ⟨v, hv, hentry⟩
      rcases processTableLoop_values st hvalues hlen hn with
        ⟨len, hloop⟩
      refine Or.inr ⟨e, { f with value := v }, _, ?_, hloop, ?_⟩
      · unfold processFieldsLoop
        rw [hentry]
        exact if_neg (Nat.lt_irrefl e)
      · refine ⟨⟨hhead.name, hhead.representation, hhead.valueType⟩,
          ValuesAgree.some hadmitted hv ?_⟩
        change st.field.value ++ tableValues mem vs = _
        rw [hvalue, List.nil_append]
  | @head valueType p htag _ ih =>
      intro f st m n htype hhead hslice hvalue hlen hm hn
      subst htype
      obtain ⟨m, rfl⟩ : exists k, m = k + 1 := ⟨m - 1, by omega⟩
      obtain ⟨n, rfl⟩ : exists k, n = k + 1 := ⟨n - 1, by omega⟩
      unfold processFieldsLoop processTableLoop
      rcases headEntry_agrees (e := e) f st htag with
        ⟨hmessage, htable⟩ | ⟨q, f', tf', hmessage, htable, hlt, hstep⟩
      · rcases hentry : processFieldsEntry mem e f p with ⟨_ | q, f'⟩
        · rw [htable]
          exact Or.inl ⟨rfl, rfl⟩
        · rw [hentry] at hmessage
          cases hmessage
      · rw [hmessage, htable]
        dsimp only
        have hend := headEnd_eq htag hmessage
        have hhead' := hstep.agrees hhead
        have hslice' := (congrArg ConstString.s hstep.slice).trans hslice
        have hvalue' := hstep.values.trans hvalue
        by_cases hq : q < e
        · rw [if_pos hq, if_pos hq]
          exact ih q f'.valueType hend hq rfl hhead' hslice' hvalue'
            (by change e <= q + st.len; omega) (by omega) (by omega)
        · rw [if_neg hq, if_neg hq]
          exact Or.inr ⟨q, f', ⟨tf', st.len⟩, rfl, rfl, hhead',
            ValuesAgree.none hslice' hvalue'⟩
  | @refused valueType p hrefused =>
      intro f st m n _ _ _ _ _ hm hn
      obtain ⟨m, rfl⟩ : exists k, m = k + 1 := ⟨m - 1, by omega⟩
      obtain ⟨n, rfl⟩ : exists k, n = k + 1 := ⟨n - 1, by omega⟩
      have hmessage := processFieldsEntry_refused (e := e) f rfl hrefused
      have htable := processTableEntry_refused (e := e) st rfl hrefused
      unfold processFieldsLoop processTableLoop
      rcases hentry : processFieldsEntry mem e f p with ⟨_ | q, f'⟩
      · rw [htable]
        exact Or.inl ⟨rfl, rfl⟩
      · rw [hentry] at hmessage
        cases hmessage

theorem contents_eq_none_iff (s : ConstString) :
    s.contents mem = none <-> s.s = none :=
  Option.map_eq_none_iff

theorem processFields_agree (h : OrderedField mem ep admitted p) :
    ((processFields mem p ep).1 = none ∧
        processTableFields mem p ep = none) ∨
      exists q f tf, processFields mem p ep = (some q, f) ∧
        processTableFields mem p ep = some (q, tf) ∧
        FieldAgrees mem admitted f tf := by
  unfold OrderedField at h
  unfold readLength at h
  unfold processFields processTableFields readLength
  cases hread : lsbPbReadVarint mem p ep with
  | none => exact Or.inl ⟨rfl, rfl⟩
  | some r =>
      rcases r with ⟨r, n⟩
      rw [hread] at h
      dsimp only at h ⊢
      by_cases hlong : toLongLong n < 0 ∨ ep < r + n
      · rw [if_pos hlong, if_pos hlong]
        exact Or.inl ⟨rfl, rfl⟩
      · rw [if_neg hlong] at h
        rw [if_neg hlong, if_neg hlong]
        dsimp only
        have hhead : HeadAgrees mem HekaField.init
            (FieldState.mk TableField.empty n).field :=
          ⟨rfl, rfl, Or.inl ⟨rfl, rfl⟩⟩
        have hlt : r + n - r < n + 1 := by omega
        have hloops := processLoops_agree (h r n rfl)
          (show HekaField.init.valueType = lsbPbString from rfl) hhead rfl rfl
          (Nat.le_refl (r + n)) hlt hlt
        rcases hloops with
          ⟨hmessage, htable⟩ | ⟨q, f, st, hmessage, htable, hagrees⟩
        · rcases hloop : processFieldsLoop mem (r + n) (n + 1)
            HekaField.init r with ⟨_ | q, f⟩
          · rw [htable]
            exact Or.inl ⟨rfl, rfl⟩
          · rw [hloop] at hmessage
            cases hmessage
        · rw [hmessage, htable]
          dsimp only
          have hname := hagrees.head.name
          by_cases hnone : f.name.s = none
          · rw [if_pos hnone, if_pos (by
              rw [hname, contents_eq_none_iff]
              exact hnone)]
            exact Or.inl ⟨rfl, rfl⟩
          · rw [if_neg hnone, if_neg (by
              rw [hname, contents_eq_none_iff]
              exact hnone)]
            exact Or.inr ⟨q, f, st.field, rfl, rfl, hagrees⟩

end

/-!
## Messages
-/

/-- The headers and the fields of a message and of a table are the same; the
flag tells if the timestamp was read. -/
structure MessageAgrees (mem : Memory) (admitted : Int -> WireValues -> Prop)
    (m : HekaMessage) (timestamp : Bool) (t : MessageTable) : Prop where
  uuid : t.uuid = m.uuid.contents mem
  timestamp : t.timestamp =
    if timestamp then some (Double.ofInt m.timestamp) else none
  type : t.type = m.type.contents mem
  logger : t.logger = m.logger.contents mem
  severity : NumberAgrees t.severity 7 m.severity
  payload : t.payload = m.payload.contents mem
  envVersion : t.envVersion = m.envVersion.contents mem
  pid : NumberAgrees t.pid intMin m.pid
  hostname : t.hostname = m.hostname.contents mem
  fields : List.Forall₂ (FieldAgrees mem admitted) m.fields t.fields

/-- The uuid has its length in one byte, and the values of a field are in
order. -/
structure OrderedRecord (mem : Memory) (ep : Nat)
    (admitted : Int -> WireValues -> Prop) (cp : Nat) : Prop where
  uuid : forall r n,
    lsbPbReadKey mem cp = (cp + 1, lsbPbUuid, lsbPbWtLength) ->
    readLength mem (cp + 1) ep = some (r, n) -> r = cp + 2
  field : lsbPbReadKey mem cp = (cp + 1, lsbPbFields, lsbPbWtLength) ->
    OrderedField mem ep admitted (cp + 1)

/-- Every record that decoding gets to is in order. -/
def OrderedMessage (mem : Memory) (buf len : Nat)
    (admitted : Int -> WireValues -> Prop) : Prop :=
  forall cp, RecordAt mem (buf + len) buf cp ->
    OrderedRecord mem (buf + len) admitted cp

/-- Both decoders fail on a record, or they agree on the message. -/
def RecordAgrees (mem : Memory) (admitted : Int -> WireValues -> Prop)
    (x : Option Nat × HekaMessage × Bool)
    (y : Option (Nat × MessageTable)) : Prop :=
  (x.1 = none ∧ y = none) ∨
    exists q m timestamp t, x = (some q, m, timestamp) ∧ y = some (q, t) ∧
      MessageAgrees mem admitted m timestamp t

section

variable {mem : Memory} {ep cp : Nat} {admitted : Int -> WireValues -> Prop}
variable {m : HekaMessage} {timestamp : Bool} {t : MessageTable}

theorem recordAgrees_string {wiretype : Nat} (set : ConstString -> HekaMessage)
    (setTable : List UInt8 -> MessageTable)
    (h : forall s : ConstString, s.contents mem = some (s.bytes mem) ->
      MessageAgrees mem admitted (set s) timestamp (setTable (s.bytes mem))) :
    RecordAgrees mem admitted
      (match readString mem wiretype (cp + 1) ep with
        | none => (none, m, timestamp)
        | some (cp, s) => (some cp, set s, timestamp))
      (match readTableString mem wiretype (cp + 1) ep with
        | none => none
        | some (q, s) => some (q, setTable s)) := by
  rw [readTableString_eq]
  cases hread : readString mem wiretype (cp + 1) ep with
  | none => exact Or.inl ⟨rfl, rfl⟩
  | some r =>
      rcases r with ⟨q, s⟩
      exact Or.inr ⟨q, _, _, _, rfl, rfl, h s (readString_contents hread).2⟩

theorem recordAgrees_number {wiretype : Nat}
    (set : Int -> HekaMessage × Bool) (setTable : Double -> MessageTable)
    (h : forall v, MessageAgrees mem admitted (set v).1 (set v).2
      (setTable (Double.ofInt v))) :
    RecordAgrees mem admitted
      (match processVarint mem wiretype (cp + 1) ep with
        | none => (none, m, timestamp)
        | some (cp, v) => (some cp, set v))
      (match processTableVarint mem wiretype (cp + 1) ep with
        | none => none
        | some (q, d) => some (q, setTable d)) := by
  rw [processTableVarint_eq]
  cases processVarint mem wiretype (cp + 1) ep with
  | none => exact Or.inl ⟨rfl, rfl⟩
  | some r => exact Or.inr ⟨r.1, _, _, _, rfl, rfl, h r.2⟩

theorem readString_slice {wiretype p e q : Nat} {s : ConstString}
    (h : readString mem wiretype p e = some (q, s)) :
    wiretype = lsbPbWtLength ∧ exists r,
      readLength mem p e = some (r, s.len) ∧ q = r + s.len := by
  unfold readString at h
  split at h
  · cases h
  rename_i hwiretype
  refine ⟨not_not.mp hwiretype, ?_⟩
  split at h
  · cases h
  rename_i r n hread
  split at h
  · cases h
  · rename_i hfits
    cases h
    exact ⟨r, readLength_of_read hread hfits, rfl⟩

/-- A uuid with its length in one byte takes 18 bytes. -/
theorem recordAgrees_uuid {wiretype : Nat}
    (hkey : lsbPbReadKey mem cp = (cp + 1, lsbPbUuid, wiretype))
    (hordered : OrderedRecord mem ep admitted cp)
    (h : MessageAgrees mem admitted m timestamp t) :
    RecordAgrees mem admitted
      (match readString mem wiretype (cp + 1) ep with
        | none => (none, m, timestamp)
        | some (cp, s) =>
            (if s.len ≠ lsbUuidSize then none else some cp,
              { m with uuid := s }, timestamp))
      (match readTableString mem wiretype (cp + 1) ep with
        | none => none
        | some (q, s) =>
            if q - cp = 18 then some (q, { t with uuid := some s })
            else none) := by
  rw [readTableString_eq]
  cases hread : readString mem wiretype (cp + 1) ep with
  | none => exact Or.inl ⟨rfl, rfl⟩
  | some r =>
      rcases r with ⟨q, s⟩
      rcases readString_slice hread with ⟨rfl, r, hlength, rfl⟩
      have hr := hordered.uuid r s.len hkey hlength
      have hcontents := (readString_contents hread).2
      change RecordAgrees mem admitted
        (if s.len ≠ lsbUuidSize then none else some (r + s.len),
          { m with uuid := s }, timestamp)
        (if r + s.len - cp = 18 then
          some (r + s.len, { t with uuid := some (s.bytes mem) }) else none)
      by_cases hsize : s.len = lsbUuidSize
      · have hend : r + s.len - cp = 18 := by
          rw [hsize, hr]
          change cp + 2 + 16 - cp = 18
          omega
        rw [if_neg (not_not_intro hsize), if_pos hend]
        exact Or.inr ⟨_, _, _, _, rfl, rfl,
          { h with uuid := hcontents.symm }⟩
      · have hend : ¬ r + s.len - cp = 18 := by
          change s.len ≠ 16 at hsize
          omega
        rw [if_pos hsize, if_neg hend]
        exact Or.inl ⟨rfl, rfl⟩

theorem recordAgrees_fields {wiretype : Nat}
    (hkey : lsbPbReadKey mem cp = (cp + 1, lsbPbFields, wiretype))
    (hordered : OrderedRecord mem ep admitted cp)
    (h : MessageAgrees mem admitted m timestamp t) :
    RecordAgrees mem admitted
      (if wiretype ≠ lsbPbWtLength then (none, m, timestamp)
        else match processFields mem (cp + 1) ep with
          | (cp, f) => (cp, { m with fields := m.fields ++ [f] }, timestamp))
      (if wiretype ≠ lsbPbWtLength then none
        else match processTableFields mem (cp + 1) ep with
          | none => none
          | some (q, f) => some (q, { t with fields := t.fields ++ [f] })) := by
  by_cases hwiretype : wiretype = lsbPbWtLength
  · subst hwiretype
    rw [if_neg (not_not_intro rfl), if_neg (not_not_intro rfl)]
    rcases processFields_agree (hordered.field hkey) with
      ⟨hmessage, htable⟩ | ⟨q, f, tf, hmessage, htable, hfield⟩
    · rw [htable]
      exact Or.inl ⟨hmessage, rfl⟩
    · rw [hmessage, htable]
      exact Or.inr ⟨q, _, _, _, rfl, rfl, { h with
        fields := List.rel_append h.fields
          (List.Forall₂.cons hfield List.Forall₂.nil) }⟩
  · rw [if_pos hwiretype, if_pos hwiretype]
    exact Or.inl ⟨rfl, rfl⟩

/-- The tags of records. -/
theorem recordTag (tag : Nat) :
    tag = lsbPbUuid ∨ tag = lsbPbTimestamp ∨ tag = lsbPbType ∨
      tag = lsbPbLogger ∨ tag = lsbPbSeverity ∨ tag = lsbPbPayload ∨
      tag = lsbPbEnvVersion ∨ tag = lsbPbPid ∨ tag = lsbPbHostname ∨
      tag = lsbPbFields ∨ tag = 0 ∨ lsbPbFields < tag := by
  change tag = 1 ∨ tag = 2 ∨ tag = 3 ∨ tag = 4 ∨ tag = 5 ∨ tag = 6 ∨
    tag = 7 ∨ tag = 8 ∨ tag = 9 ∨ tag = 10 ∨ tag = 0 ∨ 10 < tag
  omega

theorem decodeRecord_unknown {q tag wiretype : Nat} (ep : Nat)
    (m : HekaMessage) (timestamp : Bool) (t : MessageTable)
    (hkey : lsbPbReadKey mem cp = (q, tag, wiretype))
    (htag : tag = 0 ∨ lsbPbFields < tag) :
    decodeRecord mem ep m timestamp cp = (none, m, timestamp) ∧
      decodeTableRecord mem ep t cp = none := by
  have hne : tag ≠ lsbPbUuid ∧ tag ≠ lsbPbTimestamp ∧ tag ≠ lsbPbType ∧
      tag ≠ lsbPbLogger ∧ tag ≠ lsbPbSeverity ∧ tag ≠ lsbPbPayload ∧
      tag ≠ lsbPbEnvVersion ∧ tag ≠ lsbPbPid ∧ tag ≠ lsbPbHostname ∧
      tag ≠ lsbPbFields := by
    change tag = 0 ∨ 10 < tag at htag
    change tag ≠ 1 ∧ tag ≠ 2 ∧ tag ≠ 3 ∧ tag ≠ 4 ∧ tag ≠ 5 ∧ tag ≠ 6 ∧
      tag ≠ 7 ∧ tag ≠ 8 ∧ tag ≠ 9 ∧ tag ≠ 10
    omega
  unfold decodeRecord decodeTableRecord
  rw [hkey]
  simp only [hne, if_false, and_self]

theorem decodeRecord_agrees (hordered : OrderedRecord mem ep admitted cp)
    (h : MessageAgrees mem admitted m timestamp t) :
    RecordAgrees mem admitted (decodeRecord mem ep m timestamp cp)
      (decodeTableRecord mem ep t cp) := by
  generalize hkey : lsbPbReadKey mem cp = key
  rcases key with ⟨q, tag, wiretype⟩
  have hnext := lsbPbReadKey_next hkey
  subst hnext
  rcases recordTag tag with rfl | rfl | rfl | rfl | rfl | rfl | rfl | rfl |
    rfl | rfl | htag
  · unfold decodeRecord decodeTableRecord
    rw [hkey]
    exact recordAgrees_uuid hkey hordered h
  · unfold decodeRecord decodeTableRecord
    rw [hkey]
    exact recordAgrees_number (fun v => ({ m with timestamp := v }, true)) _
      (fun v => { h with timestamp := rfl })
  · unfold decodeRecord decodeTableRecord
    rw [hkey]
    exact recordAgrees_string _ _ (fun s hs => { h with type := hs.symm })
  · unfold decodeRecord decodeTableRecord
    rw [hkey]
    exact recordAgrees_string _ _ (fun s hs => { h with logger := hs.symm })
  · unfold decodeRecord decodeTableRecord
    rw [hkey]
    exact recordAgrees_number
      (fun v => ({ m with severity := toInt v }, timestamp)) _
      (fun v => { h with severity := Or.inr ⟨v, rfl, rfl⟩ })
  · unfold decodeRecord decodeTableRecord
    rw [hkey]
    exact recordAgrees_string _ _ (fun s hs => { h with payload := hs.symm })
  · unfold decodeRecord decodeTableRecord
    rw [hkey]
    exact recordAgrees_string _ _
      (fun s hs => { h with envVersion := hs.symm })
  · unfold decodeRecord decodeTableRecord
    rw [hkey]
    exact recordAgrees_number
      (fun v => ({ m with pid := toInt v }, timestamp)) _
      (fun v => { h with pid := Or.inr ⟨v, rfl, rfl⟩ })
  · unfold decodeRecord decodeTableRecord
    rw [hkey]
    exact recordAgrees_string _ _
      (fun s hs => { h with hostname := hs.symm })
  · unfold decodeRecord decodeTableRecord
    rw [hkey]
    exact recordAgrees_fields hkey hordered h
  · rcases decodeRecord_unknown ep m timestamp t hkey htag with
      ⟨hmessage, htable⟩
    rw [hmessage, htable]
    exact Or.inl ⟨rfl, rfl⟩

theorem decodeLoop_agrees (pbstr : Nat) : forall (n : Nat) {m : HekaMessage}
    {timestamp : Bool} {t : MessageTable} {cp : Nat},
      (forall c, RecordAt mem ep cp c -> OrderedRecord mem ep admitted c) ->
      MessageAgrees mem admitted m timestamp t ->
      ((decodeLoop mem ep n m timestamp cp).1 = false ∧
          exists e, decodeTableLoop mem pbstr ep n t cp = Except.error e) ∨
        exists m' timestamp' t',
          decodeLoop mem ep n m timestamp cp = (true, m', timestamp') ∧
          decodeTableLoop mem pbstr ep n t cp = Except.ok t' ∧
          MessageAgrees mem admitted m' timestamp' t' := by
  intro n
  induction n with
  | zero =>
      intro m timestamp t cp _ _
      exact Or.inl ⟨rfl, _, rfl⟩
  | succ n ih =>
      intro m timestamp t cp hordered h
      have hend := decodeRecord_end mem ep cp m timestamp
      unfold decodeLoop decodeTableLoop
      rcases decodeRecord_agrees (hordered cp RecordAt.here) h with
        ⟨hmessage, htable⟩ | ⟨q, m', timestamp', t', hmessage, htable, hagrees⟩
      · rw [htable]
        rcases hrecord : decodeRecord mem ep m timestamp cp with
          ⟨_ | q, m', timestamp'⟩
        · exact Or.inl ⟨rfl, _, rfl⟩
        · rw [hrecord] at hmessage
          cases hmessage
      · rw [hmessage] at hend
        rw [hmessage, htable]
        dsimp only
        by_cases hlt : q < ep
        · rw [if_pos hlt, if_pos hlt]
          exact ih (fun c hc =>
            hordered c (RecordAt.later hend.symm hlt hc)) hagrees
        · rw [if_neg hlt, if_neg hlt]
          exact Or.inr ⟨m', timestamp', t', rfl, rfl, hagrees⟩

/-!
## The shortest message
-/

/-- A record ends in the message. -/
theorem recordEnd_le {q : Nat} (hlt : cp < ep)
    (h : recordEnd mem ep cp = some q) : q <= ep := by
  have hstep := decodeRecord_bothStep false (sameBytes_self mem cp (ep - cp))
    (show 0 < ep - cp by omega) (moved_clear cp cp (ep - cp))
  have hep : cp + (ep - cp) = ep := Nat.add_sub_cancel' (Nat.le_of_lt hlt)
  rw [hep, Nat.add_zero] at hstep
  rw [← decodeRecord_end mem ep cp lsbClearHekaMessage false] at h
  generalize decodeRecord mem ep lsbClearHekaMessage false cp = x at h hstep
  cases hstep with
  | failed => cases h
  | passed hj _ =>
      cases h
      omega

/-- The bytes that the uuid and the timestamp have taken. -/
def requiredBytes (m : HekaMessage) (timestamp : Bool) : Nat :=
  (if m.uuid.s = none then 0 else 18) + (if timestamp then 2 else 0)

theorem requiredBytes_le (m m' : HekaMessage) (timestamp : Bool) :
    requiredBytes m' timestamp <= requiredBytes m timestamp + 18 ∧
      requiredBytes m true <= requiredBytes m timestamp + 2 := by
  unfold requiredBytes
  constructor
  · split <;> split <;> omega
  · rw [if_pos rfl]
    omega

theorem decodeRecord_required {q : Nat} {m' : HekaMessage} {timestamp' : Bool}
    (hlt : cp < ep)
    (h : decodeRecord mem ep m timestamp cp = (some q, m', timestamp')) :
    requiredBytes m' timestamp' + cp <= requiredBytes m timestamp + q := by
  have hrecord := h
  have hposition := decodeRecord_end mem ep cp m timestamp
  rw [h] at hposition
  have hq := recordEnd_position hlt hposition.symm
  unfold decodeRecord at h
  generalize hkey : lsbPbReadKey mem cp = key at h
  rcases key with ⟨r, tag, wiretype⟩
  have hnext := lsbPbReadKey_next hkey
  subst hnext
  dsimp only at h
  have hkept : m'.uuid = m.uuid -> timestamp' = timestamp ->
      requiredBytes m' timestamp' + cp <= requiredBytes m timestamp + q := by
    rintro huuid rfl
    unfold requiredBytes
    rw [huuid]
    omega
  have hstring : forall set : ConstString -> HekaMessage,
      (forall s, (set s).uuid = m.uuid) ->
      (match readString mem wiretype (cp + 1) ep with
        | none => (none, m, timestamp)
        | some (cp, s) => (some cp, set s, timestamp)) =
          (some q, m', timestamp') ->
      requiredBytes m' timestamp' + cp <= requiredBytes m timestamp + q := by
    intro set hset h
    split at h
    · cases h
    · cases h
      exact hkept (hset _) rfl
  have hnumber : forall set : Int -> HekaMessage,
      (forall v, (set v).uuid = m.uuid) ->
      (match processVarint mem wiretype (cp + 1) ep with
        | none => (none, m, timestamp)
        | some (cp, v) => (some cp, set v, timestamp)) =
          (some q, m', timestamp') ->
      requiredBytes m' timestamp' + cp <= requiredBytes m timestamp + q := by
    intro set hset h
    split at h
    · cases h
    · cases h
      exact hkept (hset _) rfl
  rcases recordTag tag with rfl | rfl | rfl | rfl | rfl | rfl | rfl | rfl |
    rfl | rfl | htag
  · change (match readString mem wiretype (cp + 1) ep with
      | none => (none, m, timestamp)
      | some (cp, s) => (if s.len ≠ lsbUuidSize then none else some cp,
          { m with uuid := s }, timestamp)) = _ at h
    split at h
    · cases h
    · rename_i r s hread
      rcases readString_slice hread with ⟨rfl, p, hlength, rfl⟩
      have hp := readLength_bounds hlength
      rw [Prod.mk.injEq, Prod.mk.injEq] at h
      rcases h with ⟨hend, rfl, rfl⟩
      split at hend
      · cases hend
      · rename_i hsize
        cases hend
        have hlen : s.len = 16 := not_not.mp hsize
        have hle := (requiredBytes_le m { m with uuid := s } timestamp).1
        omega
  · change (match processVarint mem wiretype (cp + 1) ep with
      | none => (none, m, timestamp)
      | some (cp, v) => (some cp, { m with timestamp := v }, true)) = _ at h
    split at h
    · cases h
    · rename_i r v hread
      have hr := processVarint_lt hread
      cases h
      have hle := (requiredBytes_le m m timestamp).2
      change requiredBytes m true + cp <= _
      omega
  · exact hstring (fun s => { m with type := s }) (fun _ => rfl) h
  · exact hstring (fun s => { m with logger := s }) (fun _ => rfl) h
  · exact hnumber (fun v => { m with severity := toInt v }) (fun _ => rfl) h
  · exact hstring (fun s => { m with payload := s }) (fun _ => rfl) h
  · exact hstring (fun s => { m with envVersion := s }) (fun _ => rfl) h
  · exact hnumber (fun v => { m with pid := toInt v }) (fun _ => rfl) h
  · exact hstring (fun s => { m with hostname := s }) (fun _ => rfl) h
  · change (if wiretype ≠ lsbPbWtLength then (none, m, timestamp)
      else match processFields mem (cp + 1) ep with
        | (cp, f) => (cp, { m with fields := m.fields ++ [f] }, timestamp)) =
          _ at h
    split at h
    · cases h
    · rw [Prod.mk.injEq, Prod.mk.injEq] at h
      rcases h with ⟨-, rfl, rfl⟩
      exact hkept rfl rfl
  · rw [(decodeRecord_unknown ep m timestamp MessageTable.empty hkey
      htag).1] at hrecord
    cases hrecord

theorem decodeLoop_required : forall (n : Nat) {m m' : HekaMessage}
    {timestamp timestamp' : Bool} {cp : Nat}, cp < ep ->
      decodeLoop mem ep n m timestamp cp = (true, m', timestamp') ->
      requiredBytes m' timestamp' + cp <= requiredBytes m timestamp + ep := by
  intro n
  induction n with
  | zero =>
      intro m m' timestamp timestamp' cp _ h
      cases h
  | succ n ih =>
      intro m m' timestamp timestamp' cp hlt h
      have hend := decodeRecord_end mem ep cp m timestamp
      unfold decodeLoop at h
      rcases hrecord : decodeRecord mem ep m timestamp cp with
        ⟨_ | q, m1, timestamp1⟩
      · rw [hrecord] at h
        cases h
      · rw [hrecord] at h hend
        have hstep := decodeRecord_required hlt hrecord
        dsimp only at h
        split at h
        · rename_i hq
          have hrest := ih hq h
          omega
        · have hle := recordEnd_le hlt hend.symm
          cases h
          omega

/-- A message that is accepted has at least 20 bytes. -/
theorem lsbDecodeHekaMessage_length {buf len : Nat}
    (h : (lsbDecodeHekaMessage mem buf len).1 = true) : 20 <= len := by
  unfold lsbDecodeHekaMessage at h
  split at h
  · cases h
  rename_i hlen
  rcases hloop : decodeLoop mem (buf + len) len lsbClearHekaMessage false buf
    with ⟨_ | _, m, timestamp⟩
  · rw [hloop] at h
    cases h
  · rw [hloop] at h
    have hbytes := decodeLoop_required len (by omega) hloop
    dsimp only at h
    split at h
    · cases h
    rename_i huuid
    split at h
    · cases h
    rename_i htimestamp
    have hboth : requiredBytes m timestamp = 20 := by
      unfold requiredBytes
      rw [if_neg huuid, if_pos (Bool.not_eq_false _ ▸ htimestamp)]
    have hnone : requiredBytes lsbClearHekaMessage false = 0 := rfl
    omega

/-!
## Whole messages
-/

theorem messageAgrees_clear :
    MessageAgrees mem admitted lsbClearHekaMessage false MessageTable.empty where
  uuid := rfl
  timestamp := rfl
  type := rfl
  logger := rfl
  severity := Or.inl ⟨rfl, rfl⟩
  payload := rfl
  envVersion := rfl
  pid := Or.inl ⟨rfl, rfl⟩
  hostname := rfl
  fields := List.Forall₂.nil

/-- Both decoders fail on an ordered message, or they agree on it. -/
theorem decode_agrees {buf len : Nat}
    (h : OrderedMessage mem buf len admitted) :
    ((lsbDecodeHekaMessage mem buf len).1 = false ∧
        exists e, hekaDecodeMessage mem buf len = Except.error e) ∨
      exists m t, lsbDecodeHekaMessage mem buf len = (true, m) ∧
        hekaDecodeMessage mem buf len = Except.ok t ∧
        MessageAgrees mem admitted m true t := by
  have hshort := @lsbDecodeHekaMessage_length mem buf len
  unfold hekaDecodeMessage
  by_cases hlen : len < 20
  · rw [if_pos hlen]
    refine Or.inl ⟨?_, _, rfl⟩
    rw [Bool.eq_false_iff]
    intro htrue
    have := hshort htrue
    omega
  rw [if_neg hlen]
  clear hshort
  unfold lsbDecodeHekaMessage
  rw [if_neg (show ¬ len = 0 by omega)]
  rcases decodeLoop_agrees buf len h messageAgrees_clear with
    ⟨hmessage, e, htable⟩ | ⟨m, timestamp, t, hmessage, htable, hagrees⟩
  · rw [htable]
    refine Or.inl ⟨?_, e, rfl⟩
    rcases hloop : decodeLoop mem (buf + len) len lsbClearHekaMessage false
      buf with ⟨_ | _, m, timestamp⟩
    · rfl
    · rw [hloop] at hmessage
      cases hmessage
  · rw [hmessage, htable]
    dsimp only
    have huuid : t.uuid = none <-> m.uuid.s = none := by
      rw [hagrees.uuid, contents_eq_none_iff]
    by_cases hmissing : m.uuid.s = none
    · rw [if_pos hmissing, if_pos (Or.inl (huuid.mpr hmissing))]
      exact Or.inl ⟨rfl, _, rfl⟩
    rw [if_neg hmissing]
    cases timestamp with
    | false =>
        have htimestamp : t.timestamp = none := hagrees.timestamp
        rw [if_pos rfl, if_pos (Or.inr htimestamp)]
        exact Or.inl ⟨rfl, _, rfl⟩
    | true =>
        have hboth : ¬ (t.uuid = none ∨ t.timestamp = none) := by
          rw [huuid, hagrees.timestamp, if_pos rfl, not_or]
          exact ⟨hmissing, nofun⟩
        rw [if_neg (by decide), if_neg hboth]
        exact Or.inr ⟨_, t, rfl, rfl, { hagrees with }⟩

/-!
## Accepted messages
-/

theorem forall₂_getElem? {alpha beta : Type} {R : alpha -> beta -> Prop}
    {xs : List alpha} {ys : List beta} (h : List.Forall₂ R xs ys) {i : Nat}
    {x : alpha} {y : beta} (hx : xs[i]? = some x) (hy : ys[i]? = some y) :
    R x y := by
  rcases List.getElem?_eq_some_iff.mp hx with ⟨hxlt, rfl⟩
  rcases List.getElem?_eq_some_iff.mp hy with ⟨hylt, rfl⟩
  exact h.get hxlt hylt

/-- Every field record that decoding gets to has its values in order. -/
def OrderedFields (mem : Memory) (buf len : Nat)
    (admitted : Int -> WireValues -> Prop) : Prop :=
  forall cp, RecordAt mem (buf + len) buf cp ->
    lsbPbReadKey mem cp = (cp + 1, lsbPbFields, lsbPbWtLength) ->
      OrderedField mem (buf + len) admitted (cp + 1)

/-- A uuid that both decoders take has its length in one byte. -/
theorem uuidLength_of_accepted {q q' r n : Nat} {m' : HekaMessage}
    {timestamp' : Bool} {t' : MessageTable}
    (hkey : lsbPbReadKey mem cp = (cp + 1, lsbPbUuid, lsbPbWtLength))
    (hlength : readLength mem (cp + 1) ep = some (r, n))
    (hmessage : decodeRecord mem ep m timestamp cp = (some q, m', timestamp'))
    (htable : decodeTableRecord mem ep t cp = some (q', t')) :
    r = cp + 2 := by
  unfold decodeTableRecord readTableString at htable
  rw [hkey] at htable
  dsimp only at htable
  rw [if_pos rfl, if_neg (not_not_intro rfl), hlength] at htable
  dsimp only at htable
  have hend : r + n - cp = 18 := by
    by_contra hne
    rw [if_neg hne] at htable
    cases htable
  unfold decodeRecord at hmessage
  rw [hkey] at hmessage
  dsimp only at hmessage
  rw [if_pos rfl] at hmessage
  cases hread : readString mem lsbPbWtLength (cp + 1) ep with
  | none =>
      rw [hread] at hmessage
      cases hmessage
  | some x =>
      rcases x with ⟨q, s⟩
      rcases readString_slice hread with ⟨-, r', hlength', rfl⟩
      rw [hlength] at hlength'
      cases hlength'
      rw [hread] at hmessage
      have hsize : s.len = lsbUuidSize := by
        by_contra hne
        dsimp only at hmessage
        rw [if_pos hne] at hmessage
        cases hmessage
      change s.len = 16 at hsize
      omega

/-- Decoders that both succeed agree. -/
theorem decodeLoop_accepted (pbstr : Nat) : forall (n : Nat) {m m' : HekaMessage}
    {timestamp timestamp' : Bool} {t t' : MessageTable} {cp : Nat},
      (forall c, RecordAt mem ep cp c ->
        lsbPbReadKey mem c = (c + 1, lsbPbFields, lsbPbWtLength) ->
          OrderedField mem ep admitted (c + 1)) ->
      MessageAgrees mem admitted m timestamp t ->
      decodeLoop mem ep n m timestamp cp = (true, m', timestamp') ->
      decodeTableLoop mem pbstr ep n t cp = Except.ok t' ->
      MessageAgrees mem admitted m' timestamp' t' := by
  intro n
  induction n with
  | zero =>
      intro m m' timestamp timestamp' t t' cp _ _ hmessage
      cases hmessage
  | succ n ih =>
      intro m m' timestamp timestamp' t t' cp hordered h hmessage htable
      have hend := decodeRecord_end mem ep cp m timestamp
      unfold decodeLoop at hmessage
      unfold decodeTableLoop at htable
      rcases hrecord : decodeRecord mem ep m timestamp cp with
        ⟨_ | q, m1, timestamp1⟩
      · rw [hrecord] at hmessage
        cases hmessage
      rcases htrecord : decodeTableRecord mem ep t cp with _ | ⟨q', t1⟩
      · rw [htrecord] at htable
        cases htable
      have hrecordOrdered : OrderedRecord mem ep admitted cp :=
        ⟨fun r n hkey hlength =>
            uuidLength_of_accepted hkey hlength hrecord htrecord,
          hordered cp RecordAt.here⟩
      rcases decodeRecord_agrees hrecordOrdered h with
        ⟨hnone, -⟩ | ⟨q1, m2, timestamp2, t2, hmessage', htable', hagrees⟩
      · rw [hrecord] at hnone
        cases hnone
      rw [hrecord] at hmessage hmessage' hend
      rw [htrecord] at htable htable'
      cases hmessage'
      cases htable'
      dsimp only at hmessage htable
      by_cases hlt : q < ep
      · rw [if_pos hlt] at hmessage htable
        exact ih (fun c hc =>
          hordered c (RecordAt.later hend.symm hlt hc)) hagrees hmessage htable
      · rw [if_neg hlt] at hmessage htable
        cases hmessage
        cases htable
        exact hagrees

/-- Both decoders take the message, and its fields are in order. -/
theorem decode_accepted {buf len : Nat}
    (hordered : OrderedFields mem buf len admitted)
    (hmessage : lsbDecodeHekaMessage mem buf len = (true, m))
    (htable : hekaDecodeMessage mem buf len = Except.ok t) :
    MessageAgrees mem admitted m true t ∧ m.raw.s = some buf := by
  unfold lsbDecodeHekaMessage at hmessage
  unfold hekaDecodeMessage at htable
  split at hmessage
  · cases hmessage
  split at htable
  · cases htable
  rcases hloop : decodeLoop mem (buf + len) len lsbClearHekaMessage false buf
    with ⟨_ | _, m', timestamp'⟩
  · rw [hloop] at hmessage
    cases hmessage
  rcases htloop : decodeTableLoop mem buf (buf + len) len MessageTable.empty
    buf with e | t'
  · rw [htloop] at htable
    cases htable
  have hagrees := decodeLoop_accepted buf len hordered messageAgrees_clear
    hloop htloop
  rw [hloop] at hmessage
  rw [htloop] at htable
  dsimp only at hmessage htable
  split at hmessage
  · cases hmessage
  split at hmessage
  · cases hmessage
  split at htable
  · cases htable
  rename_i htimestamp _
  cases hmessage
  cases htable
  rw [Bool.eq_true_of_not_eq_false htimestamp] at hagrees
  exact ⟨{ hagrees with }, rfl⟩

end

end Heka
end LuaSandbox
