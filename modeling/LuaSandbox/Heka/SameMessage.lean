import LuaSandbox.Foundation.DoubleInt
import LuaSandbox.Heka.DecodersAgree
import LuaSandbox.Heka.ReadMessage

/-!
# The same message

A message and the table of the same bytes: their headers, and the values of
their fields one by one.
-/

namespace LuaSandbox
namespace Heka

open Foundation
open Util

/-!
## Values
-/

/-- A boolean is zero if its low 32 bits are. -/
def TruthsFit : WireValues -> Prop
  | WireValues.bools ws =>
      forall w, w ∈ ws -> toInt (toLongLong w) = 0 -> w = 0
  | _ => True

/-- The field has the type of its values. -/
def SameKind (valueType : Int) (vs : WireValues) : Prop :=
  vs.Typed valueType ∧ TruthsFit vs

theorem isTrue_ofInt (w : Nat) :
    isTrue (Double.ofInt (toLongLong w)) = !decide (toLongLong w = 0) := by
  have heq : (Double.ofInt (toLongLong w)).value.eq
      (Double.Value.fin ((0 : Int) : Rat)) = decide (toLongLong w = 0) :=
    Double.value_ofInt_eq (toLongLong_natAbs w) (by decide)
  exact congrArg not heq

theorem booleanValue_eq {w : Nat} (hw : w < 2 ^ 64)
    (h : toInt (toLongLong w) = 0 -> w = 0) :
    booleanValue w =
      TableValue.boolean (isTrue (Double.ofInt (toLongLong w))) := by
  rw [isTrue_ofInt]
  unfold booleanValue
  apply congrArg TableValue.boolean
  rw [← decide_not]
  apply decide_eq_decide.mpr
  apply not_congr
  constructor
  · intro hzero
    exact (toLongLong_eq_iff hw (j := 0) (by decide)).mpr (h hzero)
  · intro hzero
    rw [hzero]
    rfl

/-- What is read from the slice is what stands in the table. -/
theorem fieldValue_read {mem : Memory} {v : ConstString} {vs : WireValues}
    (hslice : SliceHolds mem v vs) (htruths : TruthsFit vs) (ai : Nat) :
    fieldValue mem (vs.read ai) = (tableValues mem vs)[ai]? := by
  cases hslice with
  | strings =>
      rename_i p e ss _ _
      change fieldValue mem (ss[ai]?.map ReadValue.string) = (ss.map _)[ai]?
      rw [List.getElem?_map]
      cases ss[ai]? <;> rfl
  | integers =>
      rename_i p e ws _ _
      change fieldValue mem (ws[ai]?.map _) = (ws.map _)[ai]?
      rw [List.getElem?_map]
      cases ws[ai]? <;> rfl
  | doubles =>
      rename_i p e k _
      change fieldValue mem ((doublesAt mem p k)[ai]?.map _) =
        ((doublesAt mem p k).map _)[ai]?
      rw [List.getElem?_map]
      cases (doublesAt mem p k)[ai]? <;> rfl
  | bools _ hws =>
      rename_i p e ws _
      change fieldValue mem (ws[ai]?.map _) = (ws.map _)[ai]?
      rw [List.getElem?_map]
      cases hw : ws[ai]? with
      | none => rfl
      | some w =>
          have hmem := List.mem_of_getElem? hw
          exact congrArg some
            (booleanValue_eq (hws.word_lt hmem) (htruths w hmem)).symm

/-!
## Messages
-/

/-- The headers are the same; the message has the severity and the pid as an
`int`, or their default values. -/
structure SameHeaders (mem : Memory) (m : HekaMessage)
    (t : MessageTable) : Prop where
  uuid : t.uuid = m.uuid.contents mem
  timestamp : t.timestamp = some (Double.ofInt m.timestamp)
  type : t.type = m.type.contents mem
  logger : t.logger = m.logger.contents mem
  severity : NumberAgrees t.severity 7 m.severity
  payload : t.payload = m.payload.contents mem
  envVersion : t.envVersion = m.envVersion.contents mem
  pid : NumberAgrees t.pid intMin m.pid
  hostname : t.hostname = m.hostname.contents mem

/-- There are as many fields, with the same name, type and representation. -/
def SameHeads (mem : Memory) (m : HekaMessage) (t : MessageTable) : Prop :=
  List.Forall₂ (HeadAgrees mem) m.fields t.fields

/-- The values of every field are the same, and there are as many. -/
def SameValues (mem : Memory) (m : HekaMessage) (t : MessageTable) : Prop :=
  forall name fi i f tf, SelectsField mem m name fi i f ->
    t.fields[i]? = some tf -> forall ai : Nat, (ai : Int) < intMax ->
      fieldValue mem (lsbReadHekaField mem m name fi ai) = tf.value[ai]?

section

variable {mem : Memory} {buf len : Nat} {m : HekaMessage} {t : MessageTable}

theorem MessageAgrees.sameHeaders {admitted : Int -> WireValues -> Prop}
    (h : MessageAgrees mem admitted m true t) : SameHeaders mem m t :=
  ⟨h.uuid, h.timestamp, h.type, h.logger, h.severity, h.payload,
    h.envVersion, h.pid, h.hostname⟩

theorem MessageAgrees.sameHeads {admitted : Int -> WireValues -> Prop}
    (h : MessageAgrees mem admitted m true t) : SameHeads mem m t :=
  h.fields.imp (fun _ _ hfield => hfield.head)

theorem readFieldValue_none {f : HekaField} (h : f.value.s = none)
    (ai : Nat) : readFieldValue mem f ai = none := by
  unfold readFieldValue
  rw [h]

theorem MessageAgrees.sameValues (h : MessageAgrees mem SameKind m true t) :
    SameValues mem m t := by
  intro name fi i f tf hselects hfield ai hai
  have hvalues := (forall₂_getElem? h.fields hselects.field_eq hfield).values
  rw [hselects.read]
  cases hvalues with
  | none hslice hempty =>
      rw [readFieldValue_none hslice, hempty]
      rfl
  | some hkind hslice hvalue =>
      rw [readFieldValue_eq hslice hkind.1 hai, hvalue]
      exact fieldValue_read hslice hkind.2 ai

/--
On a message in order both decoders succeed or none; their headers and field
heads are the same, and so are the values if the fields have the types of their
values.
-/
theorem decoders_agree
    (hordered : OrderedMessage mem buf len (fun _ _ => True)) :
    ((lsbDecodeHekaMessage mem buf len).1 = true <->
        exists t, hekaDecodeMessage mem buf len = Except.ok t) ∧
      forall m t, lsbDecodeHekaMessage mem buf len = (true, m) ->
        hekaDecodeMessage mem buf len = Except.ok t ->
          SameHeaders mem m t ∧ SameHeads mem m t ∧
            (OrderedMessage mem buf len SameKind -> SameValues mem m t) := by
  constructor
  · rcases decode_agrees hordered with
      ⟨hmessage, e, htable⟩ | ⟨m, t, hmessage, htable, _⟩
    · rw [hmessage, htable]
      exact iff_of_false Bool.false_ne_true (fun ⟨t, ht⟩ => nomatch ht)
    · rw [hmessage, htable]
      exact iff_of_true rfl ⟨t, rfl⟩
  · intro m t hmessage htable
    have hagrees {admitted : Int -> WireValues -> Prop}
        (h : OrderedMessage mem buf len admitted) :
        MessageAgrees mem admitted m true t := by
      rcases decode_agrees h with
        ⟨hfalse, -⟩ | ⟨m', t', hmessage', htable', hagrees⟩
      · rw [hmessage] at hfalse
        cases hfalse
      · cases hmessage.symm.trans hmessage'
        cases htable.symm.trans htable'
        exact hagrees
    exact ⟨(hagrees hordered).sameHeaders, (hagrees hordered).sameHeads,
      fun hkind => (hagrees hkind).sameValues⟩

end

/-!
## A message with a boolean
-/

/-- A message with the boolean field `a` whose value is `b`. -/
def booleanMessage (b : UInt8) : List UInt8 :=
  0x0a :: 0x10 :: List.replicate 16 0 ++
    [0x10, 0x00, 0x52, 0x07, 0x0a, 0x01, 0x61, 0x10, 0x04, 0x40, b]

/-- A record is the first one, or it stands behind the end of the first. -/
theorem recordAt_cases {mem : Memory} {ep cp c q : Nat}
    (h : RecordAt mem ep cp c) (hend : recordEnd mem ep cp = some q) :
    c = cp ∨ RecordAt mem ep q c := by
  cases h with
  | here => exact Or.inl rfl
  | later hend' _ hlater =>
      rw [hend] at hend'
      cases hend'
      exact Or.inr hlater

theorem recordAt_last {mem : Memory} {ep cp c q : Nat}
    (h : RecordAt mem ep cp c) (hend : recordEnd mem ep cp = some q)
    (hlast : ep <= q) : c = cp := by
  cases h with
  | here => rfl
  | later hend' hlt _ =>
      rw [hend] at hend'
      cases hend'
      omega

theorem orderedFields_booleanMessage {b : UInt8} (hb : b = 1 ∨ b = 2)
    {admitted : Int -> WireValues -> Prop}
    (hadmitted : admitted lsbPbBool (WireValues.bools [b.toNat])) :
    OrderedFields (Memory.ofList (booleanMessage b)) 0 29 admitted := by
  have hends : recordEnd (Memory.ofList (booleanMessage b)) 29 0 = some 18 ∧
      recordEnd (Memory.ofList (booleanMessage b)) 29 18 = some 20 ∧
      recordEnd (Memory.ofList (booleanMessage b)) 29 20 = some 29 := by
    rcases hb with rfl | rfl <;> decide
  have hkeys : lsbPbReadKey (Memory.ofList (booleanMessage b)) 0 = (1, 1, 2) ∧
      lsbPbReadKey (Memory.ofList (booleanMessage b)) 18 = (19, 2, 0) ∧
      lsbPbReadKey (Memory.ofList (booleanMessage b)) 22 = (23, 1, 2) ∧
      lsbPbReadKey (Memory.ofList (booleanMessage b)) 25 = (26, 2, 0) ∧
      lsbPbReadKey (Memory.ofList (booleanMessage b)) 27 = (28, 8, 0) := by
    rcases hb with rfl | rfl <;> decide
  have hlengths : readLength (Memory.ofList (booleanMessage b)) 21 29 =
        some (22, 7) ∧
      headEnd (Memory.ofList (booleanMessage b)) 29 lsbPbString 22 =
        some (25, 0) ∧
      headEnd (Memory.ofList (booleanMessage b)) 29 0 25 = some (27, 4) ∧
      HoldsVarint (Memory.ofList (booleanMessage b)) 28 b.toNat 29 := by
    unfold HoldsVarint
    rcases hb with rfl | rfl <;> decide
  generalize Memory.ofList (booleanMessage b) = mem at hends hkeys hlengths
  rcases hkeys with ⟨huuid, htimestamp, hname, htype, hvalue⟩
  rcases hlengths with ⟨hlength, hnameEnd, htypeEnd, hword⟩
  intro cp hcp hkey
  rcases recordAt_cases hcp hends.1 with rfl | hcp
  · cases huuid.symm.trans hkey
  rcases recordAt_cases hcp hends.2.1 with rfl | hcp
  · cases htimestamp.symm.trans hkey
  cases recordAt_last hcp hends.2.2 (by decide)
  intro r n hlength'
  cases hlength.symm.trans hlength'
  apply Ordered.head (Or.inl (congrArg (fun k => k.2.1) hname))
  intro q valueType hend _
  cases hnameEnd.symm.trans hend
  apply Ordered.head (Or.inr (Or.inl (congrArg (fun k => k.2.1) htype)))
  intro q valueType hend _
  cases htypeEnd.symm.trans hend
  exact @Ordered.values _ _ _ _ _ (WireValues.bools [b.toNat])
    (HoldsWords.single hvalue hword) hadmitted

theorem orderedMessage_booleanMessage {admitted : Int -> WireValues -> Prop}
    (hadmitted : admitted lsbPbBool (WireValues.bools [1])) :
    OrderedMessage (Memory.ofList (booleanMessage 1)) 0 29 admitted := by
  intro cp hcp
  refine ⟨?_, orderedFields_booleanMessage (Or.inl rfl) hadmitted cp hcp⟩
  intro r n hkey hlength
  have hfirst : recordEnd (Memory.ofList (booleanMessage 1)) 29 0 =
      some 18 := by
    decide
  have hsecond : recordEnd (Memory.ofList (booleanMessage 1)) 29 18 =
      some 20 := by
    decide
  have hthird : recordEnd (Memory.ofList (booleanMessage 1)) 29 20 =
      some 29 := by
    decide
  rcases recordAt_cases hcp hfirst with rfl | hcp
  · have hlength' : readLength (Memory.ofList (booleanMessage 1)) 1 29 =
        some (2, 16) := by
      decide
    cases hlength'.symm.trans hlength
    rfl
  rcases recordAt_cases hcp hsecond with rfl | hcp
  · exact absurd (congrArg (fun k => k.2.1) hkey) (by decide)
  cases recordAt_last hcp hthird (by decide)
  exact absurd (congrArg (fun k => k.2.1) hkey) (by decide)

theorem decoders_agree_boolean :
    ((lsbDecodeHekaMessage (Memory.ofList (booleanMessage 1)) 0 29).1 =
        true <->
      exists t, hekaDecodeMessage (Memory.ofList (booleanMessage 1)) 0 29 =
        Except.ok t) ∧
      forall m t,
        lsbDecodeHekaMessage (Memory.ofList (booleanMessage 1)) 0 29 =
          (true, m) ->
        hekaDecodeMessage (Memory.ofList (booleanMessage 1)) 0 29 =
          Except.ok t ->
        SameHeaders (Memory.ofList (booleanMessage 1)) m t ∧
          SameHeads (Memory.ofList (booleanMessage 1)) m t ∧
          (OrderedMessage (Memory.ofList (booleanMessage 1)) 0 29 SameKind ->
            SameValues (Memory.ofList (booleanMessage 1)) m t) :=
  decoders_agree (orderedMessage_booleanMessage trivial)

/-!
## Values that are not looked at
-/

/-- The entries of a record in the order of the format: those in front of the
values, then strings, or a single or a packed number. -/
inductive InOrder (mem : Memory) (e : Nat) : Nat -> Prop where
  | head {p q valueType} : HeadTag (lsbPbReadKey mem p).2.1 ->
      headEnd mem e lsbPbString p = some (q, valueType) ->
      (q < e -> InOrder mem e q) -> InOrder mem e p
  | strings {p} : StringTag (lsbPbReadKey mem p).2.1 -> InOrder mem e p
  | single {p} : lsbPbValueInteger <= (lsbPbReadKey mem p).2.1 ->
      (lsbPbReadKey mem p).2.2 ≠ lsbPbWtLength -> InOrder mem e p
  | packed {p n r} : lsbPbValueInteger <= (lsbPbReadKey mem p).2.1 ->
      (lsbPbReadKey mem p).2.2 = lsbPbWtLength ->
      HoldsLength mem (p + 1) n r -> r + n = e -> InOrder mem e p

/-- A message with a field of packed doubles that take three bytes. -/
def shortDoubles : List UInt8 :=
  0x0a :: 0x10 :: List.replicate 16 0 ++
    [0x10, 0x00, 0x52, 0x0a, 0x0a, 0x01, 0x61, 0x10, 0x03, 0x3a, 0x03,
      0x01, 0x02, 0x03]

/-- Only the decoder of tables looks at the values. -/
theorem decoders_disagree :
    ¬ forall (mem : Memory) (buf len : Nat),
      (forall cp r n, RecordAt mem (buf + len) buf cp ->
        lsbPbReadKey mem cp = (cp + 1, lsbPbFields, lsbPbWtLength) ->
        readLength mem (cp + 1) (buf + len) = some (r, n) ->
        InOrder mem (r + n) r) ->
      ((lsbDecodeHekaMessage mem buf len).1 = true <->
        exists t, hekaDecodeMessage mem buf len = Except.ok t) := by
  intro h
  have hagree := h (Memory.ofList shortDoubles) 0 32 (by
    intro cp r n hcp hkey hlength
    have hfirst : recordEnd (Memory.ofList shortDoubles) 32 0 = some 18 := by
      decide
    have hsecond : recordEnd (Memory.ofList shortDoubles) 32 18 =
        some 20 := by
      decide
    have hthird : recordEnd (Memory.ofList shortDoubles) 32 20 = some 32 := by
      decide
    rcases recordAt_cases hcp hfirst with rfl | hcp
    · exact absurd (congrArg (fun k => k.2.1) hkey) (by decide)
    rcases recordAt_cases hcp hsecond with rfl | hcp
    · exact absurd (congrArg (fun k => k.2.1) hkey) (by decide)
    cases recordAt_last hcp hthird (by decide)
    have hlength' : readLength (Memory.ofList shortDoubles) 21 32 =
        some (22, 10) := by
      decide
    cases hlength'.symm.trans hlength
    have hvalues : HoldsLength (Memory.ofList shortDoubles) 28 3 29 := by
      unfold HoldsLength HoldsVarint
      decide
    have hname : headEnd (Memory.ofList shortDoubles) 32 lsbPbString 22 =
        some (25, 0) := by
      decide
    have htype : headEnd (Memory.ofList shortDoubles) 32 lsbPbString 25 =
        some (27, 3) := by
      decide
    exact InOrder.head (Or.inl (by decide)) hname (fun _ =>
      InOrder.head (Or.inr (Or.inl (by decide))) htype (fun _ =>
        InOrder.packed (by decide) (by decide +kernel) hvalues rfl)))
  have hmessage : (lsbDecodeHekaMessage (Memory.ofList shortDoubles) 0
      32).1 = true := by
    decide
  have htable : hekaDecodeMessage (Memory.ofList shortDoubles) 0 32 =
      Except.error (DecodeError.inTag 10 2 20) := by
    decide
  rcases hagree.mp hmessage with ⟨t, ht⟩
  cases htable.symm.trans ht

end Heka
end LuaSandbox
