import LuaSandbox.Heka.ReadMessage
import LuaSandbox.Util.Piece

/-!
# Zero-copy reads

The references to a variable of a message.  The bytes are looked up each time
that a reference is written to an output buffer, given out in segments or turned
into a string.
-/

namespace LuaSandbox
namespace Heka

open Foundation
open Util

inductive ZcError where
  | fieldIndex
  | arrayIndex
  | field (text : List UInt8)
  | unsupportedType (text : List UInt8)
  | name (text : List UInt8)
  deriving DecidableEq

/-- The text behind the name of the function or of the argument. -/
def ZcError.message : ZcError -> List UInt8
  | fieldIndex => ascii "field index must be >= 0"
  | arrayIndex => ascii "array index must be >= 0"
  | field text =>
      ascii "field: '" ++ cString text ++ ascii "' not supported/recognized"
  | unsupportedType text =>
      ascii "zc->name.s: '" ++ cString text ++
        ascii "' contains an unsupported type"
  | name text =>
      ascii "zc->name.s: '" ++ cString text ++
        ascii "' not supported/recognized"

structure ReadMessageZc where
  name : List UInt8
  fi : Int
  ai : Int
  field : List UInt8
  deriving DecidableEq

/-- The variables with bytes that can be referred to. -/
def isReferable (field : List UInt8) : Prop :=
  cString field = ascii "Uuid" ∨ cString field = ascii "Type" ∨
    cString field = ascii "Logger" ∨ cString field = ascii "Payload" ∨
    cString field = ascii "EnvVersion" ∨ cString field = ascii "Hostname" ∨
    cString field = ascii "raw" ∨ cString field = ascii "framed" ∨
    (fieldName field).isSome = true

instance (field : List UInt8) : Decidable (isReferable field) :=
  inferInstanceAs (Decidable (_ ∨ _))

def hekaCreateReadMessageZc (field : List UInt8) (fi ai : Int) :
    Except ZcError ReadMessageZc :=
  if fi < 0 then
    Except.error ZcError.fieldIndex
  else if ai < 0 then
    Except.error ZcError.arrayIndex
  else if ¬ isReferable field then
    Except.error (ZcError.field field)
  else
    Except.ok
      { name := if cString field = ascii "framed" then ascii "raw" else field
        fi := fi
        ai := ai
        field := field }

/-- A slice as it is, the null string where there are no bytes. -/
def orNull (s : ConstString) : ConstString :=
  if s.s = none then ConstString.init else s

section

variable (mem : Memory) (m : Option HekaMessage) (zc : ReadMessageZc)

/-- The bytes that are referred to now; there may be no message. -/
def readMessage : Except ZcError ConstString :=
  match m with
  | none => Except.ok ConstString.init
  | some m =>
      if m.raw.s = none then
        Except.ok ConstString.init
      else if cString zc.name = ascii "raw" then
        Except.ok (orNull m.raw)
      else if cString zc.name = ascii "Payload" then
        Except.ok (orNull m.payload)
      else if cString zc.name = ascii "Logger" then
        Except.ok (orNull m.logger)
      else if cString zc.name = ascii "Type" then
        Except.ok (orNull m.type)
      else if cString zc.name = ascii "EnvVersion" then
        Except.ok (orNull m.envVersion)
      else if cString zc.name = ascii "Hostname" then
        Except.ok (orNull m.hostname)
      else if cString zc.name = ascii "Uuid" then
        Except.ok (orNull m.uuid)
      else
        match fieldName zc.name with
        | some name =>
            match lsbReadHekaField mem m name zc.fi.toNat zc.ai.toNat with
            | some (ReadValue.string s) => Except.ok s
            | none | some ReadValue.nil => Except.ok ConstString.init
            | some _ => Except.error (ZcError.unsupportedType zc.name)
        | none => Except.error (ZcError.name zc.name)

def isFramed : Bool := cString zc.field = ascii "framed"

/-- A slice behind the header that the variable asks for. -/
def outputSlice (f : ConstString) : Writer Unit := do
  if isFramed zc then
    lsbOutputs (lsbWriteHekaHeader f.len)
  lsbOutputs (f.bytes mem)

/-- The output function: 1 asks the caller to raise an error. -/
def zcOutput : Option WriteState -> Except ZcError (Int × Option WriteState)
  | none => Except.ok (1, none)
  | some ob =>
      match readMessage mem m zc with
      | Except.error e => Except.error e
      | Except.ok f =>
          if f.s = none then
            Except.ok (0, some ob)
          else
            match (outputSlice mem zc f).run ob with
            | (Except.ok _, ob) => Except.ok (0, some ob)
            | (Except.error _, ob) => Except.ok (1, some ob)

/-- A Lua string, or a pointer with the number of bytes. -/
inductive Segment where
  | string (s : List UInt8)
  | slice (s : Option Nat) (len : Int)
  deriving DecidableEq

def zcReturn : Except ZcError (List Segment) :=
  match readMessage mem m zc with
  | Except.error e => Except.error e
  | Except.ok f =>
      let header :=
        if isFramed zc then [Segment.string (lsbWriteHekaHeader f.len)] else []
      Except.ok (header ++ [Segment.slice f.s (toInt f.len)])

/-- The string, `none` for nil. -/
def zcTostring : Except ZcError (Option (List UInt8)) :=
  match readMessage mem m zc with
  | Except.error e => Except.error e
  | Except.ok f =>
      if f.s = none then
        Except.ok none
      else if isFramed zc then
        Except.ok (some (lsbWriteHekaHeader f.len ++ f.bytes mem))
      else
        Except.ok (some (f.bytes mem))

end

/-!
## Variables
-/

/-- The variables with bytes of a message. -/
inductive Variable where
  | raw
  | framed
  | payload
  | logger
  | type
  | envVersion
  | hostname
  | uuid
  | field (name : List UInt8)
  deriving DecidableEq

/-- The texts that name a variable. -/
inductive Names (text : List UInt8) : Variable -> Prop where
  | raw : cString text = ascii "raw" -> Names text Variable.raw
  | framed : cString text = ascii "framed" -> Names text Variable.framed
  | payload : cString text = ascii "Payload" -> Names text Variable.payload
  | logger : cString text = ascii "Logger" -> Names text Variable.logger
  | type : cString text = ascii "Type" -> Names text Variable.type
  | envVersion :
      cString text = ascii "EnvVersion" -> Names text Variable.envVersion
  | hostname : cString text = ascii "Hostname" -> Names text Variable.hostname
  | uuid : cString text = ascii "Uuid" -> Names text Variable.uuid
  | field {name : List UInt8} :
      fieldName text = some name -> Names text (Variable.field name)

/-- A slice that is there. -/
def given (s : ConstString) : Option ConstString :=
  s.s.map (fun _ => s)

/-- The message that can be read. -/
def activeMessage (m : Option HekaMessage) : Option HekaMessage :=
  m.filter (fun m => m.raw.s ≠ none)

/-- The bytes of a field value that is a string. -/
def stringPart : Option ReadValue -> Option ConstString
  | some (ReadValue.string s) => some s
  | _ => none

namespace Variable

/-- The part of the message that a variable stands for. -/
def slice (mem : Memory) (m : HekaMessage) (fi ai : Nat) :
    Variable -> Option ConstString
  | raw => given m.raw
  | framed => given m.raw
  | payload => given m.payload
  | logger => given m.logger
  | type => given m.type
  | envVersion => given m.envVersion
  | hostname => given m.hostname
  | uuid => given m.uuid
  | field name => stringPart (lsbReadHekaField mem m name fi ai)

/-- The bytes of a variable whose part of the message is `s`. -/
def text (mem : Memory) (s : ConstString) : Variable -> List UInt8
  | framed => lsbWriteHekaHeader s.len ++ s.bytes mem
  | _ => s.bytes mem

end Variable

theorem names_of_create {field : List UInt8} {fi ai : Int}
    {zc : ReadMessageZc} (h : hekaCreateReadMessageZc field fi ai =
      Except.ok zc) :
    0 <= fi ∧ 0 <= ai ∧ (exists v, Names field v) ∧
      zc.field = field ∧ zc.fi = fi ∧ zc.ai = ai ∧
      zc.name = if cString field = ascii "framed" then ascii "raw" else field := by
  unfold hekaCreateReadMessageZc at h
  split at h
  · cases h
  split at h
  · cases h
  split at h
  · cases h
  rename_i hfi hai hreferable
  cases h
  refine ⟨by omega, by omega, ?_, rfl, rfl, rfl, rfl⟩
  rcases Decidable.not_not.mp hreferable with
    hname | hname | hname | hname | hname | hname | hname | hname | hname
  · exact ⟨_, Names.uuid hname⟩
  · exact ⟨_, Names.type hname⟩
  · exact ⟨_, Names.logger hname⟩
  · exact ⟨_, Names.payload hname⟩
  · exact ⟨_, Names.envVersion hname⟩
  · exact ⟨_, Names.hostname hname⟩
  · exact ⟨_, Names.raw hname⟩
  · exact ⟨_, Names.framed hname⟩
  · rcases Option.isSome_iff_exists.mp hname with ⟨name, hname⟩
    exact ⟨_, Names.field hname⟩

theorem fieldName_eq {text name : List UInt8}
    (h : fieldName text = some name) : text = fieldReference name := by
  unfold fieldName at h
  split at h
  · rename_i hfield
    rcases hfield with ⟨_, htake, hlast⟩
    cases h
    have hdrop : (text.drop 7).getLast? = some 0x5d := by
      rw [List.getLast?_drop, if_neg (by omega)]
      exact hlast
    have hend := List.dropLast_append_getLast? 0x5d hdrop
    unfold fieldReference
    rw [List.append_assoc, hend, ← htake, List.take_append_drop]
  · cases h

theorem cString_fieldReference_ne (name : List UInt8) {s : String}
    (hhead : (ascii s).head? ≠ some 0x46) :
    cString (fieldReference name) ≠ ascii s := by
  intro heq
  apply hhead
  rw [← heq]
  rfl

section

variable {mem : Memory} {m : HekaMessage} {field : List UInt8} {fi ai : Nat}
  {v : Variable} {zc : ReadMessageZc}

theorem readStringValueLoop_pointer {e : Nat} {s : ConstString} :
    forall {n p acnt : Nat}, readStringValueLoop mem e ai n p acnt =
      some (ReadValue.string s) -> s.s ≠ none := by
  intro n
  induction n with
  | zero =>
      intro p acnt h
      cases h
  | succ n ih =>
      intro p acnt h
      unfold readStringValueLoop at h
      split at h
      · dsimp only at h
        split at h
        · cases h
        · rename_i r t hread
          split at h
          · cases h
            unfold readString at hread
            split at hread
            · cases hread
            split at hread
            · cases hread
            split at hread
            · cases hread
            · cases hread
              exact Option.some_ne_none _
          · exact ih h
      · cases h

theorem readIntegerValueLoop_ne_string {e : Nat} (s : ConstString) :
    forall {n p acnt : Nat}, readIntegerValueLoop mem e ai n p acnt ≠
      some (ReadValue.string s) := by
  intro n
  induction n with
  | zero =>
      intro p acnt h
      cases h
  | succ n ih =>
      intro p acnt h
      unfold readIntegerValueLoop at h
      split at h
      · split at h
        · cases h
        · split at h
          · cases h
          · exact ih h
      · cases h

theorem readFieldValue_pointer {f : HekaField} {s : ConstString}
    (h : readFieldValue mem f ai = some (ReadValue.string s)) :
    s.s ≠ none := by
  unfold readFieldValue at h
  split at h
  · cases h
  · dsimp only at h
    split at h
    · exact readStringValueLoop_pointer h
    split at h
    · exact absurd h (readIntegerValueLoop_ne_string s)
    split at h
    · split at h <;> cases h
    split at h
    · unfold readDoubleValue at h
      split at h <;> cases h
    · cases h

theorem lsbReadHekaField_pointer {name : List UInt8} {s : ConstString}
    (h : lsbReadHekaField mem m name fi ai = some (ReadValue.string s)) :
    s.s ≠ none := by
  unfold lsbReadHekaField at h
  generalize 0 = fcnt, m.fields = fs at h
  induction fs generalizing fcnt with
  | nil => cases h
  | cons f fs ih =>
      unfold readHekaFieldLoop at h
      split at h
      · split at h
        · exact readFieldValue_pointer h
        · exact ih _ h
      · exact ih _ h

/-- A part of a message has a pointer. -/
theorem Variable.slice_pointer {s : ConstString}
    (h : v.slice mem m fi ai = some s) : s.s ≠ none := by
  have hgiven : forall {t : ConstString}, given t = some s -> s.s ≠ none := by
    intro t ht
    unfold given at ht
    rw [Option.map_eq_some_iff] at ht
    rcases ht with ⟨p, hp, rfl⟩
    rw [hp]
    exact Option.some_ne_none p
  cases v with
  | field name =>
      change stringPart _ = some s at h
      unfold stringPart at h
      split at h
      · rename_i hread
        cases h
        exact lsbReadHekaField_pointer hread
      · cases h
  | _ => exact hgiven h

theorem orNull_eq (s : ConstString) :
    orNull s = (given s).getD ConstString.init := by
  unfold orNull given
  rcases s with ⟨_ | p, len⟩
  · rfl
  · rfl

theorem stringValue_eq (s : ConstString) :
    stringValue mem s =
      (given s).map (fun s => TableValue.string (s.bytes mem)) := by
  unfold stringValue ConstString.contents given
  rw [Option.map_map, Option.map_map]
  cases hs : s.s with
  | none => rfl
  | some p =>
      change some (TableValue.string _) = some (TableValue.string _)
      unfold ConstString.bytes
      rw [hs]

theorem string_map_injective {x y : Option (List UInt8)}
    (h : x.map TableValue.string = y.map TableValue.string) : x = y :=
  Option.map_injective (fun _ _ h => TableValue.string.inj h) h

theorem fieldValue_string {r : Option ReadValue}
    {text : Option (List UInt8)}
    (h : fieldValue mem r = text.map TableValue.string) :
    text = (stringPart r).map (fun s => s.bytes mem) := by
  apply string_map_injective
  rw [← h]
  match r, h with
  | none, _ => rfl
  | some ReadValue.nil, _ => rfl
  | some (ReadValue.string s), _ => rfl
  | some (ReadValue.numeric d), h => cases text <;> cases h
  | some (ReadValue.bool d), h => cases text <;> cases h

/-- A field value that is read as a string or as nil is no error. -/
theorem readPart_of_string {r : Option ReadValue} {e : ZcError}
    {text : Option (List UInt8)}
    (h : fieldValue mem r = text.map TableValue.string) :
    (match r with
      | some (ReadValue.string s) => Except.ok s
      | none | some ReadValue.nil => Except.ok ConstString.init
      | some _ => Except.error e) =
      Except.ok ((stringPart r).getD ConstString.init) := by
  match r, h with
  | none, _ => rfl
  | some ReadValue.nil, _ => rfl
  | some (ReadValue.string s), _ => rfl
  | some (ReadValue.numeric d), h => cases text <;> cases h
  | some (ReadValue.bool d), h => cases text <;> cases h

/-- A plain read gives the text of the variable. -/
theorem hekaReadMessage_names (hname : Names field v)
    (hraw : m.raw.s ≠ none) {text : Option (List UInt8)}
    (hread : hekaReadMessage mem (some m) field fi ai =
      Except.ok (text.map TableValue.string)) :
    text = (v.slice mem m fi ai).map (fun s => v.text mem s) := by
  have hheader : forall {t : ConstString}, hekaReadMessage mem (some m) field
      fi ai = Except.ok (stringValue mem t) ->
        text = (given t).map (fun s => s.bytes mem) := by
    intro t ht
    apply string_map_injective
    rw [← Except.ok.inj (ht.symm.trans hread), stringValue_eq, Option.map_map]
    rfl
  have hactive := hread
  unfold hekaReadMessage at hactive
  rw [if_neg (by omega), if_neg (by omega)] at hactive
  dsimp only at hactive
  rw [if_neg hraw] at hactive
  cases hname with
  | field hfield =>
      cases fieldName_eq hfield
      rw [hekaReadMessage_field hraw] at hread
      exact fieldValue_string (Except.ok.inj hread)
  | framed h =>
      rw [h] at hactive
      apply string_map_injective
      rw [← Except.ok.inj hactive]
      rcases Option.ne_none_iff_exists'.mp hraw with ⟨p, hp⟩
      unfold Variable.slice given
      rw [hp]
      rfl
  | raw h =>
      apply hheader
      rw [hread, ← hactive, h]
      rfl
  | payload h =>
      apply hheader
      rw [hread, ← hactive, h]
      rfl
  | logger h =>
      apply hheader
      rw [hread, ← hactive, h]
      rfl
  | type h =>
      apply hheader
      rw [hread, ← hactive, h]
      rfl
  | envVersion h =>
      apply hheader
      rw [hread, ← hactive, h]
      rfl
  | hostname h =>
      apply hheader
      rw [hread, ← hactive, h]
      rfl
  | uuid h =>
      apply hheader
      rw [hread, ← hactive, h]
      rfl

/-- A reference that is not to another type of value gives the same part of the
message. -/
theorem readMessage_names (hname : Names field v) (hraw : m.raw.s ≠ none)
    (hcreate : hekaCreateReadMessageZc field fi ai = Except.ok zc)
    {text : Option (List UInt8)}
    (hread : hekaReadMessage mem (some m) field fi ai =
      Except.ok (text.map TableValue.string)) :
    readMessage mem (some m) zc =
      Except.ok ((v.slice mem m fi ai).getD ConstString.init) := by
  rcases names_of_create hcreate with ⟨_, _, _, _, hfi, hai, hzc⟩
  unfold readMessage
  dsimp only
  rw [if_neg hraw, hfi, hai]
  cases hname with
  | @field name hfield =>
      cases fieldName_eq hfield
      have hheader : forall {s : String}, (ascii s).head? ≠ some 0x46 ->
          cString (fieldReference name) ≠ ascii s :=
        cString_fieldReference_ne name
      rw [hekaReadMessage_field hraw] at hread
      rw [hzc.trans (if_neg (hheader (by decide))),
        if_neg (hheader (by decide)), if_neg (hheader (by decide)),
        if_neg (hheader (by decide)), if_neg (hheader (by decide)),
        if_neg (hheader (by decide)), if_neg (hheader (by decide)),
        if_neg (hheader (by decide)), hfield]
      exact readPart_of_string (Except.ok.inj hread)
  | framed h =>
      rw [hzc.trans (if_pos h)]
      exact congrArg Except.ok (orNull_eq _)
  | raw h =>
      rw [hzc.trans (if_neg (by rw [h]; decide)), h]
      exact congrArg Except.ok (orNull_eq _)
  | payload h =>
      rw [hzc.trans (if_neg (by rw [h]; decide)), h]
      exact congrArg Except.ok (orNull_eq _)
  | logger h =>
      rw [hzc.trans (if_neg (by rw [h]; decide)), h]
      exact congrArg Except.ok (orNull_eq _)
  | type h =>
      rw [hzc.trans (if_neg (by rw [h]; decide)), h]
      exact congrArg Except.ok (orNull_eq _)
  | envVersion h =>
      rw [hzc.trans (if_neg (by rw [h]; decide)), h]
      exact congrArg Except.ok (orNull_eq _)
  | hostname h =>
      rw [hzc.trans (if_neg (by rw [h]; decide)), h]
      exact congrArg Except.ok (orNull_eq _)
  | uuid h =>
      rw [hzc.trans (if_neg (by rw [h]; decide)), h]
      exact congrArg Except.ok (orNull_eq _)

end

/-!
## Agreement
-/

/-- The part of the active message that a variable stands for. -/
def Variable.current (mem : Memory) (m : Option HekaMessage) (fi ai : Nat)
    (v : Variable) : Option ConstString :=
  (activeMessage m).bind (fun m => v.slice mem m fi ai)

/-- What a segment has; a null pointer has nothing. -/
def Segment.text (mem : Memory) : Segment -> Option (List UInt8)
  | string s => some s
  | slice none _ => none
  | slice (some p) len => some (mem.bytes p len.toNat)

/-- The segments one behind the other, nothing if none of them has any. -/
def concatSegments (mem : Memory) (segments : List Segment) :
    Option (List UInt8) :=
  match segments.filterMap (Segment.text mem) with
  | [] => none
  | parts => some parts.flatten

/-- The three ways to the bytes of a reference give `text`, where `none` is
nothing.  An output buffer without the room for it is refused. -/
structure Gives (mem : Memory) (m : Option HekaMessage) (zc : ReadMessageZc)
    (text : Option (List UInt8)) : Prop where
  output : forall ob : WriteState, exists status t,
    zcOutput mem m zc (some ob) = Except.ok (status, some t) ∧
      (status = 0 ->
        t.ob.contents = ob.ob.contents ++ text.getD []) ∧
      (text = none -> status = 0 ∧ t = ob) ∧
      (status ≠ 0 -> ob.MemoryAvailable ->
        ob.ob.capacity < ob.ob.pos + (text.getD []).length + 1)
  segments : exists segments, zcReturn mem m zc = Except.ok segments ∧
    concatSegments mem segments = text
  tostring : zcTostring mem m zc = Except.ok text

section

variable {mem : Memory} {m : Option HekaMessage} {field : List UInt8}
  {fi ai : Nat} {v : Variable} {zc : ReadMessageZc}
  {text : Option (List UInt8)}

theorem activeMessage_cases (m : Option HekaMessage) :
    (exists n, m = some n ∧ n.raw.s ≠ none ∧ activeMessage m = some n) ∨
      ((m = none ∨ exists n, m = some n ∧ n.raw.s = none) ∧
        activeMessage m = none) := by
  cases m with
  | none => exact Or.inr ⟨Or.inl rfl, rfl⟩
  | some n =>
      by_cases hraw : n.raw.s = none
      · refine Or.inr ⟨Or.inr ⟨n, rfl, hraw⟩, ?_⟩
        unfold activeMessage
        rw [Option.filter_some, if_neg (by simp [hraw])]
      · refine Or.inl ⟨n, rfl, hraw, ?_⟩
        unfold activeMessage
        rw [Option.filter_some, if_pos (by simp [hraw])]

/-- Without a message nothing is read. -/
theorem hekaReadMessage_inactive
    (hm : m = none ∨ exists n, m = some n ∧ n.raw.s = none) :
    hekaReadMessage mem m field fi ai = Except.ok none := by
  unfold hekaReadMessage
  rw [if_neg (by omega), if_neg (by omega)]
  rcases hm with rfl | ⟨n, rfl, hraw⟩
  · rfl
  · exact if_pos hraw

theorem readMessage_inactive
    (hm : m = none ∨ exists n, m = some n ∧ n.raw.s = none) :
    readMessage mem m zc = Except.ok ConstString.init := by
  unfold readMessage
  rcases hm with rfl | ⟨n, rfl, hraw⟩
  · rfl
  · exact if_pos hraw

/-- The text that a plain read gives is that of the part of the message that a
reference gets to. -/
theorem readMessage_current (hname : Names field v)
    (hcreate : hekaCreateReadMessageZc field fi ai = Except.ok zc)
    (hread : hekaReadMessage mem m field fi ai =
      Except.ok (text.map TableValue.string)) :
    text = (v.current mem m fi ai).map (fun s => v.text mem s) ∧
      readMessage mem m zc =
        Except.ok ((v.current mem m fi ai).getD ConstString.init) := by
  unfold Variable.current
  rcases activeMessage_cases m with ⟨n, rfl, hraw, hactive⟩ | ⟨hm, hactive⟩
  · rw [hactive]
    exact ⟨hekaReadMessage_names hname hraw hread,
      readMessage_names hname hraw hcreate hread⟩
  · rw [hactive]
    refine ⟨?_, readMessage_inactive hm⟩
    rw [hekaReadMessage_inactive hm] at hread
    exact (@string_map_injective none text (Except.ok.inj hread)).symm

theorem isFramed_iff (hname : Names field v) (hzc : zc.field = field) :
    isFramed zc = true <-> v = Variable.framed := by
  unfold isFramed
  rw [hzc, decide_eq_true_iff]
  cases hname with
  | framed h => exact iff_of_true h rfl
  | field h =>
      cases fieldName_eq h
      refine iff_of_false (cString_fieldReference_ne _ (by decide)) ?_
      exact fun h => Variable.noConfusion h
  | _ h =>
      refine iff_of_false ?_ (fun h => Variable.noConfusion h)
      rw [h]
      decide

theorem Variable.text_eq (hname : Names field v) (hzc : zc.field = field)
    (s : ConstString) :
    v.text mem s = (if isFramed zc then lsbWriteHekaHeader s.len else []) ++
      s.bytes mem := by
  by_cases hframed : isFramed zc = true
  · rw [if_pos hframed, (isFramed_iff hname hzc).mp hframed]
    rfl
  · rw [if_neg hframed]
    have hv := mt (isFramed_iff hname hzc).mpr hframed
    cases v with
    | framed => exact absurd rfl hv
    | _ => rfl

/-- A part of the active message is written whole. -/
theorem emits_outputSlice (s : ConstString) : exists c : Piece,
    Emits (outputSlice mem zc s) c ∧
      c.bytes = (if isFramed zc then lsbWriteHekaHeader s.len else []) ++
        s.bytes mem ∧
      c.need = c.bytes.length + 1 := by
  unfold outputSlice
  by_cases hframed : isFramed zc = true
  · rw [if_pos hframed, if_pos hframed]
    refine ⟨_, (emits_outputs _).seq (emits_outputs _), rfl, ?_⟩
    rw [Piece.need_append, Piece.bytes_append, List.length_append]
    dsimp only
    omega
  · rw [if_neg hframed, if_neg hframed]
    exact ⟨_, emits_outputs _, rfl, rfl⟩

theorem zcOutput_some {s : ConstString}
    (hread : readMessage mem m zc = Except.ok s) (hs : s.s ≠ none)
    (ob : WriteState) : exists status t,
      zcOutput mem m zc (some ob) = Except.ok (status, some t) ∧
        (status = 0 -> t.ob.contents = ob.ob.contents ++
          ((if isFramed zc then lsbWriteHekaHeader s.len else []) ++
            s.bytes mem)) ∧
        (status ≠ 0 -> ob.MemoryAvailable -> ob.ob.capacity < ob.ob.pos +
          ((if isFramed zc then lsbWriteHekaHeader s.len else []) ++
            s.bytes mem).length + 1) := by
  rcases @emits_outputSlice mem zc s with ⟨c, hemits, hbytes, hneed⟩
  unfold zcOutput
  rw [hread]
  dsimp only
  rw [if_neg hs]
  cases hrun : (outputSlice mem zc s).run ob with
  | mk r t =>
      cases r with
      | ok =>
          refine ⟨0, t, rfl, fun _ => ?_, fun h => absurd rfl h⟩
          rw [(hemits.ok hrun).1.contents, hbytes]
      | error e =>
          refine ⟨1, t, rfl, fun h => absurd h (by decide), ?_⟩
          intro _ hmemory
          have hfull := hemits.error hrun hmemory
          unfold Fits at hfull
          rw [hneed, hbytes] at hfull
          omega

theorem toNat_toInt_iff (n : Nat) :
    (toInt n).toNat = n <-> (n : Int) <= intMax := by
  unfold toInt intMax
  split <;> omega

theorem concatSegments_slice (framed : Bool) (header : List UInt8) (p : Nat)
    (len : Int) :
    concatSegments mem ((if framed then [Segment.string header] else []) ++
        [Segment.slice (some p) len]) =
      some ((if framed then header else []) ++ mem.bytes p len.toNat) := by
  have hnil := List.append_nil (mem.bytes p len.toNat)
  cases framed with
  | false =>
      change some (mem.bytes p len.toNat ++ []) = some ([] ++ _)
      rw [hnil, List.nil_append]
  | true =>
      change some (header ++ (mem.bytes p len.toNat ++ [])) = some (header ++ _)
      rw [hnil]

/-- The number of bytes is handed out as an `int`. -/
theorem concatSegments_iff (framed : Bool) (header : List UInt8) (p len : Nat) :
    concatSegments mem ((if framed then [Segment.string header] else []) ++
        [Segment.slice (some p) (toInt len)]) =
      some ((if framed then header else []) ++ mem.bytes p len) <->
        (len : Int) <= intMax := by
  rw [concatSegments_slice, Option.some.injEq, List.append_right_inj,
    ← toNat_toInt_iff]
  constructor
  · intro h
    have hlength := congrArg List.length h
    rw [Memory.length_bytes, Memory.length_bytes] at hlength
    exact hlength
  · intro h
    rw [h]

/-- The bytes that a reference to a part of the message gives. -/
theorem gives_part {s : ConstString} {p : Nat} (hp : s.s = some p)
    (hread : readMessage mem m zc = Except.ok s) :
    Gives mem m zc (some ((if isFramed zc then lsbWriteHekaHeader s.len
        else []) ++ s.bytes mem)) <->
      (s.len : Int) <= intMax := by
  have hbytes : s.bytes mem = mem.bytes p s.len := by
    unfold ConstString.bytes
    rw [hp]
  have hs : s.s ≠ none := by
    rw [hp]
    exact Option.some_ne_none p
  have hreturn : zcReturn mem m zc = Except.ok
      ((if isFramed zc then [Segment.string (lsbWriteHekaHeader s.len)]
        else []) ++ [Segment.slice (some p) (toInt s.len)]) := by
    unfold zcReturn
    rw [hread]
    dsimp only
    rw [hp]
  rw [← concatSegments_iff (isFramed zc) (lsbWriteHekaHeader s.len) p s.len,
    ← hbytes]
  constructor
  · intro h
    rcases h.segments with ⟨segments, hsegments, hconcat⟩
    cases hreturn.symm.trans hsegments
    exact hconcat
  · intro hconcat
    refine ⟨fun ob => ?_, ⟨_, hreturn, hconcat⟩, ?_⟩
    · rcases zcOutput_some hread hs ob with ⟨status, t, hrun, hok, hfull⟩
      refine ⟨status, t, hrun, hok, fun h => ?_, hfull⟩
      cases h
    · unfold zcTostring
      rw [hread]
      dsimp only
      rw [if_neg hs]
      by_cases hframed : isFramed zc = true
      · rw [if_pos hframed, if_pos hframed]
      · rw [if_neg hframed, if_neg hframed]
        rfl

/-- Without a part of a message there is a header of no message. -/
theorem gives_nothing (hread : readMessage mem m zc =
      Except.ok ConstString.init) :
    Gives mem m zc none <-> isFramed zc = false := by
  have hreturn : zcReturn mem m zc = Except.ok
      ((if isFramed zc then [Segment.string (lsbWriteHekaHeader 0)]
        else []) ++ [Segment.slice none (toInt 0)]) := by
    unfold zcReturn
    rw [hread]
    rfl
  constructor
  · intro h
    rcases h.segments with ⟨segments, hsegments, hconcat⟩
    cases hreturn.symm.trans hsegments
    cases hframed : isFramed zc with
    | false => rfl
    | true =>
        rw [hframed] at hconcat
        cases hconcat
  · intro hframed
    refine ⟨fun ob => ⟨0, ob, ?_, ?_, ?_, ?_⟩, ⟨_, hreturn, ?_⟩, ?_⟩
    · unfold zcOutput
      rw [hread]
      rfl
    · exact fun _ => (List.append_nil _).symm
    · exact fun _ => ⟨rfl, rfl⟩
    · exact fun h => absurd rfl h
    · rw [hframed]
      rfl
    · unfold zcTostring
      rw [hread]
      rfl

end

/-- For every variable that can be referred to, and whatever message is active
by then, the three ways to the bytes agree with a plain read that gives a string
or nil if and only if there is a message for a frame to be put around and the
number of bytes is an `int`. -/
theorem gives_iff {mem : Memory} {m : Option HekaMessage}
    {field : List UInt8} {fi ai : Int} {zc : ReadMessageZc}
    {text : Option (List UInt8)}
    (hcreate : hekaCreateReadMessageZc field fi ai = Except.ok zc)
    (hread : hekaReadMessage mem m field fi ai =
      Except.ok (text.map TableValue.string)) :
    (exists v, Names field v) ∧ forall v, Names field v ->
      (Gives mem m zc text <->
        (v = Variable.framed -> activeMessage m ≠ none) ∧
          forall s, v.current mem m fi.toNat ai.toNat = some s ->
            (s.len : Int) <= intMax) := by
  rcases names_of_create hcreate with ⟨hfi, hai, hexists, hzc, _⟩
  refine ⟨hexists, fun v hname => ?_⟩
  rcases Int.eq_ofNat_of_zero_le hfi with ⟨i, rfl⟩
  rcases Int.eq_ofNat_of_zero_le hai with ⟨j, rfl⟩
  rcases readMessage_current hname hcreate hread with ⟨htext, hpart⟩
  rw [Int.toNat_natCast, Int.toNat_natCast, htext]
  cases hcurrent : v.current mem m i j with
  | some s =>
      rw [hcurrent] at hpart
      rcases activeMessage_cases m with ⟨n, hm, hraw, hactive⟩ | ⟨_, hactive⟩
      · have hslice : v.slice mem n i j = some s := by
          unfold Variable.current at hcurrent
          rw [hactive] at hcurrent
          exact hcurrent
        rcases Option.ne_none_iff_exists'.mp (Variable.slice_pointer hslice)
          with ⟨p, hp⟩
        rw [Option.map_some, Variable.text_eq hname hzc, gives_part hp hpart]
        constructor
        · intro hlen
          refine ⟨fun _ => ?_, fun t ht => ?_⟩
          · rw [hactive]
            exact Option.some_ne_none n
          · cases ht
            exact hlen
        · rintro ⟨_, hlen⟩
          exact hlen s rfl
      · unfold Variable.current at hcurrent
        rw [hactive] at hcurrent
        cases hcurrent
  | none =>
      rw [hcurrent] at hpart
      rw [Option.map_none, gives_nothing hpart]
      constructor
      · intro hframed
        refine ⟨fun hv => ?_, fun s hs => nomatch hs⟩
        rw [(isFramed_iff hname hzc).mpr hv] at hframed
        cases hframed
      · rintro ⟨hactive, _⟩
        by_contra hframed
        rw [Bool.not_eq_false, isFramed_iff hname hzc] at hframed
        -- there is always a message in a frame
        subst hframed
        rcases activeMessage_cases m with ⟨n, hm, hraw, hn⟩ | ⟨_, hn⟩
        · unfold Variable.current at hcurrent
          rw [hn] at hcurrent
          change given n.raw = none at hcurrent
          exact hraw (Option.map_eq_none_iff.mp hcurrent)
        · exact hactive rfl hn

/-- The reference to the active message in a frame. -/
def framedZc : ReadMessageZc := ⟨ascii "raw", 0, 0, ascii "framed"⟩

/-- A message of one byte. -/
def byteMessage : HekaMessage :=
  { lsbClearHekaMessage with raw := ⟨some 0, 1⟩ }

theorem gives_byteMessage :
    Gives (Memory.ofList [0x61]) (some byteMessage) framedZc
      (some [0x1e, 0x02, 0x08, 0x01, 0x1f, 0x61]) := by
  have hiff := (@gives_iff (Memory.ofList [0x61]) (some byteMessage)
    (ascii "framed") 0 0 framedZc (some [0x1e, 0x02, 0x08, 0x01, 0x1f, 0x61])
    (by decide) (by decide)).2 _ (Names.framed (by decide))
  refine hiff.mpr ⟨fun _ => by decide, fun s hs => ?_⟩
  cases hs
  decide

/-- Without a message the segments are the header of an empty one. -/
theorem not_gives_framed :
    hekaCreateReadMessageZc (ascii "framed") 0 0 = Except.ok framedZc ∧
      hekaReadMessage (Memory.ofList []) none (ascii "framed") 0 0 =
        Except.ok none ∧
      zcReturn (Memory.ofList []) none framedZc = Except.ok
        [Segment.string [0x1e, 0x02, 0x08, 0x00, 0x1f],
          Segment.slice none 0] ∧
      ¬ Gives (Memory.ofList []) none framedZc none := by
  refine ⟨by decide, by decide, by decide +kernel, fun h => ?_⟩
  have hframed := (gives_nothing rfl).mp h
  exact absurd hframed (by decide)

end Heka
end LuaSandbox
