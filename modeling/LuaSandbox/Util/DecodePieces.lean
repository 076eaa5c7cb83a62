import LuaSandbox.Util.PieceWire

/-!
# Decoding what was written

The decoder accepts the bytes of a message and leaves slices that hold what the
message says.
-/

namespace LuaSandbox
namespace Util

open Foundation
open Memory (BytesAt bytesAt_append)

/-!
## Steps of a reader
-/

/-- A reader gets from one address to another one, not beyond `e`. -/
inductive Reaches {σ : Type} (step : σ -> Nat -> Option Nat × σ) (e : Nat) :
    σ -> Nat -> σ -> Nat -> Prop where
  | refl {s p} : Reaches step e s p s p
  | more {s s' s'' p q r} : step s p = (some q, s') -> p < q -> q <= e ->
      Reaches step e s' q s'' r -> Reaches step e s p s'' r

section

variable {σ : Type} {step : σ -> Nat -> Option Nat × σ} {e p q r : Nat}
  {s s' s'' : σ}

theorem Reaches.single (h : step s p = (some q, s')) (hlt : p < q)
    (hle : q <= e) : Reaches step e s p s' q :=
  Reaches.more h hlt hle Reaches.refl

theorem Reaches.trans (h : Reaches step e s p s' q)
    (h' : Reaches step e s' q s'' r) : Reaches step e s p s'' r := by
  induction h with
  | refl => exact h'
  | more hstep hlt hle _ ih => exact Reaches.more hstep hlt hle (ih h')

theorem Reaches.upTo (h : Reaches step e s p s' q) (hq : q = r) :
    Reaches step e s p s' r := by
  rw [← hq]
  exact h

end

section

variable {mem : Memory} {e p q : Nat}

theorem processFieldsLoop_reaches {f f' : HekaField}
    (h : Reaches (processFieldsEntry mem e) e f p f' q) (hq : q = e) :
    forall {n : Nat}, p < e -> e - p <= n ->
      processFieldsLoop mem e n f p = (some e, f') := by
  induction h with
  | refl =>
      intro n hlt _
      omega
  | more hstep hlt hle hrest ih =>
      intro n _ hn
      obtain ⟨n, rfl⟩ : exists m, n = m + 1 := ⟨n - 1, by omega⟩
      unfold processFieldsLoop
      rw [hstep]
      dsimp only
      split
      · rename_i hmore
        exact ih hq hmore (by omega)
      · rename_i hend
        cases hrest with
        | refl => rw [hq]
        | more _ hlt' hle' _ =>
            omega

/-- The state of the decoder. -/
def decodeStep (mem : Memory) (ep : Nat) (s : HekaMessage × Bool)
    (cp : Nat) : Option Nat × HekaMessage × Bool :=
  decodeRecord mem ep s.1 s.2 cp

theorem decodeLoop_reaches {s s' : HekaMessage × Bool}
    (h : Reaches (decodeStep mem e) e s p s' q) (hq : q = e) :
    forall {n : Nat}, p < e -> e - p <= n ->
      decodeLoop mem e n s.1 s.2 p = (true, s') := by
  induction h with
  | refl =>
      intro n hlt _
      omega
  | more hstep hlt hle hrest ih =>
      intro n _ hn
      obtain ⟨n, rfl⟩ : exists m, n = m + 1 := ⟨n - 1, by omega⟩
      unfold decodeStep at hstep
      unfold decodeLoop
      rw [hstep]
      dsimp only
      split
      · rename_i hmore
        exact ih hq hmore (by omega)
      · rename_i hend
        cases hrest with
        | refl => rfl
        | more _ hlt' hle' _ =>
            omega

end

/-!
## Fields
-/

/-- A slice that holds a text, or the null pointer. -/
def HoldsText (mem : Memory) (v : ConstString) : Option (List UInt8) -> Prop
  | none => v = ConstString.init
  | some s => v.s ≠ none ∧ v.bytes mem = s

theorem HoldsText.length {mem : Memory} {v : ConstString} {s : List UInt8}
    (h : HoldsText mem v (some s)) : v.len = s.length := by
  rcases h with ⟨hne, hbytes⟩
  rw [← hbytes]
  rcases v with ⟨_ | p, n⟩
  · exact absurd rfl hne
  · exact (Memory.length_bytes mem p n).symm

/-- A decoded field says what was written. -/
structure HoldsField (mem : Memory) (f : HekaField) (c : FieldContent) :
    Prop where
  name : HoldsText mem f.name (some c.name)
  representation : HoldsText mem f.representation c.representation
  valueType : f.valueType = c.values.valueType
  values : exists vs, SliceHolds mem f.value vs ∧ Carries mem vs c.values

section

variable {mem : Memory} {e p : Nat}

theorem readString_of_bytesAt {tag : Nat} {s : List UInt8} (htag : tag < 32)
    (hlength : (Piece.string tag s).bytes.length < 2 ^ 63)
    (h : BytesAt mem p (Piece.string tag s).bytes)
    (hle : p + (Piece.string tag s).bytes.length <= e) :
    lsbPbReadKey mem p = (p + 1, tag, lsbPbWtLength) ∧
      p < p + (Piece.string tag s).bytes.length ∧
      exists v, HoldsText mem v (some s) ∧
        readString mem lsbPbWtLength (p + 1) e =
          some (p + (Piece.string tag s).bytes.length, v) := by
  have hsize : (Piece.string tag s).bytes.length =
      1 + ((lsbPbOutputVarint s.length).length + s.length) := by
    change (_ :: (lsbPbOutputVarint s.length ++ s)).length = _
    rw [List.length_cons, List.length_append, Nat.add_comm]
  rcases string_of_bytesAt htag (by omega) h with
    ⟨hkey, r, hlen, hbytes, hend⟩
  refine ⟨hkey, by omega, ⟨some r, s.length⟩, ⟨nofun, hbytes⟩, ?_⟩
  rw [← hend] at hle ⊢
  exact hlen.readString hle

theorem entry_name {f : HekaField} {s : List UInt8}
    (hlength : (Piece.string lsbPbName s).bytes.length < 2 ^ 63)
    (h : BytesAt mem p (Piece.string lsbPbName s).bytes)
    (hle : p + (Piece.string lsbPbName s).bytes.length <= e) :
    exists v, HoldsText mem v (some s) ∧
      Reaches (processFieldsEntry mem e) e f p { f with name := v }
        (p + (Piece.string lsbPbName s).bytes.length) := by
  rcases readString_of_bytesAt (by decide) hlength h hle with
    ⟨hkey, hlt, v, hv, hread⟩
  refine ⟨v, hv, Reaches.single ?_ hlt hle⟩
  unfold processFieldsEntry
  rw [hkey]
  dsimp only
  rw [if_pos rfl, hread]

theorem entry_representation {f : HekaField} {s : Option (List UInt8)}
    (hnone : f.representation = ConstString.init)
    (hlength :
      (optionalString lsbPbRepresentation s).bytes.length < 2 ^ 63)
    (h : BytesAt mem p (optionalString lsbPbRepresentation s).bytes)
    (hle : p + (optionalString lsbPbRepresentation s).bytes.length <= e) :
    exists v, HoldsText mem v s ∧
      Reaches (processFieldsEntry mem e) e f p { f with representation := v }
        (p + (optionalString lsbPbRepresentation s).bytes.length) := by
  cases s with
  | none =>
      refine ⟨ConstString.init, rfl, ?_⟩
      rw [← hnone]
      exact Reaches.refl
  | some s =>
      rcases readString_of_bytesAt (by decide) hlength h hle with
        ⟨hkey, hlt, v, hv, hread⟩
      refine ⟨v, hv, Reaches.single ?_ hlt hle⟩
      unfold processFieldsEntry
      rw [hkey]
      dsimp only
      rw [if_neg (by decide), if_neg (by decide), if_pos rfl, hread]
      rfl

/-- The value type of strings is not written. -/
theorem entry_valueType {f : HekaField} {n : Nat} (hn : n < 5)
    (hzero : f.valueType = lsbPbString)
    (h : BytesAt mem p
      (if n = 0 then Piece.empty else valueTypePiece n).bytes)
    (hle : p +
      (if n = 0 then Piece.empty else valueTypePiece n).bytes.length <= e) :
    Reaches (processFieldsEntry mem e) e f p { f with valueType := (n : Int) }
      (p + (if n = 0 then Piece.empty else valueTypePiece n).bytes.length) := by
  split at h
  · rename_i hn
    subst hn
    have hsame : { f with valueType := ((0 : Nat) : Int) } = f := by
      rcases f with ⟨_, _, _, valueType⟩
      cases hzero
      rfl
    rw [hsame]
    exact Reaches.refl
  · rename_i hne
    rw [if_neg hne] at hle ⊢
    change BytesAt mem p (lsbPbKey lsbPbValueType lsbPbWtVarint ::
      lsbPbOutputVarint n) at h
    rcases readKey_of_bytesAt (by decide) (by decide) h with ⟨hkey, hrest⟩
    have hvarint := holdsVarint_of_bytesAt (by omega) hrest
    have hend : p + (valueTypePiece n).bytes.length =
        p + 1 + (lsbPbOutputVarint n).length := by
      change p + (_ :: lsbPbOutputVarint n).length = _
      rw [List.length_cons]
      omega
    rw [hend] at hle ⊢
    have hread : processVarint mem lsbPbWtVarint (p + 1) e =
        some (p + 1 + (lsbPbOutputVarint n).length, toLongLong n) := by
      unfold processVarint
      rw [if_neg (not_not_intro rfl), hvarint.read hle]
    have hint : toInt (toLongLong n) = (n : Int) := by
      have hsmall : forall k : Fin 5, toInt (toLongLong k) = (k : Int) := by
        decide
      exact hsmall ⟨n, hn⟩
    refine Reaches.single ?_ (by omega) hle
    unfold processFieldsEntry
    rw [hkey]
    dsimp only
    rw [if_neg (by decide), if_pos rfl, hread]
    dsimp only
    rw [hint]

theorem entry_values {f : HekaField} {values : FieldValues}
    (hne : values.Nonempty) (hlength : values.piece.bytes.length < 2 ^ 63)
    (h : BytesAt mem p values.piece.bytes)
    (hend : p + values.piece.bytes.length = e) :
    exists v vs, SliceHolds mem v vs ∧ Carries mem vs values ∧
      Reaches (processFieldsEntry mem e) e f p { f with value := v } e := by
  rcases holdsValues_of_bytesAt hne hlength h with ⟨vs, hvs, hcarries⟩
  rw [hend] at hvs
  rcases processFieldsEntry_values f hvs with ⟨v, hslice, hentry⟩
  exact ⟨v, vs, hslice, hcarries,
    Reaches.single hentry (HoldsValues.lt hvs) (Nat.le_refl e)⟩

/-- What stands in a field record. -/
def FieldContent.contents (c : FieldContent) : Piece :=
  Piece.string lsbPbName c.name ++
    valuesHead c.values.valueType c.representation ++ c.values.piece

theorem valueType_lt (values : FieldValues) : values.valueType < 5 := by
  unfold FieldValues.valueType
  split
  · split <;> decide
  · decide
  · decide
  · decide
  · decide

/-- The entries of a field record, up to its end. -/
theorem entries_of_bytesAt {c : FieldContent} (hne : c.values.Nonempty)
    (hlength : c.contents.bytes.length < 2 ^ 63)
    (h : BytesAt mem p c.contents.bytes)
    (hend : p + c.contents.bytes.length = e) :
    exists f, HoldsField mem f c ∧
      Reaches (processFieldsEntry mem e) e HekaField.init p f e := by
  unfold FieldContent.contents valuesHead at h hlength hend
  simp only [Piece.bytes_append, List.append_assoc, List.length_append,
    bytesAt_append] at h hlength hend
  rcases h with ⟨hname, htype, hrepresentation, hvalues⟩
  rcases entry_name (f := HekaField.init) (e := e) (by omega) hname (by omega)
    with ⟨name, hholds, hreach⟩
  have hreach' := entry_valueType (f := { HekaField.init with name := name })
    (e := e) (valueType_lt c.values) rfl htype (by omega)
  rcases entry_representation (f := { HekaField.init with
      name := name
      valueType := c.values.valueType }) (e := e) rfl (by omega)
    hrepresentation (by omega) with ⟨representation, hholds', hreach''⟩
  rcases entry_values (f := { HekaField.init with
      name := name
      valueType := c.values.valueType
      representation := representation }) (e := e) hne (by omega) hvalues
    (by omega) with ⟨v, vs, hslice, hcarries, hlast⟩
  exact ⟨_, ⟨hholds, hholds', rfl, vs, hslice, hcarries⟩,
    hreach.trans (hreach'.trans (hreach''.trans hlast))⟩

theorem processFields_of_bytesAt {c : FieldContent}
    (hne : c.values.Nonempty)
    (hlength : (Piece.prefixed c.contents).bytes.length < 2 ^ 63)
    (h : BytesAt mem p (Piece.prefixed c.contents).bytes)
    (hle : p + (Piece.prefixed c.contents).bytes.length <= e) :
    exists f, HoldsField mem f c ∧ processFields mem p e =
      (some (p + (Piece.prefixed c.contents).bytes.length), f) := by
  have hshort : c.contents.bytes.length <=
      (Piece.prefixed c.contents).bytes.length := by
    change _ <= (_ ++ c.contents.bytes).length
    rw [List.length_append]
    omega
  rcases prefixed_of_bytesAt (by omega) h with ⟨r, hlen, hcontents, hend⟩
  rcases entries_of_bytesAt hne (by omega) hcontents rfl with
    ⟨f, hholds, hreach⟩
  have hlt : r < r + c.contents.bytes.length := by
    have hsize : 0 < c.contents.bytes.length := Nat.succ_pos _
    omega
  refine ⟨f, hholds, ?_⟩
  have hloop := processFieldsLoop_reaches hreach rfl
    (n := c.contents.bytes.length + 1) hlt (by omega)
  have hfits : ¬ (toLongLong c.contents.bytes.length < 0 ∨
      e < r + c.contents.bytes.length) := by
    rintro (hneg | hlong)
    · exact hlen.not_neg hneg
    · omega
  unfold processFields
  rw [hlen.1.read (by omega)]
  dsimp only
  rw [if_neg hfits, hloop]
  dsimp only
  rw [if_neg hholds.name.1, hend]

end

/-!
## Records
-/

/-- The headers that are strings. -/
inductive StringHeader where
  | type
  | logger
  | payload
  | envVersion
  | hostname

namespace StringHeader

def tag : StringHeader -> Nat
  | type => lsbPbType
  | logger => lsbPbLogger
  | payload => lsbPbPayload
  | envVersion => lsbPbEnvVersion
  | hostname => lsbPbHostname

def set (m : HekaMessage) (v : ConstString) : StringHeader -> HekaMessage
  | type => { m with type := v }
  | logger => { m with logger := v }
  | payload => { m with payload := v }
  | envVersion => { m with envVersion := v }
  | hostname => { m with hostname := v }

theorem tag_lt (header : StringHeader) : header.tag < 32 := by
  cases header <;> decide

end StringHeader

/-- The headers that are integers. -/
inductive IntHeader where
  | severity
  | pid

namespace IntHeader

def tag : IntHeader -> Nat
  | severity => lsbPbSeverity
  | pid => lsbPbPid

def set (m : HekaMessage) (i : Int) : IntHeader -> HekaMessage
  | severity => { m with severity := i }
  | pid => { m with pid := i }

end IntHeader

section

variable {mem : Memory} {e p : Nat} {m : HekaMessage} {t : Bool}

theorem decodeRecord_string {q : Nat} {v : ConstString}
    (header : StringHeader)
    (hkey : lsbPbReadKey mem p = (p + 1, header.tag, lsbPbWtLength))
    (hread : readString mem lsbPbWtLength (p + 1) e = some (q, v)) :
    decodeRecord mem e m t p = (some q, header.set m v, t) := by
  unfold decodeRecord
  rw [hkey]
  dsimp only
  rw [hread]
  cases header <;> rfl

/-- A header that is not there leaves the message as it is. -/
theorem record_string {s : Option (List UInt8)} (tag : Nat)
    (header : StringHeader) (htag : header.tag = tag)
    (hnone : header.set m ConstString.init = m)
    (hlength : (optionalString tag s).bytes.length < 2 ^ 63)
    (h : BytesAt mem p (optionalString tag s).bytes)
    (hle : p + (optionalString tag s).bytes.length <= e) :
    exists v, HoldsText mem v s ∧
      Reaches (decodeStep mem e) e (m, t) p (header.set m v, t)
        (p + (optionalString tag s).bytes.length) := by
  subst htag
  cases s with
  | none =>
      refine ⟨ConstString.init, rfl, ?_⟩
      rw [hnone]
      exact Reaches.refl
  | some s =>
      rcases readString_of_bytesAt header.tag_lt hlength h hle with
        ⟨hkey, hlt, v, hv, hread⟩
      exact ⟨v, hv,
        Reaches.single (decodeRecord_string header hkey hread) hlt hle⟩

/-- The number that is read back. -/
theorem readVarint_of_bytesAt {tag : Nat} {i : Int} (htag : tag < 32)
    (h : BytesAt mem p (intPiece tag i).bytes)
    (hle : p + (intPiece tag i).bytes.length <= e) :
    lsbPbReadKey mem p = (p + 1, tag, lsbPbWtVarint) ∧
      p < p + (intPiece tag i).bytes.length ∧
      processVarint mem lsbPbWtVarint (p + 1) e =
        some (p + (intPiece tag i).bytes.length,
          toLongLong (ofLongLong i)) := by
  rcases int_of_bytesAt htag h with ⟨hkey, hvarint⟩
  have hlt := hvarint.lt
  refine ⟨hkey, by omega, ?_⟩
  unfold processVarint
  rw [if_neg (not_not_intro rfl), hvarint.read hle]

theorem decodeRecord_int {q : Nat} {val : Int} (header : IntHeader)
    (hkey : lsbPbReadKey mem p = (p + 1, header.tag, lsbPbWtVarint))
    (hread : processVarint mem lsbPbWtVarint (p + 1) e = some (q, val)) :
    decodeRecord mem e m t p = (some q, header.set m (toInt val), t) := by
  unfold decodeRecord
  rw [hkey]
  dsimp only
  rw [hread]
  cases header <;> rfl

/-- What an integer header is read as; `i` is the value of a header that is not
there. -/
def readInt (i : Int) : Option Int -> Int
  | none => i
  | some j => toInt (toLongLong (ofLongLong j))

theorem record_int {i : Option Int} (tag : Nat) (j : Int)
    (header : IntHeader) (htag : header.tag = tag)
    (hnone : header.set m j = m)
    (h : BytesAt mem p (optionalInt tag i).bytes)
    (hle : p + (optionalInt tag i).bytes.length <= e) :
    Reaches (decodeStep mem e) e (m, t) p (header.set m (readInt j i), t)
      (p + (optionalInt tag i).bytes.length) := by
  subst htag
  cases i with
  | none =>
      change Reaches _ _ _ _ (header.set m j, t) _
      rw [hnone]
      exact Reaches.refl
  | some i =>
      have htag : header.tag < 32 := by
        cases header <;> decide
      rcases readVarint_of_bytesAt htag h hle with ⟨hkey, hlt, hread⟩
      exact Reaches.single (decodeRecord_int header hkey hread) hlt hle

theorem record_timestamp {i : Int}
    (h : BytesAt mem p (intPiece lsbPbTimestamp i).bytes)
    (hle : p + (intPiece lsbPbTimestamp i).bytes.length <= e) :
    Reaches (decodeStep mem e) e (m, t) p
      ({ m with timestamp := toLongLong (ofLongLong i) }, true)
      (p + (intPiece lsbPbTimestamp i).bytes.length) := by
  rcases readVarint_of_bytesAt (by decide) h hle with ⟨hkey, hlt, hread⟩
  refine Reaches.single ?_ hlt hle
  unfold decodeStep decodeRecord
  rw [hkey]
  dsimp only
  rw [hread]
  rfl

theorem record_uuid {uuid : List UInt8} (hsize : uuid.length = lsbUuidSize)
    (h : BytesAt mem p (MessageContent.uuidPiece uuid).bytes)
    (hle : p + (MessageContent.uuidPiece uuid).bytes.length <= e) :
    exists v, HoldsText mem v (some uuid) ∧
      Reaches (decodeStep mem e) e (m, t) p ({ m with uuid := v }, t)
        (p + (MessageContent.uuidPiece uuid).bytes.length) := by
  have hpiece : (MessageContent.uuidPiece uuid).bytes =
      (Piece.string lsbPbUuid uuid).bytes := by
    change _ = lsbPbKey lsbPbUuid lsbPbWtLength ::
      (lsbPbOutputVarint uuid.length ++ uuid)
    rw [hsize]
    rfl
  rw [hpiece] at h hle ⊢
  have hlength : (Piece.string lsbPbUuid uuid).bytes.length < 2 ^ 63 := by
    rw [← hpiece]
    change (_ :: _ :: uuid).length < _
    rw [List.length_cons, List.length_cons, hsize]
    decide
  rcases readString_of_bytesAt (by decide) hlength h hle with
    ⟨hkey, hlt, v, hv, hread⟩
  refine ⟨v, hv, Reaches.single ?_ hlt hle⟩
  have hlen : v.len = lsbUuidSize := hv.length.trans hsize
  unfold decodeStep decodeRecord
  rw [hkey]
  dsimp only
  rw [hread]
  dsimp only
  rw [if_pos rfl, if_neg (not_not_intro hlen)]

theorem record_field {c : FieldContent} (hne : c.values.Nonempty)
    (hlength : c.piece.bytes.length < 2 ^ 63)
    (h : BytesAt mem p c.piece.bytes)
    (hle : p + c.piece.bytes.length <= e) :
    exists f, HoldsField mem f c ∧
      Reaches (decodeStep mem e) e (m, t) p
        ({ m with fields := m.fields ++ [f] }, t)
        (p + c.piece.bytes.length) := by
  have hsize : c.piece.bytes.length =
      1 + (Piece.prefixed c.contents).bytes.length := by
    change (_ :: (Piece.prefixed c.contents).bytes).length = _
    rw [List.length_cons, Nat.add_comm]
  change BytesAt mem p (lsbPbKey lsbPbFields lsbPbWtLength ::
    (Piece.prefixed c.contents).bytes) at h
  rcases readKey_of_bytesAt (by decide) (by decide) h with ⟨hkey, hrest⟩
  rcases processFields_of_bytesAt (e := e) hne (by omega) hrest (by omega)
    with ⟨f, hholds, hfields⟩
  refine ⟨f, hholds, Reaches.single ?_ (by omega) hle⟩
  rw [hsize, ← Nat.add_assoc]
  unfold decodeStep decodeRecord
  rw [hkey]
  dsimp only
  rw [hfields]
  rfl

/-- The fields are appended in their order. -/
theorem record_fields {cs : List FieldContent} :
    forall {m : HekaMessage} {p : Nat},
      (forall c, c ∈ cs -> c.values.Nonempty) ->
      (Piece.concat (cs.map FieldContent.piece)).bytes.length < 2 ^ 63 ->
      BytesAt mem p (Piece.concat (cs.map FieldContent.piece)).bytes ->
      p + (Piece.concat (cs.map FieldContent.piece)).bytes.length <= e ->
      exists fs, List.Forall₂ (HoldsField mem) fs cs ∧
        Reaches (decodeStep mem e) e (m, t) p
          ({ m with fields := m.fields ++ fs }, t)
          (p + (Piece.concat (cs.map FieldContent.piece)).bytes.length) := by
  induction cs with
  | nil =>
      intro m p _ _ _ _
      refine ⟨[], List.Forall₂.nil, ?_⟩
      rw [List.append_nil]
      exact Reaches.refl
  | cons c cs ih =>
      intro m p hne hlength h hle
      rw [List.map_cons, Piece.concat_cons, Piece.bytes_append] at h hlength hle ⊢
      rw [List.length_append] at hlength hle ⊢
      rw [bytesAt_append] at h
      rcases record_field (m := m) (t := t) (e := e)
        (hne c List.mem_cons_self) (by omega) h.1 (by omega) with
        ⟨f, hf, hreach⟩
      rcases ih (m := { m with fields := m.fields ++ [f] })
        (fun c' hc => hne c' (List.mem_cons_of_mem c hc)) (by omega) h.2
        (by omega) with ⟨fs, hfs, hrest⟩
      refine ⟨f :: fs, List.Forall₂.cons hf hfs, ?_⟩
      have hfields : m.fields ++ [f] ++ fs = m.fields ++ (f :: fs) := by
        rw [List.append_assoc]
        rfl
      rw [← hfields, ← Nat.add_assoc]
      exact hreach.trans hrest

end

/-!
## Messages
-/

/-- A decoded message says what was written. -/
structure HoldsMessage (mem : Memory) (hm : HekaMessage)
    (m : MessageContent) : Prop where
  uuid : HoldsText mem hm.uuid (some m.uuid)
  timestamp : hm.timestamp = toLongLong (ofLongLong m.timestamp)
  type : HoldsText mem hm.type m.type
  logger : HoldsText mem hm.logger m.logger
  severity : hm.severity = readInt 7 m.severity
  payload : HoldsText mem hm.payload m.payload
  envVersion : HoldsText mem hm.envVersion m.envVersion
  pid : hm.pid = readInt intMin m.pid
  hostname : HoldsText mem hm.hostname m.hostname
  fields : List.Forall₂ (HoldsField mem) hm.fields m.fields

section

variable {mem : Memory} {e p : Nat} {m : MessageContent}

/-- The records of a message, up to its end. -/
theorem records_of_bytesAt
    (hfields : forall c, c ∈ m.fields -> c.values.Nonempty)
    (hlength : m.piece.bytes.length < 2 ^ 63)
    (h : BytesAt mem p m.piece.bytes)
    (hend : p + m.piece.bytes.length = e) :
    exists hm, HoldsMessage mem hm m ∧ Reaches (decodeStep mem e) e
      (lsbClearHekaMessage, false) p (hm, true) e := by
  have hroom : (Piece.room 1).bytes = [] := rfl
  unfold MessageContent.piece MessageContent.records at h hlength hend
  simp only [Piece.bytes_append, List.append_assoc, hroom, List.append_nil,
    List.length_append, bytesAt_append] at h hlength hend
  rcases h with ⟨huuid, htimestamp, htype, hlogger, hseverity, hpayload,
    henvVersion, hpid, hhostname, hrecords⟩
  -- every header finds the value of a cleared message
  let m0 := lsbClearHekaMessage
  rcases record_uuid (m := m0) (t := false) (e := e) m.uuid_length huuid
    (by omega) with ⟨uuid, hu, r0⟩
  let m1 := { m0 with uuid := uuid }
  have r1 := record_timestamp (m := m1) (t := false) (e := e) htimestamp
    (by omega)
  let m2 := { m1 with timestamp := toLongLong (ofLongLong m.timestamp) }
  rcases record_string (m := m2) (t := true) (e := e) lsbPbType
    StringHeader.type rfl rfl (by omega) htype (by omega) with ⟨type, ht, r2⟩
  let m3 := { m2 with type := type }
  rcases record_string (m := m3) (t := true) (e := e) lsbPbLogger
    StringHeader.logger rfl rfl (by omega) hlogger (by omega) with
    ⟨logger, hl, r3⟩
  let m4 := { m3 with logger := logger }
  have r4 := record_int (m := m4) (t := true) (e := e) lsbPbSeverity 7
    IntHeader.severity rfl rfl hseverity (by omega)
  let m5 := { m4 with severity := readInt 7 m.severity }
  rcases record_string (m := m5) (t := true) (e := e) lsbPbPayload
    StringHeader.payload rfl rfl (by omega) hpayload (by omega) with
    ⟨payload, hp, r5⟩
  let m6 := { m5 with payload := payload }
  rcases record_string (m := m6) (t := true) (e := e) lsbPbEnvVersion
    StringHeader.envVersion rfl rfl (by omega) henvVersion (by omega) with
    ⟨envVersion, hv, r6⟩
  let m7 := { m6 with envVersion := envVersion }
  have r7 := record_int (m := m7) (t := true) (e := e) lsbPbPid intMin
    IntHeader.pid rfl rfl hpid (by omega)
  let m8 := { m7 with pid := readInt intMin m.pid }
  rcases record_string (m := m8) (t := true) (e := e) lsbPbHostname
    StringHeader.hostname rfl rfl (by omega) hhostname (by omega) with
    ⟨hostname, hh, r8⟩
  let m9 := { m8 with hostname := hostname }
  rcases record_fields (m := m9) (t := true) (e := e) hfields (by omega)
    hrecords (by omega) with ⟨fields, hf, r9⟩
  have hreach := r0.trans (r1.trans (r2.trans (r3.trans (r4.trans (r5.trans
    (r6.trans (r7.trans (r8.trans r9))))))))
  exact ⟨{ m9 with fields := fields },
    ⟨hu, rfl, ht, hl, rfl, hp, hv, rfl, hh, hf⟩, hreach.upTo (by omega)⟩

/-- The decoder accepts what was written and reads what was written. -/
theorem lsbDecodeHekaMessage_of_bytesAt {buf : Nat}
    (hfields : forall c, c ∈ m.fields -> c.values.Nonempty)
    (hlength : m.piece.bytes.length < 2 ^ 63)
    (h : BytesAt mem buf m.piece.bytes) :
    exists hm, HoldsMessage mem hm m ∧
      lsbDecodeHekaMessage mem buf m.piece.bytes.length = (true, hm) := by
  have hpos : 0 < m.piece.bytes.length := Nat.succ_pos _
  rcases records_of_bytesAt hfields hlength h rfl with ⟨hm, hholds, hreach⟩
  have hloop := decodeLoop_reaches hreach rfl (n := m.piece.bytes.length)
    (by omega) (by omega)
  refine ⟨{ hm with raw := ⟨some buf, m.piece.bytes.length⟩ }, ?_, ?_⟩
  · exact ⟨hholds.uuid, hholds.timestamp, hholds.type, hholds.logger,
      hholds.severity, hholds.payload, hholds.envVersion, hholds.pid,
      hholds.hostname, hholds.fields⟩
  · unfold lsbDecodeHekaMessage
    rw [if_neg (by omega), hloop]
    dsimp only
    rw [if_neg hholds.uuid.1, if_neg (by decide)]

end

end Util
end LuaSandbox
