import LuaSandbox.Util.ReadSets

/-!
# The bounds of decoding

Decoding stays inside its input and comes to an end.  The exception is a field
record of length zero, whose first key is read behind the record.
-/

namespace LuaSandbox
namespace Util

open Foundation

/-!
## Reads of one value
-/

section

variable {mem : Memory} {e p : Nat}

theorem readVarintLoopReads_bounds {n : Nat} :
    forall {p : Nat}, p <= e ->
      forall a, a ∈ readVarintLoopReads mem e n p -> p <= a ∧ a < e := by
  induction n with
  | zero =>
      intro p _ a ha
      cases ha
  | succ n ih =>
      intro p hle a ha
      unfold readVarintLoopReads at ha
      split at ha
      · cases ha
      split at ha
      · cases List.mem_singleton.mp ha
        omega
      · rcases List.mem_cons.mp ha with rfl | hrest
        · omega
        · have hbounds := ih (by omega) a hrest
          omega

theorem readVarintReads_bounds (hle : p <= e) {a : Nat}
    (ha : a ∈ readVarintReads mem p e) : p <= a ∧ a < e :=
  readVarintLoopReads_bounds hle a ha

theorem readStringReads_bounds {wiretype : Nat} (hle : p <= e) {a : Nat}
    (ha : a ∈ readStringReads mem wiretype p e) : p <= a ∧ a < e := by
  unfold readStringReads at ha
  split at ha
  · cases ha
  · exact readVarintReads_bounds hle ha

theorem processVarintReads_bounds {wiretype : Nat} (hle : p <= e) {a : Nat}
    (ha : a ∈ processVarintReads mem wiretype p e) : p <= a ∧ a < e := by
  unfold processVarintReads at ha
  split at ha
  · cases ha
  · exact readVarintReads_bounds hle ha

theorem readString_position {wiretype q : Nat} {s : ConstString}
    (h : readString mem wiretype p e = some (q, s)) : p < q := by
  unfold readString at h
  split at h
  · cases h
  split at h
  · cases h
  rename_i p' vi hvarint
  have hlt := readVarintLoop_lt hvarint
  split at h
  · cases h
  · cases h
    omega

/-!
## Field records
-/

theorem processFieldsEntryReads_bounds (hlt : p < e) {a : Nat}
    (ha : a ∈ processFieldsEntryReads mem e p) : p <= a ∧ a < e := by
  unfold processFieldsEntryReads lsbPbReadKey at ha
  dsimp only at ha
  rcases List.mem_cons.mp ha with rfl | hrest
  · exact ⟨Nat.le_refl _, hlt⟩
  have hnext : p + 1 <= a ∧ a < e := by
    split at hrest
    · exact readStringReads_bounds hlt hrest
    split at hrest
    · exact processVarintReads_bounds hlt hrest
    split at hrest
    · exact readVarintReads_bounds hlt hrest
    · cases hrest
  omega

theorem lsbPbReadKey_next {q tag wiretype : Nat}
    (h : lsbPbReadKey mem p = (q, tag, wiretype)) : q = p + 1 :=
  (congrArg Prod.fst h).symm

theorem packedLength_position {q : Nat}
    (h : packedLength mem p e = some q) : p < q ∧ q <= e := by
  unfold packedLength at h
  split at h
  · cases h
  rename_i hvarint
  have hlt := readVarintLoop_lt hvarint
  split at h
  · cases h
  · cases h
    omega

/-- An entry takes at least one byte or ends the record. -/
theorem processFieldsEntry_position {f : HekaField} {r : Nat} :
    (processFieldsEntry mem e f p).1 = some r -> p < r ∨ r = e := by
  fun_cases processFieldsEntry mem e f p with
  | case2 q wiretype q' s hread hkey =>
      rintro ⟨⟩
      have hnext := lsbPbReadKey_next hkey
      have hlt := readString_position hread
      exact Or.inl (by omega)
  | case4 q wiretype q' vi hread hkey =>
      rintro ⟨⟩
      have hnext := lsbPbReadKey_next hkey
      have hlt := processVarint_lt hread
      exact Or.inl (by omega)
  | case6 q wiretype q' s hread hkey =>
      rintro ⟨⟩
      have hnext := lsbPbReadKey_next hkey
      have hlt := readString_position hread
      exact Or.inl (by omega)
  | case8 =>
      rintro ⟨⟩
      exact Or.inr rfl
  | case12 =>
      rintro ⟨⟩
      exact Or.inr rfl
  | case13 =>
      rintro ⟨⟩
      exact Or.inr rfl
  | case1 | case3 | case5 | case7 | case9 | case10 | case11 | case14 => nofun

theorem processFieldsLoop_position {n : Nat} :
    forall {p r : Nat} {f : HekaField}, p <= e ->
      (processFieldsLoop mem e n f p).1 = some r -> p <= r := by
  induction n with
  | zero =>
      intro p r f _ h
      cases h
  | succ n ih =>
      intro p r f hle h
      have hentry := @processFieldsEntry_position mem e p f
      unfold processFieldsLoop at h
      generalize processFieldsEntry mem e f p = x at h hentry
      rcases x with ⟨_ | q, f'⟩
      · cases h
      · have hq := hentry rfl
        dsimp only at h
        split at h
        · rename_i hlt
          exact Nat.le_trans (by omega) (ih (Nat.le_of_lt hlt) h)
        · cases h
          omega

theorem processFieldsLoopReads_bounds {n : Nat} :
    forall {p : Nat} {f : HekaField}, p < e ->
      forall a, a ∈ processFieldsLoopReads mem e n f p ->
        p <= a ∧ a < e := by
  induction n with
  | zero =>
      intro p f _ a ha
      cases ha
  | succ n ih =>
      intro p f hlt a ha
      have hentry := @processFieldsEntry_position mem e p f
      unfold processFieldsLoopReads at ha
      rcases List.mem_append.mp ha with hfirst | hrest
      · exact processFieldsEntryReads_bounds hlt hfirst
      · generalize processFieldsEntry mem e f p = x at hrest hentry
        rcases x with ⟨_ | q, f'⟩
        · cases hrest
        · have hq := hentry rfl
          dsimp only at hrest
          split at hrest
          · rename_i hlt'
            have hbounds := ih hlt' a hrest
            omega
          · cases hrest

/-!
## Field records of length zero
-/

/-- The number of bytes of a varint that is read without an end. -/
def varintSpan (mem : Memory) : Nat -> Nat -> Nat
  | 0, _ => 0
  | n + 1, p =>
      if mem p &&& 0x80 = 0 then 1 else varintSpan mem n (p + 1) + 1

/-- A varint is read behind the key of a field entry. -/
def VarintFollows (tag wiretype : Nat) : Prop :=
  ((tag = lsbPbName ∨ tag = lsbPbRepresentation ∨ tag = lsbPbValueInteger ∨
      tag = lsbPbValueBool ∨ tag = lsbPbValueDouble) ∧
    wiretype = lsbPbWtLength) ∨
  (tag = lsbPbValueType ∧ wiretype = lsbPbWtVarint)

instance (tag wiretype : Nat) : Decidable (VarintFollows tag wiretype) :=
  inferInstanceAs (Decidable (_ ∨ _))

/-- The number of bytes that are read behind a field record of length zero. -/
def overrun (mem : Memory) (p : Nat) : Nat :=
  1 + if VarintFollows ((mem p).toNat >>> 3) ((mem p).toNat &&& 7) then
      varintSpan mem lsbMaxVarintBytes (p + 1)
    else
      0

theorem readVarintLoopReads_beyond {n : Nat} :
    forall {p : Nat}, e < p ->
      readVarintLoopReads mem e n p = List.range' p (varintSpan mem n p) := by
  induction n with
  | zero =>
      intro p _
      rfl
  | succ n ih =>
      intro p hlt
      unfold readVarintLoopReads varintSpan
      rw [if_neg (by omega)]
      split
      · rfl
      · rw [ih (by omega)]
        rfl

theorem processFieldsEntryReads_empty (mem : Memory) (p : Nat) :
    processFieldsEntryReads mem p p = List.range' p (overrun mem p) := by
  have hvarint : readVarintReads mem (p + 1) p =
      List.range' (p + 1) (varintSpan mem lsbMaxVarintBytes (p + 1)) :=
    readVarintLoopReads_beyond (Nat.lt_succ_self p)
  unfold processFieldsEntryReads overrun lsbPbReadKey
  dsimp only
  generalize (mem p).toNat >>> 3 = tag
  generalize (mem p).toNat &&& 7 = wiretype
  rw [Nat.add_comm 1, List.range'_succ]
  congr 1
  unfold readStringReads processVarintReads
  rw [hvarint]
  by_cases hfollows : VarintFollows tag wiretype
  · rw [if_pos hfollows]
    rcases hfollows with ⟨rfl | rfl | rfl | rfl | rfl, rfl⟩ | ⟨rfl, rfl⟩ <;>
      rfl
  · rw [if_neg hfollows]
    unfold VarintFollows at hfollows
    rw [not_or] at hfollows
    split
    · rename_i htag
      rw [if_pos (fun hw => hfollows.1 ⟨by tauto, hw⟩)]
      rfl
    split
    · rename_i htag
      rw [if_pos (fun hw => hfollows.2 ⟨htag, hw⟩)]
      rfl
    · rw [if_neg (fun h => hfollows.1 ⟨by tauto, h.2⟩)]
      rfl

theorem processFieldsLoopReads_empty (mem : Memory) (n p : Nat) :
    processFieldsLoopReads mem p (n + 1) HekaField.init p =
      List.range' p (overrun mem p) := by
  unfold processFieldsLoopReads
  rw [processFieldsEntryReads_empty]
  generalize hentry : processFieldsEntry mem p HekaField.init p = x
  rcases x with ⟨_ | q, f⟩
  · exact List.append_nil _
  · have hle := (processFieldsEntry_empty hentry).2 q rfl
    dsimp only
    rw [if_neg (Nat.not_lt.mpr hle)]
    exact List.append_nil _

/-- A field record of length zero in front of `p`. -/
def EmptyFieldsAt (mem : Memory) (ep cp p : Nat) : Prop :=
  lsbPbReadKey mem cp = (cp + 1, lsbPbFields, lsbPbWtLength) ∧
    lsbPbReadVarint mem (cp + 1) ep = some (p, 0)

theorem processFieldsReads_bounds {a : Nat} (hle : p <= e)
    (hne : forall q, lsbPbReadVarint mem p e ≠ some (q, 0))
    (ha : a ∈ processFieldsReads mem p e) : p <= a ∧ a < e := by
  unfold processFieldsReads at ha
  rcases List.mem_append.mp ha with hlength | hrest
  · exact readVarintReads_bounds hle hlength
  generalize hvarint : lsbPbReadVarint mem p e = r at hrest
  rcases r with _ | ⟨q, vi⟩
  · cases hrest
  dsimp only at hrest
  have hq := lsbPbReadVarint_bounds hvarint hle
  have hvi : vi ≠ 0 := by
    rintro rfl
    exact hne q hvarint
  split at hrest
  · cases hrest
  · rename_i hfit
    have hbounds := processFieldsLoopReads_bounds (by omega) a hrest
    omega

/-!
## Records
-/

theorem decodeRecordReads_bounds {ep cp a : Nat} (hlt : cp < ep)
    (hne : forall q, ¬ EmptyFieldsAt mem ep cp q)
    (ha : a ∈ decodeRecordReads mem ep cp) : cp <= a ∧ a < ep := by
  unfold decodeRecordReads at ha
  generalize hkey : lsbPbReadKey mem cp = key at ha
  rcases key with ⟨q, tag, wiretype⟩
  have hnext := lsbPbReadKey_next hkey
  subst hnext
  dsimp only at ha
  rcases List.mem_cons.mp ha with rfl | hrest
  · exact ⟨Nat.le_refl _, hlt⟩
  have hbounds : cp + 1 <= a ∧ a < ep := by
    split at hrest
    · exact readStringReads_bounds hlt hrest
    split at hrest
    · exact processVarintReads_bounds hlt hrest
    split at hrest
    · rename_i hfields
      refine processFieldsReads_bounds hlt (fun q hq => hne q ⟨?_, hq⟩) hrest
      rw [hkey, hfields.1, hfields.2]
    · cases hrest
  omega

/-- The reads of a field record of length zero. -/
theorem decodeRecordReads_empty {ep cp q : Nat} (hlt : cp < ep)
    (h : EmptyFieldsAt mem ep cp q) :
    decodeRecordReads mem ep cp = cp :: (readVarintReads mem (cp + 1) ep ++
      List.range' q (overrun mem q)) := by
  rcases h with ⟨hkey, hvarint⟩
  have hq := lsbPbReadVarint_bounds hvarint hlt
  have hfit : ¬ (toLongLong 0 < 0 ∨ ep < q + 0) := by
    rintro (hneg | hlarge)
    · exact absurd hneg (by decide)
    · omega
  have hloop : processFieldsLoopReads mem (q + 0) (0 + 1) HekaField.init q =
      List.range' q (overrun mem q) := processFieldsLoopReads_empty mem 0 q
  unfold decodeRecordReads
  rw [hkey]
  change cp :: processFieldsReads mem (cp + 1) ep = _
  unfold processFieldsReads
  rw [hvarint]
  dsimp only
  rw [if_neg hfit, hloop]

theorem decodeRecordReads_lt_iff {ep cp q : Nat} (hlt : cp < ep)
    (h : EmptyFieldsAt mem ep cp q) :
    (forall a, a ∈ decodeRecordReads mem ep cp -> a < ep) <->
      q + overrun mem q <= ep := by
  have hpos : 0 < overrun mem q := by
    unfold overrun
    omega
  rw [decodeRecordReads_empty hlt h]
  constructor
  · intro hall
    have hlast := hall (q + overrun mem q - 1) (List.mem_cons_of_mem _
      (List.mem_append_right _ (List.mem_range'_1.mpr (by omega))))
    omega
  · intro hle a ha
    rcases List.mem_cons.mp ha with rfl | hrest
    · exact hlt
    rcases List.mem_append.mp hrest with hlength | hover
    · exact (readVarintReads_bounds hlt hlength).2
    · have hrange := List.mem_range'_1.mp hover
      omega

theorem decodeRecordReads_ge {ep cp a : Nat} (hlt : cp < ep)
    (ha : a ∈ decodeRecordReads mem ep cp) : cp <= a := by
  by_cases hempty : exists q, EmptyFieldsAt mem ep cp q
  · rcases hempty with ⟨q, hq⟩
    have hbounds := lsbPbReadVarint_bounds hq.2 hlt
    rw [decodeRecordReads_empty hlt hq] at ha
    rcases List.mem_cons.mp ha with rfl | hrest
    · exact Nat.le_refl _
    rcases List.mem_append.mp hrest with hlength | hover
    · exact Nat.le_of_succ_le (readVarintReads_bounds hlt hlength).1
    · have hrange := List.mem_range'_1.mp hover
      omega
  · exact (decodeRecordReads_bounds hlt (fun q hq => hempty ⟨q, hq⟩) ha).1

theorem processFields_position {q : Nat}
    (hle : p <= e) (h : (processFields mem p e).1 = some q) : p < q := by
  unfold processFields at h
  generalize hvarint : lsbPbReadVarint mem p e = r at h
  rcases r with _ | ⟨p', vi⟩
  · cases h
  dsimp only at h
  have hp := lsbPbReadVarint_bounds hvarint hle
  split at h
  · cases h
  generalize hloop : processFieldsLoop mem (p' + vi) (vi + 1) HekaField.init
    p' = x at h
  rcases x with ⟨_ | r, f⟩
  · cases h
  · have hr := processFieldsLoop_position (Nat.le_add_right p' vi)
      (congrArg Prod.fst hloop)
    dsimp only at h
    split at h
    · cases h
    · cases h
      omega

end

/-- Where the record at `cp` ends, if it is accepted. -/
def recordEnd (mem : Memory) (ep cp : Nat) : Option Nat :=
  let (q, tag, wiretype) := lsbPbReadKey mem cp
  if tag = lsbPbUuid then
    match readString mem wiretype q ep with
    | none => none
    | some (p, s) => if s.len ≠ lsbUuidSize then none else some p
  else if tag = lsbPbType ∨ tag = lsbPbLogger ∨ tag = lsbPbPayload ∨
      tag = lsbPbEnvVersion ∨ tag = lsbPbHostname then
    (readString mem wiretype q ep).map Prod.fst
  else if tag = lsbPbTimestamp ∨ tag = lsbPbSeverity ∨ tag = lsbPbPid then
    (processVarint mem wiretype q ep).map Prod.fst
  else if tag = lsbPbFields ∧ wiretype = lsbPbWtLength then
    (processFields mem q ep).1
  else
    none

/-- The end does not depend on what was decoded before. -/
theorem decodeRecord_end (mem : Memory) (ep cp : Nat) (m : HekaMessage)
    (timestamp : Bool) :
    (decodeRecord mem ep m timestamp cp).1 = recordEnd mem ep cp := by
  unfold decodeRecord recordEnd
  generalize lsbPbReadKey mem cp = key
  rcases key with ⟨q, tag, wiretype⟩
  dsimp only
  generalize readString mem wiretype q ep = string
  generalize processVarint mem wiretype q ep = varint
  generalize processFields mem q ep = field
  by_cases hstring : tag = lsbPbType ∨ tag = lsbPbLogger ∨
      tag = lsbPbPayload ∨ tag = lsbPbEnvVersion ∨ tag = lsbPbHostname
  · rcases hstring with rfl | rfl | rfl | rfl | rfl <;> cases string <;> rfl
  by_cases hvarint : tag = lsbPbTimestamp ∨ tag = lsbPbSeverity ∨
      tag = lsbPbPid
  · rcases hvarint with rfl | rfl | rfl <;> cases varint <;> rfl
  by_cases huuid : tag = lsbPbUuid
  · subst huuid
    cases string <;> rfl
  rw [if_neg huuid, if_neg hstring, if_neg hvarint]
  simp only [not_or] at hstring hvarint
  simp only [huuid, hstring, hvarint, if_false]
  by_cases hfields : tag = lsbPbFields
  · by_cases hwiretype : wiretype = lsbPbWtLength
    · have hboth : tag = lsbPbFields ∧ wiretype = lsbPbWtLength :=
        ⟨hfields, hwiretype⟩
      rw [if_pos hfields, if_pos hboth, if_neg (not_not.mpr hwiretype)]
    · have hboth : ¬ (tag = lsbPbFields ∧ wiretype = lsbPbWtLength) :=
        fun h => hwiretype h.2
      rw [if_pos hfields, if_neg hboth, if_pos hwiretype]
  · have hboth : ¬ (tag = lsbPbFields ∧ wiretype = lsbPbWtLength) :=
      fun h => hfields h.1
    rw [if_neg hfields, if_neg hboth]

section

variable {mem : Memory} {ep cp : Nat}

/-- Every record takes at least one byte. -/
theorem recordEnd_position {r : Nat} (hlt : cp < ep)
    (h : recordEnd mem ep cp = some r) : cp < r := by
  unfold recordEnd at h
  generalize hkey : lsbPbReadKey mem cp = key at h
  rcases key with ⟨q, tag, wiretype⟩
  have hnext := lsbPbReadKey_next hkey
  subst hnext
  dsimp only at h
  split at h
  · split at h
    · cases h
    · rename_i hread
      have hp := readString_position hread
      split at h
      · cases h
      · cases h
        omega
  split at h
  · rcases Option.map_eq_some_iff.mp h with ⟨⟨p, s⟩, hread, rfl⟩
    have hp := readString_position hread
    omega
  split at h
  · rcases Option.map_eq_some_iff.mp h with ⟨⟨p, v⟩, hread, rfl⟩
    have hp := processVarint_lt hread
    omega
  split at h
  · have hp := processFields_position hlt h
    omega
  · cases h

/-- A field record of length zero is not accepted. -/
theorem recordEnd_empty {p : Nat} (h : EmptyFieldsAt mem ep cp p) :
    recordEnd mem ep cp = none := by
  unfold recordEnd
  rw [h.1]
  exact processFields_empty h.2

end

/-!
## Runs of the decoder
-/

/-- A run of the loop over the entries of a field record. -/
inductive FieldsRun (mem : Memory) (e : Nat) :
    HekaField -> Nat -> Option Nat × HekaField -> Prop where
  | failed {f f' : HekaField} {p : Nat}
      (h : processFieldsEntry mem e f p = (none, f')) :
      FieldsRun mem e f p (none, f')
  | done {f f' : HekaField} {p q : Nat}
      (h : processFieldsEntry mem e f p = (some q, f')) (hend : e <= q) :
      FieldsRun mem e f p (some q, f')
  | next {f f' : HekaField} {p q : Nat} {r : Option Nat × HekaField}
      (h : processFieldsEntry mem e f p = (some q, f')) (hlt : q < e)
      (hrest : FieldsRun mem e f' q r) : FieldsRun mem e f p r

/-- A run of the loop over the records of a message. -/
inductive DecodeRun (mem : Memory) (ep : Nat) :
    HekaMessage -> Bool -> Nat -> Bool × HekaMessage × Bool -> Prop where
  | failed {m m' : HekaMessage} {t t' : Bool} {cp : Nat}
      (h : decodeRecord mem ep m t cp = (none, m', t')) :
      DecodeRun mem ep m t cp (false, m', t')
  | done {m m' : HekaMessage} {t t' : Bool} {cp q : Nat}
      (h : decodeRecord mem ep m t cp = (some q, m', t')) (hend : ep <= q) :
      DecodeRun mem ep m t cp (true, m', t')
  | next {m m' : HekaMessage} {t t' : Bool} {cp q : Nat}
      {r : Bool × HekaMessage × Bool}
      (h : decodeRecord mem ep m t cp = (some q, m', t')) (hlt : q < ep)
      (hrest : DecodeRun mem ep m' t' q r) : DecodeRun mem ep m t cp r

/-- The loop over the entries comes to an end. -/
theorem processFieldsLoop_run {mem : Memory} {e n : Nat} :
    forall {f : HekaField} {p : Nat}, p <= e -> e < p + n ->
      FieldsRun mem e f p (processFieldsLoop mem e n f p) := by
  induction n with
  | zero =>
      intro f p hle hlt
      omega
  | succ n ih =>
      intro f p hle hlt
      have hentry := @processFieldsEntry_position mem e p f
      unfold processFieldsLoop
      generalize hx : processFieldsEntry mem e f p = x at hentry
      rcases x with ⟨_ | q, f'⟩
      · exact FieldsRun.failed hx
      · have hq := hentry rfl
        dsimp only
        split
        · rename_i hlt'
          exact FieldsRun.next hx hlt' (ih (Nat.le_of_lt hlt') (by omega))
        · rename_i hge
          exact FieldsRun.done hx (Nat.not_lt.mp hge)

/-- The loop over the records comes to an end. -/
theorem decodeLoop_run {mem : Memory} {ep n : Nat} :
    forall {m : HekaMessage} {t : Bool} {cp : Nat}, cp < ep -> ep <= cp + n ->
      DecodeRun mem ep m t cp (decodeLoop mem ep n m t cp) := by
  induction n with
  | zero =>
      intro m t cp hlt hle
      omega
  | succ n ih =>
      intro m t cp hlt hle
      have hend := decodeRecord_end mem ep cp m t
      unfold decodeLoop
      generalize hrecord : decodeRecord mem ep m t cp = x at hend
      rcases x with ⟨_ | q, m', t'⟩
      · exact DecodeRun.failed hrecord
      · have hq := recordEnd_position hlt hend.symm
        dsimp only
        split
        · rename_i hlt'
          exact DecodeRun.next hrecord hlt' (ih hlt' (by omega))
        · rename_i hge
          exact DecodeRun.done hrecord (Nat.not_lt.mp hge)

/-!
## Bounds
-/

/-- The records that decoding gets to from the one at the first address. -/
inductive RecordAt (mem : Memory) (ep : Nat) : Nat -> Nat -> Prop where
  | here {cp : Nat} : RecordAt mem ep cp cp
  | later {cp q c : Nat} (hend : recordEnd mem ep cp = some q) (hlt : q < ep)
      (h : RecordAt mem ep q c) : RecordAt mem ep cp c

/-- What is read behind the field records of length zero from `cp` on lies in
front of `ep`. -/
def OverrunsFit (mem : Memory) (ep cp : Nat) : Prop :=
  forall c p, RecordAt mem ep cp c -> EmptyFieldsAt mem ep c p ->
    p + overrun mem p <= ep

section

variable {mem : Memory} {ep cp : Nat}

theorem overrunsFit_end (h : recordEnd mem ep cp = none) :
    OverrunsFit mem ep cp <-> forall p, EmptyFieldsAt mem ep cp p ->
      p + overrun mem p <= ep := by
  constructor
  · intro hfit p hempty
    exact hfit cp p RecordAt.here hempty
  · intro hfit c p hrecord hempty
    cases hrecord with
    | here => exact hfit p hempty
    | later hend hlt hrest =>
        rw [h] at hend
        cases hend

theorem overrunsFit_next {q : Nat} (h : recordEnd mem ep cp = some q) :
    OverrunsFit mem ep cp <-> (q < ep -> OverrunsFit mem ep q) := by
  constructor
  · intro hfit hlt c p hrecord hempty
    exact hfit c p (RecordAt.later h hlt hrecord) hempty
  · intro hfit c p hrecord hempty
    cases hrecord with
    | here =>
        rw [recordEnd_empty hempty] at h
        cases h
    | later hend hlt hrest =>
        rw [h] at hend
        cases hend
        exact hfit hlt c p hrest hempty

theorem decodeLoopReads_ge {n : Nat} :
    forall {m : HekaMessage} {t : Bool} {cp : Nat}, cp < ep ->
      forall a, a ∈ decodeLoopReads mem ep n m t cp -> cp <= a := by
  induction n with
  | zero =>
      intro m t cp _ a ha
      cases ha
  | succ n ih =>
      intro m t cp hlt a ha
      have hend := decodeRecord_end mem ep cp m t
      unfold decodeLoopReads at ha
      rcases List.mem_append.mp ha with hfirst | hlater
      · exact decodeRecordReads_ge hlt hfirst
      generalize decodeRecord mem ep m t cp = x at hend hlater
      rcases x with ⟨_ | q, m', t'⟩
      · cases hlater
      · have hq := recordEnd_position hlt hend.symm
        dsimp only at hlater
        split at hlater
        · rename_i hlt'
          exact Nat.le_trans (Nat.le_of_lt hq) (ih hlt' a hlater)
        · cases hlater

theorem decodeLoopReads_lt_iff {n : Nat} :
    forall {m : HekaMessage} {t : Bool} {cp : Nat}, cp < ep -> ep <= cp + n ->
      ((forall a, a ∈ decodeLoopReads mem ep n m t cp -> a < ep) <->
        OverrunsFit mem ep cp) := by
  induction n with
  | zero =>
      intro m t cp hlt hle
      omega
  | succ n ih =>
      intro m t cp hlt hle
      have hend := decodeRecord_end mem ep cp m t
      unfold decodeLoopReads
      generalize decodeRecord mem ep m t cp = x at hend
      rcases x with ⟨_ | q, m', t'⟩
      · dsimp only at hend ⊢
        rw [List.append_nil, overrunsFit_end hend.symm]
        constructor
        · intro hall p hempty
          exact (decodeRecordReads_lt_iff hlt hempty).mp hall
        · intro hfit a ha
          by_cases hempty : exists p, EmptyFieldsAt mem ep cp p
          · rcases hempty with ⟨p, hp⟩
            exact (decodeRecordReads_lt_iff hlt hp).mpr (hfit p hp) a ha
          · exact (decodeRecordReads_bounds hlt
              (fun p hp => hempty ⟨p, hp⟩) ha).2
      · dsimp only at hend ⊢
        have hq := recordEnd_position hlt hend.symm
        have hfirst : forall a, a ∈ decodeRecordReads mem ep cp -> a < ep := by
          intro a ha
          refine (decodeRecordReads_bounds hlt (fun p hp => ?_) ha).2
          rw [recordEnd_empty hp] at hend
          cases hend
        rw [overrunsFit_next hend.symm]
        by_cases hlt' : q < ep
        · have hrest := ih (m := m') (t := t') hlt' (by omega)
          rw [if_pos hlt']
          constructor
          · intro hall _
            exact hrest.mp (fun a ha => hall a (List.mem_append_right _ ha))
          · intro hfit a ha
            rcases List.mem_append.mp ha with hnow | hlater
            · exact hfirst a hnow
            · exact hrest.mpr (hfit hlt') a hlater
        · rw [if_neg hlt', List.append_nil]
          exact ⟨fun _ hlt'' => absurd hlt'' hlt', fun _ => hfirst⟩

end

/-- Decoding the `len` bytes at `buf` reads no others, comes to an end, and
leaves no slice that reaches out of them. -/
structure DecodesInBounds (mem : Memory) (buf len : Nat) : Prop where
  reads : forall a, a ∈ lsbDecodeHekaMessageReads mem buf len ->
    buf <= a ∧ a < buf + len
  returns : 0 < len -> DecodeRun mem (buf + len) lsbClearHekaMessage false buf
    (decodeLoop mem (buf + len) len lsbClearHekaMessage false buf)
  fieldsReturn : forall p vi, FieldsRun mem (p + vi) HekaField.init p
    (processFieldsLoop mem (p + vi) (vi + 1) HekaField.init p)
  slices : (lsbDecodeHekaMessage mem buf len).1 = true ->
    (lsbDecodeHekaMessage mem buf len).2.Within buf len

/--
Decoding stays inside its input and comes to an end if and only if what is read
behind the field records of length zero lies inside the input, too.
-/
theorem lsbDecodeHekaMessage_inBounds_iff (mem : Memory) (buf len : Nat) :
    DecodesInBounds mem buf len <->
      (0 < len -> OverrunsFit mem (buf + len) buf) := by
  constructor
  · intro h hlen
    have hreads := h.reads
    unfold lsbDecodeHekaMessageReads at hreads
    rw [if_neg (by omega)] at hreads
    exact (decodeLoopReads_lt_iff (by omega) (Nat.le_refl _)).mp
      (fun a ha => (hreads a ha).2)
  · intro hfit
    refine {
      reads := fun a ha => ?_
      returns := fun hlen => decodeLoop_run (by omega) (Nat.le_refl _)
      fieldsReturn := fun p vi => processFieldsLoop_run
        (Nat.le_add_right p vi) (by omega)
      slices := lsbDecodeHekaMessage_within }
    unfold lsbDecodeHekaMessageReads at ha
    split at ha
    · cases ha
    · have hlt : buf < buf + len := by omega
      exact ⟨decodeLoopReads_ge hlt a ha,
        (decodeLoopReads_lt_iff hlt (Nat.le_refl _)).mpr
          (hfit (by omega)) a ha⟩

/-- The two bytes of a field record of length zero. -/
theorem lsbDecodeHekaMessage_overrun :
    ¬ DecodesInBounds (Memory.ofList [0x52, 0]) 0 2 := by
  intro h
  exact absurd (h.reads 2 (by decide)).2 (by decide)

end Util
end LuaSandbox
