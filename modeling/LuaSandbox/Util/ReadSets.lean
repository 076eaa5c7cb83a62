import LuaSandbox.Util.Relocation

/-!
# The bytes that decoding reads

For each reader of the decoder the addresses of the bytes that it reads, in
order.  A reader depends on nothing else.
-/

namespace LuaSandbox
namespace Util

open Foundation

/-!
## Addresses
-/

def readVarintLoopReads (mem : Memory) (e : Nat) : Nat -> Nat -> List Nat
  | 0, _ => []
  | n + 1, p =>
      if p = e then []
      else if mem p &&& 0x80 = 0 then [p]
      else p :: readVarintLoopReads mem e n (p + 1)

def readVarintReads (mem : Memory) (p e : Nat) : List Nat :=
  readVarintLoopReads mem e lsbMaxVarintBytes p

def readStringReads (mem : Memory) (wiretype p e : Nat) : List Nat :=
  if wiretype ≠ lsbPbWtLength then [] else readVarintReads mem p e

def processVarintReads (mem : Memory) (wiretype p e : Nat) : List Nat :=
  if wiretype ≠ lsbPbWtVarint then [] else readVarintReads mem p e

def processFieldsEntryReads (mem : Memory) (e p : Nat) : List Nat :=
  let (q, tag, wiretype) := lsbPbReadKey mem p
  p ::
    if tag = lsbPbName ∨ tag = lsbPbRepresentation then
      readStringReads mem wiretype q e
    else if tag = lsbPbValueType then
      processVarintReads mem wiretype q e
    else if (tag = lsbPbValueInteger ∨ tag = lsbPbValueBool ∨
        tag = lsbPbValueDouble) ∧ wiretype = lsbPbWtLength then
      readVarintReads mem q e
    else
      -- the values themselves are not looked at
      []

def processFieldsLoopReads (mem : Memory) (e : Nat) :
    Nat -> HekaField -> Nat -> List Nat
  | 0, _, _ => []
  | n + 1, f, p =>
      processFieldsEntryReads mem e p ++
        match processFieldsEntry mem e f p with
        | (none, _) => []
        | (some p, f) => if p < e then processFieldsLoopReads mem e n f p else []

def processFieldsReads (mem : Memory) (p e : Nat) : List Nat :=
  readVarintReads mem p e ++
    match lsbPbReadVarint mem p e with
    | none => []
    | some (p, vi) =>
        if toLongLong vi < 0 ∨ e < p + vi then []
        else processFieldsLoopReads mem (p + vi) (vi + 1) HekaField.init p

def decodeRecordReads (mem : Memory) (ep cp : Nat) : List Nat :=
  let (q, tag, wiretype) := lsbPbReadKey mem cp
  cp ::
    if tag = lsbPbUuid ∨ tag = lsbPbType ∨ tag = lsbPbLogger ∨
        tag = lsbPbPayload ∨ tag = lsbPbEnvVersion ∨ tag = lsbPbHostname then
      readStringReads mem wiretype q ep
    else if tag = lsbPbTimestamp ∨ tag = lsbPbSeverity ∨ tag = lsbPbPid then
      processVarintReads mem wiretype q ep
    else if tag = lsbPbFields ∧ wiretype = lsbPbWtLength then
      processFieldsReads mem q ep
    else
      []

def decodeLoopReads (mem : Memory) (ep : Nat) :
    Nat -> HekaMessage -> Bool -> Nat -> List Nat
  | 0, _, _, _ => []
  | n + 1, m, timestamp, cp =>
      decodeRecordReads mem ep cp ++
        match decodeRecord mem ep m timestamp cp with
        | (none, _, _) => []
        | (some cp, m, timestamp) =>
            if cp < ep then decodeLoopReads mem ep n m timestamp cp else []

/-- The addresses of the bytes that are read to decode the `len` bytes at
`buf`. -/
def lsbDecodeHekaMessageReads (mem : Memory) (buf len : Nat) : List Nat :=
  if len = 0 then []
  else decodeLoopReads mem (buf + len) len lsbClearHekaMessage false buf

/-!
## Nothing else matters
-/

section

variable {mem mem' : Memory}

theorem readVarintLoop_congr {e n : Nat} :
    forall {p shift vi : Nat},
      (forall a, a ∈ readVarintLoopReads mem e n p -> mem' a = mem a) ->
      readVarintLoop mem' e n p shift vi = readVarintLoop mem e n p shift vi := by
  induction n with
  | zero =>
      intro p shift vi _
      rfl
  | succ n ih =>
      intro p shift vi h
      unfold readVarintLoop
      unfold readVarintLoopReads at h
      split
      · rfl
      rename_i hend
      rw [if_neg hend] at h
      split at h
      · rename_i hlast
        rw [h p (List.mem_singleton.mpr rfl)]
        rw [if_pos hlast, if_pos hlast]
      · rename_i hmore
        rw [h p List.mem_cons_self, if_neg hmore, if_neg hmore]
        exact ih (fun a ha => h a (List.mem_cons_of_mem p ha))

theorem lsbPbReadVarint_congr {p e : Nat}
    (h : forall a, a ∈ readVarintReads mem p e -> mem' a = mem a) :
    lsbPbReadVarint mem' p e = lsbPbReadVarint mem p e :=
  readVarintLoop_congr h

theorem readString_congr {wiretype p e : Nat}
    (h : forall a, a ∈ readStringReads mem wiretype p e -> mem' a = mem a) :
    readString mem' wiretype p e = readString mem wiretype p e := by
  unfold readString
  unfold readStringReads at h
  split
  · rfl
  · rename_i hwiretype
    rw [if_neg hwiretype] at h
    rw [lsbPbReadVarint_congr h]

theorem processVarint_congr {wiretype p e : Nat}
    (h : forall a, a ∈ processVarintReads mem wiretype p e -> mem' a = mem a) :
    processVarint mem' wiretype p e = processVarint mem wiretype p e := by
  unfold processVarint
  unfold processVarintReads at h
  split
  · rfl
  · rename_i hwiretype
    rw [if_neg hwiretype] at h
    rw [lsbPbReadVarint_congr h]

theorem lsbPbReadKey_congr {p : Nat} (h : mem' p = mem p) :
    lsbPbReadKey mem' p = lsbPbReadKey mem p := by
  unfold lsbPbReadKey
  rw [h]

theorem processFieldsEntry_congr {e p : Nat} {f : HekaField}
    (h : forall a, a ∈ processFieldsEntryReads mem e p -> mem' a = mem a) :
    processFieldsEntry mem' e f p = processFieldsEntry mem e f p := by
  unfold processFieldsEntryReads at h
  have hkey := lsbPbReadKey_congr (h p List.mem_cons_self)
  unfold processFieldsEntry
  rw [hkey]
  generalize lsbPbReadKey mem p = key at h ⊢
  rcases key with ⟨q, tag, wiretype⟩
  dsimp only at h ⊢
  have hrest := fun a ha => h a (List.mem_cons_of_mem p ha)
  by_cases hname : tag = lsbPbName ∨ tag = lsbPbRepresentation
  · rw [if_pos hname] at hrest
    rw [readString_congr hrest]
    rcases hname with rfl | rfl
    · rfl
    · rfl
  rw [if_neg hname] at hrest
  by_cases htype : tag = lsbPbValueType
  · rw [if_pos htype] at hrest
    rw [processVarint_congr hrest]
    subst htype
    rfl
  rw [if_neg htype] at hrest
  rw [not_or] at hname
  rw [if_neg hname.1, if_neg hname.1, if_neg htype, if_neg htype,
    if_neg hname.2, if_neg hname.2]
  by_cases hpacked : (tag = lsbPbValueInteger ∨ tag = lsbPbValueBool ∨
      tag = lsbPbValueDouble) ∧ wiretype = lsbPbWtLength
  · rw [if_pos hpacked] at hrest
    have hlength : packedLength mem' q e = packedLength mem q e := by
      unfold packedLength
      rw [lsbPbReadVarint_congr hrest]
    rw [hlength]
  · by_cases hwiretype : wiretype = lsbPbWtLength
    · have htag : ¬ (tag = lsbPbValueInteger ∨ tag = lsbPbValueBool ∨
          tag = lsbPbValueDouble) := fun ht => hpacked ⟨ht, hwiretype⟩
      rw [if_neg htag, if_neg htag]
    · rw [if_neg hwiretype, if_neg hwiretype]

theorem processFieldsLoop_congr {e n : Nat} :
    forall {f : HekaField} {p : Nat},
      (forall a, a ∈ processFieldsLoopReads mem e n f p -> mem' a = mem a) ->
      processFieldsLoop mem' e n f p = processFieldsLoop mem e n f p := by
  induction n with
  | zero =>
      intro f p _
      rfl
  | succ n ih =>
      intro f p h
      unfold processFieldsLoopReads at h
      have hentry : processFieldsEntry mem' e f p =
          processFieldsEntry mem e f p :=
        processFieldsEntry_congr
          (fun a ha => h a (List.mem_append_left _ ha))
      have hrest := fun a ha => h a (List.mem_append_right _ ha)
      unfold processFieldsLoop
      rw [hentry]
      generalize processFieldsEntry mem e f p = r at hrest ⊢
      rcases r with ⟨_ | q, f'⟩
      · rfl
      · dsimp only at hrest ⊢
        split
        · rename_i hlt
          rw [if_pos hlt] at hrest
          exact ih hrest
        · rfl

theorem processFields_congr {p e : Nat}
    (h : forall a, a ∈ processFieldsReads mem p e -> mem' a = mem a) :
    processFields mem' p e = processFields mem p e := by
  unfold processFieldsReads at h
  have hvarint : lsbPbReadVarint mem' p e = lsbPbReadVarint mem p e :=
    lsbPbReadVarint_congr (fun a ha => h a (List.mem_append_left _ ha))
  have hrest := fun a ha => h a (List.mem_append_right _ ha)
  unfold processFields
  rw [hvarint]
  generalize lsbPbReadVarint mem p e = r at hrest ⊢
  rcases r with _ | ⟨q, vi⟩
  · rfl
  · dsimp only at hrest ⊢
    split
    · rfl
    · rename_i hfit
      rw [if_neg hfit] at hrest
      rw [processFieldsLoop_congr hrest]

theorem decodeRecord_congr {ep cp : Nat} {m : HekaMessage} {timestamp : Bool}
    (h : forall a, a ∈ decodeRecordReads mem ep cp -> mem' a = mem a) :
    decodeRecord mem' ep m timestamp cp =
      decodeRecord mem ep m timestamp cp := by
  unfold decodeRecordReads at h
  have hkey := lsbPbReadKey_congr (h cp List.mem_cons_self)
  unfold decodeRecord
  rw [hkey]
  generalize lsbPbReadKey mem cp = key at h ⊢
  rcases key with ⟨q, tag, wiretype⟩
  dsimp only at h ⊢
  have hrest := fun a ha => h a (List.mem_cons_of_mem cp ha)
  by_cases hstring : tag = lsbPbUuid ∨ tag = lsbPbType ∨ tag = lsbPbLogger ∨
      tag = lsbPbPayload ∨ tag = lsbPbEnvVersion ∨ tag = lsbPbHostname
  · rw [if_pos hstring] at hrest
    rw [readString_congr hrest]
    rcases hstring with rfl | rfl | rfl | rfl | rfl | rfl <;> rfl
  rw [if_neg hstring] at hrest
  by_cases hvarint : tag = lsbPbTimestamp ∨ tag = lsbPbSeverity ∨
      tag = lsbPbPid
  · rw [if_pos hvarint] at hrest
    rw [processVarint_congr hrest]
    rcases hvarint with rfl | rfl | rfl <;> rfl
  rw [if_neg hvarint] at hrest
  simp only [not_or] at hstring hvarint
  simp only [hstring, hvarint, if_false]
  by_cases hfields : tag = lsbPbFields
  · by_cases hwiretype : wiretype = lsbPbWtLength
    · rw [if_pos ⟨hfields, hwiretype⟩] at hrest
      rw [processFields_congr hrest]
    · rw [if_pos hfields, if_pos hfields, if_pos hwiretype, if_pos hwiretype]
  · rw [if_neg hfields, if_neg hfields]

theorem decodeLoop_congr {ep n : Nat} :
    forall {m : HekaMessage} {timestamp : Bool} {cp : Nat},
      (forall a, a ∈ decodeLoopReads mem ep n m timestamp cp ->
        mem' a = mem a) ->
      decodeLoop mem' ep n m timestamp cp =
        decodeLoop mem ep n m timestamp cp := by
  induction n with
  | zero =>
      intro m timestamp cp _
      rfl
  | succ n ih =>
      intro m timestamp cp h
      unfold decodeLoopReads at h
      have hrecord : decodeRecord mem' ep m timestamp cp =
          decodeRecord mem ep m timestamp cp :=
        decodeRecord_congr (fun a ha => h a (List.mem_append_left _ ha))
      have hrest := fun a ha => h a (List.mem_append_right _ ha)
      unfold decodeLoop
      rw [hrecord]
      generalize decodeRecord mem ep m timestamp cp = r at hrest ⊢
      rcases r with ⟨_ | q, m', timestamp'⟩
      · rfl
      · dsimp only at hrest ⊢
        split
        · rename_i hlt
          rw [if_pos hlt] at hrest
          exact ih hrest
        · rfl

/-- Decoding depends on the bytes that it reads and on no others. -/
theorem lsbDecodeHekaMessage_congr {buf len : Nat}
    (h : forall a, a ∈ lsbDecodeHekaMessageReads mem buf len ->
      mem' a = mem a) :
    lsbDecodeHekaMessage mem' buf len = lsbDecodeHekaMessage mem buf len := by
  unfold lsbDecodeHekaMessageReads at h
  unfold lsbDecodeHekaMessage
  split
  · rfl
  · rename_i hlen
    rw [if_neg hlen] at h
    rw [decodeLoop_congr h]

end

end Util
end LuaSandbox
