import LuaSandbox.Util.DecodeBounds
import LuaSandbox.Util.OutputBuffer

/-!
# The field array of a message

A message is used again for the next one, and its array of fields grows in the
middle of decoding.  Growing may fail.
-/

namespace LuaSandbox
namespace Util

open Foundation

/-!
## Allocations
-/

/-- Three slices and an `int`, aligned. -/
def sizeofHekaField : Nat := 56

/-- The size of an array as a 64-bit word. -/
def fieldBytes (n : Int) : Nat :=
  ofLongLong n * sizeofHekaField % 2 ^ 64

/-- An allocation succeeds; no object is larger than half of the addresses. -/
def allocates (alloc : Nat -> Bool) (n : Int) : Bool :=
  alloc (fieldBytes n) && decide (fieldBytes n < 2 ^ 63)

/-- A number that is no `int` asks for more than there is. -/
theorem allocates_range {alloc : Nat -> Bool} {n : Int} (hn : n <= intMax + 8)
    (hlow : 0 <= n) (h : allocates alloc (toInt n) = true) :
    n <= intMax ∧ toInt n = n := by
  unfold allocates at h
  rw [Bool.and_eq_true, decide_eq_true_eq] at h
  have hmax : n <= intMax := by
    unfold intMax at *
    by_contra hover
    have hwrap : toInt n = n - 2 ^ 32 := by
      unfold toInt
      split <;> omega
    have hword : ofLongLong (n - 2 ^ 32) = (n - 2 ^ 32 + 2 ^ 64).toNat := by
      unfold ofLongLong
      omega
    have hbytes := h.2
    unfold fieldBytes sizeofHekaField at hbytes
    rw [hwrap, hword] at hbytes
    generalize hw : (n - 2 ^ 32 + 2 ^ 64).toNat = w at hbytes
    have hsplit : w * 56 = 2 ^ 64 - 56 * (2 ^ 64 - w) + 2 ^ 64 * 55 := by omega
    rw [hsplit, Nat.add_mul_mod_self_left, Nat.mod_eq_of_lt (by omega)] at hbytes
    omega
  refine ⟨hmax, toInt_of_range ?_ hmax⟩
  unfold intMin
  omega

/-!
## The message
-/

/-- A message, the size that it keeps for the array of its fields, and how many
elements are allocated.  The elements that were written are recorded with the
number allocated at that time. -/
structure MessageState where
  message : HekaMessage
  fieldsSize : Int
  allocated : Nat
  touched : List (Nat × Nat)

namespace MessageState

def fieldsLen (s : MessageState) : Nat :=
  s.message.fields.length

def init (malloc : Nat -> Bool) (numFields : Int) (s : MessageState) :
    Option LsbErr × MessageState :=
  let numFields := toInt numFields
  if numFields < 1 then
    (some LsbErr.utilPrange, s)
  else if allocates malloc numFields then
    (none, { s with
      message := lsbClearHekaMessage
      fieldsSize := numFields
      allocated := numFields.toNat })
  else
    (some LsbErr.utilOom, { s with allocated := 0 })

def clear (s : MessageState) : MessageState :=
  { s with message := lsbClearHekaMessage }

def free (s : MessageState) : MessageState :=
  { s with message := lsbClearHekaMessage, fieldsSize := 0, allocated := 0 }

/-- Make room for one more field; the size is kept before the reallocation. -/
def growFields (realloc : Nat -> Bool) (s : MessageState) :
    Bool × MessageState :=
  if (s.fieldsLen : Int) = s.fieldsSize then
    let fieldsSize := toInt (s.fieldsSize + 8)
    if allocates realloc fieldsSize then
      (true, { s with
        fieldsSize := fieldsSize
        allocated := fieldsSize.toNat })
    else
      (false, { s with fieldsSize := fieldsSize })
  else
    (true, s)

end MessageState

/-- The record at `cp` is one of a field. -/
def isFieldRecord (mem : Memory) (cp : Nat) : Bool :=
  let (_, tag, wiretype) := lsbPbReadKey mem cp
  decide (tag = lsbPbFields ∧ wiretype = lsbPbWtLength)

namespace MessageState

/-- Before a field is decoded its element is written. -/
def beginRecord (realloc : Nat -> Bool) (mem : Memory) (cp : Nat)
    (s : MessageState) : Bool × MessageState :=
  if isFieldRecord mem cp then
    match s.growFields realloc with
    | (false, s) => (false, s)
    | (true, s) =>
        (true, { s with touched := s.touched ++ [(s.fieldsLen, s.allocated)] })
  else
    (true, s)

def decodeLoop (realloc : Nat -> Bool) (mem : Memory) (ep : Nat) :
    Nat -> MessageState -> Bool -> Nat -> Bool × MessageState × Bool
  | 0, s, timestamp, _ => (false, s, timestamp)
  | n + 1, s, timestamp, cp =>
      match s.beginRecord realloc mem cp with
      | (false, s) => (false, s, timestamp)
      | (true, s) =>
          match decodeRecord mem ep s.message timestamp cp with
          | (none, m, timestamp) => (false, { s with message := m }, timestamp)
          | (some cp, m, timestamp) =>
              if cp < ep then
                decodeLoop realloc mem ep n { s with message := m } timestamp cp
              else
                (true, { s with message := m }, timestamp)

def decode (realloc : Nat -> Bool) (mem : Memory) (buf len : Nat)
    (s : MessageState) : Bool × MessageState :=
  if len = 0 then
    (false, s)
  else
    match decodeLoop realloc mem (buf + len) len s.clear false buf with
    | (false, s, _) => (false, s)
    | (true, s, timestamp) =>
        if s.message.uuid.s = none then (false, s)
        else if timestamp = false then (false, s)
        else
          (true, { s with message := { s.message with raw := ⟨some buf, len⟩ } })

/-- The kept size is what is allocated, the fields are among these elements,
and no other element was written. -/
structure Consistent (s : MessageState) : Prop where
  len_le : (s.fieldsLen : Int) <= s.fieldsSize
  size_eq : s.fieldsSize = s.allocated
  size_le : s.fieldsSize <= intMax
  touched : forall x, x ∈ s.touched -> x.1 < x.2

/-- As long as fewer elements than `k` are there, eight more can be had. -/
def Grows (realloc : Nat -> Bool) (size : Int) (k : Nat) : Prop :=
  forall j : Nat, size + 8 * j < k ->
    allocates realloc (toInt (size + 8 * j + 8)) = true

end MessageState

/-!
## One field more
-/

theorem decodeRecord_fieldsLen (mem : Memory) (ep cp : Nat)
    (m : HekaMessage) (timestamp : Bool) :
    (decodeRecord mem ep m timestamp cp).2.1.fields.length =
      m.fields.length + (isFieldRecord mem cp).toNat := by
  unfold decodeRecord isFieldRecord
  generalize lsbPbReadKey mem cp = key
  rcases key with ⟨q, tag, wiretype⟩
  dsimp only
  generalize readString mem wiretype q ep = string
  generalize processVarint mem wiretype q ep = varint
  generalize processFields mem q ep = field
  by_cases hstring : tag = lsbPbType ∨ tag = lsbPbLogger ∨
      tag = lsbPbPayload ∨ tag = lsbPbEnvVersion ∨ tag = lsbPbHostname
  · rcases hstring with rfl | rfl | rfl | rfl | rfl <;> cases string <;> rfl
  by_cases hvarint : tag = lsbPbTimestamp ∨ tag = lsbPbSeverity ∨
      tag = lsbPbPid
  · rcases hvarint with rfl | rfl | rfl <;> cases varint <;> rfl
  by_cases huuid : tag = lsbPbUuid
  · subst huuid
    cases string <;> rfl
  simp only [not_or] at hstring hvarint
  simp only [huuid, hstring, hvarint, if_false]
  by_cases hfields : tag = lsbPbFields
  · rw [if_pos hfields]
    by_cases hwiretype : wiretype = lsbPbWtLength
    · rw [if_neg (not_not.mpr hwiretype),
        decide_eq_true (And.intro hfields hwiretype)]
      exact List.length_append
    · rw [if_pos hwiretype, decide_eq_false (fun h => hwiretype h.2)]
      rfl
  · rw [if_neg hfields, decide_eq_false (fun h => hfields h.1)]
    rfl

theorem decodeLoop_fieldsLen (mem : Memory) (ep n : Nat) :
    forall m timestamp cp,
    m.fields.length <= (decodeLoop mem ep n m timestamp cp).2.1.fields.length := by
  induction n with
  | zero =>
      intro m timestamp cp
      exact Nat.le_refl _
  | succ n ih =>
      intro m timestamp cp
      have hrecord := decodeRecord_fieldsLen mem ep cp m timestamp
      unfold decodeLoop
      generalize decodeRecord mem ep m timestamp cp = r at hrecord
      rcases r with ⟨next, m', timestamp'⟩
      dsimp only at hrecord
      cases next with
      | none =>
          dsimp only
          omega
      | some q =>
          dsimp only
          split
          · exact Nat.le_trans (by omega) (ih _ _ _)
          · dsimp only
            omega

namespace MessageState

section

variable {realloc : Nat -> Bool} {mem : Memory} {ep cp : Nat}
  {s : MessageState}

/-- The size counts eight elements that are not there. -/
theorem not_consistent_of_failed (hs : s.Consistent) :
    ¬ ({ s with fieldsSize := toInt (s.fieldsSize + 8) } :
      MessageState).Consistent := by
  rintro ⟨-, hsize, -, -⟩
  change toInt (s.fieldsSize + 8) = s.allocated at hsize
  rw [← hs.size_eq] at hsize
  unfold toInt at hsize
  split at hsize <;> omega

/-- What happens in front of a record. -/
inductive Begins (realloc : Nat -> Bool) (mem : Memory) (cp : Nat)
    (s : MessageState) : Bool × MessageState -> Prop where
  | other (h : isFieldRecord mem cp = false) :
      Begins realloc mem cp s (true, s)
  | room (h : isFieldRecord mem cp = true)
      (hlen : (s.fieldsLen : Int) < s.fieldsSize) :
      Begins realloc mem cp s (true, { s with
        touched := s.touched ++ [(s.fieldsLen, s.allocated)] })
  | grown (h : isFieldRecord mem cp = true)
      (hlen : (s.fieldsLen : Int) = s.fieldsSize)
      (halloc : allocates realloc (toInt (s.fieldsSize + 8)) = true) :
      Begins realloc mem cp s (true, { s with
        fieldsSize := toInt (s.fieldsSize + 8)
        allocated := (toInt (s.fieldsSize + 8)).toNat
        touched := s.touched ++
          [(s.fieldsLen, (toInt (s.fieldsSize + 8)).toNat)] })
  | failed (h : isFieldRecord mem cp = true)
      (hlen : (s.fieldsLen : Int) = s.fieldsSize)
      (halloc : allocates realloc (toInt (s.fieldsSize + 8)) = false) :
      Begins realloc mem cp s (false, { s with
        fieldsSize := toInt (s.fieldsSize + 8) })

theorem beginRecord_begins (realloc : Nat -> Bool) (mem : Memory) (cp : Nat)
    (hs : s.Consistent) :
    Begins realloc mem cp s (s.beginRecord realloc mem cp) := by
  have hle := hs.len_le
  unfold beginRecord growFields
  cases hrecord : isFieldRecord mem cp with
  | false =>
      rw [if_neg Bool.false_ne_true]
      exact Begins.other hrecord
  | true =>
      rw [if_pos rfl]
      by_cases hlen : (s.fieldsLen : Int) = s.fieldsSize
      · rw [if_pos hlen]
        dsimp only
        cases halloc : allocates realloc (toInt (s.fieldsSize + 8)) with
        | false => exact Begins.failed hrecord hlen halloc
        | true => exact Begins.grown hrecord hlen halloc
      · rw [if_neg hlen]
        exact Begins.room hrecord (by omega)

theorem grows_succ (realloc : Nat -> Bool) {size : Int} {k : Nat} (hlt : size < k) :
    Grows realloc size k <->
      allocates realloc (toInt (size + 8)) = true ∧
        Grows realloc (size + 8) k := by
  unfold Grows
  constructor
  · intro h
    have hfirst := h 0 (by omega)
    refine ⟨by simpa using hfirst, fun j hj => ?_⟩
    have hnext := h (j + 1) (by omega)
    have hsum : size + 8 * ((j + 1 : Nat) : Int) + 8 =
        size + 8 + 8 * (j : Int) + 8 := by
      omega
    rwa [hsum] at hnext
  · rintro ⟨hfirst, hnext⟩ j hj
    cases j with
    | zero => simpa using hfirst
    | succ j =>
        have hsum : size + 8 * ((j + 1 : Nat) : Int) + 8 =
            size + 8 + 8 * (j : Int) + 8 := by
          omega
        rw [hsum]
        exact hnext j (by omega)

/-- The state once a record is decoded. -/
theorem Consistent.decoded {m : HekaMessage} (hs : s.Consistent)
    (hlen : (m.fields.length : Int) <= s.fieldsSize) :
    ({ s with message := m } : MessageState).Consistent :=
  ⟨hlen, hs.size_eq, hs.size_le, hs.touched⟩

/-- One element behind the fields is written. -/
theorem Consistent.touch (hs : s.Consistent)
    (hlen : (s.fieldsLen : Int) < s.fieldsSize) :
    ({ s with touched := s.touched ++ [(s.fieldsLen, s.allocated)] } :
      MessageState).Consistent := by
  refine ⟨hs.len_le, hs.size_eq, hs.size_le, fun x hx => ?_⟩
  rcases List.mem_append.mp hx with hx | hx
  · exact hs.touched x hx
  · cases List.mem_singleton.mp hx
    have hsize := hs.size_eq
    dsimp only
    omega

theorem Consistent.grow (hs : s.Consistent)
    (halloc : allocates realloc (toInt (s.fieldsSize + 8)) = true) :
    toInt (s.fieldsSize + 8) = s.fieldsSize + 8 ∧
      ({ s with
        fieldsSize := toInt (s.fieldsSize + 8)
        allocated := (toInt (s.fieldsSize + 8)).toNat } :
          MessageState).Consistent := by
  have hlen := hs.len_le
  have hsize := hs.size_le
  rcases allocates_range (by omega) (by omega) halloc with ⟨hmax, hsame⟩
  refine ⟨hsame, ?_, ?_, ?_, hs.touched⟩
  · change (s.fieldsLen : Int) <= toInt (s.fieldsSize + 8)
    omega
  · change toInt (s.fieldsSize + 8) = ((toInt (s.fieldsSize + 8)).toNat : Int)
    omega
  · change toInt (s.fieldsSize + 8) <= intMax
    omega

/-- The outcome of decoding with memory to spare. -/
structure Decodes (r : Bool × MessageState × Bool)
    (pure : Bool × HekaMessage × Bool) : Prop where
  result : r.1 = pure.1
  message : r.2.1.message = pure.2.1
  timestamp : r.2.2 = pure.2.2
  consistent : r.2.1.Consistent

/-- What is left to do once the element of a record is written. -/
def finishRecord (realloc : Nat -> Bool) (mem : Memory) (ep n : Nat)
    (s : MessageState) (timestamp : Bool) (cp : Nat) :
    Bool × MessageState × Bool :=
  match decodeRecord mem ep s.message timestamp cp with
  | (none, m, timestamp) => (false, { s with message := m }, timestamp)
  | (some cp, m, timestamp) =>
      if cp < ep then
        decodeLoop realloc mem ep n { s with message := m } timestamp cp
      else
        (true, { s with message := m }, timestamp)

/-- Decoding keeps the array consistent if and only if it can be grown as often
as the fields need it. -/
def KeepsIff (realloc : Nat -> Bool) (s : MessageState)
    (r : Bool × MessageState × Bool) (pure : Bool × HekaMessage × Bool) :
    Prop :=
  (Grows realloc s.fieldsSize pure.2.1.fields.length -> Decodes r pure) ∧
    (¬ Grows realloc s.fieldsSize pure.2.1.fields.length ->
      ¬ r.2.1.Consistent)

theorem keepsIff_of_decodes {r : Bool × MessageState × Bool}
    {pure : Bool × HekaMessage × Bool} (h : Decodes r pure)
    (hlen : (pure.2.1.fields.length : Int) <= s.fieldsSize) :
    KeepsIff realloc s r pure := by
  refine ⟨fun _ => h, fun hgrows => absurd (fun j hj => ?_) hgrows⟩
  omega

theorem finishRecord_keeps {n : Nat} (timestamp : Bool) (cp : Nat)
    (ih : forall {s : MessageState} {timestamp : Bool} (cp : Nat),
      s.Consistent -> KeepsIff realloc s
        (s.decodeLoop realloc mem ep n timestamp cp)
        (Util.decodeLoop mem ep n s.message timestamp cp))
    (hs : s.Consistent)
    (hlen : (s.fieldsLen : Int) + (isFieldRecord mem cp).toNat <=
      s.fieldsSize) :
    KeepsIff realloc s (finishRecord realloc mem ep n s timestamp cp)
      (Util.decodeLoop mem ep (n + 1) s.message timestamp cp) := by
  have hrecord := decodeRecord_fieldsLen mem ep cp s.message timestamp
  unfold finishRecord Util.decodeLoop
  generalize decodeRecord mem ep s.message timestamp cp = r at hrecord
  rcases r with ⟨next, m, timestamp'⟩
  have hdecoded : (m.fields.length : Int) <= s.fieldsSize := by
    change (s.fieldsLen : Int) + _ <= _ at hlen
    dsimp only at hrecord
    unfold fieldsLen at hlen
    omega
  have hconsistent := hs.decoded hdecoded
  cases next with
  | none => exact keepsIff_of_decodes ⟨rfl, rfl, rfl, hconsistent⟩ hdecoded
  | some q =>
      dsimp only
      split
      · exact ih _ hconsistent
      · exact keepsIff_of_decodes ⟨rfl, rfl, rfl, hconsistent⟩ hdecoded

theorem decodeLoop_keeps (realloc : Nat -> Bool) (mem : Memory) (ep n : Nat) :
    forall {s : MessageState} {timestamp : Bool} (cp : Nat), s.Consistent ->
      KeepsIff realloc s (s.decodeLoop realloc mem ep n timestamp cp)
        (Util.decodeLoop mem ep n s.message timestamp cp) := by
  induction n with
  | zero =>
      intro s timestamp cp hs
      exact keepsIff_of_decodes ⟨rfl, rfl, rfl, hs⟩ hs.len_le
  | succ n ih =>
      intro s timestamp cp hs
      have hbegins := beginRecord_begins realloc mem cp hs
      -- with a field record there is one more field in the end
      have hmore : isFieldRecord mem cp = true ->
          s.fieldsLen < (Util.decodeLoop mem ep (n + 1) s.message timestamp
            cp).2.1.fields.length := by
        intro hfield
        have hrecord := decodeRecord_fieldsLen mem ep cp s.message timestamp
        rw [hfield] at hrecord
        unfold Util.decodeLoop
        generalize decodeRecord mem ep s.message timestamp cp = r at hrecord
        rcases r with ⟨next, m, timestamp'⟩
        have hone : m.fields.length = s.fieldsLen + 1 := hrecord
        cases next with
        | none =>
            dsimp only
            omega
        | some q =>
            dsimp only
            split
            · have hlater := decodeLoop_fieldsLen mem ep n m timestamp' q
              omega
            · dsimp only
              omega
      unfold decodeLoop
      generalize s.beginRecord realloc mem cp = r at hbegins
      cases hbegins with
      | other h =>
          refine finishRecord_keeps timestamp cp ih hs ?_
          rw [h]
          exact hs.len_le
      | room h hlen =>
          refine finishRecord_keeps timestamp cp ih (hs.touch hlen) ?_
          rw [h]
          exact hlen
      | grown h hlen halloc =>
          rcases hs.grow halloc with ⟨hsize, hgrown⟩
          have hmore' := hmore h
          have hstep := grows_succ realloc (hlen ▸ Int.ofNat_lt.mpr hmore')
          have hroom : (s.fieldsLen : Int) < toInt (s.fieldsSize + 8) := by
            omega
          have hkeeps := finishRecord_keeps timestamp cp ih (hgrown.touch hroom) (by
              rw [h]
              exact hroom)
          unfold KeepsIff at hkeeps ⊢
          rw [hstep]
          refine ⟨fun hgrows => hkeeps.1 ?_,
            fun hgrows => hkeeps.2 (fun hlater => hgrows ⟨halloc, ?_⟩)⟩
          · change Grows realloc (toInt (s.fieldsSize + 8)) _
            rw [hsize]
            exact hgrows.2
          · change Grows realloc (toInt (s.fieldsSize + 8)) _ at hlater
            rwa [hsize] at hlater
      | failed h hlen halloc =>
          have hmore' := hmore h
          have hstep := grows_succ realloc (hlen ▸ Int.ofNat_lt.mpr hmore')
          unfold KeepsIff
          rw [hstep, halloc]
          exact ⟨fun hgrows => absurd hgrows.1 Bool.false_ne_true,
            fun _ => not_consistent_of_failed hs⟩

theorem lsbDecodeHekaMessage_fields (mem : Memory) (buf : Nat) {len : Nat}
    (hlen : len ≠ 0) :
    (lsbDecodeHekaMessage mem buf len).2.fields =
      (Util.decodeLoop mem (buf + len) len lsbClearHekaMessage false
        buf).2.1.fields := by
  unfold lsbDecodeHekaMessage
  rw [if_neg hlen]
  generalize Util.decodeLoop mem (buf + len) len lsbClearHekaMessage false buf =
    r
  rcases r with ⟨ok, m, timestamp⟩
  cases ok with
  | false => rfl
  | true =>
      dsimp only
      split
      · rfl
      split <;> rfl

theorem Consistent.clear (hs : s.Consistent) : s.clear.Consistent :=
  hs.decoded (Int.le_trans (Int.natCast_nonneg _) hs.len_le)

/-- With memory to spare a message is decoded as the bytes say. -/
theorem decode_of_grows (buf : Nat) {len : Nat} (hlen : len ≠ 0)
    (hs : s.Consistent)
    (h : Grows realloc s.fieldsSize
      (lsbDecodeHekaMessage mem buf len).2.fields.length) :
    (s.decode realloc mem buf len).1 =
        (lsbDecodeHekaMessage mem buf len).1 ∧
      (s.decode realloc mem buf len).2.message =
        (lsbDecodeHekaMessage mem buf len).2 ∧
      (s.decode realloc mem buf len).2.Consistent := by
  rw [lsbDecodeHekaMessage_fields mem buf hlen] at h
  have hkeeps := (decodeLoop_keeps realloc mem (buf + len) len buf
    hs.clear).1 h
  change Decodes _ (Util.decodeLoop mem (buf + len) len lsbClearHekaMessage
    false buf) at hkeeps
  unfold decode lsbDecodeHekaMessage
  rw [if_neg hlen, if_neg hlen]
  generalize Util.decodeLoop mem (buf + len) len lsbClearHekaMessage false buf =
    pure at hkeeps ⊢
  generalize s.clear.decodeLoop realloc mem (buf + len) len false buf = r
    at hkeeps ⊢
  rcases pure with ⟨ok, m, timestamp⟩
  rcases r with ⟨ok', t, timestamp'⟩
  rcases hkeeps with ⟨hok, hmessage, htimestamp, ht⟩
  cases hok
  cases hmessage
  cases htimestamp
  cases ok with
  | false => exact ⟨rfl, rfl, ht⟩
  | true =>
      dsimp only
      split
      · exact ⟨rfl, rfl, ht⟩
      split
      · exact ⟨rfl, rfl, ht⟩
      · exact ⟨rfl, rfl, ht.decoded ht.len_le⟩

theorem not_consistent_decode (buf : Nat) {len : Nat} (hlen : len ≠ 0)
    (hs : s.Consistent)
    (h : ¬ Grows realloc s.fieldsSize
      (lsbDecodeHekaMessage mem buf len).2.fields.length) :
    ¬ (s.decode realloc mem buf len).2.Consistent := by
  rw [lsbDecodeHekaMessage_fields mem buf hlen] at h
  have hkeeps := (decodeLoop_keeps realloc mem (buf + len) len buf
    hs.clear).2 h
  unfold decode
  rw [if_neg hlen]
  generalize s.clear.decodeLoop realloc mem (buf + len) len false buf = r
    at hkeeps ⊢
  rcases r with ⟨ok, t, timestamp⟩
  cases ok with
  | false => exact hkeeps
  | true =>
      dsimp only
      split
      · exact hkeeps
      split
      · exact hkeeps
      · rintro ⟨hlen, hsize, hmax, htouched⟩
        exact hkeeps ⟨hlen, hsize, hmax, htouched⟩

theorem init_consistent (malloc : Nat -> Bool) (numFields : Int)
    (htouched : forall x, x ∈ s.touched -> x.1 < x.2)
    (h : (s.init malloc numFields).1 = none) :
    (s.init malloc numFields).2.Consistent := by
  have hmax := toInt_le_intMax numFields
  unfold init at h ⊢
  dsimp only at h ⊢
  split at h
  · cases h
  split at h
  · rename_i hpos halloc
    rw [if_neg hpos, if_pos halloc]
    refine ⟨?_, ?_, hmax, htouched⟩
    · change (0 : Int) <= toInt numFields
      omega
    · change toInt numFields = ((toInt numFields).toNat : Int)
      omega
  · cases h

end

end MessageState

/-!
## Runs
-/

/-- What a program does with one message; every call has its own memory
manager. -/
inductive MessageOp where
  | init (malloc : Nat -> Bool) (numFields : Int)
  | decode (realloc : Nat -> Bool) (mem : Memory) (buf len : Nat)
  | clear
  | free

namespace MessageOp

def run (s : MessageState) : MessageOp -> MessageState
  | init malloc numFields => (s.init malloc numFields).2
  | decode realloc mem buf len => (s.decode realloc mem buf len).2
  | clear => s.clear
  | free => s.free

/-- The allocations that the call needs succeed: an array is grown up to the
number of fields of the message, and a first one is there or none is kept. -/
def Met (s : MessageState) : MessageOp -> Prop
  | init malloc numFields =>
      toInt numFields < 1 ∨ allocates malloc (toInt numFields) = true ∨
        s.fieldsSize = 0
  | decode realloc mem buf len =>
      len = 0 ∨ MessageState.Grows realloc s.fieldsSize
        (lsbDecodeHekaMessage mem buf len).2.fields.length
  | clear => True
  | free => True

/-- The step: a call keeps the message consistent if and only if its
allocations succeed. -/
theorem run_consistent_iff {s : MessageState} (hs : s.Consistent)
    (op : MessageOp) : (op.run s).Consistent <-> op.Met s := by
  cases op with
  | init malloc numFields =>
      change (s.init malloc numFields).2.Consistent <->
        toInt numFields < 1 ∨ allocates malloc (toInt numFields) = true ∨
          s.fieldsSize = 0
      by_cases hpos : toInt numFields < 1
      · unfold MessageState.init
        dsimp only
        rw [if_pos hpos]
        exact iff_of_true hs (Or.inl hpos)
      by_cases halloc : allocates malloc (toInt numFields) = true
      · refine iff_of_true ?_ (Or.inr (Or.inl halloc))
        refine MessageState.init_consistent malloc numFields hs.touched ?_
        unfold MessageState.init
        dsimp only
        rw [if_neg hpos, if_pos halloc]
      · have hrun : (s.init malloc numFields).2 = { s with allocated := 0 } := by
          unfold MessageState.init
          dsimp only
          rw [if_neg hpos, if_neg halloc]
        rw [hrun]
        constructor
        · rintro ⟨-, hsize, -, -⟩
          exact Or.inr (Or.inr hsize)
        · rintro (hless | hsome | hzero)
          · exact absurd hless hpos
          · exact absurd hsome halloc
          · exact ⟨hs.len_le, hzero, hs.size_le, hs.touched⟩
  | decode realloc mem buf len =>
      change (s.decode realloc mem buf len).2.Consistent <->
        len = 0 ∨ MessageState.Grows realloc s.fieldsSize
          (lsbDecodeHekaMessage mem buf len).2.fields.length
      by_cases hlen : len = 0
      · have hrun : s.decode realloc mem buf len = (false, s) := by
          unfold MessageState.decode
          rw [if_pos hlen]
        rw [hrun]
        exact iff_of_true hs (Or.inl hlen)
      · constructor
        · intro hconsistent
          by_contra hfailed
          exact MessageState.not_consistent_decode buf hlen hs
            (fun hgrows => hfailed (Or.inr hgrows)) hconsistent
        · rintro (hzero | hgrows)
          · exact absurd hzero hlen
          · exact (MessageState.decode_of_grows buf hlen hs hgrows).2.2
  | clear => exact iff_of_true hs.clear trivial
  | free =>
      have hmax : (0 : Int) <= intMax := by decide
      exact iff_of_true ⟨Int.le_refl 0, rfl, hmax, hs.touched⟩ trivial

/-- The states of a run, from the first on. -/
def states (s : MessageState) : List MessageOp -> List MessageState
  | [] => [s]
  | op :: ops => s :: states (op.run s) ops

/-- Every call of a run finds the memory that it needs. -/
def AllMet (s : MessageState) : List MessageOp -> Prop
  | [] => True
  | op :: ops => op.Met s ∧ AllMet (op.run s) ops

theorem states_head (s : MessageState) (ops : List MessageOp) :
    s ∈ states s ops := by
  cases ops <;> exact List.mem_cons_self

/-- The run: every state is consistent if and only if all allocations that the
calls need succeed. -/
theorem states_consistent_iff {s : MessageState} (hs : s.Consistent)
    (ops : List MessageOp) :
    (forall t, t ∈ states s ops -> t.Consistent) <-> AllMet s ops := by
  induction ops generalizing s with
  | nil =>
      refine iff_of_true (fun t ht => ?_) trivial
      cases List.mem_singleton.mp ht
      exact hs
  | cons op ops ih =>
      unfold states AllMet
      rw [List.forall_mem_cons, ← run_consistent_iff hs op]
      constructor
      · rintro ⟨-, hrest⟩
        have hnext := hrest (op.run s) (states_head _ _)
        exact ⟨hnext, (ih hnext).mp hrest⟩
      · rintro ⟨hnext, hmet⟩
        exact ⟨hs, (ih hnext).mpr hmet⟩

end MessageOp

/-- Whatever is done with a message once it is initialised, its field array is
consistent in every state if and only if no allocation fails that a call
needs. -/
theorem fieldArray_consistent_iff {s : MessageState} {malloc : Nat -> Bool}
    {numFields : Int} (htouched : s.touched = [])
    (hinit : (s.init malloc numFields).1 = none) (ops : List MessageOp) :
    (forall t, t ∈ MessageOp.states (s.init malloc numFields).2 ops ->
        t.Consistent) <->
      MessageOp.AllMet (s.init malloc numFields).2 ops := by
  refine MessageOp.states_consistent_iff
    (MessageState.init_consistent malloc numFields ?_ hinit) ops
  rw [htouched]
  exact fun x hx => absurd hx List.not_mem_nil

/-- A message that was declared and not yet initialised. -/
def declaredMessage : MessageState :=
  ⟨lsbClearHekaMessage, 0, 0, []⟩

/-- The bytes of a message with two fields without values. -/
def twoFieldsBytes : List UInt8 :=
  [0x0a, 0x10, 0, 0, 0, 0, 0, 0, 0, 0, 0, 0, 0, 0, 0, 0, 0, 0, 0x10, 1,
    0x52, 3, 0x0a, 1, 0x61, 0x52, 3, 0x0a, 1, 0x62]

theorem fieldArray_consistent_grown :
    (declaredMessage.init (fun _ => true) 1).1 = none ∧
      forall t, t ∈ MessageOp.states
          (declaredMessage.init (fun _ => true) 1).2
          [MessageOp.decode (fun _ => true) (Memory.ofList twoFieldsBytes) 0
            30, MessageOp.clear, MessageOp.free] ->
        t.Consistent := by
  refine ⟨by decide, (fieldArray_consistent_iff rfl (by decide) _).mpr ?_⟩
  refine ⟨Or.inr (fun j hj => ?_), trivial, trivial, trivial⟩
  have hlength : (lsbDecodeHekaMessage (Memory.ofList twoFieldsBytes) 0
      30).2.fields.length = 2 := by
    decide
  have hsize : (declaredMessage.init (fun _ => true) 1).2.fieldsSize = 1 := by
    decide
  rw [hlength, hsize] at hj
  have hj' : j = 0 := by omega
  subst hj'
  rw [hsize]
  decide

/-- The second field finds no memory, and the next message is decoded behind
the one element that there is. -/
theorem fieldArray_beyond :
    (1, 1) ∈ (MessageOp.run
        (MessageOp.run (declaredMessage.init (fun _ => true) 1).2
          (MessageOp.decode (fun _ => false) (Memory.ofList twoFieldsBytes) 0 30))
        (MessageOp.decode (fun _ => true) (Memory.ofList twoFieldsBytes) 0
          30)).touched ∧
      ¬ forall t, t ∈ MessageOp.states
          (declaredMessage.init (fun _ => true) 1).2
          [MessageOp.decode (fun _ => false) (Memory.ofList twoFieldsBytes) 0
            30] ->
        t.Consistent := by
  refine ⟨by decide, fun h => ?_⟩
  have hfailed := (h _ (List.mem_cons_of_mem _ List.mem_cons_self)).size_eq
  exact absurd hfailed (by decide)

end Util
end LuaSandbox
