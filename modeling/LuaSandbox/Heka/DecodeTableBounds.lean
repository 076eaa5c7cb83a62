import LuaSandbox.Heka.DecodeMessage
import LuaSandbox.Util.DecodeBounds

/-!
# The bounds of decoding to a table

The readers of the field values do not look for the end of the field record.
They stay inside it if and only if the values in it do.
-/

namespace LuaSandbox
namespace Heka

open Foundation
open Util

/-!
## Varints that are read up to a length
-/

/-- The varint at `p`, of which `len` bytes are looked at, ends in front of
`e`. -/
def VarintEnds (mem : Memory) (e len p : Nat) : Prop :=
  p + min len (varintSpan mem lsbMaxVarintBytes p) <= e

section

variable {mem : Memory} {e : Nat}

theorem readVarintLoopReads_span {n : Nat} :
    forall {p len : Nat}, readVarintLoopReads mem (p + len) n p =
      List.range' p (min len (varintSpan mem n p)) := by
  induction n with
  | zero =>
      intro p len
      rw [varintSpan, Nat.min_zero]
      rfl
  | succ n ih =>
      intro p len
      unfold readVarintLoopReads varintSpan
      cases len with
      | zero =>
          rw [if_pos (Nat.add_zero p).symm, Nat.zero_min]
          rfl
      | succ len =>
          rw [if_neg (by omega)]
          split
          · rw [Nat.min_eq_right (by omega)]
            rfl
          · have hend : p + (len + 1) = p + 1 + len := by omega
            rw [hend, ih, Nat.succ_min_succ]
            rfl

theorem readVarintReads_span (p len : Nat) :
    readVarintReads mem p (p + len) =
      List.range' p (min len (varintSpan mem lsbMaxVarintBytes p)) :=
  readVarintLoopReads_span

/-- Reading a varint stays in front of `e` if and only if it ends there. -/
theorem readVarintReads_lt_iff {p len : Nat} (hle : p <= e) :
    (forall a, a ∈ readVarintReads mem p (p + len) -> a < e) <->
      VarintEnds mem e len p := by
  rw [readVarintReads_span]
  unfold VarintEnds
  generalize min len (varintSpan mem lsbMaxVarintBytes p) = n
  constructor
  · intro hall
    by_contra hlong
    have hlast := hall (p + n - 1) (List.mem_range'_1.mpr (by omega))
    omega
  · intro hend a ha
    have hrange := List.mem_range'_1.mp ha
    omega

theorem readVarintReads_ge {p len a : Nat}
    (ha : a ∈ readVarintReads mem p (p + len)) : p <= a := by
  rw [readVarintReads_span] at ha
  exact (List.mem_range'_1.mp ha).1

theorem readVarintLoop_span {n : Nat} :
    forall {p e shift vi q v : Nat}, p <= e ->
      readVarintLoop mem e n p shift vi = some (q, v) ->
      q = p + varintSpan mem n p ∧ q <= e := by
  induction n with
  | zero =>
      intro p e shift vi q v _ h
      cases h
  | succ n ih =>
      intro p e shift vi q v hle h
      unfold readVarintLoop at h
      unfold varintSpan
      split at h
      · cases h
      rename_i hne
      split at h
      · rename_i hlast
        cases h
        rw [if_pos hlast]
        omega
      · rename_i hmore
        rw [if_neg hmore]
        have hrest := ih (by omega) h
        omega

/-- A varint that ends in front of `e` is followed by a position that is not
behind it. -/
theorem VarintEnds.next_le {p len q v : Nat} (h : VarintEnds mem e len p)
    (hread : lsbPbReadVarint mem p (p + len) = some (q, v)) :
    p < q ∧ q <= e := by
  have hspan : q = p + varintSpan mem lsbMaxVarintBytes p ∧ q <= p + len :=
    readVarintLoop_span (Nat.le_add_right p len) hread
  have hlt := readVarintLoop_lt hread
  unfold VarintEnds at h
  omega

/-!
## Values
-/

theorem readLength_bounds {p q len : Nat}
    (h : readLength mem p e = some (q, len)) : p < q ∧ q + len <= e := by
  unfold readLength at h
  split at h
  · cases h
  rename_i hvarint
  have hq := readVarintLoop_lt hvarint
  split at h
  · cases h
  · cases h
    omega

theorem readTableStringReads_bounds {wiretype p a : Nat} (hle : p <= e)
    (ha : a ∈ readTableStringReads mem wiretype p e) : p <= a ∧ a < e := by
  unfold readTableStringReads at ha
  split at ha
  · cases ha
  rcases List.mem_append.mp ha with hlength | hcontents
  · exact readVarintReads_bounds hle hlength
  · generalize hread : readLength mem p e = r at hcontents
    rcases r with _ | ⟨q, len⟩
    · cases hcontents
    · have hq := readLength_bounds hread
      have hrange := List.mem_range'_1.mp hcontents
      omega

/-- The varints of a packed value that reading gets to. -/
inductive VarintAt (mem : Memory) (e len : Nat) : Nat -> Nat -> Prop where
  | here {p : Nat} : VarintAt mem e len p p
  | later {p q v r : Nat}
      (hread : lsbPbReadVarint mem p (p + len) = some (q, v)) (hlt : q < e)
      (h : VarintAt mem e len q r) : VarintAt mem e len p r

theorem packedVarintsReads_ge {len n : Nat} :
    forall {p a : Nat}, a ∈ packedVarintsReads mem e len n p -> p <= a := by
  induction n with
  | zero =>
      intro p a ha
      cases ha
  | succ n ih =>
      intro p a ha
      unfold packedVarintsReads at ha
      rcases List.mem_append.mp ha with hfirst | hrest
      · exact readVarintReads_ge hfirst
      · generalize hread : lsbPbReadVarint mem p (p + len) = r at hrest
        rcases r with _ | ⟨q, v⟩
        · cases hrest
        · have hlt := readVarintLoop_lt hread
          dsimp only at hrest
          split at hrest
          · exact Nat.le_trans (Nat.le_of_lt hlt) (ih hrest)
          · cases hrest

theorem packedVarintsReads_lt_iff (mem : Memory) (len : Nat) {n : Nat} :
    forall {p : Nat}, p <= e -> e < p + n ->
      ((forall a, a ∈ packedVarintsReads mem e len n p -> a < e) <->
        forall r, VarintAt mem e len p r -> VarintEnds mem e len r) := by
  induction n with
  | zero =>
      intro p hle hlt
      omega
  | succ n ih =>
      intro p hle hlt
      unfold packedVarintsReads
      rw [List.forall_mem_append, readVarintReads_lt_iff hle]
      generalize hread : lsbPbReadVarint mem p (p + len) = x
      have hhere : (forall r, VarintAt mem e len p r ->
          VarintEnds mem e len r) -> VarintEnds mem e len p :=
        fun hall => hall p VarintAt.here
      rcases x with _ | ⟨q, v⟩
      · constructor
        · rintro ⟨hends, _⟩ r hr
          cases hr with
          | here => exact hends
          | later hread' => rw [hread] at hread'; cases hread'
        · exact fun hall => ⟨hhere hall, nofun⟩
      · have hq := readVarintLoop_lt hread
        dsimp only
        by_cases hend : q < e
        · rw [if_pos hend, ih (Nat.le_of_lt hend) (by omega)]
          constructor
          · rintro ⟨hends, hrest⟩ r hr
            cases hr with
            | here => exact hends
            | later hread' hlt' hr' =>
                rw [hread] at hread'
                cases hread'
                exact hrest r hr'
          · exact fun hall => ⟨hhere hall,
              fun r hr => hall r (VarintAt.later hread hend hr)⟩
        · rw [if_neg hend]
          constructor
          · rintro ⟨hends, _⟩ r hr
            cases hr with
            | here => exact hends
            | later hread' hlt' hr' =>
                rw [hread] at hread'
                cases hread'
                exact absurd hlt' hend
          · exact fun hall => ⟨hhere hall, nofun⟩

theorem packedDoublesReads_ge {n : Nat} :
    forall {p a : Nat}, a ∈ packedDoublesReads e n p -> p <= a := by
  induction n with
  | zero =>
      intro p a ha
      cases ha
  | succ n ih =>
      intro p a ha
      unfold packedDoublesReads at ha
      rcases List.mem_append.mp ha with hfirst | hrest
      · exact (List.mem_range'_1.mp hfirst).1
      · split at hrest
        · exact Nat.le_trans (Nat.le_add_right p 8) (ih hrest)
        · cases hrest

/-- Packed doubles fill the rest of the record. -/
theorem packedDoublesReads_lt_iff {n : Nat} :
    forall {p : Nat}, p <= e -> e < p + n ->
      ((forall a, a ∈ packedDoublesReads e n p -> a < e) <->
        p < e ∧ (e - p) % 8 = 0) := by
  induction n with
  | zero =>
      intro p hle hlt
      omega
  | succ n ih =>
      intro p hle hlt
      unfold packedDoublesReads
      rw [List.forall_mem_append]
      have hfirst : (forall a, a ∈ List.range' p 8 -> a < e) <->
          p + 8 <= e := by
        constructor
        · intro hall
          have hlast := hall (p + 7) (List.mem_range'_1.mpr (by omega))
          omega
        · intro hfit a ha
          have hrange := List.mem_range'_1.mp ha
          omega
      rw [hfirst]
      by_cases hend : p + 8 < e
      · rw [if_pos hend, ih (Nat.le_of_lt hend) (by omega)]
        omega
      · rw [if_neg hend]
        constructor
        · rintro ⟨hfit, _⟩
          omega
        · intro h
          exact ⟨by omega, nofun⟩

/-!
## Entries
-/

/-- The values of an integer or boolean entry end in front of `e`. -/
def VarintValuesFit (mem : Memory) (e len wiretype p : Nat) : Prop :=
  (wiretype = lsbPbWtVarint -> VarintEnds mem e len p) ∧
    (wiretype = lsbPbWtLength ->
      forall q n, readLength mem p e = some (q, n) ->
        forall r, VarintAt mem e n q r -> VarintEnds mem e n r)

/-- Packed doubles of a length that is accepted end with the record. -/
def DoubleValuesFit (mem : Memory) (e wiretype p : Nat) : Prop :=
  wiretype = lsbPbWtLength ->
    forall q n, readLength mem p e = some (q, n) -> n % 8 = 0 ->
      q < e ∧ (e - q) % 8 = 0

/-- The values of the entry at `p` end in front of `e`. -/
def EntryFits (mem : Memory) (e len p : Nat) : Prop :=
  let (q, tag, wiretype) := lsbPbReadKey mem p
  (tag = lsbPbValueInteger ∨ tag = lsbPbValueBool ->
      VarintValuesFit mem e len wiretype q) ∧
    (tag = lsbPbValueDouble -> DoubleValuesFit mem e wiretype q)

theorem readVarintValuesReads_ge {len wiretype p a : Nat} (hle : p <= e)
    (ha : a ∈ readVarintValuesReads mem e len wiretype p) : p <= a := by
  unfold readVarintValuesReads at ha
  split at ha
  · exact readVarintReads_ge ha
  split at ha
  · rcases List.mem_append.mp ha with hlength | hrest
    · exact (readVarintReads_bounds hle hlength).1
    · generalize hread : readLength mem p e = r at hrest
      rcases r with _ | ⟨q, n⟩
      · cases hrest
      · have hq := readLength_bounds hread
        exact Nat.le_trans (Nat.le_of_lt hq.1) (packedVarintsReads_ge hrest)
  · cases ha

theorem readVarintValuesReads_lt_iff {len wiretype p : Nat} (hle : p <= e) :
    (forall a, a ∈ readVarintValuesReads mem e len wiretype p -> a < e) <->
      VarintValuesFit mem e len wiretype p := by
  unfold readVarintValuesReads VarintValuesFit
  by_cases hvarint : wiretype = lsbPbWtVarint
  · rw [if_pos hvarint, readVarintReads_lt_iff hle]
    subst hvarint
    exact ⟨fun h => ⟨fun _ => h, nofun⟩, fun h => h.1 rfl⟩
  rw [if_neg hvarint]
  by_cases hlength : wiretype = lsbPbWtLength
  · rw [if_pos hlength, List.forall_mem_append]
    have hfirst : forall a, a ∈ readVarintReads mem p e -> a < e :=
      fun a ha => (readVarintReads_bounds hle ha).2
    generalize hread : readLength mem p e = x
    rcases x with _ | ⟨q, n⟩
    · exact ⟨fun _ => ⟨fun h => absurd h hvarint, fun _ q n => nofun⟩,
        fun _ => ⟨hfirst, nofun⟩⟩
    · have hq := readLength_bounds hread
      have hpacked := packedVarintsReads_lt_iff mem n
        (show q <= e by omega) (show e < q + (e - q + 1) by omega)
      dsimp only
      rw [hpacked]
      constructor
      · rintro ⟨_, hfit⟩
        refine ⟨fun h => absurd h hvarint, fun _ q' n' hsome => ?_⟩
        cases hsome
        exact hfit
      · rintro ⟨_, hfit⟩
        exact ⟨hfirst, hfit hlength q n rfl⟩
  · rw [if_neg hlength]
    exact ⟨fun _ => ⟨fun h => absurd h hvarint, fun h => absurd h hlength⟩,
      fun _ => nofun⟩

theorem readDoubleValuesReads_ge {wiretype p a : Nat} (hle : p <= e)
    (ha : a ∈ readDoubleValuesReads mem e wiretype p) : p <= a := by
  unfold readDoubleValuesReads at ha
  split at ha
  · split at ha
    · cases ha
    · exact (List.mem_range'_1.mp ha).1
  split at ha
  · rcases List.mem_append.mp ha with hlength | hrest
    · exact (readVarintReads_bounds hle hlength).1
    · generalize hread : readLength mem p e = r at hrest
      rcases r with _ | ⟨q, n⟩
      · cases hrest
      · have hq := readLength_bounds hread
        dsimp only at hrest
        split at hrest
        · cases hrest
        · exact Nat.le_trans (Nat.le_of_lt hq.1)
            (packedDoublesReads_ge hrest)
  · cases ha

theorem readDoubleValuesReads_lt_iff {wiretype p : Nat} (hle : p <= e) :
    (forall a, a ∈ readDoubleValuesReads mem e wiretype p -> a < e) <->
      DoubleValuesFit mem e wiretype p := by
  unfold readDoubleValuesReads DoubleValuesFit
  by_cases hfixed : wiretype = lsbPbWtFixed64
  · rw [if_pos hfixed]
    subst hfixed
    refine ⟨fun _ => nofun, fun _ a ha => ?_⟩
    split at ha
    · cases ha
    · have hrange := List.mem_range'_1.mp ha
      omega
  rw [if_neg hfixed]
  by_cases hlength : wiretype = lsbPbWtLength
  · rw [if_pos hlength, List.forall_mem_append]
    have hfirst : forall a, a ∈ readVarintReads mem p e -> a < e :=
      fun a ha => (readVarintReads_bounds hle ha).2
    generalize hread : readLength mem p e = x
    rcases x with _ | ⟨q, n⟩
    · exact ⟨fun _ _ q n => nofun, fun _ => ⟨hfirst, nofun⟩⟩
    · have hq := readLength_bounds hread
      dsimp only
      by_cases hwhole : n % 8 = 0
      · have hpacked := packedDoublesReads_lt_iff
          (show q <= e by omega) (show e < q + (e - q + 1) by omega)
        rw [if_neg (not_not.mpr hwhole), hpacked]
        constructor
        · rintro ⟨_, hfit⟩ _ q' n' hsome _
          cases hsome
          exact hfit
        · exact fun hfit => ⟨hfirst, hfit hlength q n rfl hwhole⟩
      · rw [if_pos hwhole]
        constructor
        · rintro _ _ q' n' hsome hwhole'
          cases hsome
          exact absurd hwhole' hwhole
        · exact fun _ => ⟨hfirst, nofun⟩
  · rw [if_neg hlength]
    exact ⟨fun _ h => absurd h hlength, fun _ => nofun⟩

theorem processTableEntryReads_ge {len p a : Nat} (hlt : p < e)
    (ha : a ∈ processTableEntryReads mem e len p) : p <= a := by
  unfold processTableEntryReads lsbPbReadKey at ha
  dsimp only at ha
  rcases List.mem_cons.mp ha with rfl | hrest
  · exact Nat.le_refl _
  refine Nat.le_of_succ_le ?_
  split at hrest
  · exact (readTableStringReads_bounds hlt hrest).1
  split at hrest
  · exact (processVarintReads_bounds hlt hrest).1
  split at hrest
  · exact readVarintValuesReads_ge hlt hrest
  split at hrest
  · exact readDoubleValuesReads_ge hlt hrest
  · cases hrest

theorem processTableEntryReads_lt_iff {len p : Nat} (hlt : p < e) :
    (forall a, a ∈ processTableEntryReads mem e len p -> a < e) <->
      EntryFits mem e len p := by
  unfold processTableEntryReads EntryFits lsbPbReadKey
  dsimp only
  generalize (mem p).toNat >>> 3 = tag
  generalize (mem p).toNat &&& 7 = wiretype
  rw [List.forall_mem_cons]
  by_cases hstring : tag = lsbPbName ∨ tag = lsbPbRepresentation ∨
      tag = lsbPbValueString ∨ tag = lsbPbValueBytes
  · rw [if_pos hstring]
    refine ⟨fun _ => ?_, fun _ => ⟨hlt, fun a ha =>
      (readTableStringReads_bounds hlt ha).2⟩⟩
    rcases hstring with rfl | rfl | rfl | rfl
    · exact ⟨nofun, nofun⟩
    · exact ⟨nofun, nofun⟩
    · exact ⟨nofun, nofun⟩
    · exact ⟨nofun, nofun⟩
  rw [if_neg hstring]
  by_cases htype : tag = lsbPbValueType
  · rw [if_pos htype]
    subst htype
    exact ⟨fun _ => ⟨nofun, nofun⟩, fun _ => ⟨hlt, fun a ha =>
      (processVarintReads_bounds hlt ha).2⟩⟩
  rw [if_neg htype]
  by_cases hvarint : tag = lsbPbValueInteger ∨ tag = lsbPbValueBool
  · rw [if_pos hvarint, readVarintValuesReads_lt_iff hlt]
    constructor
    · rintro ⟨_, hfit⟩
      refine ⟨fun _ => hfit, fun hdouble => ?_⟩
      subst hdouble
      exact absurd hvarint (by decide)
    · exact fun h => ⟨hlt, h.1 hvarint⟩
  rw [if_neg hvarint]
  by_cases hdouble : tag = lsbPbValueDouble
  · rw [if_pos hdouble, readDoubleValuesReads_lt_iff hlt]
    exact ⟨fun h => ⟨fun hv => absurd hv hvarint, fun _ => h.2⟩,
      fun h => ⟨hlt, h.2 hdouble⟩⟩
  · rw [if_neg hdouble]
    exact ⟨fun _ => ⟨fun hv => absurd hv hvarint, fun hd => absurd hd hdouble⟩,
      fun _ => ⟨hlt, nofun⟩⟩

/-!
## Positions
-/

theorem packedVarints_position {value : Nat -> TableValue} {len n : Nat} :
    forall {p q : Nat} {values : List TableValue},
      packedVarints mem e len value n p = some (q, values) -> p < q := by
  induction n with
  | zero =>
      intro p q values h
      cases h
  | succ n ih =>
      intro p q values h
      unfold packedVarints at h
      split at h
      · cases h
      rename_i hread
      have hlt := readVarintLoop_lt hread
      split at h
      · split at h
        · cases h
        · rename_i hrest
          have hq := ih hrest
          cases h
          omega
      · cases h
        exact hlt

theorem packedDoubles_position {n : Nat} :
    forall {p q : Nat} {values : List TableValue},
      packedDoubles mem e n p = some (q, values) -> p < q := by
  induction n with
  | zero =>
      intro p q values h
      cases h
  | succ n ih =>
      intro p q values h
      unfold packedDoubles at h
      split at h
      · split at h
        · cases h
        · rename_i hrest
          have hq := ih hrest
          cases h
          omega
      · cases h
        omega

/-- Where the entry at `p` ends, and what the variable `len` holds then. -/
def entryNext (mem : Memory) (e len p : Nat) : Option (Nat × Nat) :=
  (processTableEntry mem e ⟨TableField.empty, len⟩ p).map
    fun r => (r.1, r.2.len)

/-- The end does not depend on the values before. -/
theorem processTableEntry_next (mem : Memory) (e : Nat) (st : FieldState) (p : Nat) :
    (processTableEntry mem e st p).map (fun r => (r.1, r.2.len)) =
      entryNext mem e st.len p := by
  rcases st with ⟨field, len⟩
  unfold entryNext processTableEntry
  generalize lsbPbReadKey mem p = key
  rcases key with ⟨q, tag, wiretype⟩
  dsimp only
  generalize readTableString mem wiretype q e = string
  generalize processTableVarint mem wiretype q e = varint
  generalize readVarintValues mem e len integerValue wiretype q = integers
  generalize readVarintValues mem e len booleanValue wiretype q = booleans
  generalize readDoubleValues mem e len wiretype q = doubles
  have hite : forall (c : Prop) [Decidable c]
      (a b a' b' : Option (Nat × FieldState))
      (f : Nat × FieldState -> Nat × Nat), a.map f = a'.map f ->
      b.map f = b'.map f ->
      (if c then a else b).map f = (if c then a' else b').map f := by
    intro c _ a b a' b' f ha hb
    split
    · exact ha
    · exact hb
  repeat' apply hite
  · cases string <;> rfl
  · cases varint <;> rfl
  · cases string <;> rfl
  · cases string <;> rfl
  · cases integers <;> rfl
  · cases doubles <;> rfl
  · cases booleans <;> rfl
  · rfl

theorem readTableString_bounds {wiretype p q : Nat} {s : List UInt8}
    (h : readTableString mem wiretype p e = some (q, s)) :
    p < q ∧ q <= e := by
  unfold readTableString at h
  split at h
  · cases h
  split at h
  · cases h
  · rename_i hread
    have hq := readLength_bounds hread
    cases h
    omega

theorem processTableVarint_bounds {wiretype p q : Nat} {d : Double}
    (h : processTableVarint mem wiretype p e = some (q, d)) :
    p < q ∧ (p <= e -> q <= e) := by
  unfold processTableVarint at h
  split at h
  · cases h
  split at h
  · cases h
  · rename_i hread
    have hq := lsbPbReadVarint_bounds hread
    have hlt := readVarintLoop_lt hread
    cases h
    exact ⟨hlt, fun hle => (hq hle).2.1⟩

theorem packedVarints_end {value : Nat -> TableValue} {len n : Nat} :
    forall {p q : Nat} {values : List TableValue},
      (forall r, VarintAt mem e len p r -> VarintEnds mem e len r) ->
      packedVarints mem e len value n p = some (q, values) -> q <= e := by
  induction n with
  | zero =>
      intro p q values _ h
      cases h
  | succ n ih =>
      intro p q values hfit h
      unfold packedVarints at h
      split at h
      · cases h
      rename_i hread
      have hnext := (hfit p VarintAt.here).next_le hread
      split at h
      · rename_i hlt
        split at h
        · cases h
        · rename_i hrest
          have hq := ih (fun r hr => hfit r (VarintAt.later hread hlt hr)) hrest
          cases h
          exact hq
      · cases h
        exact hnext.2

theorem packedDoubles_end {n : Nat} :
    forall {p q : Nat} {values : List TableValue},
      p < e -> (e - p) % 8 = 0 ->
      packedDoubles mem e n p = some (q, values) -> q <= e := by
  induction n with
  | zero =>
      intro p q values _ _ h
      cases h
  | succ n ih =>
      intro p q values hlt hwhole h
      unfold packedDoubles at h
      split at h
      · split at h
        · cases h
        · rename_i hrest
          have hq := ih (by omega) (by omega) hrest
          cases h
          exact hq
      · cases h
        omega

theorem readVarintValues_bounds {value : Nat -> TableValue}
    {len wiretype p q len' : Nat} {values : List TableValue}
    (h : readVarintValues mem e len value wiretype p =
      some (q, values, len')) :
    p < q ∧ (VarintValuesFit mem e len wiretype p -> q <= e) := by
  unfold readVarintValues at h
  split at h
  · rename_i hvarint
    split at h
    · cases h
    · rename_i hread
      cases h
      exact ⟨readVarintLoop_lt hread,
        fun hfit => ((hfit.1 hvarint).next_le hread).2⟩
  split at h
  · rename_i hlength
    split at h
    · cases h
    rename_i hread
    have hq := readLength_bounds hread
    split at h
    · cases h
    · rename_i hpacked
      cases h
      exact ⟨Nat.lt_trans hq.1 (packedVarints_position hpacked),
        fun hfit => packedVarints_end (hfit.2 hlength _ _ hread) hpacked⟩
  · cases h

theorem readDoubleValues_bounds {len wiretype p q len' : Nat}
    {values : List TableValue}
    (h : readDoubleValues mem e len wiretype p = some (q, values, len')) :
    p < q ∧ (DoubleValuesFit mem e wiretype p -> q <= e) := by
  unfold readDoubleValues at h
  split at h
  · split at h
    · cases h
    · cases h
      omega
  split at h
  · rename_i hlength
    split at h
    · cases h
    rename_i hread
    have hq := readLength_bounds hread
    split at h
    · cases h
    rename_i hwhole
    split at h
    · cases h
    · rename_i hpacked
      cases h
      refine ⟨Nat.lt_trans hq.1 (packedDoubles_position hpacked),
        fun hfit => ?_⟩
      have hfill := hfit hlength _ _ hread (not_not.mp hwhole)
      exact packedDoubles_end hfill.1 hfill.2 hpacked
  · cases h

theorem values_of_append {st st' : FieldState} {q : Nat}
    {x : Option (Nat × List TableValue × Nat)}
    (h : (match x with
      | none => none
      | some (p, values, len) => some (p, st.append values len)) =
        some (q, st')) :
    exists values len, x = some (q, values, len) := by
  rcases x with _ | ⟨r, values, len⟩
  · cases h
  · cases h
    exact ⟨values, len, rfl⟩

/-- An entry takes at least one byte, and ends in front of `e` if its values
do. -/
theorem processTableEntry_bounds {st st' : FieldState} {p q : Nat}
    (h : processTableEntry mem e st p = some (q, st')) :
    p < q ∧ (p < e -> EntryFits mem e st.len p -> q <= e) := by
  have hbehind : forall {k tag wiretype : Nat},
      lsbPbReadKey mem p = (k, tag, wiretype) -> k = p + 1 :=
    lsbPbReadKey_next
  have hinside : forall {r : Nat} {st'' : FieldState},
      p + 1 < r ∧ (p < e -> r <= e) -> some (r, st'') = some (q, st') ->
      p < q ∧ (p < e -> EntryFits mem e st.len p -> q <= e) := by
    intro r st'' hr h
    cases h
    exact ⟨Nat.lt_of_succ_lt hr.1, fun hlt _ => hr.2 hlt⟩
  revert h
  fun_cases processTableEntry mem e st p with
  | case1 | case3 | case5 | case7 | case12 => nofun
  | case2 k w r s hread hkey | case6 k w r s hread hkey =>
      cases hbehind hkey
      have hr := readTableString_bounds hread
      exact hinside ⟨hr.1, fun _ => hr.2⟩
  | case4 k w r d hread hkey =>
      cases hbehind hkey
      exact hinside (processTableVarint_bounds hread)
  | case8 k tag w hkey _ _ _ _ r s hread =>
      cases hbehind hkey
      have hr := readTableString_bounds hread
      exact hinside ⟨hr.1, fun _ => hr.2⟩
  | case9 k w values hkey =>
      cases hbehind hkey
      unfold EntryFits
      rw [hkey]
      intro h
      rcases values_of_append h with ⟨_, _, hread⟩
      have hr := readVarintValues_bounds hread
      exact ⟨Nat.lt_of_succ_lt hr.1,
        fun _ hfit => hr.2 (hfit.1 (Or.inl rfl))⟩
  | case10 k w values hkey =>
      cases hbehind hkey
      unfold EntryFits
      rw [hkey]
      intro h
      rcases values_of_append h with ⟨_, _, hread⟩
      have hr := readDoubleValues_bounds hread
      exact ⟨Nat.lt_of_succ_lt hr.1, fun _ hfit => hr.2 (hfit.2 rfl)⟩
  | case11 k w values hkey =>
      cases hbehind hkey
      unfold EntryFits
      rw [hkey]
      intro h
      rcases values_of_append h with ⟨_, _, hread⟩
      have hr := readVarintValues_bounds hread
      exact ⟨Nat.lt_of_succ_lt hr.1,
        fun _ hfit => hr.2 (hfit.1 (Or.inr rfl))⟩

/-!
## Field records
-/

/-- The entries of a field record that decoding gets to, and what the variable
`len` holds there. -/
inductive EntryAt (mem : Memory) (e : Nat) : Nat -> Nat -> Nat -> Nat -> Prop
    where
  | here {len p : Nat} : EntryAt mem e len p len p
  | later {len p len' q l r : Nat}
      (hnext : entryNext mem e len p = some (q, len')) (hlt : q < e)
      (h : EntryAt mem e len' q l r) : EntryAt mem e len p l r

/-- The record has an entry, and the values of each one end in front of `e`. -/
def FieldsFit (mem : Memory) (e len p : Nat) : Prop :=
  p < e ∧ forall l r, EntryAt mem e len p l r -> EntryFits mem e l r

theorem fieldsFit_end {len p : Nat} (h : entryNext mem e len p = none) :
    FieldsFit mem e len p <-> p < e ∧ EntryFits mem e len p := by
  constructor
  · exact fun hfit => ⟨hfit.1, hfit.2 len p EntryAt.here⟩
  · rintro ⟨hlt, hfit⟩
    refine ⟨hlt, fun l r hr => ?_⟩
    cases hr with
    | here => exact hfit
    | later hnext _ _ =>
        rw [h] at hnext
        cases hnext

theorem fieldsFit_next {len p q len' : Nat}
    (h : entryNext mem e len p = some (q, len')) :
    FieldsFit mem e len p <->
      (p < e ∧ EntryFits mem e len p) ∧
        (q < e -> FieldsFit mem e len' q) := by
  constructor
  · rintro ⟨hlt, hfit⟩
    exact ⟨⟨hlt, hfit len p EntryAt.here⟩, fun hq => ⟨hq,
      fun l r hr => hfit l r (EntryAt.later h hq hr)⟩⟩
  · rintro ⟨⟨hlt, hfirst⟩, hrest⟩
    refine ⟨hlt, fun l r hr => ?_⟩
    cases hr with
    | here => exact hfirst
    | later hnext hq hr =>
        rw [h] at hnext
        cases hnext
        exact (hrest hq).2 l r hr

theorem processTableLoopReads_ge {n : Nat} :
    forall {st : FieldState} {p a : Nat}, p < e ->
      a ∈ processTableLoopReads mem e n st p -> p <= a := by
  induction n with
  | zero =>
      intro st p a _ ha
      cases ha
  | succ n ih =>
      intro st p a hlt ha
      unfold processTableLoopReads at ha
      rcases List.mem_append.mp ha with hfirst | hrest
      · exact processTableEntryReads_ge hlt hfirst
      generalize hentry : processTableEntry mem e st p = x at hrest
      rcases x with _ | ⟨q, st'⟩
      · cases hrest
      · have hq := processTableEntry_bounds hentry
        dsimp only at hrest
        split at hrest
        · rename_i hlt'
          exact Nat.le_trans (Nat.le_of_lt hq.1) (ih hlt' hrest)
        · cases hrest

/-- The loop over the entries reads in front of `e` if and only if the record
fits. -/
theorem processTableLoopReads_lt_iff {n : Nat} :
    forall {st : FieldState} {p : Nat}, p <= e -> e < p + n ->
      ((forall a, a ∈ processTableLoopReads mem e n st p -> a < e) <->
        FieldsFit mem e st.len p) := by
  induction n with
  | zero =>
      intro st p hle hfuel
      omega
  | succ n ih =>
      intro st p hle hfuel
      have hfirst : (forall a, a ∈ processTableEntryReads mem e st.len p ->
          a < e) <-> p < e ∧ EntryFits mem e st.len p := by
        by_cases hlt : p < e
        · rw [processTableEntryReads_lt_iff hlt]
          exact ⟨fun h => ⟨hlt, h⟩, fun h => h.2⟩
        · exact ⟨fun h => absurd (h p List.mem_cons_self) hlt,
            fun h => absurd h.1 hlt⟩
      have hend := processTableEntry_next mem e st p
      unfold processTableLoopReads
      rw [List.forall_mem_append, hfirst]
      generalize hentry : processTableEntry mem e st p = x at hend
      rcases x with _ | ⟨q, st'⟩
      · rw [fieldsFit_end hend.symm]
        exact ⟨fun h => h.1, fun h => ⟨h, nofun⟩⟩
      · rw [fieldsFit_next hend.symm]
        dsimp only
        constructor
        · rintro ⟨hfit, hrest⟩
          have hq := processTableEntry_bounds hentry
          refine ⟨hfit, fun hlt => ?_⟩
          rw [if_pos hlt] at hrest
          exact (ih (Nat.le_of_lt hlt) (by omega)).mp hrest
        · rintro ⟨hfit, hrest⟩
          have hq := processTableEntry_bounds hentry
          refine ⟨hfit, ?_⟩
          split
          · rename_i hlt
            exact (ih (Nat.le_of_lt hlt) (by omega)).mpr (hrest hlt)
          · nofun

theorem processTableLoop_position {n : Nat} :
    forall {st st' : FieldState} {p q : Nat},
      processTableLoop mem e n st p = some (q, st') -> p < q := by
  induction n with
  | zero =>
      intro st st' p q h
      cases h
  | succ n ih =>
      intro st st' p q h
      unfold processTableLoop at h
      split at h
      · cases h
      rename_i hentry
      have hr := processTableEntry_bounds hentry
      split at h
      · exact Nat.lt_trans hr.1 (ih h)
      · cases h
        exact hr.1

/-- With fuel for every byte in front of `e`, more makes no difference. -/
theorem processTableLoop_fuel {n : Nat} :
    forall {st : FieldState} {p : Nat} (k : Nat), p <= e -> e < p + n ->
      processTableLoop mem e (n + k) st p = processTableLoop mem e n st p ∧
        processTableLoopReads mem e (n + k) st p =
          processTableLoopReads mem e n st p := by
  induction n with
  | zero =>
      intro st p k hle hfuel
      omega
  | succ n ih =>
      intro st p k hle hfuel
      rw [Nat.add_right_comm n 1 k]
      unfold processTableLoop processTableLoopReads
      generalize hentry : processTableEntry mem e st p = x
      rcases x with _ | ⟨q, st'⟩
      · exact ⟨rfl, rfl⟩
      · have hq := processTableEntry_bounds hentry
        dsimp only
        by_cases hlt : q < e
        · have hrest := @ih st' q k (Nat.le_of_lt hlt) (by omega)
          rw [if_pos hlt, if_pos hlt, if_pos hlt, if_pos hlt, hrest.1, hrest.2]
          exact ⟨rfl, rfl⟩
        · rw [if_neg hlt, if_neg hlt, if_neg hlt, if_neg hlt]
          exact ⟨rfl, rfl⟩

theorem processTableFields_position {p q : Nat} {f : TableField}
    (h : processTableFields mem p e = some (q, f)) : p < q := by
  unfold processTableFields at h
  split at h
  · cases h
  rename_i hread
  have hr := readLength_bounds hread
  split at h
  · cases h
  rename_i hloop
  have hq := processTableLoop_position hloop
  split at h
  · cases h
  · cases h
    exact Nat.lt_trans hr.1 hq

/-!
## Records
-/

/-- The record at `c` is a field record; its `n` bytes start at `q`. -/
def FieldsAt (mem : Memory) (e c q n : Nat) : Prop :=
  lsbPbReadKey mem c = (c + 1, lsbPbFields, lsbPbWtLength) ∧
    readLength mem (c + 1) e = some (q, n)

/-- The addresses that are read for the entries of a field record. -/
def fieldsReads (mem : Memory) (q n : Nat) : List Nat :=
  processTableLoopReads mem (q + n) (n + 1) ⟨TableField.empty, n⟩ q

theorem fieldsReads_iff {q n : Nat} :
    (forall a, a ∈ fieldsReads mem q n -> q <= a ∧ a < q + n) <->
      FieldsFit mem (q + n) n q := by
  have hiff : (forall a, a ∈ fieldsReads mem q n -> a < q + n) <->
      FieldsFit mem (q + n) n q :=
    processTableLoopReads_lt_iff (Nat.le_add_right q n) (by omega)
  rw [<- hiff]
  constructor
  · exact fun h a ha => (h a ha).2
  · intro h a ha
    refine ⟨?_, h a ha⟩
    exact processTableLoopReads_ge (hiff.mp h).1 ha

theorem decodeTableRecordReads_fields {c q n : Nat}
    (h : FieldsAt mem e c q n) :
    decodeTableRecordReads mem e c =
      c :: (readVarintReads mem (c + 1) e ++ fieldsReads mem q n) := by
  rcases h with ⟨hkey, hlength⟩
  unfold decodeTableRecordReads
  rw [hkey]
  change c :: processTableFieldsReads mem (c + 1) e = _
  unfold processTableFieldsReads
  rw [hlength]
  rfl

/-- The records of a message that ends at `e` read in front of it if their
entries do. -/
theorem decodeTableRecordReads_bounds {c a : Nat} (hlt : c < e)
    (hfit : forall q n, FieldsAt mem e c q n -> FieldsFit mem (q + n) n q)
    (ha : a ∈ decodeTableRecordReads mem e c) : c <= a ∧ a < e := by
  by_cases hfields : exists q n, FieldsAt mem e c q n
  · rcases hfields with ⟨q, n, hq⟩
    have hbounds := readLength_bounds hq.2
    rw [decodeTableRecordReads_fields hq] at ha
    rcases List.mem_cons.mp ha with rfl | hrest
    · omega
    rcases List.mem_append.mp hrest with hlength | hentries
    · have hrange := readVarintReads_bounds hlt hlength
      omega
    · have hrange := fieldsReads_iff.mpr (hfit q n hq) a hentries
      omega
  · generalize hkey : lsbPbReadKey mem c = key
    rcases key with ⟨k, tag, wiretype⟩
    have hk := lsbPbReadKey_next hkey
    subst hk
    unfold decodeTableRecordReads at ha
    rw [hkey] at ha
    dsimp only at ha
    rcases List.mem_cons.mp ha with rfl | hrest
    · omega
    have hbehind : c + 1 <= a ∧ a < e := by
      split at hrest
      · exact readTableStringReads_bounds hlt hrest
      split at hrest
      · exact processVarintReads_bounds hlt hrest
      split at hrest
      · rename_i hlength
        rcases hlength with ⟨rfl, rfl⟩
        unfold processTableFieldsReads at hrest
        generalize hread : readLength mem (c + 1) e = r at hrest
        rcases r with _ | ⟨q, n⟩
        · exact readVarintReads_bounds hlt (List.append_nil _ ▸ hrest)
        · exact absurd ⟨q, n, hkey, hread⟩ hfields
      · cases hrest
    omega

/-- Where the record at `c` ends, if it is accepted. -/
def tableRecordEnd (mem : Memory) (e c : Nat) : Option Nat :=
  let (q, tag, wiretype) := lsbPbReadKey mem c
  if tag = lsbPbUuid then
    match readTableString mem wiretype q e with
    | none => none
    | some (q, _) => if q - c = 18 then some q else none
  else if tag = lsbPbType ∨ tag = lsbPbLogger ∨ tag = lsbPbPayload ∨
      tag = lsbPbEnvVersion ∨ tag = lsbPbHostname then
    (readTableString mem wiretype q e).map Prod.fst
  else if tag = lsbPbTimestamp ∨ tag = lsbPbSeverity ∨ tag = lsbPbPid then
    (processTableVarint mem wiretype q e).map Prod.fst
  else if tag = lsbPbFields ∧ wiretype = lsbPbWtLength then
    (processTableFields mem q e).map Prod.fst
  else
    none

/-- The end does not depend on what was decoded before. -/
theorem decodeTableRecord_end (mem : Memory) (e : Nat) (t : MessageTable)
    (c : Nat) :
    (decodeTableRecord mem e t c).map Prod.fst = tableRecordEnd mem e c := by
  unfold decodeTableRecord tableRecordEnd
  generalize lsbPbReadKey mem c = key
  rcases key with ⟨q, tag, wiretype⟩
  dsimp only
  generalize readTableString mem wiretype q e = string
  generalize processTableVarint mem wiretype q e = varint
  generalize processTableFields mem q e = field
  by_cases hstring : tag = lsbPbType ∨ tag = lsbPbLogger ∨
      tag = lsbPbPayload ∨ tag = lsbPbEnvVersion ∨ tag = lsbPbHostname
  · rcases hstring with rfl | rfl | rfl | rfl | rfl <;> cases string <;> rfl
  by_cases hvarint : tag = lsbPbTimestamp ∨ tag = lsbPbSeverity ∨
      tag = lsbPbPid
  · rcases hvarint with rfl | rfl | rfl <;> cases varint <;> rfl
  by_cases huuid : tag = lsbPbUuid
  · subst huuid
    rw [if_pos rfl, if_pos rfl]
    rcases string with _ | ⟨r, s⟩
    · rfl
    · dsimp only
      split
      · rfl
      · rfl
  rw [if_neg huuid, if_neg hstring, if_neg hvarint]
  simp only [not_or] at hstring hvarint
  simp only [huuid, hstring, hvarint, if_false]
  by_cases hfields : tag = lsbPbFields
  · by_cases hwiretype : wiretype = lsbPbWtLength
    · have hboth : tag = lsbPbFields ∧ wiretype = lsbPbWtLength :=
        ⟨hfields, hwiretype⟩
      rw [if_pos hfields, if_pos hboth, if_neg (not_not.mpr hwiretype)]
      cases field <;> rfl
    · have hboth : ¬ (tag = lsbPbFields ∧ wiretype = lsbPbWtLength) :=
        fun h => hwiretype h.2
      rw [if_pos hfields, if_neg hboth, if_pos hwiretype]
      rfl
  · have hboth : ¬ (tag = lsbPbFields ∧ wiretype = lsbPbWtLength) :=
      fun h => hfields h.1
    rw [if_neg hfields, if_neg hboth]
    rfl

/-- Every record takes at least one byte. -/
theorem tableRecordEnd_position {c r : Nat}
    (h : tableRecordEnd mem e c = some r) : c < r := by
  unfold tableRecordEnd at h
  generalize hkey : lsbPbReadKey mem c = key at h
  rcases key with ⟨q, tag, wiretype⟩
  have hnext := lsbPbReadKey_next hkey
  subst hnext
  dsimp only at h
  split at h
  · split at h
    · cases h
    · rename_i hread
      have hr := readTableString_bounds hread
      split at h
      · cases h
        exact Nat.lt_of_succ_lt hr.1
      · cases h
  split at h
  · rcases Option.map_eq_some_iff.mp h with ⟨⟨p, s⟩, hread, rfl⟩
    exact Nat.lt_of_succ_lt (readTableString_bounds hread).1
  split at h
  · rcases Option.map_eq_some_iff.mp h with ⟨⟨p, d⟩, hread, rfl⟩
    exact Nat.lt_of_succ_lt (processTableVarint_bounds hread).1
  split at h
  · rcases Option.map_eq_some_iff.mp h with ⟨⟨p, f⟩, hread, rfl⟩
    exact Nat.lt_of_succ_lt (processTableFields_position hread)
  · cases h

/-- The records that decoding gets to from the one at the first address. -/
inductive TableRecordAt (mem : Memory) (e : Nat) : Nat -> Nat -> Prop where
  | here {c : Nat} : TableRecordAt mem e c c
  | later {c q d : Nat} (hend : tableRecordEnd mem e c = some q) (hlt : q < e)
      (h : TableRecordAt mem e q d) : TableRecordAt mem e c d

/-- The field records from `c` on fit. -/
def TableRecordsFit (mem : Memory) (e c : Nat) : Prop :=
  forall d q n, TableRecordAt mem e c d -> FieldsAt mem e d q n ->
    FieldsFit mem (q + n) n q

theorem decodeTableLoopReads_bounds {n : Nat} :
    forall {t : MessageTable} {c : Nat}, c < e -> TableRecordsFit mem e c ->
      forall a, a ∈ decodeTableLoopReads mem e n t c -> c <= a ∧ a < e := by
  induction n with
  | zero =>
      intro t c _ _ a ha
      cases ha
  | succ n ih =>
      intro t c hlt hfit a ha
      have hend := decodeTableRecord_end mem e t c
      unfold decodeTableLoopReads at ha
      rcases List.mem_append.mp ha with hfirst | hrest
      · exact decodeTableRecordReads_bounds hlt
          (fun q n hq => hfit c q n TableRecordAt.here hq) hfirst
      generalize decodeTableRecord mem e t c = x at hend hrest
      rcases x with _ | ⟨r, t'⟩
      · cases hrest
      · have hr := tableRecordEnd_position hend.symm
        dsimp only at hrest
        split at hrest
        · rename_i hlt'
          have hlater := ih hlt' (fun d q n hd hq =>
            hfit d q n (TableRecordAt.later hend.symm hlt' hd) hq) a hrest
          omega
        · cases hrest

/-- With fuel for every byte in front of `e`, more makes no difference. -/
theorem decodeTableLoop_fuel {pbstr n : Nat} :
    forall {t : MessageTable} {c : Nat} (k : Nat), c < e -> e <= c + n ->
      decodeTableLoop mem pbstr e (n + k) t c =
          decodeTableLoop mem pbstr e n t c ∧
        decodeTableLoopReads mem e (n + k) t c =
          decodeTableLoopReads mem e n t c := by
  induction n with
  | zero =>
      intro t c k hlt hfuel
      omega
  | succ n ih =>
      intro t c k hlt hfuel
      have hend := decodeTableRecord_end mem e t c
      rw [Nat.add_right_comm n 1 k]
      unfold decodeTableLoop decodeTableLoopReads
      generalize decodeTableRecord mem e t c = x at hend
      rcases x with _ | ⟨r, t'⟩
      · exact ⟨rfl, rfl⟩
      · have hr := tableRecordEnd_position hend.symm
        dsimp only
        by_cases hlt' : r < e
        · have hrest := ih (t := t') k hlt' (by omega)
          rw [if_pos hlt', if_pos hlt', if_pos hlt', if_pos hlt', hrest.1,
            hrest.2]
          exact ⟨rfl, rfl⟩
        · rw [if_neg hlt', if_neg hlt', if_neg hlt', if_neg hlt']
          exact ⟨rfl, rfl⟩

end

/-- Decoding the `len` bytes at `pbstr` reads no others, and the entries of a
field record are read inside it. -/
structure TableDecodesInBounds (mem : Memory) (pbstr len : Nat) : Prop where
  reads : forall a, a ∈ hekaDecodeMessageReads mem pbstr len ->
    pbstr <= a ∧ a < pbstr + len
  fields : 20 <= len -> forall c q n,
    TableRecordAt mem (pbstr + len) pbstr c ->
      FieldsAt mem (pbstr + len) c q n ->
      forall a, a ∈ fieldsReads mem q n -> q <= a ∧ a < q + n

/--
Decoding to a table stays inside its input and inside the field records if and
only if the values of every field record fit.
-/
theorem hekaDecodeMessage_inBounds_iff (mem : Memory) (pbstr len : Nat) :
    TableDecodesInBounds mem pbstr len <->
      (20 <= len -> TableRecordsFit mem (pbstr + len) pbstr) := by
  constructor
  · intro h hlen c q n hrecord hfields
    exact fieldsReads_iff.mp (h.fields hlen c q n hrecord hfields)
  · intro hfit
    constructor
    · intro a ha
      unfold hekaDecodeMessageReads at ha
      split at ha
      · cases ha
      · exact decodeTableLoopReads_bounds (by omega) (hfit (by omega)) a ha
    · intro hlen c q n hrecord hfields
      exact fieldsReads_iff.mpr (hfit hlen c q n hrecord hfields)

/-- A uuid and the two bytes of a field record of length zero. -/
theorem hekaDecodeMessage_overrun :
    ¬ TableDecodesInBounds
      (Memory.ofList ([0x0a, 16] ++ List.replicate 16 0 ++ [0x52, 0])) 0 20 := by
  intro h
  exact absurd (h.reads 20 (by decide)).2 (by decide)

end Heka
end LuaSandbox
