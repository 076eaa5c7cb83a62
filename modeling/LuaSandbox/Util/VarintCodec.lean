import LuaSandbox.Util.DecodeBounds
import LuaSandbox.Util.Piece

/-!
# Varints in a buffer

Reading a varint behind which anything may stand, and putting the varint of a
length where one byte was kept for it.
-/

namespace LuaSandbox
namespace Util

open Foundation

/-!
## Reading
-/

/-- A byte with its continuation bit does not end a varint. -/
def Continues (mem : Memory) (a : Nat) : Prop :=
  mem a &&& 0x80 ≠ 0

theorem readVarintLoop_eq_none_iff {mem : Memory} {e : Nat} (n : Nat) :
    forall {p shift vi : Nat}, p <= e ->
      (readVarintLoop mem e n p shift vi = none <->
        forall i, i < n -> p + i < e -> Continues mem (p + i)) := by
  induction n with
  | zero =>
      intro p shift vi _
      exact iff_of_true rfl (fun i hi => absurd hi (Nat.not_lt_zero i))
  | succ n ih =>
      intro p shift vi hle
      unfold readVarintLoop
      split
      · rename_i hend
        exact iff_of_true rfl (fun i _ hi => by omega)
      split
      · rename_i hlast
        constructor
        · intro h
          cases h
        · intro h
          exact absurd hlast (h 0 (Nat.succ_pos n) (by omega))
      · rename_i hend hmore
        rw [ih (by omega)]
        constructor
        · intro h i hi hlt
          cases i with
          | zero => exact hmore
          | succ i =>
              have hnext := h i (by omega) (by omega)
              rwa [Nat.add_right_comm] at hnext
        · intro h i hi hlt
          have hnext := h (i + 1) (by omega) (by omega)
          rwa [← Nat.add_assoc, Nat.add_right_comm] at hnext

/-- A varint is missing where none of the first ten bytes in front of the end
ends one. -/
theorem lsbPbReadVarint_eq_none_iff {mem : Memory} {p e : Nat} (hle : p <= e) :
    lsbPbReadVarint mem p e = none <->
      forall i, i < lsbMaxVarintBytes -> p + i < e -> Continues mem (p + i) :=
  readVarintLoop_eq_none_iff lsbMaxVarintBytes hle

/-- The varint of a word takes at most ten bytes and is read back in front of
any bytes; a read stays in front of the end, and it fails where no varint
ends. -/
theorem lsbPbReadVarint_codec (mem : Memory) (p : Nat) :
    (forall (v : UInt64) (rest : List UInt8),
      Memory.BytesAt mem p (lsbPbOutputVarint v.toNat ++ rest) ->
      (lsbPbOutputVarint v.toNat).length <= lsbMaxVarintBytes ∧
        lsbPbReadVarint mem p
            (p + (lsbPbOutputVarint v.toNat ++ rest).length) =
          some (p + (lsbPbOutputVarint v.toNat).length, v.toNat)) ∧
      forall n,
        (forall a, a ∈ readVarintReads mem p (p + n) -> p <= a ∧ a < p + n) ∧
          (lsbPbReadVarint mem p (p + n) = none <->
            forall i, i < lsbMaxVarintBytes -> i < n ->
              Continues mem (p + i)) := by
  refine ⟨fun v rest hbytes => ?_, fun n => ⟨fun a ha => ?_, ?_⟩⟩
  · have hv : v.toNat < 2 ^ 64 := v.toNat_lt
    refine ⟨lsbPbOutputVarint_length_le hv, ?_⟩
    apply lsbPbReadVarint_output hv (Memory.bytesAt_append.mp hbytes).1
    rw [List.length_append]
    omega
  · exact readVarintReads_bounds (Nat.le_add_right p n) ha
  · rw [lsbPbReadVarint_eq_none_iff (Nat.le_add_right p n)]
    simp only [Nat.add_lt_add_iff_left]

theorem lsbPbReadVarint_codec_sample :
    Memory.BytesAt (Memory.ofList ([0xac, 0x02] ++ [0x07])) 0
        (lsbPbOutputVarint (300 : UInt64).toNat ++ [0x07]) ∧
      lsbPbReadVarint (Memory.ofList ([0xac, 0x02] ++ [0x07])) 0 (0 + 3) =
        some (2, 300) :=
  have hbytes := Memory.bytesAt_ofList ([0xac, 0x02] ++ [0x07])
  ⟨hbytes, ((lsbPbReadVarint_codec _ 0).1 300 [0x07] hbytes).2⟩

/-!
## The length of a field
-/

/-- The byte at `lenPos` is replaced by the varint of the number of bytes
behind it. -/
structure LengthPatched (s t : OutputBuffer) (lenPos : Nat) : Prop where
  contents : t.contents = s.contents.take lenPos ++
    lsbPbOutputVarint (s.pos - lenPos - 1) ++ s.contents.drop (lenPos + 1)
  pos : t.pos + 1 =
    s.pos + (lsbPbOutputVarint (s.pos - lenPos - 1)).length
  read : lsbPbReadVarint t.buf lenPos t.pos =
    some (lenPos + (lsbPbOutputVarint (s.pos - lenPos - 1)).length,
      s.pos - lenPos - 1)

theorem putFieldLength_error {lenPos len : Nat} {e : LsbErr}
    {s t : WriteState}
    (h : (putFieldLength lenPos len).run s = (Except.error e, t)) : t = s := by
  unfold putFieldLength at h
  rw [Computation.run_ofFun] at h
  dsimp only at h
  split at h
  · cases h
  split at h
  · cases h
    rfl
  · cases h

theorem OutputBuffer.contents_split {b : OutputBuffer} {lenPos : Nat}
    (h : lenPos < b.pos) : exists A c B,
      b.contents = A ++ [c] ++ B ∧ A = b.contents.take lenPos ∧
        B = b.contents.drop (lenPos + 1) ∧ A.length = lenPos ∧
        B.length = b.pos - lenPos - 1 := by
  have hlt : lenPos < b.contents.length := by
    rw [b.length_contents]
    exact h
  refine ⟨b.contents.take lenPos, b.contents[lenPos],
    b.contents.drop (lenPos + 1), ?_, rfl, rfl, ?_, ?_⟩
  · rw [List.append_assoc, List.singleton_append, List.getElem_cons_drop,
      List.take_append_drop]
  · rw [List.length_take, b.length_contents]
    omega
  · rw [List.length_drop, b.length_contents]
    omega

/-- The length of a field is put in, or the buffer is as it was because the
longer field does not fit or no memory is left. -/
theorem lsbPbUpdateFieldLength_patches (s : WriteState) {lenPos : Nat}
    (h : lenPos < s.ob.pos) :
    (exists t, (lsbPbUpdateFieldLength lenPos).run s = (Except.ok (), t) ∧
        LengthPatched s.ob t.ob lenPos) ∨
      (exists e t, (lsbPbUpdateFieldLength lenPos).run s =
          (Except.error e, t) ∧
        t.ob.contents = s.ob.contents ∧ t.ob.pos = s.ob.pos ∧
        (s.MemoryAvailable -> s.ob.capacity + 1 < s.ob.pos +
          (lsbPbOutputVarint (s.ob.pos - lenPos - 1)).length)) := by
  rcases OutputBuffer.contents_split h with
    ⟨A, c, B, hcontents, hA, hB, hlength, hcount⟩
  have hsmall : B.length < 2 ^ 64 := by
    have hle := s.ob.pos_le_capacity
    have hcapacity := s.ob.capacity_le
    unfold maxObjectSize at hcapacity
    omega
  have hpos := (OutputBuffer.contents_eq_iff.mp hcontents).1
  rw [List.length_append, List.length_append, List.length_singleton] at hpos
  subst hlength
  rw [← hcount]
  generalize hrun : (lsbPbUpdateFieldLength A.length).run s = r
  rcases r with ⟨e | _, t⟩
  · refine Or.inr ⟨e, t, rfl, ?_⟩
    have hsame : t = s := by
      rw [lsbPbUpdateFieldLength_pos hcontents] at hrun
      exact putFieldLength_error hrun
    refine ⟨by rw [hsame], by rw [hsame], fun halloc => ?_⟩
    have hfull := lsbPbUpdateFieldLength_error hcontents hrun halloc
    omega
  · refine Or.inl ⟨t, rfl, ?_⟩
    have hpatched := (lsbPbUpdateFieldLength_ok hcontents hrun).1
    have htail := OutputBuffer.contents_eq_iff.mp hpatched
    rw [List.length_append, List.length_append] at htail
    have hvarint := (Memory.bytesAt_append.mp
      (Memory.bytesAt_append.mp htail.2).1).2
    rw [Nat.zero_add] at hvarint
    refine ⟨?_, ?_, ?_⟩
    · rw [hpatched, ← hcount, ← hA, ← hB]
    · rw [← hcount]
      omega
    · rw [← hcount]
      exact lsbPbReadVarint_output hsmall hvarint (by omega)

/-- A buffer with one byte for a length and 200 bytes behind it. -/
def longField : WriteState where
  ob := (lsbInitOutputBuffer (fun _ => 0) 0).append
    (0 :: List.replicate 200 7) (by
      rw [List.length_cons, List.length_replicate]
      decide)
  alloc _ := true
  writes := []

set_option maxRecDepth 2000 in
theorem longField_pos : 0 < longField.ob.pos := by
  decide

theorem lsbPbUpdateFieldLength_patches_long :
    0 < longField.ob.pos ∧
      ((exists t, (lsbPbUpdateFieldLength 0).run longField =
            (Except.ok (), t) ∧ LengthPatched longField.ob t.ob 0) ∨
        (exists e t, (lsbPbUpdateFieldLength 0).run longField =
            (Except.error e, t) ∧
          t.ob.contents = longField.ob.contents ∧
          t.ob.pos = longField.ob.pos ∧
          (longField.MemoryAvailable -> longField.ob.capacity + 1 <
            longField.ob.pos +
              (lsbPbOutputVarint (longField.ob.pos - 0 - 1)).length))) :=
  ⟨longField_pos, lsbPbUpdateFieldLength_patches longField longField_pos⟩

end Util
end LuaSandbox
