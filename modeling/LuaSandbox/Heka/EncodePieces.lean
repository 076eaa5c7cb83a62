import LuaSandbox.Heka.EncodeMessage
import LuaSandbox.Util.MessageContent

/-!
# What encoders append

Encoders whose accesses to tables leave the buffer alone, and the pieces that
they append to it.
-/

namespace LuaSandbox
namespace Heka

open Foundation
open Lua
open Util
open Core

/-- In the Lua state `L` the encoder appends a piece, gives `a` and leaves the
Lua state `L'`; the only errors are those of a piece that does not fit and of
missing memory. -/
structure Encodes {α : Type} (x : Enc α) (L : LuaState) (c : Piece) (a : α)
    (L' : LuaState) : Prop where
  ok : forall {s b t}, s.lua = L -> x.run s = (Except.ok b, t) ->
    b = a ∧ t.lua = L' ∧ Emitted c s.w t.w ∧ Fits c s.w
  error : forall {s stop t}, s.lua = L -> x.run s = (Except.error stop, t) ->
    (exists e, stop = Stop.err e) ∧ (s.w.MemoryAvailable -> ¬ Fits c s.w)

section

variable {α β : Type} {x : Enc α} {f : α -> Enc β} {L L' L'' : LuaState}
  {c d : Piece} {a : α} {b : β}

theorem Encodes.pure (a : α) (L : LuaState) :
    Encodes (Pure.pure a : Enc α) L Piece.empty a L where
  ok := by
    intro s b t hL h
    cases h
    exact ⟨rfl, hL, Emitted.refl s.w, fits_empty s.w⟩
  error := by
    intro s stop t _ h
    cases h

theorem Encodes.bind (hx : Encodes x L c a L')
    (hf : Encodes (f a) L' d b L'') : Encodes (x >>= f) L (c ++ d) b L'' where
  ok := by
    intro s b' u hL h
    rcases Computation.run_bind_eq_ok h with ⟨a', t, hrun, hrest⟩
    rcases hx.ok hL hrun with ⟨rfl, hL', hst, hfits⟩
    rcases hf.ok hL' hrest with ⟨hb, hL'', htu, hfits'⟩
    exact ⟨hb, hL'', hst.trans htu, (fits_append hst).mpr ⟨hfits, hfits'⟩⟩
  error := by
    intro s stop u hL h
    rcases Computation.run_bind_eq_error h with hrun | ⟨a', t, hrun, hrest⟩
    · rcases hx.error hL hrun with ⟨herr, hfull⟩
      refine ⟨herr, fun halloc hfits => hfull halloc ?_⟩
      unfold Fits at hfits ⊢
      rw [Piece.need_append] at hfits
      omega
    · rcases hx.ok hL hrun with ⟨rfl, hL', hst, _⟩
      rcases hf.error hL' hrest with ⟨herr, hfull⟩
      refine ⟨herr, fun halloc hfits => hfull ?_ ((fits_append hst).mp hfits).2⟩
      intro n
      rw [hst.alloc]
      exact halloc n

/-- A part that appends nothing. -/
theorem Encodes.bind_empty (hx : Encodes x L Piece.empty a L')
    (hf : Encodes (f a) L' d b L'') : Encodes (x >>= f) L d b L'' := by
  have h := hx.bind hf
  rwa [Piece.empty_append] at h

theorem encodes_write {x : Writer Unit} (h : Emits x c) (L : LuaState) :
    Encodes (write x) L c () L where
  ok := by
    intro s b t hL hrun
    unfold write at hrun
    rw [Computation.run_ofFun] at hrun
    split at hrun
    · rename_i hx
      cases hrun
      exact ⟨rfl, hL, h.ok hx⟩
    · cases hrun
  error := by
    intro s stop t _ hrun
    unfold write at hrun
    rw [Computation.run_ofFun] at hrun
    split at hrun
    · cases hrun
    · rename_i hx
      cases hrun
      exact ⟨⟨_, rfl⟩, h.error hx⟩

/-- An access that gives `a` and leaves the buffer alone. -/
def Reads (f : LuaState -> OutputBuffer -> Accessed α) (L : LuaState) (a : α)
    (L' : LuaState) : Prop :=
  forall ob, f L ob = (Except.ok a, L', ob)

theorem encodes_access {f : LuaState -> OutputBuffer -> Accessed α}
    (h : Reads f L a L') : Encodes (access f) L Piece.empty a L' where
  ok := by
    intro s b t hL hrun
    unfold access at hrun
    rw [Computation.run_ofFun, hL, h s.w.ob] at hrun
    cases hrun
    exact ⟨rfl, rfl, ⟨(List.append_nil _).symm, rfl, rfl⟩, fits_empty s.w⟩
  error := by
    intro s stop t hL hrun
    unfold access at hrun
    rw [Computation.run_ofFun, hL, h s.w.ob] at hrun
    cases hrun

theorem encodes_getLua (L : LuaState) :
    Encodes getLua L Piece.empty L L where
  ok := by
    intro s b t hL hrun
    cases hrun
    exact ⟨hL, hL, Emitted.refl s.w, fits_empty s.w⟩
  error := by
    intro s stop t _ hrun
    cases hrun

theorem onlyIf_pos {p : Prop} [Decidable p] {x : Enc Unit} (hp : p) :
    onlyIf p x = x :=
  if_pos hp

theorem onlyIf_neg {p : Prop} [Decidable p] {x : Enc Unit} (hp : ¬ p) :
    onlyIf p x = pure () :=
  if_neg hp

theorem encodes_onlyIf_pos {p : Prop} [Decidable p] {x : Enc Unit} (hp : p)
    (h : Encodes x L c () L') : Encodes (onlyIf p x) L c () L' := by
  unfold onlyIf
  rwa [if_pos hp]

theorem encodes_onlyIf_neg {p : Prop} [Decidable p] {x : Enc Unit}
    (hp : ¬ p) : Encodes (onlyIf p x) L Piece.empty () L := by
  unfold onlyIf
  rw [if_neg hp]
  exact Encodes.pure () L

end

/-!
## Texts of userdata values
-/

theorem run_encodeOutput_ok {text : List UInt8} {s t : EncState}
    (h : (write (lsbOutputs text)).run s = (Except.ok (), t)) :
    (encodeOutput (Except.ok text)).run s = (Except.ok (), t) := by
  unfold encodeOutput
  rw [Computation.run_bind_ok (run_attempt_ok h)]
  rfl

theorem run_encodeOutput_err {text : List UInt8} {s t : EncState}
    {e : LsbErr}
    (h : (write (lsbOutputs text)).run s = (Except.error (Stop.err e), t)) :
    (encodeOutput (Except.ok text)).run s = (outputFailed 1).run t := by
  unfold encodeOutput
  rw [Computation.run_bind_ok (run_attempt_err h)]

theorem encodes_output (text : List UInt8) (L : LuaState) :
    Encodes (encodeOutput (Except.ok text)) L
      ⟨text, text.length + 1, Nat.le_succ _⟩ () L := by
  have hwrite := encodes_write (emits_outputs text) L
  constructor
  · intro s b t hL hrun
    generalize hx : (write (lsbOutputs text)).run s = x
    rcases x with ⟨stop | u, t'⟩
    · rcases (hwrite.error hL hx).1 with ⟨e, rfl⟩
      rw [run_encodeOutput_err hx] at hrun
      cases hrun
    · rw [run_encodeOutput_ok hx] at hrun
      cases hrun
      exact hwrite.ok hL hx
  · intro s stop t hL hrun
    generalize hx : (write (lsbOutputs text)).run s = x
    rcases x with ⟨stop' | u, t'⟩
    · rcases hwrite.error hL hx with ⟨⟨e, rfl⟩, hfull⟩
      rw [run_encodeOutput_err hx] at hrun
      cases hrun
      exact ⟨⟨_, rfl⟩, hfull⟩
    · rw [run_encodeOutput_ok hx] at hrun
      cases hrun

/-!
## Lengths
-/

section

variable {A B : List UInt8} {b : UInt8} {s t : EncState}

theorem run_getPos (s : EncState) :
    getPos.run s = (Except.ok s.w.ob.pos, s) :=
  rfl

/-- A write of a length ends as the writer does. -/
theorem updateLength_ok (hcontents : s.w.ob.contents = A ++ [b] ++ B)
    (hrun : (write (lsbPbUpdateFieldLength A.length)).run s =
      (Except.ok (), t)) :
    t.lua = s.lua ∧
      t.w.ob.contents = A ++ lsbPbOutputVarint B.length ++ B ∧
      t.w.ob.maxsize = s.w.ob.maxsize ∧ t.w.alloc = s.w.alloc ∧
      A.length + (lsbPbOutputVarint B.length).length + B.length <=
        s.w.ob.capacity := by
  unfold write at hrun
  rw [Computation.run_ofFun] at hrun
  split at hrun
  · rename_i hx
    cases hrun
    exact ⟨rfl, lsbPbUpdateFieldLength_ok hcontents hx⟩
  · cases hrun

theorem updateLength_error {stop : Stop}
    (hcontents : s.w.ob.contents = A ++ [b] ++ B)
    (hrun : (write (lsbPbUpdateFieldLength A.length)).run s =
      (Except.error stop, t)) :
    (exists e, stop = Stop.err e) ∧ (s.w.MemoryAvailable ->
      s.w.ob.capacity <
        A.length + (lsbPbOutputVarint B.length).length + B.length) := by
  unfold write at hrun
  rw [Computation.run_ofFun] at hrun
  split at hrun
  · cases hrun
  · rename_i hx
    cases hrun
    exact ⟨⟨_, rfl⟩, lsbPbUpdateFieldLength_error hcontents hx⟩

end

/-- The byte that is kept for the length, and the contents. -/
def keptLength (c : Piece) : Piece := Piece.varint 0 ++ c

theorem keptLength_contents {c : Piece} {s t : WriteState}
    (h : Emitted (keptLength c) s t) :
    t.ob.contents = s.ob.contents ++ [0] ++ c.bytes := by
  rw [h.contents, List.append_assoc]
  rfl

/-- The length takes more room than the byte that was kept for it. -/
theorem fits_append_prefixed {c d : Piece} {s : WriteState} :
    Fits (d ++ Piece.prefixed c) s <->
      Fits (d ++ keptLength c) s ∧
        s.ob.pos + d.bytes.length +
          (lsbPbOutputVarint c.bytes.length).length + c.bytes.length <=
            s.ob.capacity := by
  unfold Fits keptLength
  rw [Piece.need_append, Piece.need_append, Piece.need_append]
  change s.ob.pos + max _ (_ + max 10 (max (1 + c.need) _)) <= _ <->
    s.ob.pos + max _ (_ + max 10 (1 + c.need)) <= _ ∧ _
  omega

theorem fits_prefixed {c : Piece} {s : WriteState} :
    Fits (Piece.prefixed c) s <->
      Fits (keptLength c) s ∧
        s.ob.pos + (lsbPbOutputVarint c.bytes.length).length +
          c.bytes.length <= s.ob.capacity := by
  have h := fits_append_prefixed (c := c) (d := Piece.empty) (s := s)
  rw [Piece.empty_append, Piece.empty_append] at h
  exact h

theorem encodes_lengthPrefixed {contents : Enc Unit} {L L' : LuaState}
    {c : Piece} (h : Encodes contents L c () L') :
    Encodes (lengthPrefixed contents) L (Piece.prefixed c) () L' := by
  have hkept : Encodes (write (lsbPbWriteVarint 0) >>= fun _ => contents) L
      (keptLength c) () L' :=
    (encodes_write (emits_varint 0) L).bind h
  have hunfold (s : EncState) : (lengthPrefixed contents).run s =
      ((write (lsbPbWriteVarint 0) >>= fun _ => contents) >>= fun _ =>
        write (lsbPbUpdateFieldLength s.w.ob.contents.length)).run s := by
    unfold lengthPrefixed
    rw [Computation.run_bind_ok (run_getPos s), bind_assoc,
      s.w.ob.length_contents]
  constructor
  · intro s b u hL hrun
    rw [hunfold] at hrun
    rcases Computation.run_bind_eq_ok hrun with ⟨_, t, hbody, hlast⟩
    rcases hkept.ok hL hbody with ⟨_, hL', hemitted, hfits⟩
    have hcontents := keptLength_contents hemitted
    rcases updateLength_ok hcontents hlast with
      ⟨hlua, hbytes, hmaxsize, halloc, hroom⟩
    refine ⟨rfl, hlua.trans hL', ⟨?_, ?_, ?_⟩, fits_prefixed.mpr ⟨hfits, ?_⟩⟩
    · rw [hbytes, List.append_assoc]
      rfl
    · exact hmaxsize.trans hemitted.maxsize
    · exact halloc.trans hemitted.alloc
    · rwa [hemitted.capacity, s.w.ob.length_contents] at hroom
  · intro s stop u hL hrun
    rw [hunfold] at hrun
    rcases Computation.run_bind_eq_error hrun with
      hbody | ⟨_, t, hbody, hlast⟩
    · rcases hkept.error hL hbody with ⟨herr, hfull⟩
      exact ⟨herr, fun halloc hfits =>
        hfull halloc (fits_prefixed.mp hfits).1⟩
    · rcases hkept.ok hL hbody with ⟨_, _, hemitted, _⟩
      have hcontents := keptLength_contents hemitted
      rcases updateLength_error hcontents hlast with ⟨herr, hfull⟩
      refine ⟨herr, fun halloc hfits => ?_⟩
      have hmemory : t.w.MemoryAvailable := by
        intro n
        rw [hemitted.alloc]
        exact halloc n
      have hlt := hfull hmemory
      have hle := (fits_prefixed.mp hfits).2
      rw [hemitted.capacity, s.w.ob.length_contents] at hlt
      omega

/-!
## Packed integers
-/

theorem findLengthByte_skip {buf : Memory} {i k : Nat} (hzero : buf i = 0)
    (hne : forall j, 0 < j -> j <= k -> buf (i + j) ≠ 0)
    (hsmall : i + k < 2 ^ 64) :
    forall {n : Nat}, k < n -> findLengthByte buf n (i + k) = some i := by
  induction k with
  | zero =>
      intro n hn
      obtain ⟨m, rfl⟩ : exists m, n = m + 1 := ⟨n - 1, by omega⟩
      unfold findLengthByte
      rw [Nat.add_zero, if_pos hzero]
  | succ k ih =>
      intro n hn
      obtain ⟨m, rfl⟩ : exists m, n = m + 1 := ⟨n - 1, by omega⟩
      have hprevious : (i + (k + 1) + (2 ^ 64 - 1)) % 2 ^ 64 = i + k := by
        omega
      unfold findLengthByte
      rw [if_neg (hne (k + 1) (by omega) (Nat.le_refl _)), hprevious]
      exact ih (fun j hpos hle => hne j hpos (by omega)) (by omega) (by omega)

/-- The search starts in front of the last byte of the first element. -/
theorem findLengthByte_first {buf : Memory} {A B : List UInt8} {i : Nat}
    (hi : i < 2 ^ 64)
    (hbytes : Memory.BytesAt buf 0
      (A ++ [0] ++ (lsbPbOutputVarint i ++ B)))
    (hsmall : A.length + 11 < 2 ^ 64) :
    findLengthByte buf lsbMaxVarintBytes
      ((A.length + 1 + (lsbPbOutputVarint i).length + (2 ^ 64 - 2)) %
        2 ^ 64) = some A.length := by
  have hlength := lsbPbOutputVarint_length_le hi
  have hpos := lsbPbOutputVarint_length_pos hi
  change _ <= 10 at hlength
  rw [Memory.bytesAt_append, Memory.bytesAt_append, Memory.bytesAt_append,
    Memory.bytesAt_cons, Nat.zero_add, Nat.zero_add, List.length_append,
    List.length_singleton] at hbytes
  rcases hbytes with ⟨⟨_, hzero, _⟩, hvarint, _⟩
  have hstart : (A.length + 1 + (lsbPbOutputVarint i).length +
      (2 ^ 64 - 2)) % 2 ^ 64 =
        A.length + ((lsbPbOutputVarint i).length - 1) := by
    omega
  rw [hstart]
  apply findLengthByte_skip hzero _ (by omega) (by change _ < 10; omega)
  intro j hj hle
  have hbyte := Memory.bytesAt_iff.mp hvarint (j - 1) (by omega)
  have hindex : A.length + j = A.length + 1 + (j - 1) := by omega
  have hne := lsbPbOutputVarint_ne_zero i hi (j := j - 1) (by omega)
  rw [hindex, hbyte]
  rwa [List.getD_eq_getElem _ _ (by omega)] at hne

theorem run_encodePackedLength {lenPos i : Nat} {s : EncState}
    (h : findLengthByte s.w.ob.buf lsbMaxVarintBytes
      ((lenPos + (2 ^ 64 - 2)) % 2 ^ 64) = some i) :
    (encodePackedLength lenPos).run s =
      (write (lsbPbUpdateFieldLength i)).run s := by
  unfold encodePackedLength getBuf
  rw [Computation.run_bind, Computation.run_ofFun]
  dsimp only
  rw [h]

section

variable {head rest : Enc Unit} {L : LuaState} {c d : Piece} {i : Nat}
  {s t u : EncState}

/-- The state behind the last element, with the place of the length. -/
theorem packed_found (hi : i < 2 ^ 64)
    (ht : Emitted (d ++ keptLength (Piece.varint i)) s.w t.w)
    (hu : Emitted c t.w u.w) :
    Emitted (d ++ keptLength (Piece.varint i ++ c)) s.w u.w ∧
      u.w.ob.contents = s.w.ob.contents ++ d.bytes ++ [0] ++
        (Piece.varint i ++ c).bytes ∧
      findLengthByte u.w.ob.buf lsbMaxVarintBytes
        ((t.w.ob.pos + (2 ^ 64 - 2)) % 2 ^ 64) =
          some (s.w.ob.contents ++ d.bytes).length := by
  have hemitted : Emitted (d ++ keptLength (Piece.varint i ++ c)) s.w u.w := by
    have h := ht.trans hu
    unfold keptLength at h ⊢
    rwa [Piece.append_assoc, Piece.append_assoc] at h
  have hcontents : u.w.ob.contents = s.w.ob.contents ++ d.bytes ++ [0] ++
      (Piece.varint i ++ c).bytes := by
    rw [hemitted.contents, List.append_assoc, List.append_assoc]
    rfl
  refine ⟨hemitted, hcontents, ?_⟩
  have hlimit : (s.w.ob.contents ++ d.bytes).length <= 2 ^ 63 := by
    have hpos := u.w.ob.pos_le_capacity
    have hcapacity := u.w.ob.capacity_le
    rw [(OutputBuffer.contents_eq_iff.mp hcontents).1] at hpos
    unfold maxObjectSize at hcapacity
    rw [List.length_append, List.length_append] at hpos
    omega
  have hpos : t.w.ob.pos = (s.w.ob.contents ++ d.bytes).length + 1 +
      (lsbPbOutputVarint i).length := by
    rw [ht.pos, List.length_append, s.w.ob.length_contents]
    change _ + (d.bytes ++ ([0] ++ lsbPbOutputVarint i)).length = _
    simp only [List.length_append, List.length_singleton]
    omega
  rw [hpos]
  exact findLengthByte_first hi
    (OutputBuffer.contents_eq_iff.mp hcontents).2 (by omega)

/-- The length of packed integers is put in behind the last one of them. -/
theorem encodes_packed (hi : i < 2 ^ 64)
    (hhead : Encodes head L (d ++ keptLength (Piece.varint i)) () L)
    (hrest : Encodes rest L c () L) :
    Encodes (do
        head
        let lenPos <- getPos
        rest
        encodePackedLength lenPos) L
      (d ++ Piece.prefixed (Piece.varint i ++ c)) () L := by
  have hbody : Encodes (head >>= fun _ => rest) L
      (d ++ keptLength (Piece.varint i ++ c)) () L := by
    have h : Encodes (head >>= fun _ => rest) L
        (d ++ keptLength (Piece.varint i) ++ c) () L := hhead.bind hrest
    unfold keptLength at h ⊢
    rwa [Piece.append_assoc, Piece.append_assoc] at h
  constructor
  · intro s b u hL hrun
    rcases Computation.run_bind_eq_ok hrun with ⟨_, t, hrunHead, hrun⟩
    rw [Computation.run_bind_ok (run_getPos t)] at hrun
    rcases Computation.run_bind_eq_ok hrun with ⟨_, t', hrunRest, hlast⟩
    rcases hhead.ok hL hrunHead with ⟨_, hLt, ht, _⟩
    rcases hrest.ok hLt hrunRest with ⟨_, hLt', ht', _⟩
    rcases packed_found hi ht ht' with ⟨hemitted, hcontents, hfound⟩
    have hfits := (hbody.ok hL
      ((Computation.run_bind_ok hrunHead).trans hrunRest)).2.2.2
    rw [run_encodePackedLength hfound] at hlast
    rcases updateLength_ok hcontents hlast with
      ⟨hlua, hbytes, hmaxsize, halloc, hroom⟩
    rw [hemitted.capacity, List.length_append,
      s.w.ob.length_contents] at hroom
    refine ⟨rfl, hlua.trans hLt', ⟨?_, hmaxsize.trans hemitted.maxsize,
      halloc.trans hemitted.alloc⟩, fits_append_prefixed.mpr ⟨hfits, hroom⟩⟩
    rw [hbytes, List.append_assoc, List.append_assoc]
    rfl
  · intro s stop u hL hrun
    rcases Computation.run_bind_eq_error hrun with
      hrunHead | ⟨_, t, hrunHead, hrun⟩
    · rcases hbody.error hL (Computation.run_bind_error hrunHead) with
        ⟨herr, hfull⟩
      exact ⟨herr, fun halloc hfits =>
        hfull halloc (fits_append_prefixed.mp hfits).1⟩
    rw [Computation.run_bind_ok (run_getPos t)] at hrun
    rcases Computation.run_bind_eq_error hrun with
      hrunRest | ⟨_, t', hrunRest, hlast⟩
    · rcases hbody.error hL
        ((Computation.run_bind_ok hrunHead).trans hrunRest) with
        ⟨herr, hfull⟩
      exact ⟨herr, fun halloc hfits =>
        hfull halloc (fits_append_prefixed.mp hfits).1⟩
    · rcases hhead.ok hL hrunHead with ⟨_, hLt, ht, _⟩
      rcases hrest.ok hLt hrunRest with ⟨_, _, ht', _⟩
      rcases packed_found hi ht ht' with ⟨hemitted, hcontents, hfound⟩
      rw [run_encodePackedLength hfound] at hlast
      rcases updateLength_error hcontents hlast with ⟨herr, hfull⟩
      refine ⟨herr, fun halloc hfits => ?_⟩
      have hmemory : t'.w.MemoryAvailable := by
        intro n
        rw [hemitted.alloc]
        exact halloc n
      have hlt := hfull hmemory
      have hle := (fits_append_prefixed.mp hfits).2
      rw [hemitted.capacity, List.length_append,
        s.w.ob.length_contents] at hlt
      omega

end

end Heka
end LuaSandbox
