import LuaSandbox.Util.Writer

/-!
# Pieces of output

What a writer appends to the buffer, and the room that it asks for.
-/

namespace LuaSandbox
namespace Util

open Foundation

/-- Bytes, and how far behind their start room is asked for. -/
structure Piece where
  bytes : List UInt8
  need : Nat
  length_le : bytes.length <= need

namespace Piece

theorem nil_fits : ([] : List UInt8).length <= 0 :=
  Nat.le_refl 0

def empty : Piece := ⟨[], 0, nil_fits⟩

def append (c d : Piece) : Piece where
  bytes := c.bytes ++ d.bytes
  need := max c.need (c.bytes.length + d.need)
  length_le := by
    have hd := d.length_le
    rw [List.length_append]
    omega

instance : Append Piece := ⟨append⟩

@[simp] theorem bytes_append (c d : Piece) :
    (c ++ d).bytes = c.bytes ++ d.bytes :=
  rfl

theorem need_append (c d : Piece) :
    (c ++ d).need = max c.need (c.bytes.length + d.need) :=
  rfl

@[simp] theorem bytes_empty : empty.bytes = [] :=
  rfl

theorem ext {c d : Piece} (hbytes : c.bytes = d.bytes)
    (hneed : c.need = d.need) : c = d := by
  cases c
  cases d
  cases hbytes
  cases hneed
  rfl

theorem append_assoc (c d e : Piece) : c ++ d ++ e = c ++ (d ++ e) := by
  apply ext
  · simp only [bytes_append, List.append_assoc]
  · simp only [need_append, bytes_append, List.length_append]
    omega

@[simp] theorem empty_append (c : Piece) : empty ++ c = c := by
  apply ext
  · exact List.nil_append _
  · change max 0 (0 + c.need) = c.need
    omega

@[simp] theorem append_empty (c : Piece) : c ++ empty = c := by
  apply ext
  · exact List.append_nil _
  · have hle := c.length_le
    change max c.need (c.bytes.length + 0) = c.need
    omega

/-- The pieces one behind the other. -/
def concat (cs : List Piece) : Piece := cs.foldr (fun c d => c ++ d) empty

@[simp] theorem concat_nil : concat [] = empty :=
  rfl

@[simp] theorem concat_cons (c : Piece) (cs : List Piece) :
    concat (c :: cs) = c ++ concat cs :=
  rfl

theorem bytes_concat (cs : List Piece) :
    (concat cs).bytes = cs.flatMap bytes := by
  induction cs with
  | nil => rfl
  | cons c cs ih =>
      rw [concat_cons, bytes_append, ih, List.flatMap_cons]

theorem concat_append (cs ds : List Piece) :
    concat (cs ++ ds) = concat cs ++ concat ds := by
  induction cs with
  | nil => exact (empty_append _).symm
  | cons c cs ih =>
      rw [List.cons_append, concat_cons, concat_cons, ih, append_assoc]

theorem raw_fits (xs : List UInt8) : xs.length <= xs.length :=
  Nat.le_refl _

/-- Bytes that ask for room for as many. -/
def raw (xs : List UInt8) : Piece := ⟨xs, xs.length, raw_fits xs⟩

def key (tag wiretype : Nat) : Piece := raw [lsbPbKey tag wiretype]

/-- Room is made for the longest varint. -/
def varint (i : Nat) : Piece :=
  ⟨lsbPbOutputVarint i, lsbMaxVarintBytes, lsbPbOutputVarint_length_le_ten i⟩

def string (tag : Nat) (s : List UInt8) : Piece :=
  key tag lsbPbWtLength ++ varint s.length ++ raw s

/-- Room for `n` bytes that are not written. -/
def room (n : Nat) : Piece := ⟨[], n, Nat.zero_le n⟩

/-- A piece behind its length, which is put in when the piece is known. -/
def prefixed (c : Piece) : Piece where
  bytes := lsbPbOutputVarint c.bytes.length ++ c.bytes
  need := max lsbMaxVarintBytes (max (1 + c.need)
    ((lsbPbOutputVarint c.bytes.length).length + c.bytes.length))
  length_le := by
    rw [List.length_append]
    omega

end Piece

/-!
## Emission
-/

/-- The contents grow by the bytes of a piece. -/
structure Emitted (c : Piece) (s t : WriteState) : Prop where
  contents : t.ob.contents = s.ob.contents ++ c.bytes
  maxsize : t.ob.maxsize = s.ob.maxsize
  alloc : t.alloc = s.alloc

def Fits (c : Piece) (s : WriteState) : Prop :=
  s.ob.pos + c.need <= s.ob.capacity

/-- No reallocation fails. -/
def WriteState.MemoryAvailable (s : WriteState) : Prop :=
  forall n, s.alloc n = true

section

variable {c d : Piece} {s t u : WriteState}

theorem Emitted.pos (h : Emitted c s t) :
    t.ob.pos = s.ob.pos + c.bytes.length := by
  rw [← t.ob.length_contents, h.contents, List.length_append,
    s.ob.length_contents]

theorem Emitted.capacity (h : Emitted c s t) :
    t.ob.capacity = s.ob.capacity :=
  OutputBuffer.capacity_congr h.maxsize

theorem Emitted.refl (s : WriteState) : Emitted Piece.empty s s :=
  ⟨(List.append_nil _).symm, rfl, rfl⟩

theorem Emitted.trans (hst : Emitted c s t) (htu : Emitted d t u) :
    Emitted (c ++ d) s u where
  contents := by
    rw [htu.contents, hst.contents, List.append_assoc, Piece.bytes_append]
  maxsize := htu.maxsize.trans hst.maxsize
  alloc := htu.alloc.trans hst.alloc

theorem fits_empty (s : WriteState) : Fits Piece.empty s :=
  s.ob.pos_le_capacity

theorem fits_append (h : Emitted c s t) :
    Fits (c ++ d) s <-> Fits c s ∧ Fits d t := by
  unfold Fits
  rw [Piece.need_append, h.pos, h.capacity]
  omega

end

/-- A writer that ends has emitted the piece, which fits; one that fails does so
because the piece does not fit, or for lack of memory. -/
structure Emits (x : Writer Unit) (c : Piece) : Prop where
  ok : forall {s t}, x.run s = (Except.ok (), t) -> Emitted c s t ∧ Fits c s
  error : forall {s e t}, x.run s = (Except.error e, t) ->
    s.MemoryAvailable -> ¬ Fits c s

section

variable {x y : Writer Unit} {c d : Piece}

theorem Emits.seq (hx : Emits x c) (hy : Emits y d) :
    Emits (x >>= fun _ => y) (c ++ d) where
  ok := by
    intro s u h
    rcases Computation.run_bind_eq_ok h with ⟨_, t, hrun, hrest⟩
    rcases hx.ok hrun with ⟨hst, hfits⟩
    rcases hy.ok hrest with ⟨htu, hfits'⟩
    exact ⟨hst.trans htu, (fits_append hst).mpr ⟨hfits, hfits'⟩⟩
  error := by
    intro s e u h halloc
    rcases Computation.run_bind_eq_error h with hrun | ⟨_, t, hrun, hrest⟩
    · intro hfits
      apply hx.error hrun halloc
      unfold Fits at hfits ⊢
      rw [Piece.need_append] at hfits
      omega
    · have hst := (hx.ok hrun).1
      rw [fits_append hst]
      rintro ⟨_, hfits⟩
      apply hy.error hrest _ hfits
      intro n
      rw [hst.alloc]
      exact halloc n

theorem emits_put (needed : Nat) (xs : List UInt8)
    (h : xs.length <= needed) : Emits (put needed xs h) ⟨xs, needed, h⟩ where
  ok := by
    intro s t hrun
    unfold put at hrun
    rw [Computation.run_ofFun] at hrun
    split at hrun
    · cases hrun
    · rename_i r hexpand
      cases hrun
      have hkept := lsbExpandOutputBuffer_kept hexpand
      refine ⟨⟨?_, hkept.2.2, rfl⟩, lsbExpandOutputBuffer_fits hexpand⟩
      rw [OutputBuffer.contents_append]
      unfold OutputBuffer.contents
      rw [hkept.1, hkept.2.1]
  error := by
    intro s e t hrun halloc
    unfold put at hrun
    rw [Computation.run_ofFun] at hrun
    split at hrun
    · rename_i hexpand
      cases hrun
      exact Nat.not_le_of_lt (lsbExpandOutputBuffer_full hexpand halloc)
    · cases hrun

theorem emits_key (tag wiretype : Nat) :
    Emits (lsbPbWriteKey tag wiretype) (Piece.key tag wiretype) :=
  emits_put _ _ _

theorem emits_varint (i : Nat) :
    Emits (lsbPbWriteVarint i) (Piece.varint i) :=
  emits_put _ _ _

theorem emits_string (tag : Nat) (s : List UInt8) :
    Emits (lsbPbWriteString tag s) (Piece.string tag s) := by
  have h := ((emits_key tag lsbPbWtLength).seq (emits_varint s.length)).seq
    (emits_put s.length s (Nat.le_refl _))
  rw [bind_assoc] at h
  exact h

theorem emits_expand (needed : Nat) :
    Emits (expand needed) (Piece.room needed) where
  ok := by
    intro s t hrun
    unfold expand at hrun
    rw [Computation.run_ofFun] at hrun
    split at hrun
    · cases hrun
    · rename_i r hexpand
      cases hrun
      have hkept := lsbExpandOutputBuffer_kept hexpand
      refine ⟨⟨?_, hkept.2.2, rfl⟩, lsbExpandOutputBuffer_fits hexpand⟩
      change r.val.contents = s.ob.contents ++ []
      rw [List.append_nil]
      unfold OutputBuffer.contents
      rw [hkept.1, hkept.2.1]
  error := by
    intro s e t hrun halloc
    unfold expand at hrun
    rw [Computation.run_ofFun] at hrun
    split at hrun
    · rename_i hexpand
      cases hrun
      exact Nat.not_le_of_lt (lsbExpandOutputBuffer_full hexpand halloc)
    · cases hrun

/-- Room is made for a NUL behind the string. -/
theorem emits_outputs (s : List UInt8) :
    Emits (lsbOutputs s) ⟨s, s.length + 1, Nat.le_succ _⟩ where
  ok := by
    intro w t hrun
    rw [run_lsbOutputs] at hrun
    split at hrun
    · cases hrun
    · rename_i r hexpand
      cases hrun
      have hkept := lsbExpandOutputBuffer_kept hexpand
      refine ⟨⟨?_, hkept.2.2, rfl⟩, lsbExpandOutputBuffer_fits hexpand⟩
      have happend := r.val.contents_append s (Nat.le_of_succ_le r.property)
      have hsame : r.val.contents = w.ob.contents := by
        unfold OutputBuffer.contents
        rw [hkept.1, hkept.2.1]
      rw [hsame] at happend
      rw [← happend]
      exact OutputBuffer.contents_overwrite_pos _ _
  error := by
    intro w e t hrun halloc
    rw [run_lsbOutputs] at hrun
    split at hrun
    · rename_i hexpand
      cases hrun
      exact Nat.not_le_of_lt (lsbExpandOutputBuffer_full hexpand halloc)
    · cases hrun

end

/-!
## Lengths
-/

section

variable {A B : List UInt8} {b : UInt8} {s t : WriteState}

theorem lsbPbUpdateFieldLength_pos
    (hcontents : s.ob.contents = A ++ [b] ++ B) :
    (lsbPbUpdateFieldLength A.length).run s =
      (putFieldLength A.length B.length).run s := by
  have hpos : s.ob.pos = A.length + 1 + B.length := by
    rw [(OutputBuffer.contents_eq_iff.mp hcontents).1]
    simp
    omega
  have hlen : s.ob.pos - A.length - 1 = B.length := by omega
  unfold lsbPbUpdateFieldLength
  rw [Computation.run_ofFun, if_neg (by omega), hlen]

/-- The length is put in place of the byte that was kept for it. -/
theorem lsbPbUpdateFieldLength_ok (hcontents : s.ob.contents = A ++ [b] ++ B)
    (hrun : (lsbPbUpdateFieldLength A.length).run s = (Except.ok (), t)) :
    t.ob.contents = A ++ lsbPbOutputVarint B.length ++ B ∧
      t.ob.maxsize = s.ob.maxsize ∧ t.alloc = s.alloc ∧
      A.length + (lsbPbOutputVarint B.length).length + B.length <=
        s.ob.capacity := by
  rw [lsbPbUpdateFieldLength_pos hcontents] at hrun
  have hpos := (OutputBuffer.contents_eq_iff.mp hcontents).1
  rw [List.length_append, List.length_append, List.length_singleton] at hpos
  unfold putFieldLength at hrun
  rw [Computation.run_ofFun] at hrun
  dsimp only at hrun
  split at hrun
  · rename_i hsmall
    cases hrun
    rw [lsbPbOutputVarint_small hsmall]
    refine ⟨OutputBuffer.contents_overwrite hcontents rfl, rfl, rfl, ?_⟩
    have hle := s.ob.pos_le_capacity
    rw [List.length_singleton]
    omega
  · rename_i hlarge
    have hcount := varintCount_eq_length (i := B.length) (by omega)
    have hcountPos := varintCount_pos (i := B.length) (by omega)
    split at hrun
    · cases hrun
    · rename_i r hexpand
      cases hrun
      have hkept := lsbExpandOutputBuffer_kept hexpand
      have hfits := lsbExpandOutputBuffer_fits hexpand
      have hsame : r.val.contents = A ++ [b] ++ B := by
        rw [← hcontents]
        unfold OutputBuffer.contents
        rw [hkept.1, hkept.2.1]
      rcases OutputBuffer.contents_shift hsame r.property with
        ⟨Y, hY, hshift⟩
      have hdst : A.length + [b].length +
          (varintCount lsbMaxVarintBytes B.length - 1) =
            A.length + varintCount lsbMaxVarintBytes B.length := by
        rw [List.length_singleton]
        omega
      rw [hdst] at hshift
      refine ⟨OutputBuffer.contents_overwrite hshift ?_, hkept.2.2, rfl, ?_⟩
      · rw [hY, List.length_singleton]
        omega
      · omega

theorem lsbPbUpdateFieldLength_error {e : LsbErr}
    (hcontents : s.ob.contents = A ++ [b] ++ B)
    (hrun : (lsbPbUpdateFieldLength A.length).run s = (Except.error e, t))
    (halloc : s.MemoryAvailable) :
    s.ob.capacity <
      A.length + (lsbPbOutputVarint B.length).length + B.length := by
  rw [lsbPbUpdateFieldLength_pos hcontents] at hrun
  have hpos := (OutputBuffer.contents_eq_iff.mp hcontents).1
  rw [List.length_append, List.length_append, List.length_singleton] at hpos
  unfold putFieldLength at hrun
  rw [Computation.run_ofFun] at hrun
  dsimp only at hrun
  split at hrun
  · cases hrun
  · rename_i hlarge
    have hcount := varintCount_eq_length (i := B.length) (by omega)
    have hcountPos := varintCount_pos (i := B.length) (by omega)
    split at hrun
    · rename_i hexpand
      have hfull := lsbExpandOutputBuffer_full hexpand halloc
      omega
    · cases hrun

end

end Util
end LuaSandbox
