import LuaSandbox.Heka.EncodeBounds
import LuaSandbox.Heka.EncodeSound

/-!
# The length of packed integers

Where the encoder looks for the byte that it kept for the length of an array
of integers, and what stands in the record afterwards.
-/

namespace LuaSandbox
namespace Heka

open Foundation Util Lua

/-- The elements of a table from index 1 up to its length. -/
def elements (L : LuaState) (a : Nat) : List Value :=
  (List.range (L.objlen a)).map (fun i : Nat => L.rawgeti a (i + 1))

/-- The varint of an element that is encoded as an integer. -/
def integerWord (v : Value) : List UInt8 :=
  lsbPbOutputVarint (ofLongLong (numberOf v).toLongLong)

/-- What stands in front of the length of packed integers. -/
def packedHead (representation : Option (List UInt8)) : Piece :=
  valuesHead 2 representation ++ Piece.key lsbPbValueInteger lsbPbWtLength

section

variable {L : LuaState} {a : Nat}

theorem elements_cons (h : 0 < L.objlen a) :
    elements L a = L.rawgeti a 1 :: (elements L a).tail := by
  unfold elements
  obtain ⟨n, hn⟩ : exists n, L.objlen a = n + 1 := ⟨L.objlen a - 1, by omega⟩
  rw [hn, List.range_succ_eq_map]
  rfl

theorem arrayOf_cons (h : 0 < L.objlen a) :
    ArrayOf L a (L.rawgeti a 1 :: (elements L a).tail) := by
  rw [← elements_cons h]
  constructor
  · unfold elements
    rw [List.length_map, List.length_range]
  · intro i hi
    simp only [elements, List.getElem_map, List.getElem_range]

theorem bytes_integers (vs : List Value) :
    (Piece.concat (vs.map (elementPiece 2))).bytes =
      vs.flatMap integerWord := by
  rw [Piece.bytes_concat, List.flatMap_map]
  rfl

end

section

variable {env : EncodeEnv} {L : LuaState} {a : Nat} {below : Value}
  {representation : Option (List UInt8)} {m : Nat} {s : EncState}

/--
An array of two or more integers.  Behind its elements the search for the
length stops at the byte that was kept for it, and the record then holds the
varints of all elements behind the number of their bytes.
-/
theorem encodeFieldArray_finds_length (hL : s.lua = L)
    (hcount : 1 < L.objlen a)
    (hnumbers : forall v, v ∈ elements L a -> v.type = LuaType.number) :
    (forall t u,
      (encodeFieldValue env (m + 1) below (toInt (L.objlen a)) representation
        lsbPbInteger (L.rawgeti a 1)).run s = (Except.ok (), t) ->
      (encodeElements (fun first => encodeFieldValue env (m + 1) below first
        representation lsbPbInteger) a (L.rawgeti a 1).type
          (toInt (L.objlen a) - 1).toNat 2).run t = (Except.ok (), u) ->
      u.w.ob.contents = s.w.ob.contents ++ (packedHead representation).bytes ++
        [0] ++ (elements L a).flatMap integerWord ∧
      findLengthByte u.w.ob.buf lsbMaxVarintBytes
          ((t.w.ob.pos + (2 ^ 64 - 2)) % 2 ^ 64) =
        some (s.w.ob.contents ++ (packedHead representation).bytes).length) ∧
    (forall u,
      (encodeFieldArray (fun first => encodeFieldValue env (m + 1) below first
        representation lsbPbInteger) a lsbPbInteger (L.rawgeti a 1)).run s =
          (Except.ok (), u) ->
      u.w.ob.contents = s.w.ob.contents ++ (packedHead representation).bytes ++
        lsbPbOutputVarint ((elements L a).flatMap integerWord).length ++
          (elements L a).flatMap integerWord) ∧
    (forall stop u,
      (encodeFieldArray (fun first => encodeFieldValue env (m + 1) below first
        representation lsbPbInteger) a lsbPbInteger (L.rawgeti a 1)).run s =
          (Except.error stop, u) ->
      s.w.MemoryAvailable ->
      ¬ Fits (packedHead representation ++ Piece.prefixed (Piece.concat
        ((elements L a).map (elementPiece 2)))) s.w) := by
  have hpos : 0 < L.objlen a := by omega
  have harray := arrayOf_cons hpos
  have hcons := elements_cons hpos
  have htail : (elements L a).tail ≠ [] := by
    intro hnil
    have hlength := harray.length
    rw [hnil] at hlength
    exact absurd hlength (by rw [List.length_singleton]; omega)
  have hfirst : (L.rawgeti a 1).type = LuaType.number :=
    hnumbers _ (by rw [hcons]; exact List.mem_cons_self)
  have htype : forall v, v ∈ (elements L a).tail ->
      v.type = (L.rawgeti a 1).type := fun v hv =>
    (hnumbers v (List.mem_of_mem_tail hv)).trans hfirst.symm
  have hinteger : fieldType lsbPbInteger (L.rawgeti a 1).type = some 2 := by
    rw [hfirst]
    rfl
  have hlong : (1 : Int) < toInt (L.objlen a) := by
    rw [toInt_objlen]
    omega
  have hhead := encodes_firstInteger env representation L hinteger hlong below m
  have hrest := encodes_rest env representation harray htype hinteger below m
  have hlength : (toInt (L.objlen a) - 1).toNat =
      (elements L a).tail.length := by
    have hall := harray.length
    rw [List.length_cons] at hall
    rw [toInt_objlen]
    omega
  rw [← hlength] at hrest
  have hpiece : elementPiece 2 (L.rawgeti a 1) ++
      Piece.concat ((elements L a).tail.map (elementPiece 2)) =
        Piece.concat ((elements L a).map (elementPiece 2)) := by
    rw [hcons, List.map_cons, Piece.concat_cons]
    rfl
  have harrayEncodes := encodes_array env representation harray htype hinteger
    below m
  rw [← packedPiece_eq representation htail, hpiece] at harrayEncodes
  refine ⟨fun t u hrunHead hrunRest => ?_, fun u hrun => ?_,
    fun stop u hrun => (harrayEncodes.error hL hrun).2⟩
  · rcases hhead.ok hL hrunHead with ⟨_, hLt, ht, _⟩
    rcases hrest.ok hLt hrunRest with ⟨_, _, hu, _⟩
    rcases packed_found (ofLongLong_lt _) ht hu with ⟨_, hcontents, hfound⟩
    change _ = _ ++ (elementPiece 2 (L.rawgeti a 1) ++
      Piece.concat ((elements L a).tail.map (elementPiece 2))).bytes
      at hcontents
    rw [hpiece, bytes_integers] at hcontents
    exact ⟨hcontents, hfound⟩
  · rcases harrayEncodes.ok hL hrun with ⟨_, _, hu, _⟩
    rw [hu.contents, Piece.bytes_append]
    change _ ++ (_ ++ (lsbPbOutputVarint (Piece.concat
      ((elements L a).map (elementPiece 2))).bytes.length ++
        (Piece.concat ((elements L a).map (elementPiece 2))).bytes)) = _
    rw [bytes_integers]
    simp only [packedHead, List.append_assoc]

end

/-- The array `{-1, 0}`. -/
def pairTable : LuaTable where
  entries := [(integer 1, integer (-1)), (integer 2, integer 0)]
  length := 2
  keys_nodup := by decide
  nil_not_key := by decide
  border := ⟨Or.inr (by decide), by decide⟩
  length_lt := by decide

def pairState : LuaState := ⟨fun _ => pairTable, fun _ => none⟩

def pairStart : EncState :=
  EncState.start pairState (lsbInitOutputBuffer (fun _ => 0) 0)
    (fun _ => true) []

def pairEncoder : Enc Unit :=
  encodeFieldArray (fun first => encodeFieldValue sampleEnv 1 Value.nil
    first none lsbPbInteger) 0 lsbPbInteger (pairState.rawgeti 0 1)

theorem pairEncoder_ok : (pairEncoder.run pairStart).1 = Except.ok () := by
  have hbool : (pairEncoder.run pairStart).1.isOk = true := by
    decide +kernel
  generalize (pairEncoder.run pairStart).1 = r at hbool
  cases r with
  | error e => cases hbool
  | ok u => rfl

theorem encodeFieldArray_finds_length_pair :
    1 < pairState.objlen 0 ∧
      (pairEncoder.run pairStart).2.w.ob.contents =
        pairStart.w.ob.contents ++ (packedHead none).bytes ++
          lsbPbOutputVarint
            ((elements pairState 0).flatMap integerWord).length ++
              (elements pairState 0).flatMap integerWord := by
  have hnumbers : forall v, v ∈ elements pairState 0 ->
      v.type = LuaType.number := by decide
  have hcount : 1 < pairState.objlen 0 := by decide
  refine ⟨hcount, ?_⟩
  have hrun : pairEncoder.run pairStart =
      (Except.ok (), (pairEncoder.run pairStart).2) := by
    rw [← pairEncoder_ok]
  have h := (@encodeFieldArray_finds_length sampleEnv pairState 0 Value.nil
    none 0 pairStart rfl hcount hnumbers).2.1
  exact h _ hrun

end Heka
end LuaSandbox
