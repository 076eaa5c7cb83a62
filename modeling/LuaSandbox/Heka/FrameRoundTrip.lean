import LuaSandbox.Heka.ReadMessage
import LuaSandbox.Heka.StreamHeld

/-!
# Written frames

A message behind the header that is written for it is found again, whatever
bytes follow.
-/

namespace LuaSandbox
namespace Heka

open Foundation
open Util
open Memory (BytesAt bytesAt_append bytesAt_cons)

/-- The size of the buffers that headers are written to. -/
def lsbMinHdrSize : Nat := 14

section

variable {payload rest : List UInt8} {n max : Nat}

theorem length_lsbWriteHekaHeader (n : Nat) :
    (lsbWriteHekaHeader n).length = (lsbPbOutputVarint n).length + 4 := by
  unfold lsbWriteHekaHeader
  dsimp only
  rw [List.length_append, List.length_append]
  change 3 + _ + 1 = _
  omega

theorem lsbWriteHekaHeader_fits (n : Nat) :
    (lsbWriteHekaHeader n).length <= lsbMinHdrSize := by
  have hvarint := lsbPbOutputVarint_length_le_ten n
  rw [length_lsbWriteHekaHeader]
  unfold lsbMaxVarintBytes at hvarint
  unfold lsbMinHdrSize
  omega

/-- What stands in the bytes of a frame. -/
theorem header_bytes (hn : n < 2 ^ 64) {mem : Memory} {xs : List UInt8}
    (h : BytesAt mem 0 (lsbWriteHekaHeader n ++ xs)) :
    mem 0 = 0x1e ∧ (mem 1).toNat = (lsbPbOutputVarint n).length + 1 ∧
      mem 2 = 0x08 ∧ BytesAt mem 3 (lsbPbOutputVarint n) ∧
      mem ((lsbPbOutputVarint n).length + 3) = 0x1f := by
  have hvarint := lsbPbOutputVarint_length_le hn
  unfold lsbMaxVarintBytes at hvarint
  unfold lsbWriteHekaHeader at h
  dsimp only at h
  rw [bytesAt_append, bytesAt_append, bytesAt_append, bytesAt_cons,
    bytesAt_cons, bytesAt_cons] at h
  rcases h with ⟨⟨⟨⟨h0, h1, h2, _⟩, hlength⟩, hunit⟩, _⟩
  refine ⟨h0, ?_, h2, hlength, ?_⟩
  · rw [h1, UInt8.toNat_ofNat']
    omega
  · rw [bytesAt_cons, List.length_append] at hunit
    have haddress : 0 + ([(0x1e : UInt8),
        UInt8.ofNat ((lsbPbOutputVarint n).length + 1), 0x08].length +
          (lsbPbOutputVarint n).length) =
            (lsbPbOutputVarint n).length + 3 := by
      change 0 + (3 + _) = _
      omega
    rw [← haddress]
    exact hunit.1

theorem headerSize_written (hn : n < 2 ^ 64) (xs : List UInt8) :
    headerSize (lsbWriteHekaHeader n ++ xs) =
      (lsbWriteHekaHeader n).length := by
  have hbytes := header_bytes hn
    (Memory.bytesAt_ofList (lsbWriteHekaHeader n ++ xs))
  unfold headerSize
  rw [hbytes.2.1, length_lsbWriteHekaHeader]

/-- The header announces the message. -/
theorem announced_written (hpos : 0 < n) (hmax : n <= max)
    (hn : n < 2 ^ 63) (xs : List UInt8) :
    announced max (lsbWriteHekaHeader n ++ xs) = n := by
  rcases header_bytes (by omega)
    (Memory.bytesAt_ofList (lsbWriteHekaHeader n ++ xs)) with
    ⟨h0, h1, h2, hvarint, hunit⟩
  have hlength := length_lsbWriteHekaHeader n
  have hone := lsbPbOutputVarint_length_pos (i := n) (by omega)
  have hread := lsbPbReadVarint_output (by omega) hvarint
    (Nat.le_refl (3 + (lsbPbOutputVarint n).length))
  unfold announced
  dsimp only
  generalize Memory.ofList (lsbWriteHekaHeader n ++ xs) = mem at *
  rw [h1, if_neg]
  · unfold decodeHeader
    rw [h2, if_neg (not_not_intro rfl), if_pos (by omega)]
    have hend : 2 + ((lsbPbOutputVarint n).length + 1) =
        3 + (lsbPbOutputVarint n).length := by
      omega
    rw [hend, hread]
    dsimp only
    rw [toLongLong_of_lt hn]
    exact if_pos (by omega)
  · rw [List.length_append]
    rintro (hshort | hmark | hend)
    · omega
    · exact hmark h0
    · exact hend hunit

theorem drop_written (n : Nat) (payload rest : List UInt8) :
    ((lsbWriteHekaHeader n ++ (payload ++ rest)).drop
      (lsbWriteHekaHeader n).length).take payload.length = payload := by
  rw [List.drop_left]
  exact List.take_left

theorem frameVerdict_written {decode : Bool} (hpos : payload ≠ [])
    (hmax : payload.length <= max) (hlt : payload.length < 2 ^ 63)
    (hdecode : decode = true -> decodes payload = true) (rest : List UInt8) :
    frameVerdict decode max
        (lsbWriteHekaHeader payload.length ++ (payload ++ rest)) =
      Verdict.frame ((lsbWriteHekaHeader payload.length).length +
        payload.length) := by
  have hlength : 0 < payload.length := List.length_pos_iff.mpr hpos
  have hsize := headerSize_written (n := payload.length) (by omega)
    (payload ++ rest)
  have hannounced := announced_written hlength hmax hlt (payload ++ rest)
  have hbytes := header_bytes (n := payload.length) (by omega)
    (Memory.bytesAt_ofList
      (lsbWriteHekaHeader payload.length ++ (payload ++ rest)))
  have htake := drop_written payload.length payload rest
  have hheader := length_lsbWriteHekaHeader payload.length
  have htotal : (lsbWriteHekaHeader payload.length ++
      (payload ++ rest)).length =
        (lsbWriteHekaHeader payload.length).length +
          (payload.length + rest.length) := by
    rw [List.length_append, List.length_append]
  unfold frameVerdict
  dsimp only
  rw [hsize, hannounced, htake, if_neg (by omega),
    if_neg (not_not_intro hbytes.1), if_neg (by omega), if_neg (by omega),
    if_neg (by omega)]
  cases decode with
  | false => rfl
  | true =>
      rw [hdecode rfl]
      rfl

theorem raw_framed {decode : Bool}
    (hdecode : decode = true -> decodes payload = true) :
    (framed decode payload).raw = some payload := by
  have hbytes := Memory.bytes_of_bytesAt (Memory.bytesAt_ofList payload)
  cases decode with
  | false => exact congrArg some hbytes
  | true =>
      have hraw := lsbDecodeHekaMessage_raw (Memory.ofList payload) 0
        payload.length
      have hdecodes : (lsbDecodeHekaMessage (Memory.ofList payload) 0
          payload.length).1 = true :=
        hdecode rfl
      rw [if_pos hdecodes] at hraw
      change ConstString.contents (Memory.ofList payload)
        (lsbDecodeHekaMessage (Memory.ofList payload) 0
          payload.length).2.raw = some payload
      rw [hraw]
      exact congrArg some hbytes

/-- A frame that is written for a message is found, its message is the one that
was framed, and what follows is left to be scanned.  The buffer waits for no
message or for this one. -/
theorem lsbFindHekaMessage_written {mem : Memory} (m : HekaMessage)
    {ib : InputBuffer} {decode : Bool} {payload rest : List UInt8}
    (hpos : payload ≠ []) (hmax : payload.length <= ib.maxMessageSize)
    (hunread : ib.unread mem =
      lsbWriteHekaHeader payload.length ++ (payload ++ rest))
    (hmsglen : ib.msglen = 0 ∨ ib.msglen = payload.length)
    (hdecode : decode = true -> decodes payload = true) :
    (lsbWriteHekaHeader payload.length).length <= lsbMinHdrSize ∧
      (lsbFindHekaMessage mem m ib decode).found = true ∧
      (lsbFindHekaMessage mem m ib decode).m.raw.contents mem =
        some payload ∧
      (lsbFindHekaMessage mem m ib decode).discardedBytes = 0 ∧
      (lsbFindHekaMessage mem m ib decode).ib.unread mem = rest := by
  have hlt : payload.length < 2 ^ 63 := by
    have hmaxsize := ib.maxsize_le
    unfold InputBuffer.maxMessageSize lsbMaxHdrSize at hmax
    omega
  have hlength : 0 < payload.length := List.length_pos_iff.mpr hpos
  have hresumable : Resumable mem ib := by
    intro hne
    rw [hunread, announced_written hlength hmax hlt]
    exact hmsglen.resolve_left hne
  have hverdict : (frames decode ib.maxMessageSize).verdict
      (lsbWriteHekaHeader payload.length ++ (payload ++ rest)) =
        Verdict.frame ((lsbWriteHekaHeader payload.length).length +
          payload.length) :=
    frameVerdict_written hpos hmax hlt hdecode rest
  have hscans := lsbFindHekaMessage_scans mem m ib decode hresumable
  rw [hunread, (frames decode ib.maxMessageSize).seek_frame hverdict]
    at hscans
  rw [← List.append_assoc, ← List.length_append, List.take_left,
    List.drop_left] at hscans
  have hframe : Util.payload (lsbWriteHekaHeader payload.length ++ payload) =
      payload := by
    have hsize := headerSize_written (n := payload.length) (by omega) payload
    unfold Util.payload
    rw [hsize, List.drop_left]
  have hraw := congrArg MessageContents.raw (hscans.message _ rfl)
  rw [hframe, raw_framed hdecode] at hraw
  exact ⟨lsbWriteHekaHeader_fits payload.length, hscans.found, hraw,
    hscans.discarded, hscans.unread⟩

end

def oneFrame : InputBuffer :=
  ⟨0, 512, 512, 7, 0, 0, by decide, by decide, by decide, by decide,
    by decide⟩

theorem lsbFindHekaMessage_written_byte :
    (lsbFindHekaMessage (Memory.ofList (lsbWriteHekaHeader 1 ++ ([7] ++ [8])))
      lsbClearHekaMessage oneFrame false).ib.unread
        (Memory.ofList (lsbWriteHekaHeader 1 ++ ([7] ++ [8]))) = [8] := by
  have hpos : [(7 : UInt8)] ≠ [] := List.cons_ne_nil _ _
  have hunread : oneFrame.unread (Memory.ofList (lsbWriteHekaHeader 1 ++
      ([7] ++ [8]))) = lsbWriteHekaHeader 1 ++ ([7] ++ [8]) := by
    decide
  exact (lsbFindHekaMessage_written lsbClearHekaMessage hpos (by decide)
    hunread (Or.inl rfl) (fun h => Bool.noConfusion h)).2.2.2.2

end Heka
end LuaSandbox
