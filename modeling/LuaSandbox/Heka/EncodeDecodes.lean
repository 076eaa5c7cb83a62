import LuaSandbox.Heka.EncodeComplete
import LuaSandbox.Heka.EncodeFuel
import LuaSandbox.Util.DecodePieces

/-!
# Encoded tables are decoded

The decoder accepts what the encoder leaves in the buffer, and reads the
message that the table was read as.
-/

namespace LuaSandbox
namespace Heka

open Foundation
open Lua
open Util
open Core

/-!
## Values
-/

theorem fieldValues_nonempty (n : Nat) (v : Value) (vs : List Value) :
    (fieldValues n (v :: vs)).Nonempty := by
  unfold fieldValues
  split
  · exact List.cons_ne_nil _ _
  · exact List.cons_ne_nil _ _
  · exact List.cons_ne_nil _ _
  · exact List.cons_ne_nil _ _
  · exact List.cons_ne_nil _ _

section

variable {env : EncodeEnv} {cfg : HekaConfig} {L L' : LuaState}
  {below t : Value} {fields : List FieldContent} {m : MessageContent}

theorem ValueReads.nonempty {representation representation' : Option (List UInt8)}
    {valueType : Int} {v : Value} {values : FieldValues}
    (h : ValueReads env L below representation valueType v representation'
      values L') : values.Nonempty := by
  induction h with
  | scalar => exact fieldValues_nonempty _ _ _
  | array => exact fieldValues_nonempty _ _ _
  | object _ _ _ _ _ ih => exact ih
  | userdata => exact True.intro
  | lightuserdata => exact True.intro

theorem ObjectsRead.nonempty {f : Nat} {i : Int} {e : Value}
    (h : ObjectsRead env f L i e fields L') :
    forall c, c ∈ fields -> c.values.Nonempty := by
  have hobject : forall {L L' obj representation values},
      ObjectReads env L obj representation values L' ->
        values.Nonempty := by
    rintro L L' obj representation values ⟨_, _, _, _, _, _, _, _, _, hvalue⟩
    exact hvalue.nonempty
  induction h with
  | last _ _ hreads _ =>
      intro c hc
      cases List.mem_singleton.mp hc
      exact hobject hreads
  | more _ _ hreads _ _ ih =>
      intro c hc
      rcases List.mem_cons.mp hc with rfl | hc
      · exact hobject hreads
      · exact ih c hc

theorem EntriesRead.nonempty {f : Nat} {k : Value}
    (h : EntriesRead env below f L k fields L') :
    forall c, c ∈ fields -> c.values.Nonempty := by
  induction h with
  | done => exact fun c hc => absurd hc List.not_mem_nil
  | entry _ _ hvalue _ ih =>
      intro c hc
      rcases List.mem_cons.mp hc with rfl | hc
      · exact hvalue.nonempty
      · exact ih c hc

theorem FieldsRead.nonempty (h : FieldsRead env below t L fields L') :
    forall c, c ∈ fields -> c.values.Nonempty := by
  cases h with
  | none => exact fun c hc => absurd hc List.not_mem_nil
  | objects _ _ hobjects => exact hobjects.nonempty
  | entries _ _ hentries => exact hentries.nonempty

theorem MessageReads.nonempty (h : MessageReads env cfg below t L m L') :
    forall c, c ∈ m.fields -> c.values.Nonempty := by
  rcases h with ⟨_, _, _, _, _, _, hfields⟩
  exact hfields.nonempty

/-!
## Runs
-/

variable {fuel : Nat} {s s1 : EncState}

/-- How a run that ends without an error has ended. -/
theorem outcome_of_run (hreads : MessageReads env cfg below t s.lua m L')
    (h : (hekaEncodeMessageTable env cfg fuel below t).run s =
      (Except.ok (), s1)) :
    MessageOutcome cfg m L' (cleared s).w (Except.ok (), s1) := by
  rcases hreads.outcome with ⟨n0, houtcome⟩
  have hmore := (continues_message env cfg (Nat.le_max_left fuel n0) below
    t).run_eq_ok h
  have hlast := houtcome (max fuel n0) (Nat.le_max_right fuel n0) s rfl
  rw [hmore] at hlast
  exact hlast

/-- The room for a NUL keeps the message below the size of an object. -/
theorem fits_piece_lt {w : WriteState} (h : Fits m.piece w) :
    m.piece.bytes.length < 2 ^ 63 := by
  have hroom : (Piece.room 1).need = 1 := rfl
  have hcapacity := w.ob.capacity_le
  have hbytes : m.piece.bytes.length =
      (MessageContent.uuidPiece m.uuid ++ m.records).bytes.length :=
    congrArg List.length (List.append_nil _)
  unfold Fits MessageContent.piece at h
  rw [Piece.need_append] at h
  unfold maxObjectSize at hcapacity
  omega

/-- The buffer holds a message that is decoded as it was read, if the uuid was
not left out. -/
theorem decodes_of_run (hreads : MessageReads env cfg below t s.lua m L')
    (h : (hekaEncodeMessageTable env cfg fuel below t).run s =
      (Except.ok (), s1))
    (hcfg : cfg.restrictedHeaders = true ∨ LimitHoldsUuid s.w.ob.maxsize) :
    exists hm, HoldsMessage s1.w.ob.buf hm m ∧
      lsbDecodeHekaMessage s1.w.ob.buf 0 s1.w.ob.pos = (true, hm) := by
  have hnonempty := hreads.nonempty
  have houtcome := outcome_of_run hreads h
  cases houtcome with
  | whole _ hemitted hfits =>
      have hcontents := contents_of_emitted hemitted
      rcases OutputBuffer.contents_eq_iff.mp hcontents with ⟨hpos, hbytes⟩
      rw [hpos]
      exact lsbDecodeHekaMessage_of_bytesAt hnonempty (fits_piece_lt hfits)
        hbytes
  | withoutUuid hfalse _ _ _ hfull =>
      rcases hreads with ⟨uuid, _, _, huuid, _⟩
      rw [huuid, fits_uuid_iff rfl] at hfull
      rcases hcfg with htrue | hlimit
      · rw [hfalse] at htrue
        cases htrue
      · exact absurd hlimit hfull

end

end Heka
end LuaSandbox
