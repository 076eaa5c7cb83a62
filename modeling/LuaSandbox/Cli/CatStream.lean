import LuaSandbox.Cli.CatLoop

/-!
# Streams that are written again

The messages that are output as a stream are found in it again, and nothing
else is: `lsb_heka_cat -h` behind another one changes nothing.
-/

namespace LuaSandbox
namespace Cli

open Foundation Util
open Heka (lsbWriteHekaHeader)

/-!
## Written messages
-/

/-- A message that can be framed. -/
structure Frameable (max : Nat) (p : List UInt8) : Prop where
  ne_nil : p ≠ []
  length_le : p.length <= max
  length_lt : p.length < 2 ^ 63
  decodes : decodes p = true

def written (p : List UInt8) : List UInt8 :=
  lsbWriteHekaHeader p.length ++ p

section

variable {max : Nat} {p : List UInt8} {ps : List (List UInt8)}

theorem verdict_written (h : Frameable max p) (rest : List UInt8) :
    (frames true max).verdict (written p ++ rest) =
      Verdict.frame (written p).length := by
  have hverdict : frameVerdict true max _ = _ :=
    Heka.frameVerdict_written h.ne_nil h.length_le h.length_lt
      (fun _ => h.decodes) rest
  unfold written
  rw [List.append_assoc, List.length_append]
  exact hverdict

theorem payload_written (h : p.length < 2 ^ 63) :
    payload (written p) = p := by
  have hsize := Heka.headerSize_written (n := p.length) (by omega) p
  unfold payload written
  rw [hsize, List.drop_left]

/-- The frames of what is written are the messages that were written. -/
theorem drain_written (h : forall p, p ∈ ps -> Frameable max p)
    (rest : List UInt8) :
    (frames true max).drain (ps.flatMap written ++ rest) =
      Drained.append ⟨ps.map written, 0, []⟩
        ((frames true max).drain rest) := by
  induction ps with
  | nil =>
      unfold Drained.append
      rw [List.flatMap_nil, List.nil_append, List.map_nil, List.nil_append,
        Nat.zero_add]
  | cons p ps ih =>
      have hp := h p List.mem_cons_self
      have hrest := ih (fun q hq => h q (List.mem_cons_of_mem _ hq))
      have hseek := (frames true max).seek_frame
        (verdict_written hp (ps.flatMap written ++ rest))
      rw [List.take_left, List.drop_left] at hseek
      rw [List.flatMap_cons, List.append_assoc,
        (frames true max).drain_of_some (f := written p) (by rw [hseek]),
        hseek, hrest, ← Drained.append_assoc]
      rfl

/-- The part of a written frame that has arrived is waited with. -/
theorem drain_partial (h : Frameable max p) {xs : List UInt8}
    (hxs : xs <+: written p) (hlt : xs.length < (written p).length) :
    (frames true max).drain xs = ⟨[], 0, xs⟩ ∧
      (announced max xs ≠ 0 -> headerSize xs < 128 + 3) := by
  rcases hxs with ⟨ys, hys⟩
  have hundecided : (frames true max).verdict xs = Verdict.undecided := by
    by_contra hne
    have hstable := (frames true max).stable ys hne
    have hverdict := verdict_written h []
    rw [List.append_nil, ← hys, hstable] at hverdict
    have hle := (frames true max).frame_le hverdict
    rw [hys] at hle
    omega
  refine ⟨(frames true max).drain_undecided hundecided, ?_⟩
  intro hne
  have hle := (Heka.headerSize_le_of_announced hne).1
  have hpos : 0 < xs.length := by
    unfold headerSize at hle
    omega
  have hsize := (announced_append max ys hle hpos).2
  have hwritten := Heka.headerSize_written (n := p.length)
    (by have := h.length_lt; omega) p
  have hfits := Heka.lsbWriteHekaHeader_fits p.length
  change headerSize (written p) = _ at hwritten
  rw [hys, hwritten] at hsize
  unfold Heka.lsbMinHdrSize at hfits
  omega

/-- The beginning of what is written is a number of frames and a part of the
next one. -/
theorem prefix_written {xs : List UInt8}
    (h : xs <+: ps.flatMap written) :
    exists (qs : List (List UInt8)) (rest : List UInt8),
      xs = qs.flatMap written ++ rest ∧
      (forall q, q ∈ qs -> q ∈ ps) ∧
      (rest = [] ∨ exists p, p ∈ ps ∧ rest <+: written p ∧
        rest.length < (written p).length) := by
  induction ps generalizing xs with
  | nil =>
      have hnil : xs = [] := List.prefix_nil.mp h
      exact ⟨[], [], hnil, fun q hq => hq, Or.inl rfl⟩
  | cons p ps ih =>
      rw [List.flatMap_cons] at h
      by_cases hlt : xs.length < (written p).length
      · refine ⟨[], xs, rfl, fun q hq => absurd hq List.not_mem_nil, ?_⟩
        right
        refine ⟨p, List.mem_cons_self, ?_, hlt⟩
        exact List.prefix_of_prefix_length_le h (List.prefix_append _ _)
          (Nat.le_of_lt hlt)
      · have hfirst : written p <+: xs :=
          List.prefix_of_prefix_length_le (List.prefix_append _ _) h
            (Nat.not_lt.mp hlt)
        rcases hfirst with ⟨ys, rfl⟩
        have hys := (List.prefix_append_right_inj _).mp h
        rcases ih hys with ⟨qs, rest, rfl, hqs, hrest⟩
        refine ⟨p :: qs, rest, ?_, ?_, ?_⟩
        · rw [List.flatMap_cons, List.append_assoc]
        · intro q hq
          rcases List.mem_cons.mp hq with rfl | hmem
          · exact List.mem_cons_self
          · exact List.mem_cons_of_mem _ (hqs q hmem)
        · rcases hrest with hnil | ⟨p', hp', hpart⟩
          · exact Or.inl hnil
          · exact Or.inr ⟨p', List.mem_cons_of_mem _ hp', hpart⟩

theorem shortHeaders_written (h : forall p, p ∈ ps -> Frameable max p) :
    ShortHeaders max (ps.flatMap written) := by
  intro done hdone hne
  rcases prefix_written hdone with ⟨qs, rest, rfl, hqs, hrest⟩
  rw [drain_written (fun q hq => h q (hqs q hq))] at hne ⊢
  change announced max ((frames true max).drain rest).pending ≠ 0 at hne
  change headerSize ((frames true max).drain rest).pending < _
  rcases hrest with rfl | ⟨p, hp, hpart, hlt⟩
  · rw [(frames true max).drain_undecided (frames true max).verdict_nil]
      at hne
    exact absurd rfl hne
  · rcases drain_partial (h p hp) hpart hlt with ⟨hdrain, hshort⟩
    rw [hdrain] at hne ⊢
    exact hshort hne

end

/-!
## Found messages
-/

section

variable {max : Nat}

/-- What is found can be framed again. -/
theorem frameable_payload (hmax : max < 2 ^ 63) {xs f : List UInt8}
    (h : f ∈ ((frames true max).drain xs).frames) :
    Frameable max (payload f) := by
  induction hlength : xs.length using Nat.strongRecOn generalizing xs with
  | ind n ih =>
      cases hfound : ((frames true max).seek xs).found with
      | none =>
          rw [(frames true max).drain_of_none hfound] at h
          exact absurd h List.not_mem_nil
      | some g =>
          rw [(frames true max).drain_of_some hfound] at h
          rcases List.mem_cons.mp h with rfl | hrest
          · rcases (frames true max).seek_found hfound with ⟨hverdict, htake⟩
            rcases frameVerdict_frame hverdict with
              ⟨hsize, hle, hne, hdecodes⟩
            generalize xs.drop ((frames true max).seek xs).skipped = ys at *
            have hheader : headerSize f = headerSize ys := by
              have hsplit : f ++ ys.drop f.length = ys := by
                nth_rewrite 1 [htake]
                exact List.take_append_drop f.length ys
              have hthree : 3 <= headerSize ys := Nat.le_add_left _ _
              have hbyte := ofList_append f (ys.drop f.length) 1 (by omega)
              rw [hsplit, Nat.zero_add] at hbyte
              unfold headerSize
              rw [hbyte]
            have hpayload : payload f =
                (ys.drop (headerSize ys)).take (announced max ys) := by
              unfold payload
              rw [hheader, htake, hsize, List.drop_take,
                Nat.add_sub_cancel_left]
            have hannounced := Heka.announced_le max ys
            have hplength : (payload f).length = announced max ys := by
              rw [hpayload, List.length_take, List.length_drop]
              omega
            constructor
            · intro hnil
              rw [hnil] at hplength
              exact hne hplength.symm
            · omega
            · omega
            · rw [hpayload]
              exact hdecodes rfl
          · exact ih _ (hlength ▸ (frames true max).seek_rest_lt hfound)
              hrest rfl

/-- A found message is output as the frame that is written for it. -/
theorem outputHeka_eq {p : List UInt8} (h : Frameable max p) {mem : Memory}
    {msg : HekaMessage} (hcontents : msg.contents mem = framed true p) :
    outputHeka mem msg = written p := by
  have hraw := congrArg MessageContents.raw hcontents
  rw [Heka.raw_framed (fun _ => h.decodes)] at hraw
  change msg.raw.contents mem = some p at hraw
  have hlength : msg.raw.len = p.length := by
    rcases Option.map_eq_some_iff.mp hraw with ⟨a, _, hbytes⟩
    rw [← hbytes, Memory.length_bytes]
  unfold outputHeka written
  rw [hraw, hlength]
  rfl

/-- Each message that was processed stands for a frame that is found. -/
theorem payloads_of_seenAll (hmax : max < 2 ^ 63) {xs : List UInt8}
    {seen : Seen} (h : SeenAll max xs seen) :
    forall e, e ∈ seen -> exists p, Frameable max p ∧
      e.2.contents e.1 = framed true p := by
  intro e he
  have hmem : e.2.contents e.1 ∈
      seen.map (fun e => e.2.contents e.1) := List.mem_map_of_mem he
  rw [h] at hmem
  rcases List.mem_map.mp hmem with ⟨f, hf, hcontents⟩
  exact ⟨payload f, frameable_payload hmax hf, hcontents.symm⟩

/-- The messages that are output, and what they are output as. -/
theorem outputs_written {o : CatOptions} (ho : o.ofn = some outputHeka)
    {seen : Seen}
    (h : forall e, e ∈ seen -> exists p, Frameable max p ∧
      e.2.contents e.1 = framed true p) :
    exists ps : List (List UInt8), (forall p, p ∈ ps -> Frameable max p) ∧
      seen.map (fun e => e.2.contents e.1) = ps.map (framed true) ∧
      seen.flatMap (fun e => o.output e.1 e.2) = ps.flatMap written := by
  induction seen with
  | nil => exact ⟨[], fun p hp => absurd hp List.not_mem_nil, rfl, rfl⟩
  | cons e seen ih =>
      rcases ih (fun e' he' => h e' (List.mem_cons_of_mem _ he')) with
        ⟨ps, hps, hcontents, houtput⟩
      rcases h e List.mem_cons_self with ⟨p, hp, hfirst⟩
      refine ⟨p :: ps, ?_, ?_, ?_⟩
      · exact List.forall_mem_cons.mpr ⟨hp, hps⟩
      · rw [List.map_cons, List.map_cons, hfirst, hcontents]
      · have hout : o.output e.1 e.2 = outputHeka e.1 e.2 := by
          unfold CatOptions.output
          rw [ho]
        rw [List.flatMap_cons, List.flatMap_cons, hout,
          outputHeka_eq hp hfirst, houtput]

/-- Messages that are framed alike are the same bytes. -/
theorem map_framed_injective {ps ps' : List (List UInt8)}
    (hps : forall p, p ∈ ps -> Frameable max p)
    (hps' : forall p, p ∈ ps' -> Frameable max p)
    (h : ps.map (framed true) = ps'.map (framed true)) : ps = ps' := by
  have hraw : forall {qs : List (List UInt8)},
      (forall q, q ∈ qs -> Frameable max q) ->
        (qs.map (framed true)).map MessageContents.raw = qs.map some := by
    intro qs hqs
    rw [List.map_map]
    apply List.map_congr_left
    intro q hq
    exact Heka.raw_framed (fun _ => (hqs q hq).decodes)
  have hsome := congrArg (List.map MessageContents.raw) h
  rw [hraw hps, hraw hps'] at hsome
  exact List.map_injective_iff.mpr (Option.some_injective _) hsome

end

/-!
## One program behind the other
-/

/-- A message that is its identifier and a timestamp. -/
def smallMessage : List UInt8 :=
  0x0a :: 0x10 :: List.replicate 16 0x07 ++ [0x10, 0x01]

theorem frameable_smallMessage : Frameable (2 ^ 30) smallMessage where
  ne_nil := by decide
  length_le := by decide
  length_lt := by decide
  decodes := by decide +kernel

/-- The buffer of the program. -/
theorem zero_le_catSize : 0 <= 8192 := by
  decide

theorem catSize_le : 8192 <= 1073742082 := by
  decide

theorem hdr_lt_catMax : lsbMaxHdrSize < 1073742082 := by
  decide

theorem catMax_le : 1073742082 <= 2 ^ 63 := by
  decide

def catBuffer : InputBuffer where
  buf := 0
  size := 8192
  maxsize := 1073742082
  readpos := 0
  scanpos := 0
  msglen := 0
  scanpos_le := scanpos_zero
  readpos_le := zero_le_catSize
  size_le := catSize_le
  hdr_lt := hdr_lt_catMax
  maxsize_le := catMax_le

theorem lsbInitInputBuffer_catBuffer :
    lsbInitInputBuffer (some 0) (2 ^ 30) (by decide) = some catBuffer := by
  unfold lsbInitInputBuffer
  rw [dif_neg (by decide)]
  rfl

/-- All messages, as a stream. -/
def catStream : CatOptions where
  evaluate := fun _ _ => true
  ofn := some outputHeka
  realloc := fun _ => some 0

theorem catStream_realloc (b : InputBuffer) : catStream.realloc b ≠ none :=
  Option.some_ne_none 0

def smallFile : List UInt8 := [smallMessage].flatMap written

theorem shortHeaders_smallFile : ShortHeaders (2 ^ 30) smallFile := by
  apply shortHeaders_written
  intro p hp
  rw [List.mem_singleton.mp hp]
  exact frameable_smallMessage

theorem loop_prefix_small :
    catStream.loop 64 (startCat (fun _ => 0) catBuffer smallFile) =
        Except.error CatStop.exitFailure ∨
      exists r done seen,
        catStream.loop 64 (startCat (fun _ => 0) catBuffer smallFile) =
          Except.ok r ∧ smallFile = done ++ r.file ∧
        SeenAll (2 ^ 30) done seen ∧ Tallied catStream seen r :=
  loop_prefix catStream lsbInitInputBuffer_catBuffer (fun _ => 0) smallFile
    (by decide)

theorem loop_frames_small :
    exists r seen,
      catStream.loop 64 (startCat (fun _ => 0) catBuffer smallFile) =
        Except.ok r ∧ r.file = [] ∧ SeenAll (2 ^ 30) smallFile seen ∧
      Tallied catStream seen r :=
  loop_frames catStream lsbInitInputBuffer_catBuffer catStream_realloc
    (fun _ => 0) shortHeaders_smallFile (by decide)

end Cli
end LuaSandbox
