import LuaSandbox.Heka.StreamHeld

/-!
# Runs of a reader

The message of a reader over runs of calls.  A call that finds no message may
move the buffer or write over the message that is still held.
-/

namespace LuaSandbox
namespace Heka

open Foundation
open Util

/-!
## What an append writes
-/

/-- An append that asks for a buffer of `total` bytes.  It may write from the
offset `start` on; `pending` unread bytes come to stand at the start of the
buffer, and `count` new bytes behind them. -/
structure Append where
  start : Nat
  pending : Nat
  total : Nat
  count : Nat

/-- No buffer of `total` bytes can be had. -/
def Refused (alloc : Option Nat) (b : InputBuffer) (total : Nat) : Prop :=
  b.size < total ∧ (b.maxsize < total ∨ alloc = none)

instance (alloc : Option Nat) (b : InputBuffer) (total : Nat) :
    Decidable (Refused alloc b total) :=
  inferInstanceAs (Decidable (_ ∧ _))

/-- The first offset that is written when data is added. -/
def writeStart (b : InputBuffer) : Nat :=
  if b.scanpos = 0 then b.readpos else 0

/-- Adding a string to the buffer. -/
def stringAppend (alloc : Option Nat) (b : InputBuffer) (len : Nat) :
    Append :=
  let pending := b.readpos - b.scanpos
  let total := (pending + len) % 2 ^ 64
  ⟨writeStart b, pending, total, if Refused alloc b total then 0 else len⟩

/-- The number of bytes that is asked for while the bytes `rest` are pending
in a buffer of `size` bytes. -/
def neededFor (size maxMessageSize : Nat) (rest : List UInt8) : Nat :=
  let n := announced maxMessageSize rest
  if n ≠ 0 then
    (n + charToSize (Memory.ofList rest 1) + lsbHdrFrameSize +
      (2 ^ 64 - rest.length)) % 2 ^ 64
  else
    size - rest.length

/-- Reading from a file after the buffer has been searched for frames. -/
def fileAppend (alloc : Option Nat) (mem : Memory) (b : InputBuffer)
    (stream : List UInt8) : Append :=
  let x := (frames false b.maxMessageSize).seek (b.unread mem)
  let pending := x.rest.length
  let total :=
    (pending + neededFor b.size b.maxMessageSize x.rest) % 2 ^ 64
  let size := if b.size < total then expandedSize b total else b.size
  let start :=
    if x.rest = [] ∨ b.scanpos + x.skipped ≠ 0 then 0 else b.readpos
  ⟨start, pending, total,
    if Refused alloc b total then 0 else min stream.length (size - pending)⟩

/-- The append leaves the buffer where it is, and writes nothing over the
message. -/
structure Append.Spares (a : Append) (alloc : Option Nat) (b : InputBuffer)
    (m : HekaMessage) : Prop where
  stays : forall tmp, alloc = some tmp -> b.size < a.total ->
    a.total <= b.maxsize -> tmp = b.buf
  apart : forall p len, m.raw = ⟨some p, len⟩ ->
    a.pending + a.count <= a.start ∨ p + len <= b.buf + a.start ∨
      b.buf + (a.pending + a.count) <= p

/-- Some of the bytes are a complete frame. -/
def Framed (maxMessageSize : Nat) (xs : List UInt8) : Prop :=
  ((frames false maxMessageSize).seek xs).found ≠ none

/-!
## Runs
-/

/-- The data that `find_message` adds does no harm to the message held; the
flag says that the other argument is valid. -/
def HarmlessData (alloc : Option Nat) (s : ReaderState) (valid : Bool) :
    Argument -> Prop
  | Argument.string chunk =>
      let a := stringAppend alloc s.hsr.buf chunk.1.length
      chunk.1.length = 0 ∨ a.Spares alloc s.hsr.buf s.hsr.msg ∨
        (valid = true ∧ ¬ Refused alloc s.hsr.buf a.total ∧
          Framed s.hsr.buf.maxMessageSize
            (s.hsr.buf.unread s.mem ++ chunk.1))
  | Argument.file (some stream) =>
      valid = true ->
        (fileAppend alloc s.mem s.hsr.buf stream).Spares alloc s.hsr.buf
            s.hsr.msg ∨
          Framed s.hsr.buf.maxMessageSize (s.hsr.buf.unread s.mem)
  | _ => True

/-- A call that does no harm to the message held, if any. -/
def Harmless (alloc : Option Nat) (s : ReaderState) : HsrCall -> Prop
  | HsrCall.findMessage (data :: rest) =>
      s.hsr.msg.raw.s ≠ none -> rest.length <= 1 ->
        HarmlessData alloc s (validDecode rest) data
  | _ => True

/-- A reader, and the contents that the message found or decoded last had. -/
structure Session where
  state : ReaderState
  last : Option MessageContents

/-- The contents of the message of a reader. -/
def ReaderState.contents (s : ReaderState) : MessageContents :=
  s.hsr.msg.contents s.mem

def Session.call (alloc : Option Nat) (x : Session) (call : HsrCall) :
    Session :=
  match call.run alloc x.state with
  | (delivered, s) => ⟨s, if delivered then some s.contents else x.last⟩

/-- The sessions of a reader all of whose calls satisfy a condition. -/
inductive SessionReachable
    (P : Option Nat -> ReaderState -> HsrCall -> Prop) : Session -> Prop where
  | create {name : String} {mem : Memory} {alloc : Option Nat}
      {maxMessageSize : Nat} {h : maxMessageSize + lsbMaxHdrSize <= 2 ^ 63}
      {s : ReaderState}
      (hs : hekaCreateStreamReader name mem alloc maxMessageSize h = some s) :
      SessionReachable P ⟨s, none⟩
  | call {x : Session} (alloc : Option Nat) (call : HsrCall)
      (hx : SessionReachable P x) (hcall : P alloc x.state call) :
      SessionReachable P (x.call alloc call)

/-- The reader holds no message, or all slices of its message lie in the
buffer and hold the bytes of the message found or decoded last. -/
def NoStaleMessage (x : Session) : Prop :=
  x.state.hsr.msg.raw.s = none ∨
    (x.state.hsr.msg.Within x.state.hsr.buf.buf x.state.hsr.buf.size ∧
      x.last = some x.state.contents)

/-!
## Appends that spare the message
-/

theorem shiftData_writes (mem : Memory) (b : InputBuffer) :
    (shiftData mem b).2.buf = b.buf ∧
      (shiftData mem b).2.size = b.size ∧
      (shiftData mem b).2.maxsize = b.maxsize ∧
      (shiftData mem b).2.readpos = b.readpos - b.scanpos ∧
      forall q, q < b.buf + writeStart b ∨
        b.buf + (b.readpos - b.scanpos) <= q ->
          (shiftData mem b).1 q = mem q := by
  have hscan := b.scanpos_le
  unfold shiftData writeStart
  split
  · rename_i hne
    split
    · exact ⟨rfl, rfl, rfl, by dsimp only; omega, fun _ _ => rfl⟩
    · refine ⟨rfl, rfl, rfl, rfl, fun q hq => ?_⟩
      exact if_neg (by omega)
  · exact ⟨rfl, rfl, rfl, by dsimp only; omega, fun _ _ => rfl⟩

theorem move_self (mem : Memory) (p n : Nat) : mem.move p p n = mem := by
  funext q
  unfold Memory.move
  split
  · congr 1
    omega
  · rfl

/-- What an expansion does that leaves the buffer where it is. -/
theorem lsbExpandInputBuffer_writes {mem mem' : Memory} {alloc : Option Nat}
    {b b' : InputBuffer} {len total : Nat} {e : Option InputBufferError}
    (hexpand : lsbExpandInputBuffer mem alloc b len = (e, mem', b'))
    (htotal : (b.readpos - b.scanpos + len) % 2 ^ 64 = total)
    (hstays : forall tmp, alloc = some tmp -> b.size < total ->
      total <= b.maxsize -> tmp = b.buf) :
    b'.buf = b.buf ∧ b'.readpos = b.readpos - b.scanpos ∧
      b.size <= b'.size ∧
      (forall q, q < b.buf + writeStart b ∨
        b.buf + (b.readpos - b.scanpos) <= q -> mem' q = mem q) ∧
      (e = none -> b'.size =
        if b.size < total then expandedSize b total else b.size) := by
  have hshifted := shiftData_writes mem b
  generalize hshift : shiftData mem b = r at hshifted
  rcases r with ⟨mem₁, b₁⟩
  dsimp only at hshifted
  rcases hshifted with ⟨hbuf, hsize, hmaxsize, hreadpos, hmem⟩
  rcases lsbExpandInputBuffer_cases mem alloc b len hshift with
    ⟨hresult, hroom⟩ | ⟨e', hresult, hroom, hrefused⟩ |
      ⟨tmp, b₂, halloc, hroom, hfull, hresult, hreallocated⟩
  · rw [hreadpos, htotal] at hroom
    rw [hresult] at hexpand
    cases hexpand
    refine ⟨hbuf, hreadpos, Nat.le_of_eq hsize.symm, hmem, ?_⟩
    intro _
    rw [if_neg (by omega)]
    exact hsize
  · rw [hresult] at hexpand
    cases hexpand
    exact ⟨hbuf, hreadpos, Nat.le_of_eq hsize.symm, hmem, nofun⟩
  · rw [hreadpos, htotal] at hroom hfull
    rw [hresult] at hexpand
    cases hexpand
    have htmp := hstays tmp halloc (by omega) (by omega)
    have hgrown : expandedSize b₁ total = expandedSize b total := by
      unfold expandedSize
      rw [hmaxsize]
    have hsize' := hreallocated.size
    rw [hreadpos, htotal, hgrown] at hsize'
    have hle := le_expandedSize (b := b) (hmaxsize ▸ hfull)
    have hmove : mem₁.move tmp b₁.buf b₁.size = mem₁ := by
      rw [htmp, ← hbuf]
      exact move_self mem₁ b₁.buf b₁.size
    rw [hmove]
    refine ⟨hreallocated.buf.trans htmp, hreallocated.readpos.trans hreadpos,
      by omega, hmem, ?_⟩
    intro _
    rw [if_pos (by omega)]
    exact hsize'

theorem lsbExpandInputBuffer_refused {mem mem' : Memory}
    {alloc : Option Nat} {b b' : InputBuffer} {len total : Nat}
    {e : Option InputBufferError}
    (hexpand : lsbExpandInputBuffer mem alloc b len = (e, mem', b'))
    (htotal : (b.readpos - b.scanpos + len) % 2 ^ 64 = total) :
    e ≠ none <-> Refused alloc b total := by
  have hshifted := shiftData_writes mem b
  generalize hshift : shiftData mem b = r at hshifted
  rcases r with ⟨mem₁, b₁⟩
  dsimp only at hshifted
  rcases hshifted with ⟨_, hsize, hmaxsize, hreadpos, _⟩
  rcases lsbExpandInputBuffer_cases mem alloc b len hshift with
    ⟨hresult, hroom⟩ | ⟨e', hresult, hroom, hrefused⟩ |
      ⟨tmp, b₂, halloc, hroom, hfull, hresult, hreallocated⟩
  · rw [hreadpos, htotal] at hroom
    rw [hresult] at hexpand
    cases hexpand
    exact ⟨fun h => absurd rfl h, fun h => absurd h.1 (by omega)⟩
  · rw [hreadpos, htotal, hsize] at hroom
    rw [hreadpos, htotal, hmaxsize] at hrefused
    rw [hresult] at hexpand
    cases hexpand
    exact ⟨fun _ => ⟨hroom, hrefused⟩, nofun⟩
  · rw [hreadpos, htotal, hmaxsize] at hfull
    rw [hresult] at hexpand
    cases hexpand
    refine ⟨fun h => absurd rfl h, ?_⟩
    rintro ⟨_, hlarge | hnone⟩
    · omega
    · rw [hnone] at halloc
      cases halloc

/-- The message held, with its contents. -/
structure Holding (s : ReaderState) (c : MessageContents) : Prop where
  held : Held s.hsr.buf.buf s.hsr.buf.size s.hsr.msg
  contents : s.contents = c

theorem Held.contents_eq {b n : Nat} {m : HekaMessage} (h : Held b n m)
    {mem mem' : Memory}
    (hmem : forall p len, m.raw = ⟨some p, len⟩ ->
      forall i, i < len -> mem' (p + i) = mem (p + i)) :
    m.contents mem' = m.contents mem := by
  rcases h.raw with ⟨p, len, hraw, _, _⟩
  have hwithin := h.within p (congrArg ConstString.s hraw)
  refine HekaMessage.Moved.contents_eq hwithin ?_
  rw [hraw]
  exact hmem p len hraw

section

variable {alloc : Option Nat} {s s' : ReaderState} {c : MessageContents}

/-- Making room keeps the message, if the append spares it. -/
theorem Holding.expand {mem : Memory} {b : InputBuffer} {len : Nat}
    {e : Option InputBufferError} {a : Append}
    (hexpand : lsbExpandInputBuffer s.mem alloc s.hsr.buf len = (e, mem, b))
    (hstart : a.start = writeStart s.hsr.buf)
    (hpending : a.pending = s.hsr.buf.readpos - s.hsr.buf.scanpos)
    (htotal : a.total = (a.pending + len) % 2 ^ 64)
    (hspares : a.Spares alloc s.hsr.buf s.hsr.msg) (h : Holding s c) :
    Holding (s.withBuffer (mem, b)) c := by
  rw [hpending] at htotal
  rcases lsbExpandInputBuffer_writes hexpand htotal.symm hspares.stays with
    ⟨hbuf, _, hsize, hmem, _⟩
  refine ⟨?_, ?_⟩
  · change Held b.buf b.size s.hsr.msg
    rw [hbuf]
    exact h.held.widen hsize
  · refine (h.held.contents_eq (fun p n hraw i hi => hmem _ ?_)).trans
      h.contents
    have hapart := hspares.apart p n hraw
    rw [hstart, hpending] at hapart
    omega

/-- So does adding the bytes behind the data. -/
theorem Holding.addData {mem : Memory} {b : InputBuffer} {len : Nat}
    {data : List UInt8} {a : Append}
    (hexpand : lsbExpandInputBuffer s.mem alloc s.hsr.buf len =
      (none, mem, b))
    (hfits : b.readpos + data.length <= b.size)
    (hstart : a.start = writeStart s.hsr.buf)
    (hpending : a.pending = s.hsr.buf.readpos - s.hsr.buf.scanpos)
    (htotal : a.total = (a.pending + len) % 2 ^ 64)
    (hcount : a.count = data.length)
    (hspares : a.Spares alloc s.hsr.buf s.hsr.msg) (h : Holding s c) :
    Holding (s.withBuffer (Util.addData mem b data hfits)) c := by
  have hkept := h.expand hexpand hstart hpending htotal hspares
  rw [hpending] at htotal
  rcases lsbExpandInputBuffer_writes hexpand htotal.symm hspares.stays with
    ⟨hbuf, hreadpos, _, _, _⟩
  refine ⟨hkept.held, ?_⟩
  refine (hkept.held.contents_eq (fun p n hraw i hi => ?_)).trans
    hkept.contents
  have hapart := hspares.apart p n hraw
  rw [hstart, hpending, hcount] at hapart
  unfold writeStart at hapart
  change mem.write (b.buf + b.readpos) data (p + i) = mem (p + i)
  unfold Memory.write
  split at hapart
  · exact if_neg (by omega)
  · exact if_neg (by omega)

end

/-!
## Searches while a message is held
-/

theorem frameVerdict_unframed {decode : Bool} {max : Nat} {xs : List UInt8}
    (h : forall n, frameVerdict false max xs ≠ Verdict.frame n) :
    frameVerdict decode max xs = frameVerdict false max xs := by
  unfold frameVerdict at h ⊢
  dsimp only at h ⊢
  split
  · rfl
  rename_i hne
  split
  · rfl
  rename_i hmark
  split
  · rfl
  rename_i hheader
  split
  · rfl
  rename_i hzero
  split
  · rfl
  rename_i hmessage
  rw [if_neg hne, if_neg hmark, if_neg hheader, if_neg hzero,
    if_neg hmessage] at h
  exact absurd rfl (h _)

/-- Where no frame is complete, nothing is decoded. -/
theorem seek_unframed {decode : Bool} {max : Nat} {xs : List UInt8}
    (h : ¬ Framed max xs) :
    (frames decode max).seek xs = (frames false max).seek xs := by
  induction xs with
  | nil => rfl
  | cons x xs ih =>
      have hverdict : frameVerdict decode max (x :: xs) =
          frameVerdict false max (x :: xs) := by
        refine frameVerdict_unframed (fun n hn => h ?_)
        have hn' : (frames false max).verdict (x :: xs) = Verdict.frame n := hn
        unfold Framed
        rw [(frames false max).seek_frame hn']
        nofun
      cases hv : (frames false max).verdict (x :: xs) with
      | reject =>
          have hseek := (frames false max).seek_reject hv
          have hseek' := (frames decode max).seek_reject (hverdict.trans hv)
          rw [hseek, hseek', ih]
          intro hframed
          refine h ?_
          unfold Framed
          rw [hseek]
          exact hframed
      | undecided =>
          have hv' : (frames decode max).verdict (x :: xs) =
              Verdict.undecided := hverdict.trans hv
          rw [(frames false max).seek_undecided hv,
            (frames decode max).seek_undecided hv']
      | frame n =>
          refine absurd ?_ h
          unfold Framed
          rw [(frames false max).seek_frame hv]
          nofun

section

variable {alloc : Option Nat} {s s' : ReaderState} {c : MessageContents}
  {last : Option MessageContents}

/-- What a search does to the message that is held. -/
theorem search_holding (decode : Bool) (hresumable : s.Resumable) :
    let r := lsbFindHekaMessage s.mem s.hsr.msg s.hsr.buf decode
    (r.found = true ∧ Holding (s.searched r) (s.searched r).contents) ∨
      (r.found = false ∧ (r.m.raw.s = none ∨
        (¬ Framed s.hsr.buf.maxMessageSize (s.hsr.buf.unread s.mem) ∧
          forall c, Holding s c -> Holding (s.searched r) c))) := by
  intro r
  have hscans : Scans decode s.mem s.hsr.buf r _ :=
    lsbFindHekaMessage_scans s.mem s.hsr.msg s.hsr.buf decode hresumable
  have hframed := lsbFindHekaMessage_framed s.mem s.hsr.msg s.hsr.buf decode
    hresumable
  rcases lsbFindHekaMessage_held s.mem s.hsr.msg s.hsr.buf decode with
    ⟨hfound, hheld⟩ | ⟨hfound, hm | hraw⟩
  · refine Or.inl ⟨hfound, ⟨?_, rfl⟩⟩
    change Held r.ib.buf r.ib.size r.m
    rw [hscans.buf, hscans.size]
    exact Held.widen hheld s.hsr.buf.readpos_le
  · by_cases hraw : r.m.raw.s = none
    · exact Or.inr ⟨hfound, Or.inl hraw⟩
    refine Or.inr ⟨hfound, Or.inr ⟨fun hf => ?_, fun c h => ?_⟩⟩
    · rcases hframed hf with htrue | hnone
      · exact absurd htrue (Bool.eq_false_iff.mp hfound)
      · exact hraw hnone
    · have hm' : r.m = s.hsr.msg := hm
      refine ⟨?_, ?_⟩
      · change Held r.ib.buf r.ib.size r.m
        rw [hscans.buf, hscans.size, hm']
        exact h.held
      · change r.m.contents s.mem = c
        rw [hm']
        exact h.contents
  · exact Or.inr ⟨hfound, Or.inl hraw⟩

/-- The append from a file that follows a search without a frame. -/
theorem fileAppend_searched (alloc : Option Nat) (stream : List UInt8)
    {decode : Bool} {r : Finding} (hresumable : s.Resumable)
    (hr : lsbFindHekaMessage s.mem s.hsr.msg s.hsr.buf decode = r)
    (hfound : r.found = false)
    (hunframed : ¬ Framed s.hsr.buf.maxMessageSize
      (s.hsr.buf.unread s.mem)) :
    let a := fileAppend alloc s.mem s.hsr.buf stream
    a.start = writeStart r.ib ∧
      a.pending = r.ib.readpos - r.ib.scanpos ∧
      a.total = (a.pending + needed s.mem r.ib) % 2 ^ 64 := by
  have hscans := lsbFindHekaMessage_scans s.mem s.hsr.msg s.hsr.buf decode
    hresumable
  unfold fileAppend
  dsimp only
  rw [hr, seek_unframed hunframed] at hscans
  have hunread := hscans.unread
  have hmsglen := hscans.msglen
  have hreadpos := hscans.readpos
  have hsize := hscans.size
  rw [hfound, if_neg (by nofun)] at hmsglen
  have hnone : ((frames false s.hsr.buf.maxMessageSize).seek
      (s.hsr.buf.unread s.mem)).found = none := not_not.mp hunframed
  have hconserves := congrArg List.length ((frames false
    s.hsr.buf.maxMessageSize).seek_conserves (s.hsr.buf.unread s.mem))
  have hskipped := (frames false s.hsr.buf.maxMessageSize).seek_skipped_le
    (s.hsr.buf.unread s.mem)
  rw [hnone, List.length_append, List.length_append, List.length_take,
    Nat.min_eq_left hskipped, InputBuffer.length_unread] at hconserves
  have hlength := congrArg List.length hunread
  rw [InputBuffer.length_unread] at hlength
  have hscan := s.hsr.buf.scanpos_le
  have hscan' := r.ib.scanpos_le
  generalize hx : (frames false s.hsr.buf.maxMessageSize).seek
    (s.hsr.buf.unread s.mem) = x at *
  have hneeded : neededFor s.hsr.buf.size s.hsr.buf.maxMessageSize x.rest =
      needed s.mem r.ib := by
    unfold neededFor needed
    dsimp only
    rw [hmsglen, hsize]
    split
    · rename_i hne
      have hheader := (headerSize_le_of_announced hne).1
      unfold headerSize at hheader
      have hbyte : Memory.ofList x.rest 1 =
          s.mem (r.ib.buf + r.ib.scanpos + 1) := by
        rw [← hunread]
        exact ofList_unread (by omega)
      rw [hbyte, hlength]
    · omega
  refine ⟨?_, hlength.symm, by rw [hneeded]⟩
  unfold writeStart
  by_cases hrest : x.rest = []
  · rw [if_pos (Or.inl hrest)]
    rw [hrest] at hlength
    split
    · change r.ib.readpos - r.ib.scanpos = 0 at hlength
      omega
    · rfl
  · have hread := hreadpos hrest
    have hrest' : x.rest.length ≠ 0 :=
      fun hzero => hrest (List.eq_nil_of_length_eq_zero hzero)
    change _ = x.skipped + 0 + x.rest.length at hconserves
    by_cases hpos : s.hsr.buf.scanpos + x.skipped = 0
    · rw [if_neg (by simp [hrest, hpos]), if_pos (by omega), hread]
    · rw [if_pos (Or.inr hpos), if_neg (by omega)]

/-- Adding data keeps the message, unless a frame is complete with it. -/
theorem Fed.holding {data : Argument} {fh : Option (Option (List UInt8))}
    {valid : Bool} (h : Fed alloc s data fh s')
    (hharmless : HarmlessData alloc s valid data) (hold : Holding s c) :
    Holding s' c ∨ (valid = true ∧ fh = some none ∧
      Framed s'.hsr.buf.maxMessageSize (s'.hsr.buf.unread s'.mem)) := by
  cases h with
  | kept => exact Or.inl hold
  | file => exact Or.inl hold
  | @failed chunk e mem b hdata hne hexpand =>
      subst hdata
      rcases hharmless with hempty | hspares | ⟨_, hroom, _⟩
      · exact absurd hempty hne
      · exact Or.inl (hold.expand hexpand rfl rfl rfl hspares)
      · exact absurd ((lsbExpandInputBuffer_refused hexpand rfl).mp nofun)
          hroom
  | @added chunk mem b hdata hne hexpand =>
      subst hdata
      rcases hharmless with hempty | hspares | ⟨hvalid, _, hframed⟩
      · exact absurd hempty hne
      · have hroom : ¬ Refused alloc s.hsr.buf (stringAppend alloc s.hsr.buf
            chunk.1.length).total :=
          fun hr => (lsbExpandInputBuffer_refused hexpand rfl).mpr hr rfl
        exact Or.inl (hold.addData hexpand _ rfl rfl rfl (if_neg hroom)
          hspares)
      · rcases lsbExpandInputBuffer_keeps hexpand with
          ⟨hunread, _, hmaxsize⟩
        have hmax : b.maxMessageSize = s.hsr.buf.maxMessageSize :=
          congrArg (· - lsbMaxHdrSize) hmaxsize
        have hfits := lsbExpandInputBuffer_fits_chunk hexpand
        have hdata : (addData mem b chunk.1 hfits).2.unread
            (addData mem b chunk.1 hfits).1 = b.unread mem ++ chunk.1 :=
          unread_addData hfits
        refine Or.inr ⟨hvalid, rfl, ?_⟩
        change Framed b.maxMessageSize
          ((addData mem b chunk.1 hfits).2.unread
            (addData mem b chunk.1 hfits).1)
        rw [hmax, hdata, hunread]
        exact hframed

theorem Fed.raw {data : Argument} {fh : Option (Option (List UInt8))}
    (h : Fed alloc s data fh s') : s'.hsr.msg = s.hsr.msg := by
  cases h with
  | kept => rfl
  | file => rfl
  | failed => rfl
  | added => rfl

/-- Reading from the file keeps the message, if the append spares it. -/
theorem Reported.holding {fh : Option (List UInt8)} {r : Finding}
    {result : Option FindResult} {decode : Bool}
    (h : Reported alloc s fh r result s') (hresumable : s.Resumable)
    (hr : lsbFindHekaMessage s.mem s.hsr.msg s.hsr.buf decode = r)
    (hunframed : ¬ Framed s.hsr.buf.maxMessageSize
      (s.hsr.buf.unread s.mem))
    (hspares : forall stream, fh = some stream -> (fileAppend alloc s.mem
      s.hsr.buf stream).Spares alloc s.hsr.buf r.m)
    (hold : Holding (s.searched r) c) : Holding s' c := by
  have hscans := lsbFindHekaMessage_scans s.mem s.hsr.msg s.hsr.buf decode
    hresumable
  rw [hr] at hscans
  have hwhere : forall {a : Append}, a.Spares alloc s.hsr.buf r.m ->
      a.Spares alloc r.ib r.m := by
    intro a ha
    refine ⟨?_, ?_⟩
    · rw [hscans.size, hscans.maxsize, hscans.buf]
      exact ha.stays
    · rw [hscans.buf]
      exact ha.apart
  cases h with
  | searched => exact hold
  | @failed stream e mem b hfh hfound hexpand =>
      rcases fileAppend_searched alloc stream hresumable hr hfound hunframed
        with ⟨hstart, hpending, htotal⟩
      exact hold.expand (s := s.searched r) hexpand hstart hpending htotal
        (hwhere (hspares stream hfh))
  | @filled stream mem b result hresult hfh hfound hexpand =>
      rcases fileAppend_searched alloc stream hresumable hr hfound hunframed
        with ⟨hstart, hpending, htotal⟩
      have hspares' := hwhere (hspares stream hfh)
      refine hold.addData (s := s.searched r) hexpand _ hstart hpending
        htotal ?_ hspares'
      -- the file fills the buffer that was made room in
      have htotal' := htotal
      rw [hpending] at htotal'
      rcases lsbExpandInputBuffer_writes hexpand htotal'.symm hspares'.stays
        with ⟨_, hreadpos, _, _, hsize⟩
      have hroom : ¬ Refused alloc s.hsr.buf
          (fileAppend alloc s.mem s.hsr.buf stream).total := by
        intro hrefused
        refine (lsbExpandInputBuffer_refused hexpand htotal'.symm).mpr ?_ rfl
        unfold Refused at hrefused ⊢
        rw [hscans.size, hscans.maxsize]
        exact hrefused
      have hgrown : b.size =
          if s.hsr.buf.size < (fileAppend alloc s.mem s.hsr.buf stream).total
          then expandedSize s.hsr.buf
            (fileAppend alloc s.mem s.hsr.buf stream).total
          else s.hsr.buf.size := by
        rw [hsize rfl, hscans.size]
        unfold expandedSize
        rw [hscans.maxsize]
      have hcount : (fileAppend alloc s.mem s.hsr.buf stream).count =
          min stream.length (b.size -
            (fileAppend alloc s.mem s.hsr.buf stream).pending) := by
        rw [hgrown]
        exact if_neg hroom
      rw [hcount, List.length_take, hpending, hreadpos, Nat.min_comm]

/-- The reader holds no message, or the last one. -/
def NoneOrHolding (s : ReaderState) (last : Option MessageContents) : Prop :=
  s.hsr.msg.raw.s = none ∨ exists c, last = some c ∧ Holding s c

/-- The message after a call: a new one if the call delivered one, and else
the old one or none. -/
def Updated (delivered : Bool) (s' : ReaderState)
    (last : Option MessageContents) : Prop :=
  if delivered then Holding s' s'.contents else NoneOrHolding s' last

/-- A search and what is reported of it. -/
theorem reportSearch_updated {decode : Bool} {fh : Option (List UInt8)}
    {result : Except HsrError FindResult}
    (h : reportSearch alloc s fh
      (lsbFindHekaMessage s.mem s.hsr.msg s.hsr.buf decode) = (result, s'))
    (hresumable : s.Resumable)
    (hold : s.hsr.msg.raw.s ≠ none -> Framed s.hsr.buf.maxMessageSize
        (s.hsr.buf.unread s.mem) ∨
      exists c, last = some c ∧ Holding s c ∧
        forall stream, fh = some stream ->
          (fileAppend alloc s.mem s.hsr.buf stream).Spares alloc s.hsr.buf
            s.hsr.msg) :
    Updated (result.toOption.any FindResult.found) s' last := by
  have hreported := reportSearch_reported h
  generalize result.toOption = o at hreported ⊢
  generalize hr : lsbFindHekaMessage s.mem s.hsr.msg s.hsr.buf decode = r
    at hreported
  have hsearch := search_holding decode hresumable
  have hframed := lsbFindHekaMessage_framed s.mem s.hsr.msg s.hsr.buf decode
    hresumable
  have hkept := lsbFindHekaMessage_held s.mem s.hsr.msg s.hsr.buf decode
  dsimp only at hsearch hkept
  rw [hr] at hsearch hframed hkept
  rcases hsearch with ⟨hfound, hholding⟩ | ⟨hfound, hmessage⟩
  · cases hreported with
    | searched hresult hfh =>
        change Updated (FindResult.found _) _ last
        rw [hresult, hfound]
        exact hholding
    | failed hfh hfound' => exact absurd hfound (by rw [hfound']; nofun)
    | filled hresult hfh hfound' =>
        exact absurd hfound (by rw [hfound']; nofun)
  · have hdelivered : o.any FindResult.found = false := by
      cases hreported with
      | searched hresult hfh => exact hresult.trans hfound
      | failed => rfl
      | filled hresult => exact hresult
    have hraw : r.m.raw.s = none -> s'.hsr.msg.raw.s = none := by
      intro hnone
      cases hreported with
      | searched => exact hnone
      | failed => exact hnone
      | filled => exact hnone
    rw [hdelivered]
    change NoneOrHolding s' last
    by_cases hnone : r.m.raw.s = none
    · exact Or.inl (hraw hnone)
    have hm : r.m = s.hsr.msg := by
      rcases hkept with ⟨htrue, _⟩ | ⟨_, hm | hnone'⟩
      · exact absurd htrue (by rw [hfound]; nofun)
      · exact hm
      · exact absurd hnone' hnone
    rcases hmessage with hnone' | ⟨hunframed, hmove⟩
    · exact absurd hnone' hnone
    rcases hold (hm ▸ hnone) with hf | ⟨c, hlast, hholding, hspares⟩
    · exact absurd hf hunframed
    · refine Or.inr ⟨c, hlast, hreported.holding hresumable hr hunframed ?_
        (hmove c hholding)⟩
      rw [hm]
      exact hspares

theorem hsrFindMessage_updated {args : List Argument}
    {result : Except HsrError FindResult}
    (h : hsrFindMessage alloc s args = (result, s'))
    (hresumable : s.Resumable)
    (hharmless : Harmless alloc s (HsrCall.findMessage args))
    (hold : NoneOrHolding s last) :
    Updated (result.toOption.any FindResult.found) s' last := by
  unfold hsrFindMessage at h
  generalize hoptions : searchOptions alloc s args = r at h
  rcases r with ⟨options, s₁⟩
  have hresumable₁ := searchOptions_resumable hoptions hresumable
  rcases searchOptions_fed hoptions with
    ⟨rfl, hnone⟩ | ⟨data, rest, fh, rfl, hrest, hfed, hfh⟩
  · cases options with
    | ok options => cases hnone
    | error e =>
        cases h
        exact hold
  · have hraw := hfed.raw
    have hfeed : s₁.hsr.msg.raw.s ≠ none ->
        (exists c, last = some c ∧ Holding s₁ c) ∨ (validDecode rest = true ∧
          fh = some none ∧ Framed s₁.hsr.buf.maxMessageSize
            (s₁.hsr.buf.unread s₁.mem)) := by
      intro hne
      rw [hraw] at hne
      rcases hold with hnone | ⟨c, hlast, hholding⟩
      · exact absurd hnone hne
      rcases hfed.holding (hharmless hne hrest) hholding with
        hholding' | hframed
      · exact Or.inl ⟨c, hlast, hholding'⟩
      · exact Or.inr hframed
    cases options with
    | error e =>
        cases h
        change NoneOrHolding s' last
        by_cases hne : s'.hsr.msg.raw.s = none
        · exact Or.inl hne
        · rcases hfeed hne with hholding | ⟨hvalid, hsome, _⟩
          · exact Or.inr hholding
          · rw [hvalid, hsome] at hfh
            cases hfh
    | ok options =>
        refine reportSearch_updated h hresumable₁ (fun hne => ?_)
        rcases hfeed hne with ⟨c, hlast, hholding⟩ | ⟨_, _, hframed⟩
        · -- the file was part of the condition on the state before the call
          by_cases hfile : exists stream, options.fh = some stream
          · rcases hfile with ⟨stream, hstream⟩
            have hvalid : validDecode rest = true := by
              by_contra hv
              rw [if_neg hv] at hfh
              cases hfh
            rw [if_pos hvalid] at hfh
            have hfh' : fh = some (some stream) :=
              hfh.symm.trans (congrArg some hstream)
            cases hfed with
            | kept hno => exact absurd hfh' (hno stream)
            | file hdata =>
                cases hfh'
                subst hdata
                rcases hharmless hne hrest hvalid with hspares | hframed
                · refine Or.inr ⟨c, hlast, hholding, fun stream' hstream' => ?_⟩
                  cases hstream.symm.trans hstream'
                  exact hspares
                · exact Or.inl hframed
            | failed => cases hfh'
            | added => cases hfh'
          · exact Or.inr ⟨c, hlast, hholding, fun stream hstream =>
              absurd ⟨stream, hstream⟩ hfile⟩
        · exact Or.inl hframed

/-- Decoding a string delivers a message or leaves none behind, unless it
fails before anything is written. -/
theorem hsrDecodeMessage_updated {args : List Argument}
    {result : Except HsrError Unit}
    (h : hsrDecodeMessage alloc s args = (result, s'))
    (hold : NoneOrHolding s last) :
    Updated result.toOption.isSome s' last := by
  -- the positions do not matter to the message that is held
  have hcleared : NoneOrHolding ⟨s.mem,
      { s.hsr with buf := clearPositions s.hsr.buf }⟩ last := by
    rcases hold with hnone | ⟨c, hlast, hholding⟩
    · exact Or.inl hnone
    · exact Or.inr ⟨c, hlast, hholding.held, hholding.contents⟩
  unfold hsrDecodeMessage at h
  split at h
  · dsimp only at h
    split at h
    · rename_i data
      split at h
      · cases h
        exact hcleared
      split at h
      · rename_i e mem b hexpand
        cases h
        change NoneOrHolding _ last
        rcases hcleared with hnone | ⟨c, hlast, hholding⟩
        · exact Or.inl hnone
        · have hrefused := (lsbExpandInputBuffer_refused hexpand rfl).mp nofun
          have hspares : (stringAppend alloc (clearPositions s.hsr.buf)
              data.1.length).Spares alloc (clearPositions s.hsr.buf)
                s.hsr.msg := by
            refine ⟨fun tmp htmp _ hfull => ?_, fun p len _ => Or.inl ?_⟩
            · rcases hrefused.2 with hlarge | hnone
              · exact absurd hlarge (Nat.not_lt.mpr hfull)
              · rw [hnone] at htmp
                cases htmp
            · change 0 + ite _ _ _ <= 0
              rw [if_pos hrefused]
          exact Or.inr ⟨c, hlast, Holding.expand (s := ⟨s.mem,
            { s.hsr with buf := clearPositions s.hsr.buf }⟩) hexpand
            rfl rfl rfl hspares hholding⟩
      rename_i hne mem b hexpand
      have hfits := lsbExpandInputBuffer_fits_chunk hexpand
      split at h
      · rename_i m hdecode
        cases h
        have hraw := lsbDecodeHekaMessage_raw (mem.write b.buf data.1) b.buf
          data.1.length
        rw [hdecode] at hraw
        exact Or.inl (congrArg ConstString.s hraw)
      · rename_i m hdecode
        cases h
        have hheld : Held b.buf b.size _ := held_of_decoded
          (congrArg Prod.fst hdecode) (Nat.le_refl _) (by omega)
        rw [hdecode] at hheld
        exact ⟨hheld, rfl⟩
    · cases h
      exact hcleared
  · cases h
    exact hold

end

theorem Held.isWithin {b n : Nat} {m : HekaMessage} (h : Held b n m) :
    m.Within b n := by
  rcases h.raw with ⟨p, len, hraw, hlow, hhigh⟩
  have hwithin := h.within p (congrArg ConstString.s hraw)
  obtain ⟨k, rfl⟩ : exists k, p = b + k := ⟨p - b, by omega⟩
  refine hwithin.widen ?_
  rw [hraw]
  change k + len <= n
  omega

/-- What every call that does no harm keeps. -/
structure SessionInvariant (x : Session) : Prop where
  resumable : x.state.Resumable
  message : NoneOrHolding x.state x.last

theorem Updated.message {delivered : Bool} {s : ReaderState}
    {last : Option MessageContents} (h : Updated delivered s last) :
    NoneOrHolding s (if delivered then some s.contents else last) := by
  cases delivered with
  | true => exact Or.inr ⟨_, rfl, h⟩
  | false => exact h

theorem SessionInvariant.call {x : Session} {alloc : Option Nat}
    {call : HsrCall} (h : SessionInvariant x)
    (hcall : Harmless alloc x.state call) :
    SessionInvariant (x.call alloc call) := by
  cases call with
  | decodeMessage args =>
      generalize hr : hsrDecodeMessage alloc x.state args = r
      rcases r with ⟨result, s'⟩
      have hresumable := hsrDecodeMessage_resumable hr h.resumable
      have hmessage := (hsrDecodeMessage_updated hr h.message).message
      cases result with
      | ok r =>
          simp only [Session.call, HsrCall.run, hr]
          exact ⟨hresumable, hmessage⟩
      | error e =>
          simp only [Session.call, HsrCall.run, hr]
          exact ⟨hresumable, hmessage⟩
  | findMessage args =>
      generalize hr : hsrFindMessage alloc x.state args = r
      rcases r with ⟨result, s'⟩
      have hresumable := hsrFindMessage_resumable hr h.resumable
      have hmessage := (hsrFindMessage_updated hr h.resumable hcall
        h.message).message
      cases result with
      | ok r =>
          simp only [Session.call, HsrCall.run, hr]
          exact ⟨hresumable, hmessage⟩
      | error e =>
          simp only [Session.call, HsrCall.run, hr]
          exact ⟨hresumable, hmessage⟩
  | readMessage args => exact h
  | injectMessage => exact h

theorem sessionInvariant_reachable {x : Session}
    (h : SessionReachable Harmless x) : SessionInvariant x := by
  induction h with
  | create hs =>
      refine ⟨(HsrReachable.create hs).resumable, Or.inl ?_⟩
      unfold hekaCreateStreamReader at hs
      split at hs
      · split at hs
        · cases hs
        · cases hs
          rfl
      · cases hs
  | call alloc call hx hcall ih => exact ih.call hcall

/--
In every run whose calls do no harm, the reader holds no message or the one
found or decoded last.
-/
theorem noStaleMessage_reachable {x : Session}
    (h : SessionReachable Harmless x) : NoStaleMessage x := by
  rcases (sessionInvariant_reachable h).message with
    hnone | ⟨c, hlast, hholding⟩
  · exact Or.inl hnone
  · refine Or.inr ⟨hholding.held.isWithin, ?_⟩
    rw [hlast, hholding.contents]

/-- A frame with a message of twenty bytes. -/
def sampleFrame : Chunk :=
  ⟨[0x1e, 2, 8, 20, 0x1f, 10, 16] ++ List.replicate 16 0 ++ [16, 6],
    by decide⟩

/-- A reader that found the message of a frame. -/
def sampleSession : Session :=
  Session.call none ⟨newReader, none⟩
    (HsrCall.findMessage [Argument.string sampleFrame])

theorem sampleSession_reachable : SessionReachable Harmless sampleSession := by
  have hcreate : hekaCreateStreamReader "" (fun _ => 0) (some 0) 1000
      (by decide) = some newReader := rfl
  refine SessionReachable.call none _ (SessionReachable.create hcreate) ?_
  exact fun hne => absurd rfl hne

theorem noStaleMessage_reachable_sample :
    NoStaleMessage (sampleSession.call none (HsrCall.findMessage
      [Argument.string ⟨[0x61, 0x62], by decide⟩])) := by
  refine noStaleMessage_reachable (SessionReachable.call none _
    sampleSession_reachable (fun _ _ => ?_))
  -- two bytes are written in front of the message, which starts at offset 5
  refine Or.inr (Or.inl ⟨fun tmp htmp => absurd htmp nofun, ?_⟩)
  intro p len hraw
  have hp : sampleSession.state.hsr.msg.raw = ⟨some 5, 20⟩ := by
    decide +kernel
  cases hp.symm.trans hraw
  exact Or.inr (Or.inr (by decide +kernel))

/-- Ten bytes without a frame are written over the message that is held. -/
theorem staleMessage :
    ¬ forall x : Session, SessionReachable (fun _ _ _ => True) x ->
      NoStaleMessage x := by
  intro h
  have hcreate : hekaCreateStreamReader "" (fun _ => 0) (some 0) 1000
      (by decide) = some newReader := rfl
  have hreachable := SessionReachable.call none
    (HsrCall.findMessage [Argument.string
      ⟨List.replicate 10 0x78, by decide⟩])
    (SessionReachable.call none
      (HsrCall.findMessage [Argument.string sampleFrame])
      (SessionReachable.create (P := fun _ _ _ => True) hcreate) trivial)
    trivial
  rcases h _ hreachable with hnone | ⟨_, hlast⟩
  · exact absurd hnone (by decide +kernel)
  · exact absurd hlast (by decide +kernel)

end Heka
end LuaSandbox
