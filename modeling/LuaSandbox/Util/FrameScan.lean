import LuaSandbox.Util.FindMessage

/-!
# Searches and frames

A search in an input buffer finds the leftmost frame of the unread bytes, as
the abstract scanner does.
-/

namespace LuaSandbox
namespace Util

open Foundation

/-!
## The unread bytes
-/

/-- The largest message that the buffer takes. -/
def InputBuffer.maxMessageSize (ib : InputBuffer) : Nat :=
  ib.maxsize - lsbMaxHdrSize

theorem ofList_unread {mem : Memory} {ib : InputBuffer} {i : Nat}
    (h : i < ib.readpos - ib.scanpos) :
    Memory.ofList (ib.unread mem) i = mem (ib.buf + ib.scanpos + i) := by
  have hsame := sameBytes_ofList mem (ib.buf + ib.scanpos)
    (ib.readpos - ib.scanpos) i h
  rw [Nat.zero_add] at hsame
  exact hsame.symm

theorem unread_scanAt {mem : Memory} {ib : InputBuffer}
    {scanpos msglen : Nat} (h : scanpos <= ib.readpos)
    (hle : ib.scanpos <= scanpos) :
    (ib.scanAt scanpos msglen h).unread mem =
      (ib.unread mem).drop (scanpos - ib.scanpos) := by
  rw [InputBuffer.unread, InputBuffer.unread, Memory.drop_bytes]
  change mem.bytes (ib.buf + scanpos) (ib.readpos - scanpos) = _
  congr 1 <;> omega

theorem unread_skipAll (mem : Memory) (ib : InputBuffer) :
    ib.skipAll.unread mem = [] :=
  rfl

theorem headerSize_unread {mem : Memory} {ib : InputBuffer}
    (h : 2 <= ib.readpos - ib.scanpos) :
    headerSize (ib.unread mem) =
      (mem (ib.buf + ib.scanpos + 1)).toNat + 3 := by
  rw [headerSize, ofList_unread (by omega)]

theorem announced_unread {mem : Memory} {ib : InputBuffer} {hlen : Nat}
    (hlength : (mem (ib.buf + ib.scanpos + 1)).toNat = hlen)
    (hfirst : mem (ib.buf + ib.scanpos) = 0x1e)
    (hfit : hlen + 3 <= ib.readpos - ib.scanpos) (max : Nat) :
    announced max (ib.unread mem) =
      if mem (ib.buf + ib.scanpos + (hlen + 2)) ≠ 0x1f then 0
      else decodeHeader mem (ib.buf + ib.scanpos + 2) hlen max := by
  have hsame := sameBytes_ofList mem (ib.buf + ib.scanpos)
    (ib.readpos - ib.scanpos)
  have hheader : decodeHeader mem (ib.buf + ib.scanpos + 2) hlen max =
      decodeHeader (Memory.ofList (ib.unread mem)) (0 + 2) hlen max :=
    decodeHeader_same hsame (by omega)
  unfold announced
  dsimp only
  rw [ofList_unread (by omega), hlength, ofList_unread (by omega),
    ofList_unread (by omega), ib.length_unread mem, hheader]
  refine if_congr ⟨fun h => ?_, fun h => Or.inr (Or.inr h)⟩ rfl rfl
  rcases h with hshort | hmark | hunit
  · omega
  · exact absurd hfirst hmark
  · exact hunit

/-!
## What a search finds
-/

/-- The header of the message that a buffer waits for stands at `scanpos`. -/
def Resumable (mem : Memory) (ib : InputBuffer) : Prop :=
  ib.msglen ≠ 0 ->
    ib.msglen = announced ib.maxMessageSize (ib.unread mem)

/-- The contents of the message in a frame. -/
def framed (decode : Bool) (payload : List UInt8) : MessageContents :=
  if decode then
    decoded payload
  else
    { lsbClearHekaMessage with
      raw := ⟨some 0, payload.length⟩ : HekaMessage }.contents
      (Memory.ofList payload)

/-- A search that starts with the buffer `ib` does what the abstract scanner
does. -/
structure Scans (decode : Bool) (mem : Memory) (ib : InputBuffer)
    (r : Finding) (x : Sought UInt8) : Prop where
  discarded : r.discardedBytes = x.skipped
  found : r.found = x.found.isSome
  unread : r.ib.unread mem = x.rest
  msglen : r.ib.msglen =
    if r.found then 0 else announced ib.maxMessageSize x.rest
  message : forall f, x.found = some f ->
    r.m.contents mem = framed decode (payload f)
  within : r.found = true -> r.m.Within r.ib.buf r.ib.scanpos
  buf : r.ib.buf = ib.buf
  size : r.ib.size = ib.size
  maxsize : r.ib.maxsize = ib.maxsize
  readpos : x.rest ≠ [] -> r.ib.readpos = ib.readpos

theorem Scans.discard {decode : Bool} {mem : Memory} {ib ib' : InputBuffer}
    {r : Finding} {x : Sought UInt8} (h : Scans decode mem ib' r x) (d : Nat)
    (hbuf : ib'.buf = ib.buf) (hsize : ib'.size = ib.size)
    (hmaxsize : ib'.maxsize = ib.maxsize)
    (hreadpos : ib'.readpos = ib.readpos) :
    Scans decode mem ib (r.discard d) (x.skip d) where
  discarded := congrArg (d + ·) h.discarded
  found := h.found
  unread := h.unread
  msglen := by
    rw [InputBuffer.maxMessageSize, ← hmaxsize]
    exact h.msglen
  message := h.message
  within := h.within
  buf := h.buf.trans hbuf
  size := h.size.trans hsize
  maxsize := h.maxsize.trans hmaxsize
  readpos := fun hrest => (h.readpos hrest).trans hreadpos

theorem frameVerdict_unmarked {decode : Bool} {mem : Memory}
    {ib : InputBuffer} {j : Nat} (hj : j < ib.readpos - ib.scanpos)
    (hmark : mem (ib.buf + ib.scanpos + j) ≠ 0x1e) (max : Nat) :
    frameVerdict decode max ((ib.unread mem).drop j) = Verdict.reject := by
  have hlength := ib.length_unread mem
  have hfirst : Memory.ofList ((ib.unread mem).drop j) 0 =
      mem (ib.buf + ib.scanpos + j) := by
    rw [InputBuffer.unread, Memory.drop_bytes]
    have hsame := sameBytes_ofList mem (ib.buf + ib.scanpos + j)
      (ib.readpos - ib.scanpos - j) 0 (by omega)
    rw [Nat.zero_add] at hsame
    exact hsame.symm
  have hne : ((ib.unread mem).drop j).length ≠ 0 := by
    rw [List.length_drop]
    omega
  unfold frameVerdict
  rw [if_neg hne, hfirst, if_pos hmark]

/-- A search skips the bytes in front of the first record separator. -/
theorem seek_memchr_some {decode : Bool} {mem : Memory} {p : Nat}
    {ib : InputBuffer} (hp : mem.memchr 0x1e (ib.buf + ib.scanpos)
      (ib.readpos - ib.scanpos) = some p) (max : Nat) :
    (frames decode max).seek (ib.unread mem) =
      ((frames decode max).seek ((ib.unread mem).drop
        (p - ib.buf - ib.scanpos))).skip (p - ib.buf - ib.scanpos) := by
  rcases Memory.memchr_some hp with ⟨hlow, hhigh, _, hbefore⟩
  have hlength := ib.length_unread mem
  refine (frames decode max).seek_drop (by omega) (fun j hj => ?_)
  exact frameVerdict_unmarked (by omega)
    (hbefore _ (by omega) (by omega)) max

theorem seek_memchr_none {decode : Bool} {mem : Memory}
    {ib : InputBuffer} (hp : mem.memchr 0x1e (ib.buf + ib.scanpos)
      (ib.readpos - ib.scanpos) = none) (max : Nat) :
    (frames decode max).seek (ib.unread mem) =
      ⟨ib.readpos - ib.scanpos, none, []⟩ := by
  have hlength := ib.length_unread mem
  have hreject : forall j, j < ib.readpos - ib.scanpos ->
      frameVerdict decode max ((ib.unread mem).drop j) = Verdict.reject :=
    fun j hj => frameVerdict_unmarked hj
      (Memory.memchr_none hp _ (by omega) (by omega)) max
  rw [(frames decode max).seek_drop (Nat.le_of_eq hlength.symm) hreject,
    ← hlength, List.drop_length]
  rfl

/-!
## Headers at the start of the unread bytes
-/

section

variable {mem : Memory} {ib : InputBuffer} {hlen : Nat}

theorem frameVerdict_short (decode : Bool) (max : Nat)
    (hfirst : mem (ib.buf + ib.scanpos) = 0x1e)
    (hshort : ib.readpos - ib.scanpos < 2 ∨
      ib.readpos - ib.scanpos <
        (mem (ib.buf + ib.scanpos + 1)).toNat + 3) :
    frameVerdict decode max (ib.unread mem) = Verdict.undecided ∧
      announced max (ib.unread mem) = 0 := by
  have hlength := ib.length_unread mem
  have hheader : (ib.unread mem).length < headerSize (ib.unread mem) := by
    by_cases htwo : ib.readpos - ib.scanpos < 2
    · unfold headerSize
      omega
    · rw [headerSize_unread (by omega)]
      omega
  constructor
  · unfold frameVerdict
    dsimp only
    split
    · rfl
    · rename_i hne
      have hmark : ¬ mem (ib.buf + ib.scanpos) ≠ 0x1e := not_not.mpr hfirst
      rw [ofList_unread (by omega), Nat.add_zero, if_neg hmark]
  · exact if_pos (Or.inl hheader)

/-- The verdict on a record separator with a complete header behind it. -/
theorem frameVerdict_complete (decode : Bool) (max : Nat)
    (hfirst : mem (ib.buf + ib.scanpos) = 0x1e)
    (hlength : (mem (ib.buf + ib.scanpos + 1)).toNat = hlen)
    (hfit : hlen + 3 <= ib.readpos - ib.scanpos) :
    frameVerdict decode max (ib.unread mem) =
      if announced max (ib.unread mem) = 0 then Verdict.reject
      else if ib.readpos - ib.scanpos <
          hlen + 3 + announced max (ib.unread mem) then
        Verdict.undecided
      else if decode && !decodes (mem.bytes
          (ib.buf + ib.scanpos + (hlen + 3))
          (announced max (ib.unread mem))) then
        Verdict.reject
      else
        Verdict.frame (hlen + 3 + announced max (ib.unread mem)) := by
  have hsize : headerSize (ib.unread mem) = hlen + 3 := by
    rw [headerSize_unread (by omega), hlength]
  have hunread := ib.length_unread mem
  conv_lhs => unfold frameVerdict
  dsimp only
  have hmark : ¬ mem (ib.buf + ib.scanpos) ≠ 0x1e := not_not.mpr hfirst
  rw [if_neg (by omega), ofList_unread (by omega), Nat.add_zero,
    if_neg hmark, hsize, if_neg (by omega), hunread]
  by_cases hmessage : ib.readpos - ib.scanpos <
      hlen + 3 + announced max (ib.unread mem)
  · rw [if_pos hmessage, if_pos hmessage]
  · have hbytes : ((ib.unread mem).drop (hlen + 3)).take
        (announced max (ib.unread mem)) =
          mem.bytes (ib.buf + ib.scanpos + (hlen + 3))
            (announced max (ib.unread mem)) := by
      rw [InputBuffer.unread, Memory.drop_bytes,
        Memory.take_bytes _ _ (by unfold InputBuffer.unread at hmessage; omega)]
    rw [if_neg hmessage, if_neg hmessage, hbytes]

end

/-!
## Searching
-/

section

variable {decode : Bool} {mem : Memory} {m : HekaMessage} {ib : InputBuffer}

theorem Scans.undecided {msglen : Nat}
    (hverdict : frameVerdict decode ib.maxMessageSize (ib.unread mem) =
      Verdict.undecided)
    (hmsglen : msglen = announced ib.maxMessageSize (ib.unread mem)) :
    Scans decode mem ib
      ⟨false, m, ib.scanAt ib.scanpos msglen ib.scanpos_le, 0⟩
      ((frames decode ib.maxMessageSize).seek (ib.unread mem)) := by
  rw [(frames decode ib.maxMessageSize).seek_undecided hverdict]
  exact {
    discarded := rfl
    found := rfl
    unread := rfl
    msglen := hmsglen
    message := nofun
    within := nofun
    buf := rfl
    size := rfl
    maxsize := rfl
    readpos := fun _ => rfl }

theorem unread_cons (hlt : ib.scanpos < ib.readpos) (msglen : Nat) :
    ib.unread mem = mem (ib.buf + ib.scanpos) ::
      (ib.scanAt (ib.scanpos + 1) msglen hlt).unread mem := by
  have hlength : ib.readpos - ib.scanpos =
      1 + (ib.readpos - (ib.scanpos + 1)) := by omega
  rw [InputBuffer.unread, hlength, Memory.bytes_add]
  rfl

theorem Scans.reject {r : Finding} (msglen : Nat)
    (hlt : ib.scanpos < ib.readpos)
    (hverdict : frameVerdict decode ib.maxMessageSize (ib.unread mem) =
      Verdict.reject)
    (h : Scans decode mem (ib.scanAt (ib.scanpos + 1) msglen hlt) r
      ((frames decode ib.maxMessageSize).seek
        ((ib.scanAt (ib.scanpos + 1) msglen hlt).unread mem))) :
    Scans decode mem ib (r.discard 1)
      ((frames decode ib.maxMessageSize).seek (ib.unread mem)) := by
  rw [unread_cons hlt msglen] at hverdict ⊢
  rw [(frames decode ib.maxMessageSize).seek_reject hverdict]
  exact h.discard 1 rfl rfl rfl rfl

theorem Scans.frame {hlen n mend : Nat}
    (hlength : (mem (ib.buf + ib.scanpos + 1)).toNat = hlen)
    (hmend : mend = ib.scanpos + hlen + 3 + n) (hle : mend <= ib.readpos)
    (hverdict : frameVerdict decode ib.maxMessageSize (ib.unread mem) =
      Verdict.frame (hlen + 3 + n))
    (hmessage : m.contents mem =
      framed decode (mem.bytes (ib.buf + ib.scanpos + (hlen + 3)) n))
    (hwithin : m.Within ib.buf mend) :
    Scans decode mem ib ⟨true, m, ib.scanAt mend 0 hle, 0⟩
      ((frames decode ib.maxMessageSize).seek (ib.unread mem)) := by
  have hscan : ib.scanpos <= mend := by omega
  have hdrop : hlen + 3 + n = mend - ib.scanpos := by omega
  rw [(frames decode ib.maxMessageSize).seek_frame hverdict]
  refine {
    discarded := rfl
    found := rfl
    unread := ?_
    msglen := rfl
    message := fun f hf => ?_
    within := fun _ => hwithin
    buf := rfl
    size := rfl
    maxsize := rfl
    readpos := fun _ => rfl }
  · rw [unread_scanAt hle hscan, hdrop]
  · cases hf
    have hframe : (ib.unread mem).take (hlen + 3 + n) =
        mem.bytes (ib.buf + ib.scanpos) (hlen + 3 + n) :=
      Memory.take_bytes _ _ (by omega)
    have hsize : headerSize (mem.bytes (ib.buf + ib.scanpos)
        (hlen + 3 + n)) = hlen + 3 := by
      have hsame := sameBytes_ofList mem (ib.buf + ib.scanpos)
        (hlen + 3 + n) 1 (by omega)
      rw [Nat.zero_add] at hsame
      rw [headerSize, ← hsame, hlength]
    rw [hmessage, hframe, payload, hsize, Memory.drop_bytes,
      Nat.add_sub_cancel_left]

end

theorem Finding.discard_discard (d d' : Nat) (r : Finding) :
    (r.discard d').discard d = r.discard (d + d') := by
  simp only [Finding.discard, Nat.add_assoc]

theorem resumable_zero {mem : Memory} {ib : InputBuffer}
    (h : ib.msglen = 0) : Resumable mem ib :=
  fun hne => absurd h hne

/-- A message is announced only where a record separator stands. -/
theorem Resumable.marked {mem : Memory} {ib : InputBuffer}
    (h : Resumable mem ib) (hne : ib.msglen ≠ 0) :
    mem (ib.buf + ib.scanpos) = 0x1e ∧ ib.scanpos < ib.readpos := by
  have hannounced := h hne
  have hlength := ib.length_unread mem
  unfold announced at hannounced
  dsimp only at hannounced
  split at hannounced
  · exact absurd hannounced hne
  · rename_i hheader
    have hlt : ib.scanpos < ib.readpos := by omega
    have hbyte : Memory.ofList (ib.unread mem) 0 =
        mem (ib.buf + ib.scanpos) := ofList_unread (by omega)
    rw [← hbyte]
    exact ⟨by_contra fun hmark => hheader (Or.inr (Or.inl hmark)), hlt⟩

theorem Resumable.eq_of_zero {mem : Memory} {ib : InputBuffer}
    (h : Resumable mem ib)
    (hzero : announced ib.maxMessageSize (ib.unread mem) = 0) :
    ib.msglen = announced ib.maxMessageSize (ib.unread mem) := by
  by_cases hne : ib.msglen = 0
  · rw [hne, hzero]
  · exact h hne

theorem framed_raw (mem : Memory) (p n : Nat) :
    HekaMessage.contents mem { lsbClearHekaMessage with raw := ⟨some p, n⟩ } =
      framed false (mem.bytes p n) := by
  have hbytes := Memory.bytes_of_bytesAt
    (Memory.bytesAt_ofList (mem.bytes p n))
  unfold framed
  simp only [Bool.false_eq_true, if_false, HekaMessage.contents,
    ConstString.contents, Option.map_some, hbytes]
  rfl

theorem within_raw {a b n e : Nat} (hlow : b <= a) (hhigh : a + n <= b + e) :
    HekaMessage.Within b e
      { lsbClearHekaMessage with raw := ⟨some a, n⟩ } := by
  obtain ⟨k, rfl⟩ : exists k, a = b + k := ⟨a - b, by omega⟩
  exact { moved_clear b b e with raw := ConstString.Moved.slice (by omega) }

/-- What a look at a record separator says about the unread bytes. -/
inductive Examines (decode : Bool) (mem : Memory) (m : HekaMessage)
    (ib : InputBuffer) : Examined ib -> Prop where
  | wait {msglen : Nat}
      (hverdict : frameVerdict decode ib.maxMessageSize (ib.unread mem) =
        Verdict.undecided)
      (hmsglen : msglen = announced ib.maxMessageSize (ib.unread mem)) :
      Examines decode mem m ib (Examined.wait msglen)
  | resync {m' : HekaMessage}
      (hverdict : frameVerdict decode ib.maxMessageSize (ib.unread mem) =
        Verdict.reject) :
      Examines decode mem m ib (Examined.resync m' 0)
  | message {m' : HekaMessage} {mend n : Nat}
      {hle : ib.scanpos < mend ∧ mend <= ib.readpos}
      (hmend : mend =
        ib.scanpos + (mem (ib.buf + ib.scanpos + 1)).toNat + 3 + n)
      (hverdict : frameVerdict decode ib.maxMessageSize (ib.unread mem) =
        Verdict.frame ((mem (ib.buf + ib.scanpos + 1)).toNat + 3 + n))
      (hmessage : m'.contents mem = framed decode (mem.bytes
        (ib.buf + ib.scanpos + ((mem (ib.buf + ib.scanpos + 1)).toNat + 3))
        n))
      (hwithin : m'.Within ib.buf mend) :
      Examines decode mem m ib (Examined.message m' mend hle)

theorem examine_spec {decode : Bool} {mem : Memory} {m : HekaMessage}
    {ib : InputBuffer} (hfirst : mem (ib.buf + ib.scanpos) = 0x1e)
    (hresumable : Resumable mem ib) :
    Examines decode mem m ib (examine mem m ib decode) := by
  unfold examine
  split
  · rename_i hshort
    rcases frameVerdict_short decode ib.maxMessageSize hfirst
      (Or.inl hshort) with ⟨hverdict, hzero⟩
    exact Examines.wait hverdict (hresumable.eq_of_zero hzero)
  dsimp only
  split
  · rename_i hheader
    rcases frameVerdict_short decode ib.maxMessageSize hfirst
      (Or.inr (by omega)) with ⟨hverdict, hzero⟩
    exact Examines.wait hverdict (hresumable.eq_of_zero hzero)
  rename_i hshort hheader
  have hfit : (mem (ib.buf + ib.scanpos + 1)).toNat + 3 <=
      ib.readpos - ib.scanpos := by omega
  have hannounced := announced_unread rfl hfirst hfit ib.maxMessageSize
  have hverdict := frameVerdict_complete decode ib.maxMessageSize hfirst rfl
    hfit
  have hunit : ib.buf +
      (ib.scanpos + (mem (ib.buf + ib.scanpos + 1)).toNat + 3 - 1) =
        ib.buf + ib.scanpos +
          ((mem (ib.buf + ib.scanpos + 1)).toNat + 2) := by omega
  have haddress : ib.buf +
      (ib.scanpos + (mem (ib.buf + ib.scanpos + 1)).toNat + 3) =
        ib.buf + ib.scanpos +
          ((mem (ib.buf + ib.scanpos + 1)).toNat + 3) := by omega
  rw [hunit, haddress]
  split
  · rename_i hmark
    rw [if_pos hmark] at hannounced
    rw [hannounced, if_pos rfl] at hverdict
    rw [(hresumable.eq_of_zero hannounced).trans hannounced]
    exact Examines.resync hverdict
  rename_i hmark
  rw [if_neg hmark] at hannounced
  have hmsglen : (if ib.msglen = 0 then
      decodeHeader mem (ib.buf + (ib.scanpos + 2))
        (mem (ib.buf + ib.scanpos + 1)).toNat (ib.maxsize - lsbMaxHdrSize)
    else
      ib.msglen) = announced ib.maxMessageSize (ib.unread mem) := by
    by_cases hzero : ib.msglen = 0
    · rw [if_pos hzero, hannounced, Nat.add_assoc]
      rfl
    · rw [if_neg hzero]
      exact hresumable hzero
  simp only [hmsglen]
  split
  · rename_i hne
    rw [if_neg hne] at hverdict
    split
    · rename_i hmend
      rw [if_pos (by omega)] at hverdict
      exact Examines.wait hverdict rfl
    rename_i hmend
    rw [if_neg (by omega)] at hverdict
    generalize announced ib.maxMessageSize (ib.unread mem) = n at *
    cases decode with
    | false =>
        simp only [Bool.false_and, Bool.false_eq_true, if_false] at hverdict ⊢
        refine Examines.message rfl hverdict (framed_raw mem _ n) ?_
        exact within_raw (by omega) (by omega)
    | true =>
        simp only [Bool.true_and, Bool.not_eq_true', if_true] at hverdict ⊢
        have hdecodes := lsbDecodeHekaMessage_eq_decodes mem
          (ib.buf + ib.scanpos +
            ((mem (ib.buf + ib.scanpos + 1)).toNat + 3)) n
        split
        · rename_i m' hdecode
          rw [hdecode] at hdecodes
          rw [← hdecodes, if_neg (by nofun)] at hverdict
          have hcontents := lsbDecodeHekaMessage_contents
            (show (lsbDecodeHekaMessage mem _ n).1 = true by rw [hdecode])
          have hwithin := lsbDecodeHekaMessage_within
            (show (lsbDecodeHekaMessage mem _ n).1 = true by rw [hdecode])
          rw [hdecode] at hcontents hwithin
          refine Examines.message rfl hverdict hcontents ?_
          rw [Nat.add_assoc ib.buf] at hwithin
          exact hwithin.widen (by omega)
        · rename_i m' hdecode
          rw [hdecode] at hdecodes
          rw [← hdecodes, if_pos rfl] at hverdict
          exact Examines.resync hverdict
  · rename_i hzero
    rw [if_pos (not_not.mp hzero)] at hverdict
    exact Examines.resync hverdict

/-- A search does what the abstract scanner does. -/
theorem lsbFindHekaMessage_scans (mem : Memory) (m : HekaMessage)
    (ib : InputBuffer) (decode : Bool) (hresumable : Resumable mem ib) :
    Scans decode mem ib (lsbFindHekaMessage mem m ib decode)
      ((frames decode ib.maxMessageSize).seek (ib.unread mem)) := by
  induction h : ib.readpos - ib.scanpos using Nat.strongRecOn
    generalizing ib m with
  | ind n ih =>
      rw [lsbFindHekaMessage]
      split
      · rename_i hempty
        have hunread : ib.unread mem = [] :=
          List.eq_nil_of_length_eq_zero
            ((ib.length_unread mem).trans (by omega))
        have hverdict : frameVerdict decode ib.maxMessageSize
            (ib.unread mem) = Verdict.undecided := by
          rw [hunread]
          rfl
        have hzero : announced ib.maxMessageSize (ib.unread mem) = 0 := by
          rw [hunread]
          rfl
        exact Scans.undecided hverdict (hresumable.eq_of_zero hzero)
      · rename_i hne
        split
        · rename_i hp
          have hzero : ib.msglen = 0 := by_contra fun hmsglen => by
            rcases hresumable.marked hmsglen with ⟨hmarked, hlt⟩
            exact Memory.memchr_none hp _ (Nat.le_refl _) (by omega) hmarked
          rw [seek_memchr_none hp]
          exact {
            discarded := rfl
            found := rfl
            unread := rfl
            msglen := hzero
            message := fun f hf => by cases hf
            within := fun hf => by cases hf
            buf := rfl
            size := rfl
            maxsize := rfl
            readpos := fun hrest => absurd rfl hrest }
        · rename_i p hp
          rw [seek_memchr_some hp]
          rcases Memory.memchr_some hp with ⟨hlow, hhigh, hfirst, hbefore⟩
          have hlt : p - ib.buf < ib.readpos := by omega
          dsimp only
          have hunread : (ib.scanAt (p - ib.buf) ib.msglen
              (Nat.le_of_lt hlt)).unread mem =
                (ib.unread mem).drop (p - ib.buf - ib.scanpos) :=
            unread_scanAt (Nat.le_of_lt hlt) (by omega)
          have hfirst' : mem (ib.buf + (p - ib.buf)) = 0x1e := by
            rw [Nat.add_sub_cancel' (by omega)]
            exact hfirst
          have hresumable' : Resumable mem
              (ib.scanAt (p - ib.buf) ib.msglen (Nat.le_of_lt hlt)) := by
            -- a message is announced only where nothing is skipped
            intro hmsglen
            rcases hresumable.marked hmsglen with ⟨hmarked, hlt'⟩
            have hstart : p = ib.buf + ib.scanpos :=
              by_contra fun hp' => hbefore _ (Nat.le_refl _) (by omega) hmarked
            have hzero : p - ib.buf - ib.scanpos = 0 := by omega
            rw [hunread, hzero, List.drop_zero]
            exact hresumable hmsglen
          have hexamines : Examines decode mem m
              (ib.scanAt (p - ib.buf) ib.msglen (Nat.le_of_lt hlt)) _ :=
            examine_spec hfirst' hresumable'
          rw [← hunread]
          generalize examine mem m (ib.scanAt (p - ib.buf) ib.msglen
            (Nat.le_of_lt hlt)) decode = r at hexamines
          cases hexamines with
          | wait hverdict hmsglen =>
              exact (Scans.undecided hverdict hmsglen).discard _
                rfl rfl rfl rfl
          | @resync m' hverdict =>
              have hless : ib.readpos - (p - ib.buf + 1) < n := by omega
              have hrest := Scans.reject 0 hlt hverdict
                (ih _ hless m' _ (resumable_zero rfl) rfl)
              have hscans : Scans decode mem ib _ _ := hrest.discard
                (p - ib.buf - ib.scanpos) rfl rfl rfl rfl
              rw [Finding.discard_discard] at hscans
              exact hscans
          | message hmend hverdict hmessage hwithin =>
              exact (Scans.frame rfl hmend _ hverdict hmessage
                hwithin).discard _ rfl rfl rfl rfl

end Util
end LuaSandbox
