import LuaSandbox.Heka.StreamReader

/-!
# The bytes that a reader asks for

A search that stops inside a frame tells how many bytes are missing.
-/

namespace LuaSandbox
namespace Heka

open Foundation
open Util

/-!
## Reachable readers
-/

/-- The announced message of a reader, if any, stands at its `scanpos`. -/
def ReaderState.Resumable (s : ReaderState) : Prop :=
  Util.Resumable s.mem s.hsr.buf

section

variable {alloc : Option Nat} {s s' : ReaderState}

theorem expand_resumable {e : Option InputBufferError} {mem : Memory}
    {b : InputBuffer} {len : Nat}
    (hexpand : lsbExpandInputBuffer s.mem alloc s.hsr.buf len = (e, mem, b))
    (h : s.Resumable) : (s.withBuffer (mem, b)).Resumable := by
  rcases lsbExpandInputBuffer_keeps hexpand with ⟨hunread, hmsglen, hmaxsize⟩
  have hnil : b.unread mem = s.hsr.buf.unread s.mem ++ [] :=
    hunread.trans (List.append_nil _).symm
  exact h.append hnil hmsglen hmaxsize

theorem addData_resumable {mem : Memory} {b : InputBuffer}
    {data : List UInt8} (hfits : b.readpos + data.length <= b.size)
    (h : (s.withBuffer (mem, b)).Resumable) :
    (s.withBuffer (addData mem b data hfits)).Resumable :=
  h.append (unread_addData hfits) rfl rfl

theorem Fed.resumable {data : Argument}
    {fh : Option (Option (List UInt8))} (h : Fed alloc s data fh s')
    (hresumable : s.Resumable) : s'.Resumable := by
  cases h with
  | kept => exact hresumable
  | file => exact hresumable
  | failed hdata hne hexpand => exact expand_resumable hexpand hresumable
  | added hdata hne hexpand =>
      exact addData_resumable _ (expand_resumable hexpand hresumable)

theorem searchOptions_resumable {args : List Argument}
    {r : Except HsrError SearchOptions}
    (h : searchOptions alloc s args = (r, s')) (hresumable : s.Resumable) :
    s'.Resumable := by
  rcases searchOptions_fed h with ⟨rfl, _⟩ | ⟨data, rest, fh, _, _, hfed, _⟩
  · exact hresumable
  · exact hfed.resumable hresumable

theorem searched_resumable {decode : Bool} {x : Sought UInt8} {r : Finding}
    (h : Scans decode s.mem s.hsr.buf r x) : (s.searched r).Resumable := by
  intro hne
  have hmsglen : r.ib.msglen = _ := h.msglen
  change r.ib.msglen ≠ 0 at hne
  change r.ib.msglen = announced r.ib.maxMessageSize (r.ib.unread s.mem)
  cases hfound : r.found with
  | true =>
      rw [hmsglen, hfound] at hne
      exact absurd rfl hne
  | false =>
      rw [hmsglen, hfound, h.unread, InputBuffer.maxMessageSize,
        InputBuffer.maxMessageSize, h.maxsize]
      rfl

theorem Reported.resumable {fh : Option (List UInt8)} {r : Finding}
    {result : Option FindResult} (h : Reported alloc s fh r result s')
    (hresumable : (s.searched r).Resumable) : s'.Resumable := by
  cases h with
  | searched => exact hresumable
  | failed hfh hfound hexpand =>
      exact expand_resumable (s := s.searched r) hexpand hresumable
  | filled hresult hfh hfound hexpand =>
      exact addData_resumable _
        (expand_resumable (s := s.searched r) hexpand hresumable)

theorem hsrFindMessage_resumable {args : List Argument}
    {result : Except HsrError FindResult}
    (h : hsrFindMessage alloc s args = (result, s'))
    (hresumable : s.Resumable) : s'.Resumable := by
  unfold hsrFindMessage at h
  split at h
  · rename_i hoptions
    cases h
    exact searchOptions_resumable hoptions hresumable
  · rename_i options s₁ hoptions
    have hresumable₁ := searchOptions_resumable hoptions hresumable
    have hscans := lsbFindHekaMessage_scans s₁.mem s₁.hsr.msg s₁.hsr.buf
      options.decode hresumable₁
    exact (reportSearch_reported h).resumable (searched_resumable hscans)

theorem hsrDecodeMessage_resumable {args : List Argument}
    {result : Except HsrError Unit}
    (h : hsrDecodeMessage alloc s args = (result, s'))
    (hresumable : s.Resumable) : s'.Resumable := by
  have hcleared : forall {e : Option InputBufferError} {mem : Memory}
      {b : InputBuffer} {len : Nat}, lsbExpandInputBuffer s.mem alloc
        (clearPositions s.hsr.buf) len = (e, mem, b) -> b.msglen = 0 :=
    fun hexpand => (lsbExpandInputBuffer_keeps hexpand).2.1
  unfold hsrDecodeMessage at h
  split at h
  · dsimp only at h
    split at h
    · split at h
      · cases h
        exact resumable_zero rfl
      split at h
      · rename_i hexpand
        cases h
        exact resumable_zero (hcleared hexpand)
      rename_i hexpand
      split at h
      · cases h
        exact resumable_zero (hcleared hexpand)
      · cases h
        exact resumable_zero (hcleared hexpand)
    · cases h
      exact resumable_zero rfl
  · cases h
    exact hresumable

end

theorem HsrReachable.resumable {s : ReaderState} (h : HsrReachable s) :
    s.Resumable := by
  induction h with
  | create hs =>
      unfold hekaCreateStreamReader at hs
      split at hs
      · split at hs
        · cases hs
        · rename_i hinit
          cases hs
          unfold lsbInitInputBuffer at hinit
          split at hinit
          · cases hinit
          · rcases Option.map_eq_some_iff.mp hinit with ⟨buf, _, rfl⟩
            exact resumable_zero rfl
      · cases hs
  | call alloc call hs ih =>
      cases call with
      | decodeMessage args =>
          rename_i s
          generalize hr : hsrDecodeMessage alloc s args = r
          rcases r with ⟨result, s'⟩
          have h' := hsrDecodeMessage_resumable hr ih
          cases result <;> simpa only [HsrCall.run, hr] using h'
      | findMessage args =>
          rename_i s
          generalize hr : hsrFindMessage alloc s args = r
          rcases r with ⟨result, s'⟩
          have h' := hsrFindMessage_resumable hr ih
          cases result <;> simpa only [HsrCall.run, hr] using h'
      | readMessage args => exact ih
      | injectMessage => exact ih

/-!
## Frames that are not complete
-/

theorem decodeHeader_le (mem : Memory) (buf len max : Nat) :
    decodeHeader mem buf len max <= max := by
  unfold decodeHeader
  split
  · exact Nat.zero_le _
  split
  · split
    · exact Nat.zero_le _
    · rename_i hlen p vi hvarint
      split
      · rename_i hrange
        have hvi := (lsbPbReadVarint_bounds hvarint (by omega)).2.2
        have hlow : toLongLong vi = vi ∨ toLongLong vi < 0 := by
          unfold toLongLong
          rw [Nat.mod_eq_of_lt hvi]
          split
          · exact Or.inl rfl
          · exact Or.inr (by omega)
        omega
      · exact Nat.zero_le _
  · exact Nat.zero_le _

theorem announced_le (max : Nat) (xs : List UInt8) :
    announced max xs <= max := by
  unfold announced
  dsimp only
  split
  · exact Nat.zero_le _
  · exact decodeHeader_le _ _ _ _

/-- Where a message is announced, its header is complete. -/
theorem headerSize_le_of_announced {max : Nat} {xs : List UInt8}
    (h : announced max xs ≠ 0) :
    headerSize xs <= xs.length ∧ Memory.ofList xs 0 = 0x1e := by
  unfold announced at h
  dsimp only at h
  split at h
  · exact absurd rfl h
  · rename_i hheader
    constructor
    · unfold headerSize
      omega
    · exact by_contra fun hmark => hheader (Or.inr (Or.inl hmark))

/-- A frame whose message is announced is undecided only while it is not
complete. -/
theorem frameVerdict_undecided_iff {decode : Bool} {max : Nat}
    {xs : List UInt8} (h : announced max xs ≠ 0) :
    frameVerdict decode max xs = Verdict.undecided <->
      xs.length < headerSize xs + announced max xs := by
  rcases headerSize_le_of_announced h with ⟨hheader, hmark⟩
  have hpos : ¬ xs.length = 0 := by
    unfold headerSize at hheader
    omega
  unfold frameVerdict
  dsimp only
  rw [if_neg hpos, if_neg (not_not.mpr hmark), if_neg (Nat.not_lt.mpr hheader),
    if_neg h]
  constructor
  · intro hverdict
    by_contra hcomplete
    rw [if_neg hcomplete] at hverdict
    split at hverdict <;> cases hverdict
  · intro hshort
    rw [if_pos hshort]

/-!
## The number of missing bytes
-/

/-- The header length of the frame at `scanpos`. -/
def headerLength (mem : Memory) (b : InputBuffer) : Nat :=
  (mem (b.buf + b.scanpos + 1)).toNat

/-- The reader looks at the frame at `scanpos` and does not wait for more. -/
def IsExamined (mem : Memory) (b : InputBuffer) : Prop :=
  forall m decode msglen, examine mem m b decode ≠ Examined.wait msglen

/-- `n` bytes complete the frame that the buffer `b` holds the start of. -/
structure NeedExact (mem : Memory) (b : InputBuffer) (n : Nat) : Prop where
  missing : (n : Int) = b.scanpos + headerLength mem b + lsbHdrFrameSize +
    b.msglen - b.readpos
  pos : 0 < n
  expands : forall tmp, (lsbExpandInputBuffer mem (some tmp) b n).1 = none
  completes : forall tmp chunk, chunk.1.length = n ->
    exists mem' b', appendChunk mem (some tmp) b chunk = some (mem', b') ∧
      IsExamined mem' b'

/-- A buffer that holds the start of a frame. -/
structure Pending (mem : Memory) (b : InputBuffer) : Prop where
  announced : b.msglen = announced b.maxMessageSize (b.unread mem)
  ne_zero : b.msglen ≠ 0
  short : b.readpos - b.scanpos < headerLength mem b + 3 + b.msglen

section

variable {mem : Memory} {b : InputBuffer}

theorem Pending.headerSize (h : Pending mem b) :
    Util.headerSize (b.unread mem) = headerLength mem b + 3 ∧
      headerLength mem b + 3 <= b.readpos - b.scanpos := by
  have hne : Util.announced b.maxMessageSize (b.unread mem) ≠ 0 :=
    h.announced ▸ h.ne_zero
  have hheader := (headerSize_le_of_announced hne).1
  have hlength := b.length_unread mem
  have htwo : 2 <= b.readpos - b.scanpos := by
    unfold Util.headerSize at hheader
    omega
  have hsize : Util.headerSize (b.unread mem) = headerLength mem b + 3 :=
    headerSize_unread htwo
  rw [hsize, hlength] at hheader
  exact ⟨hsize, hheader⟩

/-- A frame that the buffer waits for fits into it. -/
theorem Pending.total_le (h : Pending mem b) :
    headerLength mem b + 3 + b.msglen <= b.maxsize := by
  have hmsglen := announced_le b.maxMessageSize (b.unread mem)
  rw [← h.announced] at hmsglen
  have hhlen : headerLength mem b < 256 := UInt8.toNat_lt _
  have hmaxsize := b.hdr_lt
  unfold InputBuffer.maxMessageSize at hmsglen
  unfold lsbMaxHdrSize lsbHdrFrameSize at hmsglen hmaxsize
  omega

theorem needed_eq (h : Pending mem b) (hhlen : headerLength mem b < 128) :
    needed mem b =
      headerLength mem b + 3 + b.msglen - (b.readpos - b.scanpos) := by
  have hshort := h.short
  have hle := h.total_le
  have hmaxsize := b.maxsize_le
  have hchar : charToSize (mem (b.buf + b.scanpos + 1)) =
      headerLength mem b := if_pos hhlen
  unfold needed
  rw [if_pos h.ne_zero, hchar]
  unfold lsbHdrFrameSize
  omega

theorem needed_ne (h : Pending mem b) (hhlen : 128 <= headerLength mem b) :
    needed mem b ≠
      headerLength mem b + 3 + b.msglen - (b.readpos - b.scanpos) := by
  have hshort := h.short
  have hle := h.total_le
  have hmaxsize := b.maxsize_le
  have hchar : charToSize (mem (b.buf + b.scanpos + 1)) =
      2 ^ 64 - 256 + headerLength mem b := if_neg (Nat.not_lt.mpr hhlen)
  unfold needed
  rw [if_pos h.ne_zero, hchar]
  unfold lsbHdrFrameSize
  omega

/-- The missing bytes fit into the buffer, if it can be reallocated. -/
theorem Pending.expands (h : Pending mem b) {n tmp : Nat}
    (hn : n = headerLength mem b + 3 + b.msglen - (b.readpos - b.scanpos)) :
    (lsbExpandInputBuffer mem (some tmp) b n).1 = none := by
  have hle := h.total_le
  have hscan := b.scanpos_le
  have hread := b.readpos_le
  have hsize := b.size_le
  have hmaxsize := b.maxsize_le
  have hshifted : (shiftData mem b).2.readpos + n <= b.maxsize ∧
      (shiftData mem b).2.maxsize = b.maxsize := by
    unfold shiftData
    split
    · split
      · exact ⟨by dsimp only; omega, rfl⟩
      · exact ⟨by dsimp only; omega, rfl⟩
    · exact ⟨by dsimp only; omega, rfl⟩
  generalize hshift : shiftData mem b = r at hshifted
  rcases r with ⟨mem₁, b₁⟩
  unfold lsbExpandInputBuffer
  rw [hshift]
  dsimp only at hshifted ⊢
  split
  · rw [dif_neg (by omega)]
  · rfl

/-- With the missing bytes the frame is examined. -/
theorem Pending.completes (h : Pending mem b) {tmp : Nat} {chunk : Chunk}
    (hn : chunk.1.length =
      headerLength mem b + 3 + b.msglen - (b.readpos - b.scanpos)) :
    exists mem' b', appendChunk mem (some tmp) b chunk = some (mem', b') ∧
      IsExamined mem' b' := by
  have hexpands : (lsbExpandInputBuffer mem (some tmp) b
      chunk.1.length).1 = none := h.expands hn
  have happend : (appendChunk mem (some tmp) b chunk).isSome = true := by
    unfold appendChunk
    split
    · rename_i hexpand
      rw [hexpand] at hexpands
      cases hexpands
    · rfl
  rcases Option.isSome_iff_exists.mp happend with ⟨⟨mem', b'⟩, happend'⟩
  refine ⟨mem', b', happend', fun m decode msglen hwait => ?_⟩
  rcases appendChunk_keeps happend' with ⟨hunread, hmsglen, hmaxsize⟩
  have hmax : b'.maxMessageSize = b.maxMessageSize :=
    congrArg (· - lsbMaxHdrSize) hmaxsize
  have hresumable : Util.Resumable mem' b' :=
    Util.Resumable.append (fun _ => h.announced) hunread hmsglen hmaxsize
  have hne : b'.msglen ≠ 0 := hmsglen ▸ h.ne_zero
  have hmarked := (hresumable.marked hne).1
  have hexamines : Examines decode mem' m b' (examine mem' m b' decode) :=
    examine_spec hmarked hresumable
  rw [hwait] at hexamines
  -- all bytes of the frame are there, so the verdict is not undecided
  have hannounced : Util.announced b'.maxMessageSize (b'.unread mem') =
      b.msglen := by
    rw [← hresumable hne, hmsglen]
  have hcomplete : ¬ (b'.unread mem').length <
      Util.headerSize (b'.unread mem') + b.msglen := by
    have hheader := h.headerSize
    have hlength := b.length_unread mem
    have hpos : 0 < (b.unread mem).length := by omega
    have hsize := (announced_append b.maxMessageSize chunk.1
      (by omega) hpos).2
    rw [hunread, hsize, List.length_append, hn]
    omega
  cases hexamines with
  | wait hverdict _ =>
      have hshort := (frameVerdict_undecided_iff
        (by rw [hannounced]; exact h.ne_zero)).mp hverdict
      rw [hannounced] at hshort
      exact hcomplete hshort

theorem needExact_iff (h : Pending mem b) :
    NeedExact mem b (needed mem b) <-> headerLength mem b < 128 := by
  have hshort := h.short
  have hscan := b.scanpos_le
  constructor
  · intro hexact
    by_contra hhlen
    refine needed_ne h (Nat.not_lt.mp hhlen) ?_
    have hmissing := hexact.missing
    unfold lsbHdrFrameSize at hmissing
    omega
  · intro hhlen
    have hneeded := needed_eq h hhlen
    exact {
      missing := by
        unfold lsbHdrFrameSize
        omega
      pos := by omega
      expands := fun tmp => h.expands hneeded
      completes := fun tmp chunk hn => h.completes (hn.trans hneeded) }

end

/-- A search that stops behind a complete header leaves the start of a frame
in the buffer. -/
theorem pending_of_scans {decode : Bool} {mem : Memory} {ib : InputBuffer}
    {r : Finding}
    (h : Scans decode mem ib r
      ((frames decode ib.maxMessageSize).seek (ib.unread mem)))
    (hfound : r.found = false) (hne : r.ib.msglen ≠ 0) :
    Pending mem r.ib := by
  have hmax : r.ib.maxMessageSize = ib.maxMessageSize :=
    congrArg (· - lsbMaxHdrSize) h.maxsize
  have hannounced : r.ib.msglen =
      announced r.ib.maxMessageSize (r.ib.unread mem) := by
    rw [h.msglen, hfound, h.unread, hmax]
    rfl
  have hnone : ((frames decode ib.maxMessageSize).seek
      (ib.unread mem)).found = none :=
    Option.not_isSome_iff_eq_none.mp (by rw [← h.found, hfound]; nofun)
  have hundecided : frameVerdict decode ib.maxMessageSize (r.ib.unread mem) =
      Verdict.undecided := by
    rw [h.unread]
    exact (frames decode ib.maxMessageSize).seek_rest_undecided hnone
  have hne' : announced ib.maxMessageSize (r.ib.unread mem) ≠ 0 := by
    rw [← hmax, ← hannounced]
    exact hne
  have hshort := (frameVerdict_undecided_iff hne').mp hundecided
  have hheader := (headerSize_le_of_announced hne').1
  have hlength := r.ib.length_unread mem
  have hsize : Util.headerSize (r.ib.unread mem) = headerLength mem r.ib + 3 :=
    headerSize_unread (by unfold Util.headerSize at hheader; omega)
  rw [← hmax, ← hannounced] at hshort
  exact ⟨hannounced, hne, by omega⟩

/--
A search that stops behind a complete header reports how many bytes are
missing, or reads as many from its file.  The number is right if and only if
the header length is less than 128.
-/
theorem hsrFindMessage_need_iff {s s' : ReaderState} {alloc : Option Nat}
    {args : List Argument} {options : SearchOptions} {r : Finding}
    (hs : HsrReachable s)
    (hoptions : searchOptions alloc s args = (Except.ok options, s'))
    (hr : lsbFindHekaMessage s'.mem s'.hsr.msg s'.hsr.buf
      options.decode = r)
    (hfound : r.found = false) (hmsglen : r.ib.msglen ≠ 0) :
    (options.fh = none -> exists c, hsrFindMessage alloc s args =
      (Except.ok ⟨false, c, toLongLong (needed s'.mem r.ib)⟩,
        s'.searched r)) ∧
    (NeedExact s'.mem r.ib (needed s'.mem r.ib) <->
      headerLength s'.mem r.ib < 128) := by
  constructor
  · intro hfh
    refine ⟨consumed s'.hsr.buf r.ib false, ?_⟩
    simp only [hsrFindMessage, hoptions, hr, hfh, reportSearch, hfound]
    rfl
  · have hresumable := searchOptions_resumable hoptions hs.resumable
    have hscans := lsbFindHekaMessage_scans s'.mem s'.hsr.msg s'.hsr.buf
      options.decode hresumable
    rw [hr] at hscans
    exact needExact_iff (pending_of_scans hscans hfound hmsglen)

/-- A new reader for messages of up to 1000 bytes. -/
def newReader : ReaderState :=
  ⟨fun _ => 0, ⟨"", lsbClearHekaMessage, {
    buf := 0
    size := 1258
    maxsize := 1258
    readpos := 0
    scanpos := 0
    msglen := 0
    scanpos_le := scanpos_zero
    readpos_le := by decide
    size_le := by decide
    hdr_lt := by decide
    maxsize_le := by decide }⟩⟩

theorem newReader_reachable : HsrReachable newReader := by
  have hcreate : hekaCreateStreamReader "" (fun _ => 0) (some 0) 1000
      (by decide) = some newReader := rfl
  exact HsrReachable.create hcreate

theorem hsrFindMessage_need_iff_sample :
    exists s' r, searchOptions none newReader
        [Argument.string ⟨[0x1e, 2, 8, 20, 0x1f], by decide⟩] =
          (Except.ok ⟨none, true⟩, s') ∧
      lsbFindHekaMessage s'.mem s'.hsr.msg s'.hsr.buf true = r ∧
      (((⟨none, true⟩ : SearchOptions).fh = none -> exists c,
        hsrFindMessage none newReader
          [Argument.string ⟨[0x1e, 2, 8, 20, 0x1f], by decide⟩] =
            (Except.ok ⟨false, c, toLongLong (needed s'.mem r.ib)⟩,
              s'.searched r)) ∧
      (NeedExact s'.mem r.ib (needed s'.mem r.ib) <->
        headerLength s'.mem r.ib < 128)) :=
  ⟨_, _, rfl, rfl, hsrFindMessage_need_iff newReader_reachable rfl rfl
    (by decide +kernel) (by decide +kernel)⟩

/-- The start of a frame with a header of 128 bytes. -/
def longHeader : Chunk :=
  ⟨[0x1e, 128, 8, 20] ++ List.replicate 126 0 ++ [0x1f],
    by decide +kernel⟩

set_option maxRecDepth 2000 in
theorem hsrFindMessage_long_header :
    ¬ forall (s s' : ReaderState) (alloc : Option Nat) (args : List Argument)
      (options : SearchOptions), HsrReachable s ->
      searchOptions alloc s args = (Except.ok options, s') ->
      forall r, lsbFindHekaMessage s'.mem s'.hsr.msg s'.hsr.buf
        options.decode = r ->
      r.found = false -> r.ib.msglen ≠ 0 ->
      NeedExact s'.mem r.ib (needed s'.mem r.ib) := by
  intro h
  have hexact := h newReader _ none [Argument.string longHeader] ⟨none, true⟩
    newReader_reachable rfl _ rfl (by decide +kernel) (by decide +kernel)
  exact absurd hexact.missing (by decide +kernel)

end Heka
end LuaSandbox
