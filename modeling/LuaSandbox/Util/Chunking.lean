import LuaSandbox.Util.FrameSpec

/-!
# Streams that arrive in chunks

Append a chunk to the buffer, then search until no message is found.  What is
found over a whole stream does not depend on how it is cut into chunks.
-/

namespace LuaSandbox
namespace Util

open Foundation

/-!
## The reading loop
-/

/-- Make room for a chunk and append it. -/
def appendChunk (mem : Memory) (alloc : Option Nat) (b : InputBuffer)
    (chunk : Chunk) : Option (Memory × InputBuffer) :=
  match h : lsbExpandInputBuffer mem alloc b chunk.1.length with
  | (some _, _, _) => none
  | (none, mem, b) =>
      some (addData mem b chunk.1 (lsbExpandInputBuffer_fits_chunk h))

/-- A search that finds a message moves forward. -/
theorem lsbFindHekaMessage_progress {mem : Memory} {m : HekaMessage}
    {ib : InputBuffer} {decode : Bool}
    (h : (lsbFindHekaMessage mem m ib decode).found = true) :
    (lsbFindHekaMessage mem m ib decode).ib.readpos = ib.readpos ∧
      ib.scanpos < (lsbFindHekaMessage mem m ib decode).ib.scanpos := by
  fun_induction lsbFindHekaMessage mem m ib decode with
  | case1 => cases h
  | case2 => cases h
  | case3 => cases h
  | case4 _ ib _ p _ hbounds hlt discarded start m' msglen _ ih =>
      rcases ih h with ⟨hread, hscan⟩
      refine ⟨hread, Nat.lt_trans ?_ hscan⟩
      change ib.scanpos < p - ib.buf + 1
      omega
  | case5 _ ib _ p _ hbounds hlt discarded start m' mend hmend =>
      refine ⟨rfl, Nat.lt_of_le_of_lt ?_ hmend.1⟩
      change ib.scanpos <= p - ib.buf
      omega

/-- What the searches in a buffer found, and the state they left behind. -/
structure Collected where
  messages : List MessageContents
  discardedBytes : Nat
  m : HekaMessage
  ib : InputBuffer

/-- What was found before `r`. -/
def Collected.after (messages : List MessageContents) (discarded : Nat)
    (r : Collected) : Collected :=
  { r with
    messages := messages ++ r.messages
    discardedBytes := discarded + r.discardedBytes }

/-- Search until no message is found. -/
def findAll (mem : Memory) (m : HekaMessage) (ib : InputBuffer)
    (decode : Bool) : Collected :=
  match _hr : lsbFindHekaMessage mem m ib decode with
  | ⟨false, m, ib, discarded⟩ => ⟨[], discarded, m, ib⟩
  | ⟨true, m, ib, discarded⟩ =>
      (findAll mem m ib decode).after [m.contents mem] discarded
termination_by ib.readpos - ib.scanpos
decreasing_by
  have hprogress := lsbFindHekaMessage_progress (congrArg Finding.found _hr)
  have hread := congrArg (fun r => r.ib.readpos) _hr
  have hscan := congrArg (fun r => r.ib.scanpos) _hr
  dsimp only at hread hscan
  rw [hread, hscan] at hprogress
  have hle := InputBuffer.scanpos_le (by assumption)
  omega

/-- Read a stream in chunks; the allocations are those for each chunk. -/
def readChunks (decode : Bool) :
    List (Chunk × Option Nat) -> Memory -> HekaMessage ->
      InputBuffer -> Option (Memory × Collected)
  | [], mem, m, ib => some (mem, ⟨[], 0, m, ib⟩)
  | (chunk, alloc) :: rest, mem, m, ib =>
      match appendChunk mem alloc ib chunk with
      | none => none
      | some (mem, ib) =>
          let c := findAll mem m ib decode
          match readChunks decode rest mem c.m c.ib with
          | none => none
          | some (mem, c') =>
              some (mem, c'.after c.messages c.discardedBytes)

/-!
## One search after the other
-/

/-- The searches in a buffer find the frames of its unread bytes. -/
structure Drains (decode : Bool) (mem : Memory) (ib : InputBuffer)
    (r : Collected) (x : Drained UInt8) : Prop where
  messages : r.messages = x.frames.map (fun f => framed decode (payload f))
  discarded : r.discardedBytes = x.skipped
  unread : r.ib.unread mem = x.pending
  msglen : r.ib.msglen = announced ib.maxMessageSize x.pending
  maxsize : r.ib.maxsize = ib.maxsize

theorem findAll_drains (mem : Memory) (m : HekaMessage) (ib : InputBuffer)
    (decode : Bool) (hresumable : Resumable mem ib) :
    Drains decode mem ib (findAll mem m ib decode)
      ((frames decode ib.maxMessageSize).drain (ib.unread mem)) := by
  fun_induction findAll mem m ib decode with
  | case1 m ib m' ib' discarded hr =>
      have hscans := lsbFindHekaMessage_scans mem m ib decode hresumable
      rw [hr] at hscans
      have hnone : ((frames decode ib.maxMessageSize).seek
          (ib.unread mem)).found = none :=
        Option.not_isSome_iff_eq_none.mp (by rw [← hscans.found]; nofun)
      rw [(frames decode ib.maxMessageSize).drain_of_none hnone]
      exact ⟨rfl, hscans.discarded, hscans.unread, hscans.msglen,
        hscans.maxsize⟩
  | case2 m ib m' ib' discarded hr ih =>
      have hscans := lsbFindHekaMessage_scans mem m ib decode hresumable
      rw [hr] at hscans
      rcases Option.isSome_iff_exists.mp hscans.found.symm with ⟨f, hf⟩
      have hrest := ih (resumable_zero hscans.msglen)
      have hmaxsize : ib'.maxMessageSize = ib.maxMessageSize :=
        congrArg (· - lsbMaxHdrSize) hscans.maxsize
      rw [hmaxsize, hscans.unread] at hrest
      rw [(frames decode ib.maxMessageSize).drain_of_some hf]
      refine ⟨?_, ?_, hrest.unread, ?_, hrest.maxsize.trans hscans.maxsize⟩
      · change [m'.contents mem] ++ _ = _
        rw [hscans.message f hf, hrest.messages]
        rfl
      · have hdiscarded : discarded = _ := hscans.discarded
        change discarded + _ = (_ : Nat) + _
        rw [hrest.discarded, hdiscarded]
      · have hmsglen := hrest.msglen
        rw [hmaxsize] at hmsglen
        exact hmsglen

theorem appendChunk_keeps {mem mem' : Memory} {alloc : Option Nat}
    {b b' : InputBuffer} {chunk : Chunk}
    (h : appendChunk mem alloc b chunk = some (mem', b')) :
    b'.unread mem' = b.unread mem ++ chunk.1 ∧ b'.msglen = b.msglen ∧
      b'.maxsize = b.maxsize := by
  unfold appendChunk at h
  split at h
  · cases h
  · rename_i mem₁ b₁ hexpand
    rcases lsbExpandInputBuffer_keeps hexpand with
      ⟨hunread, hmsglen, hmaxsize⟩
    have hfits := lsbExpandInputBuffer_fits_chunk hexpand
    have hdata : (addData mem₁ b₁ chunk.1 hfits).2.unread
        (addData mem₁ b₁ chunk.1 hfits).1 = b₁.unread mem₁ ++ chunk.1 :=
      unread_addData hfits
    have hkept : (addData mem₁ b₁ chunk.1 hfits).2.msglen = b₁.msglen ∧
        (addData mem₁ b₁ chunk.1 hfits).2.maxsize = b₁.maxsize :=
      ⟨rfl, rfl⟩
    rw [Option.some.inj h] at hdata hkept
    exact ⟨hdata.trans (by rw [hunread]), hkept.1.trans hmsglen,
      hkept.2.trans hmaxsize⟩

/-- More data does not change the message that the buffer waits for. -/
theorem Resumable.append {mem mem' : Memory} {b b' : InputBuffer}
    {chunk : List UInt8} (h : Resumable mem b)
    (hunread : b'.unread mem' = b.unread mem ++ chunk)
    (hmsglen : b'.msglen = b.msglen) (hmaxsize : b'.maxsize = b.maxsize) :
    Resumable mem' b' := by
  intro hne
  rw [hmsglen] at hne ⊢
  have hannounced := h hne
  have hmax : b'.maxMessageSize = b.maxMessageSize :=
    congrArg (· - lsbMaxHdrSize) hmaxsize
  have hcomplete : headerSize (b.unread mem) <= (b.unread mem).length := by
    by_contra hshort
    have hzero : announced b.maxMessageSize (b.unread mem) = 0 :=
      if_pos (Or.inl (Nat.not_le.mp hshort))
    exact hne (hannounced.trans hzero)
  have hpos : 0 < (b.unread mem).length := by
    unfold headerSize at hcomplete
    omega
  rw [hunread, hmax, (announced_append _ chunk hcomplete hpos).1]
  exact hannounced

/-!
## Chunks
-/

theorem readChunks_drains {decode : Bool}
    (chunks : List (Chunk × Option Nat)) :
    forall {mem mem' : Memory} {m : HekaMessage} {ib : InputBuffer}
      {r : Collected},
      Resumable mem ib ->
      ib.msglen = announced ib.maxMessageSize (ib.unread mem) ->
      readChunks decode chunks mem m ib = some (mem', r) ->
      Drains decode mem' ib r ((frames decode ib.maxMessageSize).drainChunks
        (ib.unread mem) (chunks.map (fun c => c.1.1))) := by
  induction chunks with
  | nil =>
      intro mem mem' m ib r _ hmsglen h
      cases h
      exact ⟨rfl, rfl, rfl, hmsglen, rfl⟩
  | cons x rest ih =>
      intro mem mem' m ib r hresumable hmsglen h
      rcases x with ⟨chunk, alloc⟩
      simp only [readChunks] at h
      split at h
      · cases h
      rename_i mem₁ ib₁ happend
      split at h
      · cases h
      rename_i mem₂ c' hrest
      cases h
      rcases appendChunk_keeps happend with ⟨hunread, hmsglen₁, hmaxsize₁⟩
      have hresumable₁ := hresumable.append hunread hmsglen₁ hmaxsize₁
      have hmax₁ : ib₁.maxMessageSize = ib.maxMessageSize :=
        congrArg (· - lsbMaxHdrSize) hmaxsize₁
      have hdrains := findAll_drains mem₁ m ib₁ decode hresumable₁
      rw [hmax₁, hunread] at hdrains
      have hmax₂ : (findAll mem₁ m ib₁ decode).ib.maxMessageSize =
          ib.maxMessageSize :=
        congrArg (· - lsbMaxHdrSize) (hdrains.maxsize.trans hmaxsize₁)
      have hmsglen₂ := hdrains.msglen
      rw [hmax₁, ← hdrains.unread, ← hmax₂] at hmsglen₂
      have hdrains' := ih (fun _ => hmsglen₂) hmsglen₂ hrest
      rw [hmax₂, hdrains.unread] at hdrains'
      have hfinal := hdrains'.msglen
      rw [hmax₂] at hfinal
      refine ⟨?_, ?_, hdrains'.unread, hfinal, ?_⟩
      · change (findAll mem₁ m ib₁ decode).messages ++ c'.messages = _
        rw [hdrains.messages, hdrains'.messages, ← List.map_append]
        rfl
      · change (findAll mem₁ m ib₁ decode).discardedBytes +
          c'.discardedBytes = _
        rw [hdrains.discarded, hdrains'.discarded]
        rfl
      · exact hdrains'.maxsize.trans (hdrains.maxsize.trans hmaxsize₁)

/-- The state after a search that found no message. -/
structure Waiting (decode : Bool) (mem : Memory) (ib : InputBuffer) :
    Prop where
  undecided : frameVerdict decode ib.maxMessageSize (ib.unread mem) =
    Verdict.undecided
  msglen : ib.msglen = announced ib.maxMessageSize (ib.unread mem)

theorem waiting_empty {decode : Bool} {mem : Memory} {ib : InputBuffer}
    (hunread : ib.unread mem = []) (hmsglen : ib.msglen = 0) :
    Waiting decode mem ib := by
  constructor
  · rw [hunread]
    rfl
  · rw [hunread]
    exact hmsglen

/--
Two ways of cutting a stream into chunks that fit into the buffer lead to the
same messages, the same number of discarded bytes, the same pending bytes and
the same pending message length.
-/
theorem readChunks_independent {decode : Bool}
    {chunks chunks' : List (Chunk × Option Nat)}
    {mem mem' memEnd memEnd' : Memory} {m m' : HekaMessage}
    {ib ib' : InputBuffer} {r r' : Collected}
    (hwaiting : Waiting decode mem ib) (hwaiting' : Waiting decode mem' ib')
    (hmaxsize : ib.maxsize = ib'.maxsize)
    (hunread : ib.unread mem = ib'.unread mem')
    (hstream : (chunks.map (fun c => c.1.1)).flatten =
      (chunks'.map (fun c => c.1.1)).flatten)
    (h : readChunks decode chunks mem m ib = some (memEnd, r))
    (h' : readChunks decode chunks' mem' m' ib' = some (memEnd', r')) :
    r.messages = r'.messages ∧ r.discardedBytes = r'.discardedBytes ∧
      r.ib.unread memEnd = r'.ib.unread memEnd' ∧
      r.ib.msglen = r'.ib.msglen := by
  have hmax : ib'.maxMessageSize = ib.maxMessageSize :=
    congrArg (· - lsbMaxHdrSize) hmaxsize.symm
  have hdrains := readChunks_drains chunks (fun _ => hwaiting.msglen)
    hwaiting.msglen h
  have hdrains' := readChunks_drains chunks' (fun _ => hwaiting'.msglen)
    hwaiting'.msglen h'
  have hmsglen' := hdrains'.msglen
  rw [(frames decode ib.maxMessageSize).drainChunks_eq _ hwaiting.undecided,
    hstream, hunread] at hdrains
  rw [(frames decode ib'.maxMessageSize).drainChunks_eq _
    hwaiting'.undecided, hmax] at hdrains' hmsglen'
  exact ⟨hdrains.messages.trans hdrains'.messages.symm,
    hdrains.discarded.trans hdrains'.discarded.symm,
    hdrains.unread.trans hdrains'.unread.symm,
    hdrains.msglen.trans hmsglen'.symm⟩

theorem readChunks_independent_sample :
    exists memEnd memEnd' r r',
      readChunks true [(⟨[0x61, 0x1e, 0x02, 0x08], by decide⟩, none)] (fun _ => 0)
        lsbClearHekaMessage (filledBuffer 0 (by decide)) =
          some (memEnd, r) ∧
      readChunks true [(⟨[0x61, 0x1e], by decide⟩, none),
          (⟨[0x02, 0x08], by decide⟩, none)]
        (fun _ => 0) lsbClearHekaMessage (filledBuffer 0 (by decide)) =
          some (memEnd', r') ∧
      r.messages = r'.messages ∧ r.discardedBytes = r'.discardedBytes ∧
      r.ib.unread memEnd = r'.ib.unread memEnd' ∧
      r.ib.msglen = r'.ib.msglen := by
  have hsome : (readChunks true [(⟨[0x61, 0x1e, 0x02, 0x08], by decide⟩, none)]
      (fun _ => 0) lsbClearHekaMessage
      (filledBuffer 0 (by decide))).isSome = true := by decide
  have hsome' : (readChunks true [(⟨[0x61, 0x1e], by decide⟩, none), (⟨[0x02, 0x08], by decide⟩, none)]
      (fun _ => 0) lsbClearHekaMessage
      (filledBuffer 0 (by decide))).isSome = true := by decide +kernel
  rcases Option.isSome_iff_exists.mp hsome with ⟨⟨memEnd, r⟩, h⟩
  rcases Option.isSome_iff_exists.mp hsome' with ⟨⟨memEnd', r'⟩, h'⟩
  have hwaiting : Waiting true (fun _ => 0) (filledBuffer 0 (by decide)) :=
    waiting_empty rfl rfl
  exact ⟨memEnd, memEnd', r, r', h, h',
    readChunks_independent hwaiting hwaiting rfl rfl (by rfl) h h'⟩

end Util
end LuaSandbox
